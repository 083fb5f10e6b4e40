-- SUMMARY: Integers and dates are read back from their texts.
import Mathlib.Algebra.Group.Nat.Defs
import Mathlib.Data.List.Basic
import Tabular.Proofs.Formula.Trim
import Tabular.Value

/-!
# Texts of integers and dates

An integer is read back from its text. So is a date: month and day take two digits each, and a year takes four unless
its sign shows, behind which all digits belong to it. So two dates have different texts.
-/

namespace Tabular

/-! ## Integers -/

namespace Decimal

theorem digitsValue_toDigits (n : Nat) : digitsValue (Nat.toDigits 10 n) = n := Nat.ofDigitChars_ten_toDigits

theorem natural?_toDigits (n : Nat) : natural? (Nat.toDigits 10 n) = some n := by
  have hempty : (Nat.toDigits 10 n).isEmpty = false := List.isEmpty_eq_false_iff.2 Nat.toDigits_ne_nil
  have hall : (Nat.toDigits 10 n).all Char.isDigit = true :=
    List.all_eq_true.2 fun c hc => Nat.isDigit_of_mem_toDigits (by decide) (by decide) hc
  rw [natural?, hempty, hall, digitsValue_toDigits]
  rfl

/-- Digits have no sign to split off. -/
theorem splitSign_toDigits (n : Nat) : splitSign (Nat.toDigits 10 n) = (false, Nat.toDigits 10 n) := by
  cases hdigits : Nat.toDigits 10 n with
  | nil => exact absurd hdigits Nat.toDigits_ne_nil
  | cons c rest =>
    have hc : c.isDigit = true :=
      Nat.isDigit_of_mem_toDigits (by decide) (by decide) (hdigits ▸ List.mem_cons_self)
    unfold splitSign
    split <;> simp_all [Char.isDigit]

theorem wholeNumber?_text (n : Int) : wholeNumber? (toString n).toList = some n := by
  rw [Int.toString_eq_repr, Int.repr_eq_if]
  split
  · rename_i hn
    rw [Nat.toList_repr, wholeNumber?, splitSign_toDigits]
    dsimp only
    rw [natural?_toDigits]
    simp [Int.toNat_of_nonneg hn]
  · rename_i hn
    have hdash : "-".toList = ['-'] := by decide
    rw [String.toList_append, Nat.toList_repr, hdash, List.singleton_append, wholeNumber?, splitSign]
    dsimp only
    rw [natural?_toDigits]
    exact congrArg some (by simp; omega)

/-- An integer is read back from its text. -/
theorem integer?_text (n : Int64) : integer? (Value.integer n).text.toList = some n := by
  have hfits : fitsInt64 n.toInt = true := by
    have hlow := n.le_toInt
    have hhigh := n.toInt_lt
    simp [fitsInt64]
    omega
  rw [integer?, Value.text, wholeNumber?_text, Option.bind_some, toInt64?, if_pos hfits, Int64.ofInt_toInt]

end Decimal

/-! ## Dates -/

namespace Date

/-- Zeros in front do not change a number. -/
theorem digitsValue_padded (width n : Nat) : Decimal.digitsValue (padded width n) = n := by
  show Nat.ofDigitChars 10 (List.replicate _ '0' ++ Nat.toDigits 10 n) 0 = n
  rw [Nat.ofDigitChars_append, Nat.ofDigitChars_replicate_zero, Nat.mul_zero, Nat.ofDigitChars_ten_toDigits]

theorem isDigit_padded (width n : Nat) : ∀ c ∈ padded width n, c.isDigit = true := by
  intro c hc
  rcases List.mem_append.1 hc with hc | hc
  · rw [(List.mem_replicate.1 hc).2]
    decide
  · exact Nat.isDigit_of_mem_toDigits (by decide) (by decide) hc

theorem monthLength_le (year : Int) (month : Nat) : monthLength year month ≤ 31 := by
  unfold monthLength
  split
  case h_12 => split <;> decide
  all_goals decide

/-- Months and days have two digits. -/
theorem two_digits (d : Date) : d.month < 100 ∧ d.day < 100 := by
  have hcivil := d.civil
  have hday := monthLength_le d.year d.month
  simp only [isCivil, Bool.and_eq_true, decide_eq_true_eq] at hcivil
  refine ⟨?_, by omega⟩
  -- A month beyond December has no days.
  by_contra hmonth
  have hnone : monthLength d.year d.month = 0 := by
    unfold monthLength
    split <;> omega
  omega

theorem length_padded {width n : Nat} (hwidth : 0 < width) (h : n < 10 ^ width) : (padded width n).length = width := by
  have hlength : (Nat.toDigits 10 n).length ≤ width := (Nat.length_toDigits_le_iff (by decide) hwidth).2 h
  rw [padded, List.length_append, List.length_replicate]
  omega

/-- A run of digits is read up to its end, be it by the width or by what follows. -/
theorem digits?_append {width : Nat} {run rest : List Char} (hrun : ∀ c ∈ run, c.isDigit = true) (hne : run ≠ [])
    (h : run.length = width ∨ run.length ≤ width ∧ rest.takeWhile Char.isDigit = []) :
    digits? width (run ++ rest) = some (Decimal.digitsValue run, rest) := by
  have htake : ((run ++ rest).takeWhile Char.isDigit).take width = run := by
    rw [List.takeWhile_append_of_pos hrun]
    rcases h with h | ⟨h, hrest⟩
    · exact List.take_left' h
    · rw [hrest, List.append_nil, List.take_of_length_le h]
  rw [digits?, htake, List.isEmpty_eq_false_iff.2 hne, List.drop_left]
  rfl

theorem padded_ne_nil (width n : Nat) : padded width n ≠ [] :=
  List.append_ne_nil_of_right_ne_nil _ Nat.toDigits_ne_nil

theorem digits?_padded {width n : Nat} {rest : List Char} (hwidth : 0 < width) (h : n < 10 ^ width) :
    digits? width (padded width n ++ rest) = some (n, rest) := by
  rw [digits?_append (isDigit_padded width n) (padded_ne_nil width n) (.inl (length_padded hwidth h)),
    digitsValue_padded]

/-- Every year is read back, also with its sign. -/
theorem year?_yearText (year : Int) (rest : List Char) :
    year? (yearText year ++ '-' :: rest) = some (year, '-' :: rest) := by
  by_cases hyear : 0 ≤ year ∧ year ≤ 9999
  · have hread : digits? 4 (padded 4 year.natAbs ++ '-' :: rest) = some (year.natAbs, '-' :: rest) :=
      digits?_padded (by decide) (by omega)
    rw [yearText, if_pos hyear, year?.eq_3, hread]
    · exact congrArg (fun n => some (n, '-' :: rest)) (Int.natAbs_of_nonneg hyear.1)
    -- The first character is a digit and no sign.
    all_goals
      intro more hmore
      have hhead : (padded 4 year.natAbs ++ '-' :: rest).head? = (padded 4 year.natAbs).head? :=
        List.head?_append_of_ne_nil _ (padded_ne_nil 4 _)
      rw [hmore] at hhead
      exact absurd (isDigit_padded 4 _ _ (List.mem_of_mem_head? hhead.symm)) (by decide)
  · have hread : ∀ size, (padded 4 year.natAbs).length ≤ size →
        digits? size (padded 4 year.natAbs ++ '-' :: rest) = some (year.natAbs, '-' :: rest) := by
      intro size hsize
      rw [digits?_append (isDigit_padded 4 _) (padded_ne_nil 4 _) (.inr ⟨hsize, rfl⟩), digitsValue_padded]
    rw [yearText, if_neg hyear]
    split
    · rename_i hnegative
      have hsize : -(year.natAbs : Int) = year := by omega
      rw [List.cons_append, year?, hread _ (by simp)]
      exact congrArg (fun n => some (n, '-' :: rest)) hsize
    · rename_i hpositive
      have hsize : (year.natAbs : Int) = year := by omega
      rw [List.cons_append, year?, hread _ (by simp)]
      exact congrArg (fun n => some (n, '-' :: rest)) hsize

theorem isBlank_of_isDigit {c : Char} (h : c.isDigit = true) : Text.isBlank c = false := by
  simp only [Char.isDigit, Bool.and_eq_true, decide_eq_true_eq, ge_iff_le, UInt32.le_iff_toNat_le] at h
  have hlow : 48 ≤ c.toNat := h.1
  have hhigh : c.toNat ≤ 57 := h.2
  simp [Text.isBlank, Text.inRanges, Text.blankRanges]
  omega

/-- A run of digits begins and ends visibly. -/
theorem tight_padded (width n : Nat) : Text.Tight (padded width n) :=
  Text.tight_of_forall (padded_ne_nil width n) fun c hc => isBlank_of_isDigit (isDigit_padded width n c hc)

theorem tight_yearText (year : Int) : Text.Tight (yearText year) := by
  unfold yearText
  split
  · exact tight_padded 4 _
  · refine Text.tight_of_forall (List.cons_ne_nil _ _) ?_
    rw [List.forall_mem_cons]
    exact ⟨by split <;> decide, fun c hc => isBlank_of_isDigit (isDigit_padded 4 _ c hc)⟩

/-- What begins visibly is not shortened at its start. -/
theorem trimStart_append_of_tight {text : List Char} (h : Text.Tight text) (rest : List Char) :
    Text.trimStart (text ++ rest) = text ++ rest := by
  obtain ⟨⟨c, hc, hblank⟩, -⟩ := h
  exact Text.trimStart_eq_self (by simp [hc]) hblank

/-- Every date is read back by the pattern that it is written in. -/
theorem ofPattern?_text (d : Date) : ofPattern? "%Y-%m-%d" d.text = some d := by
  obtain ⟨hmonth, hday⟩ := two_digits d
  have hitems : items "%Y-%m-%d".toList = [.year, .literal '-', .month, .literal '-', .day] := by decide
  have htext : d.text.toList = yearText d.year ++ '-' :: (padded 2 d.month ++ '-' :: (padded 2 d.day ++ [])) := by
    rw [text, String.toList_ofList, List.append_assoc, List.cons_append, List.append_nil]
  have htight : Text.Tight d.text.toList := by
    have := (tight_yearText d.year).append (tight_padded 2 d.day) ('-' :: (padded 2 d.month ++ ['-']))
    rwa [List.cons_append, List.append_assoc, List.singleton_append, ← List.append_nil (padded 2 d.day), ← htext]
      at this
  have hyearItem : ∀ rest, readItem .year ⟨none, none, none, none⟩ (yearText d.year ++ '-' :: rest) =
      some (⟨some d.year, none, none, none⟩, '-' :: rest) := by
    intro rest
    rw [readItem, trimStart_append_of_tight (tight_yearText _), year?_yearText]
    rfl
  have hmonthItem : ∀ year rest, readItem .month ⟨year, none, none, none⟩ (padded 2 d.month ++ rest) =
      some (⟨year, some d.month, none, none⟩, rest) := by
    intro year rest
    rw [readItem, trimStart_append_of_tight (tight_padded _ _), digits?_padded (by decide) hmonth]
    rfl
  have hdayItem : ∀ year month rest, readItem .day ⟨year, month, none, none⟩ (padded 2 d.day ++ rest) =
      some (⟨year, month, some d.day, none⟩, rest) := by
    intro year month rest
    rw [readItem, trimStart_append_of_tight (tight_padded _ _), digits?_padded (by decide) hday]
    rfl
  have hdash : ∀ fields rest, readItem (.literal '-') fields ('-' :: rest) = some (fields, rest) := fun _ _ => rfl
  have hcivil : ofCivil? d.year d.month d.day = some d := dif_pos d.civil
  rw [ofPattern?, hitems, Text.trim_eq_self htight, htext]
  simp only [readItems, hyearItem, hmonthItem, hdayItem, hdash, Option.bind_eq_bind, Option.bind_some]
  exact hcivil

/-- Different dates have different texts. -/
theorem text_inj {a b : Date} (h : a.text = b.text) : a = b := by
  have hread := congrArg (ofPattern? "%Y-%m-%d") h
  rwa [ofPattern?_text, ofPattern?_text, Option.some.injEq] at hread

end Date

end Tabular
