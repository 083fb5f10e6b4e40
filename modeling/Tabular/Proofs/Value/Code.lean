-- SUMMARY: Dates and the numbers YYYYMMDD that they are cast to: which numbers are dates, their order, and which dates come back.
import Mathlib.Algebra.Order.Ring.Int
import Tabular.Proofs.Results
import Tabular.Proofs.Value.Text
import Tabular.Value.Cast

/-!
# Numbers of dates

A date has the number `year * 10000 + month * 100 + day`, also in a negative year, so numbers are ordered as their dates
are. Reading a number takes it apart towards zero. A number with a month and a day is positive, so what is read is a date
of the year 0 or later, and it is the date whose number was read. The numbers of earlier dates are refused.
-/

namespace Tabular

namespace Date

/-- Months and days count from one. -/
theorem digits_pos (d : Date) : 0 < d.month ∧ 0 < d.day := by
  have hcivil := d.civil
  simp only [isCivil, Bool.and_eq_true, decide_eq_true_eq] at hcivil
  refine ⟨Nat.pos_of_ne_zero fun hmonth => ?_, hcivil.1.2⟩
  have hnone : monthLength d.year d.month = 0 := by rw [hmonth]; rfl
  omega

theorem year_bounds (d : Date) : -262143 ≤ d.year ∧ d.year ≤ 262142 := by
  have hcivil := d.civil
  simp only [isCivil, Bool.and_eq_true, decide_eq_true_eq] at hcivil
  exact hcivil.1.1

/-- Numbers of dates are ordered as the dates are: month and day take two digits each, and both are added. -/
theorem compare_toCode (a b : Date) : Ord.compare a.toCode b.toCode = a.compare b := by
  obtain ⟨hmonthA, hdayA⟩ := a.two_digits
  obtain ⟨hmonthB, hdayB⟩ := b.two_digits
  unfold compare toCode
  rcases lt_trichotomy a.year b.year with hyear | hyear | hyear
  · rw [compare_lt_iff_lt.2 hyear, Ordering.lt_then, compare_lt_iff_lt]
    omega
  · rw [compare_eq_iff_eq.2 hyear, Ordering.eq_then]
    rcases lt_trichotomy a.month b.month with hmonth | hmonth | hmonth
    · rw [compare_lt_iff_lt.2 hmonth, Ordering.lt_then, compare_lt_iff_lt]
      omega
    · rw [compare_eq_iff_eq.2 hmonth, Ordering.eq_then]
      rcases lt_trichotomy a.day b.day with hday | hday | hday
      · rw [compare_lt_iff_lt.2 hday, compare_lt_iff_lt]
        omega
      · rw [compare_eq_iff_eq.2 hday, compare_eq_iff_eq]
        omega
      · rw [compare_gt_iff_gt.2 hday, compare_gt_iff_gt]
        omega
    · rw [compare_gt_iff_gt.2 hmonth, Ordering.gt_then, compare_gt_iff_gt]
      omega
  · rw [compare_gt_iff_gt.2 hyear, Ordering.gt_then, compare_gt_iff_gt]
    omega

/-! ## Reading a number -/

theorem ofCivil?_eq_some_iff {year : Int} {month day : Nat} {d : Date} :
    ofCivil? year month day = some d ↔ d.year = year ∧ d.month = month ∧ d.day = day := by
  unfold ofCivil?
  constructor
  · intro h
    split at h
    · obtain rfl := Option.some.inj h
      exact ⟨rfl, rfl, rfl⟩
    · simp at h
  · rintro ⟨rfl, rfl, rfl⟩
    exact dif_pos d.civil

/-- The last two digits of a negative number, taken towards zero, are no day. -/
theorem tmod_nonpos {code : Int} (h : code < 0) (base : Int) : code.tmod base ≤ 0 := by
  have hopposite := Int.tmod_nonneg base (show 0 ≤ -code by omega)
  rw [Int.neg_tmod] at hopposite
  omega

/-- The digits of a number that is not negative are those of its quotients. -/
theorem ofCode?_of_nonneg {code : Int} (h : 0 ≤ code) :
    ofCode? code = ofCivil? (code / 10000) (code / 100 % 100).toNat (code % 100).toNat := by
  have hshort : 0 ≤ code / 100 := by omega
  have hmonth : ¬code / 100 % 100 < 0 := by omega
  have hday : ¬code % 100 < 0 := by omega
  unfold ofCode?
  simp [Int.tdiv_eq_ediv_of_nonneg h, Int.tmod_eq_emod_of_nonneg h, Int.tmod_eq_emod_of_nonneg hshort, hmonth, hday]

/-- A number is read as a date exactly if it is the number of that date and the year is not negative. -/
theorem ofCode?_eq_some_iff {code : Int} {d : Date} : ofCode? code = some d ↔ 0 ≤ d.year ∧ d.toCode = code := by
  have hpositive := d.digits_pos
  have hdigits := d.two_digits
  by_cases hcode : 0 ≤ code
  · rw [ofCode?_of_nonneg hcode, ofCivil?_eq_some_iff, toCode]
    omega
  · have hday := tmod_nonpos (show code < 0 by omega) 100
    constructor
    · intro h
      unfold ofCode? at h
      dsimp only at h
      split at h
      · simp at h
      · obtain ⟨-, -, hread⟩ := ofCivil?_eq_some_iff.1 h
        omega
    · rintro ⟨hyear, heq⟩
      rw [toCode] at heq
      omega

end Date

/-! ## Casts -/

namespace Value

variable (patterns : List String)

/-- The number of every date fits into an integer. -/
theorem toInt_ofInt_toCode (d : Date) : (Int64.ofInt d.toCode).toInt = d.toCode := by
  have hyear := d.year_bounds
  have hdigits := d.two_digits
  apply Int64.toInt_ofInt_of_le
  · rw [Date.toCode]
    omega
  · rw [Date.toCode]
    omega

theorem cast_date_eq_ok_iff {n : Int64} {d : Date} :
    cast patterns .date (integer n) = .ok (date d) ↔ 0 ≤ d.year ∧ d.toCode = n.toInt := by
  rw [← Date.ofCode?_eq_some_iff, cast, cast?]
  cases Date.ofCode? n.toInt <;> simp

/-- A date is cast to its number. -/
theorem cast_date_integer (d : Date) : cast patterns .integer (date d) = .ok (integer (Int64.ofInt d.toCode)) := rfl

/-- An integer that is cast to a date is what the date is cast to. It is cast to a date exactly if its digits name a day of
    the calendar in the year 0 or later. The earlier of two dates has the lesser integer, also in negative years. -/
theorem cast_integer_exact_and_ordered :
    (∀ (n : Int64) (d : Date), cast patterns .date (integer n) = .ok (date d) →
      cast patterns .integer (date d) = .ok (integer n)) ∧
    (∀ n : Int64, (∃ d, cast patterns .date (integer n) = .ok (date d)) ↔ ∃ (year : Int) (month day : Nat),
      Date.isCivil year month day = true ∧ 0 ≤ year ∧ n.toInt = year * 10000 + month * 100 + day) ∧
    ∀ a b : Date, a.compare b = .lt → ∃ m n : Int64, cast patterns .integer (date a) = .ok (integer m) ∧
      cast patterns .integer (date b) = .ok (integer n) ∧ m < n := by
  refine ⟨?exact, ?readable, ?ordered⟩
  case exact =>
    intro n d h
    obtain ⟨-, hcode⟩ := (cast_date_eq_ok_iff patterns).1 h
    rw [cast_date_integer, hcode, Int64.ofInt_toInt]
  case readable =>
    intro n
    simp only [cast_date_eq_ok_iff]
    constructor
    · rintro ⟨d, hyear, hcode⟩
      exact ⟨d.year, d.month, d.day, d.civil, hyear, hcode.symm⟩
    · rintro ⟨year, month, day, hcivil, hyear, hcode⟩
      exact ⟨⟨year, month, day, hcivil⟩, hyear, hcode.symm⟩
  case ordered =>
    intro a b h
    refine ⟨_, _, cast_date_integer patterns a, cast_date_integer patterns b, ?_⟩
    rw [Int64.lt_iff_toInt_lt, toInt_ofInt_toCode, toInt_ofInt_toCode, ← compare_lt_iff_lt, Date.compare_toCode]
    exact h

/-- A leap day, and the last day before the year 0 beside the first in it. -/
theorem cast_integer_exact_and_ordered_leap :
    cast [] .date (integer 20240229) = .ok (date ⟨2024, 2, 29, by decide⟩) ∧
    cast [] .integer (date ⟨2024, 2, 29, by decide⟩) = .ok (integer 20240229) ∧
    ∃ m n : Int64, cast [] .integer (date ⟨-1, 12, 31, by decide⟩) = .ok (integer m) ∧
      cast [] .integer (date ⟨0, 1, 1, by decide⟩) = .ok (integer n) ∧ m < n := by
  obtain ⟨hexact, -, hordered⟩ := cast_integer_exact_and_ordered []
  have hread : cast [] .date (integer 20240229) = .ok (date ⟨2024, 2, 29, by decide⟩) := by rfl
  exact ⟨hread, hexact 20240229 _ hread, hordered _ _ (by decide)⟩

/-- A date comes back from its number exactly if its year is not negative; the number of an earlier date is refused. -/
theorem cast_date_cast_integer (d : Date) :
    (do cast patterns .date (← cast patterns .integer (date d))) =
      if 0 ≤ d.year then .ok (date d) else .error (.cast (toString d.toCode) .integer .date) := by
  change cast patterns .date (integer (Int64.ofInt d.toCode)) = _
  split
  · rename_i hyear
    exact (cast_date_eq_ok_iff patterns).2 ⟨hyear, (toInt_ofInt_toCode d).symm⟩
  · rename_i hyear
    have hnone : Date.ofCode? d.toCode = none := by
      rw [Option.eq_none_iff_forall_ne_some]
      intro e he
      obtain ⟨hpositive, hcode⟩ := Date.ofCode?_eq_some_iff.1 he
      have hdigits := d.two_digits
      rw [Date.toCode, Date.toCode] at hcode
      omega
    rw [cast, cast?, toInt_ofInt_toCode, hnone, text, toInt_ofInt_toCode]
    rfl

/-- Month and day bring the number of the last day before the year 0 closer to zero. -/
example : (do cast [] .date (← cast [] .integer (date ⟨-1, 12, 31, by decide⟩))) =
    .error (.cast "-8769" .integer .date) := by decide +kernel

end Value

end Tabular
