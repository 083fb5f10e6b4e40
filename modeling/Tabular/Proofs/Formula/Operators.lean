-- SUMMARY: Finding operators: texts without operators, and a text made of two of them with an operator between.
import Tabular.Proofs.Formula.Characters
import Tabular.Proofs.Formula.Nesting

/-!
# Finding operators

A text that shows no operator at its top level is passed over wherever it stands, as long as neither its
neighbours nor what is in front of it join with it: no symbol may reach over its end, and no number in front
of it may continue into it. Between two such texts exactly the operator that is written there is found
(`operators_binary`).
-/

namespace Tabular

/-! ## Symbols -/

/-- The characters that symbols begin with. -/
def beginsSymbol (c : Char) : Bool := ['=', '!', '>', '<', '&', '|', '+', '-', '*', '/', '^'].contains c

/-- The text does not begin with the second character of a symbol. -/
def EndsSymbol (text : List Char) : Prop := ∀ c, text.head? = some c → c ≠ '=' ∧ c ≠ '&' ∧ c ≠ '|'

theorem endsSymbol_nil : EndsSymbol [] := by
  intro c hc
  simp at hc

theorem endsSymbol_cons {c : Char} {text : List Char} (h : c ≠ '=' ∧ c ≠ '&' ∧ c ≠ '|') : EndsSymbol (c :: text) := by
  intro d hd
  obtain rfl : c = d := by simpa using hd
  exact h

namespace Symbol

theorem atStart?_eq_none {c : Char} {text : List Char} (h : beginsSymbol c = false) :
    atStart? (c :: text) = none := by
  unfold atStart?
  split <;> simp_all [beginsSymbol]

/-- Two characters decide the symbol at the start of a text. -/
theorem atStart?_cons_cons (c d : Char) (rest rest' : List Char) :
    atStart? (c :: d :: rest) = atStart? (c :: d :: rest') := by
  by_cases hd : d = '='
  · subst hd
    unfold atStart?
    split <;> simp_all
    all_goals
      rename_i hsingle heq
      exact hsingle rest heq.2.symm
  · unfold atStart?
    split <;> simp_all

theorem atStart?_cons (c : Char) {rest : List Char} (hrest : EndsSymbol rest) :
    atStart? (c :: rest) = atStart? [c] := by
  cases rest with
  | nil => rfl
  | cons d rest =>
    obtain ⟨heq, hand, hor⟩ := hrest d rfl
    unfold atStart?
    split <;> simp_all

/-- What follows a text does not change the symbol at its start, if no symbol reaches over its end. -/
theorem atStart?_append {text rest : List Char} (hne : text ≠ []) (hrest : EndsSymbol rest) :
    atStart? (text ++ rest) = atStart? text := by
  cases text with
  | nil => exact absurd rfl hne
  | cons c text =>
    cases text with
    | nil => exact atStart?_cons c hrest
    | cons d text => exact atStart?_cons_cons c d (text ++ rest) text

theorem atStart?_spelling (op : BinaryOp) {rest : List Char} (hrest : EndsSymbol rest) :
    atStart? (op.spelling ++ rest) = some (.binary op) := by
  have happend := @atStart?_append op.spelling rest (Symbol.binary op).spelling_ne_nil hrest
  rw [happend]
  cases op <;> rfl

/-- A sign is neither a quote nor a parenthesis nor a blank. -/
theorem eq_of_isSign {c : Char} {text : List Char} {symbol : Symbol} (h : atStart? (c :: text) = some symbol)
    (hsign : symbol.isSign = true) : c = '+' ∨ c = '-' := by
  obtain ⟨rest, hrest⟩ := spelling_append_of_atStart? h
  cases symbol with
  | bang => simp [isSign] at hsign
  | binary op =>
    cases op <;> simp_all [isSign, spelling, BinaryOp.spelling]

end Symbol

/-! ## Exponents -/

/-- A sign behind any text belongs to an exponent in front of the one gap as in front of the other. -/
def SameMark (gap gap' : List Char) : Prop :=
  ∀ text, endsInExponentMark (text ++ gap) = endsInExponentMark (text ++ gap')

theorem SameMark.refl (gap : List Char) : SameMark gap gap := fun _ => rfl

theorem SameMark.cons {gap gap' : List Char} (h : SameMark gap gap') (c : Char) :
    SameMark (c :: gap) (c :: gap') := by
  intro text
  simpa using h (text ++ [c])

private theorem takeWhile_append_cons (p : α → Bool) {stop : α} (hstop : p stop = false) (text rest : List α) :
    (text ++ stop :: rest).takeWhile p = text.takeWhile p := by
  induction text with
  | nil => simp [hstop]
  | cons c text ih => simp only [List.cons_append, List.takeWhile_cons, ih]

private theorem dropWhile_append_cons (p : α → Bool) {stop : α} (hstop : p stop = false) (text rest : List α) :
    (text ++ stop :: rest).dropWhile p = text.dropWhile p ++ stop :: rest := by
  induction text with
  | nil => simp [hstop]
  | cons c text ih =>
    simp only [List.cons_append, List.dropWhile_cons, ih]
    split <;> rfl

/-- A character that no number and no ASCII name can hold is like the start of the text behind it. -/
theorem sameMark_cons {stop : Char} (h : (stop.isAlphanum || stop == '_' || stop == '.') = false) (gap : List Char) :
    SameMark [] (stop :: gap) := by
  intro text
  cases text with
  | nil =>
    simp only [Bool.or_eq_false_iff] at h
    have hmark : (stop == 'e' || stop == 'E') = false := by
      rw [Bool.or_eq_false_iff, beq_eq_false_iff_ne, beq_eq_false_iff_ne]
      constructor <;> rintro rfl <;> exact absurd h.1.1 (by decide)
    simp [endsInExponentMark, hmark]
  | cons c before =>
    -- The character stops the mantissa, so what is in front of the exponent is looked for in `before` only.
    let isMantissa (d : Char) : Bool := d.isDigit || d == '.'
    have hstop : isMantissa stop = false := by
      simp only [Bool.or_eq_false_iff, Char.isAlphanum] at h
      simp [isMantissa, h]
    have htake := takeWhile_append_cons isMantissa hstop before gap
    have hdrop := dropWhile_append_cons isMantissa hstop before gap
    simp only [isMantissa] at htake hdrop
    simp only [Bool.or_eq_false_iff] at h
    simp only [List.append_nil, List.cons_append, endsInExponentMark, htake, hdrop]
    cases before.dropWhile fun d => d.isDigit || d == '.' with
    | nil => simp [h]
    | cons d more => rfl

/-- A blank in front of a text is like the start of the text. -/
theorem sameMark_space (gap : List Char) : SameMark [] (' ' :: gap) := sameMark_cons (by decide) gap

/-! ## Texts without operators -/

theorem Scan.symbol?_append {s : Scan} {text rest : List Char} (hne : text ≠ []) (hrest : EndsSymbol rest) :
    s.symbol? (text ++ rest) = s.symbol? text := by
  simp only [Scan.symbol?, Symbol.atStart?_append hne hrest]

theorem operatorsFrom_cons_of_none {s : Scan} {c : Char} {text : List Char} (h : s.symbol? (c :: text) = none)
    (fresh : Bool) (gap : List Char) :
    operatorsFrom s fresh gap (c :: text) =
      operatorsFrom (s.step c) (fresh && Text.isAsciiBlank c) (c :: gap) text := by
  rw [operatorsFrom, h]

/-- If no symbol stands at the top level, no operator is found. -/
theorem operatorsFrom_eq_nil {s : Scan} {text : List Char} (fresh : Bool) (gap : List Char)
    (h : ∀ rest, s.TopSuffix text rest → Symbol.atStart? rest = none) :
    (operatorsFrom s fresh gap text).1 = [] := by
  induction text generalizing s fresh gap with
  | nil => simp [operatorsFrom]
  | cons c text ih =>
    have hnone : s.symbol? (c :: text) = none := by
      unfold Scan.symbol?
      split
      · rename_i htop
        exact h _ (Scan.topSuffix_cons.2 (.inl ⟨htop, rfl⟩))
      · rfl
    rw [operatorsFrom_cons_of_none hnone]
    exact ih _ _ fun rest hrest => h rest (Scan.topSuffix_cons.2 (.inr hrest))

/-- A text without operators is passed over, whatever comes before it and behind it. -/
theorem operatorsFrom_append {s : Scan} {text rest : List Char} {fresh fresh' : Bool} {gap gap' : List Char}
    (hnone : (operatorsFrom s fresh gap text).1 = []) (hgap : SameMark gap gap') (hrest : EndsSymbol rest) :
    operatorsFrom s fresh' gap' (text ++ rest) =
      operatorsFrom (s.run text) (fresh' && text.all Text.isAsciiBlank) (text.reverse ++ gap') rest := by
  induction text generalizing s fresh fresh' gap gap' with
  | nil => simp
  | cons c text ih =>
    have hsymbol := @Scan.symbol?_append s (c :: text) rest (List.cons_ne_nil c text) hrest
    cases hfound : s.symbol? (c :: text) with
    | none =>
      rw [List.cons_append] at hsymbol
      rw [operatorsFrom_cons_of_none hfound] at hnone
      rw [List.cons_append, operatorsFrom_cons_of_none (hsymbol.trans hfound), ih hnone (hgap.cons c)]
      simp [Bool.and_assoc]
    | some symbol =>
      have hmark := hgap []
      simp only [List.nil_append] at hmark
      rw [operatorsFrom, hfound] at hnone
      rw [List.cons_append, operatorsFrom, ← List.cons_append, hsymbol, hfound]
      simp only at hnone ⊢
      -- A symbol without an operator is the sign of an exponent, and it stays one behind the other gap.
      split at hnone
      · rename_i hsign
        simp only [Bool.and_eq_true] at hsign
        have hstart : Symbol.atStart? (c :: text) = some symbol := by
          unfold Scan.symbol? at hfound
          split at hfound
          · exact hfound
          · simp at hfound
        have hstep : s.step c = s := by
          rcases Symbol.eq_of_isSign hstart hsign.1 with rfl | rfl
          · exact Scan.step_eq_self (by decide) (by decide) (by decide) s
          · exact Scan.step_eq_self (by decide) (by decide) (by decide) s
        have hblank : Text.isAsciiBlank c = false := by
          rcases Symbol.eq_of_isSign hstart hsign.1 with rfl | rfl <;> decide
        rw [← hmark, hsign.1, hsign.2, Bool.and_true, if_pos rfl, ih hnone (hgap.cons c)]
        simp [hstep, hblank]
      · simp at hnone

theorem operators_eq {text : List Char} (h : (operators text).1 = []) : operators text = ([], text) := by
  have hjoined := joined_operators text
  rw [h] at hjoined
  exact Prod.ext h (by simpa [joined] using hjoined)

/-! ## One operator -/

theorem endsSymbol_space (text : List Char) : EndsSymbol (' ' :: text) := endsSymbol_cons (by decide)

/-- A visible text holds a character that is no ASCII blank. -/
theorem Text.Tight.all_isAsciiBlank {text : List Char} (h : Text.Tight text) :
    text.all Text.isAsciiBlank = false := by
  apply Bool.eq_false_iff.2
  intro hall
  have hblank := h.allBlank_eq_false
  simp [Text.allBlank_of_all_isAsciiBlank hall] at hblank

theorem operatorsFrom_space (s : Scan) (fresh : Bool) (gap text : List Char) :
    operatorsFrom s fresh gap (' ' :: text) = operatorsFrom s fresh (' ' :: gap) text := by
  have hnone : s.symbol? (' ' :: text) = none := by
    unfold Scan.symbol?
    rw [Symbol.atStart?_eq_none (by decide), ite_self]
  rw [operatorsFrom_cons_of_none hnone, Scan.step_eq_self_of_isBlank (by decide)]
  simp [Text.isAsciiBlank]

theorem operatorsFrom_spelling (op : BinaryOp) (fresh : Bool) (gap text : List Char) :
    operatorsFrom Scan.start fresh (' ' :: gap) (op.spelling ++ ' ' :: text) =
      (⟨(' ' :: gap).reverse, .binary op, (Symbol.binary op).mayLead && fresh⟩ ::
        (operatorsFrom Scan.start true [] (' ' :: text)).1, (operatorsFrom Scan.start true [] (' ' :: text)).2) := by
  have hstart := Symbol.atStart?_spelling op (endsSymbol_space text)
  have hsymbol : Scan.start.symbol? (op.spelling ++ ' ' :: text) = some (.binary op) := hstart
  have hmark : endsInExponentMark (' ' :: gap) = false := by simp [endsInExponentMark]
  cases hspelling : op.spelling with
  | nil => exact absurd hspelling (Symbol.binary op).spelling_ne_nil
  | cons c more =>
    -- The search goes on behind the whole spelling, of which `c` is only the first character.
    have hdrop : (more ++ ' ' :: text).drop ((Symbol.binary op).spelling.length - 1) = ' ' :: text := by
      simp [Symbol.spelling, hspelling]
    rw [hspelling] at hsymbol
    rw [List.cons_append] at hsymbol ⊢
    rw [operatorsFrom, hsymbol]
    simp only [hmark, Bool.and_false, Bool.false_eq_true, if_false, hdrop]

/-- Two texts without operators and an operator between them: the operator is found, and nothing else. -/
theorem operators_binary (op : BinaryOp) {left right : List Char} (hleft : (operators left).1 = [])
    (hright : (operators right).1 = []) (hrun : Scan.start.run left = Scan.start) (htight : Text.Tight left) :
    operators (left ++ ' ' :: (op.spelling ++ ' ' :: right)) =
      ([⟨left ++ [' '], .binary op, false⟩], ' ' :: right) := by
  have hlast : operatorsFrom Scan.start true [] (' ' :: right) = ([], ' ' :: right) := by
    have happend :=
      @operatorsFrom_append Scan.start right [] true true [] [' '] hright (sameMark_space []) endsSymbol_nil
    rw [List.append_nil] at happend
    rw [operatorsFrom_space, happend]
    simp [operatorsFrom]
  unfold operators
  rw [operatorsFrom_append hleft (SameMark.refl []) (endsSymbol_space _), hrun, htight.all_isAsciiBlank,
    operatorsFrom_space, operatorsFrom_spelling, hlast]
  simp

end Tabular
