-- SUMMARY: A sign between two tokens is an operator, unless the token in front of it ends in a number that awaits its exponent.
import Tabular.Proofs.Formula.Operand

/-!
# Signs behind tokens

A sign behind a token belongs to an exponent if the token ends in digits, points and the mark of an exponent and no ASCII
letter, digit or underscore stands in front of these. So behind the mark of a number the sign goes on with the number, and
behind a name of ASCII characters it is an operator. A name may hold letters and numerals beyond ASCII, which do not
keep the digits behind them from being taken for a number (`parse_sign_iff`).
-/

namespace Tabular

/-! ## Numbers that await their exponent -/

/-- Digits and points with a digit among them, and the mark of an exponent. -/
def AwaitsExponent (number : List Char) : Prop :=
  ∃ mantissa mark, number = mantissa ++ [mark] ∧ mantissa.all isMantissa = true ∧ mantissa.any Char.isDigit = true ∧
    (mark = 'e' ∨ mark = 'E')

/-- What an ASCII name can hold. -/
def isAsciiNamePart (c : Char) : Bool := c.isAlphanum || c == '_' || c == '.'

theorem isAsciiNamePart_of_isMantissa {c : Char} (h : isMantissa c = true) : isAsciiNamePart c = true := by
  simp only [isMantissa, Bool.or_eq_true] at h
  rcases h with h | h <;> simp [isAsciiNamePart, Char.isAlphanum, h]

theorem endsInExponentMark_cons (mark : Char) (rest : List Char) : endsInExponentMark (mark :: rest) =
    ((mark == 'e' || mark == 'E') && (rest.takeWhile isMantissa).any Char.isDigit &&
      (rest.dropWhile isMantissa).head?.all (!isAsciiNamePart ·)) := by
  have hend := List.head?_dropWhile_not isMantissa rest
  have hmantissa : (fun d : Char => d.isDigit || d == '.') = isMantissa := rfl
  simp only [endsInExponentMark, hmantissa]
  -- What stops the mantissa is no point, so it makes no difference whether points are counted.
  cases hdrop : rest.dropWhile isMantissa with
  | nil => rfl
  | cons d more =>
    rw [hdrop] at hend
    simp only [List.head?_cons, isMantissa, Bool.or_eq_false_iff] at hend
    simp [isAsciiNamePart, hend.2]

/-- The rule for a text that is given backwards. -/
theorem endsInExponentMark_iff {gap : List Char} : endsInExponentMark gap = true ↔
    ∃ mark mantissa before, gap = mark :: (mantissa ++ before) ∧ (mark = 'e' ∨ mark = 'E') ∧
      mantissa.all isMantissa = true ∧ mantissa.any Char.isDigit = true ∧
      before.head?.all (!isAsciiNamePart ·) = true := by
  constructor
  · intro h
    cases gap with
    | nil => simp [endsInExponentMark] at h
    | cons mark rest =>
      rw [endsInExponentMark_cons, Bool.and_eq_true, Bool.and_eq_true, Bool.or_eq_true, beq_iff_eq, beq_iff_eq] at h
      obtain ⟨⟨hmark, hany⟩, hstop⟩ := h
      refine ⟨mark, rest.takeWhile isMantissa, rest.dropWhile isMantissa, ?_, hmark, by simp, hany, hstop⟩
      rw [List.takeWhile_append_dropWhile]
  · rintro ⟨mark, mantissa, before, rfl, hmark, hall, hany, hstop⟩
    have hfront : ∀ c ∈ mantissa, isMantissa c = true := List.all_eq_true.1 hall
    have hbehind : before.takeWhile isMantissa = [] ∧ before.dropWhile isMantissa = before := by
      cases before with
      | nil => exact ⟨rfl, rfl⟩
      | cons d more =>
        have hd : isMantissa d = false :=
          Bool.eq_false_iff.2 fun h => by simp [isAsciiNamePart_of_isMantissa h] at hstop
        simp [hd]
    rw [endsInExponentMark_cons, List.takeWhile_append_of_pos hfront, List.dropWhile_append_of_pos hfront, hbehind.1,
      hbehind.2, List.append_nil, hany, hstop]
    rcases hmark with rfl | rfl <;> rfl

/-- A sign behind a text belongs to an exponent exactly if the text ends in a number that awaits one, with nothing in front
    of the number that an ASCII name can hold. -/
theorem endsInExponentMark_reverse_iff {text : List Char} : endsInExponentMark text.reverse = true ↔
    ∃ before number, text = before ++ number ∧ AwaitsExponent number ∧
      before.getLast?.all (!isAsciiNamePart ·) = true := by
  rw [endsInExponentMark_iff]
  constructor
  · rintro ⟨mark, mantissa, before, htext, hmark, hall, hany, hstop⟩
    refine ⟨before.reverse, mantissa.reverse ++ [mark], ?_, ⟨mantissa.reverse, mark, rfl, ?_, ?_, hmark⟩, ?_⟩
    · rw [← List.reverse_reverse text, htext]
      simp
    · rwa [List.all_reverse]
    · rwa [List.any_reverse]
    · rwa [List.getLast?_reverse]
  · rintro ⟨before, _, rfl, ⟨mantissa, mark, rfl, hall, hany, hmark⟩, hstop⟩
    refine ⟨mark, mantissa.reverse, before.reverse, by simp, hmark, ?_, ?_, ?_⟩
    · rwa [List.all_reverse]
    · rwa [List.any_reverse]
    · rwa [List.head?_reverse]

/-! ## Finding the sign -/

theorem Symbol.symbol?_sign {op : BinaryOp} (hop : (Symbol.binary op).isSign = true) :
    ∃ sign, op.spelling = [sign] ∧ (sign.isAlphanum || sign == '_' || sign == '.') = false ∧ EndsSymbol [sign] ∧
      ∀ rest, Scan.start.symbol? (sign :: rest) = some (.binary op) := by
  cases op with
  | add => exact ⟨'+', rfl, by decide, endsSymbol_cons (by decide), fun _ => rfl⟩
  | subtract => exact ⟨'-', rfl, by decide, endsSymbol_cons (by decide), fun _ => rfl⟩
  | _ => cases hop

theorem EndsSymbol.append {text : List Char} (h : EndsSymbol text) (hne : text ≠ []) (rest : List Char) :
    EndsSymbol (text ++ rest) := by
  intro c hc
  rw [List.head?_append_of_ne_nil _ hne] at hc
  exact h c hc

variable {isFunction : String → Bool} {x y : List Char} {op : BinaryOp}

/-- The scan passes over a token in front of a text. -/
theorem operators_token_append {rest : List Char} (hx : isToken x = true) (hrest : EndsSymbol rest) :
    operators (x ++ rest) = operatorsFrom Scan.start false x.reverse rest := by
  rw [operators, operatorsFrom_append (operators_of_isToken hx) (SameMark.refl []) hrest,
    (balanced_of_isToken hx).run_start, (tight_of_isToken hx).all_isAsciiBlank, Bool.and_false, List.append_nil]

/-- The scan passes over a token behind a character that is like the start of a text. -/
theorem operatorsFrom_token {gap : List Char} (hy : isToken y = true) (hgap : SameMark [] gap) (fresh : Bool) :
    operatorsFrom Scan.start fresh gap y = ([], gap.reverse ++ y) := by
  have happend := @operatorsFrom_append Scan.start y [] true fresh [] gap (operators_of_isToken hy) hgap endsSymbol_nil
  rw [List.append_nil] at happend
  rw [happend, operatorsFrom, List.reverse_append, List.reverse_reverse]

/-- Behind a token the sign is the only operator, if it is one. -/
theorem operators_sign (hx : isToken x = true) (hy : isToken y = true) (hop : (Symbol.binary op).isSign = true) :
    operators (x ++ (op.spelling ++ y)) =
      if endsInExponentMark x.reverse = true then ([], x ++ (op.spelling ++ y))
      else ([⟨x, .binary op, false⟩], y) := by
  obtain ⟨sign, hspelling, hstop, hends, hsymbol⟩ := Symbol.symbol?_sign hop
  rw [hspelling, operators_token_append hx (hends.append (List.cons_ne_nil _ _) y), List.singleton_append, operatorsFrom,
    hsymbol]
  simp only [hop, Bool.true_and]
  split
  · rw [operatorsFrom_token hy (sameMark_cons hstop _)]
    simp
  · have hlength : (Symbol.binary op).spelling.length - 1 = 0 := by simp [Symbol.spelling, hspelling]
    rw [hlength, List.drop_zero, operatorsFrom_token hy (SameMark.refl [])]
    simp

/-! ## Reading -/

theorem isToken_absorbed (hx : isToken x = true) (hy : isToken y = true) (hop : (Symbol.binary op).isSign = true)
    (hmark : endsInExponentMark x.reverse = true) : isToken (x ++ (op.spelling ++ y)) = true := by
  have hoperators := operators_sign hx hy hop
  rw [if_pos hmark] at hoperators
  have hsign : op.spelling.any separates = false := by
    cases op with
    | add => decide
    | subtract => decide
    | _ => cases hop
  have hseparates : (x ++ (op.spelling ++ y)).any separates = false := by
    simp only [isToken, Bool.and_eq_true, Bool.not_eq_true'] at hx hy
    rw [List.any_append, List.any_append, hx.1.2, hsign, hy.1.2]
    rfl
  have hne : (x ++ (op.spelling ++ y)).isEmpty = false := by simp [ne_nil_of_isToken hx]
  rw [isToken, hne, hseparates, hoperators]
  rfl

/-- A chain of two tokens. -/
theorem ofStripped_sign (hx : isToken x = true) (hy : isToken y = true) (hop : (Symbol.binary op).isSign = true)
    (hmark : endsInExponentMark x.reverse = false) :
    Shape.ofStripped isFunction (x ++ (op.spelling ++ y)) = .ok (.binary ⟨x, [(op, y)]⟩) := by
  have hoperators := operators_sign hx hy hop
  rw [if_neg (by simp [hmark])] at hoperators
  have hloosest : Chain.loosest? [⟨x, .binary op, false⟩] y = some ⟨x, [(op, y)]⟩ := by cases op <;> rfl
  obtain ⟨-, c, hc, hblank⟩ := tight_of_isToken hy
  have hchecked : Chain.checked ⟨x, [(op, y)]⟩ = .ok ⟨x, [(op, y)]⟩ := by
    simp [Chain.checked, Chain.missingOperand?, (tight_of_isToken hx).allBlank_eq_false,
      (tight_of_isToken hy).allBlank_eq_false, Text.trimEnd_eq_self hc hblank]
  unfold Shape.ofStripped
  simp only [hoperators, hloosest, hchecked, Except.map]

/-- Two tokens with a sign between them are one token if the first awaits an exponent, and else the operands of the sign. -/
theorem parse_sign (hx : isToken x = true) (hy : isToken y = true) (hop : (Symbol.binary op).isSign = true) :
    Expr.parse isFunction (x ++ (op.spelling ++ y)) =
      if endsInExponentMark x.reverse = true then .ok (.leaf (String.ofList (x ++ (op.spelling ++ y))))
      else .ok (.binary op (.leaf (String.ofList x)) (.leaf (String.ofList y))) := by
  have htoken : ∀ {text : List Char}, isToken text = true →
      Expr.parse isFunction text = .ok (.leaf (String.ofList text)) := by
    intro text h
    have := @Operand.parse_token isFunction (String.ofList text)
    rw [String.toList_ofList] at this
    exact this h
  split
  · rename_i hmark
    exact htoken (isToken_absorbed hx hy hop hmark)
  · rename_i hmark
    have hshape := @ofStripped_sign isFunction x y op hx hy hop (Bool.eq_false_iff.2 hmark)
    have htight : Text.Tight (x ++ (op.spelling ++ y)) := (tight_of_isToken hx).append (tight_of_isToken hy) _
    have hbalanced : Balanced (x ++ (op.spelling ++ y)) :=
      (balanced_of_isToken hx).append ((balanced_spelling op).append (balanced_of_isToken hy))
    have hnone : enclosed? (x ++ (op.spelling ++ y)) = none := by
      apply enclosed?_eq_none_of_operators
      rw [operators_sign hx hy hop, if_neg hmark]
      exact List.cons_ne_nil _ _
    have hstrip : stripParens (Text.trim (x ++ (op.spelling ++ y))) = x ++ (op.spelling ++ y) := by
      rw [Text.trim_eq_self htight, stripParens_eq_self hnone]
    rw [Expr.parse_of_ofText ((Shape.ofText_eq hbalanced hstrip htight.ne_nil).trans hshape)]
    simp [Shape.read, htoken hx, htoken hy, bind, Except.bind, pure, Except.pure]

/-! ## Names -/

/-- Of what a name can hold, all but the ASCII characters stops a mantissa. -/
theorem isAsciiNamePart_eq_false_iff {c : Char} (h : isNamePart c = true) :
    isAsciiNamePart c = false ↔ 0x80 ≤ c.toNat := by
  constructor
  · intro hascii
    by_contra hlow
    simp only [isNamePart, Text.isLetterOrNumeral, if_pos (Nat.lt_of_not_le hlow)] at h
    rw [isAsciiNamePart, h] at hascii
    simp at hascii
  · intro hhigh
    apply Bool.eq_false_iff.2
    intro hascii
    simp only [isAsciiNamePart, Bool.or_eq_true, beq_iff_eq] at hascii
    rcases hascii with (hascii | rfl) | rfl
    · have hrange := inRanges_of_isAlphanum hascii
      simp [Text.inRanges, Text.asciiNameRanges] at hrange
      omega
    · exact absurd hhigh (by decide)
    · exact absurd hhigh (by decide)

/-- Whether a sign behind the token goes on with a number: the token is a number up to the mark of its exponent, or ends
    in one behind a character that no ASCII name can hold. -/
def AbsorbsSign (token : List Char) : Prop :=
  AwaitsExponent token ∨
    ∃ before c number, token = before ++ c :: number ∧ isAsciiNamePart c = false ∧ AwaitsExponent number

theorem absorbsSign_iff {text : List Char} : AbsorbsSign text ↔ endsInExponentMark text.reverse = true := by
  rw [endsInExponentMark_reverse_iff]
  constructor
  · rintro (hnumber | ⟨before, c, number, rfl, hc, hnumber⟩)
    · exact ⟨[], text, rfl, hnumber, rfl⟩
    · exact ⟨before ++ [c], number, by simp, hnumber, by simp [hc]⟩
  · rintro ⟨before, number, rfl, hnumber, hstop⟩
    rcases List.eq_nil_or_concat before with rfl | ⟨front, c, rfl⟩
    · exact .inl hnumber
    · exact .inr ⟨front, c, number, by simp, by simpa using hstop, hnumber⟩

theorem isNameStart_of_isMantissa {c : Char} (h : isMantissa c = true) : isNameStart c = false := by
  have hlow := toNat_le_of_isMantissa h
  have hascii : c.toNat < 0x80 := Nat.lt_of_le_of_lt hlow (by decide)
  apply Bool.eq_false_iff.2
  intro hstart
  simp only [isNameStart, Text.isLetter, if_pos hascii, Bool.or_eq_true, beq_iff_eq] at hstart
  rcases hstart with halpha | rfl
  · delta Char.isAlpha Char.isUpper Char.isLower at halpha
    simp only [Bool.or_eq_true, Bool.and_eq_true, decide_eq_true_eq, UInt32.le_iff_toNat_le, ge_iff_le] at halpha
    rcases halpha with ⟨hhigh, -⟩ | ⟨hhigh, -⟩
    · exact absurd (Nat.le_trans hhigh hlow) (by decide)
    · exact absurd (Nat.le_trans hhigh hlow) (by decide)
  · exact absurd hlow (by decide)

/-- No name is a number up to the mark of its exponent. -/
theorem not_awaitsExponent_of_isName (hx : isName x = true) : ¬AwaitsExponent x := by
  rintro ⟨mantissa, mark, rfl, hall, hany, -⟩
  cases mantissa with
  | nil => simp at hany
  | cons c mantissa =>
    simp only [List.all_cons, Bool.and_eq_true] at hall
    simp only [List.cons_append, isName, Bool.and_eq_true] at hx
    rw [isNameStart_of_isMantissa hall.1] at hx
    exact absurd hx.1 Bool.false_ne_true

/-- A name absorbs a sign exactly if it ends in such a number behind a letter or numeral beyond ASCII. -/
theorem absorbsSign_of_isName (hx : isName x = true) : AbsorbsSign x ↔
    ∃ before c number, x = before ++ c :: number ∧ 0x80 ≤ c.toNat ∧ AwaitsExponent number := by
  unfold AbsorbsSign
  rw [or_iff_right (not_awaitsExponent_of_isName hx)]
  refine exists_congr fun before => exists_congr fun c => exists_congr fun number => and_congr_right fun heq => ?_
  have hc : isNamePart c = true := forall_isNamePart_of_isName hx c (heq ▸ by simp)
  rw [isAsciiNamePart_eq_false_iff hc]

/-- Between two names a sign is an operator exactly if the first does not end in a number that awaits its exponent behind a
    character beyond ASCII. Between any two tokens it is one exactly if the first does not absorb it; else the whole is a
    single token. -/
theorem parse_sign_iff (isFunction : String → Bool) {op : BinaryOp} (hop : (Symbol.binary op).isSign = true) :
    (∀ x y : List Char, isName x = true → isName y = true →
      (Expr.parse isFunction (x ++ (op.spelling ++ y)) =
          .ok (.binary op (.leaf (String.ofList x)) (.leaf (String.ofList y))) ↔
        ¬∃ before c number, x = before ++ c :: number ∧ 0x80 ≤ c.toNat ∧ AwaitsExponent number)) ∧
    ∀ x y : List Char, isToken x = true → isToken y = true →
      (AbsorbsSign x → Expr.parse isFunction (x ++ (op.spelling ++ y)) =
        .ok (.leaf (String.ofList (x ++ (op.spelling ++ y))))) ∧
      (¬AbsorbsSign x → Expr.parse isFunction (x ++ (op.spelling ++ y)) =
        .ok (.binary op (.leaf (String.ofList x)) (.leaf (String.ofList y)))) := by
  constructor
  · intro x y hx hy
    rw [← absorbsSign_of_isName hx, absorbsSign_iff, parse_sign (isToken_of_isName hx) (isToken_of_isName hy) hop]
    split
    · rename_i hmark
      simp [hmark]
    · rename_i hmark
      simp [hmark]
  · intro x y hx hy
    rw [absorbsSign_iff, parse_sign hx hy hop]
    exact ⟨fun hmark => if_pos hmark, fun hmark => if_neg hmark⟩

/-- The letter in front of the digits is beyond ASCII in the first text only. -/
theorem parse_sign_iff_letter :
    Expr.parse Operation.isFunction "é1e-y".toList = .ok (.leaf "é1e-y") ∧
    Expr.parse Operation.isFunction "x1e-y".toList = .ok (.binary .subtract (.leaf "x1e") (.leaf "y")) := by
  obtain ⟨hnames, htokens⟩ := @parse_sign_iff Operation.isFunction .subtract rfl
  have hy : isName ['y'] = true := by decide
  constructor
  · have hx : isName ['é', '1', 'e'] = true := by decide +kernel
    have habsorbs : AbsorbsSign ['é', '1', 'e'] :=
      .inr ⟨[], 'é', ['1', 'e'], rfl, by decide, ['1'], 'e', rfl, by decide, by decide, .inl rfl⟩
    exact (htokens _ _ (isToken_of_isName hx) (isToken_of_isName hy)).1 habsorbs
  · have hx : isName ['x', '1', 'e'] = true := by decide
    refine (hnames _ _ hx hy).2 ?_
    rintro ⟨before, c, number, heq, hhigh, -⟩
    have hmem : c ∈ ['x', '1', 'e'] := heq ▸ by simp
    have hlow : ∀ d ∈ ['x', '1', 'e'], d.toNat < 0x80 := by simp
    exact absurd hhigh (Nat.not_le.2 (hlow c hmem))

end Tabular
