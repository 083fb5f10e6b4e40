-- SUMMARY: Operands: a name, a number, a literal, a call or a text in parentheses, with signs in front of it.
import Mathlib.Data.List.TakeWhile
import Tabular.Formula.Constant
import Tabular.Proofs.Formula.RoundTrip

/-!
# Operands

An operand is an atom behind a run of signs. To the scan for operators the signs are symbols that lead, and the
atom shows none: the sign inside a number belongs to its exponent, and all else that looks like a symbol stands
between quotes or parentheses. So reading an operand takes the signs off and reads the atom (`parse_of_trim`).
-/

namespace Tabular

/-! ## Signs -/

/-- A symbol in front of an operand. -/
inductive Sign where
  | plus
  | minus
  | bang
  deriving DecidableEq, Repr

namespace Sign

def char : Sign → Char
  | plus => '+'
  | minus => '-'
  | bang => '!'

/-- What a sign makes of its operand: a plus is dropped. -/
def apply (operand : Expr) : Sign → Expr
  | plus => operand
  | minus => .call "negate" [operand]
  | bang => .call "not" [operand]

/-- The symbol that the scan finds. -/
def symbol : Sign → Symbol
  | plus => .binary .add
  | minus => .binary .subtract
  | bang => .bang

theorem spelling_symbol (s : Sign) : s.symbol.spelling = [s.char] := by cases s <;> rfl

theorem mayLead_symbol (s : Sign) : s.symbol.mayLead = true := by cases s <;> rfl

theorem applyTo_symbol (s : Sign) (e : Expr) : s.symbol.applyTo e = s.apply e := by cases s <;> rfl

theorem symbol?_char (s : Sign) {rest : List Char} (hrest : EndsSymbol rest) :
    Scan.start.symbol? (s.char :: rest) = some s.symbol := by
  have hstart : Symbol.atStart? (s.char :: rest) = some s.symbol := by
    rw [Symbol.atStart?_cons s.char hrest]
    cases s <;> rfl
  exact hstart

theorem scan_char (s : Sign) : s.char ≠ '\'' ∧ s.char ≠ '(' ∧ s.char ≠ ')' ∧ Text.isBlank s.char = false := by
  cases s <;> decide

/-- No sign continues a symbol. -/
theorem endsSymbol_char (s : Sign) (rest : List Char) : EndsSymbol (s.char :: rest) :=
  endsSymbol_cons (by cases s <;> decide)

end Sign

/-! ## Numbers -/

/-- A number without a sign: it begins with a digit or a point, and it is read as a float. -/
def IsNumber (text : List Char) : Prop :=
  Value.beginsAsNumber text = true ∧ (Decimal.float? text).isSome = true

/-- A digit or a point. -/
def isMantissa (c : Char) : Bool := c.isDigit || c == '.'

/-- What may follow the mantissa of a number: nothing, or a mark, a sign or none, and digits. -/
inductive Exponent : List Char → Prop
  | none : Exponent []
  | plain (mark : Char) (digits : List Char) (hmark : mark = 'e' ∨ mark = 'E')
      (hdigits : digits.all Char.isDigit = true) : Exponent (mark :: digits)
  | signed (mark : Char) (sign : Sign) (digits : List Char) (hmark : mark = 'e' ∨ mark = 'E')
      (hsign : sign.symbol.isSign = true) (hdigits : digits.all Char.isDigit = true) :
      Exponent (mark :: sign.char :: digits)

theorem Decimal.splitSign_cases (text : List Char) :
    text = (splitSign text).2 ∨ ∃ sign : Sign, sign.symbol.isSign = true ∧ text = sign.char :: (splitSign text).2 := by
  unfold splitSign
  split
  · exact .inr ⟨.minus, rfl, rfl⟩
  · exact .inr ⟨.plus, rfl, rfl⟩
  · exact .inl rfl

theorem Decimal.exponent_of_exponentPart? {text : List Char} (h : (exponentPart? text).isSome = true) :
    Exponent text := by
  cases text with
  | nil => exact .none
  | cons mark rest =>
    simp only [exponentPart?] at h
    split at h
    · rename_i hmark
      have hmark : mark = 'e' ∨ mark = 'E' := by simpa using hmark
      have hdigits : (splitSign rest).2.all Char.isDigit = true := by
        unfold wholeNumber? natural? at h
        rw [Option.isSome_map] at h
        split at h
        · simp at h
        · rename_i hall
          simp only [Bool.or_eq_true, Bool.not_eq_true', not_or, Bool.not_eq_false] at hall
          exact hall.2
      rcases splitSign_cases rest with hrest | ⟨sign, hsign, hrest⟩
      · rw [hrest]
        exact .plain mark _ hmark hdigits
      · rw [hrest]
        exact .signed mark sign _ hmark hsign hdigits
    · simp at h

theorem Decimal.any_isDigit {digits : List Char} (h : digits.all Char.isDigit = true) (hne : digits.isEmpty = false) :
    digits.any Char.isDigit = true := by
  cases digits with
  | nil => simp at hne
  | cons c digits =>
    simp only [List.all_cons, Bool.and_eq_true] at h
    simp [h.1]

theorem all_isMantissa {digits : List Char} (h : digits.all Char.isDigit = true) : digits.all isMantissa = true := by
  simp only [List.all_eq_true] at h ⊢
  intro c hc
  simp [isMantissa, h c hc]

/-- A decimal is digits and a point with a digit among them, and an exponent. -/
theorem Decimal.exists_mantissa {text : List Char} (h : (decimal? text).isSome = true) :
    ∃ mantissa exponent, text = mantissa ++ exponent ∧ mantissa.all isMantissa = true ∧
      mantissa.any Char.isDigit = true ∧ Exponent exponent := by
  have hdigits : ∀ s : List Char, (s.takeWhile Char.isDigit).all Char.isDigit = true := by simp
  have htext := @List.takeWhile_append_dropWhile _ Char.isDigit text
  unfold decimal? at h
  dsimp only at h
  generalize text.dropWhile Char.isDigit = after at h htext
  split at h
  · rename_i t
    have ht := @List.takeWhile_append_dropWhile _ Char.isDigit t
    split at h
    · simp at h
    · rename_i hsome
      rw [Option.isSome_map] at h
      refine ⟨text.takeWhile Char.isDigit ++ '.' :: t.takeWhile Char.isDigit, t.dropWhile Char.isDigit, ?_, ?_, ?_,
        exponent_of_exponentPart? h⟩
      · rw [List.append_assoc, List.cons_append, ht, htext]
      · rw [List.all_append, all_isMantissa (hdigits text), List.all_cons, all_isMantissa (hdigits t)]
        rfl
      · rw [List.any_append, List.any_cons]
        cases hwhole : (text.takeWhile Char.isDigit).isEmpty with
        | true =>
          rw [hwhole, Bool.true_and, Bool.not_eq_true] at hsome
          simp [any_isDigit (hdigits t) hsome]
        | false => simp [any_isDigit (hdigits text) hwhole]
  · split at h
    · simp at h
    · rename_i hsome
      rw [Option.isSome_map] at h
      refine ⟨text.takeWhile Char.isDigit, after, htext.symm, all_isMantissa (hdigits text), ?_,
        exponent_of_exponentPart? h⟩
      exact any_isDigit (hdigits text) (by simpa using hsome)

theorem toNat_le_of_isMantissa {c : Char} (h : isMantissa c = true) : c.val.toNat ≤ 0x39 := by
  simp only [isMantissa, Bool.or_eq_true, beq_iff_eq] at h
  rcases h with h | rfl
  · delta Char.isDigit at h
    simp only [Bool.and_eq_true, decide_eq_true_eq, UInt32.le_iff_toNat_le] at h
    exact h.2
  · decide

/-- Digits and points come before all letters. -/
theorem toLower_of_isMantissa {c : Char} (h : isMantissa c = true) : c.toLower = c := by
  unfold Char.toLower
  apply dif_neg
  rintro ⟨hupper, -⟩
  rw [ge_iff_le, UInt32.le_iff_toNat_le] at hupper
  have hlow := toNat_le_of_isMantissa h
  have hhigh : 0x41 ≤ c.val.toNat := hupper
  omega

theorem isNamePart_of_isMantissa {c : Char} (h : isMantissa c = true) : isNamePart c = true := by
  have hascii : c.toNat < 0x80 := Nat.lt_of_le_of_lt (toNat_le_of_isMantissa h) (by decide)
  simp only [isMantissa, Bool.or_eq_true, beq_iff_eq] at h
  rcases h with h | rfl
  · simp [isNamePart, Text.isLetterOrNumeral, hascii, Char.isAlphanum, h]
  · decide

/-- What begins with a digit or a point is neither signed nor a word. -/
theorem IsNumber.isSome_decimal? {text : List Char} (h : IsNumber text) : (Decimal.decimal? text).isSome = true := by
  obtain ⟨hbegins, hfloat⟩ := h
  cases text with
  | nil => simp [Value.beginsAsNumber] at hbegins
  | cons c rest =>
    have hc : isMantissa c = true := hbegins
    have hne : ∀ d, isMantissa d = false → c ≠ d := by
      rintro d hd rfl
      simp [hc] at hd
    have hsign : Decimal.splitSign (c :: rest) = (false, c :: rest) := by
      unfold Decimal.splitSign
      split
      · rename_i heq
        exact absurd (List.cons.inj heq).1 (hne '-' (by decide))
      · rename_i heq
        exact absurd (List.cons.inj heq).1 (hne '+' (by decide))
      · rfl
    have hword : ∀ d word, isMantissa d = false →
        (String.ofList ((c :: rest).map Char.toLower) == String.ofList (d :: word)) = false := by
      intro d word hd
      rw [beq_eq_false_iff_ne]
      intro heq
      have hchars := congrArg String.toList heq
      rw [String.toList_ofList, String.toList_ofList, List.map_cons, toLower_of_isMantissa hc] at hchars
      exact hne d hd (List.cons.inj hchars).1
    have hinf := hword 'i' ['n', 'f'] (by decide)
    have hinfinity := hword 'i' ['n', 'f', 'i', 'n', 'i', 't', 'y'] (by decide)
    have hnan := hword 'n' ['a', 'n'] (by decide)
    rw [Decimal.float?, hsign, Option.isSome_map] at hfloat
    unfold Decimal.unsignedFloat? at hfloat
    dsimp only at hfloat
    rw [if_neg, if_neg] at hfloat
    · exact hfloat
    · exact Bool.eq_false_iff.1 hnan
    · rw [Bool.or_eq_true, not_or]
      exact ⟨Bool.eq_false_iff.1 hinf, Bool.eq_false_iff.1 hinfinity⟩

/-! ## Names and numbers are tokens -/

/-- Where no symbol can begin at the top level no operator is found. -/
theorem Scan.Heads.operatorsFrom {s : Scan} {text : List Char} (h : s.Heads (beginsSymbol · = false) text)
    (fresh : Bool) (gap : List Char) : (Tabular.operatorsFrom s fresh gap text).1 = [] := by
  apply operatorsFrom_eq_nil
  intro rest hrest
  cases rest with
  | nil => rfl
  | cons c rest => exact Symbol.atStart?_eq_none (h c rest hrest)

theorem beginsSymbol_of_isNamePart {c : Char} (h : isNamePart c = true) : beginsSymbol c = false := by
  have hopens : Opens c := .inr (.inr h)
  exact hopens.beginsSymbol

theorem operatorsFrom_eq_nil_of_forall {s : Scan} {text : List Char} (h : ∀ c ∈ text, isNamePart c = true)
    (fresh : Bool) (gap : List Char) : (operatorsFrom s fresh gap text).1 = [] := by
  apply Scan.Heads.operatorsFrom
  exact Scan.heads_of_forall fun c hc => beginsSymbol_of_isNamePart (h c hc)

theorem separates_of_isNamePart {c : Char} (h : isNamePart c = true) : separates c = false := by
  obtain ⟨hquote, hopen, hclose⟩ := unnested_of_isNamePart h
  have hopens : Opens c := .inr (.inr h)
  simp [separates, hquote, hopen, hclose, hopens.ne_comma, isBlank_of_isNamePart h]

theorem isToken_of_isName {text : List Char} (h : isName text = true) : isToken text = true := by
  have hparts := forall_isNamePart_of_isName h
  have hoperators : (operators text).1 = [] := operatorsFrom_eq_nil_of_forall hparts true []
  simp only [isToken, hoperators, Bool.and_eq_true, Bool.not_eq_true', List.isEmpty_eq_false_iff, List.any_eq_false,
    List.isEmpty_nil, and_true]
  exact ⟨ne_nil_of_isName h, fun c hc => by simp [separates_of_isNamePart (hparts c hc)]⟩

/-- No part of a name continues a symbol. -/
theorem ne_of_isNamePart {c : Char} (h : isNamePart c = true) : c ≠ '=' ∧ c ≠ '&' ∧ c ≠ '|' := by
  refine ⟨?_, ?_, ?_⟩ <;> rintro rfl <;> exact absurd h (by decide)

theorem endsSymbol_of_forall {text : List Char} (h : ∀ c ∈ text, isNamePart c = true) : EndsSymbol text :=
  fun c hc => ne_of_isNamePart (h c (List.mem_of_mem_head? hc))

theorem isNamePart_mark {mark : Char} (h : mark = 'e' ∨ mark = 'E') : isNamePart mark = true := by
  rcases h with rfl | rfl <;> decide

theorem Exponent.endsSymbol {exponent : List Char} (h : Exponent exponent) : EndsSymbol exponent := by
  cases h with
  | none => exact endsSymbol_nil
  | plain mark digits hmark _ => exact endsSymbol_cons (ne_of_isNamePart (isNamePart_mark hmark))
  | signed mark sign digits hmark _ _ => exact endsSymbol_cons (ne_of_isNamePart (isNamePart_mark hmark))

theorem Exponent.separates {exponent : List Char} (h : Exponent exponent) :
    ∀ c ∈ exponent, Tabular.separates c = false := by
  have hdigit : ∀ digits : List Char, digits.all Char.isDigit = true →
      ∀ c ∈ digits, Tabular.separates c = false := by
    intro digits hdigits c hc
    exact separates_of_isNamePart (isNamePart_of_isMantissa (List.all_eq_true.1 (all_isMantissa hdigits) c hc))
  cases h with
  | none => simp
  | plain mark digits hmark hdigits =>
    rw [List.forall_mem_cons]
    exact ⟨separates_of_isNamePart (isNamePart_mark hmark), hdigit digits hdigits⟩
  | signed mark sign digits hmark _ hdigits =>
    rw [List.forall_mem_cons, List.forall_mem_cons]
    exact ⟨separates_of_isNamePart (isNamePart_mark hmark), by cases sign <;> decide, hdigit digits hdigits⟩

/-- Behind a mantissa and a mark a sign belongs to the exponent. -/
theorem endsInExponentMark_mantissa {mark : Char} {mantissa : List Char} (hmark : mark = 'e' ∨ mark = 'E')
    (hall : mantissa.all isMantissa = true) (hany : mantissa.any Char.isDigit = true) :
    endsInExponentMark (mark :: mantissa.reverse) = true := by
  have hreverse : ∀ c ∈ mantissa.reverse, isMantissa c = true := by simpa using hall
  have htake : mantissa.reverse.takeWhile (fun d => d.isDigit || d == '.') = mantissa.reverse :=
    List.takeWhile_eq_self_iff.2 hreverse
  have hdrop : mantissa.reverse.dropWhile (fun d => d.isDigit || d == '.') = [] :=
    List.dropWhile_eq_nil_iff.2 hreverse
  simp only [endsInExponentMark, htake, hdrop, List.any_reverse, hany]
  rcases hmark with rfl | rfl <;> rfl

/-- The sign of an exponent is passed over. -/
theorem operatorsFrom_exponentSign {gap digits : List Char} {sign : Sign} (hsign : sign.symbol.isSign = true)
    (hgap : endsInExponentMark gap = true) (hdigits : EndsSymbol digits) (fresh : Bool) :
    operatorsFrom Scan.start fresh gap (sign.char :: digits) =
      operatorsFrom Scan.start false (sign.char :: gap) digits := by
  rw [operatorsFrom, sign.symbol?_char hdigits]
  simp only [hsign, hgap, Bool.and_self, if_true]

theorem operators_number {mantissa exponent : List Char} (hall : mantissa.all isMantissa = true)
    (hany : mantissa.any Char.isDigit = true) (h : Exponent exponent) : (operators (mantissa ++ exponent)).1 = [] := by
  have hparts : ∀ digits : List Char, digits.all isMantissa = true → ∀ c ∈ digits, isNamePart c = true :=
    fun digits h c hc => isNamePart_of_isMantissa (List.all_eq_true.1 h c hc)
  have hmantissa := hparts mantissa hall
  have hnone := @operatorsFrom_eq_nil_of_forall Scan.start mantissa hmantissa true []
  have hrun : Scan.start.run mantissa = Scan.start :=
    Scan.run_eq_self (fun c hc => unnested_of_isNamePart (hmantissa c hc)) _
  rw [operators, operatorsFrom_append hnone (SameMark.refl []) h.endsSymbol, hrun, List.append_nil]
  cases h with
  | none => simp [operatorsFrom]
  | plain mark digits hmark hdigits =>
    refine operatorsFrom_eq_nil_of_forall ?_ _ _
    rw [List.forall_mem_cons]
    exact ⟨isNamePart_mark hmark, hparts digits (all_isMantissa hdigits)⟩
  | signed mark sign digits hmark hsign hdigits =>
    have hdigits := hparts digits (all_isMantissa hdigits)
    have hpart := isNamePart_mark hmark
    have hsymbol : Scan.start.symbol? (mark :: sign.char :: digits) = none :=
      Symbol.atStart?_eq_none (beginsSymbol_of_isNamePart hpart)
    obtain ⟨hquote, hopen, hclose⟩ := unnested_of_isNamePart hpart
    rw [operatorsFrom_cons_of_none hsymbol, Scan.step_eq_self hquote hopen hclose,
      operatorsFrom_exponentSign hsign (endsInExponentMark_mantissa hmark hall hany) (endsSymbol_of_forall hdigits)]
    exact operatorsFrom_eq_nil_of_forall hdigits _ _

theorem isToken_of_isNumber {text : List Char} (h : IsNumber text) : isToken text = true := by
  obtain ⟨mantissa, exponent, rfl, hall, hany, hexponent⟩ := Decimal.exists_mantissa h.isSome_decimal?
  have hne : mantissa ++ exponent ≠ [] := by
    rintro hnil
    rw [(List.append_eq_nil_iff.1 hnil).1] at hany
    simp at hany
  have hseparates : ∀ c ∈ mantissa ++ exponent, separates c = false := by
    intro c hc
    rcases List.mem_append.1 hc with hc | hc
    · exact separates_of_isNamePart (isNamePart_of_isMantissa (List.all_eq_true.1 hall c hc))
    · exact hexponent.separates c hc
  simp only [isToken, operators_number hall hany hexponent, Bool.and_eq_true, Bool.not_eq_true',
    List.isEmpty_eq_false_iff, List.any_eq_false, List.isEmpty_nil, and_true]
  exact ⟨hne, fun c hc => by simp [hseparates c hc]⟩

/-! ## Atoms -/

/-- The text of an operand without signs. The blanks of a call stand between its name and the parenthesis. -/
inductive Atom : List Char → Prop
  | name (text : List Char) (hname : isName text = true) : Atom text
  | number (text : List Char) (hnumber : IsNumber text) : Atom text
  | quoted (content : List Char) : Atom ('\'' :: (Text.double '\'' content ++ ['\'']))
  | call (name gap inner : List Char) (hname : isName name = true) (hgap : Text.allBlank gap = true)
      (hinner : Balanced inner) : Atom (name ++ (gap ++ '(' :: (inner ++ [')'])))
  | enclosed (inner : List Char) (hinner : Balanced inner) : Atom ('(' :: (inner ++ [')']))

/-- What the scan sees of an atom. -/
structure Passed (text : List Char) : Prop where
  tight : Text.Tight text
  balanced : Balanced text
  operators : (operators text).1 = []
  endsSymbol : EndsSymbol text

theorem passed_of_isToken {text : List Char} (h : isToken text = true) (hends : EndsSymbol text) : Passed text where
  tight := tight_of_isToken h
  balanced := balanced_of_isToken h
  operators := operators_of_isToken h
  endsSymbol := hends

theorem Solid.passed {text : List Char} (h : Solid text) (hends : EndsSymbol text) : Passed text where
  tight := h.tight
  balanced := h.balanced
  operators := h.operators
  endsSymbol := hends

theorem IsNumber.endsSymbol {text : List Char} (h : IsNumber text) : EndsSymbol text := by
  have hbegins := h.1
  cases text with
  | nil => exact endsSymbol_nil
  | cons c rest => exact endsSymbol_cons (ne_of_isNamePart (isNamePart_of_isMantissa hbegins))

theorem beginsSymbol_of_isBlank {c : Char} (h : Text.isBlank c = true) : beginsSymbol c = false := by
  apply Bool.eq_false_iff.2
  intro hbegins
  have hmem : c ∈ ['=', '!', '>', '<', '&', '|', '+', '-', '*', '/', '^'] := by
    simpa [beginsSymbol] using hbegins
  have hnot : ['=', '!', '>', '<', '&', '|', '+', '-', '*', '/', '^'].all (fun d => !Text.isBlank d) = true := by
    decide
  have hc := List.all_eq_true.1 hnot c hmem
  simp [h] at hc

/-- A call shows its name, blanks and a parenthesis. -/
theorem passed_call {name gap inner : List Char} (hname : isName name = true) (hgap : Text.allBlank gap = true)
    (hinner : Balanced inner) : Passed (name ++ (gap ++ '(' :: (inner ++ [')']))) where
  tight := by
    have := (tight_of_isName hname).append tight_close (gap ++ '(' :: inner)
    simpa using this
  balanced := (balanced_of_isName hname).append ((balanced_of_allBlank hgap).append hinner.enclose)
  operators := by
    apply Scan.Heads.operatorsFrom
    apply Scan.heads_append
    · exact Scan.heads_of_forall fun c hc => beginsSymbol_of_isNamePart (forall_isNamePart_of_isName hname c hc)
    rw [run_of_isName hname]
    apply Scan.heads_append
    · simp only [Text.allBlank, List.all_eq_true] at hgap
      exact Scan.heads_of_forall fun c hc => beginsSymbol_of_isBlank (hgap c hc)
    rw [Scan.run_eq_self_of_allBlank hgap]
    exact Scan.heads_enclosed (by decide) hinner
  endsSymbol := by
    intro c hc
    have hhead : (name ++ (gap ++ '(' :: (inner ++ [')']))).head? = name.head? := by
      cases name with
      | nil => exact absurd rfl (ne_nil_of_isName hname)
      | cons d name => rfl
    rw [hhead] at hc
    exact ne_of_isNamePart (forall_isNamePart_of_isName hname c (List.mem_of_mem_head? hc))

theorem Atom.passed {text : List Char} (h : Atom text) : Passed text := by
  cases h with
  | name _ hname =>
    exact passed_of_isToken (isToken_of_isName hname) (endsSymbol_of_forall (forall_isNamePart_of_isName hname))
  | number _ hnumber => exact passed_of_isToken (isToken_of_isNumber hnumber) hnumber.endsSymbol
  | quoted content =>
    have hsolid := @Expr.solid_chars (fun _ => true) (.quoted (String.ofList content)) rfl
      (by simp [Expr.Unassigning, Expr.tokens])
    rw [Expr.chars, String.toList_ofList] at hsolid
    exact hsolid.passed (endsSymbol_cons (by decide))
  | call name gap inner hname hgap hinner => exact passed_call hname hgap hinner
  | enclosed inner hinner => exact (solid_enclosed hinner).passed (endsSymbol_cons (by decide))

/-! ## Signs in front of an atom -/

/-- The signs as the scan finds them behind `lead`. -/
def signsFound (lead : List Char) : List Sign → List Occurrence
  | [] => []
  | s :: more => ⟨lead, s.symbol, true⟩ :: signsFound [] more

/-- What is left of the text in front of the signs: the first of them takes it. -/
def leadAfter (lead : List Char) : List Sign → List Char
  | [] => lead
  | _ :: _ => []

/-- Signs are found one by one, and the text behind them is searched from the start. -/
theorem operatorsFrom_signs {signs : List Sign} {lead text : List Char} (hmark : SameMark [] lead.reverse)
    (htext : EndsSymbol text) :
    operatorsFrom Scan.start true lead.reverse (signs.map Sign.char ++ text) =
      (signsFound lead signs ++ (operatorsFrom Scan.start true (leadAfter lead signs).reverse text).1,
        (operatorsFrom Scan.start true (leadAfter lead signs).reverse text).2) := by
  induction signs generalizing lead with
  | nil => rfl
  | cons s more ih =>
    have hends : EndsSymbol (more.map Sign.char ++ text) := by
      cases more with
      | nil => exact htext
      | cons next more => exact next.endsSymbol_char _
    have hexponent : endsInExponentMark lead.reverse = false := (hmark []).symm
    have hrest := @ih [] (SameMark.refl [])
    have hempty : leadAfter [] more = [] := by cases more <;> rfl
    rw [List.reverse_nil, hempty, List.reverse_nil] at hrest
    rw [List.map_cons, List.cons_append, operatorsFrom, s.symbol?_char hends]
    simp only [hexponent, Bool.and_false, Bool.false_eq_true, if_false, Sign.spelling_symbol, List.length_singleton,
      Nat.sub_self, List.drop_zero, hrest, Sign.mayLead_symbol, Bool.and_self, List.reverse_reverse, signsFound,
      leadAfter, List.reverse_nil, List.cons_append]

theorem sameMark_leadAfter {lead : List Char} (h : SameMark [] lead.reverse) (signs : List Sign) :
    SameMark [] (leadAfter lead signs).reverse := by
  cases signs with
  | nil => exact h
  | cons s more => exact SameMark.refl []

theorem joined_signsFound (lead : List Char) (signs : List Sign) (text : List Char) :
    joined (signsFound lead signs) (leadAfter lead signs ++ text) = lead ++ (signs.map Sign.char ++ text) := by
  induction signs generalizing lead with
  | nil => rfl
  | cons s more ih =>
    have hrest := ih []
    have hempty : leadAfter [] more = [] := by cases more <;> rfl
    rw [hempty] at hrest
    simp only [joined, List.nil_append] at hrest
    simp [joined, signsFound, leadAfter, Occurrence.chars, Sign.spelling_symbol, hrest]

/-- All signs lead, so they are taken off together. -/
theorem leading_signsFound (lead : List Char) (signs : List Sign) (text : List Char) :
    leading (signsFound lead signs) text = (signs.map Sign.symbol, text) := by
  induction signs generalizing lead with
  | nil => rfl
  | cons s more ih =>
    have hrest := ih []
    simp only [leading, Prod.mk.injEq] at hrest
    simp [leading, signsFound, hrest]

/-- No text is cut at a sign. -/
theorem Chain.cut_signsFound (level : Nat) (last lead : List Char) (signs : List Sign) (found : List Occurrence) :
    cut level last (signsFound lead signs ++ found) =
      ⟨joined (signsFound lead signs) (cut level last found).first, (cut level last found).links⟩ := by
  induction signs generalizing lead with
  | nil => rfl
  | cons s more ih =>
    have hrest := ih []
    rw [signsFound, List.cons_append, cut]
    cases s <;> simp [Sign.symbol, hrest, joined]

/-! ## Operands -/

/-- Signs and an atom that is read as a tree. -/
structure Operand (isFunction : String → Bool) where
  signs : List Sign
  text : List Char
  tree : Expr
  atom : Atom text
  accepted : Expr.parse isFunction text = .ok tree

/-- What is read does not depend on the blanks around it. -/
theorem Expr.parse_congr_trim {isFunction : String → Bool} {text input : List Char} {e : Expr}
    (h : parse isFunction text = .ok e) (hinput : Text.trim input = Text.trim text) :
    parse isFunction input = .ok e := by
  rw [parse_eq] at h
  obtain ⟨shape, hshape, hread⟩ := bind_eq_ok.1 h
  have hinputShape : Shape.ofText isFunction input = .ok shape := by
    obtain ⟨_, hbalance, hshape⟩ := bind_eq_ok.1 hshape
    have hbalanced := Shape.checkBalance_eq_ok.1 hbalance
    have hbalancedInput : Balanced input := by
      rw [← balanced_trim, hinput]
      exact balanced_trim.2 hbalanced
    dsimp only at hshape
    split at hshape
    · simp at hshape
    · rename_i hne
      rw [Shape.ofText_eq hbalancedInput rfl (by rw [hinput]; simpa using hne), hinput]
      exact hshape
  rw [parse_of_ofText hinputShape]
  exact hread

namespace Operand

variable {isFunction : String → Bool}

def chars (a : Operand isFunction) : List Char := a.signs.map Sign.char ++ a.text

/-- The tree of an operand: the sign next to the atom applies first. -/
def expr (a : Operand isFunction) : Expr := a.signs.foldr (fun s operand => s.apply operand) a.tree

theorem tight (a : Operand isFunction) : Text.Tight a.chars := by
  have htext := a.atom.passed.tight
  unfold chars
  cases a.signs with
  | nil => exact htext
  | cons s more =>
    obtain ⟨-, c, hc, hblank⟩ := htext
    refine ⟨⟨s.char, rfl, s.scan_char.2.2.2⟩, c, ?_, hblank⟩
    simp [List.getLast?_cons, List.getLast?_append, hc]

theorem balanced (a : Operand isFunction) : Balanced a.chars := by
  apply Balanced.append
  · apply balanced_of_forall
    intro c hc
    obtain ⟨s, -, rfl⟩ := List.mem_map.1 hc
    obtain ⟨hquote, hopen, hclose, -⟩ := s.scan_char
    exact ⟨hquote, hopen, hclose⟩
  · exact a.atom.passed.balanced

/-- Of an operand only its signs are found. -/
theorem operatorsFrom_append (a : Operand isFunction) {lead rest : List Char} (hmark : SameMark [] lead.reverse)
    (hrest : EndsSymbol rest) :
    operatorsFrom Scan.start true lead.reverse (a.chars ++ rest) =
      (signsFound lead a.signs ++
          (operatorsFrom Scan.start false (leadAfter lead a.signs ++ a.text).reverse rest).1,
        (operatorsFrom Scan.start false (leadAfter lead a.signs ++ a.text).reverse rest).2) := by
  have hpassed := a.atom.passed
  have hends : EndsSymbol (a.text ++ rest) := by
    intro c hc
    apply hpassed.endsSymbol c
    obtain ⟨⟨d, hd, -⟩, -⟩ := hpassed.tight
    rwa [List.head?_append, hd, Option.some_or, ← hd] at hc
  rw [chars, List.append_assoc, operatorsFrom_signs hmark hends,
    Tabular.operatorsFrom_append hpassed.operators (sameMark_leadAfter hmark a.signs) hrest,
    hpassed.balanced.run_start, hpassed.tight.all_isAsciiBlank, Bool.and_false, List.reverse_append]

theorem operators_chars (a : Operand isFunction) :
    operators a.chars = (signsFound [] a.signs, leadAfter [] a.signs ++ a.text) := by
  have h := @operatorsFrom_append _ a [] [] (SameMark.refl []) endsSymbol_nil
  simp only [List.append_nil, List.reverse_nil, operatorsFrom, List.reverse_reverse] at h
  exact h

/-- Reading an operand takes the signs off and reads the atom. -/
theorem parse_of_trim (a : Operand isFunction) {input : List Char} (h : Text.trim input = a.chars) :
    Expr.parse isFunction input = .ok a.expr := by
  cases hsigns : a.signs with
  | nil =>
    have htext : a.chars = a.text := by rw [chars, hsigns]; rfl
    have hexpr : a.expr = a.tree := by rw [expr, hsigns]; rfl
    rw [hexpr]
    apply Expr.parse_congr_trim a.accepted
    rw [h, htext, Text.trim_eq_self a.atom.passed.tight]
  | cons s more =>
    have hfound := a.operators_chars
    rw [hsigns] at hfound
    have hnone : enclosed? a.chars = none := by
      apply enclosed?_eq_none_of_operators
      rw [hfound]
      exact List.cons_ne_nil _ _
    have hloosest : Chain.loosest? (signsFound [] (s :: more)) a.text = none := by
      unfold Chain.loosest?
      rw [List.findSome?_eq_none_iff]
      intro level _
      have hcut := Chain.cut_signsFound level a.text [] (s :: more) []
      rw [List.append_nil] at hcut
      rw [hcut]
      rfl
    have hsignsShape : Shape.ofStripped isFunction a.chars = .ok (.signs ((s :: more).map Sign.symbol) a.text) := by
      have hleading := leading_signsFound [] (s :: more) a.text
      simp only [signsFound] at hloosest hleading
      simp [Shape.ofStripped, hfound, signsFound, leadAfter, hloosest, Shape.ofSigns, hleading]
    have hbalanced : Balanced input := by
      rw [← balanced_trim, h]
      exact a.balanced
    have hstrip : stripParens (Text.trim input) = a.chars := by
      rw [h, stripParens_eq_self hnone]
    have hshape := (Shape.ofText_eq hbalanced hstrip a.tight.ne_nil).trans hsignsShape
    have hexpr : a.expr = ((s :: more).map Sign.symbol).foldr Symbol.applyTo a.tree := by
      rw [expr, hsigns, List.foldr_map]
      simp only [Sign.applyTo_symbol]
    rw [Expr.parse_of_ofText hshape, Shape.read, a.accepted, hexpr]
    rfl

/-! ### Names and numbers -/

theorem parse_token {token : String} (h : isToken token.toList = true) :
    Expr.parse isFunction token.toList = .ok (.leaf token) := by
  have hnone : enclosed? token.toList = none :=
    enclosed?_eq_none_of_not_mem fun hmem => (visible_of_isToken h '(' hmem).2.1 rfl
  have hstrip : stripParens (Text.trim token.toList) = token.toList := by
    rw [Text.trim_eq_self (tight_of_isToken h), stripParens_eq_self hnone]
  have hshape := @Shape.ofText_eq isFunction _ _ (balanced_of_isToken h) hstrip (ne_nil_of_isToken h)
  rw [Expr.parse_of_ofText (hshape.trans (Shape.ofStripped_leaf h))]
  rfl

/-- A name is always accepted. -/
def ofName (signs : List Sign) (name : String) (h : isName name.toList = true) : Operand isFunction where
  signs := signs
  text := name.toList
  tree := .leaf name
  atom := .name _ h
  accepted := parse_token (isToken_of_isName h)

/-- A number is always accepted. -/
def ofNumber (signs : List Sign) (number : String) (h : IsNumber number.toList) : Operand isFunction where
  signs := signs
  text := number.toList
  tree := .leaf number
  atom := .number _ h
  accepted := parse_token (isToken_of_isNumber h)

end Operand

end Tabular
