-- SUMMARY: The operators at the top level of a formula text, with the texts between them.
import Tabular.Formula.Scan
import Tabular.Formula.Symbol

/-!
# Occurrences of operators

One pass over a text finds the operators at its top level. Each is kept with the text since the operator
before it, and a last text stands behind them all, so that nothing of the text is lost: put together again
they are the text (`joined_operators`).
-/

namespace Tabular

/-- Whether a sign after the text, given backwards, belongs to the exponent of a number: an `e` before
    it, before that digits and points with at least one digit, and before these nothing that an ASCII
    name could end with. -/
def endsInExponentMark : List Char → Bool
  | [] => false
  | c :: before =>
    let isMantissa (d : Char) : Bool := d.isDigit || d == '.'
    let mantissa := before.takeWhile isMantissa
    (c == 'e' || c == 'E') && mantissa.any Char.isDigit &&
      match before.dropWhile isMantissa with
      | [] => true
      | d :: _ => !(d.isAlphanum || d == '_')

/-- An operator at the top level of a text. -/
structure Occurrence where
  /-- The text since the operator before it, or since the start. -/
  before : List Char
  symbol : Symbol
  /-- The symbol stands in front of its operand: only blanks separate it from the start of the text or
      from the operator before it. -/
  leads : Bool
  deriving DecidableEq, Repr

/-- The text up to the end of the operator. -/
def Occurrence.chars (o : Occurrence) : List Char := o.before ++ o.symbol.spelling

/-- Put operators and the text behind them together. -/
def joined (found : List Occurrence) (last : List Char) : List Char :=
  found.flatMap Occurrence.chars ++ last

/-! ## Finding them -/

/-- The operator that starts here, if the state is at the top level. -/
def Scan.symbol? (s : Scan) (text : List Char) : Option Symbol :=
  if s.isTop then Symbol.atStart? text else none

/-- The operators at the top level of a text, in order, and what follows the last. `gap` is the text since
    the operator before, backwards, and `fresh` says that it holds only ASCII blanks. -/
def operatorsFrom (s : Scan) (fresh : Bool) (gap : List Char) : List Char → List Occurrence × List Char
  | [] => ([], gap.reverse)
  | c :: rest =>
    match s.symbol? (c :: rest) with
    | none => operatorsFrom (s.step c) (fresh && Text.isAsciiBlank c) (c :: gap) rest
    | some symbol =>
      if symbol.isSign && endsInExponentMark gap then operatorsFrom s false (c :: gap) rest
      else
        let (found, last) := operatorsFrom s true [] (rest.drop (symbol.spelling.length - 1))
        (⟨gap.reverse, symbol, symbol.mayLead && fresh⟩ :: found, last)
termination_by text => text.length
decreasing_by
  all_goals simp only [List.length_cons, List.length_drop]
  all_goals omega

def operators (text : List Char) : List Occurrence × List Char := operatorsFrom Scan.start true [] text

/-! ## Nothing is lost -/

theorem Scan.spelling_append_drop {s : Scan} {c : Char} {rest : List Char} {symbol : Symbol}
    (h : s.symbol? (c :: rest) = some symbol) :
    symbol.spelling ++ rest.drop (symbol.spelling.length - 1) = c :: rest := by
  unfold Scan.symbol? at h
  split at h
  · obtain ⟨more, hmore⟩ := Symbol.spelling_append_of_atStart? h
    cases hspelling : symbol.spelling with
    | nil => exact absurd hspelling symbol.spelling_ne_nil
    | cons d spelling =>
      rw [hspelling, List.cons_append] at hmore
      obtain ⟨rfl, rfl⟩ := List.cons.inj hmore
      simp
  · simp at h

theorem joined_operatorsFrom (s : Scan) (fresh : Bool) (gap text : List Char) :
    joined (operatorsFrom s fresh gap text).1 (operatorsFrom s fresh gap text).2 = gap.reverse ++ text := by
  induction s, fresh, gap, text using operatorsFrom.induct with
  | case1 => simp [operatorsFrom, joined]
  | case2 s fresh gap c rest hsymbol ih =>
    rw [operatorsFrom, hsymbol]
    simpa using ih
  | case3 s fresh gap c rest symbol hsymbol hsign ih =>
    rw [operatorsFrom, hsymbol]
    simpa [hsign] using ih
  | case4 s fresh gap c rest symbol hsymbol hsign found last hfound ih =>
    rw [operatorsFrom, hsymbol]
    simp only [hfound, joined, List.reverse_nil, List.nil_append] at ih
    simp only [hsign, Bool.false_eq_true, if_false, hfound, joined, List.flatMap_cons, Occurrence.chars,
      List.append_assoc]
    rw [ih, Scan.spelling_append_drop hsymbol]

/-- The operators of a text and the texts between them make the text. -/
theorem joined_operators (text : List Char) : joined (operators text).1 (operators text).2 = text := by
  simpa [operators] using joined_operatorsFrom Scan.start true [] text

end Tabular
