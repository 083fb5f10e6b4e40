-- SUMMARY: Constants in formulas: the values that quoted texts and bare tokens stand for.
import Tabular.Value
import Tabular.Decimal.Reading

/-!
# Constants

A quoted text stands for a date if a date pattern fits it, and for itself otherwise. A bare token that
names no column is tried as a date, as an integer and as a float, in this order. Words such as `inf` are
not floats here, so that a missing column of that name is noticed.
-/

namespace Tabular.Value

/-- What a quoted text stands for. -/
def ofQuoted (patterns : List String) (content : String) : Value :=
  match Date.ofPatterns? patterns content with
  | some d => date d
  | none => string content

/-- Whether a token may be a float: it begins with a digit or a point. -/
def beginsAsNumber : List Char → Bool
  | c :: _ => c.isDigit || c == '.'
  | [] => false

/-- What a bare token stands for, if it is a constant. -/
def ofToken? (patterns : List String) (token : String) : Option Value :=
  match Date.ofPatterns? patterns token with
  | some d => some (date d)
  | none =>
    match Decimal.integer? token.toList with
    | some n => some (integer n)
    | none =>
      if beginsAsNumber token.toList then (Decimal.float? token.toList).map float else none

end Tabular.Value
