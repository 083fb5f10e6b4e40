-- SUMMARY: Casting values from one type to another.
import Tabular.Value
import Tabular.Series.Fault

/-!
# Casts

A null stays null and a value of the wanted type stays as it is. Dates and numbers are cast by the code
YYYYMMDD; floats lose their fraction on the way to integers and dates; text is trimmed before it is read
as a number, and read as a date by the first pattern that fits.
-/

namespace Tabular.Value

/-- The integer part of a float, if the float is finite and less than `2 ^ 63` in size. -/
def wholePart? (x : Float) : Option Int64 :=
  if x.isFinite then
    let n := Decimal.truncate x
    if n.natAbs < 0x8000000000000000 then some (Int64.ofInt n) else none
  else none

/-- The value as type `target`, if there is one. -/
def cast? (patterns : List String) (target : DataType) : Value → Option Value
  | null => some null
  | integer n =>
    match target with
    | .integer => some (integer n)
    | .float => some (float (ofInt64 n))
    | .string => some (string (text (integer n)))
    | .date => (Date.ofCode? n.toInt).map date
    | _ => none
  | float x =>
    match target with
    | .float => some (float x)
    | .integer => (wholePart? x).map integer
    | .string => some (string (text (float x)))
    | .date => if x.isFinite then (Date.ofCode? (Decimal.truncate x)).map date else none
    | _ => none
  | string s =>
    match target with
    | .string => some (string s)
    | .integer => (Decimal.integer? (Text.trim s.toList)).map integer
    | .float => (Decimal.float? (Text.trim s.toList)).map float
    | .date => (Date.ofPatterns? patterns s).map date
    | _ => none
  | date d =>
    match target with
    | .date => some (date d)
    | .string => some (string d.text)
    | .integer => some (integer (Int64.ofInt d.toCode))
    | .float => some (float (Float.ofInt d.toCode))
    | _ => none

/-- Cast, or say what could not be cast. -/
def cast (patterns : List String) (target : DataType) (v : Value) : Except SeriesFault Value :=
  match v.cast? patterns target with
  | some w => .ok w
  | none => .error (.cast v.text v.dataType target)

end Tabular.Value
