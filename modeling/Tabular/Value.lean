-- SUMMARY: Cells: the values of a column, their text, their views, and their two orders.
import Tabular.DataType
import Tabular.Date.Pattern
import Tabular.Decimal.Layout

/-!
# Values

A value is one cell. Values have two orders. `compare` is total: it ranks the kinds first and puts NaN
above all other floats, so values can be sorted and used as keys. `compareNumeric?` is the order that
formulas see: integers and floats are one domain, and NaN and unrelated kinds do not compare.
-/

namespace Tabular

inductive Value where
  | null
  | integer (n : Int64)
  | float (x : Float)
  | string (s : String)
  | date (d : Date)
  deriving DecidableEq

namespace Value

def dataType : Value → DataType
  | null => .nil
  | integer _ => .integer
  | float _ => .float
  | string _ => .string
  | date _ => .date

/-- The text of a value. A float is always told from an integer by its point or exponent. -/
def text : Value → String
  | null => "null"
  | integer n => toString n.toInt
  | float x => Decimal.Layout.tagged.text x
  | string s => s
  | date d => d.text

/-! ## Views -/

def integer? : Value → Option Int64
  | integer n => some n
  | _ => none

def ofInt64 (n : Int64) : Float := Float.ofInt n.toInt

/-- A number as a float; integers are rounded to the nearest one. -/
def number? : Value → Option Float
  | integer n => some (ofInt64 n)
  | float x => some x
  | _ => none

def string? : Value → Option String
  | string s => some s
  | _ => none

/-! ## Orders -/

def rank : Value → Nat
  | null => 0
  | integer _ => 1
  | float _ => 2
  | string _ => 3
  | date _ => 4

/-- The total order. -/
def compare : Value → Value → Ordering
  | integer a, integer b => Ord.compare a.toInt b.toInt
  | float a, float b => Decimal.compareFloats a b
  | string a, string b => Ord.compare a b
  | date a, date b => a.compare b
  | a, b => Ord.compare a.rank b.rank

/-- Whether two values are the same key: NaN is NaN, and the zeros are equal. -/
def same : Value → Value → Bool
  | null, null => true
  | integer a, integer b => a == b
  | float a, float b => Decimal.compareFloats a b == .eq
  | string a, string b => a == b
  | date a, date b => a == b
  | _, _ => false

/-- The order of formulas. -/
def compareNumeric? : Value → Value → Option Ordering
  | integer a, integer b => some (Ord.compare a.toInt b.toInt)
  | string a, string b => some (Ord.compare a b)
  | date a, date b => some (a.compare b)
  | a, b =>
    match a.number?, b.number? with
    | some x, some y => Decimal.compareNumbers? x y
    | _, _ => none

/-- Sort by the total order; equal keys keep their order. -/
def sort (values : List Value) : List Value :=
  values.mergeSort fun a b => a.compare b != .gt

end Value

end Tabular
