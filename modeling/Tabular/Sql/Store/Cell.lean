-- SUMMARY: Cells of stored tables: their order, their text, and the numbers that text stands for.
import Tabular.Decimal.Layout
import Tabular.Failure
import Tabular.Value

/-!
# Stored cells

A stored cell is null, a number or a text, whatever the type of its column is called; dates are texts.
Integers and reals are one domain and are compared exactly. Where a number is wanted, a text counts as its
longest beginning that is a number.
-/

namespace Tabular.Sql

inductive Cell where
  | null
  | integer (n : Int64)
  | real (x : Float)
  | text (s : String)
  deriving DecidableEq

namespace Cell

/-! ## Building -/

/-- A real number; what is not a number is null. -/
def ofFloat (x : Float) : Cell := if x.isNaN then null else real x

def ofBool (b : Bool) : Cell := integer (if b then 1 else 0)

/-- An integer, or the nearest real if it does not fit. -/
def ofInt (n : Int) : Cell :=
  match Decimal.toInt64? n with
  | some n => integer n
  | none => real (Float.ofInt n)

/-- A value as it is stored. -/
def ofValue : Value → Cell
  | .null => null
  | .integer n => integer n
  | .float x => ofFloat x
  | .string s => text s
  | .date d => text d.text

/-! ## Order -/

/-- Compare an integer with a real, exactly. -/
def compareMixed (n : Int64) (x : Float) : Ordering :=
  if x.isInf then (if x < 0.0 then .gt else .lt)
  else
    let whole := Decimal.truncate x
    (Ord.compare n.toInt whole).then (Decimal.compareFloats (Float.ofInt whole) x)

def rank : Cell → Nat
  | null => 0
  | integer _ | real _ => 1
  | text _ => 2

/-- Nulls first, then numbers, then texts. -/
def compare : Cell → Cell → Ordering
  | integer a, integer b => Ord.compare a.toInt b.toInt
  | real a, real b => Decimal.compareFloats a b
  | integer n, real x => compareMixed n x
  | real x, integer n => (compareMixed n x).swap
  | text a, text b => Ord.compare a b
  | a, b => Ord.compare a.rank b.rank

/-- Equality that also holds between nulls. -/
def same (a b : Cell) : Bool := a.compare b == .eq

/-! ## Numbers in text -/

/-- The blanks of SQL. -/
def isBlank (c : Char) : Bool := c == ' ' || (9 ≤ c.toNat && c.toNat ≤ 13)

/-- An exponent behind the digits and what follows it; without digits of its own it is none. -/
def splitExponent (s : List Char) : Option Int × List Char :=
  match s with
  | c :: rest =>
    if c == 'e' || c == 'E' then
      let (negative, digits) := Decimal.splitSign rest
      match Decimal.natural? (digits.takeWhile Char.isDigit) with
      | some n => (some (if negative then -(n : Int) else n), digits.dropWhile Char.isDigit)
      | none => (none, s)
    else (none, s)
  | [] => (none, s)

/-- The digits behind a point and what follows them; `none` if there is no point. -/
def splitFraction : List Char → Option (List Char) × List Char
  | '.' :: rest => (some (rest.takeWhile Char.isDigit), rest.dropWhile Char.isDigit)
  | s => (none, s)

/-- A number at the beginning of a text, after blanks, and what follows it. Digits alone are an integer, if
    it fits. -/
def readNumber? (s : List Char) : Option (Cell × List Char) :=
  let (negative, s) := Decimal.splitSign (s.dropWhile isBlank)
  let whole := s.takeWhile Char.isDigit
  let (fraction, s) := splitFraction (s.dropWhile Char.isDigit)
  let digits := whole ++ fraction.getD []
  if digits.isEmpty then none
  else
    let (exponent, s) := splitExponent s
    let size := Decimal.digitsValue digits
    if fraction.isNone && exponent.isNone then some (ofInt (if negative then -(size : Int) else size), s)
    else
      let x := Decimal.ofDigits size (exponent.getD 0 - (fraction.getD []).length)
      some (real (if negative then -x else x), s)

/-- The number that a whole text is, with blanks around it. -/
def wholeNumber? (s : String) : Option Cell :=
  match readNumber? s.toList with
  | some (n, rest) => if rest.all isBlank then some n else none
  | none => none

/-- The number that a cell counts as: a null as null, a text that begins with no number as zero. -/
def number : Cell → Cell
  | text s =>
    match readNumber? s.toList with
    | some (n, _) => n
    | none => integer 0
  | c => c

/-- A number as a float. -/
def float? (c : Cell) : Option Float :=
  match c.number with
  | integer n => some (Value.ofInt64 n)
  | real x => some x
  | _ => none

/-! ## Casts -/

/-- The text of a real. There is no negative zero. -/
def realText (x : Float) : String :=
  if x == 0.0 then "0.0"
  else if x.isInf then (if x < 0.0 then "-Inf" else "Inf")
  else Decimal.Layout.fifteenDigits.text x

def toText : Cell → Cell
  | integer n => text (Value.integer n).text
  | real x => text (realText x)
  | c => c

/-- The number at the beginning of a text as a real. The sign counts even where it is all there is. -/
def leadingReal (s : List Char) : Float :=
  let size := match readNumber? s with
    | some (integer n, _) => (Value.ofInt64 n).abs
    | some (real x, _) => x.abs
    | _ => 0.0
  if (Decimal.splitSign (s.dropWhile isBlank)).1 then -size else size

def toReal : Cell → Cell
  | integer n => real (Value.ofInt64 n)
  | text s => real (leadingReal s.toList)
  | c => c

/-- The nearest number of 64 bits. -/
def clamp (n : Int) : Int64 :=
  if Decimal.fitsInt64 n then Int64.ofInt n else if n < 0 then Int64.minValue else Int64.maxValue

/-- The digits at the beginning of a text, after blanks and a sign. -/
def leadingInteger (s : List Char) : Int :=
  let (negative, s) := Decimal.splitSign (s.dropWhile isBlank)
  let size := Decimal.digitsValue (s.takeWhile Char.isDigit)
  if negative then -size else size

/-- Reals lose their fraction, and what is too large becomes the largest integer. -/
def toInteger : Cell → Cell
  | real x =>
    if x.isInf then integer (if x < 0.0 then Int64.minValue else Int64.maxValue)
    else integer (clamp (Decimal.truncate x))
  | text s => integer (clamp (leadingInteger s.toList))
  | c => c

/-! ## Reading -/

/-- The type that an undeclared column takes from a cell. -/
def dataType : Cell → DataType
  | integer _ => .integer
  | real _ => .float
  | null | text _ => .string

/-- A date in one of the default patterns. -/
def readDate (s : String) : Except ReadFault Value :=
  match Date.ofPatterns? Date.defaultPatterns s with
  | some d => .ok (.date d)
  | none => .error (.notDate s)

/-- Read a cell as a value of a type. An integer can be read as a float. -/
def read (c : Cell) (type : DataType) : Except ReadFault Value :=
  match c, type.storage with
  | null, _ => .error .null
  | integer n, .integer => .ok (.integer n)
  | integer n, .float => .ok (.float (Value.ofInt64 n))
  | real x, .float => .ok (.float x)
  | text s, .string => .ok (.string s)
  | text s, .date => readDate s
  | integer _, expected => .error (.wrongKind .integer expected)
  | real _, expected => .error (.wrongKind .real expected)
  | text _, expected => .error (.wrongKind .text expected)

end Cell

end Tabular.Sql
