-- SUMMARY: Reading integers and floats from text.
/-!
# Numbers in text

An integer is a run of ASCII digits with an optional sign that fits 64 signed bits. A float is `inf`,
`infinity` or `nan` in any case, or digits with an optional point and an optional exponent; a digit must
stand before or after the point. No blanks are allowed inside or around.
-/

namespace Tabular.Decimal

/-- The value of a run of decimal digits. -/
def digitsValue (digits : List Char) : Nat :=
  digits.foldl (fun n c => 10 * n + (c.toNat - '0'.toNat)) 0

/-- The value of a non-empty run of ASCII digits. -/
def natural? (s : List Char) : Option Nat :=
  if s.isEmpty || !s.all Char.isDigit then none else some (digitsValue s)

/-- Split off a leading sign; `true` stands for minus. -/
def splitSign : List Char → Bool × List Char
  | '-' :: rest => (true, rest)
  | '+' :: rest => (false, rest)
  | s => (false, s)

/-- An integer of any size. -/
def wholeNumber? (s : List Char) : Option Int :=
  let (negative, digits) := splitSign s
  (natural? digits).map fun n => if negative then -(n : Int) else n

def fitsInt64 (n : Int) : Bool := -0x8000000000000000 ≤ n && n < 0x8000000000000000

/-- The 64-bit integer equal to `n`, if there is one. -/
def toInt64? (n : Int) : Option Int64 :=
  if fitsInt64 n then some (Int64.ofInt n) else none

def integer? (s : List Char) : Option Int64 :=
  (wholeNumber? s).bind toInt64?

/-! ## Floats -/

/-- The float nearest to `digits * 10 ^ exponent`. Powers of ten far outside the range of floats are
    answered at once. -/
def ofDigits (digits : Nat) (exponent : Int) : Float :=
  if digits = 0 then 0.0
  else
    let power := (Nat.toDigits 10 digits).length + exponent
    if power > 400 then 1.0 / 0.0
    else if power < -400 then 0.0
    else Float.ofScientific digits (exponent < 0) exponent.natAbs

/-- What follows the digits: nothing, or an `e` and a signed run of digits. -/
def exponentPart? : List Char → Option Int
  | [] => some 0
  | c :: rest => if c == 'e' || c == 'E' then wholeNumber? rest else none

/-- Digits, a point, digits and an exponent. -/
def decimal? (s : List Char) : Option Float :=
  let whole := s.takeWhile Char.isDigit
  let afterWhole := s.dropWhile Char.isDigit
  let (fraction, rest) := match afterWhole with
    | '.' :: t => (t.takeWhile Char.isDigit, t.dropWhile Char.isDigit)
    | t => ([], t)
  if whole.isEmpty && fraction.isEmpty then none
  else (exponentPart? rest).map fun e => ofDigits (digitsValue (whole ++ fraction)) (e - fraction.length)

def unsignedFloat? (s : List Char) : Option Float :=
  let word := String.ofList (s.map Char.toLower)
  if word == "inf" || word == "infinity" then some (1.0 / 0.0)
  else if word == "nan" then some (0.0 / 0.0)
  else decimal? s

def float? (s : List Char) : Option Float :=
  let (negative, rest) := splitSign s
  (unsignedFloat? rest).map fun x => if negative then -x else x

end Tabular.Decimal
