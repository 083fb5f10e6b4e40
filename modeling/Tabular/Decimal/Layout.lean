-- SUMMARY: How the digits of a float are laid out as text.
import Tabular.Decimal.Shortest

/-!
# Layout of floats

A layout says which digits of a float are written, for which magnitudes the scientific form is used, and
whether a whole number keeps a `.0`; sign, `NaN` and `inf` are the same in all of them.
-/

namespace Tabular.Decimal

structure Layout where
  /-- The digits that are written. -/
  digits : Magnitude → Scaled
  /-- Whether a number whose first digit has this power of ten is written in scientific form. -/
  scientific : Int → Bool
  /-- Whether a whole number is written with a fraction `.0`. -/
  pointZero : Bool
  /-- Whether the number before an exponent is. -/
  scientificPointZero : Bool
  /-- The text of the power of ten. -/
  power : Int → List Char

/-- The form that tells floats from integers: plain from `1e-4` to below `1e16`, always with a point. -/
def Layout.tagged : Layout where
  digits := Magnitude.shortest
  scientific e := e < -4 || 16 ≤ e
  pointZero := true
  scientificPointZero := false
  power e := (toString e).toList

/-- The form used inside sentences: never scientific, no needless fraction. -/
def Layout.plain : Layout where
  digits := Magnitude.shortest
  scientific _ := false
  pointZero := false
  scientificPointZero := false
  power e := (toString e).toList

/-- A power of ten with a sign and at least two digits. -/
def signedPower (e : Int) : List Char :=
  let digits := (toString e.natAbs).toList
  (if e < 0 then '-' else '+') :: List.replicate (2 - digits.length) '0' ++ digits

/-- The form in which a database turns floats into text: fifteen digits, and always a point. -/
def Layout.fifteenDigits : Layout where
  digits x := x.rounded 15
  scientific e := e < -4 || 15 ≤ e
  pointZero := true
  scientificPointZero := true
  power := signedPower

/-- Digits with a point where the power of ten puts it. -/
def Layout.positional (layout : Layout) (digits : List Char) (exponent : Int) : List Char :=
  if 0 ≤ exponent then
    digits ++ List.replicate exponent.toNat '0' ++ (if layout.pointZero then ['.', '0'] else [])
  else
    let places := (-exponent).toNat
    if places < digits.length then
      digits.take (digits.length - places) ++ '.' :: digits.drop (digits.length - places)
    else
      '0' :: '.' :: List.replicate (places - digits.length) '0' ++ digits

/-- One digit before the point and the power of ten after an `e`. -/
def Layout.scientificText (layout : Layout) (digits : List Char) (power : Int) : List Char :=
  let mantissa := match digits with
    | [] => []
    | [first] => if layout.scientificPointZero then [first, '.', '0'] else [first]
    | first :: more => first :: '.' :: more
  mantissa ++ 'e' :: layout.power power

/-- The text of the magnitude of a finite float. -/
def Layout.magnitude (layout : Layout) (x : Float) : List Char :=
  let v := Magnitude.ofFloat x
  if v.significand = 0 then
    if layout.pointZero then ['0', '.', '0'] else ['0']
  else
    let d := layout.digits v
    let digits := Nat.toDigits 10 d.digits
    let power := d.exponent + digits.length - 1
    if layout.scientific power then layout.scientificText digits power
    else layout.positional digits d.exponent

/-- The text of a float. -/
def Layout.text (layout : Layout) (x : Float) : String :=
  if x.isNaN then "NaN"
  else
    let size := if x.isInf then ['i', 'n', 'f'] else layout.magnitude x
    String.ofList (if isNegative x then '-' :: size else size)

end Tabular.Decimal
