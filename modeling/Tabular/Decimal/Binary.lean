-- SUMMARY: Floats as exact binary numbers: sign, significand and exponent, the integer part, and the total order.
/-!
# Binary magnitudes

A finite float is a sign and a magnitude `significand * 2 ^ exponent`. Rounding, truncation and the
choice of digits are decided on that exact number. The total order of floats is the order of an
integer key: all NaNs are one value above everything else, and the two zeros are equal.
-/

namespace Tabular.Decimal

/-- A magnitude `significand * 2 ^ exponent`. Below a power of two the next float is half as far away
    as above it; `narrowBelow` marks those magnitudes. -/
structure Magnitude where
  significand : Nat
  exponent : Int
  narrowBelow : Bool
  deriving DecidableEq, Repr

def isNegative (x : Float) : Bool := x.toBits >>> 63 == 1

/-- The magnitude of a finite float. -/
def Magnitude.ofFloat (x : Float) : Magnitude :=
  let field := ((x.toBits >>> 52) &&& 0x7ff).toNat
  let fraction := (x.toBits &&& 0xfffffffffffff).toNat
  if field = 0 then ⟨fraction, -1074, false⟩
  else ⟨0x10000000000000 + fraction, field - 1075, fraction == 0 && field > 1⟩

/-- The integer part of a finite float, towards zero. -/
def truncate (x : Float) : Int :=
  let v := Magnitude.ofFloat x
  let size : Int := ((v.significand <<< v.exponent.toNat) >>> (-v.exponent).toNat : Nat)
  if isNegative x then -size else size

/-! ## Order -/

/-- The place of a float in the total order: NaN last, the zeros equal. -/
def orderKey (x : Float) : Int :=
  if x.isNaN then 0x7fffffffffffffff
  else
    let size : Int := (x.toBits &&& 0x7fffffffffffffff).toNat
    if isNegative x then -size else size

/-- Compare in the total order. -/
def compareFloats (x y : Float) : Ordering := compare (orderKey x) (orderKey y)

/-- Compare as numbers: nothing compares with NaN. -/
def compareNumbers? (x y : Float) : Option Ordering :=
  if x.isNaN || y.isNaN then none else some (compareFloats x y)

end Tabular.Decimal
