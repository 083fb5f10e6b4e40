-- SUMMARY: The fewest decimal digits that read back to a float, chosen by exact integer arithmetic.
import Tabular.Decimal.Binary

/-!
# Shortest digits

A decimal stands for a float if it lies among the reals that round to it: between the halfway points to
the two neighbours, which count as inside exactly when the significand is even. Of those decimals the
ones with the fewest digits are kept, of these the nearest to the exact value, and of two equally near
ones the larger. On a grid of one digit count only the two neighbours of the value can qualify, so
looking at those is enough.
-/

namespace Tabular.Decimal

/-- A power of ten. -/
def tenTo (n : Nat) : Nat := Nat.pow 10 n

/-- The number `digits * 10 ^ exponent`. -/
structure Scaled where
  digits : Nat
  exponent : Int
  deriving DecidableEq, Repr

/-- Compare `d` with `a * 2 ^ j`. -/
def Scaled.compareBinary (d : Scaled) (a : Nat) (j : Int) : Ordering :=
  compare ((d.digits * tenTo d.exponent.toNat) <<< (-j).toNat) ((a * tenTo (-d.exponent).toNat) <<< j.toNat)

/-- Whether `d` rounds to `x`. The halfway points are counted in quarters of the last binary place. -/
def Magnitude.readsBack (x : Magnitude) (d : Scaled) : Bool :=
  let low := 4 * x.significand - (if x.narrowBelow then 1 else 2)
  let high := 4 * x.significand + 2
  let even := x.significand % 2 == 0
  let fromLow := d.compareBinary low (x.exponent - 2)
  let toHigh := d.compareBinary high (x.exponent - 2)
  (fromLow == .gt || (even && fromLow == .eq)) && (toHigh == .lt || (even && toHigh == .eq))

/-- The largest multiple of `10 ^ e` up to `x`, in that unit. -/
def Magnitude.floorAt (x : Magnitude) (e : Int) : Nat :=
  ((x.significand * tenTo (-e).toNat) <<< x.exponent.toNat) / (tenTo e.toNat <<< (-x.exponent).toNat)

/-- The multiple of `10 ^ e` that stands for `x`, if one does. A tie goes up. -/
def Magnitude.onGrid? (x : Magnitude) (e : Int) : Option Scaled :=
  let below : Scaled := ⟨x.floorAt e, e⟩
  let above : Scaled := ⟨x.floorAt e + 1, e⟩
  let middle : Scaled := ⟨2 * x.floorAt e + 1, e⟩
  match x.readsBack below, x.readsBack above with
  | true, true => if middle.compareBinary x.significand (x.exponent + 1) == .gt then some below else some above
  | true, false => some below
  | false, true => some above
  | false, false => none

/-- Whether `x` is below `10 ^ k`. -/
def Magnitude.isBelowTenTo (x : Magnitude) (k : Int) : Bool :=
  (⟨1, k⟩ : Scaled).compareBinary x.significand x.exponent == .gt

/-- The first `k` of the `steps` numbers from `k` on with `x` below `10 ^ k`. -/
def Magnitude.climb (x : Magnitude) : Nat → Int → Int
  | 0, k => k
  | steps + 1, k => if x.isBelowTenTo k then k else x.climb steps (k + 1)

/-- The number of digits before the decimal point: the least `k` with `x < 10 ^ k`. The first guess
    comes from the binary length and is never too large. -/
def Magnitude.wholeDigits (x : Magnitude) : Int :=
  x.climb 4 (Int.fdiv ((x.significand.log2 + x.exponent) * 30103) 100000)

/-- The exact value, for a number that no shorter decimal stands for. -/
def Magnitude.exact (x : Magnitude) : Scaled :=
  if 0 ≤ x.exponent then ⟨x.significand <<< x.exponent.toNat, 0⟩
  else ⟨x.significand * Nat.pow 5 (-x.exponent).toNat, x.exponent⟩

/-- Move trailing zeros, at most `n` of them, from the digits into the exponent. -/
def Scaled.strip : Nat → Scaled → Scaled
  | 0, d => d
  | n + 1, d => if d.digits % 10 == 0 && d.digits != 0 then strip n ⟨d.digits / 10, d.exponent + 1⟩ else d

/-- The fewest digits that read back to a non-zero magnitude. Seventeen always suffice. -/
def Magnitude.shortest (x : Magnitude) : Scaled :=
  let k := x.wholeDigits
  let found := (List.range 17).findSome? fun n : Nat => x.onGrid? (k - (n + 1))
  (found.getD x.exact).strip 400

/-- The nearest decimal of `n` digits, without its trailing zeros. A tie goes up. -/
def Magnitude.rounded (x : Magnitude) (n : Nat) : Scaled :=
  let e := x.wholeDigits - n
  let middle : Scaled := ⟨2 * x.floorAt e + 1, e⟩
  let up := middle.compareBinary x.significand (x.exponent + 1) != .gt
  Scaled.strip n ⟨if up then x.floorAt e + 1 else x.floorAt e, e⟩

end Tabular.Decimal
