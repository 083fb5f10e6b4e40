-- SUMMARY: Aggregates of stored cells, with totals that keep track of their rounding errors.
import Tabular.Sql.Store.Scalar

/-!
# Aggregates of cells

Aggregates pass over nulls, and all but the count are null when nothing is left. A total of integers is
exact. From the first real on a total is a float, and the error of each addition is added up beside it and
put in at the end. A total of integers alone that does not fit 64 bits is refused.
-/

namespace Tabular.Sql

/-- A running total. -/
inductive Total where
  | exact (sum : Int64)
  /-- A float and the sum of its errors; `overflow` is set while no real was met. -/
  | rounded (sum error : Float) (overflow : Bool)

namespace Total

/-! ## Adding -/

/-- Add a float to a rounded total; the error is found from the larger of the two. -/
def addFloat (sum error x : Float) : Float × Float :=
  let next := sum + x
  let lost := if x.abs < sum.abs then (sum - next) + x else (x - next) + sum
  (next, error + lost)

/-- Whether every bit of an integer fits a float. -/
def isNarrow (n : Int64) : Bool := n.toInt.natAbs < 0x10000000000000

/-- An integer in two parts that are floats; only integers of more than 52 bits need the second. -/
def parts (n : Int64) : Float × Float :=
  if isNarrow n then (Value.ofInt64 n, 0.0)
  else
    let low := n.toInt.tmod 0x4000
    (Float.ofInt (n.toInt - low), Float.ofInt low)

/-- Add an integer to a rounded total. -/
def addInteger (sum error : Float) (n : Int64) : Float × Float :=
  let (high, low) := parts n
  let (sum, error) := addFloat sum error high
  if isNarrow n then (sum, error) else addFloat sum error low

/-- Add a number; nulls and texts add nothing. -/
def add (t : Total) (c : Cell) : Total :=
  match t, c with
  | exact total, .integer n =>
    match Decimal.toInt64? (total.toInt + n.toInt) with
    | some total => exact total
    | none =>
      let (sum, error) := parts total
      let (sum, error) := addInteger sum error n
      rounded sum error true
  | exact total, .real x =>
    let (sum, error) := parts total
    let (sum, error) := addFloat sum error x
    rounded sum error false
  | rounded sum error overflow, .integer n =>
    let (sum, error) := addInteger sum error n
    rounded sum error overflow
  | rounded sum error _, .real x =>
    let (sum, error) := addFloat sum error x
    rounded sum error false
  | t, _ => t

/-- The total of numbers. -/
def ofCells (cells : List Cell) : Total := cells.foldl add (exact 0)

/-- The float with its errors put in, unless they are infinite themselves. -/
def corrected (sum error : Float) : Float := if error.isFinite then sum + error else sum

def float : Total → Float
  | exact total => Value.ofInt64 total
  | rounded sum error _ => corrected sum error

def cell : Total → Cell.Outcome
  | exact total => .ok (.integer total)
  | rounded sum error overflow => if overflow then .error .engine else .ok (.ofFloat (corrected sum error))

end Total

namespace Cell

/-! ## Aggregates -/

/-- The least of the cells, the first of equals. -/
def least (cells : List Cell) : Cell :=
  match cells with
  | [] => null
  | c :: rest => rest.foldl (fun least d => if d.compare least = .lt then d else least) c

/-- The greatest of the cells, the first of equals. -/
def greatest (cells : List Cell) : Cell :=
  match cells with
  | [] => null
  | c :: rest => rest.foldl (fun greatest d => if d.compare greatest = .gt then d else greatest) c

/-- An aggregate of the cells that are not null. -/
def aggregate (f : Function) (cells : List Cell) : Outcome :=
  let present := cells.filter (· != null)
  let numbers := present.map number
  match f with
  | .count => .ok (integer (Int64.ofNat present.length))
  | .sum => if present.isEmpty then .ok null else (Total.ofCells numbers).cell
  | .mean =>
    if present.isEmpty then .ok null
    else .ok (ofFloat ((Total.ofCells numbers).float / Float.ofNat present.length))
  | .min => .ok (least present)
  | .max => .ok (greatest present)
  | _ => .error .engine

end Cell

end Tabular.Sql
