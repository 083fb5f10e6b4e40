-- SUMMARY: Aggregates: what scalar operations compute from the cells of a whole column.
import Tabular.Failure
import Tabular.Operation.Parameter
import Tabular.Series

/-!
# Aggregates

An aggregate takes all cells of a column to one value. Integer totals are refused if one of the partial
sums, taken from the first cell on, does not fit 64 bits. Float totals are taken from the first cell on
and start from negative zero, which is the float that changes no sum. Among equal cells the least is the
first and the greatest is the last.
-/

namespace Tabular.Memory.Aggregate

/-- The total of integers; none if a partial sum does not fit. -/
def integerSum? (cells : List Int64) : Option Int64 :=
  cells.foldlM (fun total n => Decimal.toInt64? (total.toInt + n.toInt)) 0

def floatSum (cells : List Float) : Float := cells.foldl (· + ·) (-0.0)

/-- The least of the cells, the first of equals. -/
def least? : List Value → Option Value
  | [] => none
  | v :: rest => some (rest.foldl (fun least w => if w.compare least = .lt then w else least) v)

/-- The greatest of the cells, the last of equals. -/
def greatest? : List Value → Option Value
  | [] => none
  | v :: rest => some (rest.foldl (fun greatest w => if w.compare greatest = .lt then greatest else w) v)

/-- The floats of a column in their total order. -/
def sortedFloats (data : Series) : List Float :=
  (data.values.filterMap Value.number?).mergeSort fun a b => Decimal.compareFloats a b != .gt

/-- Interpolate linearly between the two cells around the place `level * (n - 1)` of the sorted cells. -/
def quantile? (data : Series) (level : Float) : Option Float := do
  let sorted := sortedFloats data
  let place := level * Float.ofNat (sorted.length - 1)
  let below := (Decimal.truncate place).toNat
  let above := if Float.ofNat below < place then below + 1 else below
  let a ← sorted[below]?
  let b ← sorted[above]?
  return a + (b - a) * (place - Float.ofNat below)

/-- Run an aggregate over a column. `level` is the constant second operand, which only a quantile has. -/
def run (name : String) (data : Series) (level : Option Value) : Except Failure Value :=
  match name with
  | "count" => .ok (.integer (Int64.ofNat data.length))
  | "sum" =>
    match data with
    | .integers cells =>
      match integerSum? cells with
      | some total => .ok (.integer total)
      | none => .error (.execution name .overflow)
    | .floats cells => .ok (.float (floatSum cells))
    | _ => .error (.execution name (.noImplementationFor data.dataType))
  | "mean" =>
    if data.isEmpty then .error (.execution name (.emptyColumn name))
    else .ok (.float (floatSum (data.values.filterMap Value.number?) / Float.ofNat data.length))
  | "min" =>
    match least? data.values with
    | some v => .ok v
    | none => .error (.execution name (.emptyColumn name))
  | "max" =>
    match greatest? data.values with
    | some v => .ok v
    | none => .error (.execution name (.emptyColumn name))
  | "quantile" => do
    let level ← Parameter.quantileLevel level
    match quantile? data level with
    | some x => return .float x
    | none => throw (.execution name (.emptyColumn name))
  | _ => .error (.execution name (.noImplementationFor data.dataType))

end Tabular.Memory.Aggregate
