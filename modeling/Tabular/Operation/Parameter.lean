-- SUMMARY: Operands that must be constants: target types, thresholds and quantile levels.
import Tabular.Failure
import Tabular.Value

/-!
# Parameters

Some operands steer an operation instead of being computed on: the target type of a cast, the threshold
of a category map, the level of a quantile. They must be constants of a formula, and are read here.
-/

namespace Tabular.Parameter

/-- The type that the second operand of a cast names. -/
def castTarget (constant : Option Value) : Except Failure DataType :=
  match constant.bind Value.string? with
  | none => .error (.execution "cast" .castTarget)
  | some name => do
    let type ← DataType.ofName name
    if type.isConcrete then return type else throw (.execution "cast" (.castTo type))

/-- How often a value must occur to get a category of its own. -/
def threshold (constant : Option Value) : Except Failure Nat :=
  match constant.bind Value.integer? with
  | some n => if n.toInt < 0 then .error (.execution "cat" .threshold) else .ok n.toInt.toNat
  | none => .error (.execution "cat" .threshold)

/-- The share of cells below a quantile. -/
def quantileLevel (constant : Option Value) : Except Failure Float :=
  match constant.bind Value.number? with
  | some level =>
    if 0.0 ≤ level ∧ level ≤ 1.0 then .ok level else .error (.execution "quantile" .quantileLevel)
  | none => .error (.execution "quantile" .quantileLevel)

end Tabular.Parameter
