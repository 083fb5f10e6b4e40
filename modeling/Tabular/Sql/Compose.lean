-- SUMMARY: Composing operations: the terms that carry out operations over columns of a source.
import Tabular.Operation
import Tabular.Operation.Parameter
import Tabular.Sql.Source

/-!
# Composing operations

An operation over columns is composed from terms for its operands. The terms are given apart from the
columns, because an operand has another term inside of an aggregate. A category map is built from the
fetched cells of its operand and becomes a choice among the codes.
-/

namespace Tabular.Sql

/-- A term with the type and the categories of its values. -/
structure Composed where
  term : Term
  dataType : DataType
  categories : Option CategoryMap

/-- An operand: its column and its term. -/
abbrev Operand := Column × Term

namespace Compose

/-- The operand of an index. -/
def operand (name : String) (operands : List Operand) (index : Nat) : Except Failure Operand :=
  match operands[index]? with
  | some operand => .ok operand
  | none => .error (.execution name (.missingOperandAt index))

def integer (n : Int64) : Term := .literal (.integer n)

/-- The branches of the categories with a code of their own: the raw value and the code. -/
def encoded (map : CategoryMap) : List (Value × Int64) :=
  map.entries.filter fun entry => entry.2 != CategoryMap.otherCode

/-- The code of a raw value; a value without a code of its own gets the default. -/
def encode (raw : Term) (map : CategoryMap) (default : Int64) : Term :=
  let entries := encoded map
  .case (entries.map fun (v, _) => .compare .eq raw (.literal v)) (entries.map fun (_, code) => integer code)
    (integer default)

def call (d : Dialect) (name : String) (terms : List Term) : Except Failure Term := do
  return .call (← d.function name terms.length) terms

/-- Convert a term; a conversion that changes nothing leaves it as it is. -/
def convert (d : Dialect) (term : Term) (source target : DataType) : Except Failure Term := do
  match ← d.conversion source target with
  | .same => return term
  | how => return .convert how term

def cast (d : Dialect) (operands : List Operand) : Except Failure Composed := do
  let (target, _) ← operand "cast" operands 1
  let type ← Parameter.castTarget target.constant
  let (value, term) ← operand "cast" operands 0
  return ⟨← convert d term value.dataType type, type, none⟩

/-- Encode a column with the categories of another one. -/
def applyCategories (operands : List Operand) : Except Failure Composed := do
  let (raw, term) ← operand "applyCat" operands 0
  let (categorical, _) ← operand "applyCat" operands 1
  match categorical.categories with
  | none => throw (.notCategorical categorical.name)
  | some map =>
    if raw.dataType ≠ map.rawType then throw (.series (.typeMismatch map.rawType raw.dataType))
    let (default, _) ← operand "applyCat" operands 2
    match default.constant with
    | none => throw (.execution "applyCat" .defaultLevel)
    | some level => return ⟨encode term map (← map.defaultCode level), .categorical, some map⟩

/-- Operands as floats. -/
def floats (d : Dialect) (operands : List Operand) : Except Failure (List Term) :=
  operands.mapM fun (column, term) => convert d term column.dataType .float

def compare (d : Dialect) (name : String) (operands : List Operand) : Except Failure Term := do
  let (_, left) ← operand name operands 0
  let (_, right) ← operand name operands 1
  return .compare (← d.comparison name) left right

def choice (name : String) (operands : List Operand) : Except Failure Term := do
  let (_, condition) ← operand name operands 0
  let (_, consequence) ← operand name operands 1
  let (_, alternative) ← operand name operands 2
  return .case [.compare .ne condition (integer 0)] [consequence] alternative

def quantile (d : Dialect) (operands : List Operand) : Except Failure Term := do
  let (level, _) ← operand "quantile" operands 1
  let level ← Parameter.quantileLevel level.constant
  let (_, term) ← operand "quantile" operands 0
  d.checkQuantile
  return .quantile term level

/-- An operation that needs nothing but the terms of its operands. -/
def plain (s : Source) (op : Resolved) (operands : List Operand) : Except Failure Term :=
  match op.name with
  | "row_number" => .ok (.rowNumber s.order)
  | "divide" => do call s.dialect "divide" (← floats s.dialect operands)
  | "pow" => do call s.dialect "pow" (← floats s.dialect operands)
  | "add" => call s.dialect (if op.output = .string then "concat" else "add") (operands.map (·.2))
  | "if" => choice "if" operands
  | "quantile" => quantile s.dialect operands
  | name =>
    if (Comparison.named? name).isSome then compare s.dialect name operands
    else call s.dialect name (operands.map (·.2))

/-- The threshold that a call of `cat` gives, or the configured one. -/
def categoryThreshold (options : Options) : List Operand → Except Failure (Option Nat)
  | [] => .ok options.categoryThreshold
  | [(threshold, _)] => some <$> Parameter.threshold threshold.constant
  | _ => .error (.execution "cat" .manyThresholds)

/-- Give the values of a column categories. The cells are fetched to find them. -/
def categorize {δ : Type} [Database δ] (s : Source) : List Operand → Work δ Composed
  | [] => throw (.execution "cat" .missingOperand)
  | (raw, term) :: more => do
    let threshold ← categoryThreshold s.options more
    let (map, _) ← liftM (m := Except Failure) (liftM (CategoryMap.build (← raw.values) threshold))
    return ⟨encode term map CategoryMap.otherCode, .categorical, some map⟩

/-- Compose an operation. -/
def operation {δ : Type} [Database δ] (s : Source) (op : Resolved) (operands : List Operand) :
    Work δ Composed :=
  match op.name with
  | "cast" => cast s.dialect operands
  | "cat" => categorize s operands
  | "applyCat" => applyCategories operands
  | _ => do return ⟨← plain s op operands, op.output, none⟩

end Compose

end Tabular.Sql
