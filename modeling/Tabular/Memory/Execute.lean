-- SUMMARY: Running resolved operations over columns in memory.
import Tabular.Memory.Aggregate
import Tabular.Memory.Column
import Tabular.Memory.Kernel
import Tabular.Operation
import Tabular.Options

/-!
# Running operations in memory

A row-wise operation runs its kernel on every row, where an operand of one cell stands for that cell on
each row. Casts, row numbers and categories have a rule of their own, and aggregates give a column of one
cell. The column is named after the operation.
-/

namespace Tabular.Memory

open Column

/-! ## Rows -/

/-- The operands of one row, given the cells of each. -/
def operandsAt (name : String) (args : List (Array Value)) (row : Nat) : Except Failure (List Value) :=
  args.mapM fun cells =>
    if h : 0 < cells.size then
      have := Nat.mod_lt row h
      .ok cells[row % cells.size]
    else .error (.execution name .emptyOperand)

/-- Run a kernel on one row. -/
def cellAt (name : String) (kernel : Kernel) (args : List (Array Value)) (row : Nat) :
    Except Failure Value := do
  let cells ← operandsAt name args row
  (kernel cells).mapError fun fault => .execution name (.atRow row fault)

/-- Run the kernel of an operation on every row. -/
def rowWise (op : Resolved) (args : List Column) : Except Failure Column := do
  match Kernel.named? op.name op.output with
  | none => throw (.execution op.name .noImplementation)
  | some kernel =>
    let rows ← broadcastLength op.name (args.map (·.length))
    let cells := args.map (·.data.values.toArray)
    return ofSeries op.name (← Series.collect op.output (cellAt op.name kernel cells) (List.range rows))

/-! ## Operations with a rule of their own -/

def aggregate (op : Resolved) (args : List Column) : Except Failure Column :=
  match args with
  | [] => .error (.execution op.name .missingOperand)
  | arg :: more => do
    let value ← Aggregate.run op.name arg.data (more.head?.bind (·.constant))
    return ofSeries op.name (← Series.scalar value)

def cast (options : Options) : List Column → Except Failure Column
  | [value, target] => do
    let type ← Parameter.castTarget target.constant
    return ofSeries "cast" (← value.data.cast options.datePatterns type)
  | _ => .error (.execution "cast" .castOperands)

/-- The threshold that a call of `cat` gives, or the configured one. -/
def categoryThreshold (options : Options) : List Column → Except Failure (Option Nat)
  | [] => .ok options.categoryThreshold
  | [threshold] => some <$> Parameter.threshold threshold.constant
  | _ => .error (.execution "cat" .manyThresholds)

/-- Give the values of a column categories. -/
def categorize (options : Options) : List Column → Except Failure Column
  | [] => .error (.execution "cat" .missingOperand)
  | raw :: more => do
    let threshold ← categoryThreshold options more
    let (map, codes) ← CategoryMap.build raw.data threshold
    ofCodes "cat" codes map

/-- Encode a column with the categories of another one. -/
def applyCategories : List Column → Except Failure Column
  | [raw, categorical, default] =>
    match categorical.categories, default.constant with
    | none, _ => .error (.notCategorical categorical.name)
    | some _, none => .error (.execution "applyCat" .defaultLevel)
    | some map, some level => do
      let code ← map.defaultCode level
      ofCodes "applyCat" (← map.encode raw.data code) map
  | _ => .error (.execution "applyCat" .threeOperands)

/-- The numbers of the rows, from zero. -/
def rowNumbers (rows : Nat) : Column :=
  ofSeries "row_number" (.integers ((List.range rows).map Int64.ofNat))

/-- Run an operation over columns of a frame with so many rows. -/
def execute (options : Options) (rows : Nat) (op : Resolved) (args : List Column) : Except Failure Column :=
  match op.name with
  | "cast" => cast options args
  | "row_number" => .ok (rowNumbers rows)
  | "cat" => categorize options args
  | "applyCat" => applyCategories args
  | _ => if op.isScalar then aggregate op args else rowWise op args

end Tabular.Memory
