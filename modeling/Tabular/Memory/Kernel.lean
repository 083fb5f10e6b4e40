-- SUMMARY: Kernels: what row-wise operations compute from the cells of one row.
import Tabular.Failure
import Tabular.Value

/-!
# Kernels

A kernel takes the operands of one row to a cell. It is chosen by the name of the operation and the type
of its result, so that `add` of two integers is exact and `add` of mixed numbers is done in floats.
Integer results that do not fit 64 bits are refused. Truth is one and falsehood zero; any integer but zero
counts as true.
-/

namespace Tabular.Memory

abbrev Kernel := List Value → Except CellFault Value

namespace Kernel

/-! ## Operands -/

def operand (cells : List Value) (index : Nat) : Except CellFault Value :=
  match cells[index]? with
  | some v => .ok v
  | none => .error (.missingOperand index)

def integer (cells : List Value) (index : Nat) : Except CellFault Int64 := do
  let v ← operand cells index
  match v.integer? with
  | some n => return n
  | none => throw (.notInteger v.text)

def number (cells : List Value) (index : Nat) : Except CellFault Float := do
  let v ← operand cells index
  match v.number? with
  | some x => return x
  | none => throw (.notNumber v.text)

def text (v : Value) : Except CellFault String :=
  match v.string? with
  | some s => .ok s
  | none => .error (.notString v.text)

/-! ## Shapes -/

/-- An exact integer as a cell. -/
def exactly (n : Int) : Except CellFault Value :=
  match Decimal.toInt64? n with
  | some v => .ok (.integer v)
  | none => .error .overflow

def ofBool (b : Bool) : Value := .integer (if b then 1 else 0)

/-- A function of one exact integer. -/
def integer1 (f : Int → Int) : Kernel := fun cells => do
  exactly (f (← integer cells 0).toInt)

/-- A function of two exact integers. -/
def integer2 (f : Int → Int → Int) : Kernel := fun cells => do
  let a ← integer cells 0
  let b ← integer cells 1
  exactly (f a.toInt b.toInt)

def float1 (f : Float → Float) : Kernel := fun cells => do
  return .float (f (← number cells 0))

def float2 (f : Float → Float → Float) : Kernel := fun cells => do
  let a ← number cells 0
  let b ← number cells 1
  return .float (f a b)

/-- A test of the order of two cells. Cells that do not compare, such as NaN, pass only the test for
    being different. -/
def comparison (test : Ordering → Bool) : Kernel := fun cells => do
  let a ← operand cells 0
  let b ← operand cells 1
  return ofBool <|
    match a.compareNumeric? b with
    | some order => test order
    | none => test .lt && test .gt

/-! ## Single kernels -/

def divide : Kernel := fun cells => do
  let divisor ← number cells 1
  if divisor == 0.0 then throw .divisionByZero
  return .float ((← number cells 0) / divisor)

def logarithm : Kernel := fun cells => do
  let x ← number cells 0
  if x ≤ 0.0 then throw (.logarithm x)
  return .float x.log

def squareRoot : Kernel := fun cells => do
  let x ← number cells 0
  if x < 0.0 then throw (.squareRoot x)
  return .float x.sqrt

def concat : Kernel := fun cells => do
  return .string (String.join (← cells.mapM text))

/-- The second operand is looked at only if the first is true. -/
def conjunction : Kernel := fun cells => do
  if (← integer cells 0) == 0 then return ofBool false
  return ofBool ((← integer cells 1) != 0)

/-- The second operand is looked at only if the first is false. -/
def disjunction : Kernel := fun cells => do
  if (← integer cells 0) != 0 then return ofBool true
  return ofBool ((← integer cells 1) != 0)

def negation : Kernel := fun cells => do
  return ofBool ((← integer cells 0) == 0)

def choice : Kernel := fun cells => do
  operand cells (if (← integer cells 0) != 0 then 1 else 2)

/-! ## Choice of a kernel -/

/-- The kernel of an operation for results of a type. -/
def named? (name : String) (output : DataType) : Option Kernel :=
  match name, output with
  | "add", .integer => some (integer2 (· + ·))
  | "add", .float => some (float2 (· + ·))
  | "add", .string => some concat
  | "concat", .string => some concat
  | "subtract", .integer => some (integer2 (· - ·))
  | "subtract", .float => some (float2 (· - ·))
  | "multiply", .integer => some (integer2 (· * ·))
  | "multiply", .float => some (float2 (· * ·))
  | "divide", .float => some divide
  | "pow", .float => some (float2 Float.pow)
  | "negate", .integer => some (integer1 (- ·))
  | "negate", .float => some (float1 (- ·))
  | "abs", .integer => some (integer1 fun n => n.natAbs)
  | "abs", .float => some (float1 Float.abs)
  | "exp", .float => some (float1 Float.exp)
  | "log", .float => some logarithm
  | "sqrt", .float => some squareRoot
  | "eq", .integer => some (comparison Ordering.isEq)
  | "ne", .integer => some (comparison Ordering.isNe)
  | "ge", .integer => some (comparison Ordering.isGE)
  | "gt", .integer => some (comparison Ordering.isGT)
  | "le", .integer => some (comparison Ordering.isLE)
  | "lt", .integer => some (comparison Ordering.isLT)
  | "and", .integer => some conjunction
  | "or", .integer => some disjunction
  | "not", .integer => some negation
  | "if", _ => some choice
  | _, _ => none

end Kernel

end Tabular.Memory
