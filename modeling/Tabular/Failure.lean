-- SUMMARY: Why a formula or a frame operation is refused: the causes, their kinds and their texts.
import Tabular.Formula.Fault
import Tabular.Series.Fault
import Tabular.Decimal.Layout

/-!
# Failures

Every way in which reading, resolving or running a formula can be refused is one constructor. A failure
has a coarse kind, by which callers tell them apart, and a text. All wordings are in this module.
-/

namespace Tabular

/-! ## Causes inside an operation -/

/-- Why an operation fails on the cells of one row. -/
inductive CellFault where
  | overflow
  | divisionByZero
  | logarithm (x : Float)
  | squareRoot (x : Float)
  | missingOperand (index : Nat)
  | notInteger (value : String)
  | notNumber (value : String)
  | notString (value : String)

namespace CellFault

def message : CellFault → String
  | overflow => "integer overflow"
  | divisionByZero => "division by zero"
  | logarithm x => s!"log of non-positive value {Decimal.Layout.plain.text x}"
  | squareRoot x => s!"square root of negative value {Decimal.Layout.plain.text x}"
  | missingOperand index => s!"missing operand {index}"
  | notInteger value => s!"expected an integer, got {value}"
  | notNumber value => s!"expected a number, got {value}"
  | notString value => s!"expected a string, got {value}"

end CellFault

/-- Why an operation fails as a whole. -/
inductive ExecutionFault where
  /-- An operand is neither a scalar nor as long as the others. -/
  | broadcast (length expected : Nat)
  | atRow (row : Nat) (fault : CellFault)
  | overflow
  | emptyColumn (aggregate : String)
  | emptyOperand
  | noImplementation
  | noImplementationFor (type : DataType)
  | missingOperand
  | missingOperandAt (index : Nat)
  | castOperands
  | castTarget
  | castTo (type : DataType)
  | threshold
  | manyThresholds
  | quantileLevel
  | threeOperands
  | defaultLevel

namespace ExecutionFault

def message : ExecutionFault → String
  | broadcast length expected => s!"operand of length {length} cannot broadcast to {expected} rows"
  | atRow row fault => s!"row {row}: {fault.message}"
  | overflow => "integer overflow"
  | emptyColumn aggregate => s!"{aggregate} of an empty column"
  | emptyOperand => "empty operand"
  | noImplementation => "no in-memory implementation"
  | noImplementationFor type => s!"no in-memory implementation for {type.name}"
  | missingOperand => "missing operand"
  | missingOperandAt index => s!"missing operand {index}"
  | castOperands => "expected a value and a target type"
  | castTarget => "target type must be a constant string"
  | castTo type => s!"cannot cast to {type.name}"
  | threshold => "fuzz threshold must be a non-negative integer constant"
  | manyThresholds => "takes at most one fuzz threshold"
  | quantileLevel => "level must be a constant in [0, 1]"
  | threeOperands => "expected three operands"
  | defaultLevel => "default level must be a constant"

end ExecutionFault

/-! ## Causes inside a database -/

/-- What a cell of a table holds, as the database names it. -/
inductive CellKind where
  | integer
  | real
  | text
  deriving DecidableEq, Repr

def CellKind.name : CellKind → String
  | integer => "Integer"
  | real => "Real"
  | text => "Text"

/-- Why a cell cannot be read. -/
inductive ReadFault where
  | null
  | notDate (text : String)
  | wrongKind (kind : CellKind) (expected : DataType)

def ReadFault.message : ReadFault → String
  | null => "unexpected NULL"
  | notDate text => s!"{Text.escaped text} is not a date"
  | wrongKind kind expected => s!"cannot read {kind.name} as {expected.name}"

inductive DatabaseFault where
  /-- A refusal in the database's own words. -/
  | refused (message : String)
  | cell (row column : Nat) (fault : ReadFault)
  | columnCount (actual expected : Nat)
  | tableExists (table : String)
  | noValues (column : String)

namespace DatabaseFault

def message : DatabaseFault → String
  | refused message => message
  | cell row column fault => s!"row {row}, column {column}: {fault.message}"
  | columnCount actual expected => s!"query returns {actual} columns, expected {expected}"
  | tableExists table => s!"table {table} already exists"
  | noValues column => s!"no values returned for {column}"

end DatabaseFault

/-! ## Failures -/

/-- What a formula gives that is no column. -/
inductive NotColumn where
  | dataframe
  | plot
  deriving DecidableEq, Repr

inductive Failure where
  | formula (fault : FormulaFault)
  /-- An assignment that is no argument of `by`. -/
  | strayAssignment (name : String)
  | keyExpected (operation got : String)
  | keysMissing
  /-- A sort order other than ascending or descending; `got` is the text to show. -/
  | sortOrder (got : String)
  | unknownOperation (name : String)
  | noSignature (operation : String) (types : List DataType)
  | arity (operation expected : String) (actual : Nat)
  | execution (operation : String) (fault : ExecutionFault)
  | series (fault : SeriesFault)
  | duplicateColumn (name : String)
  | unknownColumn (name : String)
  | lengthMismatch (column : String) (expected actual : Nat)
  | notColumn (formula : String) (got : NotColumn)
  | noColumnType (formula : String)
  | notReducing (name formula : String)
  | notAggregate (column : String)
  | notCategorical (column : String)
  | foreignColumn (column : String)
  | notAssignable (name : String)
  | unsupported (dialect what : String)
  | database (fault : DatabaseFault)
  /-- A statement that the database engine refuses; it has no wording of its own. -/
  | engine
  | options

inductive FailureKind where
  | parse
  | dispatch
  | execution
  | duplicateName
  | schema
  | database
  | config
  deriving DecidableEq, Repr

namespace Failure

def kind : Failure → FailureKind
  | formula (.unknownFunction _) => .dispatch
  | formula _ | strayAssignment _ | keyExpected .. | keysMissing | sortOrder _ => .parse
  | unknownOperation _ | noSignature .. | arity .. => .dispatch
  | execution .. | series _ | notColumn .. | noColumnType _ | notReducing .. | notAggregate _
  | notCategorical _ | foreignColumn _ | notAssignable _ => .execution
  | duplicateColumn _ => .duplicateName
  | unknownColumn _ | lengthMismatch .. => .schema
  | unsupported .. | database _ | engine => .database
  | options => .config

/-- The text of a failure; the engine's refusals and malformed options have none. -/
def message? : Failure → Option String
  | formula (.unknownFunction name) => some s!"unknown operation: {name}"
  | formula fault => some s!"parse error: {fault.message}"
  | strayAssignment name => some s!"parse error: assignment to {name} is only allowed inside by()"
  | keyExpected operation got => some s!"parse error: {operation}() expects a column name, got {got}"
  | keysMissing => some "parse error: by() needs at least one key column"
  | sortOrder got => some s!"parse error: sort order must be 'asc' or 'desc', got {got}"
  | unknownOperation name => some s!"unknown operation: {name}"
  | noSignature operation types =>
    let listed := ", ".intercalate (types.map DataType.name)
    some s!"no signature of {operation} accepts ({listed})"
  | arity operation expected actual => some s!"{operation} expects {expected} arguments, got {actual}"
  | execution operation fault => some s!"{operation} failed: {fault.message}"
  | series fault => some fault.message
  | duplicateColumn name => some s!"duplicate column: {name}"
  | unknownColumn name => some s!"unknown column: {name}"
  | lengthMismatch column expected actual => some s!"column {column} has {actual} rows, expected {expected}"
  | notColumn text .dataframe => some s!"type error: {text} produces a dataframe, not a column"
  | notColumn text .plot => some s!"type error: {text} produces a plot, not a column"
  | noColumnType text => some s!"type error: {text} does not produce a column"
  | notReducing name text => some s!"type error: {name} := {text} does not reduce to one value per group"
  | notAggregate column => some s!"type error: global() expects an aggregate, got {column}"
  | notCategorical column => some s!"type error: {column} is not a categorical column"
  | foreignColumn column => some s!"type error: column {column} belongs to a different query"
  | notAssignable name => some s!"type error: only a column can be assigned to {name}"
  | unsupported dialect what => some s!"{dialect} dialect does not support {what}"
  | database fault => some s!"database error: {fault.message}"
  | engine => none
  | options => none

end Failure

/-- A fault of the series layer is a failure of the frame that met it. -/
instance : MonadLift (Except SeriesFault) (Except Failure) := ⟨Except.mapError .series⟩

end Tabular
