-- SUMMARY: SQL dialects: the types, casts, functions and comparisons that they have, and the names they give them.
import Tabular.Failure
import Tabular.Text.Quoted
import Tabular.Value

/-!
# Dialects

A dialect says how a database spells types, casts and null-safe equality, and which operations it has at
all. Everything else is spelled in the same way by all of them. `ansi` is the plain dialect that leaves
every spelling as it is in the standard; `sqlite` keeps dates as text and has no quantiles.
-/

namespace Tabular.Sql

inductive Dialect where
  | sqlite
  | ansi
  deriving DecidableEq, Repr

/-- The types that columns of tables are declared with. -/
inductive ColumnType where
  | integer
  | float
  | string
  | date
  deriving DecidableEq, Repr

/-- How a value of one type is made from a value of another. -/
inductive Conversion where
  /-- The value itself. -/
  | same
  /-- A cast by the database. -/
  | cast (target : ColumnType)
  /-- A date from text. -/
  | parseDate
  /-- The number YYYYMMDD of a date, cast to a type. -/
  | dateCode (target : ColumnType)
  /-- A date from its number YYYYMMDD. -/
  | fromDateCode
  deriving DecidableEq, Repr

inductive Comparison where
  | eq
  | ne
  | ge
  | gt
  | le
  | lt
  deriving DecidableEq, Repr

/-- The functions and operators of composed statements. -/
inductive Function where
  | add
  | subtract
  | multiply
  | divide
  | concat
  | and
  | or
  | not
  | negate
  | log
  | abs
  | exp
  | sqrt
  | pow
  | sum
  | mean
  | count
  | min
  | max
  deriving DecidableEq, Repr

/-! ## Names of operations -/

namespace Comparison

/-- The comparison that carries an operation out. -/
def named? : String → Option Comparison
  | "eq" => some eq
  | "ne" => some ne
  | "ge" => some ge
  | "gt" => some gt
  | "le" => some le
  | "lt" => some lt
  | _ => none

def symbol : Comparison → String
  | eq => "="
  | ne => "<>"
  | ge => ">="
  | gt => ">"
  | le => "<="
  | lt => "<"

end Comparison

namespace Function

/-- The function that carries an operation out on so many operands. Operators are bound to their number
    of operands; named functions leave it to the database. -/
def named? (name : String) (arity : Nat) : Option Function :=
  match name, arity with
  | "add", 2 => some add
  | "subtract", 2 => some subtract
  | "multiply", 2 => some multiply
  | "divide", 2 => some divide
  | "concat", _ + 2 => some concat
  | "and", 2 => some and
  | "or", 2 => some or
  | "not", 1 => some not
  | "negate", 1 => some negate
  | "mean", 1 => some mean
  | "log", 1 => some log
  | "abs", _ => some abs
  | "exp", _ => some exp
  | "sqrt", _ => some sqrt
  | "pow", _ => some pow
  | "sum", _ => some sum
  | "count", _ => some count
  | "min", _ => some min
  | "max", _ => some max
  | _, _ => none

/-- Whether the function takes all rows to one value. -/
def isAggregate : Function → Bool
  | sum | mean | count | min | max => true
  | _ => false

end Function

/-! ## Dialects -/

namespace Dialect

def name : Dialect → String
  | sqlite => "sqlite"
  | ansi => "ansi"

/-- The dialect of a name. -/
def named? : String → Option Dialect
  | "sqlite" => some sqlite
  | "ansi" => some ansi
  | _ => none

def unsupported (d : Dialect) (what : String) : Failure := .unsupported d.name what

/-- The name of a column type. -/
def typeName : Dialect → ColumnType → String
  | sqlite, .integer => "INTEGER"
  | sqlite, .float => "REAL"
  | sqlite, .string => "TEXT"
  | ansi, .integer => "BIGINT"
  | ansi, .float => "DOUBLE PRECISION"
  | ansi, .string => "VARCHAR"
  | _, .date => "DATE"

/-- The type that columns of a type are declared with. Categories are stored as their codes. -/
def columnType (d : Dialect) (type : DataType) : Except Failure ColumnType :=
  match type.storage with
  | .integer => .ok .integer
  | .float => .ok .float
  | .string => .ok .string
  | .date => .ok .date
  | _ =>
    let columns := s!"{type.name} columns"
    .error (d.unsupported columns)

/-- How values of type `source` are cast to type `target`. -/
def conversion (d : Dialect) (source target : DataType) : Except Failure Conversion :=
  if source.storage = target.storage then .ok .same
  else
    match d with
    | ansi => .cast <$> d.columnType target
    | sqlite =>
      match source.storage, target.storage with
      | .integer, .float | .string, .float => .ok (.cast .float)
      | .float, .integer | .string, .integer => .ok (.cast .integer)
      | .integer, .string | .float, .string => .ok (.cast .string)
      | .date, .string => .ok .same
      | .string, .date => .ok .parseDate
      | .date, .integer => .ok (.dateCode .integer)
      | .date, .float => .ok (.dateCode .float)
      | .integer, .date | .float, .date => .ok .fromDateCode
      | s, t =>
        let casts := s!"casts from {s.name} to {t.name}"
        .error (d.unsupported casts)

/-- The comparison of an operation. -/
def comparison (d : Dialect) (name : String) : Except Failure Comparison :=
  match Comparison.named? name with
  | some c => .ok c
  | none =>
    let comparison := s!"comparison {name}"
    .error (d.unsupported comparison)

/-- The function of an operation on so many operands. -/
def function (d : Dialect) (name : String) (arity : Nat) : Except Failure Function :=
  match Function.named? name arity with
  | some f => .ok f
  | none => .error (d.unsupported name)

/-- Quantiles are refused by a dialect that has none. -/
def checkQuantile : Dialect → Except Failure Unit
  | ansi => .ok ()
  | sqlite => .error (sqlite.unsupported "quantile")

/-- Only finite floats have literals. -/
def checkLiteral (d : Dialect) : Value → Except Failure Unit
  | .float x => if x.isFinite then .ok () else .error (d.unsupported "non-finite float literals")
  | _ => .ok ()

end Dialect

end Tabular.Sql
