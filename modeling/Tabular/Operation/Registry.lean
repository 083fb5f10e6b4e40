-- SUMMARY: The built-in operations, and resolving an operation by name.
import Tabular.Operation
import Tabular.Formula.Parse

/-!
# Built-in operations

The built-in operations by family. Four more names, the special forms, are carried out by the evaluator
itself because their arguments are formulas and not values.
-/

namespace Tabular

/-! ## Special forms -/

/-- Calls that the evaluator carries out itself. -/
inductive SpecialForm where
  | by
  | global
  | sort
  | plot
  deriving DecidableEq, Repr

/-- The special form of a name. -/
def SpecialForm.named? : String → Option SpecialForm
  | "by" => some .by
  | "global" => some .global
  | "sort" => some .sort
  | "plot" => some .plot
  | _ => none

namespace Operation

open DataType

/-- A signature from operand types and a result type. -/
def sig (inputs : List DataType) (output : DataType) : Signature := ⟨inputs, output⟩

/-- A row-wise operation with a fixed number of operands. -/
def rowWise (name : String) (signatures : List Signature) : Operation :=
  { name, signatures, variadic := none, scalar := false }

/-- An operation that takes whole columns and gives one value. -/
def aggregate (name : String) (signatures : List Signature) : Operation :=
  { name, signatures, variadic := none, scalar := true }

/-! ## Arithmetic -/

/-- Two numbers; the result is an integer only of two integers. -/
def numeric : List Signature :=
  [sig [integer, integer] integer, sig [float, float] float, sig [integer, float] float,
   sig [float, integer] float]

/-- Two numbers; the result is always a float. -/
def quotient : List Signature :=
  [sig [float, float] float, sig [integer, integer] float, sig [integer, float] float,
   sig [float, integer] float]

/-- One number, and a result of its type. -/
def sameNumber : List Signature := [sig [integer] integer, sig [float] float]

/-- One number, and a float. -/
def floatOfNumber : List Signature := [sig [float] float, sig [integer] float]

def arithmetic : List Operation :=
  [rowWise "add" (numeric ++ [sig [string, string] string]),
   rowWise "subtract" numeric,
   rowWise "multiply" numeric,
   rowWise "divide" quotient,
   rowWise "pow" quotient,
   rowWise "negate" sameNumber,
   rowWise "abs" sameNumber,
   rowWise "exp" floatOfNumber,
   rowWise "log" floatOfNumber,
   rowWise "sqrt" floatOfNumber]

/-! ## Comparisons and logic -/

/-- Two comparable values; the result is one or zero. -/
def comparable : List Signature :=
  [sig [integer, integer] integer, sig [float, float] integer, sig [integer, float] integer,
   sig [float, integer] integer, sig [string, string] integer, sig [date, date] integer]

/-- A condition and two branches of one type; mixed numbers are widened to floats. -/
def branches : List Signature :=
  [sig [integer, integer, integer] integer, sig [integer, float, float] float,
   sig [integer, integer, float] float, sig [integer, float, integer] float,
   sig [integer, string, string] string, sig [integer, date, date] date]

def logical : List Operation :=
  (["eq", "ne", "ge", "gt", "le", "lt"].map fun name => rowWise name comparable) ++
  [rowWise "and" [sig [integer, integer] integer],
   rowWise "or" [sig [integer, integer] integer],
   rowWise "not" [sig [integer] integer],
   rowWise "if" branches]

/-! ## Text and categories -/

/-- The result type of `cast` is named by its second operand, a constant. -/
def textual : List Operation :=
  [rowWise "cast" [sig [any, string] any],
   { name := "concat", signatures := [sig [string, string] string], variadic := some string,
     scalar := false },
   { name := "cat",
     signatures := [sig [string] categorical, sig [integer] categorical, sig [date] categorical],
     variadic := some integer, scalar := false },
   rowWise "applyCat"
     [sig [string, categorical, string] categorical, sig [integer, categorical, integer] categorical,
      sig [date, categorical, date] categorical]]

/-! ## Aggregates -/

/-- One column of an ordered type, and a value of that type. -/
def extremes : List Signature :=
  [sig [integer] integer, sig [float] float, sig [string] string, sig [date] date]

def aggregates : List Operation :=
  [aggregate "sum" [sig [integer] integer, sig [float] float],
   aggregate "mean" [sig [integer] float, sig [float] float],
   aggregate "count" [sig [any] integer],
   aggregate "min" extremes,
   aggregate "max" extremes,
   aggregate "quantile" [sig [float, float] float, sig [integer, float] float],
   rowWise "row_number" [sig [] integer]]

/-- All built-in operations. -/
def builtIn : List Operation := arithmetic ++ logical ++ textual ++ aggregates

/-- All built-in operations in the order of their names. -/
def sorted : List Operation := builtIn.mergeSort fun a b => a.name ≤ b.name

/-- The built-in operation of a name. -/
def named? (name : String) : Option Operation := builtIn.find? (·.name == name)

/-- Whether a formula may call the name. -/
def isFunction (name : String) : Bool := (SpecialForm.named? name).isSome || (named? name).isSome

end Operation

/-- Resolve a name against operand types. -/
def Resolved.of (name : String) (types : List DataType) : Except Failure Resolved :=
  match Operation.named? name with
  | some operation => operation.resolve types
  | none => .error (.unknownOperation name)

/-- Read a formula over the built-in operations. -/
def Formula.ofText (input : String) : Except Failure Formula :=
  match Formula.parse Operation.isFunction input with
  | .ok formula => .ok formula
  | .error fault => .error (.formula fault)

end Tabular
