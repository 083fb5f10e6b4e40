-- SUMMARY: What an evaluation asks of the frames it runs on, and what it gives.
import Tabular.Formula.Expr
import Tabular.Operation
import Tabular.Options
import Tabular.Series

/-!
# Backends

A backend is a kind of frame: columns in memory, or columns of a composed SQL statement. It is given as a
record of the operations that the evaluator needs, in a monad `m` for the round trips of the backend.
Frames and columns are values; an operation that changes a frame gives the changed frame.
-/

namespace Tabular

/-- What an aggregate stands for. -/
inductive Scope where
  /-- Its value on every row. -/
  | rows
  /-- One value per group. -/
  | groups
  deriving DecidableEq, Repr

/-- Two series for a renderer. -/
structure Plot where
  xLabel : String
  yLabel : String
  x : Series
  y : Series

/-- What a formula gives. -/
inductive Outcome (F C : Type) where
  | frame (frame : F)
  | column (column : C)
  | plot (plot : Plot)

/-- What a formula gives, and the columns that it depends on. -/
structure Evaluated (F C : Type) where
  outcome : Outcome F C
  dependencies : List String

/-- A named formula of `by`. `run` evaluates it on the rows of one group, given the group and the whole
    frame. -/
structure Reducer (m : Type → Type) (F C : Type) where
  name : String
  formula : Expr
  run : F → F → m C

/-- The operations of frames `F` with columns `C`. -/
structure Backend (m : Type → Type) (F C : Type) where
  options : F → Options
  column? : F → String → Option C
  /-- A column of one cell. -/
  literal : F → Value → m C
  /-- Run a resolved operation over columns of the frame. -/
  execute : F → Resolved → List C → Scope → m C
  /-- Sort the rows by keys, ascending or descending. -/
  sort : F → Bool → List String → m F
  /-- One row per distinct tuple of keys. -/
  group : F → List String → List (Reducer m F C) → m F
  /-- Make an aggregate of the whole frame usable in any scope. -/
  globalize : F → C → m C
  /-- Add a column at the end. -/
  append : F → C → m F
  name : C → String
  rename : C → String → C
  dataType : C → DataType
  /-- All cells of a column. -/
  values : C → m Series

end Tabular
