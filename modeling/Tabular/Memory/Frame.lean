-- SUMMARY: Frames of columns held in memory, and formulas over them.
import Tabular.ColumnSet
import Tabular.Evaluation
import Tabular.Evaluation.StaticType
import Tabular.Memory.Execute
import Tabular.Memory.Grouping

/-!
# Frames in memory

A frame is a set of columns of one length and the options that go with them. All operations give a new
frame. A column of one cell is repeated to the length of the frame that it is added to, and a stored
column is no constant.
-/

namespace Tabular.Memory

structure Frame where
  set : ColumnSet Column
  options : Options

namespace Frame

def empty (options : Options) : Frame := ⟨.empty, options⟩

def columns (f : Frame) : List Column := f.set.columns

def column? (f : Frame) (name : String) : Option Column := f.set.column? name

/-- The number of rows; a frame without columns has none. -/
def rows (f : Frame) : Nat :=
  match f.columns with
  | [] => 0
  | c :: _ => c.length

/-- The column of a name, which must exist. -/
def column (f : Frame) (name : String) : Except Failure Column :=
  match f.column? name with
  | some c => .ok c
  | none => .error (.unknownColumn name)

/-! ## Columns -/

/-- The cells of a column at the length of the frame. -/
def fit (f : Frame) (c : Column) : Except Failure Series :=
  if f.columns.isEmpty ∨ c.length = f.rows then .ok c.data
  else if c.length = 1 then c.data.broadcastTo f.rows
  else .error (.lengthMismatch c.name f.rows c.length)

/-- Add a column at the end. -/
def append (f : Frame) (c : Column) : Except Failure Frame := do
  if f.set.contains c.name then throw (.duplicateColumn c.name)
  let data ← f.fit c
  return { f with set := f.set.push c.name { c with data, constant := none } }

/-- The frame of columns, added in order. -/
def ofColumns (options : Options) (columns : List Column) : Except Failure Frame :=
  columns.foldlM append (empty options)

/-- Take a column out. -/
def drop (f : Frame) (name : String) : Except Failure (Column × Frame) :=
  match f.set.remove? name with
  | some (c, set) => .ok (c, { f with set })
  | none => .error (.unknownColumn name)

/-! ## Rows -/

/-- The named rows of every column, in the named order. -/
def take (f : Frame) (rows : List Nat) : Except Failure Frame := do
  return { f with set := ← f.set.mapM (·.take rows) }

/-- Move row `order[i]` of every column to position `i`, for each `i`. -/
def permute (f : Frame) (order : List Nat) : Frame :=
  { f with set := f.set.map fun c => { c with data := Memory.permute order c.data } }

/-- Sort the rows by key columns. Rows with equal keys stay in their order. -/
def sort (f : Frame) (ascending : Bool) (keys : List String) : Except Failure Frame := do
  let keyColumns ← keys.mapM f.column
  return f.permute (sortedOrder ascending (keyColumns.map (·.data)) f.rows)

/-! ## Groups -/

/-- The type of a column by its name. -/
def schema (f : Frame) (name : String) : Option DataType := (f.column? name).map (·.dataType)

/-- Evaluate a formula on one group; it must give one cell. -/
def reduceGroup (f : Frame) (r : Reducer (Except Failure) Frame Column) (rows : List Nat) :
    Except Failure (Column × Value) := do
  let column ← r.run (← f.take rows) f
  if column.length ≠ 1 then throw (.notReducing r.name r.formula.text)
  return (column, ← column.cell 0)

/-- Evaluate a formula on every group. The first group gives the type and the categories; without groups
    the type is found without running the formula. -/
def reduce (f : Frame) (groups : List (List Nat)) (r : Reducer (Except Failure) Frame Column) :
    Except Failure Column := do
  let results ← groups.mapM (f.reduceGroup r)
  match results with
  | [] =>
    let dataType ← r.formula.staticType f.options.datePatterns f.schema
    return { name := r.name, dataType, data := ← Series.empty dataType, categories := none, constant := none }
  | (first, _) :: _ =>
    let data ← Series.ofValues first.dataType (results.map (·.2))
    return { first with name := r.name, data, constant := none }

/-- One row per distinct tuple of keys: the key columns, then a column for each formula. -/
def group (f : Frame) (keys : List String) (reducers : List (Reducer (Except Failure) Frame Column)) :
    Except Failure Frame := do
  let keyColumns ← keys.mapM f.column
  let groups := groups (keyColumns.map (·.data)) f.rows
  let firsts := groups.filterMap List.head?
  let grouped ← keyColumns.foldlM (fun (out : Frame) c => do out.append (← c.take firsts)) (empty f.options)
  reducers.foldlM (fun (out : Frame) r => do out.append (← f.reduce groups r)) grouped

/-! ## Formulas -/

/-- An aggregate is a column of one cell. -/
def globalize (c : Column) : Except Failure Column :=
  if c.length = 1 then .ok c else .error (.notAggregate c.name)

/-- Frames in memory as a backend of the evaluator. -/
def backend : Backend (Except Failure) Frame Column where
  options f := f.options
  column? := column?
  literal _ v := Column.literal v
  execute f op args _ := execute f.options f.rows op args
  sort := sort
  group := group
  globalize _ c := globalize c
  append := append
  name c := c.name
  rename := Column.rename
  dataType c := c.dataType
  values c := .ok c.data

/-- Evaluate a formula. A target only renames the column. -/
def evaluate (f : Frame) (formula : String) : Except Failure (Evaluated Frame Column) :=
  backend.evaluate f formula

/-- Evaluate a formula, and add the value of one with a target to the frame. -/
def assign (f : Frame) (formula : String) : Except Failure (Frame × Option (Evaluated Frame Column)) :=
  backend.assign f formula

end Frame

end Tabular.Memory
