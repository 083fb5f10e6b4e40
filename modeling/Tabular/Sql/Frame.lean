-- SUMMARY: Frames whose columns are parts of one composed statement, and formulas over them.
import Tabular.ColumnSet
import Tabular.Evaluation
import Tabular.Memory.Frame
import Tabular.Sql.Compose

/-!
# SQL frames

A frame is a set of columns over one source. Operations only compose terms; the database is asked when
cells are needed. Sorting and grouping make a frame over a new source, whose columns are the output
columns of the statement composed before.
-/

namespace Tabular.Sql

structure Frame where
  source : Source
  set : ColumnSet Column
  /-- The keys of the groups that formulas are composed for, inside of `by`. -/
  groupKeys : Option (List String)

namespace Frame

variable {δ : Type}

def columns (f : Frame) : List Column := f.set.columns

def column? (f : Frame) (name : String) : Option Column := f.set.column? name

/-- The column of a name, which must exist. -/
def column (f : Frame) (name : String) : Except Failure Column :=
  match f.column? name with
  | some c => .ok c
  | none => .error (.unknownColumn name)

/-- The statement that selects all columns of the frame. -/
def query (f : Frame) : Query := f.source.select (f.columns.map Column.field) []

/-! ## New frames -/

/-- What a source is known to have: a name, a type and categories. -/
structure Output where
  name : String
  dataType : DataType
  categories : Option CategoryMap

/-- A column of a source itself. -/
def Output.column (o : Output) (source : Source) : Column where
  name := o.name
  dataType := o.dataType
  term := .column o.name
  categories := o.categories
  constant := none
  grouped := false
  nesting := .plain
  source := source

/-- The frame of all outputs of a source. -/
def ofOutputs (source : Source) (outputs : List Output) : Frame where
  source := source
  set := .ofList (outputs.map fun o => (o.name, o.column source))
  groupKeys := none

/-- The frame of all columns of a query. -/
def ofQuery [Database δ] (dialect : Dialect) (query : Query) (options : Options) : Work δ Frame := do
  let types ← Work.ask (Database.types query)
  let source : Source :=
    { mark := ← Work.freshMark, dialect, query, depth := 0, order := none, options }
  return ofOutputs source (types.map fun (name, dataType) => ⟨name, dataType, none⟩)

/-- The frame of all columns of a table. -/
def ofTable [Database δ] (dialect : Dialect) (table : String) (options : Options) : Work δ Frame :=
  ofQuery dialect (.table table) options

/-! ## Columns -/

/-- A column can only be used with the source it was composed over. -/
def checkSource (f : Frame) (c : Column) : Except Failure Unit :=
  if c.source.mark = f.source.mark then .ok () else .error (.foreignColumn c.name)

/-- Add a column at the end. -/
def append (f : Frame) (c : Column) : Except Failure Frame := do
  f.checkSource c
  if f.set.contains c.name then throw (.duplicateColumn c.name)
  return { f with set := f.set.push c.name { c with constant := none } }

/-- Take a column out. -/
def drop (f : Frame) (name : String) : Except Failure (Column × Frame) :=
  match f.set.remove? name with
  | some (c, set) => .ok (c, { f with set })
  | none => .error (.unknownColumn name)

/-- The column of a value, named by its text. -/
def literal (f : Frame) (v : Value) : Except Failure Column := do
  if !v.dataType.isConcrete then throw (.series (.notConcrete v.dataType))
  f.source.dialect.checkLiteral v
  return { name := v.text
           dataType := v.dataType
           term := .literal v
           categories := none
           constant := some v
           grouped := true
           nesting := .plain
           source := f.source }

/-! ## Operations -/

/-- The term of a column inside of an aggregate, or the computed key that rules it out. -/
def nestedTerm (c : Column) : Except String Term :=
  match c.nesting with
  | .plain => .ok c.term
  | .rewritten term => .ok term
  | .computedKey key => .error key

def isPlain (c : Column) : Bool :=
  match c.nesting with
  | .plain => true
  | _ => false

/-- Whether a key is a column of the source itself. -/
def isSourceColumn (f : Frame) (key : String) : Bool :=
  match f.column? key with
  | some { term := .column name, .. } => name == key
  | _ => false

/-- An aggregate inside of another one: over every row of the source, or over the rows of the group. -/
def nestAggregate (f : Frame) (aggregate : Term) : Nesting :=
  match f.groupKeys with
  | none => .rewritten (.overSource aggregate f.source.name)
  | some keys =>
    match keys.find? (!f.isSourceColumn ·) with
    | some key => .computedKey key
    | none => .rewritten (.overGroup aggregate f.source.name keys)

/-- The refusal of an aggregate of an aggregate. -/
def nestingFailure (f : Frame) (key : String) : Failure :=
  let nested := s!"nested aggregates grouped by computed column {key}"
  f.source.dialect.unsupported nested

/-- Compose an aggregate. Its operands have their nested spelling. -/
def executeScalar [Database δ] (f : Frame) (op : Resolved) (args : List Column) (scope : Scope) :
    Work δ Column := do
  match args.mapM nestedTerm with
  | .error key => throw (f.nestingFailure key)
  | .ok terms =>
    let composed ← Compose.operation f.source op (args.zip terms)
    let term := match scope with
      | .rows => .broadcast composed.term
      | .groups => composed.term
    return { name := op.name
             dataType := composed.dataType
             term
             categories := composed.categories
             constant := none
             grouped := true
             nesting := f.nestAggregate composed.term
             source := f.source }

/-- Compose a row-wise operation, and its nested spelling if one of the operands has one. -/
def executeRows [Database δ] (f : Frame) (op : Resolved) (args : List Column) : Work δ Column := do
  let composed ← Compose.operation f.source op (args.map fun c => (c, c.term))
  let nesting ←
    if args.all isPlain then pure Nesting.plain
    else
      match args.mapM nestedTerm with
      | .error key => pure (Nesting.computedKey key)
      | .ok terms => do
        let nested ← Compose.operation f.source op (args.zip terms)
        pure (Nesting.rewritten nested.term)
  return { name := op.name
           dataType := composed.dataType
           term := composed.term
           categories := composed.categories
           constant := none
           grouped := op.name != "row_number" && args.all (·.grouped)
           nesting
           source := f.source }

/-- Run an operation over columns of the frame. -/
def execute [Database δ] (f : Frame) (op : Resolved) (args : List Column) (scope : Scope) :
    Work δ Column := do
  args.forM (m := Work δ) fun c => liftM (f.checkSource c)
  if op.isScalar then f.executeScalar op args scope else f.executeRows op args

/-- Make an aggregate of the whole frame usable in any scope. -/
def globalize (f : Frame) (c : Column) : Except Failure Column := do
  f.checkSource c
  if !c.grouped then throw (.notAggregate c.name)
  match c.constant with
  | some _ => return c
  | none => return { c with term := .overSource c.term f.source.name, nesting := .plain }

/-! ## Rows and groups -/

/-- Sort the rows by key columns. -/
def sort (f : Frame) (ascending : Bool) (keys : List String) : Work δ Frame := do
  let _ ← keys.mapM (m := Except Failure) f.column
  let source ← f.source.derive f.query (some ⟨keys, ascending⟩)
  return ofOutputs source (f.columns.map fun c => ⟨c.name, c.dataType, c.categories⟩)

/-- A field of a grouped statement, and what is known of it. -/
abbrev GroupField := Field × Output

/-- A key column of a grouped statement. -/
def keyField (f : Frame) (key : String) : Except Failure GroupField := do
  let c ← f.column key
  return (⟨c.term, key⟩, ⟨key, c.dataType, c.categories⟩)

/-- The column of a formula, which must have one value per group. -/
def reduce (f : Frame) (keys : List String) (fields : List GroupField) (r : Reducer (Work δ) Frame Column) :
    Work δ GroupField := do
  if fields.any (·.2.name == r.name) then throw (.duplicateColumn r.name)
  let c ← r.run { f with groupKeys := some keys } f
  if !c.grouped then throw (.notReducing r.name r.formula.text)
  return (⟨c.term, r.name⟩, ⟨r.name, c.dataType, c.categories⟩)

/-- One row per distinct tuple of keys: the key columns, then a column for each formula. -/
def group (f : Frame) (keys : List String) (reducers : List (Reducer (Work δ) Frame Column)) :
    Work δ Frame := do
  let keyFields ← keys.mapM (m := Except Failure) f.keyField
  let fields ← reducers.foldlM (fun fields r => do return fields ++ [← f.reduce keys fields r]) keyFields
  let query := f.source.select (fields.map (·.1)) (keyFields.map (·.1.term))
  let source ← f.source.derive query none
  return ofOutputs source (fields.map (·.2))

/-! ## Formulas -/

/-- SQL frames as a backend of the evaluator. -/
def backend [Database δ] : Backend (Work δ) Frame Column where
  options f := f.source.options
  column? := column?
  literal f v := f.literal v
  execute := execute
  sort := sort
  group := group
  globalize f c := f.globalize c
  append f c := f.append c
  name c := c.name
  rename := Column.rename
  dataType c := c.dataType
  values c := c.values

/-- Evaluate a formula. A target only renames the column. -/
def evaluate [Database δ] (f : Frame) (formula : String) : Work δ (Evaluated Frame Column) :=
  backend.evaluate f formula

/-- Evaluate a formula, and add the value of one with a target to the frame. -/
def assign [Database δ] (f : Frame) (formula : String) : Work δ (Frame × Option (Evaluated Frame Column)) :=
  backend.assign f formula

/-! ## Rows of the database -/

def rowCount [Database δ] (f : Frame) : Work δ Nat := Work.ask (Database.rowCount f.query)

/-- The column in memory of fetched cells. -/
def fetched (c : Column) (cells : Series) : Except Failure Memory.Column :=
  match c.categories with
  | some map => Memory.Column.ofCodes c.name cells map
  | none => .ok (Memory.Column.ofSeries c.name cells)

/-- Fetch all columns into a frame in memory. -/
def materialize [Database δ] (f : Frame) : Work δ Memory.Frame := do
  if f.columns.isEmpty then return Memory.Frame.empty f.source.options
  let cells ← Work.ask (Database.fetch f.query (f.columns.map (·.dataType.storage)))
  (f.columns.zip cells).foldlM (m := Except Failure)
    (fun (out : Memory.Frame) (c, cells) => do out.append (← fetched c cells))
    (Memory.Frame.empty f.source.options)

/-- Write the rows of the frame into a table, in place of an old one. -/
def save [Database δ] (f : Frame) (table : String) : Work δ Unit := do
  Work.ask (Database.create table (f.columns.map fun c => (c.name, c.dataType)) true)
  Work.ask (Database.insert table f.query (f.columns.map (·.name)))

end Frame

end Tabular.Sql
