-- SUMMARY: Sources of composed statements and the columns over them.
import Tabular.CategoryMap
import Tabular.Options
import Tabular.Sql.Database

/-!
# Sources and columns

A source is a query that statements select from under a name. Sorting and grouping make a new source out
of the statement composed so far, one level deeper. A column is a term over one source. Beside the term it
keeps the spelling that it has inside of an aggregate: databases refuse an aggregate directly inside
another one, so the inner one becomes a subquery.
-/

namespace Tabular.Sql

structure Source where
  /-- The number of the source in its session. -/
  mark : Nat
  dialect : Dialect
  query : Query
  /-- How many sources this one is made of. -/
  depth : Nat
  /-- The order of the rows, by columns of the query. -/
  order : Option SortOrder
  options : Options

namespace Source

/-- The name that statements select from. -/
def name (s : Source) : String := s.options.temporaryAlias ++ toString s.depth

/-- Fields over the source. Rows stay in the order of the source unless they are grouped. -/
def select (s : Source) (fields : List Field) (groupBy : List Term) : Query :=
  .select s.name s.query fields groupBy (if groupBy.isEmpty then s.order else none)

/-- A source over a query made from this one. -/
def derive {δ : Type} (s : Source) (query : Query) (order : Option SortOrder) : Work δ Source := do
  return { s with mark := ← Work.freshMark, query, depth := s.depth + 1, order }

end Source

/-- The spelling of a column inside of an aggregate. -/
inductive Nesting where
  /-- There is no aggregate in the column, and it stays as it is. -/
  | plain
  | rewritten (term : Term)
  /-- There is none, because the groups have a key that is computed. -/
  | computedKey (key : String)

structure Column where
  name : String
  dataType : DataType
  term : Term
  categories : Option CategoryMap
  /-- The value of a literal. -/
  constant : Option Value
  /-- Whether the term has one value per group in a grouped query. -/
  grouped : Bool
  nesting : Nesting
  source : Source

namespace Column

variable {δ : Type}

def rename (c : Column) (name : String) : Column := { c with name }

def field (c : Column) : Field := ⟨c.term, c.name⟩

/-- The statement that selects this column alone. -/
def query (c : Column) : Query := c.source.select [c.field] []

/-- The text of the term. -/
def fragment (c : Column) : Fragment := c.term.text c.source.dialect

section Requests

variable [Database δ]

def length (c : Column) : Work δ Nat :=
  match c.constant with
  | some _ => pure 1
  | none => Work.ask (Database.rowCount c.query)

/-- All cells of the column. -/
def values (c : Column) : Work δ Series :=
  match c.constant with
  | some v => liftM (m := Except Failure) (liftM (Series.scalar v))
  | none => do
    let columns ← Work.ask (Database.fetch c.query [c.dataType.storage])
    match columns.getLast? with
    | some cells => return cells
    | none => throw (.database (.noValues c.name))

/-- The cell of a row; all cells are fetched for it. -/
def cell (c : Column) (row : Nat) : Work δ Value := do
  let cells ← c.values
  match cells.cell? row with
  | some v => return v
  | none => throw (.series (.outOfBounds row cells.length))

end Requests

end Column

end Tabular.Sql
