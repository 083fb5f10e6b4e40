-- SUMMARY: A database that answers from a script and remembers what it was asked.
import Tabular.Sql.Database

/-!
# Scripted databases

A scripted database runs no statements. Questions about columns are answered from the tables that have
been created, or else from one given schema; row counts and rows are answered from lists, one answer per
question. Every request is remembered with the text of its query, so that a session can be read back as a
conversation.
-/

namespace Tabular.Sql

/-- A request as it was put. -/
inductive Request where
  | types (query : String)
  | rowCount (query : String)
  | fetch (query : String) (types : List DataType)
  | hasTable (table : String)
  | create (table : String) (fields : List (String × DataType)) (overwrite : Bool)
  | dropTable (table : String)
  | insert (table query : String) (names : List String)

/-- An answer to a question for rows. -/
inductive Reply where
  | columns (columns : List Series)
  | refusal (message : String)

structure Script where
  dialect : Dialect
  /-- The columns of every query that is not a table's. -/
  schema : List (String × DataType)
  replies : List Reply
  rowCounts : List Nat
  /-- The tables that have been created, the newest first. -/
  tables : List (String × List (String × DataType))
  /-- What was asked, the latest first. -/
  requests : List Request

namespace Script

def empty (dialect : Dialect) : Script := ⟨dialect, [], [], [], [], []⟩

/-- Work on a script. -/
abbrev Step := ExceptT Failure (StateM Script)

def log (request : Script → Request) : Step Unit :=
  modify fun s => { s with requests := request s :: s.requests }

/-- What was asked, in order; the record is cleared. -/
def takeRequests (s : Script) : List Request × Script := (s.requests.reverse, { s with requests := [] })

/-- The created table that a query text selects all of. -/
def tableOf? (s : Script) (query : String) : Option (List (String × DataType)) :=
  (s.tables.find? fun (name, _) => Spelling.table name == query).map (·.2)

def types (query : Query) : Step (List (String × DataType)) := do
  log fun s => .types (query.text s.dialect)
  let s ← get
  match s.tableOf? (query.text s.dialect) with
  | some fields => return fields.map fun (name, type) => (name, type.storage)
  | none => return s.schema

def rowCount (query : Query) : Step Nat := do
  log fun s => .rowCount (query.text s.dialect)
  let s ← get
  match s.rowCounts with
  | [] => throw (.database (.refused "no canned row count"))
  | count :: more =>
    set { s with rowCounts := more }
    return count

def fetch (query : Query) (types : List DataType) : Step (List Series) := do
  log fun s => .fetch (query.text s.dialect) types
  let s ← get
  match s.replies with
  | [] => throw (.database (.refused "no canned rows"))
  | reply :: more =>
    set { s with replies := more }
    match reply with
    | .columns columns => return columns
    | .refusal message => throw (.database (.refused message))

def hasTable (table : String) : Step Bool := do
  log fun _ => .hasTable table
  return (← get).tables.any (·.1 == table)

/-- A table whose fields have no column type is refused before it is asked for. -/
def create (table : String) (fields : List (String × DataType)) (overwrite : Bool) : Step Unit := do
  let dialect := (← get).dialect
  fields.forM (m := Step) fun (_, type) => do let _ ← liftM (dialect.columnType type)
  log fun _ => .create table fields overwrite
  modify fun s => { s with tables := (table, fields) :: s.tables }

def dropTable (table : String) : Step Unit := do
  log fun _ => .dropTable table
  modify fun s => { s with tables := s.tables.filter (·.1 != table) }

def insert (table : String) (query : Query) (names : List String) : Step Unit :=
  log fun s => .insert table (query.text s.dialect) names

instance : Database Script := { types, rowCount, fetch, hasTable, create, dropTable, insert }

end Script

end Tabular.Sql
