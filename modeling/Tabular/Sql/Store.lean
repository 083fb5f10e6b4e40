-- SUMMARY: A database of typed tables in memory.
import Tabular.Sql.Database
import Tabular.Sql.Store.Relation

/-!
# Stores

A store keeps tables as rows of cells in the order in which they were inserted, and runs composed queries
on them. Names of tables and columns do not depend on the case of letters, except where it is asked whether
there is a table. A request that is refused on the way leaves no rows behind.
-/

namespace Tabular.Sql

/-- A column of a table and its declared type. -/
structure StoredColumn where
  name : String
  declaration : String

/-- Whether a null character cuts the statement short that would make the column. -/
def StoredColumn.isCutShort (c : StoredColumn) : Bool := Sql.isCutShort c.name || Sql.isCutShort c.declaration

structure Table where
  name : String
  columns : List StoredColumn
  rows : List (List Cell)

structure Store where
  tables : List Table

/-! ## Tables -/

namespace Table

def relation (t : Table) : Relation where
  headings := t.columns.map fun c => ⟨c.name, declaredType? c.declaration, affinity c.declaration⟩
  rows := t.rows.map fun cells => cells.map .ok

def hasColumn (t : Table) (name : String) : Bool := t.columns.any (sameName name ·.name)

/-- A row from the cells of named columns, as the columns keep them; the others are null. -/
def fillRow (t : Table) (names : List String) (cells : List Cell) : List Cell :=
  t.columns.map fun column =>
    match (names.findIdx? (sameName column.name)).bind (cells[·]?) with
    | some c => (affinity column.declaration).keep c
    | none => .null

/-- Add rows of cells for named columns. -/
def insert (t : Table) (names : List String) (rows : List (List Cell)) : Table :=
  { t with rows := t.rows ++ rows.map (t.fillRow names) }

end Table

namespace Store

def empty : Store := ⟨[]⟩

/-- Work on a store. -/
abbrev Step := ExceptT Failure (StateM Store)

def table? (s : Store) (name : String) : Option Table := s.tables.find? (sameName name ·.name)

/-- The relation of a query. -/
def run (s : Store) (query : Query) : Except Failure Relation :=
  if isCutShort (query.text .sqlite) then .error .engine
  else query.relation (fun name => (s.table? name).map Table.relation) []

/-- Whether two of the names are the same. -/
def hasRepeats : List String → Bool
  | [] => false
  | name :: more => more.any (sameName name) || hasRepeats more

/-- The beginning of names that tables cannot have. -/
def reserved : List Char := "sqlite_".toList

/-- Make a table. It needs a name of its own and at least one column. -/
def createTable (name : String) (columns : List StoredColumn) : Step Unit := do
  let taken := ((← get).table? name).isSome
  if taken || columns.isEmpty || hasRepeats (columns.map (·.name)) || isCutShort name
      || columns.any StoredColumn.isCutShort || reserved.isPrefixOf (name.toList.map Char.toLower) then
    throw .engine
  modify fun s => { s with tables := s.tables ++ [⟨name, columns, []⟩] }

/-- Add rows of cells for named columns. -/
def insertRows (name : String) (names : List String) (rows : List (List Cell)) : Step Unit := do
  match (← get).table? name with
  | none => throw .engine
  | some t =>
    if names.isEmpty || !names.all t.hasColumn || rows.any (·.length != names.length) then throw .engine
    let extend (u : Table) : Table := if sameName u.name name then u.insert names rows else u
    modify fun s => { s with tables := s.tables.map extend }

/-- Add one row of values for all columns of a table. -/
def insertValues (name : String) (columns : List StoredColumn) (values : List Value) : Step Unit := do
  if values.any (isCutShort ∘ Spelling.literal) then throw .engine
  insertRows name (columns.map (·.name)) [values.map Cell.ofValue]

/-- Make a table and add rows of values to it, each in a statement of its own: when one is refused, the rows
    before it stay. A value without a literal is refused before the table is made. -/
def fillTable (name : String) (columns : List StoredColumn) (rows : List (List Value)) : Step Unit := do
  rows.forM (m := Step) fun values => values.forM (m := Step) fun v => liftM (Dialect.sqlite.checkLiteral v)
  createTable name columns
  rows.forM (insertValues name columns)

/-! ## Reading -/

/-- The type of a column: the declared one, or else the one of its first cell. -/
def headingType (heading : Heading) (cell : Option Cell) : DataType :=
  heading.type.getD (cell.elim .string Cell.dataType)

/-- The types of columns. The first row is computed only if a column has no declared type. -/
def types (query : Query) : Step (List (String × DataType)) := do
  let relation ← liftM (m := Except Failure) ((← get).run query)
  let first ←
    if relation.headings.all (·.type.isSome) then pure []
    else liftM (m := Except Failure) ((relation.rows.headD []).mapM id)
  return relation.headings.zipIdx.map fun (heading, index) =>
    (heading.name, headingType heading first[index]?)

def rowCount (query : Query) : Step Nat := do
  let relation ← liftM (m := Except Failure) ((← get).run query)
  return relation.rows.length

/-- Read one cell into the series of its column. -/
def readCell (row column : Nat) (type : DataType) (cells : Series) (cell : Cell) : Except Failure Series :=
  match cell.read type with
  | .ok v => liftM (cells.push v)
  | .error fault => .error (.database (.cell row column fault))

/-- Read one row, once all of it is computed; the first cell that cannot be read is the fault. -/
def readRow (types : List DataType) (columns : List Series) (row : List Cell.Outcome × Nat) :
    Except Failure (List Series) := do
  let cells ← row.1.mapM id
  ((types.zip columns).zip cells).zipIdx.mapM fun (((type, column), cell), index) =>
    readCell row.2 index type column cell

/-- Read the rows of a relation as series of the wanted types. -/
def read (relation : Relation) (sorted : Bool) (types : List DataType) : Except Failure (List Series) := do
  let width := relation.headings.length
  if width ≠ types.length then throw (.database (.columnCount width types.length))
  let columns ← types.mapM fun type => (liftM (Series.empty type) : Except Failure Series)
  let relation ← if sorted then relation.settle else pure relation
  relation.rows.zipIdx.foldlM (readRow types) columns

def fetch (query : Query) (types : List DataType) : Step (List Series) := do
  let relation ← liftM (m := Except Failure) ((← get).run query)
  liftM (read relation query.isSorted types)

/-! ## Changing tables -/

def hasTable (name : String) : Step Bool := do return (← get).tables.any (·.name == name)

def dropTable (name : String) : Step Unit := do
  if isCutShort name then throw .engine
  modify fun s => { s with tables := s.tables.filter (!sameName name ·.name) }

/-- A field as it is declared. -/
def declare (field : String × DataType) : Except Failure StoredColumn := do
  return ⟨field.1, Dialect.sqlite.typeName (← Dialect.sqlite.columnType field.2)⟩

/-- An old table is dropped before the fields are looked at. -/
def create (name : String) (fields : List (String × DataType)) (overwrite : Bool) : Step Unit := do
  if ← hasTable name then
    if !overwrite then throw (.database (.tableExists name))
    dropTable name
  let columns ← liftM (m := Except Failure) (fields.mapM declare)
  createTable name columns

/-- All rows are computed before the first of them is added. -/
def insert (name : String) (query : Query) (names : List String) : Step Unit := do
  let relation ← liftM (m := Except Failure) ((← get).run query)
  if relation.headings.length ≠ names.length then throw .engine
  let rows ← liftM (m := Except Failure) (relation.rows.mapM (·.mapM id))
  insertRows name names rows

instance : Database Store := { types, rowCount, fetch, hasTable, create, dropTable, insert }

end Store

end Tabular.Sql
