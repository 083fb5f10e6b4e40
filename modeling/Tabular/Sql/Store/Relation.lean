-- SUMMARY: The rows of a query: grouping, sorting, and the statements that are refused.
import Tabular.Sql.Store.View

/-!
# Relations

A relation is what a query stands for: headings and rows. A statement without groups gives one row for each
row of its source; with keys, one row for each group of equal keys, in the order of the keys; with aggregates
alone, one row. Bare columns of a group come from its first row. Statements are checked before they run, and
one with groups or windows computes all its cells, whether or not they are used.
-/

namespace Tabular.Sql

structure Relation where
  headings : List Heading
  rows : List (List Cell.Outcome)

/-! ## Checks -/

/-- Whether an aggregate reads nothing of its own statement and yet something of one further out. It would
    belong to that statement, where it stands inside of another aggregate. -/
def Term.areDisplaced (args : List Term) : Bool :=
  Term.anyOf isCorrelated args && !Term.anyOf isColumn args

mutual

/-- Whether every call has as many operands as its function takes, and operands of aggregates and of
    windows are on the level of rows. `inner` says that the term stands in a correlated subquery. -/
def Term.isSound (inner : Bool) : Term → Bool
  | .column _ => true
  | .literal _ => true
  | .convert _ operand => operand.isSound inner
  | .compare _ left right => left.isSound inner && right.isSound inner
  | .case conditions values otherwise =>
    Term.areSound inner conditions && Term.areSound inner values && otherwise.isSound inner
  | .call function args =>
    Cell.takes function args.length && Term.areSound inner args
      && (!function.isAggregate || (Term.areRowLevel args && !(inner && Term.areDisplaced args)))
  | .rowNumber _ => true
  | .quantile _ _ => false
  | .broadcast aggregate => aggregate.isAggregate && aggregate.isSound inner
  | .overSource aggregate _ => aggregate.isSound false
  | .overGroup aggregate _ _ => aggregate.isSound true

def Term.areSound (inner : Bool) : List Term → Bool
  | [] => true
  | term :: more => term.isSound inner && Term.areSound inner more

end

/-- Whether a term is a literal zero, also as a conjunction with one, which is no other. -/
def Term.isFalse : Term → Bool
  | .literal (.integer n) => n == 0
  | .call .and [left, right] => left.isFalse || right.isFalse
  | _ => false

/-- The number that a key is, if it is a literal integer of 32 bits: it names an output column by its place. -/
def Term.ordinal? : Term → Option Int
  | .literal (.integer n) => if n.toInt.natAbs < 2 ^ 31 then some n.toInt else none
  | .call .negate [operand] => operand.ordinal?.map (-·)
  | .case [] _ otherwise => otherwise.ordinal?
  | term => if term.isFalse then some 0 else none

/-- The term that a key of groups stands for; it has to be on the level of rows. -/
def groupKey (fields : List Field) (key : Term) : Except Failure Term := do
  let term ← match key.ordinal? with
    | none => pure key
    | some n =>
      match if 1 ≤ n then fields[n.toNat - 1]? else none with
      | some field => pure field.term
      | none => throw .engine
  if !(term.isSound false && term.isRowLevel) then throw .engine
  return term

/-! ## Views of a statement -/

/-- The rows of a relation, numbered. -/
def Relation.view (r : Relation) : View :=
  let rows := r.rows.zipIdx.map fun (cells, number) => (⟨number, cells⟩ : Row)
  { headings := r.headings, source := rows, window := rows, members := rows, current := none }

/-- The view from each row. -/
def View.rowViews (v : View) : List View := v.source.map v.on

/-- The view from each of some groups of rows. -/
def View.groupViews (v : View) (groups : List (List Row)) : List View :=
  let window := groups.filterMap List.head?
  groups.map fun group => { v with window, members := group, current := group.head? }

/-- Whether two lists of keys are the same. -/
def sameCells (a b : List Cell) : Bool := View.compareKeys true a b == .eq

/-- The groups of equal keys in the order of the keys. -/
def View.groups (v : View) (keys : List Term) : Except Failure (List (List Row)) := do
  let keyed ← v.source.mapM fun row => do
    return (← (Term.evalAll (v.on row) keys).mapM id, row)
  let runs := (View.sortByKeys true keyed).splitBy fun a b => sameCells a.1 b.1
  return runs.map fun run => run.map (·.2)

/-- The view from each result row of a statement. -/
def View.results (v : View) (fields : List Field) (groupBy : List Term) : Except Failure (List View) := do
  let keys ← groupBy.mapM (groupKey fields)
  if !Term.areSound false (fields.map (·.term)) then throw .engine
  if !keys.isEmpty then return v.groupViews (← v.groups keys)
  else if (fields.map (·.term)).any Term.isGroupLevel then
    return [{ v with window := v.source.take 1, current := v.source.head? }]
  else return v.rowViews

/-! ## Sorting -/

/-- The cell that a result row is sorted by: the output of a name, or else the column of the source. -/
def sortCell (fields : List Field) (v : View) (key : String) : Cell.Outcome :=
  match fields.find? (sameName key ·.name) with
  | some field => field.term.eval v
  | none => v.cell key

/-- Sort result rows. -/
def sortResults (fields : List Field) (order : Option SortOrder) (results : List View) :
    Except Failure (List View) :=
  match order with
  | none => .ok results
  | some order => do
    let keyed ← results.mapM fun v => do return (← order.keys.mapM (sortCell fields v ·), v)
    return (View.sortByKeys order.ascending keyed).map (·.2)

/-! ## Queries -/

/-- The fields that select all columns. -/
def allFields (headings : List Heading) : List Field := headings.map fun h => ⟨.column h.name, h.name⟩

/-- What is known of a field: a column keeps its declared type. -/
def Field.heading (v : View) (f : Field) : Heading where
  name := f.name
  type := match f.term with
    | .column name => (v.heading? name).bind (·.type)
    | _ => none
  affinity := f.term.affinity v

/-- The relation with all its cells computed. -/
def Relation.settle (r : Relation) : Except Failure Relation := do
  r.rows.forM fun cells => cells.forM fun outcome => do let _ ← outcome
  return r

/-- Fields over the rows of a relation. -/
def Relation.select (source : Relation) (fields : List Field) (groupBy : List Term) (order : Option SortOrder) :
    Except Failure Relation := do
  let fields := if fields.isEmpty then allFields source.headings else fields
  let view := source.view
  let results ← sortResults fields order (← view.results fields groupBy)
  let terms := fields.map (·.term)
  let result : Relation :=
    { headings := fields.map (Field.heading view)
      rows := results.map fun v => Term.evalAll v terms }
  if groupBy.isEmpty && Term.areRowLevel terms then return result
  else
    results.forM (m := Except Failure) fun v => Term.prepareAll v terms
    result.settle

/-- A row of literals has no columns to look at. -/
def View.empty : View where
  headings := []
  source := []
  window := []
  members := []
  current := none

/-- The most rows of literals in one statement. -/
def mostLiterals : Nat := 500

/-- Rows of literals, all of one width. -/
def Relation.ofLiterals (rows : List (List Field)) : Except Failure Relation := do
  let first := rows.headD []
  if first.isEmpty || mostLiterals < rows.length || rows.any (·.length != first.length) then throw .engine
  return { headings := first.map (Field.heading View.empty)
           rows := rows.map fun fields => Term.evalAll View.empty (fields.map (·.term)) }

/-- Whether all rows are computed before the first of them is read. -/
def Query.isSorted : Query → Bool
  | .select _ _ _ _ order => order.isSome
  | _ => false

/-- The relation of a query. `enclosing` are the names given by the statements around it; a table of such a
    name would be the statement itself. -/
def Query.relation (table? : String → Option Relation) (enclosing : List String) :
    Query → Except Failure Relation
  | .statement _ => .error .engine
  | .table name =>
    match if enclosing.any (sameName name) then none else table? name with
    | some r => .ok r
    | none => .error .engine
  | .select name source fields groupBy order => do
    let name ← match sourceName? name with
      | some name => pure name
      | none => throw .engine
    let rows ← source.relation table? (name :: enclosing)
    let rows ← if source.isSorted && !groupBy.isEmpty then rows.settle else pure rows
    rows.select fields groupBy order
  | .literals rows => Relation.ofLiterals rows

end Tabular.Sql
