-- SUMMARY: Values of terms over the rows of a source.
import Tabular.Sql.Level
import Tabular.Sql.Store.Name
import Tabular.Sql.Store.Total

/-!
# Views

A term is evaluated on a view: the rows of the source that a statement selects from, the rows that windows
range over, the rows that aggregates range over, and the row whose cells are named. A subquery is the same
source seen in another way. Cells are outcomes, so a cell that cannot be computed does no harm where nothing
uses it.
-/

namespace Tabular.Sql

/-- A column of a source or of a result; `type` is what the declaration of a stored column says. -/
structure Heading where
  name : String
  type : Option DataType
  affinity : Affinity

/-- A row and its place in the source. -/
structure Row where
  number : Nat
  cells : List Cell.Outcome

structure View where
  headings : List Heading
  source : List Row
  /-- The rows that windows range over. -/
  window : List Row
  /-- The rows that aggregates range over. -/
  members : List Row
  /-- The row whose cells are named; without one all cells are null. -/
  current : Option Row

namespace View

/-! ## Rows -/

/-- The view from a row. -/
def on (v : View) (row : Row) : View := { v with current := some row }

/-- The heading of a column. -/
def heading? (v : View) (name : String) : Option Heading := v.headings.find? (sameName name ·.name)

/-- The cell of a name. What is no column counts as a text. -/
def cell (v : View) (name : String) : Cell.Outcome :=
  match v.headings.findIdx? (sameName name ·.name) with
  | none => .ok (.text name)
  | some index =>
    match v.current with
    | none => .ok .null
    | some row => row.cells[index]?.getD (.ok .null)

/-- Some rows of the source as a statement of their own. A statement with aggregates has one result. -/
def subquery (v : View) (rows : List Row) (aggregated : Bool) : View :=
  { v with window := if aggregated then rows.take 1 else rows, members := rows, current := rows.head? }

/-- Compare two lists of keys in one direction. -/
def compareKeys (ascending : Bool) : List Cell → List Cell → Ordering
  | a :: as, b :: bs =>
    let first := if ascending then a.compare b else b.compare a
    first.then (compareKeys ascending as bs)
  | _, _ => .eq

/-- Sort by keys; equal keys keep their order. -/
def sortByKeys {α : Type} (ascending : Bool) (keyed : List (List Cell × α)) : List (List Cell × α) :=
  keyed.mergeSort fun a b => compareKeys ascending a.1 b.1 != .gt

/-- The keys of a row. -/
def keys (v : View) (names : List String) (row : Row) : Except Failure (List Cell) :=
  names.mapM ((v.on row).cell ·)

/-- The rows of the window in an order. -/
def ordered (v : View) (order : Option SortOrder) : Except Failure (List Row) :=
  match order with
  | none => .ok v.window
  | some order => do
    let keyed ← v.window.mapM fun row => do return (← v.keys order.keys row, row)
    return (sortByKeys order.ascending keyed).map (·.2)

/-- The place of the current row in the window. -/
def position (v : View) (order : Option SortOrder) : Cell.Outcome := do
  let rows ← v.ordered order
  match v.current.bind fun row => rows.findIdx? (·.number == row.number) with
  | some place => return .integer (Int64.ofNat place)
  | none => return .null

/-- The rows of the source that share the keys of the current row. -/
def group (v : View) (names : List String) : Except Failure (List Row) := do
  let own ← names.mapM (v.cell ·)
  v.source.filterM fun row => do
    let keys ← v.keys names row
    return (keys.zip own).all fun (a, b) => a.same b

end View

/-! ## Terms -/

/-- The value of the first condition that holds. -/
def Cell.choose (otherwise : Cell.Outcome) : List Cell.Outcome → List Cell.Outcome → Cell.Outcome
  | condition :: conditions, value :: values => do
    if (← condition).truth? = some true then value else Cell.choose otherwise conditions values
  | _, _ => otherwise

/-- How the value of a term is kept: columns and casts have their own way. -/
def Term.affinity (v : View) : Term → Affinity
  | .column name => ((v.heading? name).map (·.affinity)).getD .none
  | .convert (.cast target) _ => target.affinity
  | .convert (.dateCode target) _ => target.affinity
  | .overSource aggregate _ => aggregate.affinity v
  | .overGroup aggregate _ _ => aggregate.affinity v
  | _ => .none

/-- An aggregate of what its operand is on the members. -/
def View.aggregate (v : View) (f : Function) (operand : View → Cell.Outcome) : Cell.Outcome := do
  Cell.aggregate f (← v.members.mapM fun row => operand (v.on row))

mutual

def Term.eval (v : View) : Term → Cell.Outcome
  | .column name => v.cell name
  | .literal value => .ok (.ofValue value)
  | .convert how operand => do return (← operand.eval v).convert how
  | .compare how left right => do
    let (a, b) := (left.affinity v).align (right.affinity v) (← left.eval v) (← right.eval v)
    return .compared how a b
  | .case conditions values otherwise =>
    Cell.choose (otherwise.eval v) (Term.evalAll v conditions) (Term.evalAll v values)
  -- A sign before a literal belongs to the literal, so that there is a negative zero.
  | .call .negate [.literal (.float x)] => .ok (.ofFloat (-x))
  | .call function args =>
    if function.isAggregate then v.aggregate function fun u => ((Term.evalAll u args).head?).getD (.ok .null)
    else do Cell.apply function (← (Term.evalAll v args).mapM id)
  | .rowNumber order => v.position order
  | .quantile _ _ => .error .engine
  | .broadcast aggregate => aggregate.eval { v with members := v.window }
  | .overSource aggregate _ =>
    if v.source.isEmpty && !aggregate.isGroupLevel then .ok .null
    else do
      let inner := v.subquery v.source aggregate.isGroupLevel
      aggregate.prepare inner
      aggregate.eval inner
  | .overGroup aggregate _ keys => do
    let rows ← v.group keys
    if rows.isEmpty && !aggregate.isGroupLevel then return .null
    else
      let inner := v.subquery rows aggregate.isGroupLevel
      aggregate.prepare inner
      aggregate.eval inner

def Term.evalAll (v : View) : List Term → List Cell.Outcome
  | [] => []
  | term :: more => term.eval v :: Term.evalAll v more

/-- Compute the aggregates and windows of a term. A statement computes them before anything else, also where
    they stand in a branch that is not taken. -/
def Term.prepare (v : View) : Term → Except Failure Unit
  | .convert _ operand => operand.prepare v
  | .compare _ left right => do
    left.prepare v
    right.prepare v
  | .case conditions values otherwise => do
    Term.prepareAll v conditions
    Term.prepareAll v values
    otherwise.prepare v
  | .call function args =>
    if function.isAggregate then do
      let _ ← v.aggregate function fun u => ((Term.evalAll u args).head?).getD (.ok .null)
    else Term.prepareAll v args
  | .rowNumber order => do let _ ← v.position order
  | .broadcast aggregate => do let _ ← aggregate.eval { v with members := v.window }
  | .column _ | .literal _ | .quantile _ _ | .overSource _ _ | .overGroup _ _ _ => .ok ()

def Term.prepareAll (v : View) : List Term → Except Failure Unit
  | [] => .ok ()
  | term :: more => do
    term.prepare v
    Term.prepareAll v more

end

end Tabular.Sql
