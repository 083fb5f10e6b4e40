-- SUMMARY: Loading frames in memory into tables.
import Tabular.Sql.Frame

/-!
# Loading tables

A frame in memory is written into a table as rows of literals, in batches of the configured size. The
table itself holds codes for categories; the category maps go straight to the frame over the table.
-/

namespace Tabular.Sql.Frame

variable {δ : Type}

/-- The rows of each batch. A batch size of zero counts as one. -/
def batches (size : Nat) (rows : List Nat) : List (List Nat) :=
  match rows with
  | [] => []
  | row :: more => (row :: more).take (max size 1) :: batches size ((row :: more).drop (max size 1))
termination_by rows.length
decreasing_by simp only [List.length_drop, List.length_cons]; omega

/-- One row as literals under the names of the columns. -/
def literalRow (d : Dialect) (f : Memory.Frame) (row : Nat) : Except Failure (List Field) :=
  f.columns.mapM fun c => do
    let v ← c.cell row
    d.checkLiteral v
    return ⟨.literal v, c.name⟩

/-- Write one batch of rows. -/
def insertBatch [Database δ] (d : Dialect) (table : String) (f : Memory.Frame) (rows : List Nat) :
    Work δ Unit := do
  let literals ← rows.mapM (m := Except Failure) (literalRow d f)
  Work.ask (Database.insert table (.literals literals) (f.columns.map (·.name)))

/-- Give a column the categories of the column it was loaded from. -/
def withCategories (f : Frame) (c : Memory.Column) : Frame :=
  match c.categories, f.set.position? c.name with
  | some map, some position =>
    let mark (target : Column) : Column := { target with dataType := .categorical, categories := some map }
    { f with set := { f.set with columns := f.set.columns.modify position mark } }
  | _, _ => f

/-- Write a frame into a table, in place of an old one, and give the frame over the table. -/
def load [Database δ] (d : Dialect) (table : String) (f : Memory.Frame) : Work δ Frame := do
  Work.ask (Database.create table (f.columns.map fun c => (c.name, c.dataType)) true)
  (batches f.options.insertBatchRows (List.range f.rows)).forM (insertBatch d table f)
  let loaded ← ofTable d table f.options
  return f.columns.foldl withCategories loaded

end Tabular.Sql.Frame
