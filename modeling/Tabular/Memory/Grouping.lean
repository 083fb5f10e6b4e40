-- SUMMARY: Dividing rows into groups of equal keys.
import Tabular.Memory.Rearrange

/-!
# Grouping rows

Rows whose keys are the same, cell by cell, form a group. Groups stand in the order in which their keys are
first met, and the rows of a group in ascending order.
-/

namespace Tabular.Memory

/-- Divide a list into classes of a relation, in the order of their first members. -/
def classes {α : Type} (same : α → α → Bool) : List α → List (List α)
  | [] => []
  | a :: rest => (a :: rest.filter (same a)) :: classes same (rest.filter (!same a ·))
termination_by l => l.length
decreasing_by
  have := List.length_filter_le (!same a ·) rest
  simp only [List.length_unattach, List.length_cons]
  grind

/-- Whether two tuples of keys are the same. -/
def sameKeys : List Value → List Value → Bool
  | [], [] => true
  | a :: as, b :: bs => a.same b && sameKeys as bs
  | _, _ => false

/-- The row numbers of each group. -/
def groups (keys : List Series) (rows : Nat) : List (List Nat) :=
  (classes (fun a b => sameKeys a.2 b.2) (keyedRows keys rows)).map fun group => group.map (·.1)

end Tabular.Memory
