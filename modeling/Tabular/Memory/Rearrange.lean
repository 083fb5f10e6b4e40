-- SUMMARY: Rearranging rows: orders by keys, and moving rows along the cycles of an order.
import Tabular.Series

/-!
# Rearranging rows

An order is a list of row numbers: the row that comes first, the row that comes second, and so on. Rows
are sorted by finding their order and then moving them within each column. The rows of a column are moved
in place: an order falls apart into cycles, and exchanging the neighbours of a cycle from its start to its
end puts every row of the cycle where it belongs.
-/

namespace Tabular.Memory

/-! ## Sorting -/

/-- The cells of key columns on one row. -/
def keysAt (keys : List Series) (row : Nat) : List Value := keys.filterMap (·.cell? row)

/-- The rows with their keys. -/
def keyedRows (keys : List Series) (rows : Nat) : List (Nat × List Value) :=
  (List.range rows).map fun row => (row, keysAt keys row)

/-- Compare tuples of keys: the first key that differs decides. -/
def compareKeys (ascending : Bool) : List Value → List Value → Ordering
  | a :: as, b :: bs =>
    let order := a.compare b
    (if ascending then order else order.swap).then (compareKeys ascending as bs)
  | _, _ => .eq

/-- The order that sorts the rows. Rows with equal keys stay in their order, in both directions. -/
def sortedOrder (ascending : Bool) (keys : List Series) (rows : Nat) : List Nat :=
  ((keyedRows keys rows).mergeSort fun a b => compareKeys ascending a.2 b.2 != .gt).map (·.1)

/-! ## Cycles -/

/-- The positions from `position` on along the order, up to the one that comes before `start`. In an
    order of `n` rows a cycle has at most `n` positions, which bounds the first number. -/
def cycleFrom (order : List Nat) (start : Nat) : Nat → Nat → List Nat
  | 0, _ => []
  | bound + 1, position =>
    match order[position]? with
    | none => []
    | some next =>
      if next = start then [position] else position :: cycleFrom order start bound next

/-- The cycle through a position. -/
def cycleAt (order : List Nat) (start : Nat) : List Nat := cycleFrom order start order.length start

/-- The cycles through the positions from `start` on that are not placed yet. -/
def cyclesFrom (order : List Nat) : List Nat → List Nat → List (List Nat)
  | [], _ => []
  | start :: more, placed =>
    if placed.contains start then cyclesFrom order more placed
    else
      let cycle := cycleAt order start
      cycle :: cyclesFrom order more (cycle ++ placed)

/-- The cycles of an order, each found from its least position. -/
def cycles (order : List Nat) : List (List Nat) := cyclesFrom order (List.range order.length) []

/-- The neighbours of a cycle. -/
def neighbours : List Nat → List (Nat × Nat)
  | a :: b :: more => (a, b) :: neighbours (b :: more)
  | _ => []

/-- The exchanges that carry out an order. -/
def exchanges (order : List Nat) : List (Nat × Nat) := (cycles order).flatMap neighbours

/-- Move row `order[i]` to position `i`, for each `i`. -/
def permute (order : List Nat) (s : Series) : Series :=
  (exchanges order).foldl (fun s (a, b) => s.swap a b) s

end Tabular.Memory
