-- SUMMARY: Ordered sets of named columns with an index from names to positions.
/-!
# Column sets

The columns of a frame stand in a fixed order and are looked up by name. The index holds one position per
name. Adding a column under a name that the index knows moves the name to the new column; the older one
stays in its place but can no longer be looked up. Callers that want names to be distinct ask
`contains` first.
-/

namespace Tabular

structure ColumnSet (C : Type) where
  columns : List C
  /-- The position of each name that can be looked up. -/
  positions : List (String × Nat)

namespace ColumnSet

variable {C : Type}

def empty : ColumnSet C := ⟨[], []⟩

/-! ## Lookup -/

def position? (s : ColumnSet C) (name : String) : Option Nat := s.positions.lookup name

def contains (s : ColumnSet C) (name : String) : Bool := (s.position? name).isSome

def column? (s : ColumnSet C) (name : String) : Option C := do
  s.columns[← s.position? name]?

/-! ## Changes -/

/-- Forget the position of a name. -/
def forget (positions : List (String × Nat)) (name : String) : List (String × Nat) :=
  positions.filter (·.1 != name)

/-- Add a column at the end. -/
def push (s : ColumnSet C) (name : String) (column : C) : ColumnSet C where
  columns := s.columns ++ [column]
  positions := (name, s.columns.length) :: forget s.positions name

/-- The columns in order, each under its name. -/
def ofList (named : List (String × C)) : ColumnSet C :=
  named.foldl (fun s (name, column) => s.push name column) empty

/-- Where a column stands once the one at `removed` is gone. -/
def shift (removed position : Nat) : Nat := if removed < position then position - 1 else position

/-- Take a column out. The columns after it move up. -/
def remove? (s : ColumnSet C) (name : String) : Option (C × ColumnSet C) := do
  let position ← s.position? name
  let column ← s.columns[position]?
  return (column,
    { columns := s.columns.eraseIdx position
      positions := (forget s.positions name).map fun (n, p) => (n, shift position p) })

/-- Change every column in its place. -/
def map {D : Type} (f : C → D) (s : ColumnSet C) : ColumnSet D := ⟨s.columns.map f, s.positions⟩

/-- Change every column in its place, unless one of the changes fails. -/
def mapM {m : Type → Type} [Monad m] {D : Type} (f : C → m D) (s : ColumnSet C) : m (ColumnSet D) := do
  return ⟨← s.columns.mapM f, s.positions⟩

end ColumnSet

end Tabular
