-- SUMMARY: Columns held in memory.
import Tabular.CategoryMap
import Tabular.Failure

/-!
# Columns in memory

A column has a name, a type and its cells. The cells are of the storage type: a categorical column holds
codes, and carries the map that gives them meaning. The column of a literal remembers its value, so that
operations can tell constants from computed cells.
-/

namespace Tabular.Memory

structure Column where
  name : String
  dataType : DataType
  data : Series
  categories : Option CategoryMap
  /-- The value of a literal. -/
  constant : Option Value
  deriving DecidableEq

namespace Column

/-- The column of a series. -/
def ofSeries (name : String) (data : Series) : Column :=
  { name, dataType := data.dataType, data, categories := none, constant := none }

/-- The column of codes with the map that gave them. -/
def ofCodes (name : String) (codes : Series) (map : CategoryMap) : Except Failure Column :=
  if codes.dataType = .integer then
    .ok { name, dataType := .categorical, data := codes, categories := some map, constant := none }
  else .error (.series (.typeMismatch .integer codes.dataType))

/-- The column of one cell, named by its text. -/
def literal (v : Value) : Except Failure Column := do
  let data ← Series.scalar v
  return { name := v.text, dataType := data.dataType, data, categories := none, constant := some v }

def rename (c : Column) (name : String) : Column := { c with name }

def length (c : Column) : Nat := c.data.length

/-- The cell of a row. -/
def cell (c : Column) (row : Nat) : Except Failure Value :=
  match c.data.cell? row with
  | some v => .ok v
  | none => .error (.series (.outOfBounds row c.length))

/-- The named rows in the named order. -/
def take (c : Column) (rows : List Nat) : Except Failure Column := do
  return { c with data := ← c.data.take rows }

end Column

end Tabular.Memory
