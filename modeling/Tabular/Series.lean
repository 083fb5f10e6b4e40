-- SUMMARY: Series: runs of cells of one type, with gathering, broadcasting and casting.
import Tabular.Value.Cast

/-!
# Series

A series is a run of cells of one of the four concrete types. Its type is part of the value, so a series
never holds a cell of another type and never a null. A series of length one stands for a scalar and is
repeated where a longer one is wanted.
-/

namespace Tabular

inductive Series where
  | integers (cells : List Int64)
  | floats (cells : List Float)
  | strings (cells : List String)
  | dates (cells : List Date)
  deriving DecidableEq

namespace Series

/-! ## Views -/

def dataType : Series → DataType
  | integers _ => .integer
  | floats _ => .float
  | strings _ => .string
  | dates _ => .date

/-- The cells as values. -/
def values : Series → List Value
  | integers cells => cells.map .integer
  | floats cells => cells.map .float
  | strings cells => cells.map .string
  | dates cells => cells.map .date

def length : Series → Nat
  | integers cells => cells.length
  | floats cells => cells.length
  | strings cells => cells.length
  | dates cells => cells.length

def isEmpty (s : Series) : Bool := s.length == 0

/-- Whether two series have the same type and equal cells, where no NaN equals another and the zeros are
    equal. -/
def sameCells : Series → Series → Bool
  | integers a, integers b => a == b
  | floats a, floats b => a.length == b.length && (a.zip b).all fun (x, y) => x == y
  | strings a, strings b => a == b
  | dates a, dates b => a == b
  | _, _ => false

/-- The cell of a row. -/
def cell? (s : Series) (row : Nat) : Option Value :=
  match s with
  | integers cells => cells[row]?.map .integer
  | floats cells => cells[row]?.map .float
  | strings cells => cells[row]?.map .string
  | dates cells => cells[row]?.map .date

/-- The cell of a row of a longer run: rows beyond the end start again from the first. -/
def cyclic? (s : Series) (row : Nat) : Option Value :=
  if s.length = 0 then none else s.cell? (row % s.length)

/-! ## Building -/

/-- The series of a type with no cells. -/
def empty (type : DataType) : Except SeriesFault Series :=
  match type.storage with
  | .integer => .ok (integers [])
  | .float => .ok (floats [])
  | .string => .ok (strings [])
  | .date => .ok (dates [])
  | other => .error (.notConcrete other)

/-- The cell that a value is in a series of integers. -/
def integerCell : Value → Except SeriesFault Int64
  | .integer n => .ok n
  | .null => .error (.null .integer)
  | v => .error (.typeMismatch .integer v.dataType)

/-- The cell that a value is in a series of floats. An integer is widened. -/
def floatCell : Value → Except SeriesFault Float
  | .float x => .ok x
  | .integer n => .ok (Value.ofInt64 n)
  | .null => .error (.null .float)
  | v => .error (.typeMismatch .float v.dataType)

/-- The cell that a value is in a series of texts. -/
def stringCell : Value → Except SeriesFault String
  | .string t => .ok t
  | .null => .error (.null .string)
  | v => .error (.typeMismatch .string v.dataType)

/-- The cell that a value is in a series of dates. -/
def dateCell : Value → Except SeriesFault Date
  | .date d => .ok d
  | .null => .error (.null .date)
  | v => .error (.typeMismatch .date v.dataType)

/-- Add a cell at the end. -/
def push (s : Series) (v : Value) : Except SeriesFault Series :=
  match s with
  | integers cells => do return integers (cells ++ [← integerCell v])
  | floats cells => do return floats (cells ++ [← floatCell v])
  | strings cells => do return strings (cells ++ [← stringCell v])
  | dates cells => do return dates (cells ++ [← dateCell v])

/-- The series of a type whose cells are computed from items one after another. -/
def collect {m : Type → Type} [Monad m] [MonadLiftT (Except SeriesFault) m] {α : Type} (type : DataType)
    (compute : α → m Value) (items : List α) : m Series := do
  match ← liftM (empty type) with
  | integers _ => return integers (← items.mapM fun item => do liftM (integerCell (← compute item)))
  | floats _ => return floats (← items.mapM fun item => do liftM (floatCell (← compute item)))
  | strings _ => return strings (← items.mapM fun item => do liftM (stringCell (← compute item)))
  | dates _ => return dates (← items.mapM fun item => do liftM (dateCell (← compute item)))

/-- The cells that values can be in a series of a type. -/
def ofValues (type : DataType) (values : List Value) : Except SeriesFault Series :=
  collect type Except.ok values

/-- The series of one cell. -/
def scalar (v : Value) : Except SeriesFault Series := ofValues v.dataType [v]

/-! ## Rearranging -/

/-- One series after another of the same type. -/
def append : Series → Series → Except SeriesFault Series
  | integers a, integers b => .ok (integers (a ++ b))
  | floats a, floats b => .ok (floats (a ++ b))
  | strings a, strings b => .ok (strings (a ++ b))
  | dates a, dates b => .ok (dates (a ++ b))
  | a, b => .error (.typeMismatch a.dataType b.dataType)

/-- The named rows in the named order; the first row that does not exist is the fault. -/
def gather {α : Type} (cells : List α) (rows : List Nat) : Except SeriesFault (List α) :=
  let table := cells.toArray
  rows.mapM fun row =>
    match table[row]? with
    | some c => .ok c
    | none => .error (.outOfBounds row table.size)

def take (s : Series) (rows : List Nat) : Except SeriesFault Series :=
  match s with
  | integers cells => integers <$> gather cells rows
  | floats cells => floats <$> gather cells rows
  | strings cells => strings <$> gather cells rows
  | dates cells => dates <$> gather cells rows

/-- Repeat the cells until there are `length` of them. -/
def broadcastTo (s : Series) (length : Nat) : Except SeriesFault Series :=
  if s.length = 0 ∧ 0 < length then .error (.outOfBounds 0 0)
  else s.take ((List.range length).map (· % max s.length 1))

/-- Exchange two cells; nothing happens unless both exist. -/
def exchange {α : Type} (cells : List α) (a b : Nat) : List α :=
  match cells[a]?, cells[b]? with
  | some x, some y => (cells.set a y).set b x
  | _, _ => cells

def swap (s : Series) (a b : Nat) : Series :=
  match s with
  | integers cells => integers (exchange cells a b)
  | floats cells => floats (exchange cells a b)
  | strings cells => strings (exchange cells a b)
  | dates cells => dates (exchange cells a b)

/-- Cast every cell. A series of the wanted type stays as it is. -/
def cast (patterns : List String) (type : DataType) (s : Series) : Except SeriesFault Series :=
  if type.storage = s.dataType then .ok s
  else collect type.storage (fun v => v.cast patterns type.storage) s.values

end Series

end Tabular
