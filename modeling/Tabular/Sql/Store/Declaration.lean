-- SUMMARY: What the declared type of a stored column says: how cells are kept and which type they have.
import Tabular.Sql.Dialect
import Tabular.Sql.Store.Cell

/-!
# Declared types

The declared type of a column is free text. Words in it decide, in any case, how cells are kept that are
put into the column, and as what type the column is read; the first word that occurs decides. A
declaration without such a word keeps cells as numbers where they can be and says nothing about the type.
-/

namespace Tabular.Sql

/-- How a column keeps the cells that are put into it. -/
inductive Affinity where
  | integer
  | text
  /-- Every cell as it comes. -/
  | none
  | real
  | numeric
  deriving DecidableEq, Repr

/-! ## Words -/

/-- Whether a text stands somewhere in another one. -/
def occursIn (word : List Char) : List Char → Bool
  | [] => word.isEmpty
  | c :: rest => word.isPrefixOf (c :: rest) || occursIn word rest

/-- Whether one of the words stands in a declaration, whose case does not matter. -/
def mentions (declaration : String) (words : List String) : Bool :=
  words.any fun word => occursIn word.toList (declaration.toList.map Char.toUpper)

/-- The type that a declaration names. -/
def declaredType? (declaration : String) : Option DataType :=
  if mentions declaration ["DATE"] then some .date
  else if mentions declaration ["INT"] then some .integer
  else if mentions declaration ["REAL", "FLOA", "DOUB", "NUMERIC"] then some .float
  else if mentions declaration ["TEXT", "CHAR", "CLOB"] then some .string
  else none

def affinity (declaration : String) : Affinity :=
  if mentions declaration ["INT"] then .integer
  else if mentions declaration ["CHAR", "CLOB", "TEXT"] then .text
  else if declaration.isEmpty || mentions declaration ["BLOB"] then .none
  else if mentions declaration ["REAL", "FLOA", "DOUB"] then .real
  else .numeric

/-- How cells of a type are kept. -/
def ColumnType.affinity : ColumnType → Affinity
  | .integer => .integer
  | .float => .real
  | .string => .text
  | .date => .numeric

/-! ## Keeping cells -/

/-- A real that is whole as an integer, unless it is as large as the largest ones. -/
def wholeReal (x : Float) : Cell :=
  if x.isFinite then
    let n := Decimal.truncate x
    if Float.ofInt n == x && n.natAbs < 0x7fffffffffffffff then .integer (Int64.ofInt n) else .real x
  else .real x

/-- A number in the smallest form. -/
def Cell.asNumeric : Cell → Cell
  | .real x => wholeReal x
  | .text s =>
    match wholeNumber? s with
    | some (.real x) => wholeReal x
    | some n => n
    | none => .text s
  | c => c

/-- A number as a real. Whole reals are kept as integers inside, so there is no negative zero. -/
def Cell.asReal : Cell → Cell
  | .integer n => .real (Value.ofInt64 n)
  | .real x => .real (if x == 0.0 then 0.0 else x)
  | .text s =>
    match wholeNumber? s with
    | some n => n.toReal
    | none => .text s
  | c => c

/-- The cell that a column keeps. -/
def Affinity.keep : Affinity → Cell → Cell
  | .integer, c => c.asNumeric
  | .numeric, c => c.asNumeric
  | .real, c => c.asReal
  | .text, c => c.toText
  | .none, c => c

/-! ## Comparing cells -/

/-- A text that is a number as that number. -/
def Cell.readText : Cell → Cell
  | .text s => (wholeNumber? s).getD (.text s)
  | c => c

def Affinity.isNumeric : Affinity → Bool
  | .integer | .real | .numeric => true
  | .text | .none => false

/-- Two cells as they are compared. Beside what is kept as a number a text is read as one; beside what is
    kept as text a number becomes one. -/
def Affinity.align (a b : Affinity) (left right : Cell) : Cell × Cell :=
  if a.isNumeric || b.isNumeric then (left.readText, right.readText)
  else if a == .text || b == .text then (left.toText, right.toText)
  else (left, right)

end Tabular.Sql
