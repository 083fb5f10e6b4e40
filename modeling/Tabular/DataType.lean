-- SUMMARY: The types of cells and columns: names, storage, and which operand types a slot accepts.
import Tabular.Text.Blank

/-!
# Types

A type tags columns, cells and the slots of signatures. `any` occurs in signatures only. Categories are
stored as integer codes, so the storage of `categorical` is `integer` and a slot for integers accepts it.
-/

namespace Tabular

inductive DataType where
  | unknown
  | string
  | float
  | integer
  | categorical
  | date
  | nil
  | dataframe
  | any
  deriving DecidableEq, Repr

namespace DataType

def name : DataType → String
  | unknown => "unknown"
  | string => "string"
  | float => "float"
  | integer => "integer"
  | categorical => "categorical"
  | date => "date"
  | nil => "nil"
  | dataframe => "dataframe"
  | any => "any"

/-- The types that a series of cells can have. -/
def isConcrete : DataType → Bool
  | string | float | integer | date => true
  | _ => false

/-- The type of the stored cells. -/
def storage : DataType → DataType
  | categorical => integer
  | t => t

/-- Whether an operand of type `actual` fills a slot declared as `slot`. -/
def accepts (slot actual : DataType) : Bool :=
  match slot with
  | any => true
  | integer => actual == integer || actual == categorical
  | t => t == actual

/-- The type that a name stands for. Blanks around it and the case of ASCII letters do not matter. -/
def ofName? (s : String) : Option DataType :=
  match String.ofList ((Text.trim s.toList).map Char.toLower) with
  | "string" | "str" | "text" => some string
  | "float" | "float64" | "double" => some float
  | "integer" | "int" | "int64" => some integer
  | "categorical" | "cat" => some categorical
  | "date" => some date
  | "nil" => some nil
  | "dataframe" => some dataframe
  | "any" => some any
  | "unknown" => some unknown
  | _ => none

end DataType

end Tabular
