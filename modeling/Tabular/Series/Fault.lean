-- SUMMARY: What can go wrong with single values and series of values.
import Tabular.DataType
import Tabular.Text.Escaped

/-!
# Faults of series

The causes for which an operation on a value, a series or a category map is refused, and their texts.
-/

namespace Tabular

inductive SeriesFault where
  | typeMismatch (expected actual : DataType)
  | cast (value : String) (source target : DataType)
  | notConcrete (type : DataType)
  | notCategorical (type : DataType)
  | unknownLevel (value : String)
  | null (type : DataType)
  | outOfBounds (row length : Nat)
  deriving DecidableEq, Repr

namespace SeriesFault

def message : SeriesFault → String
  | typeMismatch expected actual => s!"type mismatch: expected {expected.name}, got {actual.name}"
  | cast value source target => s!"cannot cast {Text.escaped value} from {source.name} to {target.name}"
  | notConcrete type => s!"{type.name} is not a concrete vector type"
  | notCategorical type => s!"{type.name} values cannot be categorized"
  | unknownLevel value => s!"value {value} is not a level of the category map"
  | null type => s!"null value in a {type.name} vector"
  | outOfBounds row length => s!"row {row} out of bounds for vector of length {length}"

end SeriesFault

/-- Read a type name, as text is cast. -/
def DataType.ofName (s : String) : Except SeriesFault DataType :=
  match DataType.ofName? s with
  | some t => .ok t
  | none => .error (.cast s .string .unknown)

end Tabular
