-- SUMMARY: Category maps: codes for the distinct values of a series, with rare values collapsed.
import Tabular.Series

/-!
# Category maps

A category map gives each distinct value of a series a code, counted from zero in the order in which the
values are first met. With a threshold, values met less often are rare: they get no code of their own and
share the code for other values. Floats have no categories.
-/

namespace Tabular

structure CategoryMap where
  rawType : DataType
  /-- Values met less often than this are rare. -/
  threshold : Option Nat
  /-- Every distinct value with its code, in the order of encounter. -/
  entries : List (Value × Int64)
  /-- The values that have a code of their own, in the order of their codes. -/
  levels : List Value
  deriving DecidableEq

namespace CategoryMap

/-- The code that all rare values share. -/
def otherCode : Int64 := -1

/-! ## Lookup -/

/-- The code of a value that the map was built from. -/
def code? (m : CategoryMap) (v : Value) : Option Int64 :=
  (m.entries.find? fun entry => entry.1.same v).map (·.2)

/-- The value that a code stands for. -/
def level? (m : CategoryMap) (code : Int64) : Option Value :=
  if code.toInt < 0 then none else m.levels[code.toInt.toNat]?

/-- Whether some value is rare. -/
def hasOther (m : CategoryMap) : Bool := m.levels.length < m.entries.length

/-- The code of the level that stands in for unknown values. -/
def defaultCode (m : CategoryMap) (level : Value) : Except SeriesFault Int64 :=
  match m.code? level with
  | some code => .ok code
  | none => .error (.unknownLevel level.text)

/-- The codes of a series of the raw type; a value the map does not know gets the default. -/
def encode (m : CategoryMap) (raw : Series) (default : Int64) : Except SeriesFault Series :=
  if raw.dataType = m.rawType then
    .ok (.integers (raw.values.map fun v => (m.code? v).getD default))
  else .error (.typeMismatch m.rawType raw.dataType)

/-! ## Building -/

/-- The distinct values in the order of encounter. -/
def distinct (values : List Value) : List Value :=
  values.foldl (fun seen v => if seen.any (·.same v) then seen else seen ++ [v]) []

/-- Whether `v` occurs less often than the threshold asks. -/
def isRare (threshold : Option Nat) (values : List Value) (v : Value) : Bool :=
  match threshold with
  | none => false
  | some least => (values.filter (·.same v)).length < least

/-- Number the values that are not rare from `next` on. -/
def number (rare : Value → Bool) : Nat → List Value → List (Value × Int64)
  | _, [] => []
  | next, v :: rest =>
    if rare v then (v, otherCode) :: number rare next rest
    else (v, Int64.ofNat next) :: number rare (next + 1) rest

/-- The map of a list of values. -/
def ofValues (rawType : DataType) (threshold : Option Nat) (values : List Value) : CategoryMap :=
  let order := distinct values
  let rare := isRare threshold values
  { rawType, threshold
    entries := number rare 0 order
    levels := order.filter (!rare ·) }

/-- The map of a series and the codes of the series. -/
def build (raw : Series) (threshold : Option Nat) : Except SeriesFault (CategoryMap × Series) :=
  match raw with
  | .floats _ => .error (.notCategorical .float)
  | _ => do
    let map := ofValues raw.dataType threshold raw.values
    return (map, ← map.encode raw otherCode)

end CategoryMap

end Tabular
