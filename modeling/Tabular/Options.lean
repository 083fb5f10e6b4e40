-- SUMMARY: The options of frames, their defaults, and reading them from JSON.
import Tabular.Date.Pattern
import Tabular.Json

/-!
# Options

Options travel with every frame made from a frame. They are read from a JSON object, where a missing
member takes its default and an unknown one is ignored, or from a JSON list of the members in order,
which may stop early. A known member must occur once and have its type.
-/

namespace Tabular

structure Options where
  /-- Patterns tried, in order, where a text may be a date. -/
  datePatterns : List String
  /-- The threshold of category maps whose formula gives none. -/
  categoryThreshold : Option Nat
  /-- The beginning of the aliases of composed SQL sources. -/
  temporaryAlias : String
  /-- Rows per insert when a frame is loaded into a table. -/
  insertBatchRows : Nat
  deriving DecidableEq, Repr

namespace Options

def default : Options where
  datePatterns := Date.defaultPatterns
  categoryThreshold := none
  temporaryAlias := "_src"
  insertBatchRows := 500

/-! ## Members -/

/-- A count that fits 64 bits. -/
def count? : Json → Option Nat
  | .whole n => if 0 ≤ n ∧ n < 0x10000000000000000 then some n.toNat else none
  | _ => none

/-- A count or null. -/
def optionalCount? : Json → Option (Option Nat)
  | .null => some none
  | item => (count? item).map some

def text? : Json → Option String
  | .text s => s
  | _ => none

def texts? : Json → Option (List String)
  | .list items => items.mapM text?
  | _ => none

/-- The members that have been read. -/
structure Members where
  datePatterns : Option (List String)
  categoryThreshold : Option (Option Nat)
  temporaryAlias : Option String
  insertBatchRows : Option Nat

def Members.none : Members := ⟨.none, .none, .none, .none⟩

/-- Read one member; a known member that was read before is refused. -/
def Members.read (m : Members) (key : String) (item : Json) : Option Members :=
  match key with
  | "date_formats" =>
    if m.datePatterns.isSome then .none
    else (texts? item).map fun v => { m with datePatterns := some v }
  | "category_fuzz" =>
    if m.categoryThreshold.isSome then .none
    else (optionalCount? item).map fun v => { m with categoryThreshold := some v }
  | "temp_alias" =>
    if m.temporaryAlias.isSome then .none
    else (text? item).map fun v => { m with temporaryAlias := some v }
  | "insert_batch_rows" =>
    if m.insertBatchRows.isSome then .none
    else (count? item).map fun v => { m with insertBatchRows := some v }
  | _ => some m

def Members.options (m : Members) : Options where
  datePatterns := m.datePatterns.getD default.datePatterns
  categoryThreshold := m.categoryThreshold.getD default.categoryThreshold
  temporaryAlias := m.temporaryAlias.getD default.temporaryAlias
  insertBatchRows := m.insertBatchRows.getD default.insertBatchRows

/-- The order of the members in a list. -/
def keys : List String := ["date_formats", "category_fuzz", "temp_alias", "insert_batch_rows"]

/-- Options from a document. -/
def ofJson? : Json → Option Options
  | .object members => do
    let m ← members.foldlM (fun (m : Members) (key, item) => do m.read (← key) item) Members.none
    return m.options
  | .list items => do
    if keys.length < items.length then .none
    else
      let m ← (keys.zip items).foldlM (fun (m : Members) (key, item) => m.read key item) Members.none
      return m.options
  | _ => .none

/-- Options from the text of a document. -/
def ofText? (s : String) : Option Options := (Json.ofText? s).bind ofJson?

end Options

end Tabular
