-- SUMMARY: Reading dates by patterns with year, month and day fields, and their ISO text.
import Tabular.Date
import Tabular.Text.Blank
import Tabular.Decimal.Reading

/-!
# Date patterns

A pattern is a text with fields: `%Y` a year, `%m` a month, `%d` a day, `%y` a year of two digits and
`%%` a percent sign; a character outside of fields stands for itself. Blanks before a number are skipped.
`%m`, `%d` and `%y` take one or two digits and `%Y` one to four, or any number of them behind a sign. The
whole text must be used, a field that occurs twice must agree with itself, and the fields must name a date.

Readers of dates know more patterns than these. Names of months, days of the week or of the year, times and
the short forms of several fields are not read here: a pattern with such a field reads no text at all. Nor
is a blank in a pattern more than a character, so it stands for that one blank, not for a run of blanks.
-/

namespace Tabular.Date

/-! ## Text -/

/-- `n` with at least `width` digits. -/
def padded (width n : Nat) : List Char :=
  let digits := Nat.toDigits 10 n
  List.replicate (width - digits.length) '0' ++ digits

/-- A year in four digits; outside 0 to 9999 with its sign and at least four digits. -/
def yearText (year : Int) : List Char :=
  if 0 ≤ year ∧ year ≤ 9999 then padded 4 year.natAbs
  else (if year < 0 then '-' else '+') :: padded 4 year.natAbs

/-- Year, month and day with hyphens. -/
def text (d : Date) : String :=
  String.ofList (yearText d.year ++ '-' :: padded 2 d.month ++ '-' :: padded 2 d.day)

/-! ## Patterns -/

inductive Item where
  | year
  | month
  | day
  | shortYear
  | literal (c : Char)
  /-- A percent sign before anything else, also before the fields that are left out: no text matches it. -/
  | unknown
  deriving DecidableEq, Repr

/-- The items of a pattern. -/
def items : List Char → List Item
  | '%' :: c :: rest =>
    let item := match c with
      | 'Y' => Item.year
      | 'm' => Item.month
      | 'd' => Item.day
      | 'y' => Item.shortYear
      | '%' => Item.literal '%'
      | _ => Item.unknown
    item :: items rest
  | ['%'] => [Item.unknown]
  | c :: rest => Item.literal c :: items rest
  | [] => []

/-- What the fields have said so far. -/
structure Fields where
  year : Option Int
  month : Option Nat
  day : Option Nat
  shortYear : Option Nat
  deriving DecidableEq, Repr

/-- Set a field; one that is set already must agree. -/
def agree {α : Type} [DecidableEq α] (field : Option α) (value : α) : Option (Option α) :=
  match field with
  | none => some (some value)
  | some old => if old = value then some field else none

/-- One to `width` digits after blanks, and what follows them. -/
def digits? (width : Nat) (s : List Char) : Option (Nat × List Char) :=
  let run := (s.takeWhile Char.isDigit).take width
  if run.isEmpty then none else some (Decimal.digitsValue run, s.drop run.length)

/-- A year: behind a sign all digits belong to it, otherwise at most four. -/
def year? (s : List Char) : Option (Int × List Char) :=
  match s with
  | '-' :: rest => (digits? rest.length rest).map fun (n, t) => (-(n : Int), t)
  | '+' :: rest => (digits? rest.length rest).map fun (n, t) => ((n : Int), t)
  | s => (digits? 4 s).map fun (n, t) => ((n : Int), t)

/-- Read one item. -/
def readItem (item : Item) (fields : Fields) (s : List Char) : Option (Fields × List Char) := do
  match item with
  | .year =>
    let (n, rest) ← year? (Text.trimStart s)
    return ({ fields with year := ← agree fields.year n }, rest)
  | .month =>
    let (n, rest) ← digits? 2 (Text.trimStart s)
    return ({ fields with month := ← agree fields.month n }, rest)
  | .day =>
    let (n, rest) ← digits? 2 (Text.trimStart s)
    return ({ fields with day := ← agree fields.day n }, rest)
  | .shortYear =>
    let (n, rest) ← digits? 2 (Text.trimStart s)
    return ({ fields with shortYear := ← agree fields.shortYear n }, rest)
  | .literal c =>
    match s with
    | d :: rest => if c = d then some (fields, rest) else none
    | [] => none
  | .unknown => none

/-- Read all items; nothing may be left. -/
def readItems : List Item → Fields → List Char → Option Fields
  | [], fields, s => if s.isEmpty then some fields else none
  | item :: more, fields, s => do
    let (fields, rest) ← readItem item fields s
    readItems more fields rest

/-- The year that the two year fields name together. A year of two digits is in 1970 to 2069; beside a
    full year it must be its last two digits, and then the full year is not negative. -/
def Fields.fullYear? (f : Fields) : Option Int :=
  match f.year, f.shortYear with
  | some y, none => some y
  | some y, some s => if 0 ≤ y ∧ y % 100 = s then some y else none
  | none, some s => some (if s < 70 then 2000 + s else 1900 + s)
  | none, none => none

def Fields.date? (f : Fields) : Option Date := do
  ofCivil? (← f.fullYear?) (← f.month) (← f.day)

/-- Read `s`, trimmed, by a pattern of the fields above. -/
def ofPattern? (pattern s : String) : Option Date :=
  (readItems (items pattern.toList) ⟨none, none, none, none⟩ (Text.trim s.toList)).bind Fields.date?

/-- The patterns tried when none are configured. -/
def defaultPatterns : List String := ["%Y-%m-%d", "%Y/%m/%d", "%m/%d/%Y"]

/-- Read `s` by the first pattern that fits. -/
def ofPatterns? (patterns : List String) (s : String) : Option Date :=
  patterns.findSome? (ofPattern? · s)

end Tabular.Date
