-- SUMMARY: Days and times in the texts that SQL takes for dates.
import Tabular.Date.Pattern
import Tabular.Sql.Store.Cell

/-!
# Days of SQL

The date functions of SQL count moments in milliseconds from noon of the day 0, a day in November of the year
-4713. A text is a date, a date with a time, a time of one fixed day, or the number of a day. A day after the
end of its month runs on into the next one. Moments before the first one or after the year 9999 are no dates.
-/

namespace Tabular.Sql

structure Day where
  year : Int
  month : Nat
  day : Nat
  deriving DecidableEq, Repr

namespace Day

/-! ## Numbers of days -/

/-- The number of the first of March of the year 0, from which leap years are counted. -/
def marchZero : Int := 1721120

/-- The number of a day. Years begin in March, so that a leap day is the last of its year. -/
def number (d : Day) : Int :=
  let year := if d.month ≤ 2 then d.year - 1 else d.year
  let month := (d.month + 9) % 12
  marchZero + 365 * year + year.fdiv 4 - year.fdiv 100 + year.fdiv 400 + ((153 * month + 2) / 5 : Nat) + d.day - 1

/-- The day of a number. Calendars repeat after 400 years. -/
def ofNumber (n : Int) : Day :=
  let era := (n - marchZero).fdiv 146097
  let inEra := (n - marchZero - era * 146097).toNat
  let yearOfEra := (inEra - inEra / 1460 + inEra / 36524 - inEra / 146096) / 365
  let inYear := inEra - (365 * yearOfEra + yearOfEra / 4 - yearOfEra / 100)
  let month := (5 * inYear + 2) / 153
  { year := yearOfEra + era * 400 + (if month < 10 then 0 else 1)
    month := if month < 10 then month + 3 else month - 9
    day := inYear - (153 * month + 2) / 5 + 1 }

/-! ## Moments -/

def dayLength : Int := 86400000

/-- The moment at which a day begins. -/
def start (d : Day) : Int := d.number * dayLength - 43200000

/-- The last moment of the year 9999. -/
def lastMoment : Int := 464269060799999

/-- The day of a moment. -/
def ofMoment? (moment : Int) : Option Day :=
  if 0 ≤ moment ∧ moment ≤ lastMoment then some (ofNumber ((moment + 43200000).fdiv dayLength)) else none

/-- The moment of the number of a day, with a fraction. -/
def momentOfNumber? (x : Float) : Option Int :=
  if 0.0 ≤ x && x < 5373484.5 then some (Decimal.truncate (x * 86400000.0 + 0.5)) else none

/-! ## Text -/

/-- A number of so many digits, between bounds, and what follows it. -/
def digits? (width low high : Nat) (s : List Char) : Option (Nat × List Char) := do
  let digits := s.take width
  let n ← if digits.length = width then Decimal.natural? digits else none
  if low ≤ n ∧ n ≤ high then some (n, s.drop width) else none

/-- What follows a character. -/
def after? (c : Char) (s : List Char) : Option (List Char) :=
  if s.head? = some c then some (s.drop 1) else none

def skipBlanks (s : List Char) : List Char := s.dropWhile Cell.isBlank

/-- Two numbers with a colon between them. -/
def clock? (hours : Nat) (s : List Char) : Option (Nat × List Char) := do
  let (hour, s) ← digits? 2 0 hours s
  let (minute, s) ← digits? 2 0 59 (← after? ':' s)
  return (60 * hour + minute, s)

/-- A time zone to the end of the text, in minutes. -/
def zone? (s : List Char) : Option Int :=
  let rest? (minutes : Int) (s : List Char) : Option Int := if (skipBlanks s).isEmpty then some minutes else none
  match skipBlanks s with
  | [] => some 0
  | '-' :: s => (clock? 14 s).bind fun (n, s) => rest? (-n) s
  | '+' :: s => (clock? 14 s).bind fun (n, s) => rest? n s
  | c :: s => if c == 'Z' || c == 'z' then rest? 0 s else none

/-- Seconds with a fraction, in milliseconds and rounded. -/
def seconds? (s : List Char) : Option (Nat × List Char) := do
  let (n, s) ← digits? 2 0 59 s
  match s with
  | '.' :: s =>
    let fraction := s.takeWhile Char.isDigit
    if fraction.isEmpty then some (1000 * n, '.' :: s)
    else
      let unit := Decimal.tenTo fraction.length
      let rounded := (2000 * Decimal.digitsValue fraction + unit) / (2 * unit)
      some (1000 * n + rounded, s.dropWhile Char.isDigit)
  | s => some (1000 * n, s)

/-- A time to the end of the text, in milliseconds from the beginning of the day. -/
def time? (s : List Char) : Option Int := do
  let (minutes, s) ← clock? 24 s
  let (rest, s) ← match s with
    | ':' :: s => seconds? s
    | s => some (0, s)
  let zone ← zone? s
  return 60000 * ((minutes : Int) - zone) + rest

/-- A date of four, two and two digits, perhaps of a negative year, and what follows it. -/
def date? (s : List Char) : Option (Day × List Char) := do
  let (negative, s) := match s with
    | '-' :: s => (true, s)
    | s => (false, s)
  let (year, s) ← digits? 4 0 9999 s
  let (month, s) ← digits? 2 1 12 (← after? '-' s)
  let (day, s) ← digits? 2 1 31 (← after? '-' s)
  return (⟨if negative then -(year : Int) else year, month, day⟩, s)

/-- The moment of a date, perhaps with a time. -/
def dated? (s : List Char) : Option Int := do
  let (day, s) ← date? s
  let s := s.dropWhile fun c => Cell.isBlank c || c == 'T'
  if s.isEmpty then some day.start else (time? s).map (day.start + ·)

/-- The day of a time that stands alone. -/
def timeDay : Day := ⟨2000, 1, 1⟩

/-- The moment of the number that a whole text is. -/
def numbered? (s : List Char) : Option Int := do
  momentOfNumber? (← (← Cell.wholeNumber? (String.ofList s)).float?)

/-- The day that a text stands for. -/
def ofText? (s : String) : Option Day :=
  let moment := dated? s.toList <|> (time? s.toList).map (timeDay.start + ·) <|> numbered? s.toList
  moment.bind ofMoment?

/-- Year, month and day with something between them. -/
def text (d : Day) (between : List Char) : String :=
  String.ofList (Date.yearText d.year ++ between ++ Date.padded 2 d.month ++ between ++ Date.padded 2 d.day)

end Day

end Tabular.Sql
