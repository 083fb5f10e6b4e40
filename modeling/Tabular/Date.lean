-- SUMMARY: Civil dates: validity, order, and the number YYYYMMDD that stands for a date.
/-!
# Dates

A date of the civil calendar, extended to negative years. Years run from -262143 to 262142. A date
also has a code, the number `year * 10000 + month * 100 + day`, which is how dates are cast to and from
numbers.
-/

namespace Tabular

namespace Date

def minYear : Int := -262143
def maxYear : Int := 262142

def isLeapYear (year : Int) : Bool := year % 4 == 0 && (year % 100 != 0 || year % 400 == 0)

/-- The number of days in a month; none in a month that does not exist. -/
def monthLength (year : Int) (month : Nat) : Nat :=
  match month with
  | 1 | 3 | 5 | 7 | 8 | 10 | 12 => 31
  | 4 | 6 | 9 | 11 => 30
  | 2 => if isLeapYear year then 29 else 28
  | _ => 0

/-- Whether the three numbers name a day of the calendar. -/
def isCivil (year : Int) (month day : Nat) : Bool :=
  minYear ≤ year && year ≤ maxYear && 1 ≤ day && day ≤ monthLength year month

end Date

/-- A day of the calendar. -/
structure Date where
  year : Int
  month : Nat
  day : Nat
  civil : Date.isCivil year month day = true
  deriving DecidableEq, Repr

namespace Date

/-- The date named by the three numbers, if there is one. -/
def ofCivil? (year : Int) (month day : Nat) : Option Date :=
  if h : isCivil year month day = true then some ⟨year, month, day, h⟩ else none

/-- Years first, then months, then days. -/
def compare (a b : Date) : Ordering :=
  (Ord.compare a.year b.year).then ((Ord.compare a.month b.month).then (Ord.compare a.day b.day))

/-! ## Codes -/

/-- The number YYYYMMDD. Month and day are added, also to a negative year. -/
def toCode (d : Date) : Int := d.year * 10000 + d.month * 100 + d.day

/-- Read a number as YYYYMMDD: the quotients and remainders are taken towards zero, so a negative
    number has no month. -/
def ofCode? (code : Int) : Option Date :=
  let month := (code.tdiv 100).tmod 100
  let day := code.tmod 100
  if month < 0 || day < 0 then none
  else ofCivil? (code.tdiv 10000) month.toNat day.toNat

end Date

end Tabular
