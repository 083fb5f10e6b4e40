-- SUMMARY: What conversions, comparisons and functions make of stored cells.
import Tabular.Sql.Query
import Tabular.Sql.Store.Day
import Tabular.Sql.Store.Declaration

/-!
# Functions of cells

Almost everything is null where an operand is null or the result is no number. Integers that overflow
become reals. Truth is one and falsehood zero, and null is the third truth value. A few functions are
stricter: they refuse their operand instead.
-/

namespace Tabular.Sql.Cell

/-- A result, or the refusal of the statement. -/
abbrev Outcome := Except Failure Cell

/-! ## Arithmetic -/

/-- Exact on integers that fit, and otherwise a function of floats. -/
def arithmetic (exact : Int → Int → Int) (f : Float → Float → Float) (a b : Cell) : Cell :=
  match a.number, b.number with
  | integer m, integer n =>
    match Decimal.toInt64? (exact m.toInt n.toInt) with
    | some n => integer n
    | none => ofFloat (f (Value.ofInt64 m) (Value.ofInt64 n))
  | m, n =>
    match m.float?, n.float? with
    | some x, some y => ofFloat (f x y)
    | _, _ => null

/-- Integers are divided towards zero; nothing is divided by zero. -/
def divide (a b : Cell) : Cell :=
  match a.number, b.number with
  | integer m, integer n =>
    if n = 0 then null
    else
      match Decimal.toInt64? (m.toInt.tdiv n.toInt) with
      | some n => integer n
      | none => ofFloat (Value.ofInt64 m / Value.ofInt64 n)
  | m, n =>
    match m.float?, n.float? with
    | some x, some y => if y == 0.0 then null else ofFloat (x / y)
    | _, _ => null

def negate (a : Cell) : Cell := arithmetic (· - ·) (· - ·) (integer 0) a

/-- The size of a number. The least integer has none. -/
def absolute (a : Cell) : Outcome :=
  match a with
  | null => .ok null
  | integer n => if n = Int64.minValue then .error .engine else .ok (integer (if n < 0 then -n else n))
  | real x => .ok (real (if x < 0.0 then -x else x))
  | text _ => .ok ((a.float?).elim null fun x => ofFloat x.abs)

/-- The operand of a function that accepts numbers alone. -/
def strictFloat : Cell → Except Failure Float
  | integer n => .ok (Value.ofInt64 n)
  | real x => .ok x
  | _ => .error .engine

/-! ## Text -/

def concatenate (a b : Cell) : Cell :=
  match a.toText, b.toText with
  | text s, text t => text (s ++ t)
  | _, _ => null

/-! ## Truth -/

/-- Whether a cell holds; null neither holds nor fails. -/
def truth? (a : Cell) : Option Bool := a.float?.map (· != 0.0)

def ofTruth : Option Bool → Cell
  | some b => ofBool b
  | none => null

def conjunction (a b : Cell) : Cell :=
  match a.truth?, b.truth? with
  | some false, _ | _, some false => ofBool false
  | some true, some true => ofBool true
  | _, _ => null

def disjunction (a b : Cell) : Cell :=
  match a.truth?, b.truth? with
  | some true, _ | _, some true => ofBool true
  | some false, some false => ofBool false
  | _, _ => null

/-- Whether two cells with this order pass a comparison. -/
def passes (how : Comparison) (order : Ordering) : Bool :=
  match how with
  | .eq => order == .eq
  | .ne => order != .eq
  | .ge => order != .lt
  | .gt => order == .gt
  | .le => order != .gt
  | .lt => order == .lt

/-- Nothing compares with null. -/
def compared (how : Comparison) : Cell → Cell → Cell
  | null, _ | _, null => null
  | a, b => ofBool (passes how (a.compare b))

/-! ## Dates -/

/-- The day that a cell stands for; a number is the number of a day. -/
def day? : Cell → Option Day
  | null => none
  | text s => Day.ofText? s
  | c => (c.float?.bind Day.momentOfNumber?).bind Day.ofMoment?

/-- The text of a day. -/
def dateText (a : Cell) : Cell := (a.day?).elim null fun d => text (d.text ['-'])

/-- The digits of a day. -/
def dateCode (a : Cell) : Cell := (a.day?).elim null fun d => text (d.text [])

/-- A number with zeros in front, up to a width that counts the sign. -/
def zeroPadded (width : Nat) (n : Int) : List Char :=
  if n < 0 then '-' :: Date.padded (width - 1) n.natAbs else Date.padded width n.natAbs

/-- The date text of a number YYYYMMDD, whether or not there is such a day. -/
def codeText (n : Int) : String :=
  String.ofList (zeroPadded 4 (n.tdiv 10000) ++ '-' :: zeroPadded 2 ((n.tdiv 100).tmod 100) ++
    '-' :: zeroPadded 2 (n.tmod 100))

/-- Null counts as zero. -/
def fromDateCode (a : Cell) : Cell :=
  match a.toInteger with
  | integer n => text (codeText n.toInt)
  | _ => text (codeText 0)

/-! ## Terms -/

def cast (target : ColumnType) (a : Cell) : Cell :=
  match target with
  | .integer => a.toInteger
  | .float => a.toReal
  | .string => a.toText
  | .date => a.asNumeric

def convert (how : Conversion) (a : Cell) : Cell :=
  match how with
  | .same => a
  | .cast target => a.cast target
  | .parseDate => a.dateText
  | .dateCode target => a.dateCode.cast target
  | .fromDateCode => a.fromDateCode

/-- Whether a function takes so many operands. -/
def takes (f : Function) (operands : Nat) : Bool :=
  match f with
  | .concat => 2 ≤ operands
  | .add | .subtract | .multiply | .divide | .and | .or | .pow => operands == 2
  | _ => operands == 1

/-- A function of the cells of one row. -/
def apply (f : Function) (cells : List Cell) : Outcome :=
  match f, cells with
  | .add, [a, b] => .ok (arithmetic (· + ·) (· + ·) a b)
  | .subtract, [a, b] => .ok (arithmetic (· - ·) (· - ·) a b)
  | .multiply, [a, b] => .ok (arithmetic (· * ·) (· * ·) a b)
  | .divide, [a, b] => .ok (divide a b)
  | .concat, a :: more => .ok (more.foldl concatenate a.toText)
  | .and, [a, b] => .ok (conjunction a b)
  | .or, [a, b] => .ok (disjunction a b)
  | .not, [a] => .ok (ofTruth (a.truth?.map (!·)))
  | .negate, [a] => .ok (negate a)
  | .abs, [a] => absolute a
  | .exp, [a] => do return ofFloat (← strictFloat a).exp
  | .log, [a] => do
    let x ← strictFloat a
    return if 0.0 < x then ofFloat x.log else null
  | .sqrt, [a] => do
    let x ← strictFloat a
    return if 0.0 ≤ x then ofFloat x.sqrt else null
  | .pow, [a, b] => do return ofFloat ((← strictFloat a).pow (← strictFloat b))
  | _, _ => .error .engine

end Tabular.Sql.Cell
