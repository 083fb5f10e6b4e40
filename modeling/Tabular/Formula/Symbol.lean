-- SUMMARY: The operator symbols of formulas: their spelling, their operations and their precedence levels.
/-!
# Operator symbols

Thirteen symbols are binary operators. Their precedence levels run from loosest to tightest; the table
is this library's own, with sums loosest and comparisons tightest. `+`, `-` and `!` may also stand in
front of an operand, and `!` only there.
-/

namespace Tabular

inductive BinaryOp where
  | add
  | subtract
  | multiply
  | divide
  | pow
  | or
  | and
  | eq
  | ne
  | ge
  | gt
  | le
  | lt
  deriving DecidableEq, Repr

namespace BinaryOp

/-- The operation that carries the operator out. -/
def operation : BinaryOp → String
  | add => "add"
  | subtract => "subtract"
  | multiply => "multiply"
  | divide => "divide"
  | pow => "pow"
  | or => "or"
  | and => "and"
  | eq => "eq"
  | ne => "ne"
  | ge => "ge"
  | gt => "gt"
  | le => "le"
  | lt => "lt"

/-- The spelling of the operator. -/
def spelling : BinaryOp → List Char
  | add => ['+']
  | subtract => ['-']
  | multiply => ['*']
  | divide => ['/']
  | pow => ['^']
  | or => ['|', '|']
  | and => ['&', '&']
  | eq => ['=', '=']
  | ne => ['!', '=']
  | ge => ['>', '=']
  | gt => ['>']
  | le => ['<', '=']
  | lt => ['<']

/-- How tightly the operator binds. -/
def level : BinaryOp → Nat
  | add | subtract => 0
  | multiply | divide => 1
  | pow => 2
  | or => 3
  | and => 4
  | eq | ne | ge | gt | le | lt => 5

/-- The levels from loosest to tightest. -/
def levels : List Nat := [0, 1, 2, 3, 4, 5]

end BinaryOp

/-- A symbol as it is met in a text. -/
inductive Symbol where
  | binary (op : BinaryOp)
  | bang
  deriving DecidableEq, Repr

namespace Symbol

def spelling : Symbol → List Char
  | binary op => op.spelling
  | bang => ['!']

/-- Whether the symbol may stand in front of an operand. -/
def mayLead : Symbol → Bool
  | binary .add | binary .subtract | bang => true
  | _ => false

/-- Whether the symbol can be the sign of an exponent. -/
def isSign : Symbol → Bool
  | binary .add | binary .subtract => true
  | _ => false

/-- The symbol that a text begins with; one of two characters wins over one of one. -/
def atStart? : List Char → Option Symbol
  | '=' :: '=' :: _ => some (binary .eq)
  | '!' :: '=' :: _ => some (binary .ne)
  | '>' :: '=' :: _ => some (binary .ge)
  | '<' :: '=' :: _ => some (binary .le)
  | '&' :: '&' :: _ => some (binary .and)
  | '|' :: '|' :: _ => some (binary .or)
  | '>' :: _ => some (binary .gt)
  | '<' :: _ => some (binary .lt)
  | '+' :: _ => some (binary .add)
  | '-' :: _ => some (binary .subtract)
  | '*' :: _ => some (binary .multiply)
  | '/' :: _ => some (binary .divide)
  | '^' :: _ => some (binary .pow)
  | '!' :: _ => some bang
  | _ => none

theorem spelling_ne_nil (symbol : Symbol) : symbol.spelling ≠ [] := by
  cases symbol with
  | binary op => cases op <;> simp [spelling, BinaryOp.spelling]
  | bang => simp [spelling]

/-- A text begins with the spelling of the symbol found at its start. -/
theorem spelling_append_of_atStart? {text : List Char} {symbol : Symbol}
    (h : atStart? text = some symbol) : ∃ rest, text = symbol.spelling ++ rest := by
  unfold atStart? at h
  split at h <;> simp_all <;> subst h <;> simp [spelling, BinaryOp.spelling]

end Symbol

end Tabular
