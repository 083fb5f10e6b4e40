-- SUMMARY: Resolving an operation over formula operands, where quoted dates may be read again as text.
import Tabular.Formula.Expr
import Tabular.Operation.Registry

/-!
# Operands

A quoted text that looks like a date is a date until an operation has no signature for it. Then all such
operands are taken as the texts they are, and the operation is resolved once more. If that fails too, the
first failure stands.
-/

namespace Tabular.Resolved

/-- Whether an operand is a quoted text that was read as a date. -/
def isQuotedDate : Expr → DataType → Bool
  | .quoted _, .date => true
  | _, _ => false

/-- The types of operands when quoted dates are taken as text. -/
def textTypes (operands : List (Expr × DataType)) : List DataType :=
  operands.map fun (operand, type) => if isQuotedDate operand type then .string else type

/-- Resolve a name over operands and their types; the flag tells whether quoted dates are taken as text. -/
def ofOperands (name : String) (operands : List (Expr × DataType)) : Except Failure (Resolved × Bool) :=
  match Resolved.of name (operands.map (·.2)) with
  | .ok resolved => .ok (resolved, false)
  | .error (.noSignature operation types) =>
    if operands.any fun (operand, type) => isQuotedDate operand type then
      match Resolved.of name (textTypes operands) with
      | .ok resolved => .ok (resolved, true)
      | .error _ => .error (.noSignature operation types)
    else .error (.noSignature operation types)
  | .error failure => .error failure

end Tabular.Resolved
