-- SUMMARY: The type of the column that a formula gives, found without running any operation.
import Tabular.Formula.Constant
import Tabular.Operation.Operand
import Tabular.Operation.Parameter

/-!
# Static types

The type of a formula follows from the types of the columns by resolving signatures alone. It is what
gives a grouped column its type when there are no groups to compute one from. The target of a cast must
then be a quoted text.
-/

namespace Tabular.Expr

/-- The type that a cast's second operand names. -/
def castTarget : List Expr → Except Failure DataType
  | _ :: .quoted target :: _ => Parameter.castTarget (some (.string target))
  | _ => Parameter.castTarget none

mutual

/-- The type of the column that a tree gives over columns of the types of `schema`. -/
def staticType (patterns : List String) (schema : String → Option DataType) : Expr → Except Failure DataType
  | .quoted content => .ok (Value.ofQuoted patterns content).dataType
  | .leaf token =>
    match schema token with
    | some type => .ok type
    | none =>
      match Value.ofToken? patterns token with
      | some v => .ok v.dataType
      | none => .error (.unknownColumn token)
  | .binary op left right => do
    let l ← staticType patterns schema left
    let r ← staticType patterns schema right
    let (resolved, _) ← Resolved.ofOperands op.operation [(left, l), (right, r)]
    return resolved.output
  | .call name args =>
    match SpecialForm.named? name with
    | some .global =>
      match args with
      | [inner] => staticType patterns schema inner
      | _ => .error (.arity "global" "1" args.length)
    | some _ => .error (.noColumnType (Expr.call name args).text)
    | none => do
      let types ← staticTypes patterns schema args
      let (resolved, _) ← Resolved.ofOperands name (args.zip types)
      if name = "cast" then castTarget args else return resolved.output
  | .assign name _ => .error (.strayAssignment name)

/-- The types of several trees. -/
def staticTypes (patterns : List String) (schema : String → Option DataType) :
    List Expr → Except Failure (List DataType)
  | [] => .ok []
  | arg :: more => do
    let type ← staticType patterns schema arg
    return type :: (← staticTypes patterns schema more)

end

end Tabular.Expr
