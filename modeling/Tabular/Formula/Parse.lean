-- SUMMARY: Reading formula text as a tree.
import Tabular.Formula.Expr
import Tabular.Formula.Shape

/-!
# Reading formulas

`Expr.parse` reads a text by its shape and then the texts inside. Operators of one level group to the
left. A leading `+` is dropped, a leading `-` calls `negate` and a leading `!` calls `not`.
`Formula.parse` also takes an assignment in front. Which names may be called is a parameter.
-/

namespace Tabular

/-- What a leading symbol makes of its operand. -/
def Symbol.applyTo (symbol : Symbol) (operand : Expr) : Expr :=
  match symbol with
  | .binary .add => operand
  | .binary .subtract => .call "negate" [operand]
  | _ => .call "not" [operand]

/-- Give a value its target. -/
def Expr.assignTo (target : Option String) (value : Expr) : Expr :=
  match target with
  | none => value
  | some name => .assign name value

namespace Expr

/-- Read a text as a tree. -/
def parse (isFunction : String → Bool) (input : List Char) : Except FormulaFault Expr :=
  match _h : Shape.ofText isFunction input with
  | .error fault => .error fault
  | .ok (.binary c) => do
    let first ← parse isFunction c.first
    let links ← c.links.attach.mapM fun ⟨link, _hmem⟩ => do
      return (link.1, ← parse isFunction link.2)
    return links.foldl (fun left (op, right) => .binary op left right) first
  | .ok (.signs symbols operand) => do
    return symbols.foldr Symbol.applyTo (← parse isFunction operand)
  | .ok (.call name args) => do
    let trees ← args.attach.mapM fun ⟨arg, _hmem⟩ =>
      match _heq : arg with
      | .error fault => .error fault
      | .ok (target, body) => do return (← parse isFunction body).assignTo target
    return .call name trees
  | .ok (.quoted content) => .ok (.quoted content)
  | .ok (.leaf token) => .ok (.leaf token)
termination_by input.length
decreasing_by
  · exact (Shape.within_ofText _h).1
  · exact (Shape.within_ofText _h).2 link _hmem
  · exact Shape.within_ofText _h
  · exact Shape.within_ofText _h target body (_heq ▸ _hmem)

end Expr

/-- Read a text as a formula. -/
def Formula.parse (isFunction : String → Bool) (input : String) : Except FormulaFault Formula := do
  let text := input.toList
  Shape.checkBalance text
  let (target, body) ← Assignable.ofText text
  return { target, expr := ← Expr.parse isFunction body }

end Tabular
