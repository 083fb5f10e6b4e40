-- SUMMARY: The columns that a formula reads, found on its tree.
import Tabular.Formula.Expr
import Tabular.Operation.Registry

/-!
# Dependencies

A formula depends on the columns whose names are among the tokens that it reads. Every bare token is
read, with two exceptions inside a call of `sort`: the order is no column, and is read as a column only
where the call stands inside a formula of `by`, whose tokens all count.
-/

namespace Tabular.Expr

mutual

/-- All bare tokens of a tree, from left to right. -/
def tokens : Expr → List String
  | .quoted _ => []
  | .leaf token => [token]
  | .binary _ left right => left.tokens ++ right.tokens
  | .call _ args => tokensOf args
  | .assign _ value => value.tokens

def tokensOf : List Expr → List String
  | [] => []
  | arg :: more => arg.tokens ++ tokensOf more

end

mutual

/-- The tokens that an evaluation of the tree looks up as columns. -/
def reads : Expr → List String
  | .quoted _ => []
  | .leaf token => [token]
  | .binary _ left right => left.reads ++ right.reads
  | .call name args =>
    match SpecialForm.named? name with
    | some .by => tokensOf args
    | some .sort => tokensOf args.tail
    | _ => readsOf args
  | .assign _ value => value.reads

def readsOf : List Expr → List String
  | [] => []
  | arg :: more => arg.reads ++ readsOf more

end

/-- The columns that a tree reads, each once, in the order of their names. -/
def dependencies (isColumn : String → Bool) (e : Expr) : List String :=
  ((e.reads.filter isColumn).mergeSort fun a b => decide (a ≤ b)).eraseDups

end Tabular.Expr
