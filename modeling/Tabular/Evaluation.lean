-- SUMMARY: Evaluating formulas over the frames of a backend.
import Tabular.Evaluation.Backend
import Tabular.Formula.Constant
import Tabular.Formula.Dependency
import Tabular.Operation.Operand

/-!
# Evaluation

A tree is evaluated against two frames: the one whose columns its tokens name, and the whole frame that
`global` turns to. Outside of `by` they are one. Operands are evaluated from left to right, and the first
failure ends the evaluation.

`Backend.evaluate` reads a formula and gives its value; `Backend.assign` also adds the value of a formula
with a target to the frame.
-/

namespace Tabular.Backend

variable {m : Type → Type} [Monad m] [MonadLiftT (Except Failure) m] {F C : Type}

/-- Give up. -/
def fail {α : Type} (failure : Failure) : m α := liftM (Except.error failure : Except Failure α)

/-! ## Parts of a formula -/

/-- The column that a tree gave, if it gave one. -/
def asColumn (e : Expr) : Outcome F C → m C
  | .column column => pure column
  | .frame _ => fail (.notColumn e.text .dataframe)
  | .plot _ => fail (.notColumn e.text .plot)

/-- A bare token: a column of the frame, or a constant. -/
def token (B : Backend m F C) (frame : F) (token : String) : m C :=
  match B.column? frame token with
  | some column => pure column
  | none =>
    match Value.ofToken? (B.options frame).datePatterns token with
    | some v => B.literal frame v
    | none => fail (.unknownColumn token)

/-- A key of `by` or `sort`: the name of a column. -/
def key (B : Backend m F C) (frame : F) (form : String) : Expr → m String
  | .leaf name =>
    if (B.column? frame name).isSome then pure name else fail (.unknownColumn name)
  | e => fail (.keyExpected form e.text)

/-- Whether a sort order is ascending. -/
def ascending : Expr → m Bool
  | .quoted order | .leaf order =>
    match String.ofList (order.toList.map Char.toLower) with
    | "asc" => pure true
    | "desc" => pure false
    | _ => fail (.sortOrder (Text.escaped order))
  | e => fail (.sortOrder e.text)

/-- Take quoted dates as the texts they are. -/
def reread (B : Backend m F C) (frame : F) (operands : List (Expr × C)) : m (List C) :=
  operands.mapM fun (operand, column) =>
    match operand, B.dataType column with
    | .quoted content, .date => B.literal frame (.string content)
    | _, _ => pure column

/-- Run an operation over operands. The column is named by the text of the formula `e`. -/
def apply (B : Backend m F C) (frame : F) (scope : Scope) (e : Expr) (name : String)
    (operands : List (Expr × C)) : m C := do
  let typed := operands.map fun (operand, column) => (operand, B.dataType column)
  let (resolved, asText) ← liftM (Resolved.ofOperands name typed)
  let columns ← if asText then B.reread frame operands else pure (operands.map (·.2))
  return B.rename (← B.execute frame resolved columns scope) e.text

/-! ## Trees -/

mutual

/-- Evaluate a tree over a frame, with the whole frame at hand. -/
def eval (B : Backend m F C) : Expr → Scope → F → F → m (Outcome F C)
  | .quoted content, _, frame, _ => do
    return .column (← B.literal frame (Value.ofQuoted (B.options frame).datePatterns content))
  | .leaf name, _, frame, _ => do return .column (← B.token frame name)
  | .binary op left right, scope, frame, whole => do
    let l ← asColumn left (← eval B left scope frame whole)
    let r ← asColumn right (← eval B right scope frame whole)
    return .column (← B.apply frame scope (.binary op left right) op.operation [(left, l), (right, r)])
  | .call name args, scope, frame, whole =>
    match SpecialForm.named? name with
    | some .by => do
      let (keys, reducers) ← groupArguments B args frame
      if keys.isEmpty then fail .keysMissing
      return .frame (← B.group frame keys reducers)
    | some .global =>
      match args with
      | [inner] => do
        let column ← asColumn inner (← eval B inner .groups whole whole)
        return .column (B.rename (← B.globalize whole column) (Expr.call name args).text)
      | _ => fail (.arity "global" "1" args.length)
    | some .sort =>
      match args with
      | order :: first :: more => do
        let ascending ← ascending order
        let keys ← (first :: more).mapM (B.key frame "sort")
        return .frame (← B.sort frame ascending keys)
      | _ => fail (.arity "sort" "at least 2" args.length)
    | some .plot =>
      match args with
      | [x, y] => do
        let xs ← asColumn x (← eval B x scope frame whole)
        let ys ← asColumn y (← eval B y scope frame whole)
        return .plot ⟨B.name xs, B.name ys, ← B.values xs, ← B.values ys⟩
      | _ => fail (.arity "plot" "2" args.length)
    | none => do
      let columns ← evalColumns B args scope frame whole
      return .column (← B.apply frame scope (.call name args) name (args.zip columns))
  | .assign name _, _, _, _ => fail (.strayAssignment name)

/-- Evaluate trees that must give columns. -/
def evalColumns (B : Backend m F C) : List Expr → Scope → F → F → m (List C)
  | [], _, _, _ => pure []
  | arg :: more, scope, frame, whole => do
    let column ← asColumn arg (← eval B arg scope frame whole)
    return column :: (← evalColumns B more scope frame whole)

/-- The arguments of `by`: assignments are formulas to reduce, all others are keys. -/
def groupArguments (B : Backend m F C) : List Expr → F → m (List String × List (Reducer m F C))
  | [], _ => pure ([], [])
  | .assign name value :: more, frame => do
    let (keys, reducers) ← groupArguments B more frame
    let run (group whole : F) : m C := do asColumn value (← eval B value .groups group whole)
    return (keys, ⟨name, value, run⟩ :: reducers)
  | arg :: more, frame => do
    let key ← B.key frame "by" arg
    let (keys, reducers) ← groupArguments B more frame
    return (key :: keys, reducers)

end

/-! ## Formulas -/

/-- Evaluate a tree over a frame, and find what it depends on. -/
def run (B : Backend m F C) (frame : F) (e : Expr) : m (Evaluated F C) := do
  let outcome ← B.eval e .rows frame frame
  return { outcome, dependencies := e.dependencies fun name => (B.column? frame name).isSome }

/-- Rename the column of an outcome. -/
def renameOutcome (B : Backend m F C) (target : Option String) : Outcome F C → Outcome F C
  | .column column => .column ((target.map (B.rename column)).getD column)
  | outcome => outcome

/-- Evaluate a formula. A target only renames the column. -/
def evaluate (B : Backend m F C) (frame : F) (text : String) : m (Evaluated F C) := do
  let formula ← liftM (Formula.ofText text)
  let result ← B.run frame formula.expr
  return { result with outcome := B.renameOutcome formula.target result.outcome }

/-- Evaluate a formula; with a target, the column is added to the frame under that name. Gives the frame
    and, if nothing was added, the value. -/
def assign (B : Backend m F C) (frame : F) (text : String) : m (F × Option (Evaluated F C)) := do
  let formula ← liftM (Formula.ofText text)
  let result ← B.run frame formula.expr
  match formula.target with
  | none => return (frame, some result)
  | some name =>
    match result.outcome with
    | .column column => return (← B.append frame (B.rename column name), none)
    | _ => fail (.notAssignable name)

end Tabular.Backend
