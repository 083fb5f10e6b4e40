-- SUMMARY: Invariants of frames and columns are kept by evaluating formulas.
import Tabular.Proofs.Evaluation.Contract
import Tabular.Proofs.Evaluation.Ending

/-!
# Invariants of evaluation

If the operations of a backend keep an invariant of frames and one of columns, so does the evaluation of any
formula: what it gives has the invariants, and so has the frame that an assignment leaves. Grouping must keep
them whatever the reducers do, so nothing is asked of the formulas inside of `by`.
-/

namespace Tabular

variable {m : Type → Type} [Monad m] [MonadLiftT (Except Failure) m] {F C : Type}

/-- Computations judged alike in every state. -/
def Ending.progress (E : Ending m) (haccepts : ∀ failure, E.Accepts failure) : Progress m where
  State := Unit
  Later _ _ := True
  refl _ := trivial
  trans _ _ := trivial
  Holds _ x P := E.Holds x (P ())
  pure := E.pure
  bind hx hf := E.bind hx fun a ha => hf () a trivial ha
  lift h := E.lift h fun failure _ => haccepts failure
  mono hx hP := E.mono hx (hP ())

namespace Backend

/-- Invariants of frames and columns that the operations of a backend keep. -/
structure Invariant (B : Backend m F C) (E : Ending m) where
  GoodFrame : F → Prop
  GoodColumn : C → Prop
  /-- No failure is ruled out. -/
  accepts (failure : Failure) : E.Accepts failure
  any {α : Type} (x : m α) : E.Holds x fun _ => True
  column? {f : F} {name : String} {c : C} : GoodFrame f → B.column? f name = some c → GoodColumn c
  rename {c : C} (name : String) : GoodColumn c → GoodColumn (B.rename c name)
  literal (f : F) (v : Value) : E.Holds (B.literal f v) GoodColumn
  execute (f : F) (r : Resolved) (args : List C) (scope : Scope) : E.Holds (B.execute f r args scope) GoodColumn
  sort {f : F} (ascending : Bool) (keys : List String) : GoodFrame f → E.Holds (B.sort f ascending keys) GoodFrame
  group {f : F} (keys : List String) (reducers : List (Reducer m F C)) :
    GoodFrame f → E.Holds (B.group f keys reducers) GoodFrame
  globalize {f : F} {c : C} : GoodColumn c → E.Holds (B.globalize f c) GoodColumn
  append {f : F} {c : C} : GoodFrame f → GoodColumn c → E.Holds (B.append f c) GoodFrame

variable {B : Backend m F C} {E : Ending m}

namespace Invariant

/-- What a formula gives has the invariants. -/
def GoodOutcome (I : B.Invariant E) : Outcome F C → Prop
  | .frame g => I.GoodFrame g
  | .column c => I.GoodColumn c
  | .plot _ => True

/-- An invariant is a contract that every text is good for. -/
def contract (I : B.Invariant E) : B.Contract (E.progress I.accepts) where
  GoodFrame _ := I.GoodFrame
  GoodResult _ := I.GoodFrame
  GoodColumn _ := I.GoodColumn
  GoodText _ := True
  frameLater _ hf := hf
  columnLater _ hc := hc
  result hf := hf
  column? := I.column?
  rename := I.rename
  literal _ _ := I.literal _ _
  execute op scope _ _ _ := I.execute _ op _ scope
  sort := I.sort
  group keys hf _ := I.group keys _ hf
  globalize _ := I.globalize
  append := I.append
  values _ := I.any _

variable (I : B.Invariant E)

theorem goodOutcome_of_contract {o : Outcome F C} (h : I.contract.GoodOutcome () o) : I.GoodOutcome o := by
  cases o <;> exact h

variable [LawfulMonad m]

/-- Whatever a tree gives has the invariants. -/
theorem holds_eval {f w : F} (hf : I.GoodFrame f) (hw : I.GoodFrame w) (e : Expr) (scope : Scope) :
    E.Holds (B.eval e scope f w) I.GoodOutcome := by
  have he : I.contract.GoodFormula e := fun _ _ => trivial
  exact E.mono (I.contract.gives he (s := ()) hf hw) fun _ => I.goodOutcome_of_contract

/-- Evaluating a formula gives a good outcome. -/
theorem holds_evaluate {f : F} (hf : I.GoodFrame f) (text : String) :
    E.Holds (B.evaluate f text) fun r => I.GoodOutcome r.outcome :=
  E.mono (I.contract.holds_evaluate (s := ()) hf fun _ _ _ _ => trivial) fun _ => I.goodOutcome_of_contract

/-- Evaluating a formula with a target leaves a good frame, and without a target it gives a good outcome. -/
theorem holds_assign {f : F} (hf : I.GoodFrame f) (text : String) :
    E.Holds (B.assign f text) fun r =>
      I.GoodFrame r.1 ∧ ∀ result, r.2 = some result → I.GoodOutcome result.outcome := by
  refine E.mono (I.contract.holds_assign (s := ()) hf fun _ _ _ _ => trivial) fun r hr => ⟨hr.1, ?_⟩
  exact fun result hresult => I.goodOutcome_of_contract (hr.2 result hresult)

end Invariant

end Backend

end Tabular
