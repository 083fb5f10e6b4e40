-- SUMMARY: By what a formula groups, and what is known of the frames that formulas give.
import Tabular.Proofs.Evaluation.Outcome

/-!
# Formulas that group

A formula gives a frame only if it is a call of `sort` or `by`, so what sorting and grouping promise is promised of
every frame that a formula gives.
-/

namespace Tabular

/-- The keys that a tree groups by, if it does. -/
def Expr.groupedBy : Expr → Option (List String)
  | .call name args => if name = "by" then some (Backend.keysOf args) else none
  | _ => none

/-- The keys that a tree groups by and the formulas over the groups, if it groups. -/
def Expr.grouping : Expr → Option (List String × List (String × Expr))
  | .call name args => if name = "by" then some (Backend.keysOf args, Backend.reductions args) else none
  | _ => none

theorem Expr.groupedBy_eq (e : Expr) : e.groupedBy = e.grouping.map Prod.fst := by
  cases e with
  | call name args => by_cases h : name = "by" <;> simp [groupedBy, grouping, h]
  | _ => rfl

namespace Backend

variable {m : Type → Type} [Monad m] [MonadLiftT (Except Failure) m] {F C : Type} {B : Backend m F C} {E : Ending m}

section Frames

variable (haccepts : ∀ failure, E.Accepts failure) (any : ∀ {α : Type} (x : m α), E.Holds x fun _ => True) {f w : F}
  {P : Option (List String × List (String × Expr)) → F → Prop}
  (hsort : ∀ ascending keys, E.Holds (B.sort f ascending keys) (P none))
  (hgroup : ∀ keys formulas, E.Holds (B.group f keys (formulas.map B.reducer)) (P (some (keys, formulas))))

include haccepts any hsort hgroup

/-- A frame that is given is sorted, or grouped by what the tree groups by. -/
theorem holds_frame (e : Expr) (scope : Scope) :
    E.Holds (B.eval e scope f w) fun o => ∀ g, o = .frame g → P e.grouping g := by
  cases e with
  | quoted content =>
    rw [eval]
    exact E.bind (any _) fun c _ => E.pure (by simp)
  | leaf name =>
    rw [eval]
    exact E.bind (any _) fun c _ => E.pure (by simp)
  | binary op left right =>
    rw [eval]
    refine E.bind (any _) fun _ _ => E.bind (any _) fun _ _ => E.bind (any _) fun _ _ => ?_
    exact E.bind (any _) fun _ _ => E.bind (any _) fun _ _ => E.pure (by simp)
  | call name args =>
    unfold eval
    cases hform : SpecialForm.named? name with
    | none => exact E.bind (any _) fun _ _ => E.bind (any _) fun _ _ => E.pure (by simp)
    | some form =>
      obtain rfl := SpecialForm.eq_name_of_named? hform
      cases form with
      | «by» =>
        refine E.bind (holds_groupArguments haccepts args f) fun parts hparts => ?_
        dsimp only
        split
        · exact E.bind (Q := fun _ => False) (holds_fail_any haccepts _ _) fun _ hfalse => hfalse.elim
        · subst hparts
          refine E.bind (hgroup (keysOf args) (reductions args)) fun g hg => E.pure fun g' heq => ?_
          obtain rfl := Outcome.frame.inj heq
          exact hg
      | sort =>
        dsimp only
        split
        · refine E.bind (any _) fun _ _ => E.bind (any _) fun _ _ => ?_
          refine E.bind (hsort _ _) fun g hg => E.pure fun g' heq => ?_
          obtain rfl := Outcome.frame.inj heq
          exact hg
        · exact holds_fail_any haccepts _ _
      -- The other special forms give no frames.
      | global =>
        dsimp only
        split
        · refine E.bind (any _) fun _ _ => E.bind (any _) fun _ _ => ?_
          exact E.bind (any _) fun _ _ => E.pure (by simp)
        · exact holds_fail_any haccepts _ _
      | plot =>
        dsimp only
        split
        · refine E.bind (any _) fun _ _ => E.bind (any _) fun _ _ => E.bind (any _) fun _ _ => ?_
          refine E.bind (any _) fun _ _ => E.bind (any _) fun _ _ => E.bind (any _) fun _ _ => E.pure (by simp)
        · exact holds_fail_any haccepts _ _
  | assign name value =>
    rw [eval]
    exact holds_fail_any haccepts _ _

end Frames

section Texts

variable (haccepts : ∀ failure, E.Accepts failure) (any : ∀ {α : Type} (x : m α), E.Holds x fun _ => True) {f : F}
  {P : Option (List String × List (String × Expr)) → F → Prop}
  (hsort : ∀ ascending keys, E.Holds (B.sort f ascending keys) (P none))
  (hgroup : ∀ keys formulas, E.Holds (B.group f keys (formulas.map B.reducer)) (P (some (keys, formulas))))

include haccepts any hsort hgroup

theorem holds_run_frame (e : Expr) :
    E.Holds (B.run f e) fun r => ∀ g, r.outcome = .frame g → P e.grouping g :=
  E.bind (holds_frame haccepts any hsort hgroup e .rows) fun _ ho => E.pure ho

theorem holds_evaluate_frame (text : String) :
    E.Holds (B.evaluate f text) fun r =>
      ∀ g formula, r.outcome = .frame g → Formula.ofText text = .ok formula → P formula.expr.grouping g := by
  unfold evaluate
  refine E.bind (E.lift (fun _ => id) fun failure _ => haccepts failure) fun formula hformula => ?_
  refine E.bind (holds_run_frame haccepts any hsort hgroup formula.expr) fun r hr => E.pure ?_
  intro g read hg hread
  obtain rfl := Except.ok.inj (hformula.symm.trans hread)
  refine hr g ?_
  unfold renameOutcome at hg
  cases houtcome : r.outcome with
  | frame g' => rwa [houtcome] at hg
  | column c =>
    rw [houtcome] at hg
    cases hg
  | plot p =>
    rw [houtcome] at hg
    cases hg

/-- An assignment leaves the frame as it is or adds a column to it, and otherwise gives what the formula gives. -/
theorem holds_assign_frame {Q : F → Prop} (hf : Q f) (happend : ∀ c, E.Holds (B.append f c) Q) (text : String) :
    E.Holds (B.assign f text) fun r => Q r.1 ∧ ∀ result g formula, r.2 = some result →
      result.outcome = .frame g → Formula.ofText text = .ok formula → P formula.expr.grouping g := by
  unfold assign
  refine E.bind (E.lift (fun _ => id) fun failure _ => haccepts failure) fun formula hformula => ?_
  refine E.bind (holds_run_frame haccepts any hsort hgroup formula.expr) fun r hr => ?_
  split
  · refine E.pure ⟨hf, fun result g read hresult hg hread => ?_⟩
    obtain rfl := Except.ok.inj (hformula.symm.trans hread)
    obtain rfl := Option.some.inj hresult
    exact hr g hg
  · split
    · exact E.bind (happend _) fun g hg => E.pure ⟨hg, fun _ _ _ hnone => by cases hnone⟩
    · exact holds_fail_any haccepts _ _

end Texts

end Backend

end Tabular
