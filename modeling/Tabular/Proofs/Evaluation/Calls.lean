-- SUMMARY: An evaluation runs operations only over good columns of the types that they were resolved for.
import Tabular.Proofs.Evaluation.Invariant
import Tabular.Proofs.Evaluation.Outcome

/-!
# Calls of operations

An evaluation runs an operation that it has resolved, over columns of the types that it was resolved for: the types of
the operands, or those of the texts that quoted dates are taken for. The columns come from the frame, from literals or
from other operations, so they keep the invariants of the backend. If another way to run operations agrees with that of
the backend on such calls, no formula can tell the two apart; it gives the same or fails alike. So a backend may check
each call, and checks that never fail on such calls are not noticed.
-/

namespace Tabular

theorem bind_congr_of_ok {ε α β : Type _} {x : Except ε α} {f g : α → Except ε β} (h : ∀ a, x = .ok a → f a = g a) :
    x >>= f = x >>= g := by
  cases x with
  | error e => rfl
  | ok a => exact h a rfl

namespace Backend

variable {F C : Type} {B : Backend (Except Failure) F C}

/-- The backend with another way to run operations. -/
def withExecute (B : Backend (Except Failure) F C) (run : F → Resolved → List C → Scope → Except Failure C) :
    Backend (Except Failure) F C :=
  { B with execute := run }

/-- Another way to run operations that agrees on good frames with the one of the backend, over good columns that the
    signature accepts. A grouping only evaluates formulas on good frames. -/
structure Interchange (I : B.Invariant Ending.partialResult) (run : F → Resolved → List C → Scope → Except Failure C) :
    Prop where
  literal {f : F} {v : Value} {c : C} : B.literal f v = .ok c → B.dataType c = v.dataType
  execute {f : F} {op : Resolved} {args : List C} (scope : Scope) : I.GoodFrame f → op.Applies (args.map B.dataType) →
    (∀ c ∈ args, I.GoodColumn c) → run f op args scope = B.execute f op args scope
  group {f : F} {keys : List String} {formulas : List (String × Expr)} : I.GoodFrame f →
    (∀ named ∈ formulas, ∀ u, I.GoodFrame u →
      ((B.withExecute run).reducer named).run u f = (B.reducer named).run u f) →
    B.group f keys (formulas.map (B.withExecute run).reducer) = B.group f keys (formulas.map B.reducer)

namespace Interchange

variable {I : B.Invariant Ending.partialResult} {run : F → Resolved → List C → Scope → Except Failure C}
  (X : Interchange I run) {f w : F} {scope : Scope}

/-! ## Operands -/

theorem good_of_eval (hf : I.GoodFrame f) (hw : I.GoodFrame w) {e : Expr} {o : Outcome F C} {c : C}
    (ho : B.eval e scope f w = .ok o) (hc : (asColumn e o : Except Failure C) = .ok c) : I.GoodColumn c := by
  have hgood := I.holds_eval hf hw e scope o ho
  rwa [asColumn_eq_ok hc] at hgood

include X

/-- What is handed over for an operand is good, and is a text if the operand is a quoted date. -/
theorem rereadOne_ok {operand : Expr × C} (hgood : I.GoodColumn operand.2) {c : C}
    (h : B.rereadOne f operand = .ok c) : I.GoodColumn c ∧ B.dataType c =
      if Resolved.isQuotedDate operand.1 (B.dataType operand.2) then .string else B.dataType operand.2 := by
  obtain ⟨e, d⟩ := operand
  rcases Resolved.quotedDate_cases e (B.dataType d) with ⟨content, rfl, htype⟩ | hnot
  · rw [rereadOne_quoted htype] at h
    refine ⟨I.literal f (.string content) c h, ?_⟩
    rw [htype, X.literal h]
    rfl
  · rw [rereadOne_of_not hnot] at h
    obtain rfl := Except.ok.inj h
    exact ⟨hgood, by rw [hnot, if_neg Bool.false_ne_true]⟩

/-- The columns that are handed over are good and have the types over which the operation was resolved. -/
theorem columns_ok {operands : List (Expr × C)} (hgood : ∀ operand ∈ operands, I.GoodColumn operand.2) {asText : Bool}
    {cs : List C} (h : (if asText then B.reread f operands else pure (operands.map (·.2))) = Except.ok cs) :
    (∀ c ∈ cs, I.GoodColumn c) ∧
      cs.map B.dataType = Resolved.operandTypes (operands.map fun (e, c) => (e, B.dataType c)) asText := by
  cases asText with
  | true =>
    have hall := mapM_eq_ok.1 (h : operands.mapM (B.rereadOne f) = .ok cs)
    have hhanded := ((List.forall₂_and_left _ _).2 ⟨hgood, hall⟩).imp fun operand c ⟨hoperand, hc⟩ =>
      X.rereadOne_ok hoperand hc
    refine ⟨fun c hc => ?_, ?_⟩
    · obtain ⟨operand, -, hoperand⟩ := exists_of_mem_forall₂ hhanded hc
      exact hoperand.1
    · rw [Resolved.operandTypes, if_pos rfl, Resolved.textTypes, List.map_map]
      exact map_eq_map_of_forall₂ (hhanded.flip.imp fun c operand hc => hc.2)
  | false =>
    obtain rfl := Except.ok.inj h
    exact ⟨List.forall_mem_map.2 hgood, by simp [Resolved.operandTypes, Function.comp_def]⟩

/-- An operation over good operands does the same however it is run. -/
theorem apply_eq (hf : I.GoodFrame f) {e : Expr} {name : String} {operands : List (Expr × C)}
    (hgood : ∀ operand ∈ operands, I.GoodColumn operand.2) :
    (B.withExecute run).apply f scope e name operands = B.apply f scope e name operands := by
  unfold apply
  refine bind_congr_of_ok fun ⟨op, asText⟩ hop => ?_
  have hop : Resolved.ofOperands name (operands.map fun (e, c) => (e, B.dataType c)) = .ok (op, asText) := hop
  have hsame : ((if asText then B.reread f operands else pure (operands.map (·.2))) >>= fun cs => do
        return B.rename (← run f op cs scope) e.text) =
      ((if asText then B.reread f operands else pure (operands.map (·.2))) >>= fun cs => do
        return B.rename (← B.execute f op cs scope) e.text) := by
    refine bind_congr_of_ok fun cs hcs => ?_
    obtain ⟨hcolumns, htypes⟩ := X.columns_ok hgood hcs
    have happlies := (Resolved.ofOperands_ok hop).2
    rw [← htypes] at happlies
    rw [X.execute scope hf happlies hcolumns]
  cases asText <;> exact hsame

/-! ## Trees -/

omit X in
/-- The keys of `by` do not depend on how operations are run, and each formula becomes its reducer. -/
theorem groupArguments_eq (args : List Expr) (f : F) : groupArguments (B.withExecute run) args f =
    (fun parts => (parts.1, (reductions args).map (B.withExecute run).reducer)) <$> groupArguments B args f := by
  induction args with
  | nil => rfl
  | cons arg more ih =>
    cases arg with
    | assign name value =>
      rw [groupArguments, groupArguments, ih]
      cases groupArguments B more f <;> rfl
    | _ =>
      rw [groupArguments, groupArguments, ih]
      · rw [show (B.withExecute run).key f "by" = B.key f "by" from rfl]
        generalize B.key f "by" _ = key
        cases key with
        | error failure => rfl
        | ok key => cases groupArguments B more f <;> rfl
      · simp
      · simp

/-- The tree does the same over good frames however operations are run. -/
def Same (_ : Interchange I run) (e : Expr) : Prop :=
  ∀ ⦃f w : F⦄ ⦃scope : Scope⦄, I.GoodFrame f → I.GoodFrame w →
    (B.withExecute run).eval e scope f w = B.eval e scope f w

theorem same_binary {op : BinaryOp} {left right : Expr} (hleft : X.Same left) (hright : X.Same right) :
    X.Same (.binary op left right) := by
  intro f w scope hf hw
  rw [eval, eval, hleft hf hw, hright hf hw]
  refine bind_congr_of_ok fun lo hlo => bind_congr_of_ok fun l hl => ?_
  refine bind_congr_of_ok fun ro hro => bind_congr_of_ok fun r hr => ?_
  rw [X.apply_eq hf]
  simpa using ⟨good_of_eval hf hw hlo hl, good_of_eval hf hw hro hr⟩

theorem evalColumns_eq {args : List Expr} (hargs : ∀ arg ∈ args, X.Same arg) (hf : I.GoodFrame f)
    (hw : I.GoodFrame w) (scope : Scope) :
    (B.withExecute run).evalColumns args scope f w = B.evalColumns args scope f w ∧
      ∀ cs, B.evalColumns args scope f w = .ok cs → ∀ c ∈ cs, I.GoodColumn c := by
  induction args with
  | nil =>
    refine ⟨rfl, fun cs h => ?_⟩
    obtain rfl := Except.ok.inj h
    simp
  | cons arg more ih =>
    obtain ⟨harg, hmore⟩ := List.forall_mem_cons.1 hargs
    obtain ⟨hsame, hgood⟩ := ih hmore
    rw [evalColumns, evalColumns, harg hf hw, hsame]
    refine ⟨rfl, fun cs h => ?_⟩
    obtain ⟨o, ho, h⟩ := bind_eq_ok.1 h
    obtain ⟨c, hc, h⟩ := bind_eq_ok.1 h
    obtain ⟨rest, hrest, h⟩ := bind_eq_ok.1 h
    obtain rfl := Except.ok.inj h
    exact List.forall_mem_cons.2 ⟨good_of_eval hf hw ho hc, hgood rest hrest⟩

section Calls

variable {name : String} {args : List Expr}

theorem same_operation (hform : SpecialForm.named? name = none) (hargs : ∀ arg ∈ args, X.Same arg) :
    X.Same (.call name args) := by
  intro f w scope hf hw
  obtain ⟨hsame, hgood⟩ := X.evalColumns_eq hargs hf hw scope
  unfold eval
  rw [hform]
  dsimp only
  rw [hsame]
  refine bind_congr_of_ok fun cs hcs => ?_
  rw [X.apply_eq hf fun operand hoperand => hgood cs hcs _ (List.of_mem_zip hoperand).2]

theorem same_global (hform : SpecialForm.named? name = some .global) (hargs : ∀ arg ∈ args, X.Same arg) :
    X.Same (.call name args) := by
  intro f w scope hf hw
  unfold eval
  rw [hform]
  dsimp only
  split
  · rw [hargs _ List.mem_cons_self hw hw]
    rfl
  · rfl

theorem same_sort (hform : SpecialForm.named? name = some .sort) : X.Same (.call name args) := by
  intro f w scope hf hw
  unfold eval
  rw [hform]
  rfl

theorem same_plot (hform : SpecialForm.named? name = some .plot) (hargs : ∀ arg ∈ args, X.Same arg) :
    X.Same (.call name args) := by
  intro f w scope hf hw
  unfold eval
  rw [hform]
  dsimp only
  split
  · rw [hargs _ List.mem_cons_self hf hw, hargs _ (List.mem_cons_of_mem _ List.mem_cons_self) hf hw]
    rfl
  · rfl

theorem same_by (hform : SpecialForm.named? name = some .by) (hformulas : ∀ named ∈ reductions args, X.Same named.2) :
    X.Same (.call name args) := by
  intro f w scope hf hw
  have hreducers : ∀ named ∈ reductions args, ∀ u, I.GoodFrame u →
      ((B.withExecute run).reducer named).run u f = (B.reducer named).run u f := by
    intro named hnamed u hu
    unfold reducer
    dsimp only
    rw [hformulas named hnamed hu hf]
  unfold eval
  rw [hform]
  dsimp only
  rw [groupArguments_eq]
  cases hparts : groupArguments B args f with
  | error failure => rfl
  | ok parts =>
    obtain ⟨keys, reducers⟩ := parts
    obtain ⟨-, rfl⟩ := groupArguments_ok hparts
    have hgroup : (B.withExecute run).group f keys ((reductions args).map (B.withExecute run).reducer) =
        B.group f keys ((reductions args).map B.reducer) := X.group hf hreducers
    change (if keys.isEmpty then _ else _) = (if keys.isEmpty then _ else _)
    split
    · rfl
    · rw [hgroup]

end Calls

/-- No tree can tell the two ways to run operations apart. The formulas inside of `by` are no arguments themselves but
    parts of them, so the induction is on the size of the tree. -/
theorem same (e : Expr) : X.Same e := by
  cases e with
  | quoted content => exact fun _ _ _ _ _ => rfl
  | leaf name => exact fun _ _ _ _ _ => rfl
  | binary op left right => exact X.same_binary (same left) (same right)
  | call name args =>
    have hargs : ∀ arg ∈ args, X.Same arg := fun arg harg =>
      have hsize := List.sizeOf_lt_of_mem harg
      same arg
    cases hform : SpecialForm.named? name with
    | none => exact X.same_operation hform hargs
    | some form =>
      cases form with
      | global => exact X.same_global hform hargs
      | sort => exact X.same_sort hform
      | plot => exact X.same_plot hform hargs
      | «by» =>
        refine X.same_by hform fun named hnamed => ?_
        have hsize := sizeOf_reduction hnamed
        exact same named.2
  | assign name value => exact fun _ _ _ _ _ => rfl
termination_by sizeOf e
decreasing_by
  all_goals simp_wf
  all_goals omega

/-! ## Formulas -/

theorem run_eq (hf : I.GoodFrame f) (e : Expr) : (B.withExecute run).run f e = B.run f e := by
  unfold Backend.run
  rw [X.same e hf hf]
  rfl

/-- A formula gives the same however operations are run, and is refused alike. -/
theorem evaluate_eq (hf : I.GoodFrame f) (text : String) : (B.withExecute run).evaluate f text = B.evaluate f text := by
  unfold evaluate
  refine bind_congr_of_ok fun formula _ => ?_
  rw [X.run_eq hf]
  rfl

theorem assign_eq (hf : I.GoodFrame f) (text : String) : (B.withExecute run).assign f text = B.assign f text := by
  unfold assign
  refine bind_congr_of_ok fun formula _ => ?_
  rw [X.run_eq hf]
  rfl

end Interchange

end Backend

end Tabular
