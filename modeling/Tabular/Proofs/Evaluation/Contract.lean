-- SUMMARY: What evaluating a formula makes of good frames, good columns and good texts is good.
import Mathlib.Data.List.Basic
import Tabular.Evaluation
import Tabular.Proofs.Evaluation.Parts
import Tabular.Proofs.Evaluation.Progress

/-!
# Contracts of backends

An invariant asks nothing of what an operation is given. A contract does: an operation is given good frames, good
columns and values with good texts, and promises good ones. Texts come into a formula between quotes alone, so a
formula is good if all its quotations are. The frame that an operation gives need not be good as an argument is, it
only is a good result; and a reducer is good if it promises a good column of any good frames.
-/

namespace Tabular

/-! ## Quotations -/

namespace Expr

mutual

/-- All quoted texts of a tree, from left to right. -/
def quotations : Expr → List String
  | .quoted content => [content]
  | .leaf _ => []
  | .binary _ left right => left.quotations ++ right.quotations
  | .call _ args => quotationsOf args
  | .assign _ value => value.quotations

def quotationsOf : List Expr → List String
  | [] => []
  | arg :: more => arg.quotations ++ quotationsOf more

end

theorem quotations_subset {arg : Expr} {args : List Expr} (h : arg ∈ args) :
    arg.quotations ⊆ quotationsOf args := by
  induction args with
  | nil => simp at h
  | cons first more ih =>
    rcases List.mem_cons.1 h with rfl | h
    · exact List.subset_append_left _ _
    · exact List.subset_append_of_subset_right _ (ih h)

end Expr

/-- A bare token stands for no text. -/
theorem Value.ofToken?_ne_string {patterns : List String} {token : String} {s : String} :
    Value.ofToken? patterns token ≠ some (.string s) := by
  unfold ofToken?
  split
  · simp
  · split
    · simp
    · split
      · simp
      · simp

variable {m : Type → Type} [Monad m] [MonadLiftT (Except Failure) m] {F C : Type}

namespace Backend

theorem quotations_reduction {args : List Expr} {named : String × Expr} (h : named ∈ reductions args) :
    named.2.quotations ⊆ Expr.quotationsOf args := by
  have hsubset := Expr.quotations_subset (assign_mem_of_reduction h)
  rwa [Expr.quotations] at hsubset

/-! ## Contracts -/

/-- What the operations of a backend promise, from every state on. -/
structure Contract (B : Backend m F C) (J : Progress m) where
  /-- Frames to work on. -/
  GoodFrame : J.State → F → Prop
  /-- Frames that operations give. -/
  GoodResult : J.State → F → Prop
  GoodColumn : J.State → C → Prop
  GoodText : String → Prop
  frameLater {s t : J.State} {f : F} : J.Later s t → GoodFrame s f → GoodFrame t f
  columnLater {s t : J.State} {c : C} : J.Later s t → GoodColumn s c → GoodColumn t c
  result {s : J.State} {f : F} : GoodFrame s f → GoodResult s f
  column? {s : J.State} {f : F} {name : String} {c : C} : GoodFrame s f → B.column? f name = some c → GoodColumn s c
  rename {s : J.State} {c : C} (name : String) : GoodColumn s c → GoodColumn s (B.rename c name)
  literal {s : J.State} {f : F} {v : Value} : GoodFrame s f → (∀ text, v = .string text → GoodText text) →
    J.Holds s (B.literal f v) GoodColumn
  execute {s : J.State} {f : F} {args : List C} (r : Resolved) (scope : Scope) : r.operation ∈ Operation.builtIn →
    GoodFrame s f → (∀ c ∈ args, GoodColumn s c) → J.Holds s (B.execute f r args scope) GoodColumn
  sort {s : J.State} {f : F} (ascending : Bool) (keys : List String) : GoodFrame s f →
    J.Holds s (B.sort f ascending keys) GoodResult
  group {s : J.State} {f : F} {reducers : List (Reducer m F C)} (keys : List String) : GoodFrame s f →
    (∀ r ∈ reducers, ∀ t g w, GoodFrame t g → GoodFrame t w → J.Holds t (r.run g w) GoodColumn) →
    J.Holds s (B.group f keys reducers) GoodResult
  globalize {s : J.State} {f : F} {c : C} : GoodFrame s f → GoodColumn s c → J.Holds s (B.globalize f c) GoodColumn
  append {s : J.State} {f : F} {c : C} : GoodFrame s f → GoodColumn s c → J.Holds s (B.append f c) GoodResult
  values {s : J.State} {c : C} : GoodColumn s c → J.Holds s (B.values c) fun _ _ => True

variable {B : Backend m F C} {J : Progress m}

namespace Contract

/-- The reducer promises a good column of good frames. -/
def GoodReducer (K : B.Contract J) (r : Reducer m F C) : Prop :=
  ∀ s g w, K.GoodFrame s g → K.GoodFrame s w → J.Holds s (r.run g w) K.GoodColumn

def GoodOutcome (K : B.Contract J) (s : J.State) : Outcome F C → Prop
  | .frame g => K.GoodResult s g
  | .column c => K.GoodColumn s c
  | .plot _ => True

/-- All quotations of a formula are good. -/
def GoodFormula (K : B.Contract J) (e : Expr) : Prop := ∀ content ∈ e.quotations, K.GoodText content

/-- On good frames the tree gives something good. -/
def Gives (K : B.Contract J) (e : Expr) : Prop :=
  ∀ ⦃s : J.State⦄ ⦃f w : F⦄ ⦃scope : Scope⦄, K.GoodFrame s f → K.GoodFrame s w →
    J.Holds s (B.eval e scope f w) K.GoodOutcome

/-- An operand is a good formula and has a good column. -/
def GoodOperand (K : B.Contract J) (s : J.State) (operand : Expr × C) : Prop :=
  K.GoodFormula operand.1 ∧ K.GoodColumn s operand.2

variable (K : B.Contract J) {s : J.State} {f w : F} {scope : Scope}

include K

/-! ## Parts of a formula -/

omit K in
theorem holds_fail {α : Type} {failure : Failure} {P : J.State → α → Prop} : J.Holds s (fail failure) P :=
  J.lift fun a ha => by simp at ha

theorem holds_asColumn {e : Expr} {o : Outcome F C} (h : K.GoodOutcome s o) :
    J.Holds s (asColumn e o) K.GoodColumn := by
  cases o with
  | column c => exact J.pure h
  | frame g => exact holds_fail
  | plot p => exact holds_fail

theorem holds_token (hf : K.GoodFrame s f) (name : String) : J.Holds s (B.token f name) K.GoodColumn := by
  unfold token
  split
  · rename_i c hc
    exact J.pure (K.column? hf hc)
  · split
    · rename_i v hv
      refine K.literal hf fun text htext => ?_
      exact absurd (htext ▸ hv) Value.ofToken?_ne_string
    · exact holds_fail

omit K in
theorem holds_key (f : F) (form : String) (e : Expr) : J.Holds s (B.key f form e) fun _ _ => True := by
  unfold Backend.key
  split
  · split
    · exact J.pure trivial
    · exact holds_fail
  · exact holds_fail

omit K in
theorem holds_ascending (e : Expr) : J.Holds s (ascending e : m Bool) fun _ _ => True := by
  unfold ascending
  split
  · split
    · exact J.pure trivial
    · exact J.pure trivial
    · exact holds_fail
  · split
    · exact J.pure trivial
    · exact J.pure trivial
    · exact holds_fail
  · exact holds_fail

/-- The assignments of `by` become good reducers if their formulas give good columns. -/
theorem holds_groupArguments {args : List Expr} (h : ∀ named ∈ reductions args, K.Gives named.2) :
    J.Holds s (groupArguments B args f) fun _ parts => ∀ r ∈ parts.2, K.GoodReducer r := by
  induction args generalizing s with
  | nil =>
    rw [groupArguments]
    exact J.pure (by simp)
  | cons arg more ih =>
    cases arg with
    | assign name value =>
      rw [reductions, List.forall_mem_cons] at h
      rw [groupArguments]
      refine J.bind (ih h.2) fun _ parts _ hreducers => J.pure ?_
      rw [List.forall_mem_cons]
      refine ⟨fun t g w hg hw => ?_, hreducers⟩
      exact J.bind (h.1 hg hw) fun u o _ ho => K.holds_asColumn ho
    | _ =>
      rw [groupArguments]
      · refine J.bind (holds_key f "by" _) fun _ key _ _ => J.bind (ih h) fun _ parts _ hreducers => ?_
        exact J.pure hreducers
      · simp

/-! ## Operations -/

theorem holds_reread [LawfulMonad m] (hf : K.GoodFrame s f) {operands : List (Expr × C)}
    (h : ∀ operand ∈ operands, K.GoodOperand s operand) :
    J.Holds s (B.reread f operands) fun t columns => ∀ c ∈ columns, K.GoodColumn t c := by
  rw [reread_eq]
  refine J.mapM K.columnLater ?_
  rintro ⟨e, c⟩ hmem t hlater
  obtain ⟨hquoted, hc⟩ := h _ hmem
  unfold rereadOne
  split
  · rename_i content heq _
    obtain rfl : e = .quoted content := heq
    refine K.literal (K.frameLater hlater hf) fun text htext => ?_
    obtain rfl := Value.string.inj htext
    exact hquoted _ List.mem_cons_self
  · exact J.pure (K.columnLater hlater hc)

theorem holds_apply [LawfulMonad m] (hf : K.GoodFrame s f) {e : Expr} {name : String} {operands : List (Expr × C)}
    (h : ∀ operand ∈ operands, K.GoodOperand s operand) :
    J.Holds s (B.apply f scope e name operands) K.GoodColumn := by
  unfold apply
  refine J.lift_bind fun resolved hresolved => ?_
  obtain ⟨resolved, asText⟩ := resolved
  have hbuiltIn := (Resolved.ofOperands_ok hresolved).2.builtIn
  have hread : J.Holds s (if asText then B.reread f operands else pure (operands.map (·.2))) fun t columns =>
      ∀ c ∈ columns, K.GoodColumn t c := by
    split
    · exact K.holds_reread hf h
    · refine J.pure ?_
      rw [List.forall_mem_map]
      exact fun operand hmem => (h operand hmem).2
  refine J.ite_bind (J.bind hread fun t columns hlater hgood => ?_)
  refine J.bind (K.execute resolved scope hbuiltIn (K.frameLater hlater hf) hgood) fun u c _ hc => ?_
  exact J.pure (K.rename e.text hc)

/-! ## Trees -/

section Calls

variable {name : String} {args : List Expr} (hargs : ∀ arg ∈ args, K.GoodFormula arg ∧ K.Gives arg)

include hargs

theorem holds_evalColumns (hf : K.GoodFrame s f) (hw : K.GoodFrame s w) :
    J.Holds s (B.evalColumns args scope f w) fun t columns => ∀ c ∈ columns, K.GoodColumn t c := by
  induction args generalizing s with
  | nil =>
    rw [evalColumns]
    exact J.pure (by simp)
  | cons arg more ih =>
    rw [List.forall_mem_cons] at hargs
    rw [evalColumns]
    refine J.bind (hargs.1.2 hf hw) fun t o hst ho => J.bind (K.holds_asColumn ho) fun u c htu hc => ?_
    have hlater := J.trans hst htu
    refine J.bind (ih hargs.2 (K.frameLater hlater hf) (K.frameLater hlater hw)) fun v columns huv hcolumns => ?_
    refine J.pure ?_
    rw [List.forall_mem_cons]
    exact ⟨K.columnLater huv hc, hcolumns⟩

theorem gives_operation [LawfulMonad m] (hform : SpecialForm.named? name = none) : K.Gives (.call name args) := by
  intro s f w scope hf hw
  unfold eval
  rw [hform]
  refine J.bind (K.holds_evalColumns hargs hf hw) fun t columns hlater hcolumns => ?_
  have hgood : ∀ operand ∈ args.zip columns, K.GoodOperand t operand := fun operand hmem =>
    ⟨(hargs _ (List.of_mem_zip hmem).1).1, hcolumns _ (List.of_mem_zip hmem).2⟩
  exact J.bind (K.holds_apply (K.frameLater hlater hf) hgood) fun _ c _ hc => J.pure hc

theorem gives_global (hform : SpecialForm.named? name = some .global) : K.Gives (.call name args) := by
  intro s f w scope hf hw
  unfold eval
  rw [hform]
  dsimp only
  split
  · rename_i inner
    have hinner := (hargs inner List.mem_cons_self).2
    refine J.bind (hinner hw hw) fun t o hst ho => J.bind (K.holds_asColumn ho) fun u c htu hc => ?_
    have hwhole := K.frameLater (J.trans hst htu) hw
    exact J.bind (K.globalize hwhole hc) fun _ d _ hd => J.pure (K.rename _ hd)
  · exact holds_fail

theorem gives_plot (hform : SpecialForm.named? name = some .plot) : K.Gives (.call name args) := by
  intro s f w scope hf hw
  unfold eval
  rw [hform]
  dsimp only
  split
  · rename_i x y
    have hx := (hargs x List.mem_cons_self).2
    have hy := (hargs y (List.mem_cons_of_mem _ List.mem_cons_self)).2
    refine J.bind (hx hf hw) fun t _ hst hxo => J.bind (K.holds_asColumn hxo) fun u xs htu hxs => ?_
    have hlater := J.trans hst htu
    refine J.bind (hy (K.frameLater hlater hf) (K.frameLater hlater hw)) fun u' _ huu' hyo => ?_
    refine J.bind (K.holds_asColumn hyo) fun v ys hu'v hys => ?_
    refine J.bind (K.values (K.columnLater (J.trans huu' hu'v) hxs)) fun v' _ hvv' _ => ?_
    exact J.bind (K.values (K.columnLater hvv' hys)) fun _ _ _ _ => J.pure trivial
  · exact holds_fail

end Calls

theorem gives_quoted {content : String} (hcontent : K.GoodText content) : K.Gives (.quoted content) := by
  intro s f w scope hf hw
  rw [eval]
  refine J.bind (K.literal hf fun text htext => ?_) fun _ c _ hc => J.pure hc
  unfold Value.ofQuoted at htext
  split at htext
  · simp at htext
  · exact Value.string.inj htext ▸ hcontent

theorem gives_leaf (name : String) : K.Gives (.leaf name) := by
  intro s f w scope hf hw
  rw [eval]
  exact J.bind (K.holds_token hf name) fun _ c _ hc => J.pure hc

theorem gives_binary [LawfulMonad m] {op : BinaryOp} {left right : Expr} (hleft : K.GoodFormula left ∧ K.Gives left)
    (hright : K.GoodFormula right ∧ K.Gives right) : K.Gives (.binary op left right) := by
  intro s f w scope hf hw
  rw [eval]
  refine J.bind (hleft.2 hf hw) fun t _ hst hlo => J.bind (K.holds_asColumn hlo) fun u l htu hl => ?_
  have hlater := J.trans hst htu
  have hf := K.frameLater hlater hf
  refine J.bind (hright.2 hf (K.frameLater hlater hw)) fun u' _ huu' hro => ?_
  refine J.bind (K.holds_asColumn hro) fun v r hu'v hr => ?_
  have hlater := J.trans huu' hu'v
  have hgood : ∀ operand ∈ [(left, l), (right, r)], K.GoodOperand v operand := by
    rw [List.forall_mem_cons, List.forall_mem_singleton]
    exact ⟨⟨hleft.1, K.columnLater hlater hl⟩, hright.1, hr⟩
  exact J.bind (K.holds_apply (K.frameLater hlater hf) hgood) fun _ c _ hc => J.pure hc

theorem gives_sort [LawfulMonad m] {name : String} (args : List Expr)
    (hform : SpecialForm.named? name = some .sort) : K.Gives (.call name args) := by
  intro s f w scope hf hw
  unfold eval
  rw [hform]
  dsimp only
  split
  · rename_i order first more
    refine J.bind (holds_ascending order) fun t ascending hst _ => ?_
    have hkeys := J.mapM (s := t) (R := fun _ _ => True) (fun _ _ => trivial)
      fun arg (_ : arg ∈ first :: more) u _ => holds_key (B := B) f "sort" arg
    refine J.bind hkeys fun u keys htu _ => ?_
    exact J.bind (K.sort ascending keys (K.frameLater (J.trans hst htu) hf)) fun _ g _ hg => J.pure hg
  · exact holds_fail

theorem gives_by {name : String} {args : List Expr} (hform : SpecialForm.named? name = some .by)
    (hformulas : ∀ named ∈ reductions args, K.Gives named.2) : K.Gives (.call name args) := by
  intro s f w scope hf hw
  unfold eval
  rw [hform]
  dsimp only
  refine J.bind (K.holds_groupArguments hformulas) fun t parts hlater hreducers => ?_
  obtain ⟨keys, reducers⟩ := parts
  dsimp only
  split
  · exact J.bind (Q := fun _ _ => False) holds_fail fun _ _ _ h => h.elim
  · exact J.bind (K.group keys (K.frameLater hlater hf) hreducers) fun _ g _ hg => J.pure hg

/-- Every good formula gives something good. The formulas inside of `by` are no arguments themselves but parts of them,
    so the induction is on the size of the tree. -/
theorem gives [LawfulMonad m] {e : Expr} (he : K.GoodFormula e) : K.Gives e := by
  cases e with
  | quoted content => exact K.gives_quoted (he content List.mem_cons_self)
  | leaf name => exact K.gives_leaf name
  | binary op left right =>
    have hleft : K.GoodFormula left := fun content h => he content (List.mem_append_left _ h)
    have hright : K.GoodFormula right := fun content h => he content (List.mem_append_right _ h)
    exact K.gives_binary ⟨hleft, gives hleft⟩ ⟨hright, gives hright⟩
  | call name args =>
    have hargs : ∀ arg ∈ args, K.GoodFormula arg ∧ K.Gives arg := by
      intro arg harg
      have hsize := List.sizeOf_lt_of_mem harg
      have hgood : K.GoodFormula arg := fun content h => he content (Expr.quotations_subset harg h)
      exact ⟨hgood, gives hgood⟩
    cases hform : SpecialForm.named? name with
    | none => exact K.gives_operation hargs hform
    | some form =>
      cases form with
      | global => exact K.gives_global hargs hform
      | sort => exact K.gives_sort args hform
      | plot => exact K.gives_plot hargs hform
      | «by» =>
        refine K.gives_by hform fun named hnamed => ?_
        have hsize := sizeOf_reduction hnamed
        exact gives fun content h => he content (quotations_reduction hnamed h)
  | assign name value =>
    intro s f w scope hf hw
    rw [eval]
    exact holds_fail
termination_by sizeOf e
decreasing_by
  all_goals subst_vars
  all_goals simp_wf
  all_goals omega

/-- The reducer of a good formula is good. -/
theorem goodReducer [LawfulMonad m] {named : String × Expr} (h : K.GoodFormula named.2) :
    K.GoodReducer (B.reducer named) :=
  fun _ _ _ hg hw => J.bind (K.gives h hg hw) fun _ _ _ ho => K.holds_asColumn ho

/-! ## Formulas -/

theorem holds_run [LawfulMonad m] (hf : K.GoodFrame s f) {e : Expr} (he : K.GoodFormula e) :
    J.Holds s (B.run f e) fun t r => K.GoodOutcome t r.outcome := by
  unfold run
  exact J.bind (K.gives he hf hf) fun _ o _ ho => J.pure ho

section Texts

variable [LawfulMonad m] (hf : K.GoodFrame s f) {text : String}
  (htext : ∀ formula, Formula.ofText text = .ok formula → K.GoodFormula formula.expr)

include hf htext

/-- Evaluating a good formula gives a good outcome. -/
theorem holds_evaluate : J.Holds s (B.evaluate f text) fun t r => K.GoodOutcome t r.outcome := by
  unfold evaluate
  refine J.lift_bind fun formula hformula => ?_
  refine J.bind (K.holds_run hf (htext formula hformula)) fun t r _ hr => J.pure ?_
  cases houtcome : r.outcome with
  | frame g => simpa [renameOutcome, houtcome] using hr
  | plot p => trivial
  | column c =>
    rw [houtcome] at hr
    simp only [renameOutcome, GoodOutcome]
    cases formula.target with
    | none => exact hr
    | some name => exact K.rename name hr

/-- Evaluating a good formula with a target leaves a good frame, and without a target it gives a good outcome. -/
theorem holds_assign : J.Holds s (B.assign f text) fun t r =>
    K.GoodResult t r.1 ∧ ∀ result, r.2 = some result → K.GoodOutcome t result.outcome := by
  unfold assign
  refine J.lift_bind fun formula hformula => ?_
  refine J.bind (K.holds_run hf (htext formula hformula)) fun t r hlater hr => ?_
  have hf := K.frameLater hlater hf
  split
  · refine J.pure ⟨K.result hf, fun result hresult => ?_⟩
    obtain rfl : r = result := by simpa using hresult
    exact hr
  · split
    · rename_i c houtcome
      rw [houtcome] at hr
      exact J.bind (K.append hf (K.rename _ hr)) fun _ g _ hg => J.pure ⟨hg, by simp⟩
    · exact holds_fail

end Texts

end Contract

end Backend

end Tabular
