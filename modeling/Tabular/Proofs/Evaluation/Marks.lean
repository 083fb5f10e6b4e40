-- SUMMARY: Trees that give columns, and marks of columns that are put together as the trees are.
import Tabular.Proofs.Evaluation.StaticType

/-!
# Marks of formulas

What is known of a column that a formula gives is often told by the form of the formula: by what is known of its tokens,
and by how each operation goes on from its operands. A scheme says how such marks are put together over a tree. If the
columns of a backend and its operations keep to a scheme, then so does the evaluation of every tree that gives a column.
-/

namespace Tabular

/-! ## Refusals -/

/-- The refusals of formulas that are no aggregates: by grouping and by `global`. -/
def Failure.isRefusal : Failure → Bool
  | .notReducing .. | .notAggregate .. => true
  | _ => false

theorem Resolved.isRefusal_of {name : String} {types : List DataType} {failure : Failure}
    (h : Resolved.of name types = .error failure) : failure.isRefusal = false := by
  unfold Resolved.of at h
  split at h
  · unfold Operation.resolve at h
    split at h
    · obtain rfl := Except.error.inj h
      rfl
    · split at h
      · cases h
      · obtain rfl := Except.error.inj h
        rfl
  · obtain rfl := Except.error.inj h
    rfl

theorem Resolved.isRefusal_ofOperands {name : String} {operands : List (Expr × DataType)} {failure : Failure}
    (h : Resolved.ofOperands name operands = .error failure) : failure.isRefusal = false := by
  unfold ofOperands at h
  split at h
  · cases h
  · split at h
    · split at h
      · cases h
      · obtain rfl := Except.error.inj h
        rfl
    · obtain rfl := Except.error.inj h
      rfl
  · rename_i hof
    obtain rfl := Except.error.inj h
    exact isRefusal_of hof

/-! ## Trees -/

namespace Expr

mutual

/-- Whether a tree can only give a column: outside of the operands of `by`, `sort` and `plot` there is none of them. -/
def isColumnar : Expr → Bool
  | .quoted _ | .leaf _ => true
  | .binary _ left right => left.isColumnar && right.isColumnar
  | .call name args =>
    match SpecialForm.named? name with
    | none | some .global => areColumnar args
    | some .by | some .sort | some .plot => false
  | .assign _ _ => false

def areColumnar : List Expr → Bool
  | [] => true
  | arg :: more => arg.isColumnar && areColumnar more

end

theorem areColumnar_iff {args : List Expr} : areColumnar args = true ↔ ∀ arg ∈ args, arg.isColumnar = true := by
  induction args with
  | nil => simp [areColumnar]
  | cons arg more ih => rw [areColumnar, Bool.and_eq_true, ih, List.forall_mem_cons]

end Expr

namespace Backend

variable {m : Type → Type} [Monad m] [MonadLiftT (Except Failure) m] {F C : Type} {B : Backend m F C} {E : Ending m}

/-! ## Trees that give columns -/

section Columnar

variable (haccepts : ∀ failure, E.Accepts failure) (any : ∀ {α : Type} (x : m α), E.Holds x fun _ => True)

include haccepts

theorem holds_asColumn_columnar {e : Expr} {o : Outcome F C} (ho : ∀ c, o = .column c → e.isColumnar = true) :
    E.Holds (asColumn e o : m C) fun _ => e.isColumnar = true := by
  cases o with
  | column c => exact E.pure (ho c rfl)
  | frame g => exact holds_fail_any haccepts _ _
  | plot p => exact holds_fail_any haccepts _ _

theorem holds_evalColumns_columnar {args : List Expr} {scope : Scope} {f w : F}
    (h : ∀ arg ∈ args, E.Holds (B.eval arg scope f w) fun o => ∀ c, o = .column c → arg.isColumnar = true) :
    E.Holds (B.evalColumns args scope f w) fun _ => Expr.areColumnar args = true := by
  induction args with
  | nil =>
    rw [evalColumns]
    exact E.pure rfl
  | cons arg more ih =>
    rw [List.forall_mem_cons] at h
    rw [evalColumns]
    refine E.bind h.1 fun o ho => E.bind (holds_asColumn_columnar haccepts ho) fun c hc => ?_
    refine E.bind (ih h.2) fun cs hcs => E.pure ?_
    rw [Expr.areColumnar, hc, hcs]
    rfl

include any

/-- What gives a column is columnar. -/
theorem holds_columnar (e : Expr) (scope : Scope) (f w : F) :
    E.Holds (B.eval e scope f w) fun o => ∀ c, o = .column c → e.isColumnar = true := by
  cases e with
  | quoted content => exact E.mono (any _) fun _ _ _ _ => rfl
  | leaf name => exact E.mono (any _) fun _ _ _ _ => rfl
  | binary op left right =>
    rw [eval]
    refine E.bind (holds_columnar left scope f w) fun lo hlo => ?_
    refine E.bind (holds_asColumn_columnar haccepts hlo) fun l hl => ?_
    refine E.bind (holds_columnar right scope f w) fun ro hro => ?_
    refine E.bind (holds_asColumn_columnar haccepts hro) fun r hr => ?_
    refine E.mono (any _) fun _ _ _ _ => ?_
    rw [Expr.isColumnar, hl, hr]
    rfl
  | call name args =>
    unfold eval Expr.isColumnar
    cases hform : SpecialForm.named? name with
    | none =>
      have hargs : ∀ arg ∈ args, E.Holds (B.eval arg scope f w) fun o => ∀ c, o = .column c → arg.isColumnar = true :=
        fun arg harg =>
          have hsize := List.sizeOf_lt_of_mem harg
          holds_columnar arg scope f w
      refine E.bind (holds_evalColumns_columnar haccepts hargs) fun cs hcs => ?_
      exact E.mono (any _) fun _ _ _ _ => hcs
    | some form =>
      cases form with
      | global =>
        dsimp only
        split
        · rename_i inner
          refine E.bind (holds_columnar inner .groups w w) fun o ho => ?_
          refine E.bind (holds_asColumn_columnar haccepts ho) fun c hc => ?_
          refine E.mono (any _) fun _ _ _ _ => ?_
          rw [Expr.areColumnar, hc]
          rfl
        · exact holds_fail_any haccepts _ _
      -- The other special forms give no columns.
      | «by» =>
        refine E.bind (any _) fun parts _ => ?_
        dsimp only
        split
        · exact E.bind (Q := fun _ => False) (holds_fail_any haccepts _ _) fun _ hfalse => hfalse.elim
        · exact E.bind (any _) fun g _ => E.pure (by simp)
      | sort =>
        dsimp only
        split
        · exact E.bind (any _) fun _ _ => E.bind (any _) fun _ _ => E.bind (any _) fun g _ => E.pure (by simp)
        · exact holds_fail_any haccepts _ _
      | plot =>
        dsimp only
        split
        · refine E.bind (any _) fun _ _ => E.bind (any _) fun _ _ => E.bind (any _) fun _ _ => ?_
          refine E.bind (any _) fun _ _ => E.bind (any _) fun _ _ => E.bind (any _) fun _ _ => E.pure (by simp)
        · exact holds_fail_any haccepts _ _
  | assign name value =>
    rw [eval]
    exact holds_fail_any haccepts _ _
termination_by sizeOf e
decreasing_by
  all_goals subst_vars
  all_goals simp_wf
  all_goals omega

end Columnar

/-! ## Looking up and assigning -/

theorem token_column {f : F} {name : String} {c : C} (h : B.column? f name = some c) : B.token f name = pure c := by
  unfold token
  rw [h]

/-- What is assigned is a column that the formula gave, under the name of the target. -/
theorem holds_assigned (haccepts : ∀ failure, E.Accepts failure) {f : F} {Q : Expr → C → Prop} {R : C → F → Prop}
    (heval : ∀ e, E.Holds (B.eval e .rows f f) fun o => ∀ c, o = .column c → Q e c)
    (happend : ∀ c, E.Holds (B.append f c) (R c)) (text : String) :
    E.Holds (B.assign f text) fun r => r.2 = none → ∃ formula target c, Formula.ofText text = .ok formula ∧
      formula.target = some target ∧ Q formula.expr c ∧ R (B.rename c target) r.1 := by
  unfold assign run
  refine E.bind (E.lift (fun _ => id) fun failure _ => haccepts failure) fun formula hformula => ?_
  have hrun := E.bind (heval formula.expr) fun o ho =>
    E.pure (a := (⟨o, formula.expr.dependencies fun name => (B.column? f name).isSome⟩ : Evaluated F C))
      (P := fun r => ∀ c, r.outcome = .column c → Q formula.expr c) ho
  refine E.bind hrun fun result hresult => ?_
  split
  · exact E.pure fun h => by cases h
  · rename_i target htarget
    split
    · rename_i c hc
      refine E.bind (happend _) fun g hg => E.pure fun _ => ?_
      exact ⟨formula, target, c, hformula, htarget, hresult c hc, hg⟩
    · exact holds_fail_any haccepts _ _

end Backend

/-! ## Schemes -/

/-- How the mark of a tree is put together from those of its parts. -/
structure Scheme (M : Type) where
  /-- A quoted text. -/
  quoted : String → M
  /-- A call of an operation, over the marks of its operands. -/
  call : String → List M → M
  /-- A use of `global`, over the marks of its operands. -/
  global : List M → M
  /-- A tree that gives no column. -/
  other : M

namespace Expr

variable {M : Type} (S : Scheme M)

mutual

/-- The mark of a tree, where `token` tells the marks of tokens over a frame and `whole` over the whole frame. -/
def mark (token whole : String → M) : Expr → M
  | .quoted content => S.quoted content
  | .leaf name => token name
  | .binary op left right => S.call op.operation [left.mark token whole, right.mark token whole]
  | .call name args =>
    match SpecialForm.named? name with
    | none => S.call name (marksOf token whole args)
    | some .global => S.global (marksOf whole whole args)
    | some .by | some .sort | some .plot => S.other
  | .assign _ _ => S.other

def marksOf (token whole : String → M) : List Expr → List M
  | [] => []
  | arg :: more => arg.mark token whole :: marksOf token whole more

end

theorem marksOf_eq_map (token whole : String → M) (args : List Expr) :
    marksOf S token whole args = args.map (mark S token whole) := by
  induction args with
  | nil => rfl
  | cons arg more ih => rw [marksOf, ih, List.map_cons]

end Expr

/-! ## Marks -/

namespace Backend

variable {m : Type → Type} [Monad m] [MonadLiftT (Except Failure) m] {F C : Type} {M : Type}

/-- Marks of columns that follow a scheme. -/
structure Marking (B : Backend m F C) (E : Ending m) (M : Type) where
  scheme : Scheme M
  /-- The frames over which the marks of tokens are told. -/
  Good : F → Prop
  token : F → String → M
  Marked : F → M → C → Prop
  accepts {failure : Failure} : failure.isRefusal = false → E.Accepts failure
  column? {f : F} {name : String} {c : C} : Good f → B.column? f name = some c → Marked f (token f name) c
  constant {f : F} {name : String} {v : Value} : Good f → B.column? f name = none →
    Value.ofToken? (B.options f).datePatterns name = some v → E.Holds (B.literal f v) (Marked f (token f name))
  quoted {f : F} {content : String} {v : Value} : Good f → v = .string content ∨ v.dataType = .date →
    E.Holds (B.literal f v) (Marked f (scheme.quoted content))
  rename {f : F} {x : M} {c : C} (name : String) : Marked f x c → Marked f x (B.rename c name)
  execute {f : F} {r : Resolved} {types : List DataType} {marks : List M} {args : List C} (scope : Scope) : Good f →
    r.Applies types → types.length = args.length → List.Forall₂ (Marked f) marks args →
    E.Holds (B.execute f r args scope) (Marked f (scheme.call r.name marks))
  globalize {f w : F} {x : M} {c : C} : Good f → Good w → Marked w x c →
    E.Holds (B.globalize w c) (Marked f (scheme.global [x]))

namespace Marking

variable {B : Backend m F C} {E : Ending m}

section Parts

variable (K : B.Marking E M) {f w : F} {scope : Scope} (hf : K.Good f)

/-- The mark of a tree over a frame, with the whole frame at hand. -/
def markOf (f w : F) (e : Expr) : M := e.mark K.scheme (K.token f) (K.token w)

/-- The column is marked as the form of the tree says. -/
def Describes (f w : F) (e : Expr) (c : C) : Prop := K.Marked f (K.markOf f w e) c

include K

theorem holds_fail {α : Type} {failure : Failure} {P : α → Prop} (h : failure.isRefusal = false) :
    E.Holds (fail failure : m α) P :=
  E.refuse (K.accepts h)

include hf

theorem holds_token (name : String) : E.Holds (B.token f name) (K.Marked f (K.token f name)) := by
  unfold Backend.token
  cases hcolumn : B.column? f name with
  | some c => exact E.pure (K.column? hf hcolumn)
  | none =>
    dsimp only
    split
    · rename_i v hv
      exact K.constant hf hcolumn hv
    · exact K.holds_fail rfl

theorem holds_quoted (content : String) :
    E.Holds (B.literal f (Value.ofQuoted (B.options f).datePatterns content)) (K.Marked f (K.scheme.quoted content)) := by
  refine K.quoted hf ?_
  unfold Value.ofQuoted
  split
  · exact .inr rfl
  · exact .inl rfl

variable [LawfulMonad m]

/-- A quoted text that is read again keeps its mark. -/
theorem holds_reread {operands : List (Expr × C)} (h : ∀ p ∈ operands, K.Describes f w p.1 p.2) :
    E.Holds (B.reread f operands) (List.Forall₂ (fun p c => K.Describes f w p.1 c) operands) := by
  rw [reread_eq]
  refine E.mapM fun p hp => ?_
  obtain ⟨e, c⟩ := p
  rcases Resolved.quotedDate_cases e (B.dataType c) with ⟨content, rfl, htype⟩ | hnot
  · rw [rereadOne_quoted htype]
    exact K.quoted hf (.inl rfl)
  · rw [rereadOne_of_not hnot]
    exact E.pure (h _ hp)

theorem holds_apply {e : Expr} {name : String} {operands : List (Expr × C)}
    (h : ∀ p ∈ operands, K.Describes f w p.1 p.2) :
    E.Holds (B.apply f scope e name operands)
      (K.Marked f (K.scheme.call name ((operands.map (·.1)).map (K.markOf f w)))) := by
  unfold apply
  refine E.bind (E.lift (fun _ => id) fun failure hfailure => ?_) fun resolved hresolved => ?_
  · exact K.accepts (Resolved.isRefusal_ofOperands hfailure)
  obtain ⟨r, asText⟩ := resolved
  obtain ⟨rfl, happlies⟩ := Resolved.ofOperands_ok hresolved
  have hread : E.Holds (if asText then B.reread f operands else pure (operands.map (·.2)))
      (List.Forall₂ (fun p c => K.Describes f w p.1 c) operands) := by
    split
    · exact K.holds_reread hf h
    · refine E.pure ?_
      rw [List.forall₂_map_right_iff, List.forall₂_same]
      exact h
  refine E.ite_bind (E.bind hread fun cs hcs => ?_)
  have hmarks : List.Forall₂ (K.Marked f) (operands.map fun p => K.markOf f w p.1) cs := List.forall₂_map_left_iff.2 hcs
  rw [List.map_map]
  refine E.bind (K.execute scope hf happlies ?_ hmarks) fun c hc => E.pure (K.rename e.text hc)
  rw [Resolved.length_operandTypes, List.length_map, hcs.length_eq]

end Parts

section Trees

variable {K : B.Marking E M}

/-- The tree gives a column that is marked as its form says. -/
def Marks (K : B.Marking E M) (e : Expr) : Prop :=
  ∀ (scope : Scope) {f w : F}, K.Good f → K.Good w →
    E.Holds (B.eval e scope f w) fun o => ∃ c, o = .column c ∧ K.Describes f w e c

theorem marks_quoted (content : String) : K.Marks (.quoted content) := by
  intro scope f w hf _
  rw [eval]
  exact E.bind (K.holds_quoted hf content) fun c hc => E.pure ⟨c, rfl, hc⟩

theorem marks_leaf (name : String) : K.Marks (.leaf name) := by
  intro scope f w hf _
  rw [eval]
  exact E.bind (K.holds_token hf name) fun c hc => E.pure ⟨c, rfl, hc⟩

theorem marks_binary [LawfulMonad m] {op : BinaryOp} {left right : Expr} (hleft : K.Marks left)
    (hright : K.Marks right) : K.Marks (.binary op left right) := by
  intro scope f w hf hw
  rw [eval]
  refine holds_column (hleft scope hf hw) fun l hl => holds_column (hright scope hf hw) fun r hr => ?_
  have hoperands : ∀ p ∈ [(left, l), (right, r)], K.Describes f w p.1 p.2 := by
    rw [List.forall_mem_cons, List.forall_mem_singleton]
    exact ⟨hl, hr⟩
  exact E.bind (K.holds_apply hf hoperands) fun c hc => E.pure ⟨c, rfl, hc⟩

variable {name : String} {args : List Expr} (hargs : ∀ arg ∈ args, K.Marks arg)

include hargs

theorem holds_evalColumns (scope : Scope) {f w : F} (hf : K.Good f) (hw : K.Good w) :
    E.Holds (B.evalColumns args scope f w) (List.Forall₂ (K.Describes f w) args) := by
  induction args with
  | nil =>
    rw [evalColumns]
    exact E.pure .nil
  | cons arg more ih =>
    rw [List.forall_mem_cons] at hargs
    rw [evalColumns]
    refine holds_column (hargs.1 scope hf hw) fun c hc => ?_
    exact E.bind (ih hargs.2) fun cs hcs => E.pure (.cons hc hcs)

theorem marks_operation [LawfulMonad m] (hform : SpecialForm.named? name = none) : K.Marks (.call name args) := by
  intro scope f w hf hw
  unfold eval
  rw [hform]
  refine E.bind (holds_evalColumns hargs scope hf hw) fun cs hcs => ?_
  have hoperands : ∀ p ∈ args.zip cs, K.Describes f w p.1 p.2 := fun p hp => (List.forall₂_iff_zip.1 hcs).2 hp
  refine E.bind (K.holds_apply hf hoperands) fun c hc => E.pure ⟨c, rfl, ?_⟩
  unfold Describes markOf Expr.mark
  rw [hform, Expr.marksOf_eq_map]
  rwa [List.map_fst_zip (Nat.le_of_eq hcs.length_eq)] at hc

/-- What `global` gives is marked over the whole frame, and counts for any frame. -/
theorem marks_global (hform : SpecialForm.named? name = some .global) : K.Marks (.call name args) := by
  intro scope f w hf hw
  unfold eval
  rw [hform]
  dsimp only
  split
  · rename_i inner
    refine holds_column (hargs inner List.mem_cons_self .groups hw hw) fun c hc => ?_
    refine E.bind (K.globalize hf hw hc) fun d hd => E.pure ⟨_, rfl, K.rename _ ?_⟩
    unfold markOf Expr.mark
    rw [hform]
    exact hd
  · exact K.holds_fail rfl

omit hargs

/-- A columnar tree gives a column that is marked as its form says. -/
theorem marks [LawfulMonad m] {e : Expr} (he : e.isColumnar = true) : K.Marks e := by
  cases e with
  | quoted content => exact marks_quoted content
  | leaf name => exact marks_leaf name
  | binary op left right =>
    rw [Expr.isColumnar, Bool.and_eq_true] at he
    exact marks_binary (marks he.1) (marks he.2)
  | call name args =>
    have hargs (h : Expr.areColumnar args = true) : ∀ arg ∈ args, K.Marks arg := fun arg harg =>
      have hsize := List.sizeOf_lt_of_mem harg
      marks (Expr.areColumnar_iff.1 h arg harg)
    unfold Expr.isColumnar at he
    cases hform : SpecialForm.named? name with
    | none =>
      rw [hform] at he
      exact marks_operation (hargs he) hform
    | some form =>
      rw [hform] at he
      cases form with
      | global => exact marks_global (hargs he) hform
      | _ => cases he
  | assign name value => cases he
termination_by sizeOf e
decreasing_by
  all_goals subst_vars
  all_goals simp_wf
  all_goals omega

end Trees

end Marking

end Backend

end Tabular
