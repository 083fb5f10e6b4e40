-- SUMMARY: Parts of an evaluation under names of their own: an operand that is read again, and the reducers of `by`.
import Tabular.Evaluation
import Tabular.Proofs.Evaluation.Ending
import Tabular.Proofs.Formula.Dependency
import Tabular.Proofs.Operation.Resolve

/-!
# Parts of an evaluation

Of the operands that are read again only quoted dates change, which become texts.

Of the arguments of `by` the tokens are keys, in order and as often as they stand there, and the assignments become
reducers. A reducer evaluates its formula on the rows of a group, with the whole frame at hand, and does nothing else.
The formulas are parts of the arguments, so they are smaller, and their tokens are among those of the arguments.
-/

namespace Tabular.Backend

variable {m : Type → Type} [Monad m] {F C : Type}

/-! ## Operands -/

/-- What reading operands again makes of one of them. -/
def rereadOne (B : Backend m F C) (f : F) (operand : Expr × C) : m C :=
  match operand.1, B.dataType operand.2 with
  | .quoted content, .date => B.literal f (.string content)
  | _, _ => pure operand.2

theorem reread_eq (B : Backend m F C) (f : F) (operands : List (Expr × C)) :
    B.reread f operands = operands.mapM (B.rereadOne f) := rfl

theorem rereadOne_quoted {B : Backend m F C} {f : F} {content : String} {c : C} (h : B.dataType c = .date) :
    B.rereadOne f (.quoted content, c) = B.literal f (.string content) := by
  simp only [rereadOne, h]

theorem rereadOne_of_not {B : Backend m F C} {f : F} {e : Expr} {c : C}
    (h : Resolved.isQuotedDate e (B.dataType c) = false) : B.rereadOne f (e, c) = pure c := by
  unfold rereadOne
  split
  · rename_i content heq htype
    obtain rfl : e = .quoted content := heq
    have htype : B.dataType c = .date := htype
    simp [Resolved.isQuotedDate, htype] at h
  · rfl

/-! ## Reducers -/

variable [MonadLiftT (Except Failure) m]

/-- The reducer of a named formula. -/
def reducer (B : Backend m F C) (named : String × Expr) : Reducer m F C where
  name := named.1
  formula := named.2
  run group whole := do asColumn named.2 (← B.eval named.2 .groups group whole)

/-- The formulas that arguments of `by` name. -/
def reductions : List Expr → List (String × Expr)
  | [] => []
  | .assign name value :: more => (name, value) :: reductions more
  | _ :: more => reductions more

/-- The keys among the arguments of `by`. -/
def keysOf : List Expr → List String
  | [] => []
  | .leaf name :: more => name :: keysOf more
  | _ :: more => keysOf more

section Arguments

variable {B : Backend m F C} {E : Ending m} (haccepts : ∀ failure, E.Accepts failure)

include haccepts

theorem holds_fail_any {α : Type} (failure : Failure) (P : α → Prop) : E.Holds (fail failure : m α) P :=
  E.refuse (haccepts failure)

theorem holds_key (f : F) (form : String) (e : Expr) : E.Holds (B.key f form e) fun key => e = .leaf key := by
  cases e with
  | leaf name =>
    unfold key
    dsimp only
    split
    · exact E.pure rfl
    · exact holds_fail_any haccepts _ _
  | _ => exact holds_fail_any haccepts _ _

/-- The arguments of `by` are its keys and the formulas to reduce. -/
theorem holds_groupArguments (args : List Expr) (f : F) :
    E.Holds (groupArguments B args f) fun parts => parts = (keysOf args, (reductions args).map B.reducer) := by
  induction args with
  | nil => exact E.pure rfl
  | cons arg more ih =>
    cases arg with
    | assign name value =>
      rw [groupArguments]
      refine E.bind ih fun parts hparts => E.pure ?_
      rw [hparts]
      rfl
    | leaf name =>
      rw [groupArguments]
      · refine E.bind (holds_key haccepts f "by" _) fun key hkey => ?_
        obtain rfl := Expr.leaf.inj hkey
        refine E.bind ih fun parts hparts => E.pure ?_
        rw [hparts]
        rfl
      · simp
    | _ =>
      rw [groupArguments]
      · exact E.bind (holds_key haccepts f "by" _) fun key hkey => by cases hkey
      · simp

end Arguments

theorem groupArguments_ok {B : Backend (Except Failure) F C} {args : List Expr} {f : F} {keys : List String}
    {reducers : List (Reducer (Except Failure) F C)} (h : groupArguments B args f = .ok (keys, reducers)) :
    keys = keysOf args ∧ reducers = (reductions args).map B.reducer :=
  Prod.mk.inj (holds_groupArguments (E := .partialResult) (fun _ => trivial) args f _ h)

/-- A key is looked up by its name alone. -/
theorem key_congr {B : Backend m F C} {f f' : F}
    (h : ∀ name, (B.column? f' name).isSome = (B.column? f name).isSome) (form : String) (e : Expr) :
    B.key f' form e = B.key f form e := by
  cases e with
  | leaf name => simp only [key, h]
  | _ => rfl

/-- The arguments of `by` are the same over frames with the same names. -/
theorem groupArguments_congr {B : Backend m F C} {f f' : F}
    (h : ∀ name, (B.column? f' name).isSome = (B.column? f name).isSome) (args : List Expr) :
    groupArguments B args f' = groupArguments B args f := by
  induction args with
  | nil => rfl
  | cons arg more ih =>
    cases arg with
    | assign name value => rw [groupArguments, groupArguments, ih]
    | _ =>
      rw [groupArguments, groupArguments, ih, key_congr h]
      · simp
      · simp

theorem assign_mem_of_reduction {args : List Expr} {named : String × Expr} (h : named ∈ reductions args) :
    .assign named.1 named.2 ∈ args := by
  induction args with
  | nil => simp [reductions] at h
  | cons arg more ih =>
    cases arg with
    | assign name value =>
      rcases List.mem_cons.1 h with rfl | h
      · exact List.mem_cons_self
      · exact List.mem_cons_of_mem _ (ih h)
    | _ => exact List.mem_cons_of_mem _ (ih h)

theorem sizeOf_reduction {args : List Expr} {named : String × Expr} (h : named ∈ reductions args) :
    sizeOf named.2 < sizeOf args := by
  have hsize := List.sizeOf_lt_of_mem (assign_mem_of_reduction h)
  rw [Expr.assign.sizeOf_spec] at hsize
  omega

theorem tokens_reduction {args : List Expr} {named : String × Expr} (h : named ∈ reductions args) :
    named.2.tokens ⊆ Expr.tokensOf args := by
  have hsubset := Expr.tokens_subset_tokensOf (assign_mem_of_reduction h)
  rwa [Expr.tokens] at hsubset

end Tabular.Backend
