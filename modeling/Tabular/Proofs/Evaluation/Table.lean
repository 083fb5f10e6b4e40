-- SUMMARY: A formula reads the whole frame only in the values of its calls of `global`.
import Tabular.Proofs.Evaluation.Outcome

/-!
# Global values

A formula of `by` is evaluated on the rows of a group, and only `global` turns to the whole frame. So it gives what it
gives over the rows alone when the values of `global` are looked up in a table, and the table is the one of the whole
frame, whatever the group is.
-/

namespace Tabular.Backend

variable {F C : Type}

/-- The value of `global` of a tree over a whole frame. -/
def globalOf (B : Backend (Except Failure) F C) (whole : F) (e : Expr) : Except Failure C := do
  let column ← asColumn e (← B.eval e .groups whole whole)
  return B.rename (← B.globalize whole column) (Expr.call "global" [e]).text

mutual

/-- Evaluate a tree that gives a column over one frame, where a table has the values of `global`. -/
def evalWith (B : Backend (Except Failure) F C) (table : Expr → Except Failure C) (scope : Scope) (frame : F) :
    Expr → Except Failure C
  | .quoted content => B.literal frame (Value.ofQuoted (B.options frame).datePatterns content)
  | .leaf name => B.token frame name
  | .binary op left right => do
    let l ← evalWith B table scope frame left
    let r ← evalWith B table scope frame right
    B.apply frame scope (.binary op left right) op.operation [(left, l), (right, r)]
  | .call name args =>
    match SpecialForm.named? name with
    | none => do
      let columns ← evalColumnsWith B table scope frame args
      B.apply frame scope (.call name args) name (args.zip columns)
    | some .global =>
      match args with
      | [inner] => table inner
      | _ => .error (.arity "global" "1" args.length)
    | some _ => .error (.noColumnType (Expr.call name args).text)
  | .assign name _ => .error (.strayAssignment name)

/-- Evaluate several trees with a table. -/
def evalColumnsWith (B : Backend (Except Failure) F C) (table : Expr → Except Failure C) (scope : Scope) (frame : F) :
    List Expr → Except Failure (List C)
  | [] => .ok []
  | arg :: more => do
    let column ← evalWith B table scope frame arg
    return column :: (← evalColumnsWith B table scope frame more)

end

variable {B : Backend (Except Failure) F C} {scope : Scope} {f w : F}

/-- A step over the column that a tree gives succeeds as it does over the same column found in another way. -/
theorem asColumn_bind_iff {α β : Type} {e : Expr} {x : Except Failure (Outcome F C)} {y : Except Failure C}
    (hxy : ∀ c, x = .ok (.column c) ↔ y = .ok c) {rest : C → Except Failure α} {rest' : C → Except Failure β} {a : α}
    {b : β} (hrest : ∀ c, rest c = .ok a ↔ rest' c = .ok b) :
    (do rest (← asColumn e (← x))) = .ok a ↔ (do rest' (← y)) = .ok b := by
  simp only [bind_eq_ok]
  constructor
  · rintro ⟨o, ho, c, hc, ha⟩
    obtain rfl := asColumn_eq_ok hc
    exact ⟨c, (hxy c).1 ho, (hrest c).1 ha⟩
  · rintro ⟨c, hc, hb⟩
    exact ⟨_, (hxy c).2 hc, c, rfl, (hrest c).2 hb⟩

theorem column_iff {x : Except Failure C} {c : C} :
    (do return Outcome.column (← x) : Except Failure (Outcome F C)) = .ok (.column c) ↔ x = .ok c := by
  cases x with
  | error failure => simp [bind, Except.bind]
  | ok d => simp [bind, Except.bind, pure, Except.pure]

theorem evalWith_form {table : Expr → Except Failure C} {name : String} {args : List Expr} {form : SpecialForm}
    (hform : SpecialForm.named? name = some form) (hglobal : form ≠ .global) :
    B.evalWith table scope f (.call name args) = .error (.noColumnType (Expr.call name args).text) := by
  unfold evalWith
  rw [hform]
  cases form with
  | global => exact absurd rfl hglobal
  | _ => rfl

mutual

/-- Over a part of a whole frame a tree gives what it gives over the part alone, with the table of the whole frame. -/
theorem eval_column_iff (e : Expr) (c : C) :
    B.eval e scope f w = .ok (.column c) ↔ B.evalWith (B.globalOf w) scope f e = .ok c := by
  cases e with
  | quoted content =>
    rw [eval, evalWith]
    exact column_iff
  | leaf name =>
    rw [eval, evalWith]
    exact column_iff
  | binary op left right =>
    rw [eval, evalWith]
    refine asColumn_bind_iff (eval_column_iff left) fun l => ?_
    exact asColumn_bind_iff (eval_column_iff right) fun r => column_iff
  | call name args =>
    cases hform : SpecialForm.named? name with
    | none =>
      unfold eval evalWith
      rw [hform]
      dsimp only
      rw [bind_eq_ok, bind_eq_ok]
      exact exists_congr fun cs => and_congr (evalColumns_iff args cs) column_iff
    | some form =>
      cases form with
      | global =>
        obtain rfl : name = "global" := SpecialForm.eq_name_of_named? hform
        unfold eval evalWith
        rw [hform]
        dsimp only
        split
        · simp only [globalOf, bind_eq_ok, pure, Except.pure, Except.ok.injEq, Outcome.column.injEq]
        · simp [fail]
      -- The other special forms give no columns.
      | «by» =>
        rw [evalWith_form hform (by decide)]
        refine iff_of_false (fun h => ?_) (by simp)
        obtain ⟨_, _, _, _, _, _, ho⟩ := eval_by_ok hform h
        cases ho
      | sort =>
        rw [evalWith_form hform (by decide)]
        refine iff_of_false (fun h => ?_) (by simp)
        obtain ⟨_, _, _, _, ho⟩ := eval_sort_ok hform h
        cases ho
      | plot =>
        rw [evalWith_form hform (by decide)]
        refine iff_of_false (fun h => ?_) (by simp)
        obtain ⟨_, _, _, _, _, _, _, _, _, _, _, ho⟩ := eval_plot_ok hform h
        cases ho
  | assign name value =>
    rw [eval, evalWith]
    simp [fail]

theorem evalColumns_iff (args : List Expr) (cs : List C) :
    B.evalColumns args scope f w = .ok cs ↔ B.evalColumnsWith (B.globalOf w) scope f args = .ok cs := by
  match args with
  | [] =>
    rw [evalColumns, evalColumnsWith]
    rfl
  | arg :: more =>
    rw [evalColumns, evalColumnsWith]
    refine asColumn_bind_iff (eval_column_iff arg) fun c => ?_
    simp only [bind_eq_ok, evalColumns_iff more]

end

end Tabular.Backend
