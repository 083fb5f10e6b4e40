-- SUMMARY: A check of every call of an operation in memory never fails, whatever formula is evaluated.
import Tabular.Proofs.Evaluation.Calls
import Tabular.Proofs.Memory.Legitimate
import Tabular.Proofs.Memory.Reached

/-!
# Checked calls

Frames in memory can check each call of an operation: before it, that the signature accepts the types of the operands,
and after it, that it has not failed on itself. A check that fails gives up with an alarm. Over the frames that callers
can reach no formula can tell a checked evaluation from an unchecked one, whatever the alarm is, so no check ever fails:
neither in the formula itself, nor on the rows of a group, nor over the texts that quoted dates are taken for.
-/

namespace Tabular.Memory.Frame

variable {f : Frame}

/-! ## Groups -/

/-- A group is reduced alike by formulas that give the same over its rows. -/
theorem reduceGroup_congr (hf : f.Valid) {r r' : Reducer (Except Failure) Frame Column} (hname : r'.name = r.name)
    (hformula : r'.formula = r.formula) (hrun : ∀ u : Frame, u.Valid → r'.run u f = r.run u f) (rows : List Nat) :
    f.reduceGroup r' rows = f.reduceGroup r rows := by
  unfold reduceGroup
  refine bind_congr_of_ok fun u hu => ?_
  rw [hrun u (hf.take hu), hname, hformula]

theorem reduce_congr (hf : f.Valid) {r r' : Reducer (Except Failure) Frame Column} (hname : r'.name = r.name)
    (hformula : r'.formula = r.formula) (hrun : ∀ u : Frame, u.Valid → r'.run u f = r.run u f)
    (groups : List (List Nat)) : f.reduce groups r' = f.reduce groups r := by
  unfold reduce
  rw [funext (reduceGroup_congr hf hname hformula hrun), hname, hformula]

/-- Grouping evaluates formulas only on the rows of groups, which are valid frames. -/
theorem group_congr (hf : f.Valid) {keys : List String} {formulas : List (String × Expr)}
    {r r' : String × Expr → Reducer (Except Failure) Frame Column}
    (hnames : ∀ named, (r' named).name = (r named).name)
    (hformulas : ∀ named, (r' named).formula = (r named).formula)
    (hrun : ∀ named ∈ formulas, ∀ u : Frame, u.Valid → (r' named).run u f = (r named).run u f) :
    f.group keys (formulas.map r') = f.group keys (formulas.map r) := by
  have hreduce : ∀ (groups : List (List Nat)) (out : Frame),
      (formulas.map r').foldlM (fun (out : Frame) r => do out.append (← f.reduce groups r)) out =
        (formulas.map r).foldlM (fun (out : Frame) r => do out.append (← f.reduce groups r)) out := by
    intro groups
    induction formulas with
    | nil => exact fun _ => rfl
    | cons named more ih =>
      obtain ⟨hfirst, hmore⟩ := List.forall_mem_cons.1 hrun
      intro out
      rw [List.map_cons, List.map_cons, List.foldlM_cons, List.foldlM_cons,
        reduce_congr hf (hnames named) (hformulas named) hfirst]
      exact bind_congr_of_ok fun out' _ => ih hmore out'
  unfold Frame.group
  exact bind_congr_of_ok fun keyColumns _ => bind_congr_of_ok fun grouped _ => hreduce _ grouped

/-! ## Checks -/

/-- Run an operation, and give up with the alarm if the signature does not accept the operands or if the operation fails
    on itself. -/
def checkedExecute (alarm : Failure) (f : Frame) (op : Resolved) (args : List Column) (scope : Scope) :
    Except Failure Column :=
  if op.signature.accepts op.operation.variadic (args.map (·.dataType)) then
    match backend.execute f op args scope with
    | .ok c => .ok c
    | .error failure => .error (if isOwnFault op args failure then alarm else failure)
  else .error alarm

/-- Frames in memory that check each call of an operation. -/
def checked (alarm : Failure) : Backend (Except Failure) Frame Column := backend.withExecute (checkedExecute alarm)

/-- An operation that is not resolved for its operands raises the alarm. -/
example : checkedExecute .engine (.empty .default)
    ⟨Operation.rowWise "not" [Operation.sig [.integer] .integer], Operation.sig [.integer] .integer⟩
    [.ofSeries "s" (.strings ["a"])] .rows = .error .engine := rfl

theorem checkedExecute_eq {alarm : Failure} {op : Resolved} {args : List Column} (scope : Scope)
    (happlies : op.Applies (args.map (·.dataType))) (hargs : ∀ arg ∈ args, arg.Typed) :
    checkedExecute alarm f op args scope = backend.execute f op args scope := by
  have hends : EndsWell (fun failure => isOwnFault op args failure = false) (fun _ => True)
      (backend.execute f op args scope) := endsWell_execute happlies hargs
  unfold checkedExecute
  rw [if_pos happlies.accepts]
  cases hresult : backend.execute f op args scope with
  | ok c => rfl
  | error failure =>
    rw [hresult] at hends
    have hlegitimate : isOwnFault op args failure = false := hends
    dsimp only
    rw [hlegitimate, if_neg Bool.false_ne_true]

/-- Over valid frames the evaluation does not notice the checks. -/
theorem interchange_checked (alarm : Failure) : Backend.Interchange invariant (checkedExecute alarm) where
  literal h := (Column.literal_ok h).2.1
  execute scope _ happlies hargs := checkedExecute_eq scope happlies hargs
  group hf hrun := group_congr hf (fun _ => rfl) (fun _ => rfl) hrun

/-- Every operation that a formula over a reached frame runs, it runs over columns whose types the resolved signature
    accepts, and the operation does not fail on itself: if each call is checked for this, then formulas are evaluated,
    assigned and reduced over groups, or refused, as if nothing was checked, whatever the alarm of the checks is. -/
theorem checked_eq {f : Frame} (hf : f.Reached) (alarm : Failure) :
    (∀ text, (checked alarm).evaluate f text = f.evaluate text) ∧
      (∀ text, (checked alarm).assign f text = f.assign text) ∧
      ∀ (keys : List String) (formulas : List (String × Expr)),
        (checked alarm).group f keys (formulas.map (checked alarm).reducer) =
          f.group keys (formulas.map backend.reducer) := by
  have hsame := interchange_checked alarm
  refine ⟨hsame.evaluate_eq hf.valid, hsame.assign_eq hf.valid, fun keys formulas => ?_⟩
  refine hsame.group hf.valid fun named _ u hu => ?_
  unfold Backend.reducer
  dsimp only
  rw [hsame.same named.2 hu hf.valid]

/-- A quoted date is taken for a text, as the column holds texts, and the check of the comparison passes. -/
theorem checked_eq_text :
    let f := (empty .default).run [(.append (.ofSeries "s" (.strings ["2024-01-05", "b"])), false)]
    (checked .engine).evaluate f "s == '2024-01-05'" = f.evaluate "s == '2024-01-05'" ∧
      (f.evaluate "s == '2024-01-05'").toOption.bind (fun r => match r.outcome with
        | .column c => some c.data
        | _ => none) = some (.integers [1, 0]) := by
  intro f
  have hf : f.Reached := (Reached.empty .default).run fun c returned hc => by
    obtain ⟨rfl, -⟩ : c = .ofSeries "s" (.strings ["2024-01-05", "b"]) ∧ returned = false := by simpa using hc
    exact .ofSeries ..
  exact ⟨(checked_eq hf .engine).1 _, by decide +kernel⟩

end Tabular.Memory.Frame
