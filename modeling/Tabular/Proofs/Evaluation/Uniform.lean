-- SUMMARY: Formulas with one value for all rows, as a scheme of marks.
import Tabular.Proofs.Evaluation.Marks

/-!
# Uniform formulas

A formula is uniform if it has one value for all rows: it reads columns with a cell for each row only inside of
aggregates and of `global`. This is told by the form of the tree, once it is known which names are those columns.
-/

namespace Tabular

/-- The refusal of a formula that has no single value for a group. -/
def Failure.isNotReducing : Failure → Bool
  | .notReducing .. => true
  | _ => false

theorem Failure.isNotReducing_of_isRefusal {failure : Failure} (h : failure.isRefusal = false) :
    failure.isNotReducing = false := by
  unfold isNotReducing
  split
  · cases h
  · rfl

/-! ## Scalar operations -/

theorem Operation.named?_builtIn : ∀ operation ∈ builtIn, named? operation.name = some operation := by
  decide

/-- Whether a call of the name takes whole columns to one value. -/
def Operation.isScalarName (name : String) : Bool := (named? name).any (·.scalar)

theorem Resolved.isScalarName {r : Resolved} (h : r.operation ∈ Operation.builtIn) :
    Operation.isScalarName r.name = r.isScalar := by
  unfold Operation.isScalarName Resolved.name
  rw [Operation.named?_builtIn _ h]
  rfl

theorem Operation.rowWise_binary (op : BinaryOp) :
    isScalarName op.operation = false ∧ op.operation ≠ "row_number" := by
  cases op <;> decide

/-- Whether the result of an operation has a cell for each row, where the operands that have one are told. -/
def Operation.spansOver (name : String) (operands : List Bool) : Bool :=
  !isScalarName name && (name == "row_number" ||
    (if name ∈ ["cast", "cat", "applyCat"] then operands.headD false else operands.any id))

theorem Operation.spansOver_of_none {name : String} {operands : List Bool}
    (h : isScalarName name = true ∨ name ≠ "row_number" ∧ ∀ operand ∈ operands, operand = false) :
    spansOver name operands = false := by
  unfold spansOver
  rcases h with hscalar | ⟨hname, hnone⟩
  · rw [hscalar]
    rfl
  · have hfirst : operands.headD false = false := by
      cases operands with
      | nil => rfl
      | cons operand more => exact hnone operand List.mem_cons_self
    have hany : operands.any id = false := List.any_eq_false.2 fun operand hmem => by simp [hnone operand hmem]
    rw [hfirst, hany, beq_eq_false_iff_ne.2 hname, ite_self, Bool.or_false, Bool.and_false]

/-! ## Trees -/

/-- Uniformity is put together from parts: aggregates and `global` have it, and what numbers the rows has not. -/
def Scheme.uniform : Scheme Bool where
  quoted _ := true
  call name operands := Operation.isScalarName name || (name != "row_number" && operands.all id)
  global _ := true
  other := false

namespace Expr

mutual

/-- Whether a tree has one value for all rows, where `perRow` tells the columns with a cell for each row. -/
def isUniform (perRow : String → Bool) : Expr → Bool
  | .quoted _ => true
  | .leaf name => !perRow name
  | .binary _ left right => left.isUniform perRow && right.isUniform perRow
  | .call name args =>
    match SpecialForm.named? name with
    | none => Operation.isScalarName name || (name != "row_number" && areUniform perRow args)
    | some .global => true
    | some .by | some .sort | some .plot => false
  | .assign _ _ => false

def areUniform (perRow : String → Bool) : List Expr → Bool
  | [] => true
  | arg :: more => arg.isUniform perRow && areUniform perRow more

end

theorem areUniform_eq_all (perRow : String → Bool) (args : List Expr) :
    areUniform perRow args = args.all (isUniform perRow) := by
  induction args with
  | nil => rfl
  | cons arg more ih => rw [areUniform, ih, List.all_cons]

/-- The mark of a tree tells whether it is uniform, whatever the whole frame is. -/
theorem isUniform_eq_mark (perRow : String → Bool) (whole : String → Bool) (e : Expr) :
    e.isUniform perRow = e.mark .uniform (fun name => !perRow name) whole := by
  cases e with
  | quoted content => rfl
  | leaf name => rfl
  | binary op left right =>
    obtain ⟨hscalar, hname⟩ := Operation.rowWise_binary op
    rw [isUniform, mark, isUniform_eq_mark perRow whole left, isUniform_eq_mark perRow whole right]
    simp [Scheme.uniform, hscalar, hname]
  | call name args =>
    unfold isUniform mark
    cases hform : SpecialForm.named? name with
    | none =>
      have hargs : args.map (isUniform perRow) = args.map (mark .uniform (fun name => !perRow name) whole) :=
        List.map_congr_left fun arg harg =>
          have hsize := List.sizeOf_lt_of_mem harg
          isUniform_eq_mark perRow whole arg
      rw [areUniform_eq_all, marksOf_eq_map, ← hargs]
      simp [Scheme.uniform]
    | some form => cases form <;> rfl
  | assign name value => rfl
termination_by sizeOf e
decreasing_by
  all_goals subst_vars
  all_goals simp_wf
  all_goals omega

/-- The fewer columns have a cell for each row, the more trees are uniform. -/
theorem isUniform_mono {perRow perRow' : String → Bool} (h : ∀ name, perRow' name = true → perRow name = true)
    {e : Expr} (he : e.isUniform perRow = true) : e.isUniform perRow' = true := by
  cases e with
  | quoted content => rfl
  | leaf name =>
    simp only [isUniform, Bool.not_eq_true'] at he ⊢
    exact Bool.eq_false_iff.2 fun hname => Bool.eq_false_iff.1 he (h name hname)
  | binary op left right =>
    simp only [isUniform, Bool.and_eq_true] at he ⊢
    exact ⟨isUniform_mono h he.1, isUniform_mono h he.2⟩
  | call name args =>
    unfold isUniform at he ⊢
    split at he
    · simp only [Bool.or_eq_true, Bool.and_eq_true, areUniform_eq_all, List.all_eq_true] at he ⊢
      refine he.imp id fun hargs => ⟨hargs.1, fun arg harg => ?_⟩
      have hsize := List.sizeOf_lt_of_mem harg
      exact isUniform_mono h (hargs.2 arg harg)
    · rfl
    all_goals cases he
  | assign name value => cases he
termination_by sizeOf e
decreasing_by
  all_goals subst_vars
  all_goals simp_wf
  all_goals omega

end Expr

end Tabular
