-- SUMMARY: Evaluating over frames in memory keeps them valid and gives columns of the static types.
import Tabular.Proofs.Evaluation.Invariant
import Tabular.Proofs.Evaluation.StaticType
import Tabular.Proofs.Memory.Frame

/-!
# Evaluation in memory

Frames in memory are a backend that keeps its frames valid and its columns typed, and that keeps to types. The rows
of a group have the schema and the options of the whole frame, so what holds of one frame holds of the two that a
formula of `by` is evaluated over.
-/

namespace Tabular.Memory.Frame

/-- Frames in memory stay valid and their columns typed. -/
def invariant : backend.Invariant Ending.partialResult where
  GoodFrame := Valid
  GoodColumn := Column.Typed
  accepts _ := trivial
  any _ _ _ := trivial
  column? hf hc := hf.typed _ (hf.mem_of_column? hc).1
  rename _ hc := hc
  literal _ _ _ hc := (Column.literal_ok hc).1
  execute _ _ _ _ _ hc := (made_execute hc).typed
  sort _ _ hf _ hg := hf.sort hg
  group _ _ hf _ hg := hf.group hg
  globalize := by
    intro f c hc d hd
    obtain rfl := globalize_ok hd
    exact hc
  append hf hc _ hg := hf.append hc hg

/-- Frames in memory keep to types. -/
def typing : backend.Typing Ending.partialResult where
  Good := Column.Typed
  constant := Column.constant
  rename _ _ hc := ⟨hc, rfl⟩
  literal _ _ _ hc := ⟨(Column.literal_ok hc).1, (Column.literal_ok hc).2.1, (Column.literal_ok hc).2.2.1⟩
  execute := by
    intro f r args scope type happlies hargs htype c hc
    refine ⟨(made_execute hc).typed, ?_⟩
    have := dataType_execute happlies hargs hc
    rw [htype] at this
    exact (Except.ok.inj this).symm
  globalize := by
    intro f c hc d hd
    obtain rfl := globalize_ok hd
    exact ⟨hc, rfl⟩

/-! ## Operations -/

section Operations

variable {f : Frame} {patterns : List String} {name : String} {operands : List (Expr × Column)} {op : Resolved}
  {asText : Bool} {columns : List Column}

/-- An operation applies to the operands that it is handed. -/
theorem handed_columns (hoperands : ∀ p ∈ operands, typing.Operand patterns p.1 p.2)
    (hop : Resolved.ofOperands name (operands.map fun p => (p.1, p.2.dataType)) = .ok (op, asText))
    (hcolumns : (if asText then backend.reread f operands else pure (operands.map (·.2))) = .ok columns) :
    List.Forall₂ (fun p c => typing.Handed p.1 c) operands columns ∧ op.Applies (columns.map Column.dataType) := by
  obtain ⟨hhanded, htypes⟩ := typing.holds_columns (f := f) asText hoperands _ hcolumns
  exact ⟨hhanded, htypes ▸ (Resolved.ofOperands_ok hop).2⟩

/-- What an operation gives has the type of its result. -/
theorem resultType_execute (hhanded : List.Forall₂ (fun p c => typing.Handed p.1 c) operands columns)
    (happlies : op.Applies (columns.map Column.dataType)) {made : Column}
    (hmade : execute f.options f.rows op columns = .ok made) :
    op.resultType (columns.map Column.constant) = .ok made.dataType := by
  refine dataType_execute happlies (fun c hc => ?_) hmade
  obtain ⟨p, -, hp⟩ := exists_of_mem_forall₂ hhanded hc
  exact hp.good

end Operations

end Tabular.Memory.Frame
