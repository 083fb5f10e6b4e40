-- SUMMARY: Sorting and grouping give the columns of a derived source: which statement it is over.
import Tabular.Proofs.Evaluation.Ending
import Tabular.Proofs.Results
import Tabular.Proofs.Sql.Frame
import Tabular.Proofs.Sql.Work

/-!
# Derived sources

Sorting and grouping compose a statement and make a source of it. The frame that they give has nothing but columns of
this source. Sorting takes the statement of the whole frame; grouping composes one of the keys and of what the reducers
give.
-/

namespace Tabular.Sql.Frame

variable {δ : Type} {f : Frame}

/-- The frame is over a source that was derived from another one, and has nothing but columns of it. -/
def DerivesFrom (g : Frame) (s : Source) (query : Query) : Prop :=
  ∃ mark order outputs, g = ofOutputs { s with mark, query, depth := s.depth + 1, order } outputs

theorem derivesFrom_derive (s : Source) (query : Query) (order : Option SortOrder) (outputs : List Output) :
    Work.partialResult.Holds (do return ofOutputs (← s.derive query order) outputs : Work δ Frame) fun g =>
      g.DerivesFrom s query :=
  fun _ => ⟨_, _, outputs, rfl⟩

/-- A sorted frame is over the statement of the frame before it. -/
theorem holds_sort_derives (f : Frame) (ascending : Bool) (keys : List String) :
    Work.partialResult.Holds (f.sort ascending keys : Work δ Frame) fun g => g.DerivesFrom f.source f.query :=
  Work.partialResult.bind (Work.partialResult_any _) fun _ _ => derivesFrom_derive f.source f.query _ _

/-- The field is the column of the key. -/
def KeyField (f : Frame) (key : String) (field : Field) : Prop :=
  ∃ c, f.column? key = some c ∧ field = ⟨c.term, key⟩

theorem forall_keyField {keys : List String} {fields : List GroupField} (h : keys.mapM f.keyField = .ok fields) :
    List.Forall₂ f.KeyField keys (fields.map (·.1)) := by
  rw [List.forall₂_map_right_iff]
  refine (mapM_eq_ok.1 h).imp fun key field hfield => ?_
  obtain ⟨c, hc, rfl⟩ := keyField_ok hfield
  exact ⟨c, hc, rfl⟩

section Groups

variable (keys : List String) {reducers : List (Reducer (Work δ) Frame Column)}

/-- A grouped frame is over the statement of its keys and of what the reducers give. -/
theorem holds_group_derives {R : Reducer (Work δ) Frame Column → Field → Prop}
    (h : ∀ r ∈ reducers, Work.partialResult.Holds (r.run { f with groupKeys := some keys } f) fun c =>
      R r ⟨c.term, r.name⟩) :
    Work.partialResult.Holds (f.group keys reducers) fun g => ∃ keyed reduced : List Field,
      g.DerivesFrom f.source (f.source.select (keyed ++ reduced) (keyed.map Field.term)) ∧
        List.Forall₂ f.KeyField keys keyed ∧ List.Forall₂ R reducers reduced := by
  have hreduce : ∀ r ∈ reducers, ∀ fields : List GroupField,
      Work.partialResult.Holds (f.reduce keys fields r) fun field => R r field.1 := by
    intro r hr fields
    refine Work.partialResult_guard (Work.partialResult.bind (h r hr) fun c hc => ?_)
    exact Work.partialResult_guard (Work.partialResult.pure hc)
  refine Work.partialResult.bind (Work.partialResult_lift fun _ => forall_keyField) fun keyed hkeyed => ?_
  refine Work.partialResult.bind (Work.partialResult.foldlM_collect hreduce keyed) fun fields hfields => ?_
  obtain ⟨reduced, rfl, hreduced⟩ := hfields
  refine Work.partialResult.mono (derivesFrom_derive f.source _ none _) fun g hg => ?_
  refine ⟨keyed.map (·.1), reduced.map (·.1), ?_, hkeyed, List.forall₂_map_right_iff.2 hreduced⟩
  rw [List.map_append] at hg
  rwa [List.map_map]

/-- Whatever the reducers give, the groups are over the terms of their keys. -/
theorem holds_group_keyed (f : Frame) (reducers : List (Reducer (Work δ) Frame Column)) :
    Work.partialResult.Holds (f.group keys reducers) fun g => ∃ keyed reduced : List Field,
      g.DerivesFrom f.source (f.source.select (keyed ++ reduced) (keyed.map Field.term)) ∧
        List.Forall₂ f.KeyField keys keyed := by
  refine Work.partialResult.mono (holds_group_derives keys (R := fun _ _ => True) fun _ _ => ?_) fun g hg => ?_
  · exact Work.partialResult_any _
  obtain ⟨keyed, reduced, hderives, hkeyed, -⟩ := hg
  exact ⟨keyed, reduced, hderives, hkeyed⟩

/-- What is known of the terms of columns and of what the reducers give is known of all terms of the statement. -/
theorem holds_group_forall {P : Term → Prop} (hcolumns : ∀ c ∈ f.columns, P c.term)
    (h : ∀ r ∈ reducers, Work.partialResult.Holds (r.run { f with groupKeys := some keys } f) fun c => P c.term) :
    Work.partialResult.Holds (f.group keys reducers) fun g => ∃ (fields : List Field) (groupBy : List Term),
      g.DerivesFrom f.source (f.source.select fields groupBy) ∧ (∀ field ∈ fields, P field.term) ∧
        ∀ t ∈ groupBy, P t := by
  have hgroup := holds_group_derives keys (R := fun _ field => P field.term) h
  refine Work.partialResult.mono hgroup fun g hg => ?_
  obtain ⟨keyed, reduced, hderives, hkeyed, hreduced⟩ := hg
  have hkeys : ∀ field ∈ keyed, P field.term := fun field hfield => by
    obtain ⟨key, -, c, hc, rfl⟩ := exists_of_mem_forall₂ hkeyed hfield
    exact hcolumns c (ColumnSet.mem_columns hc)
  have hfields : ∀ field ∈ reduced, P field.term := fun field hfield => by
    obtain ⟨-, -, hfield⟩ := exists_of_mem_forall₂ hreduced hfield
    exact hfield
  exact ⟨_, _, hderives, List.forall_mem_append.2 ⟨hkeys, hfields⟩, List.forall_mem_map.2 hkeys⟩

end Groups

end Tabular.Sql.Frame
