-- SUMMARY: A store fails late and reads series with the storage of the types asked for.
import Mathlib.Data.List.SplitBy
import Tabular.Proofs.Series
import Tabular.Proofs.Sql.Store.View
import Tabular.Proofs.Sql.Work
import Tabular.Sql.Store

/-!
# Stores are faithful

The cells of a stored table are there, so the tables of a store fail late. A statement over a relation that fails late
gives another one, and so does a query. Reading a relation adds its cells to series that keep their types.
-/

namespace Tabular.Sql

/-! ## Statements -/

/-- All cells of the relation fail late. -/
def Relation.IsLate (r : Relation) : Prop := ∀ cells ∈ r.rows, ∀ cell ∈ cells, Late cell

theorem Relation.IsLate.view {r : Relation} (h : r.IsLate) : r.view.IsLate := by
  have hrows : ∀ row ∈ r.view.source, row.IsLate := by
    intro row hrow
    obtain ⟨⟨cells, number⟩, hmem, rfl⟩ := List.mem_map.1 hrow
    exact h cells (List.fst_mem_of_mem_zipIdx hmem)
  exact ⟨hrows, hrows, hrows, by simp [Relation.view]⟩

theorem late_groupKey (fields : List Field) (key : Term) : Late (groupKey fields key) := by
  unfold groupKey
  dsimp only
  split
  · exact Late.guard rfl Late.pure
  · split
    · exact Late.guard rfl Late.pure
    · exact Late.throw rfl

namespace View

variable {v : View}

/-- Groups consist of rows of the source. -/
theorem IsLate.holds_groups (h : v.IsLate) (keys : List Term) :
    Ending.late.Holds (v.groups keys) fun groups => ∀ group ∈ groups, ∀ row ∈ group, row.IsLate := by
  -- The keys of a row are computed first; sorting and splitting only move rows around.
  have hkeyed : Ending.late.Holds (v.source.mapM fun row => do
        return (← (Term.evalAll (v.on row) keys).mapM id, row) : Except Failure (List (List Cell × Row)))
      fun keyed => List.Forall₂ (fun row pair => pair.2 = row) v.source keyed := by
    refine Ending.late.mapM fun row hrow => ?_
    have hcells : Late ((Term.evalAll (v.on row) keys).mapM id) :=
      Late.mapM fun cell hcell => Term.late_evalAll (h.on (h.source row hrow)) keys cell hcell
    exact Ending.late.bind (Ending.late_of hcells) fun _ _ => Ending.late.pure rfl
  refine Ending.late.bind hkeyed fun keyed hall => Ending.late.pure fun group hgroup row hrow => ?_
  obtain ⟨run, hrun, rfl⟩ := List.mem_map.1 hgroup
  obtain ⟨pair, hpair, rfl⟩ := List.mem_map.1 hrow
  have hsorted : pair ∈ sortByKeys true keyed := by
    rw [← List.flatten_splitBy (fun a b : List Cell × Row => sameCells a.1 b.1) (sortByKeys true keyed)]
    exact List.mem_flatten.2 ⟨run, hrun, hpair⟩
  obtain ⟨source, hsource, heq⟩ := exists_of_mem_forall₂ hall (List.mem_mergeSort.1 hsorted)
  exact heq ▸ h.source source hsource

theorem IsLate.groupViews (h : v.IsLate) {groups : List (List Row)}
    (hgroups : ∀ group ∈ groups, ∀ row ∈ group, row.IsLate) :
    ∀ u ∈ v.groupViews groups, u.IsLate := by
  intro u hu
  obtain ⟨group, hgroup, rfl⟩ := List.mem_map.1 hu
  refine ⟨h.source, fun row hrow => ?_, hgroups group hgroup, fun row hrow => ?_⟩
  · obtain ⟨other, hother, hhead⟩ := List.mem_filterMap.1 hrow
    exact hgroups other hother row (List.mem_of_mem_head? hhead)
  · exact hgroups group hgroup row (List.mem_of_mem_head? hrow)

theorem IsLate.holds_results (h : v.IsLate) (fields : List Field) (groupBy : List Term) :
    Ending.late.Holds (v.results fields groupBy) fun views => ∀ u ∈ views, u.IsLate := by
  have hkeys : Late (groupBy.mapM (groupKey fields)) := Late.mapM fun key _ => late_groupKey fields key
  refine Ending.late.bind (Ending.late_of hkeys) fun keys _ => Ending.late_guard rfl fun _ => ?_
  split
  · exact Ending.late.bind (h.holds_groups keys) fun groups hgroups => Ending.late.pure (h.groupViews hgroups)
  · split
    · refine Ending.late.pure fun u hu => ?_
      obtain rfl := List.mem_singleton.1 hu
      refine ⟨h.source, fun row hrow => h.source row (List.mem_of_mem_take hrow), h.members, fun row hrow => ?_⟩
      exact h.source row (List.mem_of_mem_head? hrow)
    · refine Ending.late.pure fun u hu => ?_
      obtain ⟨row, hrow, rfl⟩ := List.mem_map.1 hu
      exact h.on (h.source row hrow)

end View

theorem late_sortCell {v : View} (h : v.IsLate) (fields : List Field) (key : String) :
    Late (sortCell fields v key) := by
  unfold sortCell
  split
  · exact Term.late_eval h _
  · exact h.cell key

theorem holds_sortResults {views : List View} (h : ∀ v ∈ views, v.IsLate) (fields : List Field)
    (order : Option SortOrder) :
    Ending.late.Holds (sortResults fields order views) fun sorted => ∀ v ∈ sorted, v.IsLate := by
  cases order with
  | none => exact Ending.late.pure h
  | some order =>
    have hkeyed : Ending.late.Holds (views.mapM fun v => do
          return (← order.keys.mapM (sortCell fields v ·), v) : Except Failure (List (List Cell × View)))
        fun keyed => List.Forall₂ (fun v pair => pair.2 = v) views keyed := by
      refine Ending.late.mapM fun v hv => ?_
      have hcells : Late (order.keys.mapM (sortCell fields v ·)) :=
        Late.mapM fun key _ => late_sortCell (h v hv) fields key
      exact Ending.late.bind (Ending.late_of hcells) fun _ _ => Ending.late.pure rfl
    refine Ending.late.bind hkeyed fun keyed hall => Ending.late.pure fun v hv => ?_
    obtain ⟨pair, hpair, rfl⟩ := List.mem_map.1 hv
    obtain ⟨u, hu, heq⟩ := exists_of_mem_forall₂ hall (List.mem_mergeSort.1 hpair)
    exact heq ▸ h u hu

theorem Relation.IsLate.settle {r : Relation} (h : r.IsLate) : Ending.late.Holds r.settle Relation.IsLate := by
  refine Ending.late.bind (Ending.late_of ?_) fun _ _ => Ending.late.pure h
  exact Late.forM fun cells hcells => Late.forM fun cell hcell =>
    (h cells hcells cell hcell).bind fun _ _ => Late.pure

theorem Relation.IsLate.select {source : Relation} (h : source.IsLate) (fields : List Field) (groupBy : List Term)
    (order : Option SortOrder) : Ending.late.Holds (source.select fields groupBy order) Relation.IsLate := by
  unfold Relation.select
  dsimp only
  generalize (if fields.isEmpty = true then allFields source.headings else fields) = selected
  refine Ending.late.bind (h.view.holds_results selected groupBy) fun views hviews => ?_
  refine Ending.late.bind (holds_sortResults hviews selected order) fun sorted hsorted => ?_
  have hresult : Relation.IsLate ⟨selected.map (Field.heading source.view),
      sorted.map fun v => Term.evalAll v (selected.map (·.term))⟩ := by
    intro cells hcells
    obtain ⟨v, hv, rfl⟩ := List.mem_map.1 hcells
    exact Term.late_evalAll (hsorted v hv) _
  split
  · exact Ending.late.pure hresult
  · refine Ending.late.bind (Ending.late_of ?_) fun _ _ => hresult.settle
    exact Late.forM fun v hv => Term.late_prepareAll (hsorted v hv) _

theorem Relation.holds_ofLiterals (rows : List (List Field)) :
    Ending.late.Holds (Relation.ofLiterals rows) Relation.IsLate := by
  have hempty : View.empty.IsLate :=
    ⟨by simp [View.empty], by simp [View.empty], by simp [View.empty], by simp [View.empty]⟩
  refine Ending.late_guard rfl fun _ => Ending.late.pure fun cells hcells => ?_
  obtain ⟨fields, -, rfl⟩ := List.mem_map.1 hcells
  exact Term.late_evalAll hempty _

/-! ## Queries -/

theorem Query.holds_relation {table? : String → Option Relation} (htable : ∀ name r, table? name = some r → r.IsLate)
    (query : Query) (enclosing : List String) :
    Ending.late.Holds (query.relation table? enclosing) Relation.IsLate := by
  induction query generalizing enclosing with
  | statement text => exact Ending.late_throw rfl
  | table name =>
    unfold Query.relation
    split
    · rename_i r hr
      refine Ending.late.pure ?_
      split at hr
      · simp at hr
      · exact htable name r hr
    · exact Ending.late_throw rfl
  | select name source fields groupBy order ih =>
    unfold Query.relation
    dsimp only
    split
    · rename_i found _
      change Ending.late.Holds (source.relation table? (found :: enclosing) >>= _) _
      refine Ending.late.bind (ih (found :: enclosing)) fun rows hrows => ?_
      split
      · exact Ending.late.bind hrows.settle fun rows hrows => hrows.select fields groupBy order
      · exact hrows.select fields groupBy order
    · exact Ending.late_throw rfl
  | literals rows => exact Relation.holds_ofLiterals rows

theorem Table.late_relation (t : Table) : t.relation.IsLate := by
  intro cells hcells cell hcell
  obtain ⟨row, -, rfl⟩ := List.mem_map.1 hcells
  obtain ⟨stored, -, rfl⟩ := List.mem_map.1 hcell
  exact Late.ok

namespace Store

theorem holds_run (s : Store) (query : Query) : Ending.late.Holds (s.run query) Relation.IsLate := by
  unfold run
  split
  · exact Ending.late_throw rfl
  · refine Query.holds_relation (fun name r hr => ?_) query []
    obtain ⟨t, -, rfl⟩ := Option.map_eq_some_iff.1 hr
    exact t.late_relation

/-! ## Reading -/

/-- Reading adds a cell of the right type. -/
theorem holds_readCell (row index : Nat) (type : DataType) (cells : Series) (cell : Cell) :
    Ending.late.Holds (readCell row index type cells cell) fun found => found.dataType = cells.dataType := by
  unfold readCell
  split
  · exact ⟨Late.series _, fun found h => Series.push_ok (liftM_series_eq_ok.1 h)⟩
  · exact Ending.late_throw rfl

theorem map_fst_zip_isPrefix {α β : Type} (xs : List α) (ys : List β) : (xs.zip ys).map Prod.fst <+: xs := by
  rw [List.zip_eq_zip_take_min, List.map_fst_zip (by simp)]
  exact List.take_prefix _ _

theorem map_snd_zip_isPrefix {α β : Type} (xs : List α) (ys : List β) : (xs.zip ys).map Prod.snd <+: ys := by
  rw [List.zip_eq_zip_take_min, List.map_snd_zip (by simp)]
  exact List.take_prefix _ _

/-- Each cell of a row is read into the series of its column. -/
theorem holds_readRow (types : List DataType) (columns : List Series) {row : List Cell.Outcome × Nat}
    (h : ∀ cell ∈ row.1, Late cell) :
    Ending.late.Holds (readRow types columns row) fun found =>
      found.map Series.dataType <+: columns.map Series.dataType := by
  refine Ending.late.bind (Ending.late_of (Late.mapM h)) fun cells _ => ?_
  have hentries : Ending.late.Holds (((types.zip columns).zip cells).zipIdx.mapM fun entry =>
        readCell row.2 entry.2 entry.1.1.1 entry.1.1.2 entry.1.2)
      (List.Forall₂ (fun entry s => s.dataType = entry.1.1.2.dataType) ((types.zip columns).zip cells).zipIdx) :=
    Ending.late.mapM fun entry _ => holds_readCell row.2 entry.2 entry.1.1.1 entry.1.1.2 entry.1.2
  refine Ending.late.mono hentries fun found hfound => ?_
  have htypes : found.map Series.dataType =
      (((types.zip columns).zip cells).zipIdx.map (·.1.1.2)).map Series.dataType := by
    rw [List.map_map]
    exact map_eq_map_of_forall₂ hfound.flip
  -- A row that is too short leaves the last columns out, so the types are a prefix only.
  have hcolumns : ((types.zip columns).zip cells).zipIdx.map (·.1.1.2) <+: columns := by
    have hpairs := (map_fst_zip_isPrefix (types.zip columns) cells).map Prod.snd
    rw [← List.zipIdx_map_fst 0 ((types.zip columns).zip cells), List.map_map, List.map_map] at hpairs
    exact hpairs.trans (map_snd_zip_isPrefix types columns)
  rw [htypes]
  exact hcolumns.map _

/-- Reading keeps the storage of the types, and all failures of it are late. -/
theorem holds_read {r : Relation} (h : r.IsLate) (sorted : Bool) (types : List DataType) :
    Ending.late.Holds (read r sorted types) fun cells =>
      cells.map Series.dataType <+: types.map DataType.storage := by
  have hempty : Ending.late.Holds (types.mapM fun type => (liftM (Series.empty type) : Except Failure Series))
      (List.Forall₂ (fun type s => s.dataType = type.storage) types) :=
    Ending.late.mapM fun type _ => ⟨Late.series _, fun s hs => (Series.empty_ok (liftM_series_eq_ok.1 hs)).1⟩
  -- Every row keeps the types of the series that it is read into.
  have hrows (columns : List Series) (hcolumns : columns.map Series.dataType <+: types.map DataType.storage)
      {r : Relation} (hr : r.IsLate) : Ending.late.Holds (r.rows.zipIdx.foldlM (readRow types) columns)
        fun cells => cells.map Series.dataType <+: types.map DataType.storage := by
    refine Ending.late.foldlM (fun row hrow columns hcolumns => ?_) hcolumns
    have hcells := hr row.1 (List.fst_mem_of_mem_zipIdx hrow)
    exact Ending.late.mono (holds_readRow types columns hcells) fun found hfound => hfound.trans hcolumns
  refine Ending.late_guard rfl fun _ => Ending.late.bind hempty fun columns hcolumns => ?_
  have hsame : columns.map Series.dataType = types.map DataType.storage := map_eq_map_of_forall₂ hcolumns.flip
  have htypes : columns.map Series.dataType <+: types.map DataType.storage := hsame ▸ List.prefix_rfl
  split
  · exact Ending.late.bind h.settle fun settled hsettled => hrows columns htypes hsettled
  · exact hrows columns htypes h

theorem fetch_eq (query : Query) (types : List DataType) (s : Store) :
    fetch query types s = (s.run query >>= fun r => read r query.isSorted types, s) := by
  change ((liftM (s.run query) : Step Relation) >>= fun r => liftM (read r query.isSorted types)) s = _
  rw [Work.run_bind]
  cases s.run query <;> rfl

/-- A store gives the storage of the types asked for, and all its failures are late. -/
theorem faithful : Database.Faithful Store := by
  have hread (query : Query) (types : List DataType) (s : Store) :
      Ending.late.Holds (Database.fetch query types s).1 fun cells =>
        cells.map Series.dataType <+: types.map DataType.storage := by
    change Ending.late.Holds (fetch query types s).1 _
    rw [fetch_eq]
    exact Ending.late.bind (s.holds_run query) fun r hr => holds_read hr query.isSorted types
  exact ⟨fun query types s cells h => (hread query types s).2 cells h,
    fun query types s failure h => (hread query types s).1.isLate failure h⟩

end Store

end Tabular.Sql
