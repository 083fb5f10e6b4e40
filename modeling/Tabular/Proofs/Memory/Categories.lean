-- SUMMARY: Categorical columns in memory carry a category map that was built from cells, unless they have no cells.
import Tabular.Proofs.CategoryMap
import Tabular.Proofs.Evaluation.Invariant
import Tabular.Proofs.Memory.Frame

/-!
# Categorical columns

Only `cat` and `applyCat` make categorical columns, and both give them a map. A map travels with its codes through all
rearrangements. The one exception are formulas of `by` over no groups: the type of such a column is found without
running the formula, so there is no map to give it, and no cell either.
-/

namespace Tabular.Memory

/-- A categorical column with cells has a map, and maps are built from cells. -/
structure Column.Categorized (c : Column) : Prop where
  mapped : c.dataType = .categorical → c.categories = none → c.length = 0
  built : ∀ map, c.categories = some map → map.Built

namespace Column

theorem dataType_ne_categorical (s : Series) : s.dataType ≠ .categorical := by
  cases s <;> simp [Series.dataType]

theorem categorized_ofSeries (name : String) (data : Series) : (ofSeries name data).Categorized :=
  ⟨fun htype => absurd htype (dataType_ne_categorical data), by simp [ofSeries]⟩

theorem categorized_literal {v : Value} {c : Column} (h : literal v = .ok c) : c.Categorized := by
  obtain ⟨data, -, h⟩ := bind_eq_ok.1 h
  obtain rfl := Except.ok.inj h
  exact ⟨fun htype => absurd htype (dataType_ne_categorical data), by simp⟩

theorem ofCodes_categories {name : String} {codes : Series} {map : CategoryMap} {c : Column}
    (h : ofCodes name codes map = .ok c) : c.data = codes ∧ c.categories = some map := by
  unfold ofCodes at h
  split at h
  · obtain rfl := Except.ok.inj h
    exact ⟨rfl, rfl⟩
  · simp at h

theorem categorized_ofCodes {name : String} {codes : Series} {map : CategoryMap} {c : Column} (hmap : map.Built)
    (h : ofCodes name codes map = .ok c) : c.Categorized := by
  have hcategories := (ofCodes_categories h).2
  refine ⟨fun _ hnone => ?_, fun map' hmap' => ?_⟩
  · simp [hcategories] at hnone
  · obtain rfl := Option.some.inj (hcategories.symm.trans hmap')
    exact hmap

/-- Other cells of the same number keep a column categorized. -/
theorem Categorized.cells {c : Column} (h : c.Categorized) {name : String} {data : Series} {constant : Option Value}
    (hlength : c.length = 0 → data.length = 0) : Categorized { c with name, data, constant } :=
  ⟨fun htype hnone => hlength (h.mapped htype hnone), h.built⟩

theorem Categorized.take {c d : Column} {rows : List Nat} (h : c.Categorized) (hd : c.take rows = .ok d) :
    d.Categorized := by
  obtain ⟨data, hdata, rfl⟩ := Frame.take_column_ok hd
  refine h.cells fun hempty => ?_
  rw [(Series.take_ok hdata).2]
  -- No row can be taken of a column without cells.
  cases rows with
  | nil => rfl
  | cons row more =>
    have hlt := Series.lt_of_take hdata row List.mem_cons_self
    rw [show c.data.length = 0 from hempty] at hlt
    exact absurd hlt (Nat.not_lt_zero row)

end Column

/-! ## Operations -/

/-- All other operations give a column of a series. -/
theorem execute_eq_ofSeries {options : Options} {rows : Nat} {op : Resolved} {args : List Column} {c : Column}
    (h : execute options rows op args = .ok c) (hcat : op.name ≠ "cat") (happly : op.name ≠ "applyCat") :
    ∃ name data, c = Column.ofSeries name data := by
  unfold execute at h
  split at h
  · unfold cast at h
    split at h
    · obtain ⟨type, -, h⟩ := bind_eq_ok.1 h
      obtain ⟨data, -, h⟩ := bind_eq_ok.1 h
      exact ⟨_, data, (Except.ok.inj h).symm⟩
    · simp at h
  · exact ⟨_, _, (Except.ok.inj h).symm⟩
  · rename_i hname
    exact absurd hname hcat
  · rename_i hname
    exact absurd hname happly
  · split at h
    · unfold aggregate at h
      split at h
      · simp at h
      · obtain ⟨value, -, h⟩ := bind_eq_ok.1 h
        obtain ⟨data, -, h⟩ := bind_eq_ok.1 h
        exact ⟨_, data, (Except.ok.inj h).symm⟩
    · unfold rowWise at h
      split at h
      · simp [throw, throwThe, MonadExceptOf.throw] at h
      · obtain ⟨rows, -, h⟩ := bind_eq_ok.1 h
        obtain ⟨data, -, h⟩ := bind_eq_ok.1 h
        exact ⟨_, data, (Except.ok.inj h).symm⟩

theorem execute_cat {options : Options} {rows : Nat} {op : Resolved} {args : List Column} (h : op.name = "cat") :
    execute options rows op args = categorize options args := by
  unfold execute
  rw [h]
  rfl

theorem execute_applyCat {options : Options} {rows : Nat} {op : Resolved} {args : List Column}
    (h : op.name = "applyCat") : execute options rows op args = applyCategories args := by
  unfold execute
  rw [h]
  rfl

/-- A map comes from the cells of an operand or from an operand. -/
theorem categorized_execute {options : Options} {rows : Nat} {op : Resolved} {args : List Column} {c : Column}
    (hargs : ∀ arg ∈ args, arg.Categorized) (h : execute options rows op args = .ok c) : c.Categorized := by
  by_cases hcat : op.name = "cat"
  · rw [execute_cat hcat] at h
    obtain ⟨raw, _, threshold, map, codes, -, hbuild, hc⟩ := categorize_ok h
    exact Column.categorized_ofCodes ⟨raw.data, threshold, codes, hbuild⟩ hc
  · by_cases happly : op.name = "applyCat"
    · rw [execute_applyCat happly] at h
      obtain ⟨raw, categorical, default, map, _, _, rfl, hoperand, -, hc⟩ := applyCategories_ok h
      exact Column.categorized_ofCodes ((hargs categorical (by simp)).built map hoperand) hc
    · obtain ⟨name, data, rfl⟩ := execute_eq_ofSeries h hcat happly
      exact Column.categorized_ofSeries name data

namespace Frame

variable {f g : Frame}

/-- All columns are categorized. -/
def Categorized (f : Frame) : Prop := ∀ c ∈ f.columns, c.Categorized

/-- Only a column of one cell gets other cells. -/
theorem fit_cases {c : Column} {data : Series} (h : f.fit c = .ok data) :
    data = c.data ∨ c.length = 1 ∧ c.data.broadcastTo f.rows = .ok data := by
  unfold fit at h
  split at h
  · exact .inl (Except.ok.inj h).symm
  · split at h
    · rename_i hone
      exact .inr ⟨hone, liftM_series_eq_ok.1 h⟩
    · simp at h

theorem Categorized.append (hf : f.Categorized) {c : Column} (hc : c.Categorized) (h : f.append c = .ok g) :
    g.Categorized := by
  obtain ⟨-, data, hdata, rfl⟩ := append_ok h
  intro d hd
  rcases List.mem_append.1 hd with hd | hd
  · exact hf d hd
  · obtain rfl := List.mem_singleton.1 hd
    refine hc.cells fun hempty => ?_
    rcases fit_cases hdata with rfl | ⟨hone, -⟩
    · exact hempty
    · rw [hempty] at hone
      exact absurd hone (by decide)

theorem Categorized.take (hf : f.Categorized) {rows : List Nat} (h : f.take rows = .ok g) : g.Categorized := by
  obtain ⟨columns, hcolumns, rfl⟩ := take_ok h
  intro d hd
  obtain ⟨c, hc, htake⟩ := exists_of_mem_mapM hcolumns hd
  exact (hf c hc).take htake

theorem Categorized.permute (hf : f.Categorized) (order : List Nat) : (f.permute order).Categorized := by
  intro d hd
  obtain ⟨c, hc, rfl⟩ := List.mem_map.1 hd
  exact (hf c hc).cells fun hlength => (permute_ok order c.data).2.trans hlength

theorem Categorized.drop (hf : f.Categorized) {name : String} {c : Column} (h : f.drop name = .ok (c, g)) :
    g.Categorized := by
  obtain ⟨set, hremove, rfl⟩ := drop_ok h
  obtain ⟨p, -, -, rfl⟩ := ColumnSet.remove?_eq_some hremove
  exact fun d hd => hf d ((List.eraseIdx_sublist _ _).subset hd)

/-- A formula is reduced to the map of the first group; without groups there are no cells. -/
theorem categorized_reduce {groups : List (List Nat)} {r : Reducer (Except Failure) Frame Column} {c : Column}
    (hr : ∀ rows ∈ groups, ∀ u d, f.take rows = .ok u → r.run u f = .ok d → d.Categorized)
    (h : f.reduce groups r = .ok c) : c.Categorized := by
  unfold reduce at h
  obtain ⟨results, hresults, h⟩ := bind_eq_ok.1 h
  split at h
  · obtain ⟨dataType, -, h⟩ := bind_eq_ok.1 h
    obtain ⟨data, hdata, h⟩ := bind_eq_ok.1 h
    obtain rfl := Except.ok.inj h
    exact ⟨fun _ _ => (Series.empty_ok (liftM_series_eq_ok.1 hdata)).2, by simp⟩
  · rename_i first value more
    obtain ⟨data, -, h⟩ := bind_eq_ok.1 h
    obtain rfl := Except.ok.inj h
    obtain ⟨rows, hrows, hrow⟩ := exists_of_mem_mapM hresults List.mem_cons_self
    obtain ⟨u, hu, hd, hone, -⟩ := reduceGroup_ok hrow
    refine (hr rows hrows u first hu hd).cells fun hempty => ?_
    rw [hempty] at hone
    exact absurd hone (by decide)

theorem Categorized.group (hf : f.Categorized) {keys : List String}
    {reducers : List (Reducer (Except Failure) Frame Column)}
    (hr : ∀ r ∈ reducers, ∀ u d, u.Categorized → r.run u f = .ok d → d.Categorized)
    (h : f.group keys reducers = .ok g) : g.Categorized := by
  unfold Frame.group at h
  obtain ⟨keyColumns, hkeys, h⟩ := bind_eq_ok.1 h
  obtain ⟨grouped, hgrouped, h⟩ := bind_eq_ok.1 h
  have hempty : (empty f.options).Categorized := fun c hc => absurd hc (by simp [columns, empty, ColumnSet.empty])
  have hgrouped : grouped.Categorized := by
    refine foldlM_invariant (fun out c out' hc hout hstep => ?_) hempty hgrouped
    obtain ⟨taken, htaken, happend⟩ := bind_eq_ok.1 hstep
    obtain ⟨name, -, hcolumn⟩ := exists_of_mem_mapM hkeys hc
    exact hout.append ((hf c (ColumnSet.mem_columns (column_ok hcolumn))).take htaken) happend
  refine foldlM_invariant (fun out r out' hr' hout hstep => ?_) hgrouped h
  obtain ⟨c, hc, happend⟩ := bind_eq_ok.1 hstep
  exact hout.append (categorized_reduce (fun _ _ u d hu hd => hr r hr' u d (hf.take hu) hd) hc) happend

/-- Frames in memory keep their columns categorized. -/
def categorizing : backend.Contract (Ending.partialResult.progress fun _ => trivial) where
  GoodFrame _ := Categorized
  GoodResult _ := Categorized
  GoodColumn _ := Column.Categorized
  GoodText _ := True
  frameLater _ hf := hf
  columnLater _ hc := hc
  result hf := hf
  column? hf hc := hf _ (ColumnSet.mem_columns hc)
  rename _ hc := hc.cells id
  literal _ _ _ hc := Column.categorized_literal hc
  execute _ _ _ _ hargs _ hc := categorized_execute hargs hc
  sort := by
    intro _ f ascending keys hf g hg
    obtain ⟨-, order, -, rfl⟩ := sort_ok hg
    exact hf.permute order
  group _ hf hr _ hg := hf.group (fun r hmem u d hu hd => hr r hmem () u _ hu hf d hd) hg
  globalize _ hc _ hd := globalize_ok hd ▸ hc
  append hf hc _ hg := hf.append hc hg
  values _ _ _ := trivial

end Frame

end Tabular.Memory
