-- SUMMARY: The representation invariant of frames in memory, and that the operations on frames keep it.
import Tabular.Memory.Frame
import Tabular.Proofs.ColumnSet
import Tabular.Proofs.Memory.Execute

/-!
# Valid frames

The columns of a valid frame have one length, their names are told apart by the index, their cells have the
storage of their types, and none of them is a constant. Each operation that gives a frame is opened once, and
keeps this. Only adding a column asks anything of what it is given: that the cells of the column have the
storage of its type. Columns that are made by grouping have it, whatever formulas are reduced.
-/

namespace Tabular.Memory

/-- The name and the type of a column. -/
def Column.label (c : Column) : String × DataType := (c.name, c.dataType)

namespace Frame

structure Valid (f : Frame) : Prop where
  lengths : ∀ c ∈ f.columns, c.length = f.rows
  indexed : f.set.Indexed Column.name
  typed : ∀ c ∈ f.columns, c.Typed
  constants : ∀ c ∈ f.columns, c.constant = none

variable {f g : Frame}

/-- The names of a valid frame's columns are distinct. -/
theorem Valid.distinct (h : f.Valid) : (f.columns.map Column.name).Nodup := h.indexed.nodup

/-! ## Columns -/

theorem lengths_eq_rows {n : Nat} (h : ∀ c ∈ f.columns, c.length = n) : ∀ c ∈ f.columns, c.length = f.rows := by
  intro c hc
  unfold rows
  cases hcolumns : f.columns with
  | nil => simp [hcolumns] at hc
  | cons d rest =>
    exact (h c hc).trans (h d (hcolumns ▸ List.mem_cons_self)).symm

theorem column_ok {name : String} {c : Column} (h : f.column name = .ok c) : f.column? name = some c := by
  unfold column at h
  split at h
  · rename_i hc
    obtain rfl := by simpa using h
    exact hc
  · simp at h

theorem Valid.mem_of_column? (h : f.Valid) {name : String} {c : Column} (hc : f.column? name = some c) :
    c ∈ f.columns ∧ c.name = name :=
  h.indexed.column?_eq_some_iff.1 hc

theorem valid_empty (options : Options) : (empty options).Valid where
  lengths := by simp [columns, empty, ColumnSet.empty]
  indexed := ColumnSet.indexed_empty
  typed := by simp [columns, empty, ColumnSet.empty]
  constants := by simp [columns, empty, ColumnSet.empty]

theorem Valid.setOptions (h : f.Valid) (options : Options) : Valid { f with options } :=
  ⟨h.lengths, h.indexed, h.typed, h.constants⟩

theorem fit_ok {c : Column} {data : Series} (h : f.fit c = .ok data) :
    data.dataType = c.data.dataType ∧ (f.columns = [] ∨ data.length = f.rows) := by
  unfold fit at h
  split at h
  · rename_i hfits
    obtain rfl := by simpa using h
    exact ⟨rfl, hfits.imp List.isEmpty_iff.1 id⟩
  · split at h
    · obtain ⟨htype, hlength⟩ := Series.broadcastTo_ok (liftM_series_eq_ok.1 h)
      exact ⟨htype, .inr hlength⟩
    · simp at h

theorem append_ok {c : Column} (h : f.append c = .ok g) :
    f.set.contains c.name = false ∧ ∃ data, f.fit c = .ok data ∧
      g = { f with set := f.set.push c.name { c with data, constant := none } } := by
  unfold append at h
  split at h
  · simp [throw, throwThe, MonadExceptOf.throw, bind, Except.bind] at h
  · rename_i hnew
    obtain ⟨data, hdata, h⟩ := bind_eq_ok.1 h
    obtain rfl := by simpa [pure, Except.pure] using h
    exact ⟨by simpa using hnew, data, hdata, rfl⟩

theorem Valid.append (hf : f.Valid) {c : Column} (hc : c.Typed) (h : f.append c = .ok g) : g.Valid := by
  obtain ⟨hnew, data, hdata, rfl⟩ := append_ok h
  obtain ⟨htype, hlength⟩ := fit_ok hdata
  have hmem : ∀ d, d ∈ f.set.columns ++ [{ c with data, constant := none }] ↔
      d ∈ f.columns ∨ d = { c with data, constant := none } := by
    intro d
    simp [columns]
  refine ⟨?_, ?_, ?_, ?_⟩
  -- The first column of a frame decides how many rows it has; every later one is broadcast to them.
  · rcases hlength with hempty | hlength
    · refine lengths_eq_rows fun d hd => (?_ : d.length = data.length)
      rcases (hmem d).1 hd with hd | rfl
      · simp [hempty] at hd
      · rfl
    · refine lengths_eq_rows fun d hd => (?_ : d.length = f.rows)
      rcases (hmem d).1 hd with hd | rfl
      · exact hf.lengths d hd
      · exact hlength
  · exact @ColumnSet.Indexed.push _ _ _ hf.indexed { c with data, constant := none } hnew
  · intro d hd
    rcases (hmem d).1 hd with hd | rfl
    · exact hf.typed d hd
    · exact htype.trans hc
  · intro d hd
    rcases (hmem d).1 hd with hd | rfl
    · exact hf.constants d hd
    · rfl

/-- The names and the types of the columns in order. -/
def labels (f : Frame) : List (String × DataType) := f.columns.map Column.label

theorem labels_append {c : Column} (h : f.append c = .ok g) :
    g.labels = f.labels ++ [c.label] ∧ g.options = f.options := by
  obtain ⟨-, data, -, rfl⟩ := append_ok h
  simp [labels, columns, ColumnSet.push, Column.label]

/-- Columns that are made one after another and added at the end. -/
theorem labels_foldlM_append {A : Type} {make : A → Except Failure Column} {xs : List A}
    (h : xs.foldlM (fun out x => do Frame.append out (← make x)) f = .ok g) :
    ∃ cs, xs.mapM make = .ok cs ∧ g.labels = f.labels ++ cs.map Column.label ∧ g.options = f.options := by
  induction xs generalizing f with
  | nil =>
    obtain rfl := Except.ok.inj h
    exact ⟨[], rfl, by simp, rfl⟩
  | cons x xs ih =>
    rw [List.foldlM_cons] at h
    obtain ⟨out, hout, h⟩ := bind_eq_ok.1 h
    obtain ⟨c, hc, happend⟩ := bind_eq_ok.1 hout
    obtain ⟨hlabels, hoptions⟩ := labels_append happend
    obtain ⟨cs, hcs, hg, hgoptions⟩ := ih h
    refine ⟨c :: cs, ?_, ?_, hgoptions.trans hoptions⟩
    · rw [List.mapM_cons, hc, hcs]
      rfl
    · rw [hg, hlabels, List.append_assoc]
      rfl

theorem drop_ok {name : String} {c : Column} (h : f.drop name = .ok (c, g)) :
    ∃ set, f.set.remove? name = some (c, set) ∧ g = { f with set } := by
  unfold drop at h
  split at h
  · rename_i d set hremove
    obtain ⟨rfl, rfl⟩ := by simpa using h
    exact ⟨set, hremove, rfl⟩
  · simp at h

theorem Valid.drop (hf : f.Valid) {name : String} {c : Column} (h : f.drop name = .ok (c, g)) :
    c ∈ f.columns ∧ g.Valid := by
  obtain ⟨set, hremove, rfl⟩ := drop_ok h
  have hindexed := hf.indexed.remove? hremove
  obtain ⟨p, -, hc, rfl⟩ := ColumnSet.remove?_eq_some hremove
  have hmem : ∀ d ∈ f.set.columns.eraseIdx p, d ∈ f.columns := fun d hd => (List.eraseIdx_sublist _ _).subset hd
  exact ⟨List.mem_of_getElem? hc, lengths_eq_rows fun d hd => hf.lengths d (hmem d hd), hindexed,
    fun d hd => hf.typed d (hmem d hd), fun d hd => hf.constants d (hmem d hd)⟩

/-! ## Rows -/

theorem take_column_ok {c d : Column} {rows : List Nat} (h : c.take rows = .ok d) :
    ∃ data, c.data.take rows = .ok data ∧ d = { c with data } := by
  unfold Column.take at h
  simp only [bind_eq_ok] at h
  obtain ⟨data, hdata, h⟩ := h
  obtain rfl := by simpa [pure, Except.pure] using h
  exact ⟨data, liftM_series_eq_ok.1 hdata, rfl⟩

theorem Column.Typed.take {c d : Column} {rows : List Nat} (hc : c.Typed) (h : c.take rows = .ok d) : d.Typed := by
  obtain ⟨data, hdata, rfl⟩ := take_column_ok h
  exact (Series.take_ok hdata).1.trans hc

/-- Taking rows takes them from every column in its place. -/
theorem take_ok {rows : List Nat} (h : f.take rows = .ok g) :
    ∃ columns, f.columns.mapM (·.take rows) = .ok columns ∧ g = { f with set := ⟨columns, f.set.positions⟩ } := by
  unfold take ColumnSet.mapM at h
  simp only [bind_eq_ok] at h
  obtain ⟨set, ⟨columns, hcolumns, hset⟩, h⟩ := h
  obtain rfl := by simpa [pure, Except.pure] using hset
  obtain rfl := by simpa [pure, Except.pure] using h
  exact ⟨columns, hcolumns, rfl⟩

/-- Taking rows changes nothing but the cells. -/
theorem map_take {A : Type} {tell : Column → A} (htell : ∀ (c : Column) data, tell { c with data } = tell c)
    {rows : List Nat} {columns taken : List Column} (h : columns.mapM (·.take rows) = .ok taken) :
    taken.map tell = columns.map tell := by
  have hall := mapM_eq_ok.1 h
  clear h
  induction hall with
  | nil => rfl
  | cons hc _ ih =>
    obtain ⟨data, -, rfl⟩ := take_column_ok hc
    rw [List.map_cons, List.map_cons, ih, htell]

theorem names_take {rows : List Nat} (h : f.take rows = .ok g) :
    g.columns.map Column.name = f.columns.map Column.name := by
  obtain ⟨columns, hcolumns, rfl⟩ := take_ok h
  exact map_take (fun _ _ => rfl) hcolumns

theorem rows_eq (f : Frame) : f.rows = (f.columns.map Column.length).headD 0 := by
  unfold Frame.rows
  cases f.columns <;> rfl

theorem rows_take {rows : List Nat} (h : f.take rows = .ok g) :
    g.rows = if f.columns.isEmpty then 0 else rows.length := by
  obtain ⟨columns, hcolumns, rfl⟩ := take_ok h
  have hall := mapM_eq_ok.1 hcolumns
  rw [rows_eq]
  change (columns.map Column.length).headD 0 = _
  generalize f.columns = before at hall ⊢
  cases hall with
  | nil => rfl
  | cons hd _ =>
    obtain ⟨data, hdata, rfl⟩ := take_column_ok hd
    exact (Series.take_ok hdata).2

/-- The rows of a group have the schema of the whole frame. -/
theorem schema_take {rows : List Nat} (h : f.take rows = .ok g) : g.schema = f.schema ∧ g.options = f.options := by
  obtain ⟨columns, hcolumns, rfl⟩ := take_ok h
  refine ⟨funext fun name => ?_, rfl⟩
  unfold schema column?
  rw [ColumnSet.map_column?, ColumnSet.map_column?, map_take (fun _ _ => rfl) hcolumns]
  rfl

/-- A column that is looked up over some rows is that column of the frame, at these rows. -/
theorem column?_take {rows : List Nat} (h : f.take rows = .ok g) (name : String) :
    Option.Rel (fun c d => c.take rows = .ok d) (f.column? name) (g.column? name) := by
  obtain ⟨columns, hcolumns, rfl⟩ := take_ok h
  have hall := mapM_eq_ok.1 hcolumns
  unfold column? ColumnSet.column?
  change Option.Rel _ ((f.set.position? name).bind fun i => f.columns[i]?)
    ((f.set.position? name).bind fun i => columns[i]?)
  cases f.set.position? name with
  | none => exact .none
  | some i =>
    by_cases hi : i < f.columns.length
    · have hi' : i < columns.length := hall.length_eq ▸ hi
      rw [Option.bind_some, Option.bind_some, List.getElem?_eq_getElem hi, List.getElem?_eq_getElem hi']
      exact .some (hall.get hi hi')
    · have hi' : ¬i < columns.length := hall.length_eq ▸ hi
      rw [Option.bind_some, Option.bind_some, List.getElem?_eq_none (by omega), List.getElem?_eq_none (by omega)]
      exact .none

/-- Taking rows leaves the names as they are. -/
theorem isSome_column?_take {rows : List Nat} (h : f.take rows = .ok g) (name : String) :
    (g.column? name).isSome = (f.column? name).isSome := by
  have hrel := column?_take h name
  generalize f.column? name = c at hrel
  generalize g.column? name = d at hrel
  cases hrel <;> rfl

/-- Rows of a frame can be taken if they are there in every column. -/
theorem exists_take {rows : List Nat} (h : ∀ c ∈ f.columns, ∀ row ∈ rows, row < c.length) :
    ∃ g, f.take rows = .ok g := by
  have hcolumn : ∀ c ∈ f.columns, ∃ d, c.take rows = .ok d := by
    intro c hc
    obtain ⟨data, hdata⟩ := Series.exists_take (s := c.data) (h c hc)
    exact ⟨{ c with data }, bind_eq_ok.2 ⟨data, liftM_series_eq_ok.2 hdata, rfl⟩⟩
  obtain ⟨columns, hcolumns⟩ := exists_mapM hcolumn
  exact ⟨_, bind_eq_ok.2 ⟨_, bind_eq_ok.2 ⟨columns, hcolumns, rfl⟩, rfl⟩⟩

/-- Rows of a valid frame can be taken if they are there. -/
theorem Valid.exists_take (hf : f.Valid) {rows : List Nat} (h : ∀ row ∈ rows, row < f.rows) :
    ∃ g, f.take rows = .ok g :=
  Frame.exists_take fun c hc row hrow => hf.lengths c hc ▸ h row hrow

theorem Valid.take (hf : f.Valid) {rows : List Nat} (h : f.take rows = .ok g) : g.Valid := by
  obtain ⟨columns, hcolumns, rfl⟩ := take_ok h
  have hfrom : ∀ d ∈ columns, ∃ c ∈ f.columns, c.take rows = .ok d := fun d hd => exists_of_mem_mapM hcolumns hd
  refine ⟨lengths_eq_rows fun d hd => (?_ : d.length = rows.length),
    hf.indexed.of_names rfl (map_take (fun _ _ => rfl) hcolumns), fun d hd => ?_, fun d hd => ?_⟩
  · obtain ⟨c, -, hc⟩ := hfrom d hd
    obtain ⟨data, hdata, rfl⟩ := take_column_ok hc
    exact (Series.take_ok hdata).2
  · obtain ⟨c, hmem, hc⟩ := hfrom d hd
    exact Column.Typed.take (hf.typed c hmem) hc
  · obtain ⟨c, hmem, hc⟩ := hfrom d hd
    obtain ⟨data, hdata, rfl⟩ := take_column_ok hc
    exact hf.constants c hmem

theorem permute_ok (order : List Nat) (s : Series) :
    (Memory.permute order s).dataType = s.dataType ∧ (Memory.permute order s).length = s.length := by
  unfold Memory.permute
  induction exchanges order generalizing s with
  | nil => exact ⟨rfl, rfl⟩
  | cons exchange more ih =>
    obtain ⟨htype, hlength⟩ := ih (s.swap exchange.1 exchange.2)
    exact ⟨htype.trans (Series.dataType_swap s _ _), hlength.trans (Series.length_swap s _ _)⟩

theorem Valid.permute (hf : f.Valid) (order : List Nat) : (f.permute order).Valid := by
  have hfrom : ∀ d ∈ (f.permute order).columns,
      ∃ c ∈ f.columns, d = { c with data := Memory.permute order c.data } := by
    intro d hd
    obtain ⟨c, hc, rfl⟩ := List.mem_map.1 hd
    exact ⟨c, hc, rfl⟩
  refine ⟨lengths_eq_rows fun d hd => (?_ : d.length = f.rows), hf.indexed.of_names rfl ?_, fun d hd => ?_,
    fun d hd => ?_⟩
  · obtain ⟨c, hc, rfl⟩ := hfrom d hd
    exact (permute_ok order c.data).2.trans (hf.lengths c hc)
  · simp [Frame.permute, ColumnSet.names, ColumnSet.map]
  · obtain ⟨c, hc, rfl⟩ := hfrom d hd
    exact (permute_ok order c.data).1.trans (hf.typed c hc)
  · obtain ⟨c, hc, rfl⟩ := hfrom d hd
    exact hf.constants c hc

theorem names_permute (f : Frame) (order : List Nat) :
    (f.permute order).columns.map Column.name = f.columns.map Column.name := by
  simp [Frame.permute, columns, ColumnSet.map]

theorem rows_permute (f : Frame) (order : List Nat) : (f.permute order).rows = f.rows := by
  rw [rows_eq, rows_eq]
  change ((f.columns.map fun c => { c with data := Memory.permute order c.data }).map Column.length).headD 0 = _
  cases f.columns with
  | nil => rfl
  | cons c more => exact (permute_ok order c.data).2

theorem column?_permute (f : Frame) (order : List Nat) (name : String) :
    (f.permute order).column? name =
      (f.column? name).map fun c => { c with data := Memory.permute order c.data } :=
  ColumnSet.column?_map f.set _ name

theorem sort_ok {ascending : Bool} {keys : List String} (h : f.sort ascending keys = .ok g) :
    ∃ keyColumns order, keys.mapM f.column = .ok keyColumns ∧ g = f.permute order := by
  unfold sort at h
  simp only [bind_eq_ok] at h
  obtain ⟨keyColumns, hkeys, h⟩ := h
  exact ⟨keyColumns, _, hkeys, (Except.ok.inj h).symm⟩

theorem Valid.sort (hf : f.Valid) {ascending : Bool} {keys : List String} (h : f.sort ascending keys = .ok g) :
    g.Valid := by
  obtain ⟨-, order, -, rfl⟩ := sort_ok h
  exact hf.permute order

/-! ## Groups -/

/-- The column of a reduced formula has cells of its type, whatever the formula gave. -/
theorem typed_reduce {groups : List (List Nat)} {r : Reducer (Except Failure) Frame Column} {c : Column}
    (h : f.reduce groups r = .ok c) : c.Typed := by
  unfold reduce at h
  simp only [bind_eq_ok] at h
  obtain ⟨results, -, h⟩ := h
  split at h
  · obtain ⟨dataType, -, h⟩ := bind_eq_ok.1 h
    obtain ⟨data, hdata, h⟩ := bind_eq_ok.1 h
    obtain rfl := by simpa [pure, Except.pure] using h
    exact (Series.empty_ok (liftM_series_eq_ok.1 hdata)).1
  · obtain ⟨data, hdata, h⟩ := bind_eq_ok.1 h
    obtain rfl := by simpa [pure, Except.pure] using h
    exact (Series.ofValues_ok (liftM_series_eq_ok.1 hdata)).1

/-- A group is reduced to a column of one cell and to that cell. -/
theorem reduceGroup_ok {r : Reducer (Except Failure) Frame Column} {rows : List Nat} {result : Column × Value}
    (h : f.reduceGroup r rows = .ok result) :
    ∃ u, f.take rows = .ok u ∧ r.run u f = .ok result.1 ∧ result.1.length = 1 ∧ result.1.cell 0 = .ok result.2 := by
  unfold reduceGroup at h
  obtain ⟨u, hu, h⟩ := bind_eq_ok.1 h
  obtain ⟨d, hd, h⟩ := bind_eq_ok.1 h
  obtain ⟨hone, h⟩ := guard_eq_ok.1 h
  obtain ⟨cell, hcell, h⟩ := bind_eq_ok.1 h
  obtain rfl := Except.ok.inj h
  exact ⟨u, hu, hd, by simpa using hone, hcell⟩

/-- The column of a formula has the name it is given, and the type of the formula on one of the groups; without
    groups it has the static type. -/
theorem reduce_ok {groups : List (List Nat)} {r : Reducer (Except Failure) Frame Column} {c : Column}
    (h : f.reduce groups r = .ok c) : c.name = r.name ∧
      (r.formula.staticType f.options.datePatterns f.schema = .ok c.dataType ∨
        ∃ rows u d, f.take rows = .ok u ∧ r.run u f = .ok d ∧ d.dataType = c.dataType) := by
  unfold reduce at h
  simp only [bind_eq_ok] at h
  obtain ⟨results, hresults, h⟩ := h
  split at h
  · obtain ⟨dataType, htype, h⟩ := bind_eq_ok.1 h
    obtain ⟨data, -, h⟩ := bind_eq_ok.1 h
    obtain rfl := Except.ok.inj h
    exact ⟨rfl, .inl htype⟩
  -- The type of the first result is that of the column, and the first result comes from some group.
  · rename_i first value more
    obtain ⟨data, -, h⟩ := bind_eq_ok.1 h
    obtain rfl := Except.ok.inj h
    obtain ⟨rows, -, hrow⟩ := exists_of_mem_mapM hresults List.mem_cons_self
    obtain ⟨u, hu, hd, -, -⟩ := reduceGroup_ok hrow
    exact ⟨rfl, .inr ⟨rows, u, first, hu, hd, rfl⟩⟩

/-- A grouped frame has the key columns, then a column for each formula. -/
theorem group_ok {keys : List String} {reducers : List (Reducer (Except Failure) Frame Column)}
    (h : f.group keys reducers = .ok g) : ∃ groups keyColumns cs, keys.mapM f.column = .ok keyColumns ∧
      reducers.mapM (f.reduce groups) = .ok cs ∧
      g.labels = keyColumns.map Column.label ++ cs.map Column.label ∧ g.options = f.options := by
  unfold Frame.group at h
  simp only [bind_eq_ok] at h
  obtain ⟨keyColumns, hkeys, grouped, hgrouped, h⟩ := h
  obtain ⟨taken, htaken, hlabels, hoptions⟩ := labels_foldlM_append hgrouped
  obtain ⟨cs, hcs, hg, hgoptions⟩ := labels_foldlM_append h
  refine ⟨_, keyColumns, cs, hkeys, hcs, ?_, hgoptions.trans hoptions⟩
  rw [hg, hlabels, map_take (fun _ _ => rfl) htaken]
  rfl

theorem Valid.group (hf : f.Valid) {keys : List String} {reducers : List (Reducer (Except Failure) Frame Column)}
    (h : f.group keys reducers = .ok g) : g.Valid := by
  unfold Frame.group at h
  simp only [bind_eq_ok] at h
  obtain ⟨keyColumns, hkeys, grouped, hgrouped, h⟩ := h
  -- The result grows from an empty frame, first by the keys and then by the formulas.
  have hgrouped : grouped.Valid := by
    refine foldlM_invariant (fun out c out' hc hout hstep => ?_) (valid_empty f.options) hgrouped
    obtain ⟨taken, htaken, happend⟩ := bind_eq_ok.1 hstep
    obtain ⟨name, -, hcolumn⟩ := exists_of_mem_mapM hkeys hc
    have htyped := hf.typed c (hf.mem_of_column? (column_ok hcolumn)).1
    exact hout.append (Column.Typed.take htyped htaken) happend
  refine foldlM_invariant (fun out r out' _ hout hstep => ?_) hgrouped h
  obtain ⟨c, hc, happend⟩ := bind_eq_ok.1 hstep
  exact hout.append (typed_reduce hc) happend

theorem globalize_ok {c d : Column} (h : globalize c = .ok d) : c = d := by
  unfold globalize at h
  split at h
  · simpa using h
  · simp at h

/-! ## Operations -/

/-- An operation of the evaluator resolves its operands, reads quoted dates again if it takes them as texts, and
    carries out what it has resolved. -/
theorem apply_eq_ok {scope : Scope} {e : Expr} {name : String} {operands : List (Expr × Column)} {c : Column} :
    backend.apply f scope e name operands = .ok c ↔ ∃ op asText columns made,
      Resolved.ofOperands name (operands.map fun p => (p.1, p.2.dataType)) = .ok (op, asText) ∧
      (if asText then backend.reread f operands else pure (operands.map (·.2))) = .ok columns ∧
      execute f.options f.rows op columns = .ok made ∧ c = made.rename e.text := by
  unfold Backend.apply
  constructor
  · intro h
    obtain ⟨⟨op, asText⟩, hop, h⟩ := bind_eq_ok.1 h
    have h : ((if asText then backend.reread f operands else pure (operands.map (·.2))) >>= fun columns => do
        return Column.rename (← execute f.options f.rows op columns) e.text) = .ok c := by
      cases asText <;> exact h
    obtain ⟨columns, hcolumns, h⟩ := bind_eq_ok.1 h
    obtain ⟨made, hmade, h⟩ := bind_eq_ok.1 h
    exact ⟨op, asText, columns, made, hop, hcolumns, hmade, (Except.ok.inj h).symm⟩
  · rintro ⟨op, asText, columns, made, hop, hcolumns, hmade, rfl⟩
    have h : ((if asText then backend.reread f operands else pure (operands.map (·.2))) >>= fun columns => do
        return Column.rename (← execute f.options f.rows op columns) e.text) = .ok (made.rename e.text) :=
      bind_eq_ok.2 ⟨columns, hcolumns, bind_eq_ok.2 ⟨made, hmade, rfl⟩⟩
    refine bind_eq_ok.2 ⟨(op, asText), hop, ?_⟩
    cases asText <;> exact h

end Frame

end Tabular.Memory
