-- SUMMARY: When a formula that SQL frames take to have one value per group has one in memory.
import Tabular.Proofs.Formula.Reread
import Tabular.Proofs.Memory.Uniform
import Tabular.Proofs.Sql.Evaluate
import Tabular.Sql.Store

/-!
# One value per group

An SQL frame takes a formula to have one value per group by a mark of its columns. Over columns of a source, which are
not marked, this is the form of the formula: it is uniform. A column keeps its mark when it is stored, though it then
has a cell for each row. So grouping over SQL takes no more formulas than grouping in memory exactly if no stored
column is marked, or if there is only one row.
-/

namespace Tabular.Sql.Frame

variable {δ : Type} {s t : Frame}

/-! ## Marks -/

/-- Whether the name is that of a column that is not marked as having one value per group. -/
def perRow (f : Frame) (name : String) : Bool := (f.column? name).any (!·.grouped)

/-- The formulas that have one value per group, as far as marks of columns and forms of formulas tell. -/
structure Takes (f : Frame) (e : Expr) : Prop where
  columnar : e.isColumnar = true
  uniform : e.isUniform f.perRow = true

section Marks

variable [Database δ]

theorem grouped_execute (f : Frame) (r : Resolved) (args : List Column) (scope : Scope) :
    Work.partialResult.Holds (f.execute r args scope : Work δ Column) fun c =>
      c.grouped = (r.isScalar || (r.name != "row_number" && args.all (·.grouped))) := by
  unfold Frame.execute
  refine Work.partialResult.bind (Work.partialResult_any _) fun _ _ => ?_
  split
  · rename_i hscalar
    unfold executeScalar
    split
    · exact Work.partialResult_throw
    · refine Work.partialResult.bind (Work.partialResult_any _) fun composed _ => ?_
      refine Work.partialResult.pure ?_
      rw [hscalar, Bool.true_or]
  · rename_i hscalar
    unfold executeRows
    rw [Bool.eq_false_iff.2 hscalar, Bool.false_or]
    refine Work.partialResult.bind (Work.partialResult_any _) fun composed _ => ?_
    split
    · exact Work.partialResult.pure rfl
    · split
      · exact Work.partialResult.pure rfl
      · exact Work.partialResult.bind (Work.partialResult_any _) fun nested _ => Work.partialResult.pure rfl

theorem grouped_globalize {f : Frame} {c d : Column} (h : f.globalize c = .ok d) : d.grouped = true := by
  obtain ⟨hgrouped, ⟨-, rfl⟩ | ⟨-, rfl⟩⟩ := globalize_ok h
  · exact hgrouped
  · exact hgrouped

theorem grouped_literal {f : Frame} {v : Value} {c : Column} (h : f.literal v = .ok c) : c.grouped = true :=
  literal_ok h ▸ rfl

/-- A column over SQL is marked as having one value per group. -/
def marking : (backend : Backend (Work δ) Frame Column).Marking Work.partialResult Bool where
  scheme := .uniform
  Good _ := True
  token f name := !f.perRow name
  Marked _ uniform c := c.grouped = uniform
  accepts _ := trivial
  column? := by
    intro f name c _ hc
    have hc : f.column? name = some c := hc
    simp [perRow, hc]
  constant := by
    intro f name v _ hname _
    have hname : f.column? name = none := hname
    rw [perRow, hname]
    exact Work.partialResult_lift fun c hc => grouped_literal hc
  quoted _ _ := Work.partialResult_lift fun c hc => grouped_literal hc
  rename _ h := h
  execute := by
    intro f r types flags args scope _ happlies _ hargs
    refine Work.partialResult.mono (grouped_execute f r args scope) fun c hc => hc.trans ?_
    have hgrouped : args.map (·.grouped) = flags := by
      rw [← List.map_id flags]
      exact map_eq_map_of_forall₂ hargs.flip
    have hall : args.all (·.grouped) = flags.all id := by rw [← hgrouped, List.all_map, Function.id_comp]
    rw [hall, ← Resolved.isScalarName happlies.builtIn]
    rfl
  globalize _ _ _ := Work.partialResult_lift fun d hd => grouped_globalize hd

/-- A formula that gives a column is columnar, and the mark of the column is the form of the formula. -/
theorem marked_eval (e : Expr) (scope : Scope) (f w : Frame) :
    Work.partialResult.Holds (backend.eval e scope f w : Work δ (Outcome Frame Column)) fun o =>
      ∀ c, o = .column c → e.isColumnar = true ∧ c.grouped = e.isUniform f.perRow := by
  rw [Work.partialResult_iff]
  rintro session o ho c rfl
  have hcolumnar := Backend.holds_columnar (E := Work.partialResult) (B := (backend : Backend (Work δ) Frame Column))
    (fun _ => trivial) Work.partialResult_any e scope f w
  have he := Work.partialResult_iff.1 hcolumnar session _ ho c rfl
  have hmarks := Backend.Marking.marks (K := marking (δ := δ)) he scope (f := f) (w := w) trivial trivial
  obtain ⟨d, heq, hd⟩ := Work.partialResult_iff.1 hmarks session _ ho
  obtain rfl := Outcome.column.inj heq
  exact ⟨he, hd.trans (e.isUniform_eq_mark _ _).symm⟩

/-- What grouping over SQL takes has one value per group by its form. -/
theorem takes_group (f : Frame) (keys : List String) (formulas : List (String × Expr)) :
    Work.partialResult.Holds (f.group keys (formulas.map backend.reducer) : Work δ Frame) fun _ =>
      ∀ named ∈ formulas, f.Takes named.2 := by
  have hreduce (named : String × Expr) (keys : List String) (fields : List GroupField) :
      Work.partialResult.Holds (f.reduce keys fields (backend.reducer named) : Work δ GroupField) fun _ =>
        f.Takes named.2 := by
    unfold reduce
    refine Work.partialResult_guard ?_
    refine Work.partialResult.bind (Q := fun c => named.2.isColumnar = true ∧
      c.grouped = named.2.isUniform f.perRow) ?_ fun c hc => ?_
    · refine Work.partialResult.bind (marked_eval named.2 .groups { f with groupKeys := some keys } f) fun o ho => ?_
      cases o with
      | column c => exact Work.partialResult.pure (ho c rfl)
      | frame g => exact Work.partialResult_throw
      | plot p => exact Work.partialResult_throw
    · by_cases hgrouped : c.grouped = true
      · refine Work.partialResult_guard (Work.partialResult.pure ?_)
        exact ⟨hc.1, hc.2 ▸ hgrouped⟩
      · rw [if_pos (by simpa using hgrouped)]
        exact Work.partialResult.bind (Q := fun _ => False) Work.partialResult_throw fun _ hfalse => hfalse.elim
  unfold group
  refine Work.partialResult.bind (Work.partialResult_any _) fun keyFields _ => ?_
  refine Work.partialResult.bind (Q := fun _ => ∀ named ∈ formulas, f.Takes named.2) ?_ fun fields hfields => ?_
  · rw [List.foldlM_map]
    refine Work.partialResult.foldlM_all fun named _ fields => ?_
    exact Work.partialResult.bind (hreduce named keys fields) fun _ h => Work.partialResult.pure h
  · exact Work.partialResult.bind (Work.partialResult_any _) fun _ _ => Work.partialResult.pure hfields

end Marks

/-! ## Frames over the same columns -/

section Frames

variable [Database δ]

variable (δ) in
/-- Frames over a source of their own, before any column is added. -/
inductive Fresh : Frame → Prop
  | ofQuery {dialect : Dialect} {query : Query} {options : Options} {session : Session δ} {s : Frame}
      (h : (Frame.ofQuery dialect query options session).1 = .ok s) : Fresh s
  | load {dialect : Dialect} {table : String} {frame : Memory.Frame} {session : Session δ} {s : Frame}
      (h : (Frame.load dialect table frame session).1 = .ok s) : Fresh s
  | sort {f s : Frame} {ascending : Bool} {keys : List String} {session : Session δ}
      (h : (f.sort ascending keys session).1 = .ok s) : Fresh s
  | group {f s : Frame} {keys : List String} {formulas : List (String × Expr)} {session : Session δ}
      (h : (f.group keys (formulas.map backend.reducer) session).1 = .ok s) : Fresh s

variable (δ) in
/-- Frames in memory and over SQL with the same columns, to which the same formulas were assigned. -/
inductive Paired : Memory.Frame → Frame → Prop
  | start {f : Memory.Frame} {s : Frame} (hf : f.Reached) (hs : Fresh δ s)
      (hnames : s.columns.map Column.name = f.columns.map Memory.Column.name) : Paired f s
  | assign {f g : Memory.Frame} {s t : Frame} {text : String} {session : Session δ} (h : Paired f s)
      (hg : f.assign text = .ok (g, none)) (ht : (s.assign text session).1 = .ok (t, none)) : Paired g t

omit [Database δ] in
/-- What is known of a frame over a source of its own. -/
structure Unmarked (s : Frame) : Prop where
  grouped : ∀ c ∈ s.columns, c.grouped = false
  indexed : (s.columns.map Column.name).Nodup → s.set.Indexed Column.name

theorem unmarked_ofOutputs (source : Source) (outputs : List Output) : (ofOutputs source outputs).Unmarked where
  grouped := by
    intro c hc
    rw [columns_ofOutputs] at hc
    obtain ⟨o, -, rfl⟩ := List.mem_map.1 hc
    rfl
  indexed h := by
    rw [columns_ofOutputs, List.map_map] at h
    exact indexed_ofOutputs source h

theorem Unmarked.withCategories (h : s.Unmarked) (c : Memory.Column) : (s.withCategories c).Unmarked := by
  have hnames : (s.withCategories c).columns.map Column.name = s.columns.map Column.name :=
    map_withCategories (fun _ _ => rfl) s c
  refine ⟨fun d hd => ?_, fun hdistinct => ?_⟩
  · have hgrouped : d.grouped ∈ s.columns.map Column.grouped := by
      rw [← map_withCategories (fun _ _ => rfl) s c]
      exact List.mem_map_of_mem hd
    obtain ⟨e, he, hde⟩ := List.mem_map.1 hgrouped
    exact hde.symm.trans (h.grouped e he)
  · rw [hnames] at hdistinct
    refine (h.indexed hdistinct).of_names ?_ hnames
    unfold Frame.withCategories
    split <;> rfl

theorem Fresh.unmarked (h : s.Fresh δ) : s.Unmarked := by
  cases h with
  | ofQuery h => exact Work.partialResult_iff.1 (holds_ofQuery unmarked_ofOutputs _ _ _) _ _ h
  | load h =>
    exact Work.partialResult_iff.1 (holds_load unmarked_ofOutputs (fun _ c hs => hs.withCategories c) _ _ _) _ _ h
  | sort h => exact Work.partialResult_iff.1 (holds_sort unmarked_ofOutputs _ _ _) _ _ h
  | group h => exact Work.partialResult_iff.1 (holds_group unmarked_ofOutputs _ _ _) _ _ h

/-! ## Stored columns -/

/-- The two frames have the same names, and if some column over SQL is marked, then so is one that has the same cell
    on each row in memory. -/
structure Beside (f : Memory.Frame) (s : Frame) : Prop where
  reached : f.Reached
  indexed : s.set.Indexed Column.name
  names : s.columns.map Column.name = f.columns.map Memory.Column.name
  stored : (∀ c ∈ s.columns, c.grouped = false) ∨ ∃ c ∈ s.columns, c.grouped = true ∧ ∃ d ∈ f.columns,
    d.name = c.name ∧ ∃ v, d.data.values = List.replicate f.rows v

variable {f g : Memory.Frame}

/-- Over unmarked columns, what is looked up in memory is taken to have a cell for each row. -/
theorem Beside.perRow (h : Beside f s) (hgrouped : ∀ c ∈ s.columns, c.grouped = false) {name : String}
    {d : Memory.Column} (hd : f.column? name = some d) : s.perRow name = true := by
  obtain ⟨hmem, rfl⟩ := h.reached.valid.mem_of_column? hd
  have hname : d.name ∈ s.columns.map Column.name := h.names ▸ List.mem_map_of_mem hmem
  obtain ⟨c, hc, hcname⟩ := List.mem_map.1 hname
  have hfound : s.column? d.name = some c := h.indexed.column?_eq_some_iff.2 ⟨hc, hcname⟩
  unfold Frame.perRow
  rw [hfound, Option.any_some, hgrouped c hc]
  rfl

/-- A formula that is uniform over unmarked columns gives one cell in memory. -/
theorem Beside.length_eval (h : Beside f s) (hgrouped : ∀ c ∈ s.columns, c.grouped = false) {e : Expr}
    (he : s.Takes e) {d : Memory.Column} (hd : Memory.Frame.backend.eval e .rows f f = .ok (.column d)) :
    d.length = 1 := by
  have hmarks := Memory.Frame.holds_uniform he.columnar .rows f f
  rw [hd] at hmarks
  obtain ⟨d', heq, hmark⟩ := hmarks
  obtain rfl := Outcome.column.inj heq
  refine hmark (Expr.isUniform_mono (fun name hname => ?_) he.uniform)
  obtain ⟨found, hfound, -⟩ := Memory.Frame.column_of_perRow hname
  exact h.perRow hgrouped hfound

/-- The first marked column that is stored has one value on all rows in memory; later ones do not matter. -/
theorem Beside.append (h : Beside f s) {c : Column} {d : Memory.Column} (hname : c.name = d.name)
    (hone : (∀ c ∈ s.columns, c.grouped = false) → c.grouped = true → d.length = 1) (hreached : g.Reached)
    (hg : f.append d = .ok g) (ht : s.append c = .ok t) : Beside g t := by
  have hvalid := hreached.valid
  obtain ⟨-, data, hdata, rfl⟩ := Memory.Frame.append_ok hg
  obtain ⟨hnew, rfl⟩ := append_ok ht
  have hlast : { d with data, constant := none } ∈ (f.set.push d.name { d with data, constant := none }).columns :=
    List.mem_append_right _ (List.mem_singleton_self _)
  refine ⟨hreached, @ColumnSet.Indexed.push _ _ _ h.indexed { c with constant := none } hnew, ?_, ?_⟩
  · have hnames : s.set.columns.map Column.name = f.set.columns.map Memory.Column.name := h.names
    simp only [columns, Memory.Frame.columns, ColumnSet.push, List.map_append, List.map_cons, List.map_nil, hnames,
      hname]
  · rcases h.stored with hgrouped | ⟨c₀, hc₀, hmarked, d₀, hd₀, hname₀, v, hv⟩
    · by_cases hc : c.grouped = true
      · obtain ⟨v, hv⟩ := Memory.Frame.replicate_fit (hone hgrouped hc) hdata
        have hrows := hvalid.lengths _ hlast
        refine .inr ⟨_, List.mem_append_right _ (List.mem_singleton_self _), hc, _, hlast, hname.symm, v, ?_⟩
        rw [← hrows]
        exact hv
      · refine .inl fun c' hc' => ?_
        rcases List.mem_append.1 hc' with hc' | hc'
        · exact hgrouped c' hc'
        · exact List.mem_singleton.1 hc' ▸ Bool.eq_false_iff.2 hc
    · have hmem : d₀ ∈ (f.set.push d.name { d with data, constant := none }).columns := List.mem_append_left _ hd₀
      refine .inr ⟨c₀, List.mem_append_left _ hc₀, hmarked, d₀, hmem, hname₀, v, ?_⟩
      rw [← hvalid.lengths d₀ hmem, h.reached.valid.lengths d₀ hd₀]
      exact hv

/-- A column that is assigned is marked by the form of its formula. -/
theorem Beside.assign (h : Beside f s) {text : String} {session : Session δ} (hg : f.assign text = .ok (g, none))
    (ht : (s.assign text session).1 = .ok (t, none)) : Beside g t := by
  have hmemory := Backend.holds_assigned (E := Ending.partialResult) (B := Memory.Frame.backend)
    (Q := fun e d => Memory.Frame.backend.eval e .rows f f = .ok (.column d)) (R := fun d g => f.append d = .ok g)
    (fun _ => trivial) (fun _ _ ho _ hc => hc ▸ ho) (fun _ _ hg => hg) text
  have hsql := Backend.holds_assigned (E := Work.partialResult) (B := (backend : Backend (Work δ) Frame Column))
    (Q := fun e c => e.isColumnar = true ∧ c.grouped = e.isUniform s.perRow) (R := fun c t => s.append c = .ok t)
    (fun _ => trivial) (fun e => marked_eval e .rows s s) (fun c => Work.partialResult_lift fun t ht => ht) text
  obtain ⟨formula, target, d, hformula, htarget, hd, hg'⟩ := hmemory _ hg rfl
  obtain ⟨formula', target', c, hformula', htarget', ⟨hcolumnar, hmark⟩, ht'⟩ :=
    Work.partialResult_iff.1 hsql session _ ht rfl
  obtain rfl := Except.ok.inj (hformula.symm.trans hformula')
  obtain rfl := Option.some.inj (htarget.symm.trans htarget')
  have hstep : f.advance (.parse text) false = g := by
    simp [Memory.Frame.advance, Memory.Frame.handle, hg]
  have hreached : g.Reached := hstep ▸ h.reached.advance (fun _ hc => by cases hc) false
  refine h.append rfl (fun hgrouped hc => ?_) hreached hg' ht'
  have hlength := h.length_eval hgrouped ⟨hcolumnar, hmark ▸ hc⟩ hd
  exact hlength

/-- Frames to which the same formulas were assigned stay beside each other. -/
theorem Paired.beside (h : Paired δ f s) : Beside f s := by
  induction h with
  | start hf hs hnames =>
    have hunmarked := hs.unmarked
    exact ⟨hf, hunmarked.indexed (hnames ▸ hf.valid.distinct), hnames, .inl hunmarked.grouped⟩
  | assign _ hg ht ih => exact ih.assign hg ht

theorem Paired.exists_session (h : Paired δ f s) : Nonempty (Session δ) := by
  induction h with
  | start hf hs hnames =>
    cases hs with
    | @ofQuery _ _ _ session => exact ⟨session⟩
    | @load _ _ _ session => exact ⟨session⟩
    | @sort _ _ _ _ session => exact ⟨session⟩
    | @group _ _ _ _ session => exact ⟨session⟩
  | assign _ _ _ ih => exact ih

/-! ## Grouping -/

/-- Formulas that grouping over SQL takes are not refused in memory, if no column is marked or there is one row. -/
theorem Beside.holds_group (h : Beside f s) (hrows : 0 < f.rows)
    (hmarks : f.rows = 1 ∨ ∀ c ∈ s.columns, c.grouped = false) (keys : List String)
    {formulas : List (String × Expr)} (htakes : ∀ named ∈ formulas, s.Takes named.2) :
    Ending.reducing.Holds (f.group keys (formulas.map Memory.Frame.backend.reducer)) fun _ => True := by
  refine Memory.Frame.holds_group_uniform hrows keys fun named hnamed => ⟨(htakes named hnamed).columnar, ?_⟩
  intro keys rows hmem g hg
  refine Expr.isUniform_mono (fun name hname => ?_) (htakes named hnamed).uniform
  obtain ⟨d, hd, hlength⟩ := Memory.Frame.column_of_perRow hname
  have hrel := Memory.Frame.column?_take hg name
  rw [hd] at hrel
  generalize hfound : f.column? name = found at hrel
  cases hrel with
  | some htake =>
    rcases hmarks with hone | hgrouped
    -- The group of the only row has a single cell in each column.
    · rw [hone, Memory.Frame.groups_one, List.mem_singleton] at hmem
      obtain ⟨data, hdata, rfl⟩ := Memory.Frame.take_column_ok htake
      exact absurd ((Series.take_ok hdata).2.trans (congrArg List.length hmem)) hlength
    · exact h.perRow hgrouped hfound

/-- A marked column is taken as a formula over SQL, also if it is the key itself. -/
theorem group_takes {name target : String} {c : Column} (hc : s.column? name = some c) (hgrouped : c.grouped = true)
    (htarget : name ≠ target) (session : Session δ) :
    ∃ t, (s.group [name] ([(target, .leaf name)].map backend.reducer) session).1 = .ok t := by
  let key : GroupField := (⟨c.term, name⟩, ⟨name, c.dataType, c.categories⟩)
  have hkeys : [name].mapM (m := Except Failure) s.keyField = .ok [key] := by
    have hcolumn : s.column name = .ok c := by
      unfold column
      rw [hc]
    have hkey : s.keyField name = .ok key := by
      unfold keyField
      rw [hcolumn]
      rfl
    rw [List.mapM_cons, hkey]
    rfl
  have hreduce : (s.reduce [name] [key] (backend.reducer (target, .leaf name)) : Work δ GroupField) =
      pure (⟨c.term, target⟩, ⟨target, c.dataType, c.categories⟩) := by
    have htoken : (backend.token { s with groupKeys := some [name] } name : Work δ Column) = pure c :=
      Backend.token_column hc
    have hrun : ((backend.reducer (target, .leaf name)).run { s with groupKeys := some [name] } s : Work δ Column) =
        pure c := by
      change (do Backend.asColumn (.leaf name) (← backend.eval (.leaf name) .groups _ s) : Work δ Column) = _
      rw [Backend.eval, htoken]
      rfl
    have hnew : ¬[key].any (·.2.name == target) = true := by simp [key, htarget]
    have hmarked : ¬(!c.grouped) = true := by simp [hgrouped]
    refine (if_neg hnew).trans ?_
    rw [hrun, pure_bind]
    exact if_neg hmarked
  have hlift : (liftM ([name].mapM (m := Except Failure) s.keyField) : Work δ (List GroupField)) = pure [key] := by
    rw [hkeys]
    rfl
  unfold Frame.group
  rw [hlift, pure_bind, List.map_singleton, List.foldlM_cons, hreduce]
  exact ⟨_, rfl⟩

/-- Grouping over SQL never takes a formula that grouping in memory refuses, exactly if there is one row or if no
    column is marked as having one value per group. A column is marked when a uniform formula was assigned to it. -/
theorem Paired.group_sound_iff (h : Paired δ f s) (hrows : 0 < f.rows) :
    (∀ (keys : List String) (formulas : List (String × Expr)) (session : Session δ) (t : Frame),
      (s.group keys (formulas.map backend.reducer) session).1 = .ok t → ∀ name text,
        f.group keys (formulas.map Memory.Frame.backend.reducer) ≠ .error (.notReducing name text)) ↔
      f.rows = 1 ∨ ∀ c ∈ s.columns, c.grouped = false := by
  have hbeside := h.beside
  obtain ⟨session⟩ := h.exists_session
  constructor
  · intro hsound
    rcases hbeside.stored with hgrouped | ⟨c, hc, hmarked, d, hd, hname, v, hv⟩
    · exact .inr hgrouped
    · refine .inl (Nat.le_antisymm (Nat.le_of_not_lt fun hmany => ?_) hrows)
      have hfound : s.column? c.name = some c := hbeside.indexed.column?_eq_some_iff.2 ⟨hc, rfl⟩
      have hfound' : f.column? c.name = some d := hbeside.reached.valid.indexed.column?_eq_some_iff.2 ⟨hd, hname⟩
      have hnew : c.name ≠ c.name ++ "'" := fun heq => by
        simpa using congrArg String.length heq
      obtain ⟨t, ht⟩ := group_takes hfound hmarked hnew session
      exact hsound _ _ session t ht _ _ (Memory.Frame.group_refused hbeside.reached.valid hfound' hv hmany _)
  · intro hmarks keys formulas session t ht name text hrefused
    have htakes := Work.partialResult_iff.1 (takes_group s keys formulas) session t ht
    have hfailure := Ending.reducing_iff.1 (hbeside.holds_group hrows hmarks keys htakes) _ hrefused
    cases hfailure

/-- The sum of a column of two rows is marked when it is stored, so some formula is taken over SQL alone. -/
theorem Paired.group_sound_iff_sum :
    let text := Formula.text ⟨some "m", .call "sum" [.leaf "x"]⟩
    let session : Session Store := ⟨⟨[⟨"t", [⟨"x", "INTEGER"⟩], [[.integer 1], [.integer 2]]⟩]⟩, 0⟩
    let x := (Memory.Frame.empty .default).run [(.append (.ofSeries "x" (.integers [1, 2])), false)]
    ∃ (f : Memory.Frame) (table s : Frame), (Frame.ofTable .sqlite "t" .default session).1 = .ok table ∧
      x.assign text = .ok (f, none) ∧ (table.assign text session).1 = .ok (s, none) ∧ Paired Store f s ∧ f.rows = 2 ∧
      s.columns.map Column.grouped = [false, true] ∧
      ∃ (keys : List String) (formulas : List (String × Expr)) (session : Session Store) (t : Frame) (name text : String),
        (s.group keys (formulas.map backend.reducer) session).1 = .ok t ∧
        f.group keys (formulas.map Memory.Frame.backend.reducer) = .error (.notReducing name text) := by
  intro text session x
  let table := ofOutputs ⟨0, .sqlite, .table "t", 0, none, .default⟩ [⟨"x", .integer, none⟩]
  have htable : (Frame.ofTable .sqlite "t" .default session).1 = .ok table := rfl
  have hx : x.Reached := (Memory.Frame.Reached.empty .default).run fun c returned hc => by
    obtain ⟨rfl, -⟩ : c = .ofSeries "x" (.integers [1, 2]) ∧ returned = false := by simpa using hc
    exact .ofSeries ..
  have htext : Formula.ofText text = .ok ⟨some "m", .call "sum" [.leaf "x"]⟩ :=
    Formula.ofText_text_target (by decide) (by decide +kernel) (by unfold Expr.Unassigning; decide)
  obtain ⟨f, hf, hrows⟩ : ∃ f, x.assign text = .ok (f, none) ∧ f.rows = 2 := by
    unfold Memory.Frame.assign Backend.assign
    rw [htext]
    exact ⟨_, rfl, rfl⟩
  obtain ⟨s, hs, hmarks⟩ : ∃ s, (table.assign text session).1 = .ok (s, none) ∧
      s.columns.map Column.grouped = [false, true] := by
    unfold Frame.assign Backend.assign
    rw [htext]
    exact ⟨_, rfl, rfl⟩
  have hpaired : Paired Store f s := .assign (.start hx (.ofQuery htable) rfl) hf hs
  refine ⟨f, table, s, htable, hf, hs, hpaired, hrows, hmarks, ?_⟩
  by_contra hnone
  push Not at hnone
  have hsound := (hpaired.group_sound_iff (by omega)).1 fun keys formulas session t ht name text =>
    hnone keys formulas session t name text ht
  rcases hsound with hone | hgrouped
  · omega
  · have hmem : true ∈ s.columns.map Column.grouped := by simp [hmarks]
    obtain ⟨c, hc, hmarked⟩ := List.mem_map.1 hmem
    exact Bool.false_ne_true ((hgrouped c hc).symm.trans hmarked)

end Frames

end Tabular.Sql.Frame
