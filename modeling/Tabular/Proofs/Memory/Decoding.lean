-- SUMMARY: Which rows of coded columns decode to the raw values that they stand for, in every frame in memory.
import Tabular.Proofs.Evaluation.Outcome
import Tabular.Proofs.Memory.Assignment
import Tabular.Proofs.Memory.Classes
import Tabular.Proofs.Memory.Provenance

/-!
# Decoding coded columns

Grouping keeps the codes of its keys, and gives a formula one row for each group. All rows of a traced frame stand for
what the trace says, and every run of requests that adds plain columns only leads to traced frames. So a row decodes to
its raw value whenever the map that the column carries agrees with the map of the row, which is so outside of `by`.
-/

namespace Tabular.Memory

/-! ## Grouping -/

namespace Frame

variable {f g : Frame}

/-- A column as long as the others is added with the cells it has. -/
theorem columns_append {n : Nat} (hf : ∀ c ∈ f.columns, c.length = n) {c : Column} (hc : c.length = n)
    (h : f.append c = .ok g) : g.columns = f.columns ++ [{ c with constant := none }] := by
  obtain ⟨-, data, hdata, rfl⟩ := append_ok h
  have hfits : f.columns.isEmpty ∨ c.length = f.rows := by
    cases hcolumns : f.columns with
    | nil => exact .inl rfl
    | cons d more =>
      have hd : d.length = n := hf d (hcolumns ▸ List.mem_cons_self)
      exact .inr (by simp [Frame.rows, hcolumns, hd, hc])
  unfold fit at hdata
  rw [if_pos hfits] at hdata
  obtain rfl := Except.ok.inj hdata
  rfl

theorem columns_foldlM_append {A : Type} {make : A → Except Failure Column} {xs : List A} {n : Nat}
    (hf : ∀ c ∈ f.columns, c.length = n) (hmake : ∀ x ∈ xs, ∀ c, make x = .ok c → c.length = n)
    (h : xs.foldlM (fun out x => do Frame.append out (← make x)) f = .ok g) :
    ∃ cs, xs.mapM make = .ok cs ∧ g.columns = f.columns ++ cs.map fun c => { c with constant := none } := by
  induction xs generalizing f with
  | nil =>
    obtain rfl := Except.ok.inj h
    exact ⟨[], rfl, by simp⟩
  | cons x xs ih =>
    rw [List.foldlM_cons] at h
    rw [List.forall_mem_cons] at hmake
    obtain ⟨out, hout, h⟩ := bind_eq_ok.1 h
    obtain ⟨c, hc, happend⟩ := bind_eq_ok.1 hout
    have hcolumns := columns_append hf (hmake.1 c hc) happend
    have hlengths : ∀ d ∈ out.columns, d.length = n := by
      rw [hcolumns, List.forall_mem_append, List.forall_mem_singleton]
      exact ⟨hf, hmake.1 c hc⟩
    obtain ⟨cs, hcs, hg⟩ := ih hlengths hmake.2 h
    refine ⟨c :: cs, ?_, ?_⟩
    · rw [List.mapM_cons, hc, hcs]
      rfl
    · rw [hg, hcolumns, List.append_assoc]
      rfl

/-- A reduced formula has one cell for each group. -/
theorem length_reduce {groups : List (List Nat)} {r : Reducer (Except Failure) Frame Column} {c : Column}
    (h : f.reduce groups r = .ok c) : c.length = groups.length := by
  unfold reduce at h
  obtain ⟨results, hresults, h⟩ := bind_eq_ok.1 h
  have hlength := length_of_mapM hresults
  split at h
  · obtain ⟨dataType, -, h⟩ := bind_eq_ok.1 h
    obtain ⟨data, hdata, h⟩ := bind_eq_ok.1 h
    obtain rfl := Except.ok.inj h
    exact (Series.empty_ok (liftM_series_eq_ok.1 hdata)).2.trans hlength
  · obtain ⟨data, hdata, h⟩ := bind_eq_ok.1 h
    obtain rfl := Except.ok.inj h
    exact (Series.ofValues_ok (liftM_series_eq_ok.1 hdata)).2.trans ((List.length_map _).trans hlength)

/-- The columns of a grouped frame: the first rows of its keys, then a column for each formula. -/
theorem group_columns {keys : List String} {reducers : List (Reducer (Except Failure) Frame Column)}
    {groups : List (List Nat)} (hgroups : f.grouping keys = .ok groups) (h : f.group keys reducers = .ok g) :
    ∃ keyColumns taken cs, keys.mapM f.column = .ok keyColumns ∧
      keyColumns.mapM (·.take (groups.filterMap List.head?)) = .ok taken ∧ reducers.mapM (f.reduce groups) = .ok cs ∧
      g.columns = (taken ++ cs).map fun c => { c with constant := none } := by
  obtain ⟨keyColumns, hkeys, hgroups⟩ := bind_eq_ok.1 hgroups
  obtain rfl := Except.ok.inj hgroups
  unfold Frame.group at h
  obtain ⟨keyColumns', hkeys', h⟩ := bind_eq_ok.1 h
  obtain rfl := Except.ok.inj (hkeys.symm.trans hkeys')
  obtain ⟨grouped, hgrouped, h⟩ := bind_eq_ok.1 h
  have hempty : ∀ c ∈ (empty f.options).columns, c.length = (groups (keyColumns.map (·.data)) f.rows).length := by
    simp [columns, empty, ColumnSet.empty]
  obtain ⟨taken, htaken, hcolumns⟩ := columns_foldlM_append hempty (fun c _ d hd => by
    obtain ⟨data, hdata, rfl⟩ := take_column_ok hd
    exact (Series.take_ok hdata).2.trans (length_firsts _ _)) hgrouped
  have hlengths : ∀ c ∈ grouped.columns, c.length = (groups (keyColumns.map (·.data)) f.rows).length := by
    intro c hc
    rw [hcolumns] at hc
    obtain ⟨d, hd, rfl⟩ := List.mem_map.1 hc
    obtain ⟨key, -, hkey⟩ := exists_of_mem_mapM htaken hd
    obtain ⟨data, hdata, rfl⟩ := take_column_ok hkey
    exact (Series.take_ok hdata).2.trans (length_firsts _ _)
  obtain ⟨cs, hcs, hg⟩ := columns_foldlM_append hlengths (fun r _ c hc => length_reduce hc) h
  refine ⟨keyColumns, taken, cs, hkeys, htaken, hcs, ?_⟩
  rw [hg, hcolumns, List.map_append]
  rfl

/-- A column that was stored without its value as a literal is found by its name. -/
theorem Valid.column?_stored (hg : g.Valid) {cs : List Column}
    (hcolumns : g.columns = cs.map fun c => { c with constant := none }) {c : Column} (hc : c ∈ cs) {name : String}
    (hname : c.name = name) : g.column? name = some { c with constant := none } := by
  refine hg.indexed.column?_eq_some_iff.2 ⟨?_, hname⟩
  show { c with constant := none } ∈ g.columns
  rw [hcolumns]
  exact List.mem_map_of_mem (f := fun c : Column => { c with constant := none }) hc

/-! ## Formulas of groups -/

/-- The cell of a group stands for an origin, and the group's own column carries the map of the origin. -/
def Reduced (result : Column × Value) (o : Origin) : Prop :=
  o.Stands result.2 ∧ result.1.dataType = .categorical ∧ result.1.categories = some o.map

theorem reduceGroup_reduced (hf : f.Categorized) {named : String × Expr} {rows : List Nat} {result : Column × Value}
    (h : f.reduceGroup (backend.reducer named) rows = .ok result) {u : Frame} (hu : f.take rows = .ok u)
    {origins : List Origin} (horigins : u.origins? f .groups named.2 = some origins) :
    ∃ o, origins = [o] ∧ Reduced result o := by
  obtain ⟨u', hu', hrun, hone, hcell⟩ := reduceGroup_ok h
  obtain rfl := Except.ok.inj (hu.symm.trans hu')
  obtain ⟨c, heval, hfits⟩ := origins?_fits (hf.take hu) hf horigins
  obtain ⟨outcome, houtcome, hcolumn⟩ := bind_eq_ok.1 hrun
  obtain rfl := Except.ok.inj (heval.symm.trans houtcome)
  obtain rfl : c = result.1 := Except.ok.inj hcolumn
  obtain ⟨o, rfl⟩ := List.length_eq_one_iff.1 (hfits.length.trans hone)
  obtain ⟨htype, hcategories⟩ := hfits.carried o (List.mem_singleton_self o)
  refine ⟨o, rfl, ?_, htype, hcategories⟩
  obtain ⟨v, hv⟩ := List.length_eq_one_iff.1 ((Series.length_values _).trans hone)
  have hstands := hfits.cells
  rw [hv] at hstands
  unfold Column.cell at hcell
  rw [Series.cell?_eq, hv] at hcell
  obtain rfl := Except.ok.inj hcell
  exact (List.forall₂_cons.1 hstands).1

theorem groupOrigins?_cons {rows : List Nat} {more : List (List Nat)} {e : Expr} {origins : List Origin}
    (h : f.groupOrigins? (rows :: more) e = some origins) :
    ∃ u first rest, f.take rows = .ok u ∧ u.origins? f .groups e = some first ∧ f.groupOrigins? more e = some rest ∧
      origins = first ++ rest := by
  unfold groupOrigins? at h
  simp only [List.mapM_cons, Option.bind_eq_bind, Option.bind_eq_some_iff, Option.pure_def, Option.some.injEq] at h
  obtain ⟨found, ⟨first, ⟨u, hu, hfirst⟩, rest, hrest, rfl⟩, rfl⟩ := h
  refine ⟨u, first, rest.flatten, toOption_eq_some.1 hu, hfirst, ?_, rfl⟩
  unfold groupOrigins?
  exact Option.bind_eq_some_iff.2 ⟨rest, hrest, rfl⟩

theorem reduceGroups_reduced (hf : f.Categorized) {named : String × Expr} {groups : List (List Nat)}
    {results : List (Column × Value)} (h : groups.mapM (f.reduceGroup (backend.reducer named)) = .ok results)
    {origins : List Origin} (horigins : f.groupOrigins? groups named.2 = some origins) :
    List.Forall₂ Reduced results origins := by
  have hall := mapM_eq_ok.1 h
  clear h
  induction hall generalizing origins with
  | nil =>
    obtain rfl := Option.some.inj horigins
    exact .nil
  | cons hrows _ ih =>
    obtain ⟨u, first, rest, hu, hfirst, hrest, rfl⟩ := groupOrigins?_cons horigins
    obtain ⟨o, rfl, hreduced⟩ := reduceGroup_reduced hf hrows hu hfirst
    exact .cons hreduced (ih hrest)

/-- A reduced formula stands for what it stands for on each group, and carries the map of the first one. -/
theorem reduce_fits (hf : f.Categorized) {named : String × Expr} {groups : List (List Nat)} {c : Column}
    (h : f.reduce groups (backend.reducer named) = .ok c) {origins : List Origin}
    (horigins : f.groupOrigins? groups named.2 = some origins) :
    Provenance.Fits ⟨origins, origins.head?⟩ c := by
  unfold reduce at h
  obtain ⟨results, hresults, h⟩ := bind_eq_ok.1 h
  have hall := reduceGroups_reduced hf hresults horigins
  split at h
  · cases hall
    obtain ⟨dataType, -, h⟩ := bind_eq_ok.1 h
    obtain ⟨data, hdata, h⟩ := bind_eq_ok.1 h
    obtain rfl := Except.ok.inj h
    have hempty : data.values = [] :=
      List.length_eq_zero_iff.1 ((Series.length_values _).trans (Series.empty_ok (liftM_series_eq_ok.1 hdata)).2)
    refine ⟨?_, by simp⟩
    rw [hempty]
    exact .nil
  · rename_i first value more
    obtain ⟨data, hdata, h⟩ := bind_eq_ok.1 h
    obtain rfl := Except.ok.inj h
    cases hall with
    | @cons _ o _ rest hfirst hrest =>
      obtain ⟨hstands, htype, hcategories⟩ := hfirst
      have hvalues := Series.values_ofValues_integer (by rw [htype]; rfl) (liftM_series_eq_ok.1 hdata)
      refine ⟨?_, fun _ _ => ⟨htype, hcategories⟩⟩
      rw [hvalues, List.map_cons]
      refine .cons hstands ?_
      rw [List.forall₂_map_left_iff]
      exact hrest.imp fun _ _ hreduced => hreduced.1

end Frame

/-! ## Traced frames -/

theorem Trace.Fits.group {t : Trace} {f g : Frame} (ht : t.Fits f) (hf : f.Valid) (hcategorized : f.Categorized)
    (hg : g.Valid) {keys : List String} {formulas : List (String × Expr)} {groups : List (List Nat)}
    (hgroups : f.grouping keys = .ok groups) (h : f.group keys (formulas.map Frame.backend.reducer) = .ok g) :
    (t.group f groups keys formulas).Fits g := by
  obtain ⟨keyColumns, taken, cs, hkeys, htaken, hcs, hcolumns⟩ := Frame.group_columns hgroups h
  have hfound : ∀ {c : Column} {name : String}, c ∈ taken ++ cs → c.name = name →
      g.column? name = some { c with constant := none } := fun hc hname => hg.column?_stored hcolumns hc hname
  intro name q hq
  unfold Trace.group at hq
  split at hq
  · rename_i named e hfind
    obtain ⟨origins, horigins, rfl⟩ := Option.map_eq_some_iff.1 hq
    have hnamed : named = name := by simpa using List.find?_some hfind
    have hreducer := List.mem_map_of_mem (f := Frame.backend.reducer) (List.mem_of_find?_eq_some hfind)
    obtain ⟨c, hc, hreduce⟩ := exists_of_mem_forall₂ (mapM_eq_ok.1 hcs).flip hreducer
    refine ⟨_, hfound (List.mem_append_right _ hc) ((Frame.reduce_ok hreduce).1.trans hnamed), ?_⟩
    exact (Frame.reduce_fits hcategorized hreduce horigins).relabel c.name none
  · split at hq
    · rename_i hkey
      obtain ⟨p, hp, rfl⟩ := Option.map_eq_some_iff.1 hq
      obtain ⟨c, hc, hfits⟩ := ht name p hp
      obtain ⟨c', hc', hcolumn⟩ := exists_of_mem_forall₂ (mapM_eq_ok.1 hkeys).flip hkey
      obtain rfl := Option.some.inj (hc.symm.trans (Frame.column_ok hcolumn))
      obtain ⟨d, hd, htake⟩ := exists_of_mem_forall₂ (mapM_eq_ok.1 htaken).flip hc'
      obtain ⟨data, hdata, rfl⟩ := Frame.take_column_ok htake
      refine ⟨_, hfound (List.mem_append_left _ hd) (hf.mem_of_column? hc).2, ?_⟩
      exact (hfits.pick hdata).relabel c.name none
    · simp at hq

/-- What an assignment adds to the frame: the column of its formula. -/
theorem Frame.assign_ok {f g : Frame} {text name : String} {formula : Formula}
    (hformula : Formula.ofText text = .ok formula) (htarget : formula.target = some name)
    (h : f.assign text = .ok (g, none)) :
    ∃ c, backend.eval formula.expr .rows f f = .ok (.column c) ∧ f.append (c.rename name) = .ok g := by
  obtain ⟨formula', hformula', ⟨_, _, _, _, hvalue⟩ | ⟨name', c, htarget', heval, happend, -⟩⟩ := assign_cases h
  · cases hvalue
  · obtain rfl := Except.ok.inj (hformula.symm.trans hformula')
    obtain rfl := Option.some.inj (htarget.symm.trans htarget')
    exact ⟨c, heval, happend⟩

/-- A traced frame is valid, its columns are categorized, and the trace fits it. -/
theorem Traced.fits {f : Frame} {t : Trace} (h : Traced f t) : f.Valid ∧ f.Categorized ∧ t.Fits f := by
  induction h with
  | empty options =>
    refine ⟨Frame.valid_empty options, fun c hc => ?_, fun name p hp => by simp [Trace.empty] at hp⟩
    simp [Frame.columns, Frame.empty, ColumnSet.empty] at hc
  | @plain f g t name data _ hg ih =>
    obtain ⟨hf, hcategorized, ht⟩ := ih
    have hvalid := hf.append (Column.made_ofSeries name data).typed hg
    refine ⟨hvalid, hcategorized.append (Column.categorized_ofSeries name data) hg, ?_⟩
    exact ht.append hf hvalid (p := none) (by simp) hg
  | setOptions options _ ih => exact ⟨ih.1.setOptions options, ih.2⟩
  | take _ hg ih => exact ⟨ih.1.take hg, ih.2.1.take hg, ih.2.2.take hg⟩
  | sort _ hkeys hg ih =>
    obtain ⟨keyColumns, hkeys', hg⟩ := bind_eq_ok.1 hg
    obtain rfl := Except.ok.inj (hkeys.symm.trans hkeys')
    obtain rfl := Except.ok.inj hg
    exact ⟨ih.1.permute _, ih.2.1.permute _, ih.2.2.permute _⟩
  | drop _ hg ih => exact ⟨(ih.1.drop hg).2, ih.2.1.drop hg, ih.2.2.drop ih.1 (ih.1.drop hg).2 hg⟩
  | @parse f g t text name formula _ hformula htarget hg ih =>
    obtain ⟨hf, hcategorized, ht⟩ := ih
    obtain ⟨c, heval, happend⟩ := Frame.assign_ok hformula htarget hg
    have hvalid := (Frame.invariant.holds_assign hf text _ hg).1
    refine ⟨hvalid, (Frame.categorizing.holds_assign (s := ()) hcategorized (fun _ _ _ _ => trivial) _ hg).1, ?_⟩
    have hp : ∀ q, ((f.origins? f .rows formula.expr).map fun origins => (⟨origins, none⟩ : Provenance)) = some q →
        q.Fits (c.rename name) := by
      intro q hq
      obtain ⟨origins, horigins, rfl⟩ := Option.map_eq_some_iff.1 hq
      obtain ⟨d, hd, hfits⟩ := Frame.origins?_fits hcategorized hcategorized horigins
      obtain rfl := Outcome.column.inj (Except.ok.inj (heval.symm.trans hd))
      exact hfits.relabel name c.constant
    have hfits := ht.append hf hvalid hp happend
    rwa [Option.map_map] at hfits
  | @group f g t keys formulas groups _ hgroups hg ih =>
    obtain ⟨hf, hcategorized, ht⟩ := ih
    have hvalid := hf.group hg
    refine ⟨hvalid, Frame.categorizing.group (s := ()) keys hcategorized ?_ _ hg, ?_⟩
    · intro r hr
      obtain ⟨named, -, rfl⟩ := List.mem_map.1 hr
      exact Frame.categorizing.goodReducer fun _ _ => trivial
    · exact ht.group hf hcategorized hvalid hgroups hg

/-! ## Runs -/

theorem Frame.sort_traced {f g : Frame} {t : Trace} (hf : Traced f t) {ascending : Bool} {keys : List String}
    (h : f.sort ascending keys = .ok g) : ∃ t, Traced g t := by
  obtain ⟨keyColumns, hkeys, -⟩ := bind_eq_ok.1 h
  exact ⟨_, hf.sort hkeys h⟩

theorem Frame.group_traced {f g : Frame} {t : Trace} (hf : Traced f t) {keys : List String}
    {formulas : List (String × Expr)} (h : f.group keys (formulas.map Frame.backend.reducer) = .ok g) :
    ∃ t, Traced g t := by
  obtain ⟨keyColumns, hkeys, -⟩ := bind_eq_ok.1 h
  exact ⟨_, hf.group (bind_eq_ok.2 ⟨keyColumns, hkeys, rfl⟩) h⟩

/-- Frames of a formula are those that `sort` and `group` give. -/
theorem Frame.eval_traced {f g : Frame} {t : Trace} (hf : Traced f t) {e : Expr}
    (h : Frame.backend.eval e .rows f f = .ok (.frame g)) : ∃ t, Traced g t := by
  rcases Backend.eval_frame_ok h with ⟨ascending, keys, hg⟩ | ⟨keys, formulas, hg⟩
  · exact Frame.sort_traced hf hg
  · exact Frame.group_traced hf hg

theorem Frame.assign_traced {f g : Frame} {t : Trace} (hf : Traced f t) {text : String}
    {result : Option (Evaluated Frame Column)} (h : f.assign text = .ok (g, result)) :
    (∃ t, Traced g t) ∧ ∀ r ∈ result, ∀ g', returned? r.outcome = some g' → ∃ t, Traced g' t := by
  have hassign := h
  unfold assign Backend.assign at h
  obtain ⟨formula, hformula, h⟩ := bind_eq_ok.1 h
  obtain ⟨evaluated, hrun, h⟩ := bind_eq_ok.1 h
  cases htarget : formula.target with
  | none =>
    rw [htarget] at h
    obtain ⟨rfl, rfl⟩ := Prod.mk.inj (Except.ok.inj h)
    refine ⟨⟨t, hf⟩, fun r hr g' hg' => ?_⟩
    obtain rfl := Option.some.inj hr
    obtain ⟨outcome, heval, hrun⟩ := bind_eq_ok.1 hrun
    obtain rfl := Except.ok.inj hrun
    cases outcome with
    | frame g =>
      obtain rfl := Option.some.inj hg'
      exact Frame.eval_traced hf heval
    | column c => simp [returned?] at hg'
    | plot p => simp [returned?] at hg'
  | some name =>
    rw [htarget] at h
    dsimp only at h
    split at h
    · obtain ⟨g', -, h⟩ := bind_eq_ok.1 h
      obtain ⟨rfl, rfl⟩ := Prod.mk.inj (Except.ok.inj h)
      exact ⟨⟨_, hf.parse hformula htarget hassign⟩, by simp⟩
    · simp [Backend.fail] at h

/-- A request on a traced frame gives traced frames, if it adds plain columns only. -/
theorem Traced.handle {f : Frame} {t : Trace} (hf : Traced f t) {r : Request}
    (hr : ∀ c, r = .append c → ∃ name data, c = .ofSeries name data) :
    (∃ t, Traced (f.handle r).1 t) ∧ ∀ g, (f.handle r).2 = some g → ∃ t, Traced g t := by
  cases r with
  | append c =>
    obtain ⟨name, data, rfl⟩ := hr c rfl
    unfold Frame.handle
    dsimp only
    split
    · rename_i g hg
      exact ⟨⟨_, hf.plain hg⟩, by simp⟩
    · exact ⟨⟨t, hf⟩, by simp⟩
  | drop name =>
    unfold Frame.handle
    dsimp only
    split
    · rename_i c g hg
      exact ⟨⟨_, hf.drop hg⟩, by simp⟩
    · exact ⟨⟨t, hf⟩, by simp⟩
  | parse formula =>
    unfold Frame.handle
    dsimp only
    split
    · rename_i g result hg
      obtain ⟨hnew, hreturned⟩ := Frame.assign_traced hf hg
      refine ⟨hnew, fun g' hg' => ?_⟩
      obtain ⟨r, hresult, houtcome⟩ := Option.bind_eq_some_iff.1 hg'
      exact hreturned r hresult g' houtcome
    · exact ⟨⟨t, hf⟩, by simp⟩
  | take rows => exact ⟨⟨t, hf⟩, fun g hg => ⟨_, hf.take (Frame.toOption_eq_some.1 hg)⟩⟩
  | sort ascending keys => exact ⟨⟨t, hf⟩, fun g hg => Frame.sort_traced hf (Frame.toOption_eq_some.1 hg)⟩
  | sortInPlace ascending keys =>
    refine ⟨?_, by simp [Frame.handle]⟩
    cases hsorted : f.sort ascending keys with
    | ok g => simpa [Frame.handle, hsorted, Except.toOption] using Frame.sort_traced hf hsorted
    | error failure => exact ⟨t, by simpa [Frame.handle, hsorted, Except.toOption] using hf⟩
  | setOptions options => exact ⟨⟨t, hf.setOptions options⟩, by simp [Frame.handle]⟩
  | group keys formulas => exact ⟨⟨t, hf⟩, fun g hg => Frame.group_traced hf (Frame.toOption_eq_some.1 hg)⟩

/-- Every frame that requests lead to is traced, if they add plain columns only. -/
theorem exists_traced_run (options : Options) (requests : List (Request × Bool))
    (hplain : ∀ c returned, (.append c, returned) ∈ requests → ∃ name data, c = .ofSeries name data) :
    ∃ t, Traced ((Frame.empty options).run requests) t := by
  have hrun : ∀ f t, Traced f t → ∃ t, Traced (f.run requests) t := by
    induction requests with
    | nil => exact fun f t hf => ⟨t, hf⟩
    | cons request requests ih =>
      intro f t hf
      have hr : ∀ c, request.1 = .append c → ∃ name data, c = .ofSeries name data := fun c hc =>
        hplain c request.2 (hc ▸ List.mem_cons_self)
      obtain ⟨hnew, hreturned⟩ := hf.handle hr
      obtain ⟨t', ht'⟩ : ∃ t, Traced (f.advance request.1 request.2) t := by
        unfold Frame.advance
        split
        · cases hg : (f.handle request.1).2 with
          | none => exact hnew
          | some g => exact hreturned g hg
        · exact hnew
      exact ih (fun c returned hc => hplain c returned (List.mem_cons_of_mem _ hc)) _ t' ht'
  exact hrun _ _ (.empty options)

/-! ## Decoding -/

/-- With its own map, a row decodes to its raw value. Maps in memory have fewer levels than there are codes. -/
theorem Origin.Stands.decodes_with_iff {v : Value} {o : Origin} (h : o.Stands v)
    (hsize : o.map.levels.length ≤ 2 ^ 63) :
    ∃ code, v = .integer code ∧ ∀ map : CategoryMap, o.Decodes map code ↔
      (o.Defaulted ∨ map.level? code = none ∨ map.level? code = o.map.level? code) := by
  obtain ⟨code, hv, hbuilt, hcode⟩ := h
  refine ⟨code, hv, fun map => ?_⟩
  have hown : ¬ o.Defaulted → ∀ w, map.level? code = some w → o.map.level? code = some o.raw := by
    intro hdefaulted w hw
    have hnonneg : 0 ≤ code.toInt := by
      by_contra hnegative
      rw [CategoryMap.level?, if_pos (by omega)] at hw
      simp at hw
    exact hbuilt.level?_of_code? hsize (hcode hdefaulted) hnonneg
  constructor
  · intro hdecodes
    by_cases hdefaulted : o.Defaulted
    · exact .inl hdefaulted
    · cases hw : map.level? code with
      | none => exact .inr (.inl rfl)
      | some w => exact .inr (.inr ((hdecodes hdefaulted w hw) ▸ (hown hdefaulted w hw).symm))
  · rintro (hdefaulted | hnone | hagree) hnot w hw
    · exact absurd hdefaulted hnot
    · simp [hnone] at hw
    · exact Option.some.inj ((hw.symm.trans hagree).trans (hown hnot w hw))

/-- In every frame that is reached from plain columns, a categorical column with cells carries a map. A row that `cat`
    or `applyCat` encoded decodes to its raw value outside of `by`. A row of a formula of `by` does so if and only if
    the map of the first group agrees with the map of its own group on its code. -/
theorem Traced.decodes_iff {f : Frame} {t : Trace} (h : Traced f t) :
    (∀ c ∈ f.columns, c.dataType = .categorical → c.categories = none → c.length = 0) ∧
      ∀ name p, t name = some p → ∃ c, f.column? name = some c ∧ p.origins.length = c.length ∧
        ∀ row o, p.origins[row]? = some o → o.map.levels.length ≤ 2 ^ 63 →
          ∃ code, c.dataType = .categorical ∧ c.data.cell? row = some (.integer code) ∧
            (p.first = none → c.categories = some o.map ∧ o.Decodes o.map code) ∧
            ∀ first, p.first = some first → c.categories = some first.map ∧
              (o.Decodes first.map code ↔
                (o.Defaulted ∨ first.map.level? code = none ∨ first.map.level? code = o.map.level? code)) := by
  obtain ⟨-, hcategorized, ht⟩ := h.fits
  refine ⟨fun c hc => (hcategorized c hc).mapped, fun name p hp => ?_⟩
  obtain ⟨c, hc, hfits⟩ := ht name p hp
  refine ⟨c, hc, hfits.length, fun row o ho hsize => ?_⟩
  have hrel := Series.rel_getElem? hfits.cells row
  rw [ho, ← Series.cell?_eq] at hrel
  obtain ⟨htype, hcarried⟩ := hfits.carried o (List.mem_of_getElem? ho)
  cases hcell : c.data.cell? row with
  | none =>
    rw [hcell] at hrel
    cases hrel
  | some v =>
    rw [hcell] at hrel
    obtain ⟨hstands⟩ := hrel
    obtain ⟨code, rfl, hdecodes⟩ := hstands.decodes_with_iff hsize
    refine ⟨code, htype, rfl, fun hfirst => ?_, fun first hfirst => ?_⟩
    · rw [hfirst, Option.getD_none] at hcarried
      exact ⟨hcarried, (hdecodes o.map).2 (.inr (.inr rfl))⟩
    · rw [hfirst, Option.getD_some] at hcarried
      exact ⟨hcarried, hdecodes first.map⟩

/-- Each group has a map of its own, the code is the same in both, and the second group decodes to the value of the
    first. -/
theorem Traced.decodes_iff_max :
    let y := (Frame.empty .default).run [(.append (.ofSeries "k" (.integers [1, 1, 2])), false),
      (.append (.ofSeries "s" (.strings ["a", "a", "b"])), false)]
    let formulas := [("c", Expr.call "cat" [.call "max" [.leaf "s"]])]
    ∃ (g : Frame) (t : Trace) (p : Provenance) (first o : Origin) (c : Column) (code : Int64),
      y.group ["k"] (formulas.map Frame.backend.reducer) = .ok g ∧ Traced g t ∧ t "c" = some p ∧ p.first = some first ∧
      p.origins[1]? = some o ∧ o.raw = .string "b" ∧ g.column? "c" = some c ∧ c.categories = some first.map ∧
      c.data.cell? 1 = some (.integer code) ∧ first.map.level? code = some (.string "a") ∧
      ¬ o.Decodes first.map code := by
  intro y formulas
  obtain ⟨t₀, ht₀⟩ := exists_traced_run .default [(.append (.ofSeries "k" (.integers [1, 1, 2])), false),
    (.append (.ofSeries "s" (.strings ["a", "a", "b"])), false)] fun c returned hc => by
      simp only [List.mem_cons, Prod.mk.injEq, Request.append.injEq, List.not_mem_nil, or_false] at hc
      rcases hc with ⟨rfl, -⟩ | ⟨rfl, -⟩
      · exact ⟨_, _, rfl⟩
      · exact ⟨_, _, rfl⟩
  have hgroups : y.grouping ["k"] = .ok [[0, 1], [2]] := Frame.toOption_eq_some.1 (by decide +kernel)
  obtain ⟨g, hg, hc⟩ : ∃ g, y.group ["k"] (formulas.map Frame.backend.reducer) = .ok g ∧
      (g.column? "c").map (fun c => (c.data.values, c.categories.map CategoryMap.levels)) =
        some ([.integer 0, .integer 0], some [.string "a"]) := by
    have hcolumn : ((y.group ["k"] (formulas.map Frame.backend.reducer)).toOption.bind (·.column? "c")).map
        (fun c => (c.data.values, c.categories.map CategoryMap.levels)) =
          some ([.integer 0, .integer 0], some [.string "a"]) := by
      decide +kernel
    cases hg : y.group ["k"] (formulas.map Frame.backend.reducer) with
    | ok g =>
      rw [hg] at hcolumn
      exact ⟨g, rfl, hcolumn⟩
    | error failure =>
      rw [hg] at hcolumn
      simp [Except.toOption] at hcolumn
  let own (raw : String) : Origin := ⟨.string raw, .ofValues .string none [.string raw], false⟩
  have horigins : y.groupOrigins? [[0, 1], [2]] (.call "cat" [.call "max" [.leaf "s"]]) = some [own "a", own "b"] := by
    decide +kernel
  have htraced := ht₀.group hgroups hg
  have hp : t₀.group y [[0, 1], [2]] ["k"] formulas "c" = some ⟨[own "a", own "b"], some (own "a")⟩ := by
    simp [Trace.group, formulas, horigins]
  obtain ⟨c, hcolumn, -, hrows⟩ := htraced.decodes_iff.2 "c" _ hp
  obtain ⟨code, -, hcell, -, hiff⟩ := hrows 1 (own "b") rfl (by decide)
  obtain ⟨hmap, hiff⟩ := hiff (own "a") rfl
  rw [hcolumn, Option.map_some] at hc
  obtain rfl : code = 0 := by
    rw [Series.cell?_eq, (Prod.mk.inj (Option.some.inj hc)).1] at hcell
    exact (Value.integer.inj (Option.some.inj hcell)).symm
  refine ⟨g, _, _, own "a", own "b", c, 0, hg, htraced, hp, rfl, rfl, rfl, hcolumn, hmap, hcell, by decide, ?_⟩
  rw [hiff]
  rintro (⟨hsubstitutes, -⟩ | hnone | hagree)
  · cases hsubstitutes
  · exact absurd hnone (by decide)
  · exact absurd hagree (by decide)

end Tabular.Memory
