-- SUMMARY: The index of an SQL frame is right as long as no grouping on the way repeats a key.
import Tabular.Proofs.Sql.Evaluate
import Tabular.Proofs.Sql.Lineage
import Tabular.Sql.Store

/-!
# The index of an SQL frame

Over a source whose columns have distinct names a frame finds each column at its position. Appending, dropping, sorting
and the frames of formulas keep that. Grouping starts a new frame of its keys and its formulas: the name of a formula
is refused if it is there already, but a key is not. So a grouping gives a frame with a right index exactly if its keys
are distinct, and along a run all indices are right exactly if no key is repeated.
-/

namespace Tabular.Sql.Frame

variable {δ : Type} {f g : Frame}

/-- The names of the columns in order. -/
def names (f : Frame) : List String := f.set.names Column.name

/-- The index leads from each column's name to its position, and from no other name anywhere. -/
def Indexed (f : Frame) : Prop := f.set.Indexed Column.name

theorem Indexed.nodup (hf : f.Indexed) : f.names.Nodup := ColumnSet.Indexed.nodup hf

/-! ## New frames -/

theorem map_name_ofOutputs (source : Source) (outputs : List Output) :
    (ofOutputs source outputs).names = outputs.map Output.name := by
  have hcolumns := columns_ofOutputs source outputs
  unfold columns at hcolumns
  rw [names, ColumnSet.names, hcolumns, List.map_map]
  rfl

/-- A new frame has a right index exactly if its names are distinct. -/
theorem indexed_ofOutputs_iff (source : Source) (outputs : List Output) :
    (ofOutputs source outputs).Indexed ↔ (outputs.map Output.name).Nodup := by
  refine ⟨fun h => ?_, indexed_ofOutputs source⟩
  rw [← map_name_ofOutputs source outputs]
  exact h.nodup

/-! ## Steps -/

theorem Indexed.append (hf : f.Indexed) {c : Column} (h : f.append c = .ok g) : g.Indexed := by
  obtain ⟨hnew, rfl⟩ := append_ok h
  exact ColumnSet.Indexed.push (c := { c with constant := none }) hf hnew

theorem Indexed.drop (hf : f.Indexed) {name : String} {c : Column} (h : f.drop name = .ok (c, g)) : g.Indexed := by
  obtain ⟨set, hremove, rfl⟩ := drop_ok h
  exact ColumnSet.Indexed.remove? hf hremove

theorem Indexed.sort (hf : f.Indexed) (ascending : Bool) (keys : List String) :
    Work.partialResult.Holds (f.sort ascending keys : Work δ Frame) Indexed := by
  refine Work.partialResult.bind (Work.partialResult_any _) fun _ _ => ?_
  refine Work.partialResult.bind (Work.partialResult_any _) fun source _ => Work.partialResult.pure ?_
  rw [indexed_ofOutputs_iff, List.map_map]
  exact hf.nodup

/-! ## Grouping -/

section Group

/-- The names of the fields of a grouped statement. -/
def fieldNames (fields : List GroupField) : List String := fields.map (·.2.name)

theorem fieldNames_keys {keys : List String} {fields : List GroupField} (h : keys.mapM f.keyField = .ok fields) :
    fieldNames fields = keys := by
  refine (map_of_mapM h fun key _ field hfield => ?_).trans (List.map_id keys)
  obtain ⟨c, -, rfl⟩ := keyField_ok hfield
  rfl

/-- A field whose name is there already is refused, whatever its formula is. -/
theorem reduce_duplicate {keys : List String} {fields : List GroupField} {r : Reducer (Work δ) Frame Column}
    (h : r.name ∈ fieldNames fields) : f.reduce keys fields r = throw (.duplicateColumn r.name) := by
  obtain ⟨field, hfield, hname⟩ := List.mem_map.1 h
  have hany : fields.any (·.2.name == r.name) = true := List.any_eq_true.2 ⟨field, hfield, by simpa using hname⟩
  unfold reduce
  rw [if_pos hany]
  rfl

theorem holds_reduce_names (f : Frame) (keys : List String) (fields : List GroupField)
    (r : Reducer (Work δ) Frame Column) :
    Work.partialResult.Holds (f.reduce keys fields r) fun field =>
      r.name ∉ fieldNames fields ∧ field.2.name = r.name := by
  by_cases hmem : r.name ∈ fieldNames fields
  · rw [reduce_duplicate hmem]
    exact Work.partialResult_throw
  · unfold reduce
    refine Work.partialResult_guard ?_
    refine Work.partialResult.bind (Work.partialResult_any _) fun c _ => ?_
    exact Work.partialResult_guard (Work.partialResult.pure ⟨hmem, rfl⟩)

/-- The fields that a grouping collects for its formulas. -/
def fieldsOf (f : Frame) (keys : List String) (reducers : List (Reducer (Work δ) Frame Column))
    (fields : List GroupField) : Work δ (List GroupField) :=
  reducers.foldlM (fun fields r => do return fields ++ [← f.reduce keys fields r]) fields

/-- The names of formulas come after those that are there, and none of them is there already. -/
theorem holds_fieldsOf (f : Frame) (keys : List String) (reducers : List (Reducer (Work δ) Frame Column))
    (fields : List GroupField) :
    Work.partialResult.Holds (f.fieldsOf keys reducers fields) fun all =>
      fieldNames all = fieldNames fields ++ reducers.map Reducer.name ∧
        ((fieldNames all).Nodup ↔ (fieldNames fields).Nodup) := by
  induction reducers generalizing fields with
  | nil => exact Work.partialResult.pure (by simp)
  | cons r more ih =>
    unfold fieldsOf
    rw [List.foldlM_cons, bind_assoc]
    refine Work.partialResult.bind (holds_reduce_names f keys fields r) fun field hfield => ?_
    rw [pure_bind]
    refine Work.partialResult.mono (ih (fields ++ [field])) fun all hall => ?_
    have hnames : fieldNames (fields ++ [field]) = fieldNames fields ++ [r.name] := by
      simp [fieldNames, hfield.2]
    rw [hnames] at hall
    refine ⟨by rw [hall.1]; simp, hall.2.trans ?_⟩
    rw [(List.perm_append_singleton _ _).nodup_iff, List.nodup_cons, and_iff_right hfield.1]

/-- Groups have the keys and the formulas as columns, and a right index exactly if the keys are distinct. -/
theorem holds_group_indexed (f : Frame) (keys : List String) (reducers : List (Reducer (Work δ) Frame Column)) :
    Work.partialResult.Holds (f.group keys reducers) fun g =>
      g.names = keys ++ reducers.map Reducer.name ∧ (g.Indexed ↔ keys.Nodup) := by
  unfold group
  refine Work.partialResult.bind (Work.partialResult_lift fun fields => fieldNames_keys) fun keyFields hkeys => ?_
  refine Work.partialResult.bind (holds_fieldsOf f keys reducers keyFields) fun fields hfields => ?_
  refine Work.partialResult.bind (Work.partialResult_any _) fun source _ => Work.partialResult.pure ?_
  rw [hkeys] at hfields
  rw [map_name_ofOutputs, indexed_ofOutputs_iff, List.map_map]
  exact hfields

/-- One more formula under a name that the groups already have is refused. -/
theorem group_duplicate {f : Frame} {keys : List String} {before after : List (Reducer (Work δ) Frame Column)}
    {r : Reducer (Work δ) Frame Column} {session : Session δ}
    (h : (f.group keys before session).1 = .ok g) (hname : r.name ∈ g.names) :
    (f.group keys (before ++ r :: after) session).1 = .error (.duplicateColumn r.name) := by
  unfold group at h ⊢
  obtain ⟨keyFields, rest, hkeys, h⟩ := Work.bind_eq_ok.1 h
  obtain ⟨fields, rest, hfields, h⟩ := Work.bind_eq_ok.1 h
  have hname : r.name ∈ fieldNames fields := by
    obtain rfl := Except.ok.inj h
    rwa [map_name_ofOutputs, List.map_map] at hname
  -- Up to the formula both collect the same fields.
  rw [Work.run_bind, hkeys]
  dsimp only
  rw [List.foldlM_append, bind_assoc, Work.run_bind, hfields]
  dsimp only
  rw [List.foldlM_cons, reduce_duplicate hname]
  rfl

end Group

/-! ## Runs -/

variable [Database δ]

variable (δ) in
/-- A step from a frame to another, and the keys that it groups by, if it does. -/
inductive Step : Frame → Option (List String) → Frame → Prop
  | append {f g : Frame} {c : Column} (h : f.append c = .ok g) : Step f none g
  | drop {f g : Frame} {name : String} {c : Column} (h : f.drop name = .ok (c, g)) : Step f none g
  | sort {f g : Frame} {ascending : Bool} {keys : List String} {session : Session δ}
      (h : (f.sort ascending keys session).1 = .ok g) : Step f none g
  | group {f g : Frame} {keys : List String} {formulas : List (String × Expr)} {session : Session δ}
      (h : (f.group keys (formulas.map backend.reducer) session).1 = .ok g) : Step f (some keys) g
  | assign {f g : Frame} {text : String} {session : Session δ} {result : Option (Evaluated Frame Column)}
      (h : (f.assign text session).1 = .ok (g, result)) : Step f none g
  | formula {f g : Frame} {text : String} {formula : Formula} {session after : Session δ}
      {result : Evaluated Frame Column} (htext : Formula.ofText text = .ok formula)
      (h : f.Gives text session result after) (hg : result.outcome = .frame g) : Step f formula.expr.groupedBy g

/-- The index is right exactly if the keys that were grouped by are distinct. -/
def IndexedAfter (keys? : Option (List String)) (g : Frame) : Prop := g.Indexed ↔ ∀ keys ∈ keys?, keys.Nodup

theorem indexedAfter_none {g : Frame} (hg : g.Indexed) : IndexedAfter none g := by simp [IndexedAfter, hg]

omit [Database δ] in
theorem Indexed.holds_sort (hf : f.Indexed) (ascending : Bool) (keys : List String) :
    Work.partialResult.Holds (f.sort ascending keys : Work δ Frame) (IndexedAfter none) :=
  Work.partialResult.mono (hf.sort ascending keys) fun _ => indexedAfter_none

theorem holds_group_indexedAfter (f : Frame) (keys : List String) (formulas : List (String × Expr)) :
    Work.partialResult.Holds (f.group keys (formulas.map backend.reducer) : Work δ Frame)
      (IndexedAfter (some keys)) :=
  Work.partialResult.mono (holds_group_indexed f keys _) fun g hg => by simp [IndexedAfter, hg.2]

/-- A step keeps the index right exactly if it does not group by repeated keys. -/
theorem Step.indexedAfter {keys? : Option (List String)} (h : Step δ f keys? g) (hf : f.Indexed) :
    IndexedAfter keys? g := by
  cases h with
  | append h => exact indexedAfter_none (hf.append h)
  | drop h => exact indexedAfter_none (hf.drop h)
  | sort h => exact Work.partialResult_iff.1 (hf.holds_sort _ _) _ _ h
  | group h => exact Work.partialResult_iff.1 (holds_group_indexedAfter f _ _) _ _ h
  | assign h => exact indexedAfter_none (assign_frame hf (fun _ _ => hf.append) h)
  | formula htext h hg => exact h.frame hf.holds_sort (holds_group_indexedAfter f) htext hg

variable (δ) in
/-- Steps one after another from a frame, each with the keys that it groups by and the frame that it leads to. -/
inductive Run : Frame → List (Option (List String) × Frame) → Prop
  | done {f : Frame} : Run f []
  | step {f g : Frame} {keys? : Option (List String)} {more : List (Option (List String) × Frame)}
      (h : Step δ f keys? g) (hmore : Run g more) : Run f ((keys?, g) :: more)

/-- From a right index, all indices of a run are right exactly if no step groups by repeated keys. -/
theorem Run.forall_indexed_iff {visited : List (Option (List String) × Frame)} (h : Run δ f visited)
    (hf : f.Indexed) : (∀ p ∈ visited, p.2.Indexed) ↔ ∀ p ∈ visited, ∀ keys ∈ p.1, keys.Nodup := by
  induction h with
  | done => simp
  | step h hmore ih =>
    rw [List.forall_mem_cons, List.forall_mem_cons]
    constructor
    · rintro ⟨hg, hrest⟩
      exact ⟨(h.indexedAfter hf).1 hg, (ih hg).1 hrest⟩
    · rintro ⟨hkeys, hrest⟩
      have hg := (h.indexedAfter hf).2 hkeys
      exact ⟨hg, (ih hg).2 hrest⟩

/-! ## Sources -/

/-- A source whose columns have distinct names. -/
theorem indexed_ofQuery {dialect : Dialect} {query : Query} {options : Options} {session : Session δ}
    {types : List (String × DataType)} (htypes : (Database.types query session.database).1 = .ok types)
    (hdistinct : (types.map Prod.fst).Nodup) (hf : (ofQuery dialect query options session).1 = .ok f) :
    f.Indexed := by
  unfold ofQuery at hf
  rw [Work.run_bind] at hf
  have hask : (Work.ask (Database.types query) session : _ × Session δ).1 = .ok types := htypes
  rcases hrun : (Work.ask (Database.types query) session : _ × Session δ) with ⟨result, rest⟩
  rw [hrun] at hf hask
  obtain rfl : result = .ok types := hask
  obtain rfl := Except.ok.inj hf
  rw [indexed_ofOutputs_iff, List.map_map]
  exact hdistinct

/-- Over a source whose columns have distinct names, along every run of appending, dropping, sorting, grouping and
    formulas: the names of each frame are distinct and its index finds each of them at its position and nothing
    else, exactly if no step groups by repeated keys. A formula of `by` under a name that is there already is always
    refused as a duplicate. -/
theorem Run.indexed_iff {dialect : Dialect} {query : Query} {options : Options} {session : Session δ}
    {types : List (String × DataType)} (htypes : (Database.types query session.database).1 = .ok types)
    (hdistinct : (types.map Prod.fst).Nodup) (hf : (ofQuery dialect query options session).1 = .ok f)
    {visited : List (Option (List String) × Frame)} (h : Run δ f visited) :
    f.Indexed ∧
      ((∀ p ∈ visited, p.2.names.Nodup ∧ p.2.Indexed) ↔ ∀ p ∈ visited, ∀ keys ∈ p.1, keys.Nodup) ∧
      ∀ s ∈ f :: visited.map Prod.snd, ∀ keys (before after : List (String × Expr)) (named : String × Expr)
        (session : Session δ) (g : Frame),
        (s.group keys (before.map backend.reducer) session).1 = .ok g → named.1 ∈ g.names →
          (s.group keys ((before ++ named :: after).map backend.reducer) session).1 =
            .error (.duplicateColumn named.1) := by
  have hindexed := indexed_ofQuery htypes hdistinct hf
  refine ⟨hindexed, ?_, ?_⟩
  · rw [← h.forall_indexed_iff hindexed]
    exact forall₂_congr fun p _ => and_iff_right_of_imp Indexed.nodup
  · intro s _ keys before after named session g hg hname
    rw [List.map_append, List.map_cons]
    exact group_duplicate hg hname

/-- Grouping a table by its column once and twice. -/
theorem Run.indexed_iff_repeated :
    let session : Session Store := ⟨⟨[⟨"t", [⟨"k", "INTEGER"⟩], [[.integer 1]]⟩]⟩, 0⟩
    ∃ f once twice : Frame, (ofTable .sqlite "t" .default session).1 = .ok f ∧
      Run Store f [(some ["k"], once)] ∧ once.Indexed ∧
      (f.group ["k"] ([("k", .leaf "k")].map backend.reducer) session).1 = .error (.duplicateColumn "k") ∧
      Run Store f [(some ["k", "k"], twice)] ∧ ¬(twice.names.Nodup ∧ twice.Indexed) := by
  intro session
  let f := ofOutputs ⟨0, .sqlite, .table "t", 0, none, .default⟩ [⟨"k", .integer, none⟩]
  have hf : (ofQuery .sqlite (.table "t") .default session).1 = .ok f := rfl
  have htypes : (Database.types (.table "t") session.database).1 = .ok [("k", .integer)] := rfl
  obtain ⟨once, honce⟩ : ∃ g, (f.group ["k"] (List.map backend.reducer []) session).1 = .ok g := ⟨_, rfl⟩
  obtain ⟨twice, htwice⟩ : ∃ g, (f.group ["k", "k"] (List.map backend.reducer []) session).1 = .ok g := ⟨_, rfl⟩
  have hrun : Run Store f [(some ["k"], once)] := .step (.group honce) .done
  have hrun' : Run Store f [(some ["k", "k"], twice)] := .step (.group htwice) .done
  obtain ⟨-, hiff, hduplicate⟩ := Run.indexed_iff htypes (by decide) hf hrun
  obtain ⟨-, hiff', -⟩ := Run.indexed_iff htypes (by decide) hf hrun'
  simp only [List.forall_mem_singleton, Option.mem_some_iff, forall_eq'] at hiff hiff'
  have hnames : once.names = ["k"] := (Work.partialResult_iff.1 (holds_group_indexed f _ _) _ _ honce).1
  have hclash := hduplicate f List.mem_cons_self ["k"] [] [] ("k", .leaf "k") session once honce (by simp [hnames])
  exact ⟨f, once, twice, hf, hrun, (hiff.2 (by decide)).2, hclash, hrun', fun h => absurd (hiff'.1 h) (by decide)⟩

end Tabular.Sql.Frame
