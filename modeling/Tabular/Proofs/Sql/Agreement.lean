-- SUMMARY: A frame in memory and an SQL frame with the same columns give one formula the same schema.
import Tabular.Proofs.Evaluation.Simulation
import Tabular.Proofs.Memory.Evaluate
import Tabular.Proofs.Sql.Evaluate

/-!
# Agreement of backends

A frame in memory and an SQL frame agree if they have the same names and types in order and the same options, and
if the SQL frame finds what the frame in memory finds. Each operation in memory that has a result is followed by its
counterpart over SQL, which fails late if at all and keeps the agreement. So every formula has the same kind of
result over both, with the same names, types and dependencies.
-/

namespace Tabular.Sql

/-- The name and the type of a column. -/
def Column.label (c : Column) : String × DataType := (c.name, c.dataType)

def Frame.Output.label (o : Output) : String × DataType := (o.name, o.dataType)

namespace Frame

def labels (f : Frame) : List (String × DataType) := f.columns.map Column.label

variable {δ : Type} {known : String → Prop} {f g : Memory.Frame} {s : Frame}

/-! ## Agreement -/

/-- The frames have the same columns, and the SQL frame finds each known name that the other one finds. -/
structure Agrees (known : String → Prop) (f : Memory.Frame) (s : Frame) : Prop where
  valid : f.Valid
  sound : s.Sound
  labels : s.labels = f.labels
  options : s.source.options = f.options
  found : ∀ name, known name → f.set.contains name = true → s.set.contains name = true

/-- The columns have the same name, type and constant. A constant has the type of the column. -/
structure Matches (c : Memory.Column) (c' : Column) : Prop where
  typed : c.Typed
  label : c'.label = c.label
  constant : c'.constant = c.constant
  literal : ∀ v, c.constant = some v → c.dataType = v.dataType

theorem Matches.name {c : Memory.Column} {c' : Column} (h : Matches c c') : c'.name = c.name :=
  congrArg Prod.fst h.label

theorem Matches.dataType {c : Memory.Column} {c' : Column} (h : Matches c c') : c'.dataType = c.dataType :=
  congrArg Prod.snd h.label

theorem Matches.rename {c : Memory.Column} {c' : Column} (h : Matches c c') (name : String) :
    Matches (c.rename name) (c'.rename name) :=
  ⟨h.typed, Prod.ext rfl h.dataType, h.constant, h.literal⟩

theorem map_of_matches {A : Type} {tell : Memory.Column → A} {tell' : Column → A} {cs : List Memory.Column}
    {cs' : List Column} (h : List.Forall₂ Matches cs cs') (htell : ∀ c c', Matches c c' → tell' c' = tell c) :
    cs'.map tell' = cs.map tell := by
  induction h with
  | nil => rfl
  | cons hc _ ih => rw [List.map_cons, List.map_cons, ih, htell _ _ hc]

theorem typed_of_matches {cs : List Memory.Column} {cs' : List Column} (h : List.Forall₂ Matches cs cs') :
    ∀ c ∈ cs, c.Typed := by
  intro c hc
  obtain ⟨c', -, hmatches⟩ := exists_of_mem_forall₂ h.flip hc
  exact hmatches.typed

theorem names_eq_of_labels (h : s.labels = f.labels) :
    s.set.names Column.name = f.set.names Memory.Column.name := by
  have := congrArg (List.map Prod.fst) h
  simpa [labels, Memory.Frame.labels, Column.label, Memory.Column.label, Function.comp_def, ColumnSet.names,
    columns, Memory.Frame.columns] using this

/-- Lookups of known names give matching columns. -/
theorem Agrees.column? (h : Agrees known f s) {name : String} (hname : known name) :
    Option.Rel Matches (f.column? name) (s.column? name) := by
  have hposition := h.sound.index.position?_eq h.valid.indexed (names_eq_of_labels h.labels) (h.found name hname)
  unfold Memory.Frame.column? Frame.column? ColumnSet.column?
  rw [hposition]
  cases hp : f.set.position? name with
  | none => exact .none
  | some i =>
    have hlabel : (s.set.columns[i]?).map Column.label = (f.set.columns[i]?).map Memory.Column.label := by
      rw [← List.getElem?_map, ← List.getElem?_map]
      exact congrArg (·[i]?) h.labels
    cases hc : f.set.columns[i]? with
    | none =>
      cases hc' : s.set.columns[i]? with
      | none => simp only [Option.bind_eq_bind, Option.bind_some, hc, hc']; exact .none
      | some c' => simp [hc, hc'] at hlabel
    | some c =>
      cases hc' : s.set.columns[i]? with
      | none => simp [hc, hc'] at hlabel
      | some c' =>
        -- Stored columns are no constants, on either side.
        have hconstant := h.valid.constants c (List.mem_of_getElem? hc)
        simp only [Option.bind_eq_bind, Option.bind_some, hc, hc']
        refine .some ⟨h.valid.typed c (List.mem_of_getElem? hc), by simpa [hc, hc'] using hlabel, ?_, ?_⟩
        · rw [hconstant, h.sound.constants c' (List.mem_of_getElem? hc')]
        · simp [hconstant]

theorem Agrees.column_ok (h : Agrees known f s) {name : String} (hname : known name) {c : Memory.Column}
    (hc : f.column name = .ok c) : ∃ c', s.column name = .ok c' ∧ Matches c c' := by
  have hrel := h.column? hname
  rw [Memory.Frame.column_ok hc] at hrel
  unfold Frame.column
  cases hc' : s.column? name with
  | none =>
    rw [hc'] at hrel
    cases hrel
  | some c' =>
    rw [hc'] at hrel
    cases hrel with
    | some hmatches => exact ⟨c', rfl, hmatches⟩

/-- A frame of outputs with the right names and types agrees, since it finds all of them. -/
theorem agrees_ofOutputs (hf : f.Valid) {source : Source} {outputs : List Output}
    (houtputs : outputs.map Output.label = f.labels) (hoptions : source.options = f.options) :
    Agrees known f (ofOutputs source outputs) := by
  have hlabels : (ofOutputs source outputs).labels = f.labels := by
    rw [← houtputs, labels, columns_ofOutputs, List.map_map]
    rfl
  have hnames : outputs.map Output.name = f.columns.map Memory.Column.name := by
    have := congrArg (List.map Prod.fst) houtputs
    simpa [Memory.Frame.labels, Output.label, Memory.Column.label, Function.comp_def] using this
  have hindexed := indexed_ofOutputs source (hnames ▸ hf.distinct)
  refine ⟨hf, sound_ofOutputs source outputs, hlabels, hoptions, fun name _ hfound => ?_⟩
  rw [hindexed.contains_iff, names_eq_of_labels hlabels]
  exact (hf.indexed.contains_iff name).1 hfound

/-- The rows of a group agree with the frame whose terms are composed for groups. -/
theorem Agrees.take (h : Agrees known f s) {rows : List Nat} (hg : f.take rows = .ok g) (keys : List String) :
    Agrees known g { s with groupKeys := some keys } := by
  have hvalid := h.valid.take hg
  obtain ⟨columns, hcolumns, rfl⟩ := Memory.Frame.take_ok hg
  refine ⟨hvalid, ⟨h.sound.index, h.sound.constants⟩, h.labels.trans ?_, h.options, h.found⟩
  exact (Memory.Frame.map_take (fun _ _ => rfl) hcolumns).symm

/-! ## Sorting -/

theorem holds_derive (source : Source) (query : Query) (order : Option SortOrder) :
    Work.late.Holds (source.derive query order : Work δ Source) fun made => made.options = source.options :=
  Work.late.bind Work.late_freshMark fun _ _ => Work.late.pure rfl

theorem Agrees.sort (h : Agrees known f s) {ascending : Bool} {keys : List String}
    (hknown : ∀ key ∈ keys, known key) (hg : f.sort ascending keys = .ok g) :
    Work.late.Holds (s.sort ascending keys : Work δ Frame) (Agrees known g) := by
  have hvalid := h.valid.sort hg
  obtain ⟨keyColumns, order, hkeys, rfl⟩ := Memory.Frame.sort_ok hg
  obtain ⟨cs, hcs, -⟩ := mapM_follows (fun key hkey c hc => h.column_ok (hknown key hkey) hc) hkeys
  refine Work.late.bind (Work.late.lift_ok hcs) fun _ _ => ?_
  refine Work.late.bind (holds_derive _ _ _) fun source hsource => Work.late.pure ?_
  refine agrees_ofOutputs hvalid ?_ (hsource.trans h.options)
  rw [List.map_map]
  refine Eq.trans h.labels ?_
  simp [Memory.Frame.labels, Memory.Frame.columns, Memory.Frame.permute, ColumnSet.map, Memory.Column.label]

/-! ## Groups -/

/-- The keys of a group become fields with their names and types. -/
theorem Agrees.keyFields_ok (h : Agrees known f s) {keys : List String} (hknown : ∀ key ∈ keys, known key)
    {keyColumns : List Memory.Column} (hkeys : keys.mapM f.column = .ok keyColumns) :
    ∃ fields, keys.mapM s.keyField = .ok fields ∧
      fields.map (·.2.label) = keyColumns.map Memory.Column.label := by
  have hfollows : ∀ key ∈ keys, ∀ c, f.column key = .ok c →
      ∃ field, s.keyField key = .ok field ∧ c.label = field.2.label := by
    intro key hkey c hc
    obtain ⟨c', hc', hmatches⟩ := h.column_ok (hknown key hkey) hc
    have hname := (h.valid.mem_of_column? (Memory.Frame.column_ok hc)).2
    refine ⟨(⟨c'.term, key⟩, ⟨key, c'.dataType, c'.categories⟩), ?_, Prod.ext hname hmatches.dataType.symm⟩
    rw [keyField, hc']
    rfl
  obtain ⟨fields, hfields, hall⟩ := mapM_follows hfollows hkeys
  refine ⟨fields, hfields, ?_⟩
  exact map_eq_map_of_forall₂ (hall.flip.imp fun _ _ heq => heq.symm)

/-- A formula whose name is new becomes a field of the type it has in memory. -/
theorem holds_reduce {keys : List String} {fields : List GroupField} {r : Reducer (Work δ) Frame Column}
    {type : DataType} (hnew : ∀ field ∈ fields, field.2.name ≠ r.name)
    (hrun : Work.late.Holds (r.run { s with groupKeys := some keys } s) fun c => c.dataType = type) :
    Work.late.Holds (s.reduce keys fields r) fun field => field.2.label = (r.name, type) := by
  have hany : fields.any (·.2.name == r.name) = false := by
    rw [List.any_eq_false]
    intro field hfield
    simpa using hnew field hfield
  unfold Frame.reduce
  rw [hany, if_neg Bool.false_ne_true]
  refine Work.late.bind hrun fun c hc => ?_
  split
  · exact Work.late.bind (Work.late_throw (P := fun _ => False) rfl) fun _ h => h.elim
  · exact Work.late.pure (Prod.ext rfl hc)

variable [Database δ]

/-- Formulas with new and distinct names become fields of the types that they have in memory. -/
theorem holds_fields {keys : List String} {formulas : List (String × Expr)} {cs : List Memory.Column}
    {fields : List GroupField} (hcs : List.Forall₂ (fun named c => c.name = named.1 ∧
      Work.late.Holds ((backend.reducer named).run { s with groupKeys := some keys } s : Work δ Column)
        fun c' => c'.dataType = c.dataType) formulas cs)
    (hdistinct : ((fields.map (·.2.label) ++ cs.map Memory.Column.label).map Prod.fst).Nodup) :
    Work.late.Holds ((formulas.map backend.reducer).foldlM
        (fun fields r => do return fields ++ [← s.reduce keys fields r]) fields : Work δ (List GroupField))
      fun out => out.map (·.2.label) = fields.map (·.2.label) ++ cs.map Memory.Column.label := by
  induction hcs generalizing fields with
  | nil => exact Work.late.pure (by simp)
  | @cons named c formulas cs hc _ ih =>
    obtain ⟨hname, hrun⟩ := hc
    -- A name that is there already would stand twice in the labels of the result in memory, which are distinct.
    have hnew : ∀ field ∈ fields, field.2.name ≠ (backend.reducer named : Reducer (Work δ) Frame Column).name := by
      intro field hfield heq
      rw [List.map_append, List.nodup_append] at hdistinct
      refine hdistinct.2.2 field.2.name ?_ c.name List.mem_cons_self (heq.trans hname.symm)
      exact List.mem_map.2 ⟨_, List.mem_map_of_mem hfield, rfl⟩
    have hstep : Work.late.Holds (do return fields ++ [← s.reduce keys fields (backend.reducer named)] : Work δ _)
        fun out : List GroupField => out.map (·.2.label) = fields.map (·.2.label) ++ [c.label] := by
      refine Work.late.bind (holds_reduce hnew hrun) fun field hfield => Work.late.pure ?_
      rw [List.map_append, List.map_singleton, hfield]
      exact congrArg (fun name => _ ++ [(name, c.dataType)]) hname.symm
    rw [List.map_cons, List.foldlM_cons]
    refine Work.late.bind hstep fun out hout => ?_
    have hsplit : fields.map (·.2.label) ++ (c :: cs).map Memory.Column.label =
        out.map (·.2.label) ++ cs.map Memory.Column.label := by
      rw [hout, List.append_assoc]
      rfl
    rw [hsplit] at hdistinct ⊢
    exact ih hdistinct

theorem Agrees.describes (hdatabase : Database.Faithful δ) (h : Agrees known f s) {tokens : List String}
    (htokens : ∀ token ∈ tokens, known token) (keys : Option (List String)) :
    (typing hdatabase).Describes { s with groupKeys := keys } f.options.datePatterns f.schema tokens := by
  refine ⟨congrArg Options.datePatterns h.options, fun token ht => ?_, fun _ _ _ _ => trivial⟩
  have hrel := h.column? (htokens token ht)
  change (s.column? token).map Column.dataType = (f.column? token).map Memory.Column.dataType
  generalize f.column? token = x at hrel
  generalize s.column? token = y at hrel
  cases hrel with
  | some hmatches => exact congrArg some hmatches.dataType
  | none => rfl

/-- A formula of a group gives a column of the type that its column has in memory. If there are rows, this is its type
    on some group, and otherwise the static type. -/
theorem Agrees.holds_formula (hdatabase : Database.Faithful δ) (h : Agrees known f s) {keys : List String}
    {groups : List (List Nat)} {named : String × Expr} {c : Memory.Column}
    (htokens : ∀ token ∈ named.2.tokens, known token)
    (hformula : ∀ u u' w w' c, Agrees known u u' → Agrees known w w' →
      (Memory.Frame.backend.reducer named).run u w = .ok c →
        Work.late.Holds ((backend.reducer named).run u' w' : Work δ Column) (Matches c))
    (hc : f.reduce groups (Memory.Frame.backend.reducer named) = .ok c) : c.name = named.1 ∧
      Work.late.Holds ((backend.reducer named).run { s with groupKeys := some keys } s : Work δ Column)
        fun c' => c'.dataType = c.dataType := by
  obtain ⟨hname, hstatic | ⟨rows, u, d, hu, hd, htype⟩⟩ := Memory.Frame.reduce_ok hc
  · refine ⟨hname, ?_⟩
    have hgroup := h.describes hdatabase htokens (some keys)
    have hwhole := h.describes hdatabase htokens s.groupKeys
    refine Work.late.bind ((typing hdatabase).holds_eval hgroup hwhole hstatic .groups) ?_
    rintro _ ⟨c', rfl, -, hc'⟩
    exact Work.late.pure hc'
  · refine ⟨hname, Work.late.mono (hformula _ _ _ _ d (h.take hu keys) h hd) fun c' hc' => ?_⟩
    exact hc'.dataType.trans htype

/-- Grouping in memory is followed by grouping over SQL, if the formulas of the group are. -/
theorem Agrees.group (hdatabase : Database.Faithful δ) (h : Agrees known f s) {keys : List String}
    {formulas : List (String × Expr)} (hknown : ∀ key ∈ keys, known key)
    (htokens : ∀ named ∈ formulas, ∀ token ∈ named.2.tokens, known token)
    (hformulas : ∀ named ∈ formulas, ∀ u u' w w' c, Agrees known u u' → Agrees known w w' →
      (Memory.Frame.backend.reducer named).run u w = .ok c →
        Work.late.Holds ((backend.reducer named).run u' w' : Work δ Column) (Matches c))
    (hg : f.group keys (formulas.map Memory.Frame.backend.reducer) = .ok g) :
    Work.late.Holds (s.group keys (formulas.map backend.reducer) : Work δ Frame) (Agrees known g) := by
  have hvalid := h.valid.group hg
  obtain ⟨groups, keyColumns, cs, hkeys, hcs, hlabels, hoptions⟩ := Memory.Frame.group_ok hg
  obtain ⟨keyFields, hkeyFields, hkeyLabels⟩ := h.keyFields_ok hknown hkeys
  have hruns : List.Forall₂ (fun named c => c.name = named.1 ∧
      Work.late.Holds ((backend.reducer named).run { s with groupKeys := some keys } s : Work δ Column)
        fun c' => c'.dataType = c.dataType) formulas cs := by
    have hall := mapM_eq_ok.1 hcs
    rw [List.forall₂_map_left_iff, List.forall₂_iff_zip] at hall
    refine List.forall₂_iff_zip.2 ⟨hall.1, fun {named c} hmem => ?_⟩
    have hnamed := (List.of_mem_zip hmem).1
    exact h.holds_formula hdatabase (htokens named hnamed) (hformulas named hnamed) (hall.2 hmem)
  -- The labels of the valid result in memory are those that the fields are going to have.
  have hdistinct : ((keyFields.map (·.2.label) ++ cs.map Memory.Column.label).map Prod.fst).Nodup := by
    rw [hkeyLabels, ← hlabels]
    simpa [Memory.Frame.labels, Memory.Column.label, Function.comp_def] using hvalid.distinct
  refine Work.late.bind (Work.late.lift_ok hkeyFields) ?_
  rintro _ rfl
  refine Work.late.bind (holds_fields hruns hdistinct) fun fields hfields => ?_
  refine Work.late.bind (holds_derive _ _ _) fun source hsource => Work.late.pure ?_
  refine agrees_ofOutputs hvalid ?_ (hsource.trans (h.options.trans hoptions.symm))
  rw [List.map_map, hlabels, ← hkeyLabels]
  exact hfields

/-! ## Simulation -/

/-- Operations in memory that have a result are followed by those over SQL. -/
def simulation (hdatabase : Database.Faithful δ) (known : String → Prop) :
    Memory.Frame.backend.Simulation (backend : Backend (Work δ) Frame Column) Work.late where
  Known := known
  FrameRel := Agrees known
  ColumnRel := Matches
  options h := congrArg Options.datePatterns h.options
  column? h hname := h.column? hname
  name h := h.name
  dataType h := h.dataType
  rename name h := h.rename name
  literal := by
    intro f v c s hc
    obtain ⟨htyped, htype, hconstant, hname⟩ := Memory.Column.literal_ok hc
    refine ⟨htype, Work.late.mono (holds_literal s v) fun c' hc' => ?_⟩
    obtain ⟨htype', hconstant', hname'⟩ := hc'
    refine ⟨htyped, Prod.ext (hname'.trans hname.symm) (htype'.trans htype.symm), hconstant'.trans hconstant.symm, ?_⟩
    intro w hw
    obtain rfl : v = w := Option.some.inj (hconstant.symm.trans hw)
    exact htype
  execute := by
    intro f s r args args' scope c _ happlies hargs hc
    have hmade := Memory.made_execute hc
    have htype := Memory.dataType_execute happlies (typed_of_matches hargs) hc
    have happlies : r.Applies (args'.map Column.dataType) := by
      rwa [map_of_matches hargs fun _ _ h => h.dataType]
    refine Work.late.mono (holds_execute hdatabase s scope happlies) fun c' hc' => ?_
    have htype' := hc'.dataType
    rw [map_of_matches hargs fun _ _ h => h.constant, htype] at htype'
    have hlabel : c'.label = c.label := Prod.ext (hc'.name.trans hmade.name.symm) (Except.ok.inj htype').symm
    exact ⟨hmade.typed, hlabel, hc'.constant.trans hmade.constant.symm, by simp [hmade.constant]⟩
  sort h hknown hg := h.sort hknown hg
  group h hknown htokens hformulas hg := h.group hdatabase hknown htokens hformulas hg
  globalize := by
    intro f s c d c' hc hd
    obtain rfl := Memory.Frame.globalize_ok hd
    refine Work.late.mono (holds_globalize s c') fun d' hd' => ?_
    obtain ⟨htype, hconstant, hname⟩ := hd'
    exact ⟨hc.typed, Prod.ext (hname.trans hc.name) (htype.trans hc.dataType), hconstant.trans hc.constant,
      hc.literal⟩
  values := by
    intro c c' cells hc hcells
    obtain rfl : c.data = cells := Except.ok.inj hcells
    refine Work.late.mono (c'.holds_values hdatabase) fun cells' hcells' => ?_
    rw [hcells' (fun v hv => hc.dataType.trans (hc.literal v (hc.constant.symm.trans hv))), hc.dataType]
    exact hc.typed.symm

end Frame

end Tabular.Sql
