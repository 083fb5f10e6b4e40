-- SUMMARY: SQL frames have a sound index and no constants, and their operations give columns of the promised types.
import Tabular.Proofs.ColumnSet
import Tabular.Proofs.Sql.Compose
import Tabular.Sql.Frame

/-!
# SQL frames

A sound frame finds no column under another name, and none of its columns is a constant. Its names need not be
distinct, because a database is free to give two columns one name and so are the keys of a group. Of such columns
the last one is found, and none once it is dropped.
-/

namespace Tabular.Sql.Frame

variable {δ : Type} {f g : Frame}

structure Sound (f : Frame) : Prop where
  index : f.set.Sound Column.name
  constants : ∀ c ∈ f.columns, c.constant = none

/-! ## New frames -/

theorem columns_ofOutputs (source : Source) (outputs : List Output) :
    (ofOutputs source outputs).columns = outputs.map fun o => o.column source := by
  unfold ofOutputs columns
  rw [ColumnSet.columns_ofList, List.map_map]
  rfl

theorem sound_ofOutputs (source : Source) (outputs : List Output) : (ofOutputs source outputs).Sound where
  index := ColumnSet.sound_ofList fun p hp => by
    obtain ⟨o, -, rfl⟩ := List.mem_map.1 hp
    rfl
  constants := by
    intro c hc
    rw [columns_ofOutputs] at hc
    obtain ⟨o, -, rfl⟩ := List.mem_map.1 hc
    rfl

/-- A frame of outputs with distinct names finds them all. -/
theorem indexed_ofOutputs (source : Source) {outputs : List Output} (h : (outputs.map Output.name).Nodup) :
    (ofOutputs source outputs).set.Indexed Column.name := by
  refine ColumnSet.indexed_ofList (fun p hp => ?_) (by simpa [Function.comp_def] using h)
  obtain ⟨o, -, rfl⟩ := List.mem_map.1 hp
  rfl

/-! ## Columns -/

theorem append_ok {c : Column} (h : f.append c = .ok g) :
    f.set.contains c.name = false ∧ g = { f with set := f.set.push c.name { c with constant := none } } := by
  unfold Frame.append at h
  obtain ⟨-, -, h⟩ := bind_eq_ok.1 h
  obtain ⟨hnew, h⟩ := guard_eq_ok.1 h
  exact ⟨by simpa using hnew, (Except.ok.inj h).symm⟩

theorem drop_ok {name : String} {c : Column} (h : f.drop name = .ok (c, g)) :
    ∃ set, f.set.remove? name = some (c, set) ∧ g = { f with set } := by
  unfold Frame.drop at h
  split at h
  · rename_i d set hremove
    obtain ⟨rfl, rfl⟩ := by simpa using h
    exact ⟨set, hremove, rfl⟩
  · cases h

theorem drop_subset {name : String} {c : Column} (h : f.drop name = .ok (c, g)) : g.columns ⊆ f.columns := by
  obtain ⟨set, hremove, rfl⟩ := drop_ok h
  obtain ⟨p, -, -, rfl⟩ := ColumnSet.remove?_eq_some hremove
  exact (List.eraseIdx_sublist _ _).subset

theorem column_ok {name : String} {c : Column} (h : f.column name = .ok c) : f.column? name = some c := by
  unfold column at h
  split at h
  · rename_i found hfound
    exact hfound.trans (congrArg some (Except.ok.inj h))
  · cases h

/-- A key has the term of its column, under its own name. -/
theorem keyField_ok {key : String} {field : GroupField} (h : f.keyField key = .ok field) :
    ∃ c, f.column? key = some c ∧ field = (⟨c.term, key⟩, ⟨key, c.dataType, c.categories⟩) := by
  obtain ⟨c, hc, h⟩ := bind_eq_ok.1 h
  exact ⟨c, column_ok hc, (Except.ok.inj h).symm⟩

/-- A value is a column of its own literal. -/
theorem literal_ok {v : Value} {c : Column} (h : f.literal v = .ok c) :
    c = ⟨v.text, v.dataType, .literal v, none, some v, true, .plain, f.source⟩ := by
  unfold literal at h
  obtain ⟨-, h⟩ := guard_eq_ok.1 h
  obtain ⟨-, -, h⟩ := bind_eq_ok.1 h
  exact (Except.ok.inj h).symm

/-- What is taken over the whole frame has one value per group. It is a subquery, or else a constant as it is. -/
theorem globalize_ok {c d : Column} (h : f.globalize c = .ok d) : c.grouped = true ∧
    (c.constant.isSome = true ∧ d = c ∨
      c.constant = none ∧ d = { c with term := .overSource c.term f.source.name, nesting := .plain }) := by
  unfold globalize at h
  obtain ⟨-, -, h⟩ := bind_eq_ok.1 h
  obtain ⟨hgrouped, h⟩ := guard_eq_ok.1 h
  refine ⟨by simpa using hgrouped, ?_⟩
  split at h
  · rename_i hconstant
    exact .inl ⟨Option.isSome_of_eq_some hconstant, (Except.ok.inj h).symm⟩
  · rename_i hconstant
    exact .inr ⟨hconstant, (Except.ok.inj h).symm⟩

theorem Sound.append (hf : f.Sound) {c : Column} (h : f.append c = .ok g) : g.Sound := by
  obtain ⟨-, rfl⟩ := append_ok h
  refine ⟨hf.index.push { c with constant := none }, fun d hd => ?_⟩
  rcases List.mem_append.1 hd with hd | hd
  · exact hf.constants d hd
  · rw [List.mem_singleton.1 hd]

theorem Sound.drop (hf : f.Sound) {name : String} {c : Column} (h : f.drop name = .ok (c, g)) : g.Sound := by
  have hsubset := drop_subset h
  obtain ⟨set, hremove, rfl⟩ := drop_ok h
  exact ⟨hf.index.remove? hremove, fun e he => hf.constants e (hsubset he)⟩

theorem holds_literal (f : Frame) (v : Value) :
    Work.late.Holds (liftM (f.literal v) : Work δ Column) fun c =>
      c.dataType = v.dataType ∧ c.constant = some v ∧ c.name = v.text := by
  refine Work.late_lift ?_ fun c h => ?_
  · unfold literal
    refine Late.guard rfl ?_
    exact (f.source.dialect.late_checkLiteral v).bind fun _ _ => Late.pure
  · obtain rfl := literal_ok h
    exact ⟨rfl, rfl, rfl⟩

theorem late_checkSource (f : Frame) (c : Column) : Late (f.checkSource c) := by
  unfold checkSource
  split
  · exact Late.ok
  · exact Late.error rfl

/-- An aggregate of the whole frame is the column with another term. -/
theorem holds_globalize (f : Frame) (c : Column) :
    Work.late.Holds (liftM (f.globalize c) : Work δ Column) fun d =>
      d.dataType = c.dataType ∧ d.constant = c.constant ∧ d.name = c.name := by
  refine Work.late_lift ?_ fun d h => ?_
  · unfold globalize
    refine (late_checkSource f c).bind fun _ _ => Late.guard rfl ?_
    split
    · exact Late.pure
    · exact Late.pure
  · obtain ⟨-, ⟨-, rfl⟩ | ⟨-, rfl⟩⟩ := globalize_ok h
    · exact ⟨rfl, rfl, rfl⟩
    · exact ⟨rfl, rfl, rfl⟩

/-! ## Operations -/

variable [Database δ]

theorem map_zip {A : Type} {args : List Column} {terms : List Term} (h : terms.length = args.length)
    (tell : Column → A) : (args.zip terms).map (fun operand => tell operand.1) = args.map tell := by
  change (args.zip terms).map (tell ∘ Prod.fst) = args.map tell
  rw [← List.map_map, List.map_fst_zip (Nat.le_of_eq h.symm)]

/-- What is known of every column that an operation gives. -/
structure Made (op : Resolved) (args : List Column) (c : Column) : Prop where
  dataType : op.resultType (args.map (·.constant)) = .ok c.dataType
  name : c.name = op.name
  constant : c.constant = none

theorem holds_composed (hdatabase : Database.Faithful δ) (s : Source) {op : Resolved} {args : List Column}
    {terms : List Term} (happlies : op.Applies (args.map (·.dataType))) (hterms : terms.length = args.length) :
    Work.late.Holds (Compose.operation s op (args.zip terms) : Work δ Composed) fun composed =>
      op.resultType (args.map (·.constant)) = .ok composed.dataType := by
  rw [← map_zip hterms (·.dataType)] at happlies
  rw [← map_zip hterms (·.constant)]
  exact Compose.holds_operation hdatabase s happlies

theorem holds_executeScalar (hdatabase : Database.Faithful δ) (f : Frame) {op : Resolved} {args : List Column}
    (scope : Scope) (happlies : op.Applies (args.map (·.dataType))) :
    Work.late.Holds (f.executeScalar op args scope : Work δ Column) (Made op args) := by
  unfold executeScalar
  split
  · exact Work.late_throw rfl
  · rename_i terms hterms
    refine Work.late.bind (holds_composed hdatabase _ happlies (length_of_mapM hterms)) fun composed hcomposed => ?_
    exact Work.late.pure ⟨hcomposed, rfl, rfl⟩

theorem holds_executeRows (hdatabase : Database.Faithful δ) (f : Frame) {op : Resolved} {args : List Column}
    (happlies : op.Applies (args.map (·.dataType))) :
    Work.late.Holds (f.executeRows op args : Work δ Column) (Made op args) := by
  unfold executeRows
  rw [List.map_prod_left_eq_zip]
  refine Work.late.bind (holds_composed hdatabase _ happlies (by simp)) fun composed hcomposed => ?_
  split
  · exact Work.late.pure ⟨hcomposed, rfl, rfl⟩
  · split
    · exact Work.late.pure ⟨hcomposed, rfl, rfl⟩
    · rename_i terms hterms
      refine Work.late.bind (holds_composed hdatabase _ happlies (length_of_mapM hterms)) fun nested _ => ?_
      exact Work.late.pure ⟨hcomposed, rfl, rfl⟩

/-- An operation over columns gives one of the type that resolving promises. -/
theorem holds_execute (hdatabase : Database.Faithful δ) (f : Frame) {op : Resolved} {args : List Column}
    (scope : Scope) (happlies : op.Applies (args.map (·.dataType))) :
    Work.late.Holds (f.execute op args scope : Work δ Column) (Made op args) := by
  unfold execute
  refine Work.late.bind (Work.late_forM fun c _ => Work.late_lift_any (late_checkSource f c)) fun _ _ => ?_
  split
  · exact holds_executeScalar hdatabase f scope happlies
  · exact holds_executeRows hdatabase f happlies

end Tabular.Sql.Frame
