-- SUMMARY: In memory, uniform formulas give columns of one cell, so grouping takes them.
import Tabular.Proofs.CategoryMap
import Tabular.Proofs.Evaluation.Uniform
import Tabular.Proofs.Memory.Selection

/-!
# Uniform formulas in memory

Each way to carry out an operation gives a column of one cell if its operands have one cell each, and aggregates
always do. None of them refuses a formula for not reducing to one value: only grouping does, and it does not if all
formulas are uniform over every group. Where a column has the same cell on each of several rows, grouping by it makes
one group of them all, and refuses the column itself as a formula.
-/

namespace Tabular

namespace Ending

/-- Failures are accepted, but not the one of a formula that has no single value for a group. -/
def reducing : Ending (Except Failure) := accepting fun failure => failure.isNotReducing = false

variable {α : Type} {P : α → Prop}

theorem reducing_iff {x : Except Failure α} :
    reducing.Holds x (fun _ => True) ↔ ∀ failure, x = .error failure → failure.isNotReducing = false := by
  cases x with
  | ok a =>
    refine ⟨fun _ failure h => ?_, fun _ => trivial⟩
    cases h
  | error failure => exact ⟨fun h _ heq => Except.error.inj heq ▸ h, fun h => h _ rfl⟩

/-- Failures are accepted, but not the refusals of formulas that are no aggregates. -/
def granting : Ending (Except Failure) := accepting fun failure => failure.isRefusal = false

/-- What refuses nothing ends well wherever all other failures are accepted. -/
theorem of_granting {E : Ending (Except Failure)} (haccepts : ∀ failure, failure.isRefusal = false → E.Accepts failure)
    {x : Except Failure α} (h : granting.Holds x P) : E.Holds x P := by
  refine E.lift (fun a ha => ?_) fun failure hfailure => haccepts failure ?_
  · rw [ha] at h
    exact h
  · rw [hfailure] at h
    exact h

theorem granting_ok {x : Except Failure α} (h : granting.Holds x P) : granting.Holds x (x = .ok ·) := by
  cases x with
  | ok a => exact rfl
  | error failure => exact h

theorem reducing_of_granting {x : Except Failure α} (h : granting.Holds x P) : reducing.Holds x P :=
  of_granting (fun _ => Failure.isNotReducing_of_isRefusal) h

/-- Faults of series are accepted. -/
theorem granting_series {x : Except SeriesFault α} (h : ∀ a, x = .ok a → P a) :
    granting.Holds (liftM x : Except Failure α) P := by
  cases x with
  | ok a => exact h a rfl
  | error fault => exact rfl

end Ending

open Ending

/-! ## Parameters and cells -/

theorem Parameter.granting_castTarget (constant : Option Value) :
    granting.Holds (Parameter.castTarget constant) fun _ => True := by
  unfold Parameter.castTarget
  split
  · exact rfl
  · refine granting.bind (granting_series fun _ _ => trivial) fun type _ => ?_
    split
    · exact trivial
    · exact rfl

theorem Parameter.granting_threshold (constant : Option Value) :
    granting.Holds (Parameter.threshold constant) fun _ => True := by
  unfold Parameter.threshold
  split
  · split
    · exact rfl
    · exact trivial
  · exact rfl

theorem Parameter.granting_quantileLevel (constant : Option Value) :
    granting.Holds (Parameter.quantileLevel constant) fun _ => True := by
  unfold Parameter.quantileLevel
  split
  · split
    · exact trivial
    · exact rfl
  · exact rfl

/-- Collecting cells only fails as their computation does, or for their types. -/
theorem Series.granting_collect {α : Type} {type : DataType} {compute : α → Except Failure Value} {items : List α}
    (h : ∀ item ∈ items, granting.Holds (compute item) fun _ => True) :
    granting.Holds (Series.collect type compute items) fun s => s.length = items.length := by
  have hcells {γ : Type} (cell : Value → Except SeriesFault γ) :
      granting.Holds (items.mapM fun item => do (liftM (cell (← compute item)) : Except Failure γ)) fun cells =>
        cells.length = items.length := by
    refine granting.mono (granting.mapM (R := fun _ _ => True) fun item hitem => ?_) fun cells hcells => ?_
    · exact granting.bind (h item hitem) fun v _ => granting_series fun _ _ => trivial
    · exact hcells.length_eq.symm
  unfold Series.collect
  refine granting.bind (granting_series (P := fun _ => True) fun _ _ => trivial) fun base _ => ?_
  split
  all_goals exact granting.bind (hcells _) fun cells hlength => hlength

namespace Memory

/-! ## Operations -/

theorem holds_cell (c : Column) (row : Nat) : granting.Holds (c.cell row) fun _ => True := by
  unfold Column.cell
  split
  · exact trivial
  · exact rfl

theorem holds_ofCodes (name : String) (codes : Series) (map : CategoryMap) :
    granting.Holds (Column.ofCodes name codes map) fun c => c.length = codes.length := by
  unfold Column.ofCodes
  split
  · exact rfl
  · exact rfl

theorem holds_cellAt (name : String) (kernel : Kernel) (args : List (Array Value)) (row : Nat) :
    granting.Holds (cellAt name kernel args row) fun _ => True := by
  have hoperands : granting.Holds (operandsAt name args row) fun _ => True := by
    refine granting.mono (granting.mapM (R := fun _ _ => True) fun cells _ => ?_) fun _ _ => trivial
    split
    · exact trivial
    · exact rfl
  unfold cellAt
  refine granting.bind hoperands fun cells _ => ?_
  cases kernel cells with
  | ok v => exact trivial
  | error fault => exact rfl

/-- Row by row, a column has the cells that its operands go together for. -/
theorem holds_rowWise (op : Resolved) (args : List Column) :
    granting.Holds (rowWise op args) fun c => broadcastLength op.name (args.map (·.length)) = .ok c.length := by
  have hlength : granting.Holds (broadcastLength op.name (args.map (·.length))) fun rows =>
      broadcastLength op.name (args.map (·.length)) = .ok rows := by
    unfold broadcastLength
    split
    · exact rfl
    · split
      · exact rfl
      · exact rfl
  unfold rowWise
  split
  · exact rfl
  · refine granting.bind hlength fun rows hrows => ?_
    refine granting.bind (Series.granting_collect fun row _ => holds_cellAt _ _ _ row) fun data hdata => ?_
    exact hrows.trans (congrArg Except.ok (hdata.trans List.length_range).symm)

theorem holds_aggregate (op : Resolved) (args : List Column) :
    granting.Holds (aggregate op args) fun c => c.length = 1 := by
  have hrun (data : Series) (level : Option Value) :
      granting.Holds (Aggregate.run op.name data level) fun _ => True := by
    unfold Aggregate.run
    split
    · exact trivial
    · split
      · split
        · exact trivial
        · exact rfl
      · exact trivial
      · exact rfl
    · split
      · exact rfl
      · exact trivial
    · split
      · exact trivial
      · exact rfl
    · split
      · exact trivial
      · exact rfl
    · refine granting.bind (Parameter.granting_quantileLevel level) fun q _ => ?_
      split
      · exact trivial
      · exact rfl
    · exact rfl
  unfold aggregate
  split
  · exact rfl
  · refine granting.bind (hrun _ _) fun value _ => ?_
    exact granting.bind (granting_series fun data hdata => (Series.scalar_ok hdata).2) fun data hdata => hdata

/-- A column with a cell for each cell of the first operand. -/
def FollowsFirst (args : List Column) (c : Column) : Prop := ∃ first ∈ args.head?, c.length = first.length

theorem holds_cast (options : Options) (args : List Column) :
    granting.Holds (cast options args) (FollowsFirst args) := by
  unfold cast
  split
  · rename_i value target
    refine granting.bind (Parameter.granting_castTarget _) fun type _ => ?_
    refine granting.bind (granting_series fun data hdata => Series.length_cast hdata) fun data hdata => ?_
    exact ⟨value, rfl, hdata⟩
  · exact rfl

theorem holds_categorize (options : Options) (args : List Column) :
    granting.Holds (categorize options args) (FollowsFirst args) := by
  have hthreshold (more : List Column) : granting.Holds (categoryThreshold options more) fun _ => True := by
    unfold categoryThreshold
    split
    · exact trivial
    · exact granting.bind (Parameter.granting_threshold _) fun _ _ => trivial
    · exact rfl
  unfold categorize
  split
  · exact rfl
  · rename_i raw more
    refine granting.bind (hthreshold more) fun threshold _ => ?_
    refine granting.bind (granting_series (P := fun built => built.2.length = raw.length) ?_) fun built hbuilt => ?_
    · rintro ⟨map, codes⟩ hbuild
      rw [CategoryMap.build_codes hbuild]
      exact (List.length_map _).trans (Series.length_values _)
    · exact granting.mono (holds_ofCodes _ _ _) fun c hc => ⟨raw, rfl, hc.trans hbuilt⟩

theorem holds_applyCategories (args : List Column) :
    granting.Holds (applyCategories args) (FollowsFirst args) := by
  unfold applyCategories
  split
  · rename_i raw categorical default
    split
    · exact rfl
    · exact rfl
    · refine granting.bind (granting_series (P := fun _ => True) fun _ _ => trivial) fun code _ => ?_
      refine granting.bind (granting_series (P := fun codes => codes.length = raw.length) ?_) fun codes hcodes => ?_
      · intro codes hencode
        rw [(CategoryMap.encode_ok hencode).2]
        exact (List.length_map _).trans (Series.length_values _)
      · exact granting.mono (holds_ofCodes _ _ _) fun c hc => ⟨raw, rfl, hc.trans hcodes⟩
  · exact rfl

/-- How many cells the result of an operation has over columns of a frame with so many rows. -/
def Sized (rows : Nat) (op : Resolved) (args : List Column) (c : Column) : Prop :=
  match op.name with
  | "cast" | "cat" | "applyCat" => FollowsFirst args c
  | "row_number" => c.length = rows
  | _ => if op.isScalar then c.length = 1 else broadcastLength op.name (args.map (·.length)) = .ok c.length

theorem holds_execute (options : Options) (rows : Nat) (op : Resolved) (args : List Column) :
    granting.Holds (execute options rows op args) (Sized rows op args) := by
  unfold execute Sized
  split
  all_goals rename_i hname
  · simp only [hname]
    exact holds_cast options args
  · simp only [hname]
    exact (List.length_map _).trans List.length_range
  · simp only [hname]
    exact holds_categorize options args
  · simp only [hname]
    exact holds_applyCategories args
  · simp only
    split
    · exact holds_aggregate op args
    · exact holds_rowWise op args

/-- How many cells what spans so many rows has, and what does not. -/
def cellCount (rows : Nat) (spans : Bool) : Nat := if spans then rows else 1

/-- Columns that each span the rows or not go together for as many cells as one that spans if any of them does. -/
theorem broadcastLength_cellCount {operation : String} {rows : Nat} {flags : List Bool} {args : List Column}
    (h : List.Forall₂ (fun spans (arg : Column) => arg.length = cellCount rows spans) flags args) :
    broadcastLength operation (args.map (·.length)) = .ok (cellCount rows (flags.any id)) := by
  refine broadcastLength_eq (fun l hl => ?_) ?_
  · obtain ⟨arg, harg, rfl⟩ := List.mem_map.1 hl
    obtain ⟨spans, hspans, hlength⟩ := exists_of_mem_forall₂ h harg
    rw [hlength]
    cases spans with
    | true =>
      rw [List.any_eq_true.2 ⟨true, hspans, rfl⟩]
      exact .inl rfl
    | false => exact .inr rfl
  · cases hany : flags.any id with
    | true =>
      obtain ⟨spans, hspans, rfl : spans = true⟩ := List.any_eq_true.1 hany
      obtain ⟨arg, harg, hlength⟩ := exists_of_mem_forall₂ h.flip hspans
      exact .inl (hlength ▸ List.mem_map_of_mem harg)
    | false => exact .inr rfl

/-- Operations have as many cells as their names tell of the operands that span the rows. -/
theorem Sized.cellCount {rows : Nat} {op : Resolved} {args : List Column} {c : Column} (h : Sized rows op args c)
    (hbuiltIn : op.operation ∈ Operation.builtIn) {flags : List Bool} (hflags : op.isScalar = false →
      List.Forall₂ (fun spans (arg : Column) => arg.length = cellCount rows spans) flags args) :
    c.length = Memory.cellCount rows (Operation.spansOver op.name flags) := by
  have hscalar := Resolved.isScalarName hbuiltIn
  have hfirst (hnot : Operation.isScalarName op.name = false) (h : FollowsFirst args c) :
      c.length = Memory.cellCount rows (flags.headD false) := by
    obtain ⟨first, hmem, hc⟩ := h
    cases hflags (hscalar.symm.trans hnot) with
    | nil => cases hmem
    | cons hlength _ =>
      obtain rfl := Option.some.inj hmem
      exact hc.trans hlength
  unfold Sized at h
  split at h
  · rename_i hname
    rw [hname]
    exact hfirst (hname ▸ rfl) h
  · rename_i hname
    rw [hname]
    exact hfirst (hname ▸ rfl) h
  · rename_i hname
    rw [hname]
    exact hfirst (hname ▸ rfl) h
  · rename_i hname
    rw [hname]
    exact h
  · rename_i hcast hcat happly hrow
    unfold Operation.spansOver
    rw [hscalar]
    split at h
    · rename_i hone
      rw [hone]
      exact h
    · rename_i hone
      have hfollows : op.name ∉ ["cast", "cat", "applyCat"] := by
        simpa using ⟨hcast, hcat, happly⟩
      have hone := Bool.eq_false_iff.2 hone
      rw [hone, if_neg hfollows, beq_eq_false_iff_ne.2 hrow]
      exact Except.ok.inj (h.symm.trans (broadcastLength_cellCount (hflags hone)))

namespace Frame

theorem holds_literal (v : Value) : granting.Holds (Column.literal v) (·.length = 1) := by
  unfold Column.literal
  refine granting.bind (granting_series (P := fun s => s.length = 1) fun data hdata => (Series.scalar_ok hdata).2) ?_
  exact fun data hdata => hdata

/-- Whether the name is that of a column that has not just one cell. -/
def perRow (f : Frame) (name : String) : Bool := (f.column? name).any (·.length != 1)

/-- A column in memory is marked by its length: a column of one cell can be of a uniform formula. -/
def marking : backend.Marking reducing Bool where
  scheme := .uniform
  Good _ := True
  token f name := !f.perRow name
  Marked _ uniform c := uniform = true → c.length = 1
  accepts := Failure.isNotReducing_of_isRefusal
  column? := by
    intro f name c _ hc huniform
    have hc : f.column? name = some c := hc
    simpa [perRow, hc] using huniform
  constant _ _ _ := reducing_of_granting (granting.mono (holds_literal _) fun _ hc _ => hc)
  quoted _ _ := reducing_of_granting (granting.mono (holds_literal _) fun _ hc _ => hc)
  rename name h := h
  execute := by
    intro f r types flags args scope _ happlies _ hargs
    have hbuiltIn := happlies.builtIn
    refine reducing.mono (reducing_of_granting (holds_execute f.options f.rows r args)) fun c hc huniform => ?_
    have huniform : (Operation.isScalarName r.name || (r.name != "row_number" && flags.all id)) = true := huniform
    rw [Resolved.isScalarName hbuiltIn, Bool.or_eq_true, Bool.and_eq_true, bne_iff_ne] at huniform
    have hones (hnot : r.isScalar = false) :
        List.Forall₂ (fun spans (arg : Column) => arg.length = cellCount f.rows spans) (args.map fun _ => false) args := by
      have hall := List.all_eq_true.1 (huniform.resolve_left (by simp [hnot])).2
      refine List.forall₂_map_left_iff.2 (List.forall₂_same.2 fun arg harg => ?_)
      obtain ⟨flag, hflag, hmarked⟩ := exists_of_mem_forall₂ hargs harg
      exact hmarked (hall flag hflag)
    rw [hc.cellCount hbuiltIn hones, Operation.spansOver_of_none]
    · rfl
    · rw [Resolved.isScalarName hbuiltIn]
      exact huniform.imp id fun h => ⟨h.1, by simp⟩
  globalize := by
    intro f w uniform c _ _ _
    change reducing.Holds (globalize c) _
    unfold globalize
    split
    · rename_i hone
      exact fun _ => hone
    · exact rfl

/-- A uniform formula gives a column of one cell. -/
theorem holds_uniform {e : Expr} (he : e.isColumnar = true) (scope : Scope) (f w : Frame) :
    reducing.Holds (backend.eval e scope f w) fun o =>
      ∃ c, o = .column c ∧ (e.isUniform f.perRow = true → c.length = 1) := by
  refine reducing.mono (Backend.Marking.marks (K := marking) he scope (f := f) (w := w) trivial trivial) ?_
  rintro _ ⟨c, rfl, hc⟩
  exact ⟨c, rfl, fun huniform => hc ((e.isUniform_eq_mark _ _).symm.trans huniform)⟩

theorem column_of_perRow {f : Frame} {name : String} (h : f.perRow name = true) :
    ∃ c, f.column? name = some c ∧ c.length ≠ 1 := by
  unfold perRow at h
  cases hc : f.column? name with
  | none =>
    rw [hc] at h
    cases h
  | some c =>
    rw [hc, Option.any_some, bne_iff_ne] at h
    exact ⟨c, rfl, h⟩

/-! ## Stored columns -/

/-- A column of one cell is repeated when it is stored. -/
theorem replicate_fit {f : Frame} {c : Column} {data : Series} (hone : c.length = 1) (h : f.fit c = .ok data) :
    ∃ v, data.values = List.replicate data.length v := by
  have hvalues : c.data.values.length = 1 := (Series.length_values _).trans hone
  obtain ⟨v, hv⟩ := List.length_eq_one_iff.1 hvalues
  unfold fit at h
  split at h
  · obtain rfl := Except.ok.inj h
    have hdata : c.data.length = 1 := hone
    exact ⟨v, by rw [hdata, hv]; rfl⟩
  · have h := liftM_series_eq_ok.1 h
    refine ⟨v, ?_⟩
    rw [Series.values_broadcastTo hone h, (Series.broadcastTo_ok h).2, hv, List.flatten_replicate_singleton]

/-! ## Groups of uniform formulas -/

theorem groups_zero (keys : List Series) : groups keys 0 = [] := by
  simp [groups, keyedRows, classes]

theorem groups_succ (keys : List Series) (n : Nat) :
    ∃ row more rest, groups keys (n + 1) = (row :: more) :: rest := by
  unfold groups keyedRows
  rw [List.range_succ_eq_map, List.map_cons, classes]
  exact ⟨_, _, _, rfl⟩

theorem groups_ne_nil (keys : List Series) {rows : Nat} (hrows : 0 < rows) : groups keys rows ≠ [] := by
  obtain ⟨row, more, rest, heq⟩ := groups_succ keys (rows - 1)
  rw [Nat.sub_add_cancel hrows] at heq
  simp [heq]

theorem groups_one (keys : List Series) : groups keys 1 = [[0]] := by
  simp [groups, keyedRows, classes]

theorem holds_column (f : Frame) (name : String) : granting.Holds (f.column name) fun _ => True := by
  unfold column
  split
  · exact trivial
  · exact rfl

theorem holds_takeColumn (c : Column) (rows : List Nat) : granting.Holds (c.take rows) fun _ => True :=
  granting.bind (granting_series (P := fun _ => True) fun _ _ => trivial) fun _ _ => trivial

theorem holds_take (f : Frame) (rows : List Nat) : granting.Holds (f.take rows) (f.take rows = .ok ·) := by
  refine granting_ok (P := fun _ => True) (granting.bind (Q := fun _ => True) ?_ fun _ _ => trivial)
  exact granting.bind (granting.mapM (R := fun _ _ => True) fun c _ => holds_takeColumn c rows) fun _ _ => trivial

theorem holds_append (f : Frame) (c : Column) : granting.Holds (f.append c) fun _ => True := by
  have hfit : granting.Holds (f.fit c) fun _ => True := by
    unfold fit
    split
    · exact trivial
    · split
      · exact granting_series fun _ _ => trivial
      · exact rfl
  unfold append
  split
  · exact rfl
  · exact granting.bind hfit fun _ _ => trivial

section Reducing

variable {E : Ending (Except Failure)} (haccepts : ∀ failure, failure.isRefusal = false → E.Accepts failure)

include haccepts

/-- If every group has one cell, or the refusal of the formula is accepted, then so is what grouping ends with. -/
theorem holds_reduce {f : Frame} {groups : List (List Nat)} (hgroups : groups ≠ [])
    {r : Reducer (Except Failure) Frame Column}
    (h : ∀ rows ∈ groups, ∀ g, f.take rows = .ok g →
      E.Holds (r.run g f) fun c => c.length = 1 ∨ E.Accepts (.notReducing r.name r.formula.text)) :
    E.Holds (f.reduce groups r) fun _ => True := by
  have hgroup : ∀ rows ∈ groups, E.Holds (f.reduceGroup r rows) fun _ => True := by
    intro rows hrows
    unfold reduceGroup
    refine E.bind (of_granting haccepts (holds_take f rows)) fun g hg => E.bind (h rows hrows g hg) fun c hc => ?_
    split
    · rename_i hlength
      exact E.refuse (hc.resolve_left hlength)
    · exact E.bind (of_granting haccepts (holds_cell c 0)) fun _ _ => E.pure trivial
  unfold reduce
  refine E.bind (E.mapM (R := fun _ _ => True) hgroup) fun results hresults => ?_
  split
  · cases hresults
    exact absurd rfl hgroups
  · exact E.bind (of_granting haccepts (granting_series (P := fun _ => True) fun _ _ => trivial)) fun _ _ =>
      E.pure trivial

/-- Grouping refuses no formula but where one of them has no single cell on a group. -/
theorem holds_group {f : Frame} (hrows : 0 < f.rows) (keys : List String)
    {reducers : List (Reducer (Except Failure) Frame Column)}
    (h : ∀ keyColumns, keys.mapM f.column = .ok keyColumns → ∀ r ∈ reducers,
      ∀ rows ∈ groups (keyColumns.map (·.data)) f.rows, ∀ g, f.take rows = .ok g →
      E.Holds (r.run g f) fun c => c.length = 1 ∨ E.Accepts (.notReducing r.name r.formula.text)) :
    E.Holds (f.group keys reducers) fun _ => True := by
  have hkeys : E.Holds (keys.mapM f.column) (keys.mapM f.column = .ok ·) :=
    of_granting haccepts (granting_ok (granting.mapM (R := fun _ _ => True) fun key _ => holds_column f key))
  unfold group
  refine E.bind hkeys fun keyColumns hkeyColumns => ?_
  refine E.bind (Q := fun _ => True) ?_ fun grouped _ => ?_
  · refine E.foldlM (P := fun _ => True) (fun c _ out _ => ?_) trivial
    exact of_granting haccepts (granting.bind (holds_takeColumn c _) fun _ _ => holds_append out _)
  · refine E.foldlM (P := fun _ => True) (fun r hr out _ => ?_) trivial
    refine E.bind (holds_reduce haccepts (groups_ne_nil _ hrows) (h keyColumns hkeyColumns r hr)) fun c _ => ?_
    exact of_granting haccepts (holds_append out c)

end Reducing

/-- Formulas that are uniform over all groups are not refused by grouping. -/
theorem holds_group_uniform {f : Frame} (hrows : 0 < f.rows) (keys : List String) {formulas : List (String × Expr)}
    (h : ∀ named ∈ formulas, named.2.isColumnar = true ∧ ∀ keys : List Series, ∀ rows ∈ groups keys f.rows, ∀ g,
      f.take rows = .ok g → named.2.isUniform g.perRow = true) :
    reducing.Holds (f.group keys (formulas.map backend.reducer)) fun _ => True := by
  refine holds_group (fun _ => Failure.isNotReducing_of_isRefusal) hrows keys fun keyColumns _ r hr rows hmem g hg => ?_
  obtain ⟨named, hnamed, rfl⟩ := List.mem_map.1 hr
  obtain ⟨hcolumnar, huniform⟩ := h named hnamed
  refine reducing.bind (holds_uniform hcolumnar .groups g f) ?_
  rintro _ ⟨c, rfl, hc⟩
  exact .inl (hc (huniform _ rows hmem g hg))

/-! ## One group of equal cells -/

theorem classes_of_same {α : Type} {same : α → α → Bool} {a : α} {rest : List α} (h : ∀ b ∈ rest, same a b = true) :
    classes same (a :: rest) = [a :: rest] := by
  have hothers : rest.filter (!same a ·) = [] := List.filter_eq_nil_iff.2 fun b hb => by simp [h b hb]
  rw [classes, List.filter_eq_self.2 h, hothers, classes]

/-- Rows with equal keys are one group. -/
theorem groups_of_replicate {key : Series} {v : Value} {rows : Nat} (h : key.values = List.replicate rows v)
    (hrows : 0 < rows) : groups [key] rows = [List.range rows] := by
  have hkeys : keyedRows [key] rows = (List.range rows).map fun row => (row, [v]) := by
    refine List.map_congr_left fun row hrow => ?_
    have hcell : key.cell? row = some v := by
      rw [Series.cell?_eq, h, List.getElem?_replicate, if_pos (List.mem_range.1 hrow)]
    simp [keysAt, hcell]
  unfold groups
  rw [hkeys]
  obtain ⟨n, rfl⟩ : ∃ n, rows = n + 1 := ⟨rows - 1, by omega⟩
  rw [List.range_succ_eq_map, List.map_cons, classes_of_same]
  · simp
  · intro b hb
    obtain ⟨row, -, rfl⟩ := List.mem_map.1 hb
    simp [sameKeys, Value.same_self]

/-- A formula with more or fewer cells on a group is refused. -/
theorem reduce_refused {f g : Frame} {r : Reducer (Except Failure) Frame Column} {rows : List Nat} {c : Column}
    (hg : f.take rows = .ok g) (hc : r.run g f = .ok c) (hlength : c.length ≠ 1) (more : List (List Nat)) :
    f.reduce (rows :: more) r = .error (.notReducing r.name r.formula.text) := by
  have hgroup : f.reduceGroup r rows = .error (.notReducing r.name r.formula.text) := by
    unfold reduceGroup
    rw [hg]
    change (r.run g f >>= _) = _
    rw [hc]
    exact if_pos hlength
  unfold reduce
  rw [List.mapM_cons, hgroup]
  rfl

/-- Once the keys are there, the formulas are reduced over the groups that they make. -/
theorem group_eq {f : Frame} {keys : List String} {keyColumns : List Column} {divided : List (List Nat)}
    (hkeys : keys.mapM f.column = .ok keyColumns) (hdivided : groups (keyColumns.map Column.data) f.rows = divided)
    (reducers : List (Reducer (Except Failure) Frame Column)) :
    f.group keys reducers = (do
      let grouped ← keyColumns.foldlM (fun (out : Frame) c => do
        out.append (← c.take (divided.filterMap List.head?))) (empty f.options)
      reducers.foldlM (fun (out : Frame) r => do out.append (← f.reduce divided r)) grouped) := by
  subst hdivided
  unfold group
  rw [hkeys]
  rfl

/-- A column with equal cells on several rows is refused as a formula if it is the key itself. -/
theorem group_refused {f : Frame} (hf : f.Valid) {name : String} {c : Column} (hc : f.column? name = some c)
    {v : Value} (hcells : c.data.values = List.replicate f.rows v) (hrows : 1 < f.rows) (target : String) :
    f.group [name] [backend.reducer (target, .leaf name)] = .error (.notReducing target (Expr.leaf name).text) := by
  have hcolumn : f.column name = .ok c := by
    unfold column
    rw [hc]
  have hgroups : groups [c.data] f.rows = [List.range f.rows] := groups_of_replicate hcells (by omega)
  have hlength : c.length = f.rows := hf.lengths c (hf.mem_of_column? hc).1
  -- The first row of the group is there, so the keys of the result are made before the formula is refused.
  obtain ⟨first, hfirst⟩ : ∃ first, c.take [0] = .ok first := by
    have hthere : ∀ row ∈ [0], row < c.data.length := by
      rw [List.forall_mem_singleton]
      change 0 < c.length
      omega
    obtain ⟨data, hdata⟩ := Series.exists_take hthere
    exact ⟨_, bind_eq_ok.2 ⟨data, liftM_series_eq_ok.2 hdata, rfl⟩⟩
  obtain ⟨grouped, hgrouped⟩ : ∃ grouped, (empty f.options).append first = .ok grouped := ⟨_, rfl⟩
  have hfirsts : [List.range f.rows].filterMap List.head? = [0] := by
    simp [List.head?_range, Nat.ne_of_gt (Nat.lt_of_succ_lt hrows)]
  have hthere : ∀ row ∈ List.range f.rows, row < f.rows := fun row hrow => List.mem_range.1 hrow
  obtain ⟨g, hg⟩ := hf.exists_take hthere
  have hrel := column?_take hg name
  rw [hc] at hrel
  obtain ⟨d, hd, hdlength⟩ : ∃ d, g.column? name = some d ∧ d.length = f.rows := by
    generalize g.column? name = found at hrel
    cases hrel with
    | some htake =>
      obtain ⟨data, hdata, rfl⟩ := take_column_ok htake
      exact ⟨_, rfl, (Series.take_ok hdata).2.trans List.length_range⟩
  have hrun : (backend.reducer (target, .leaf name)).run g f = .ok d := by
    have htoken : backend.token g name = pure d := Backend.token_column hd
    change (do Backend.asColumn (.leaf name) (← backend.eval (.leaf name) .groups g f)) = Except.ok d
    rw [Backend.eval, htoken]
    rfl
  have hreduce := reduce_refused hg hrun (by omega) []
  have hkeys : [name].mapM f.column = .ok [c] := by
    rw [List.mapM_cons, hcolumn]
    rfl
  rw [group_eq hkeys hgroups, hfirsts, List.foldlM_cons, hfirst]
  change ((empty f.options).append first >>= pure) >>= _ = _
  rw [hgrouped]
  change List.foldlM _ grouped _ = _
  rw [List.foldlM_cons, hreduce]
  rfl

end Frame

end Memory

end Tabular
