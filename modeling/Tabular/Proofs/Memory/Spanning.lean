-- SUMMARY: How many cells a formula gives in memory, and when one is evaluated that is refused elsewhere as no aggregate.
import Tabular.Proofs.Formula.Reread
import Tabular.Proofs.Memory.Grouping
import Tabular.Proofs.Memory.Uniform

/-!
# Spanning formulas

Grouping and `global` count the cells that a formula gives to find out whether it is an aggregate. The count follows the
form of the tree: a formula spans the rows, with a cell for each of them, or it has a single cell, and which of the two
it does is told by the names of the columns alone. So frames with the same names refuse the same formulas, except where
there is but one row to span.
-/

namespace Tabular

/-! ## Trees -/

namespace Expr

variable (named : String → Bool)

mutual

/-- Whether a tree has a cell for each row, where `named` tells the names of columns. -/
def spans : Expr → Bool
  | .quoted _ => false
  | .leaf name => named name
  | .binary op left right => Operation.spansOver op.operation [left.spans, right.spans]
  | .call name args =>
    match SpecialForm.named? name with
    | none => Operation.spansOver name (spansOf args)
    | some _ => false
  | .assign _ _ => false

/-- Which of several trees have a cell for each row. -/
def spansOf : List Expr → List Bool
  | [] => []
  | arg :: more => arg.spans :: spansOf more

end

mutual

/-- Whether `global` is only used on trees that have a single cell. -/
def globalsReduce : Expr → Bool
  | .quoted _ => true
  | .leaf _ => true
  | .binary _ left right => left.globalsReduce && right.globalsReduce
  | .call name args =>
    match SpecialForm.named? name with
    | some .global => !(spansOf named args).any id && allGlobalsReduce args
    | _ => allGlobalsReduce args
  | .assign _ value => value.globalsReduce

def allGlobalsReduce : List Expr → Bool
  | [] => true
  | arg :: more => arg.globalsReduce && allGlobalsReduce more

end

theorem spansOf_eq_map (args : List Expr) : spansOf named args = args.map (spans named) := by
  induction args with
  | nil => rfl
  | cons arg more ih => rw [spansOf, ih, List.map_cons]

theorem allGlobalsReduce_iff {args : List Expr} :
    allGlobalsReduce named args = true ↔ ∀ arg ∈ args, arg.globalsReduce named = true := by
  induction args with
  | nil => simp [allGlobalsReduce]
  | cons arg more ih => rw [allGlobalsReduce, Bool.and_eq_true, ih, List.forall_mem_cons]

end Expr

open Ending

namespace Memory.Frame

/-! ## Counting cells -/

/-- A valid frame whose columns have the names that are told. -/
structure Named (named : String → Bool) (f : Frame) : Prop where
  valid : f.Valid
  names : f.hasColumn = named

theorem hasColumn_eq_of_labels {f g : Frame} (hf : f.Valid) (hg : g.Valid) (h : f.labels = g.labels) :
    f.hasColumn = g.hasColumn := by
  have hnames {f : Frame} (hf : f.Valid) (name : String) : f.hasColumn name = true ↔ name ∈ f.labels.map Prod.fst := by
    unfold hasColumn column?
    simp only [Option.isSome_iff_exists, hf.indexed.column?_eq_some_iff]
    simp [labels, Column.label, columns]
  funext name
  rw [Bool.eq_iff_iff, hnames hf, hnames hg, h]

theorem Named.take {named : String → Bool} {f g : Frame} (h : f.Named named) {rows : List Nat}
    (hg : f.take rows = .ok g) : g.Named named where
  valid := h.valid.take hg
  names := (funext (isSome_column?_take hg)).trans h.names

/-- What a tree gives over a frame `u`, with the whole frame `w` at hand: as many cells as its form tells. If the whole
    frame has not just one row, then the uses of `global` in the tree would be taken over any frame. -/
structure Gauged (named : String → Bool) (u w : Frame) (e : Expr) (c : Column) : Prop where
  length : c.length = cellCount u.rows (e.spans named)
  globals : w.rows ≠ 1 → e.globalsReduce named = true

variable {named : String → Bool} {E : Ending (Except Failure)}

/-- The refusals by `global` are accepted, unless the tree has none to expect. -/
def Spares (E : Ending (Except Failure)) (named : String → Bool) (e : Expr) : Prop :=
  e.globalsReduce named = true ∨ ∀ name, E.Accepts (.notAggregate name)

/-- Over frames with the names, the tree gives a column that is gauged. -/
def Gauges (E : Ending (Except Failure)) (named : String → Bool) (e : Expr) : Prop :=
  ∀ (scope : Scope) {u w : Frame}, u.Named named → w.Named named →
    E.Holds (backend.eval e scope u w) fun o => ∃ c, o = .column c ∧ Gauged named u w e c

section Parts

variable (haccepts : ∀ failure, failure.isRefusal = false → E.Accepts failure) {u w : Frame} {scope : Scope}

include haccepts

theorem holds_token (hu : u.Named named) (name : String) :
    E.Holds (backend.token u name) fun c => c.length = cellCount u.rows (named name) := by
  unfold Backend.token
  rw [← hu.names, hasColumn]
  split
  · rename_i c hc
    have hc : u.column? name = some c := hc
    refine E.pure ?_
    rw [hc]
    exact hu.valid.lengths c (hu.valid.mem_of_column? hc).1
  · rename_i hc
    have hc : u.column? name = none := hc
    rw [hc]
    split
    · exact of_granting haccepts (holds_literal _)
    · exact E.refuse (haccepts _ rfl)

/-- A quoted text that is read again still has one cell. -/
theorem holds_reread {operands : List (Expr × Column)}
    (h : ∀ p ∈ operands, p.2.length = cellCount u.rows (p.1.spans named)) :
    E.Holds (backend.reread u operands)
      (List.Forall₂ (fun p c => c.length = cellCount u.rows (p.1.spans named)) operands) := by
  rw [Backend.reread_eq]
  refine E.mapM fun p hp => ?_
  obtain ⟨e, c⟩ := p
  rcases Resolved.quotedDate_cases e c.dataType with ⟨content, rfl, htype⟩ | hnot
  · rw [Backend.rereadOne_quoted htype]
    exact of_granting haccepts (holds_literal _)
  · rw [Backend.rereadOne_of_not hnot]
    exact E.pure (h _ hp)

theorem holds_apply {e : Expr} {name : String} {operands : List (Expr × Column)}
    (h : ∀ p ∈ operands, p.2.length = cellCount u.rows (p.1.spans named)) :
    E.Holds (backend.apply u scope e name operands) fun c =>
      c.length = cellCount u.rows (Operation.spansOver name ((operands.map (·.1)).map (Expr.spans named))) := by
  unfold Backend.apply
  refine E.bind (E.lift (fun _ => id) fun failure hfailure => ?_) fun resolved hresolved => ?_
  · exact haccepts _ (Resolved.isRefusal_ofOperands hfailure)
  obtain ⟨r, asText⟩ := resolved
  obtain ⟨rfl, happlies⟩ := Resolved.ofOperands_ok hresolved
  have hread : E.Holds (if asText then backend.reread u operands else pure (operands.map (·.2)))
      (List.Forall₂ (fun p c => c.length = cellCount u.rows (p.1.spans named)) operands) := by
    split
    · exact holds_reread haccepts h
    · refine E.pure ?_
      rw [List.forall₂_map_right_iff, List.forall₂_same]
      exact h
  refine E.ite_bind (E.bind hread fun cs hcs => ?_)
  refine E.bind (of_granting haccepts (holds_execute u.options u.rows r cs)) fun c hc => E.pure ?_
  refine hc.cellCount happlies.builtIn fun _ => ?_
  rw [List.map_map, List.forall₂_map_left_iff]
  exact hcs

end Parts

section Trees

variable (haccepts : ∀ failure, failure.isRefusal = false → E.Accepts failure)

include haccepts

theorem gauges_quoted (content : String) : Gauges E named (.quoted content) := by
  intro scope u w _ _
  rw [Backend.eval]
  exact E.bind (of_granting haccepts (holds_literal _)) fun c hc => E.pure ⟨c, rfl, hc, fun _ => rfl⟩

theorem gauges_leaf (name : String) : Gauges E named (.leaf name) := by
  intro scope u w hu _
  rw [Backend.eval]
  exact E.bind (holds_token haccepts hu name) fun c hc => E.pure ⟨c, rfl, hc, fun _ => rfl⟩

theorem gauges_binary {op : BinaryOp} {left right : Expr} (hleft : Gauges E named left)
    (hright : Gauges E named right) : Gauges E named (.binary op left right) := by
  intro scope u w hu hw
  rw [Backend.eval]
  refine Backend.holds_column (hleft scope hu hw) fun l hl => ?_
  refine Backend.holds_column (hright scope hu hw) fun r hr => ?_
  have hoperands : ∀ p ∈ [(left, l), (right, r)], p.2.length = cellCount u.rows (p.1.spans named) := by
    rw [List.forall_mem_cons, List.forall_mem_singleton]
    exact ⟨hl.length, hr.length⟩
  refine E.bind (holds_apply haccepts hoperands) fun c hc => E.pure ⟨c, rfl, hc, fun hrows => ?_⟩
  rw [Expr.globalsReduce, hl.globals hrows, hr.globals hrows]
  rfl

variable {name : String} {args : List Expr} (hargs : ∀ arg ∈ args, Gauges E named arg)

include hargs

omit haccepts in
theorem holds_evalColumns (scope : Scope) {u w : Frame} (hu : u.Named named) (hw : w.Named named) :
    E.Holds (backend.evalColumns args scope u w) (List.Forall₂ (Gauged named u w) args) := by
  induction args with
  | nil =>
    rw [Backend.evalColumns]
    exact E.pure .nil
  | cons arg more ih =>
    rw [List.forall_mem_cons] at hargs
    rw [Backend.evalColumns]
    refine Backend.holds_column (hargs.1 scope hu hw) fun c hc => ?_
    exact E.bind (ih hargs.2) fun cs hcs => E.pure (.cons hc hcs)

theorem gauges_operation (hform : SpecialForm.named? name = none) : Gauges E named (.call name args) := by
  intro scope u w hu hw
  unfold Backend.eval
  rw [hform]
  refine E.bind (holds_evalColumns hargs scope hu hw) fun cs hcs => ?_
  have hoperands : ∀ p ∈ args.zip cs, p.2.length = cellCount u.rows (p.1.spans named) := fun p hp =>
    ((List.forall₂_iff_zip.1 hcs).2 hp).length
  refine E.bind (holds_apply haccepts hoperands) fun c hc => E.pure ⟨c, rfl, ?_, fun hrows => ?_⟩
  · rw [List.map_fst_zip (Nat.le_of_eq hcs.length_eq), ← Expr.spansOf_eq_map] at hc
    unfold Expr.spans
    rw [hform]
    exact hc
  · unfold Expr.globalsReduce
    rw [hform]
    refine (Expr.allGlobalsReduce_iff named).2 fun arg harg => ?_
    obtain ⟨c, -, hc⟩ := exists_of_mem_forall₂ hcs.flip harg
    exact hc.globals hrows

/-- `global` takes what has a single cell. A tree that spans the whole frame has one only if the frame has one row. -/
theorem gauges_global (hform : SpecialForm.named? name = some .global) (hspares : Spares E named (.call name args)) :
    Gauges E named (.call name args) := by
  intro scope u w hu hw
  unfold Backend.eval
  rw [hform]
  dsimp only
  split
  · rename_i inner
    refine Backend.holds_column (hargs inner List.mem_cons_self .groups hw hw) fun c hc => ?_
    unfold Spares Expr.globalsReduce at hspares
    rw [hform] at hspares
    have hglobal : E.Holds (globalize c) fun d => d.length = 1 ∧ c.length = 1 := by
      unfold globalize
      split
      · rename_i hone
        exact E.pure ⟨hone, hone⟩
      · rename_i hmany
        refine E.refuse (hspares.resolve_left (fun hreduce => hmany ?_) _)
        simp only [Expr.spansOf, List.any_cons, List.any_nil, id_eq, Bool.or_false, Bool.and_eq_true,
          Bool.not_eq_true'] at hreduce
        rw [hc.length, hreduce.1]
        rfl
    refine E.bind hglobal fun d hd => E.pure ⟨_, rfl, ?_, fun hrows => ?_⟩
    · unfold Expr.spans
      rw [hform]
      exact hd.1
    · have hspans : inner.spans named = false := by
        refine Bool.eq_false_iff.2 fun hspans => hrows ?_
        have hlength := hc.length
        rw [hspans] at hlength
        exact hlength.symm.trans hd.2
      unfold Expr.globalsReduce
      rw [hform]
      simp [Expr.spansOf, Expr.allGlobalsReduce, hspans, hc.globals hrows]
  · exact E.refuse (haccepts _ rfl)

omit hargs

/-- A columnar tree gives as many cells as its form tells. -/
theorem gauges {e : Expr} (he : e.isColumnar = true) (hspares : Spares E named e) : Gauges E named e := by
  cases e with
  | quoted content => exact gauges_quoted haccepts content
  | leaf name => exact gauges_leaf haccepts name
  | binary op left right =>
    rw [Expr.isColumnar, Bool.and_eq_true] at he
    unfold Spares at hspares
    rw [Expr.globalsReduce, Bool.and_eq_true] at hspares
    exact gauges_binary haccepts (gauges he.1 (hspares.imp (·.1) id)) (gauges he.2 (hspares.imp (·.2) id))
  | call name args =>
    have hargs (hcolumnar : Expr.areColumnar args = true) (hmore : Expr.allGlobalsReduce named args = true ∨
        ∀ name, E.Accepts (.notAggregate name)) : ∀ arg ∈ args, Gauges E named arg := fun arg harg =>
      have hsize := List.sizeOf_lt_of_mem harg
      gauges (Expr.areColumnar_iff.1 hcolumnar arg harg)
        (hmore.imp (fun h => (Expr.allGlobalsReduce_iff named).1 h arg harg) id)
    have hspared := hspares
    unfold Spares Expr.globalsReduce at hspared
    unfold Expr.isColumnar at he
    cases hform : SpecialForm.named? name with
    | none =>
      rw [hform] at he hspared
      exact gauges_operation haccepts (hargs he hspared) hform
    | some form =>
      rw [hform] at he hspared
      cases form with
      | global =>
        exact gauges_global haccepts (hargs he (hspared.imp (fun h => (Bool.and_eq_true _ _ ▸ h).2) id)) hform hspares
      | _ => cases he
  | assign name value => cases he
termination_by sizeOf e
decreasing_by
  all_goals subst_vars
  all_goals simp_wf
  all_goals omega

end Trees

/-! ## Refusals elsewhere -/

theorem granting_ascending (e : Expr) : granting.Holds (Backend.ascending e) fun _ => True := by
  unfold Backend.ascending
  split
  · split
    · exact trivial
    · exact trivial
    · exact rfl
  · split
    · exact trivial
    · exact trivial
    · exact rfl
  · exact rfl

theorem granting_key (f : Frame) (form : String) (e : Expr) : granting.Holds (backend.key f form e) fun _ => True := by
  unfold Backend.key
  split
  · split
    · exact trivial
    · exact rfl
  · exact rfl

theorem granting_sort (f : Frame) (ascending : Bool) (keys : List String) :
    granting.Holds (f.sort ascending keys) fun _ => True :=
  granting.bind (granting.mapM (R := fun _ _ => True) fun key _ => holds_column f key) fun _ _ => trivial

theorem granting_eval_sort (f : Frame) {name : String} {args : List Expr} {scope : Scope} {w : Frame}
    (hform : SpecialForm.named? name = some .sort) :
    granting.Holds (backend.eval (.call name args) scope f w) fun _ => True := by
  unfold Backend.eval
  rw [hform]
  dsimp only
  split
  · rename_i order first more
    refine granting.bind (granting_ascending order) fun _ _ => ?_
    refine granting.bind (granting.mapM (R := fun _ _ => True) fun key _ => granting_key f "sort" key) fun _ _ => ?_
    exact granting.bind (granting_sort f _ _) fun _ _ => trivial
  · exact rfl

section Elsewhere

variable {a b : Frame} (ha : a.Named named) (hb : b.Named named) (hrows : 0 < b.rows)
  (haccepts : ∀ failure, failure.isRefusal = false → E.Accepts failure)
  (hglobals : b.rows = 1 → ∀ name, E.Accepts (.notAggregate name))

include hb haccepts hglobals

/-- What is given over one frame counts for others: the cells follow the form of the tree, which is gauged over them. -/
theorem gauges_elsewhere {e : Expr} {u : Frame} {scope : Scope} {c : Column} (hu : u.Named named)
    (h : backend.eval e scope u b = .ok (.column c)) : Gauged named u b e c ∧ Gauges E named e := by
  have hcolumnar : e.isColumnar = true :=
    Backend.holds_columnar (E := partialResult) (fun _ => trivial) (fun _ _ _ => trivial) e scope u b _ h c rfl
  have hgauges : Gauges partialResult named e := gauges (fun _ _ => trivial) hcolumnar (.inr fun _ => trivial)
  obtain ⟨d, hd, hgauged⟩ := hgauges scope hu hb _ h
  obtain rfl := Outcome.column.inj hd
  refine ⟨hgauged, gauges haccepts hcolumnar ?_⟩
  by_cases hrows : b.rows = 1
  · exact .inr (hglobals hrows)
  · exact .inl (hgauged.globals hrows)

include ha hrows

/-- A formula that has a value on the groups of one frame is refused on rows of another one only if these groups are single
    rows. -/
theorem holds_reducer {groups : List (List Nat)} (hgroups : groups ≠ []) {formula : String × Expr}
    (hvalues : ∀ rows ∈ groups, ∃ v, b.GroupValue formula.2 rows v)
    (hreducing : (∀ rows ∈ groups, rows.length = 1) → ∀ name text, E.Accepts (.notReducing name text)) {g : Frame}
    (hg : g.Named named) :
    E.Holds ((backend.reducer formula).run g a) fun c =>
      c.length = 1 ∨ E.Accepts (.notReducing formula.1 formula.2.text) := by
  have hgauged : ∀ rows ∈ groups, 1 = cellCount rows.length (formula.2.spans named) ∧ Gauges E named formula.2 := by
    intro rows hmem
    obtain ⟨v, u, c, hu, hc, -, hcells⟩ := hvalues rows hmem
    obtain ⟨hgauged, hgauges⟩ := gauges_elsewhere hb haccepts hglobals (hb.take hu) hc
    have hcolumns : b.columns.isEmpty = false := by
      refine Bool.eq_false_iff.2 fun hempty => ?_
      rw [rows_eq, List.isEmpty_iff.1 hempty] at hrows
      exact absurd hrows (Nat.lt_irrefl 0)
    have hlength : c.length = 1 := (Series.length_values _).symm.trans (congrArg List.length hcells)
    have hcount := hgauged.length
    rw [rows_take hu, hcolumns] at hcount
    exact ⟨hlength.symm.trans hcount, hgauges⟩
  obtain ⟨first, hfirst⟩ := List.exists_mem_of_ne_nil _ hgroups
  refine E.bind ((hgauged first hfirst).2 .groups hg ha) ?_
  rintro _ ⟨c, rfl, hc⟩
  refine E.pure ?_
  cases hspans : formula.2.spans named with
  | false =>
    refine .inl (hc.length.trans ?_)
    rw [hspans]
    rfl
  | true =>
    refine .inr (hreducing (fun rows hmem => ?_) _ _)
    have hone := (hgauged rows hmem).1
    rw [hspans] at hone
    exact hone.symm

/-- A call of `by` that gives groups over one frame is refused over another one only if these groups are single rows. -/
theorem holds_eval_by (harows : 0 < a.rows) {args : List Expr} {scope : Scope} {o : Outcome Frame Column}
    (h : backend.eval (.call "by" args) scope b b = .ok o)
    (hreducing : ∀ keyColumns, (Backend.keysOf args).mapM b.column = .ok keyColumns →
      (∀ group ∈ groups (keyColumns.map (·.data)) b.rows, group.length = 1) →
      ∀ name text, E.Accepts (.notReducing name text)) :
    E.Holds (backend.eval (.call "by" args) scope a a) fun _ => True := by
  obtain ⟨keys, reducers, g, hparts, hkeys, hgroup, -⟩ := Backend.eval_by_ok rfl h
  have hsame : Backend.groupArguments backend args a = .ok (keys, reducers) := by
    have hnames (name : String) : (backend.column? a name).isSome = (backend.column? b name).isSome :=
      congrFun (ha.names.trans hb.names.symm) name
    rw [Backend.groupArguments_congr hnames, hparts]
  obtain ⟨rfl, rfl⟩ := Backend.groupArguments_ok hparts
  obtain ⟨keyColumns, hkeyColumns, -, hgrouped⟩ := group_grouped hb.valid hrows (by simpa using hkeys) hgroup
  have hreduced : E.Holds (backend.group a (Backend.keysOf args) ((Backend.reductions args).map backend.reducer))
      fun _ => True := by
    refine holds_group haccepts harows _ fun _ _ r hr _ _ u hu => ?_
    obtain ⟨formula, hformula, rfl⟩ := List.mem_map.1 hr
    obtain ⟨d, -, hvalues⟩ := hgrouped.formulas formula hformula
    have hvalues : ∀ rows ∈ groups (keyColumns.map (·.data)) b.rows, ∃ v, b.GroupValue formula.2 rows v := by
      intro rows hmem
      obtain ⟨v, -, hv⟩ := exists_of_mem_forall₂ hvalues.flip hmem
      exact ⟨v, hv⟩
    exact holds_reducer ha hb hrows haccepts hglobals (groups_ne_nil _ hrows) hvalues (hreducing keyColumns hkeyColumns)
      (ha.take hu)
  unfold Backend.eval
  change E.Holds (Backend.groupArguments backend args a >>= _) _
  rw [hsame]
  change E.Holds (if (Backend.keysOf args).isEmpty then _ else _) _
  rw [if_neg hkeys]
  exact E.bind hreduced fun _ _ => E.pure trivial

end Elsewhere

/-- Why a tree may be evaluated over a frame where another one refuses it as no aggregate: what it would span is a single
    row of each group, or of the frame. -/
def Excuses (f : Frame) (e : Expr) : Failure → Prop
  | .notReducing _ _ => ∃ args keyColumns, e = .call "by" args ∧
      (Backend.keysOf args).mapM f.column = .ok keyColumns ∧
      ∀ group ∈ groups (keyColumns.map (·.data)) f.rows, group.length = 1
  | .notAggregate _ => f.rows = 1
  | _ => True

theorem excuses_of_not_refusal (f : Frame) (e : Expr) (failure : Failure) (h : failure.isRefusal = false) :
    f.Excuses e failure := by
  cases failure with
  | notReducing name text => cases h
  | notAggregate name => cases h
  | _ => trivial

/-- A tree that is evaluated over one frame is refused over another one with the same names only if it is excused. -/
theorem eval_excused {a b : Frame} (ha : a.Named named) (hb : b.Named named) (harows : 0 < a.rows) (hbrows : 0 < b.rows)
    {e : Expr} {scope : Scope} {o : Outcome Frame Column} (h : backend.eval e scope b b = .ok o) :
    (accepting (b.Excuses e)).Holds (backend.eval e scope a a) fun _ => True := by
  let E := accepting (b.Excuses e)
  have haccepts : ∀ failure, failure.isRefusal = false → E.Accepts failure := b.excuses_of_not_refusal e
  have hglobals : b.rows = 1 → ∀ name, E.Accepts (.notAggregate name) := fun hone _ => hone
  have hcolumn {arg : Expr} {c : Column} (hc : backend.eval arg scope b b = .ok (.column c)) :=
    (gauges_elsewhere hb haccepts hglobals hb hc).2 scope ha ha
  rcases Backend.eval_cases h with ⟨c, rfl⟩ | ⟨args, rfl⟩ | ⟨args, rfl⟩ | ⟨args, rfl⟩
  · exact E.mono (hcolumn h) fun _ _ => trivial
  · refine holds_eval_by ha hb hbrows haccepts hglobals harows h fun keyColumns hkeyColumns hsingle _ _ => ?_
    exact ⟨args, keyColumns, rfl, hkeyColumns, hsingle⟩
  · exact of_granting haccepts (granting_eval_sort a rfl)
  · obtain ⟨x, y, xc, yc, xs, ys, rfl, hx, hy, -⟩ := Backend.eval_plot_ok rfl h
    unfold Backend.eval
    change E.Holds (backend.eval x scope a a >>= _) _
    refine Backend.holds_column (hcolumn hx) fun _ _ => Backend.holds_column (hcolumn hy) fun _ _ => ?_
    exact trivial

/-- Of two frames with columns of the same names, one refuses a formula as no aggregate and the other evaluates it only if
    nothing has more than one row there: no group, after a refusal by `by`, and not the frame, after one by `global`. -/
theorem evaluate_excused {a b : Frame} (ha : a.Reached) (hb : b.Reached) (harows : 0 < a.rows) (hbrows : 0 < b.rows)
    (hnames : b.hasColumn = a.hasColumn) {text : String} {formula : Formula}
    (hformula : Formula.ofText text = .ok formula) {result : Evaluated Frame Column} (h : b.evaluate text = .ok result)
    {failure : Failure} (hfailure : a.evaluate text = .error failure) : b.Excuses formula.expr failure := by
  obtain ⟨_, hformula', h⟩ := bind_eq_ok.1 h
  obtain rfl := Except.ok.inj (hformula.symm.trans hformula')
  obtain ⟨_, hrun, -⟩ := bind_eq_ok.1 h
  obtain ⟨o, ho, -⟩ := bind_eq_ok.1 hrun
  have hexcused := eval_excused ⟨ha.valid, rfl⟩ ⟨hb.valid, hnames⟩ harows hbrows ho
  unfold Frame.evaluate Backend.evaluate at hfailure
  rw [hformula] at hfailure
  change ((backend.eval formula.expr .rows a a >>= _) >>= _) = _ at hfailure
  cases heval : backend.eval formula.expr .rows a a with
  | ok o' =>
    rw [heval] at hfailure
    cases hfailure
  | error failure' =>
    rw [heval] at hexcused hfailure
    obtain rfl := Except.error.inj hfailure
    exact hexcused

/-- A frame with a key and a number in each row. -/
def keyed (keys numbers : List Int64) : Frame :=
  (empty .default).run [(.append (.ofSeries "k" (.integers keys)), false),
    (.append (.ofSeries "x" (.integers numbers)), false)]

theorem reached_keyed (keys numbers : List Int64) : (keyed keys numbers).Reached := by
  refine (Reached.empty .default).run fun c returned hc => ?_
  simp only [List.mem_cons, Prod.mk.injEq, Request.append.injEq, List.not_mem_nil, or_false] at hc
  rcases hc with ⟨rfl, -⟩ | ⟨rfl, -⟩
  · exact .ofSeries ..
  · exact .ofSeries ..

/-- The target and the formula that are refused as not reducing. -/
def notReducing? : Except Failure (Evaluated Frame Column) → Option (String × String)
  | .error (.notReducing target formula) => some (target, formula)
  | _ => none

theorem notReducing?_eq_some {x : Except Failure (Evaluated Frame Column)} {target formula : String} :
    notReducing? x = some (target, formula) ↔ x = .error (.notReducing target formula) := by
  unfold notReducing?
  split
  · simp
  · rename_i hnot
    simp only [reduceCtorEq, false_iff]
    exact fun h => hnot _ _ h

/-- The numbers are refused as no aggregate where two rows have the same key, but are taken where no two of them have. -/
theorem evaluate_notReducing_depends :
    let a := keyed [1, 1] [1, 2]
    let b := keyed [1, 2] [1, 2]
    a.Reached ∧ b.Reached ∧ a.labels = b.labels ∧ a.options = b.options ∧ 0 < a.rows ∧ 0 < b.rows ∧
      a.evaluate "by(k, y := x)" = .error (.notReducing "y" "x") ∧ ∃ result, b.evaluate "by(k, y := x)" = .ok result := by
  intro a b
  refine ⟨reached_keyed _ _, reached_keyed _ _, rfl, rfl, by decide, by decide, ?_, ?_⟩
  · exact notReducing?_eq_some.1 (by decide +kernel)
  · have hgiven : (b.evaluate "by(k, y := x)").toOption.isSome = true := by decide +kernel
    obtain ⟨result, hresult⟩ := Option.isSome_iff_exists.1 hgiven
    exact ⟨result, toOption_eq_some.1 hresult⟩

/-- Three keys take the numbers that are refused with two rows of one key, so each of them has a single row. -/
theorem evaluate_excused_keyed :
    let a := keyed [1, 2, 1] [1, 2, 3]
    let b := keyed [1, 2, 3] [1, 2, 3]
    let e := Expr.call "by" [.leaf "k", .assign "y" (.leaf "x")]
    a.Reached ∧ b.Reached ∧ 0 < a.rows ∧ 0 < b.rows ∧ b.hasColumn = a.hasColumn ∧
      Formula.ofText "by(k, y := x)" = .ok ⟨none, e⟩ ∧
      (∃ result, b.evaluate "by(k, y := x)" = .ok result) ∧
      a.evaluate "by(k, y := x)" = .error (.notReducing "y" "x") ∧ b.Excuses e (.notReducing "y" "x") := by
  intro a b e
  have ha : a.Reached := reached_keyed _ _
  have hb : b.Reached := reached_keyed _ _
  have harows : 0 < a.rows := by decide
  have hbrows : 0 < b.rows := by decide
  have hnames : b.hasColumn = a.hasColumn := hasColumn_eq_of_labels hb.valid ha.valid rfl
  have hformula : Formula.ofText "by(k, y := x)" = .ok ⟨none, e⟩ := by
    have hspelled : "by(k, y := x)" = e.text := by decide +kernel
    rw [hspelled]
    exact Formula.ofText_text (by decide +kernel) (by unfold Expr.Unassigning; decide)
  have hgiven : (b.evaluate "by(k, y := x)").toOption.isSome = true := by decide +kernel
  obtain ⟨result, hresult⟩ := Option.isSome_iff_exists.1 hgiven
  have hresult := toOption_eq_some.1 hresult
  have hfailure : a.evaluate "by(k, y := x)" = .error (.notReducing "y" "x") :=
    notReducing?_eq_some.1 (by decide +kernel)
  exact ⟨ha, hb, harows, hbrows, hnames, hformula, ⟨result, hresult⟩, hfailure,
    evaluate_excused ha hb harows hbrows hnames hformula hresult hfailure⟩

end Memory.Frame

end Tabular
