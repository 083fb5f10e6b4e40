-- SUMMARY: Terms over rows whose cells fail late fail late themselves.
import Tabular.Proofs.Failure
import Tabular.Sql.Store.View

/-!
# Failures of views

Cells of a view are outcomes, so a term may fail because a cell of the source does. If these fail late, so do all
terms, and all keys of an order and of a group. Whatever a view is turned into, its rows come from the source.
-/

namespace Tabular.Sql

/-! ## Functions of cells -/

namespace Cell

theorem late_strictFloat (c : Cell) : Late (strictFloat c) := by
  cases c with
  | integer n => exact Late.ok
  | real x => exact Late.ok
  | _ => exact Late.error rfl

theorem late_absolute (c : Cell) : Late (absolute c) := by
  cases c with
  | integer n =>
    simp only [absolute]
    split
    · exact Late.error rfl
    · exact Late.ok
  | _ => exact Late.ok

theorem late_apply (f : Function) (cells : List Cell) : Late (apply f cells) := by
  unfold apply
  split
  all_goals first
    | exact Late.ok
    | exact late_absolute _
    | exact (late_strictFloat _).bind fun _ _ => Late.pure
    | exact (late_strictFloat _).bind fun _ _ => (late_strictFloat _).bind fun _ _ => Late.pure
    | exact Late.error rfl

theorem late_total (total : Total) : Late total.cell := by
  cases total with
  | exact sum => exact Late.ok
  | rounded sum error overflow =>
    cases overflow with
    | true => exact Late.error rfl
    | false => exact Late.ok

theorem late_aggregate (f : Function) (cells : List Cell) : Late (aggregate f cells) := by
  unfold aggregate
  dsimp only
  split
  · exact Late.ok
  · split
    · exact Late.ok
    · exact late_total _
  · split
    · exact Late.ok
    · exact Late.ok
  · exact Late.ok
  · exact Late.ok
  · exact Late.error rfl

theorem late_choose {otherwise : Outcome} (hotherwise : Late otherwise) {conditions values : List Outcome}
    (hconditions : ∀ o ∈ conditions, Late o) (hvalues : ∀ o ∈ values, Late o) :
    Late (choose otherwise conditions values) := by
  induction conditions generalizing values with
  | nil => exact hotherwise
  | cons condition conditions ih =>
    cases values with
    | nil => exact hotherwise
    | cons value values =>
      refine (hconditions condition List.mem_cons_self).bind fun _ _ => ?_
      split
      · exact hvalues value List.mem_cons_self
      · exact ih (fun o ho => hconditions o (List.mem_cons_of_mem _ ho))
          fun o ho => hvalues o (List.mem_cons_of_mem _ ho)

end Cell

/-! ## Rows -/

def Row.IsLate (row : Row) : Prop := ∀ cell ∈ row.cells, Late cell

/-- All cells of the view fail late. -/
structure View.IsLate (v : View) : Prop where
  source : ∀ row ∈ v.source, row.IsLate
  window : ∀ row ∈ v.window, row.IsLate
  members : ∀ row ∈ v.members, row.IsLate
  current : ∀ row ∈ v.current, row.IsLate

namespace View

variable {v : View}

theorem IsLate.on (h : v.IsLate) {row : Row} (hrow : row.IsLate) : (v.on row).IsLate :=
  { h with current := fun _ hother => Option.some.inj hother ▸ hrow }

theorem IsLate.subquery (h : v.IsLate) {rows : List Row} (hrows : ∀ row ∈ rows, row.IsLate) (aggregated : Bool) :
    (v.subquery rows aggregated).IsLate where
  source := h.source
  window := by
    unfold View.subquery
    cases aggregated with
    | true => exact fun row hrow => hrows row (List.mem_of_mem_take hrow)
    | false => exact hrows
  members := hrows
  current _ hrow := hrows _ (List.mem_of_mem_head? hrow)

theorem IsLate.broadcast (h : v.IsLate) : View.IsLate { v with members := v.window } :=
  { h with members := h.window }

theorem IsLate.cell (h : v.IsLate) (name : String) : Late (v.cell name) := by
  unfold View.cell
  split
  · exact Late.ok
  · split
    · exact Late.ok
    · rename_i index _ _ row hcurrent
      cases hcell : row.cells[index]? with
      | none => exact Late.ok
      | some cell => exact h.current row hcurrent cell (List.mem_of_getElem? hcell)

theorem IsLate.keys (h : v.IsLate) (names : List String) {row : Row} (hrow : row.IsLate) : Late (v.keys names row) :=
  Late.mapM fun name _ => (h.on hrow).cell name

theorem IsLate.ordered (h : v.IsLate) (order : Option SortOrder) : Late (v.ordered order) := by
  cases order with
  | none => exact Late.ok
  | some order =>
    refine (Late.mapM fun row hrow => ?_).bind fun _ _ => Late.pure
    exact (h.keys order.keys (h.window row hrow)).bind fun _ _ => Late.pure

theorem IsLate.position (h : v.IsLate) (order : Option SortOrder) : Late (v.position order) := by
  refine (h.ordered order).bind fun _ _ => ?_
  split
  · exact Late.pure
  · exact Late.pure

/-- Filtering gives some of the elements. -/
theorem holds_filterAuxM {α : Type} {p : α → Except Failure Bool} {xs found : List α} (h : ∀ x ∈ xs, Late (p x)) :
    Ending.late.Holds (List.filterAuxM p xs found) fun ys => ∀ y ∈ ys, y ∈ xs ∨ y ∈ found := by
  induction xs generalizing found with
  | nil => exact Ending.late.pure fun y hy => .inr hy
  | cons x xs ih =>
    refine Ending.late.bind (Ending.late_of (h x List.mem_cons_self)) fun keep _ => ?_
    refine Ending.late.mono (ih fun y hy => h y (List.mem_cons_of_mem _ hy)) fun ys hys y hy => ?_
    rcases hys y hy with hy | hy
    · exact .inl (List.mem_cons_of_mem _ hy)
    · cases keep with
      | false => exact .inr hy
      | true =>
        rcases List.mem_cons.1 hy with rfl | hy
        · exact .inl List.mem_cons_self
        · exact .inr hy

/-- A group consists of rows of the source. -/
theorem IsLate.holds_group (h : v.IsLate) (names : List String) :
    Ending.late.Holds (v.group names) fun rows => ∀ row ∈ rows, row.IsLate := by
  have hown : Late (names.mapM (v.cell ·)) := Late.mapM fun name _ => h.cell name
  refine Ending.late.bind (Ending.late_of hown) fun own _ => ?_
  refine Ending.late.bind (holds_filterAuxM fun row hrow => ?_) fun rows hrows => Ending.late.pure fun row hrow => ?_
  · exact (h.keys names (h.source row hrow)).bind fun _ _ => Late.pure
  · rcases hrows row (List.mem_reverse.1 hrow) with hmem | hmem
    · exact h.source row hmem
    · simp at hmem

theorem IsLate.aggregate (h : v.IsLate) (f : Function) {operand : View → Cell.Outcome}
    (hoperand : ∀ u : View, u.IsLate → Late (operand u)) : Late (v.aggregate f operand) := by
  refine (Late.mapM fun row hrow => ?_).bind fun cells _ => Cell.late_aggregate f cells
  exact hoperand _ (h.on (h.members row hrow))

end View

/-! ## Terms -/

namespace Term

theorem late_head {outcomes : List Cell.Outcome} (h : ∀ o ∈ outcomes, Late o) :
    Late (outcomes.head?.getD (.ok .null)) := by
  cases outcomes with
  | nil => exact Late.ok
  | cons o more => exact h o List.mem_cons_self

mutual

theorem late_eval {v : View} (h : v.IsLate) (term : Term) : Late (term.eval v) := by
  cases term with
  | column name => exact h.cell name
  | literal value => exact Late.ok
  | convert how operand => exact (late_eval h operand).bind fun _ _ => Late.pure
  | compare how left right =>
    exact (late_eval h left).bind fun _ _ => (late_eval h right).bind fun _ _ => Late.pure
  | case conditions values otherwise =>
    exact Cell.late_choose (late_eval h otherwise) (late_evalAll h conditions) (late_evalAll h values)
  | call function args =>
    by_cases hsigned : function = .negate ∧ ∃ x, args = [.literal (.float x)]
    · obtain ⟨rfl, x, rfl⟩ := hsigned
      exact Late.ok
    · rw [eval]
      · split
        · exact h.aggregate function fun u hu => late_head (late_evalAll hu args)
        · exact (Late.mapM fun o ho => late_evalAll h args o ho).bind fun cells _ => Cell.late_apply function cells
      · rintro x rfl rfl
        exact hsigned ⟨rfl, x, rfl⟩
  | rowNumber order => exact h.position order
  | quantile operand level => exact Late.error rfl
  | broadcast aggregate => exact late_eval h.broadcast aggregate
  | overSource aggregate name =>
    have hinner := h.subquery h.source aggregate.isGroupLevel
    unfold eval
    split
    · exact Late.ok
    · exact (late_prepare hinner aggregate).bind fun _ _ => late_eval hinner aggregate
  | overGroup aggregate name keys =>
    obtain ⟨hgroup, hrows⟩ := h.holds_group keys
    unfold eval
    refine hgroup.bind fun rows hrun => ?_
    have hinner := h.subquery (hrows rows hrun) aggregate.isGroupLevel
    split
    · exact Late.pure
    · exact (late_prepare hinner aggregate).bind fun _ _ => late_eval hinner aggregate

theorem late_evalAll {v : View} (h : v.IsLate) (terms : List Term) : ∀ o ∈ evalAll v terms, Late o := by
  match terms with
  | [] => simp [evalAll]
  | term :: more =>
    intro o ho
    rcases List.mem_cons.1 ho with rfl | ho
    · exact late_eval h term
    · exact late_evalAll h more o ho

theorem late_prepare {v : View} (h : v.IsLate) (term : Term) : Late (term.prepare v) := by
  cases term with
  | convert how operand => exact late_prepare h operand
  | compare how left right => exact (late_prepare h left).bind fun _ _ => late_prepare h right
  | case conditions values otherwise =>
    refine (late_prepareAll h conditions).bind fun _ _ => ?_
    exact (late_prepareAll h values).bind fun _ _ => late_prepare h otherwise
  | call function args =>
    unfold prepare
    split
    · refine (h.aggregate function fun u hu => ?_).bind fun _ _ => Late.pure
      exact late_head (late_evalAll hu args)
    · exact late_prepareAll h args
  | rowNumber order => exact (h.position order).bind fun _ _ => Late.pure
  | broadcast aggregate => exact (late_eval h.broadcast aggregate).bind fun _ _ => Late.pure
  | _ => exact Late.ok

theorem late_prepareAll {v : View} (h : v.IsLate) (terms : List Term) : Late (prepareAll v terms) := by
  match terms with
  | [] => exact Late.ok
  | term :: more => exact (late_prepare h term).bind fun _ _ => late_prepareAll h more

end

end Term

end Tabular.Sql
