-- SUMMARY: Row-wise formulas may be evaluated before or after rows are selected.
import Tabular.Proofs.Memory.Reached

/-!
# Selecting rows

A row-wise formula is built from tokens and quoted texts with operations that read one row at a time, and with casts
to quoted types. Its columns are of two kinds: one that mentions a column of the frame has a cell for each row of the
frame, and one that does not has a single cell. Selecting rows of the frame selects the same rows of the first kind
and leaves the second as it is, and this is kept by every operation.
-/

namespace Tabular

/-! ## Row-wise formulas -/

/-- The operations that read one row at a time. A cast is one too, but its second operand is no column. -/
def Operation.rowWiseNames : List String :=
  ["add", "subtract", "multiply", "divide", "pow", "eq", "ne", "ge", "gt", "le", "lt", "and", "or", "not", "negate",
   "abs", "exp", "log", "sqrt", "if", "concat"]

inductive Expr.RowWise : Expr → Prop
  | quoted (content : String) : RowWise (.quoted content)
  | leaf (token : String) : RowWise (.leaf token)
  | binary (op : BinaryOp) {left right : Expr} (hleft : RowWise left) (hright : RowWise right) :
      RowWise (.binary op left right)
  | call {name : String} {args : List Expr} (hname : name ∈ Operation.rowWiseNames)
      (hargs : ∀ arg ∈ args, RowWise arg) : RowWise (.call name args)
  | cast {value : Expr} (hvalue : RowWise value) (target : String) : RowWise (.call "cast" [value, .quoted target])

/-- Whether a column is among the tokens of a tree. -/
def Expr.mentions (isColumn : String → Bool) (e : Expr) : Bool := e.tokens.any isColumn

theorem Expr.any_tokensOf (isColumn : String → Bool) (args : List Expr) :
    (tokensOf args).any isColumn = args.any (mentions isColumn) := by
  induction args with
  | nil => rfl
  | cons arg more ih => rw [tokensOf, List.any_append, ih, List.any_cons, mentions]

theorem Operation.operation_mem_rowWiseNames (op : BinaryOp) : op.operation ∈ rowWiseNames := by
  cases op <;> decide

theorem Operation.named?_rowWise : ∀ name ∈ rowWiseNames, SpecialForm.named? name = none := by
  decide

theorem Operation.scalar_rowWise : ∀ operation ∈ builtIn, operation.name ∈ rowWiseNames → operation.scalar = false := by
  decide

namespace Memory

theorem execute_rowWise {options : Options} {rows : Nat} {op : Resolved} {args : List Column}
    (hbuiltIn : op.operation ∈ Operation.builtIn) (hname : op.name ∈ Operation.rowWiseNames) :
    execute options rows op args = rowWise op args := by
  have hscalar : op.isScalar = false := Operation.scalar_rowWise _ hbuiltIn hname
  unfold execute
  split
  · rename_i heq
    exact absurd (heq ▸ hname) (by decide)
  · rename_i heq
    exact absurd (heq ▸ hname) (by decide)
  · rename_i heq
    exact absurd (heq ▸ hname) (by decide)
  · rename_i heq
    exact absurd (heq ▸ hname) (by decide)
  · rw [if_neg (by rw [hscalar]; exact Bool.false_ne_true)]

/-! ## Columns over selected rows -/

theorem Column.length_literal {v : Value} {c : Column} (h : literal v = .ok c) : c.length = 1 := by
  obtain ⟨data, hdata, h⟩ := bind_eq_ok.1 h
  obtain rfl := Except.ok.inj h
  exact (Series.scalar_ok (liftM_series_eq_ok.1 hdata)).2

/-- The column `d` over some of the `n` rows of a frame, beside the column `c` over all of them. -/
inductive Column.Selected (n : Nat) (rows : List Nat) : Bool → Column → Column → Prop
  /-- A cell for each row, of which some are selected. -/
  | spread {c d : Column} (hlength : c.length = n) (htake : c.take rows = .ok d) : Selected n rows true c d
  /-- One cell, which stands for every row. -/
  | single {c : Column} (hlength : c.length = 1) : Selected n rows false c c

variable {n : Nat} {rows : List Nat}

namespace Column.Selected

variable {spread : Bool} {c d : Column}

/-- Selecting rows changes nothing but the cells. -/
theorem cells (h : Selected n rows spread c d) : ∃ data, d = { c with data } := by
  cases h with
  | spread hlength htake =>
    obtain ⟨data, -, rfl⟩ := Frame.take_column_ok htake
    exact ⟨data, rfl⟩
  | single hlength => exact ⟨c.data, rfl⟩

theorem length_spread (h : Selected n rows true c d) : c.length = n ∧ d.length = rows.length := by
  cases h with
  | spread hlength htake =>
    obtain ⟨data, hdata, rfl⟩ := Frame.take_column_ok htake
    exact ⟨hlength, (Series.take_ok hdata).2⟩

theorem lengths (h : Selected n rows spread c d) :
    (c.length = n ∨ c.length = 1) ∧ (d.length = rows.length ∨ d.length = 1) := by
  cases spread with
  | true => exact ⟨.inl h.length_spread.1, .inl h.length_spread.2⟩
  | false =>
    cases h with
    | single hlength => exact ⟨.inr hlength, .inr hlength⟩

theorem dataType (h : Selected n rows spread c d) : d.dataType = c.dataType := by
  obtain ⟨data, rfl⟩ := h.cells
  rfl

theorem constant (h : Selected n rows spread c d) : d.constant = c.constant := by
  obtain ⟨data, rfl⟩ := h.cells
  rfl

theorem rename (h : Selected n rows spread c d) (name : String) :
    Selected n rows spread (c.rename name) (d.rename name) := by
  cases h with
  | spread hlength htake =>
    obtain ⟨data, hdata, rfl⟩ := Frame.take_column_ok htake
    exact .spread hlength (bind_eq_ok.2 ⟨data, liftM_series_eq_ok.2 hdata, rfl⟩)
  | single hlength => exact .single hlength

/-- The cell of a selected row is the one of the row that it was. -/
theorem cell (h : Selected n rows spread c d) {i row : Nat} (hi : rows[i]? = some row) (hrow : row < n) {v : Value}
    (hv : c.data.values.toArray[row % c.data.values.toArray.size]? = some v) :
    d.data.values.toArray[i % d.data.values.toArray.size]? = some v := by
  cases h with
  | spread hlength htake =>
    obtain ⟨data, hdata, rfl⟩ := Frame.take_column_ok htake
    obtain ⟨hlt, rfl⟩ := List.getElem?_eq_some_iff.1 hi
    have hcells := Series.values_take hdata
    have hsize : data.values.toArray.size = rows.length := hcells.length_eq.symm
    have hvalues : c.data.values.toArray.size = n := (Series.length_values c.data).trans hlength
    rw [hvalues, Nat.mod_eq_of_lt hrow, List.getElem?_toArray] at hv
    rw [hsize, Nat.mod_eq_of_lt hlt, List.getElem?_toArray, List.getElem?_eq_getElem (hcells.length_eq ▸ hlt)]
    exact (hcells.get hlt (hcells.length_eq ▸ hlt)).symm.trans hv
  | single hlength =>
    have hsize : c.data.values.toArray.size = 1 := (Series.length_values c.data).trans hlength
    rw [hsize, Nat.mod_one] at hv ⊢
    exact hv

end Column.Selected

/-! ## Operands -/

/-- The columns of operands over all rows and over the selected ones. -/
inductive SelectedAll (n : Nat) (rows : List Nat) (spread : Expr → Bool) :
    List Expr → List Column → List Column → Prop
  | nil : SelectedAll n rows spread [] [] []
  | cons {e : Expr} {es : List Expr} {c d : Column} {cs ds : List Column} (hd : c.Selected n rows (spread e) d)
      (hds : SelectedAll n rows spread es cs ds) : SelectedAll n rows spread (e :: es) (c :: cs) (d :: ds)

namespace SelectedAll

variable {spread : Expr → Bool} {es : List Expr} {cs ds : List Column}

theorem typed (h : SelectedAll n rows spread es cs ds) :
    ((es.zip ds).map fun (e, d) => (e, d.dataType)) = (es.zip cs).map fun (e, c) => (e, c.dataType) := by
  induction h with
  | nil => rfl
  | cons hd _ ih => simp only [List.zip_cons_cons, List.map_cons, ih, hd.dataType]

theorem columns (h : SelectedAll n rows spread es cs ds) :
    (es.zip cs).map (·.2) = cs ∧ (es.zip ds).map (·.2) = ds := by
  induction h with
  | nil => exact ⟨rfl, rfl⟩
  | cons _ _ ih => simp only [List.zip_cons_cons, List.map_cons, ih, and_self]

/-- Each operand has a cell for each row, or a single one. -/
theorem lengths (h : SelectedAll n rows spread es cs ds) :
    (∀ l ∈ cs.map Column.length, l = n ∨ l = 1) ∧ ∀ l ∈ ds.map Column.length, l = rows.length ∨ l = 1 := by
  induction h with
  | nil => simp
  | cons hd _ ih =>
    simp only [List.map_cons, List.forall_mem_cons]
    exact ⟨⟨hd.lengths.1, ih.1⟩, hd.lengths.2, ih.2⟩

theorem mem_lengths (h : SelectedAll n rows spread es cs ds) (hspread : es.any spread = true) :
    n ∈ cs.map Column.length ∧ rows.length ∈ ds.map Column.length := by
  induction h with
  | nil => simp at hspread
  | @cons e es c d cs ds hd _ ih =>
    rw [List.any_cons, Bool.or_eq_true] at hspread
    simp only [List.map_cons, List.mem_cons]
    rcases hspread with hfirst | hmore
    · rw [hfirst] at hd
      exact ⟨.inl hd.length_spread.1.symm, .inl hd.length_spread.2.symm⟩
    · exact ⟨.inr (ih hmore).1, .inr (ih hmore).2⟩

/-- Operands of one cell each stay as they are. -/
theorem eq_of_single (h : SelectedAll n rows spread es cs ds) (hspread : es.any spread = false) :
    ds = cs ∧ ∀ c ∈ cs, c.length = 1 := by
  induction h with
  | nil => exact ⟨rfl, by simp⟩
  | @cons e es c d cs ds hd _ ih =>
    rw [List.any_cons, Bool.or_eq_false_iff] at hspread
    obtain ⟨rfl, hlengths⟩ := ih hspread.2
    rw [hspread.1] at hd
    cases hd with
    | single hlength => exact ⟨rfl, List.forall_mem_cons.2 ⟨hlength, hlengths⟩⟩

end SelectedAll

/-! ## Operations -/

/-- Operands of one cell go with any number of rows. -/
theorem broadcastLength_eq {operation : String} {lengths : List Nat} (hall : ∀ l ∈ lengths, l = n ∨ l = 1)
    (hmem : n ∈ lengths ∨ n = 1) : broadcastLength operation lengths = .ok n := by
  have hrest : ∀ l ∈ lengths.filter (· ≠ 1), l = n := by
    intro l hl
    obtain ⟨hl, hne⟩ := List.mem_filter.1 hl
    exact (hall l hl).resolve_right (by simpa using hne)
  unfold broadcastLength
  cases hfilter : lengths.filter (· ≠ 1) with
  | nil =>
    have hone : n = 1 := by
      rcases hmem with hmem | hone
      · simpa using List.filter_eq_nil_iff.1 hfilter n hmem
      · exact hone
    rw [hone]
  | cons first more =>
    rw [hfilter, List.forall_mem_cons] at hrest
    obtain ⟨rfl, hmore⟩ := hrest
    have hfind : more.find? (· ≠ first) = none := by
      rw [List.find?_eq_none]
      intro l hl
      simp [hmore l hl]
    dsimp only
    rw [hfind]

theorem operandsAt_eq_ok {name : String} {args : List (Array Value)} {row : Nat} {vs : List Value} :
    operandsAt name args row = .ok vs ↔ List.Forall₂ (fun cells v => cells[row % cells.size]? = some v) args vs := by
  unfold operandsAt
  rw [mapM_eq_ok]
  refine iff_of_eq (congrArg (fun R => List.Forall₂ R args vs) ?_)
  funext cells v
  split
  · rename_i hsize
    rw [Array.getElem?_eq_getElem (Nat.mod_lt row hsize)]
    simp
  · rename_i hempty
    have hsize : cells.size = 0 := by omega
    rw [Array.getElem?_eq_none (by omega)]
    simp

section Operations

variable {spread : Expr → Bool} {es : List Expr} {cs ds : List Column}

/-- On a selected row a kernel gets the operands of the row that it was. -/
theorem SelectedAll.operandsAt (h : SelectedAll n rows spread es cs ds) {i row : Nat} (hi : rows[i]? = some row)
    (hrow : row < n) {name : String} {operands : List Value}
    (hoperands : operandsAt name (cs.map (·.data.values.toArray)) row = .ok operands) :
    Memory.operandsAt name (ds.map (·.data.values.toArray)) i = .ok operands := by
  rw [operandsAt_eq_ok] at hoperands ⊢
  induction h generalizing operands with
  | nil =>
    cases hoperands with
    | nil => exact .nil
  | cons hd _ ih =>
    rw [List.map_cons] at hoperands ⊢
    cases hoperands with
    | cons hfirst hmore => exact .cons (hd.cell hi hrow hfirst) (ih hmore)

theorem SelectedAll.cellAt (h : SelectedAll n rows spread es cs ds) {i row : Nat} (hi : rows[i]? = some row)
    (hrow : row < n) {name : String} {kernel : Kernel} {v : Value}
    (hv : cellAt name kernel (cs.map (·.data.values.toArray)) row = .ok v) :
    Memory.cellAt name kernel (ds.map (·.data.values.toArray)) i = .ok v := by
  obtain ⟨operands, hoperands, hv⟩ := bind_eq_ok.1 hv
  refine bind_eq_ok.2 ⟨operands, h.operandsAt hi hrow hoperands, ?_⟩
  cases hresult : kernel operands with
  | ok w => simpa [hresult, Except.mapError] using hv
  | error fault => simp [hresult, Except.mapError] at hv

theorem forall₂_positions (rows : List Nat) :
    List.Forall₂ (fun row i => rows[i]? = some row) rows (List.range rows.length) := by
  refine List.forall₂_iff_get.2 ⟨List.length_range.symm, fun i hi hi' => ?_⟩
  simp

/-- Running a kernel on the selected rows selects these rows of what it gives on all of them. -/
theorem rowWise_selected {op : Resolved} (hrows : ∀ row ∈ rows, row < n) (h : SelectedAll n rows spread es cs ds)
    {c : Column} (hc : rowWise op cs = .ok c) :
    ∃ d, rowWise op ds = .ok d ∧ c.Selected n rows (es.any spread) d := by
  have hrun := hc
  unfold rowWise at hc
  split at hc
  · simp [throw, throwThe, MonadExceptOf.throw] at hc
  rename_i kernel hkernel
  obtain ⟨length, hlength, hc⟩ := bind_eq_ok.1 hc
  obtain ⟨data, hdata, hc⟩ := bind_eq_ok.1 hc
  obtain rfl := Except.ok.inj hc
  have hcollected := (Series.collect_ok (fun _ => liftM_series_eq_ok.1) hdata).2
  rw [List.length_range] at hcollected
  cases hspread : es.any spread with
  | false =>
    obtain ⟨rfl, hsingle⟩ := h.eq_of_single hspread
    have hone : broadcastLength op.name (ds.map (·.length)) = .ok 1 :=
      broadcastLength_eq (fun l hl => by
        obtain ⟨d, hd, rfl⟩ := List.mem_map.1 hl
        exact .inl (hsingle d hd)) (.inr rfl)
    obtain rfl := Except.ok.inj (hone.symm.trans hlength)
    exact ⟨_, hrun, .single hcollected⟩
  | true =>
    obtain ⟨hcs, hds⟩ := h.mem_lengths hspread
    obtain rfl := Except.ok.inj ((broadcastLength_eq h.lengths.1 (.inl hcs)).symm.trans hlength)
    -- The cell of a selected row is computed from the operands of the row that it was.
    have hpicked := (forall₂_positions rows).imp fun row i hi => by
      have hrow := hrows row (List.mem_of_getElem? hi)
      exact (⟨row, List.getElem?_range hrow, fun v hv => h.cellAt hi hrow hv⟩ :
        ∃ x, (List.range n)[row]? = some x ∧ ∀ v, cellAt op.name kernel (cs.map (·.data.values.toArray)) x = .ok v →
          cellAt op.name kernel (ds.map (·.data.values.toArray)) i = .ok v)
    obtain ⟨taken, htake, hcollect⟩ := Series.take_collect hdata hpicked
    refine ⟨Column.ofSeries op.name taken, ?_, .spread hcollected ?_⟩
    · unfold rowWise
      rw [hkernel]
      exact bind_eq_ok.2 ⟨_, broadcastLength_eq h.lengths.2 (.inl hds), bind_eq_ok.2 ⟨taken, hcollect, rfl⟩⟩
    · refine bind_eq_ok.2 ⟨taken, liftM_series_eq_ok.2 htake, congrArg Except.ok ?_⟩
      simp [Column.ofSeries, (Series.take_ok htake).1]

/-- Casting the selected rows selects these rows of what is cast. -/
theorem cast_selected {options : Options} {value target : Expr}
    (h : SelectedAll n rows spread [value, target] cs ds) {c : Column} (hc : cast options cs = .ok c) :
    ∃ d, cast options ds = .ok d ∧ c.Selected n rows (spread value) d := by
  obtain _ | ⟨hvalue, _ | ⟨hparameter, _ | _⟩⟩ := h
  rename_i c₁ d₁ c₂ d₂
  obtain ⟨type, htype, hc⟩ := bind_eq_ok.1 hc
  obtain ⟨data, hdata, hc⟩ := bind_eq_ok.1 hc
  obtain rfl := Except.ok.inj hc
  have hdata := liftM_series_eq_ok.1 hdata
  rw [← hparameter.constant] at htype
  generalize spread value = flag at hvalue
  cases hvalue with
  | single hlength =>
    exact ⟨_, bind_eq_ok.2 ⟨type, htype, bind_eq_ok.2 ⟨data, liftM_series_eq_ok.2 hdata, rfl⟩⟩,
      .single ((Series.length_cast hdata).trans hlength)⟩
  | spread hlength htake =>
    obtain ⟨taken, htaken, rfl⟩ := Frame.take_column_ok htake
    obtain ⟨result, hresult, hcast⟩ := Series.take_cast hdata htaken
    refine ⟨_, bind_eq_ok.2 ⟨type, htype, bind_eq_ok.2 ⟨result, liftM_series_eq_ok.2 hcast, rfl⟩⟩,
      .spread ((Series.length_cast hdata).trans hlength) ?_⟩
    refine bind_eq_ok.2 ⟨result, liftM_series_eq_ok.2 hresult, congrArg Except.ok ?_⟩
    simp [Column.ofSeries, (Series.take_ok hresult).1]

/-! ## Formulas -/

variable {f g : Frame}

/-- Quoted dates that are taken as texts have one cell, like all quoted texts. -/
theorem reread_selected (hspread : ∀ content, spread (.quoted content) = false)
    (h : SelectedAll n rows spread es cs ds) {columns : List Column}
    (hcolumns : Frame.backend.reread f (es.zip cs) = .ok columns) :
    ∃ picked, Frame.backend.reread g (es.zip ds) = .ok picked ∧ SelectedAll n rows spread es columns picked := by
  rw [Backend.reread_eq] at hcolumns ⊢
  induction h generalizing columns with
  | nil =>
    obtain rfl := Except.ok.inj hcolumns
    exact ⟨[], rfl, .nil⟩
  | @cons e es c d cs ds hd _ ih =>
    rw [List.zip_cons_cons, List.mapM_cons] at hcolumns ⊢
    obtain ⟨column, hcolumn, hcolumns⟩ := bind_eq_ok.1 hcolumns
    obtain ⟨more, hmore, hcolumns⟩ := bind_eq_ok.1 hcolumns
    obtain rfl := Except.ok.inj hcolumns
    obtain ⟨picked, hpicked, hall⟩ := ih hmore
    have hone : ∃ x, Frame.backend.rereadOne g (e, d) = .ok x ∧ column.Selected n rows (spread e) x := by
      rcases Resolved.quotedDate_cases e c.dataType with ⟨content, rfl, htype⟩ | hnot
      · rw [Backend.rereadOne_quoted htype] at hcolumn
        rw [Backend.rereadOne_quoted (hd.dataType.trans htype), hspread]
        exact ⟨column, hcolumn, .single (Column.length_literal hcolumn)⟩
      · rw [Backend.rereadOne_of_not hnot] at hcolumn
        obtain rfl := Except.ok.inj hcolumn
        have hnot : Resolved.isQuotedDate e d.dataType = false := by rw [hd.dataType, hnot]
        exact ⟨d, Backend.rereadOne_of_not hnot, hd⟩
    obtain ⟨x, hx, hselected⟩ := hone
    exact ⟨x :: picked, by rw [hx, hpicked]; rfl, .cons hselected hall⟩

/-- An operation of the evaluator selects rows if the operation that is carried out does. -/
theorem apply_selected (hspread : ∀ content, spread (.quoted content) = false)
    (h : SelectedAll n rows spread es cs ds) (hoptions : g.options = f.options) {name : String}
    (hexecute : ∀ {op : Resolved} {cs ds : List Column} {c : Column}, op.operation ∈ Operation.builtIn →
      op.name = name → SelectedAll n rows spread es cs ds → execute f.options f.rows op cs = .ok c →
      ∃ d, execute f.options g.rows op ds = .ok d ∧ c.Selected n rows (es.any spread) d)
    {scope : Scope} {e : Expr} {c : Column} (hc : Frame.backend.apply f scope e name (es.zip cs) = .ok c) :
    ∃ d, Frame.backend.apply g scope e name (es.zip ds) = .ok d ∧ c.Selected n rows (es.any spread) d := by
  obtain ⟨op, asText, columns, made, hop, hcolumns, hmade, rfl⟩ := Frame.apply_eq_ok.1 hc
  have hpicked : ∃ picked, (if asText then Frame.backend.reread g (es.zip ds) else pure ((es.zip ds).map (·.2))) =
      .ok picked ∧ SelectedAll n rows spread es columns picked := by
    cases asText with
    | true => exact reread_selected hspread h hcolumns
    | false =>
      obtain rfl := Except.ok.inj hcolumns
      rw [h.columns.1]
      exact ⟨ds, congrArg Except.ok h.columns.2, h⟩
  obtain ⟨picked, hreread, hall⟩ := hpicked
  obtain ⟨hname, happlies⟩ := Resolved.ofOperands_ok hop
  obtain ⟨d, hd, hselected⟩ := hexecute happlies.builtIn hname hall hmade
  rw [← hoptions] at hd
  rw [← h.typed] at hop
  exact ⟨d.rename e.text, Frame.apply_eq_ok.2 ⟨op, asText, picked, d, hop, hreread, hd, rfl⟩, hselected.rename e.text⟩

end Operations

section Trees

variable {f g : Frame} {rows : List Nat}

/-- Whether a name is that of a column. -/
def Frame.hasColumn (f : Frame) (name : String) : Bool := (f.column? name).isSome

/-- A token that is a column is spread over the rows, and a constant is not. -/
theorem token_selected (hf : f.Valid) (hg : f.take rows = .ok g) {name : String} {c : Column}
    (hc : Frame.backend.token f name = .ok c) :
    ∃ d, Frame.backend.token g name = .ok d ∧ c.Selected f.rows rows (f.hasColumn name) d := by
  have hoptions : g.options = f.options := (Frame.schema_take hg).2
  have hrel := Frame.column?_take hg name
  unfold Backend.token at hc ⊢
  simp only [Frame.backend, Frame.hasColumn, hoptions] at hc ⊢
  cases hcolumn : f.column? name with
  | some column =>
    rw [hcolumn] at hc hrel
    obtain rfl := Except.ok.inj hc
    generalize hd : g.column? name = picked at hrel
    cases hrel with
    | some htake => exact ⟨_, rfl, .spread (hf.lengths _ (hf.mem_of_column? hcolumn).1) htake⟩
  | none =>
    rw [hcolumn] at hc hrel
    generalize hd : g.column? name = picked at hrel
    cases hrel with
    | none =>
      dsimp only at hc ⊢
      split at hc
      · exact ⟨c, hc, .single (Column.length_literal hc)⟩
      · simp [Backend.fail] at hc

/-- Over selected rows a tree gives the column over all rows, at these rows, whatever the whole frame is. -/
def Selects (f g : Frame) (rows : List Nat) (e : Expr) : Prop :=
  ∀ ⦃scope : Scope⦄ ⦃w : Frame⦄ ⦃o : Outcome Frame Column⦄, Frame.backend.eval e scope f w = .ok o →
    ∃ c d, o = .column c ∧ (∀ w', Frame.backend.eval e scope g w' = .ok (.column d)) ∧
      c.Selected f.rows rows (e.mentions f.hasColumn) d

theorem evalColumns_selected {args : List Expr} (hargs : ∀ arg ∈ args, Selects f g rows arg) {scope : Scope}
    {w : Frame} {cs : List Column} (hcs : Frame.backend.evalColumns args scope f w = .ok cs) :
    ∃ ds, (∀ w', Frame.backend.evalColumns args scope g w' = .ok ds) ∧
      SelectedAll f.rows rows (Expr.mentions f.hasColumn) args cs ds := by
  induction args generalizing cs with
  | nil =>
    rw [Backend.evalColumns] at hcs
    obtain rfl := Except.ok.inj hcs
    exact ⟨[], fun w' => by rw [Backend.evalColumns]; rfl, .nil⟩
  | cons arg more ih =>
    rw [Backend.evalColumns] at hcs
    obtain ⟨o, ho, hcs⟩ := bind_eq_ok.1 hcs
    obtain ⟨c, d, rfl, hd, hselected⟩ := hargs arg List.mem_cons_self ho
    obtain ⟨_, hc, hcs⟩ := bind_eq_ok.1 hcs
    obtain rfl := Except.ok.inj hc
    obtain ⟨rest, hrest, hcs⟩ := bind_eq_ok.1 hcs
    obtain rfl := Except.ok.inj hcs
    obtain ⟨ds, hds, hall⟩ := ih (fun arg harg => hargs arg (List.mem_cons_of_mem _ harg)) hrest
    refine ⟨d :: ds, fun w' => ?_, .cons hselected hall⟩
    rw [Backend.evalColumns]
    exact bind_eq_ok.2 ⟨_, hd w', bind_eq_ok.2 ⟨d, rfl, bind_eq_ok.2 ⟨ds, hds w', rfl⟩⟩⟩

theorem selects_quoted (hg : f.take rows = .ok g) (content : String) : Selects f g rows (.quoted content) := by
  intro scope w o ho
  rw [Backend.eval] at ho
  obtain ⟨c, hc, ho⟩ := bind_eq_ok.1 ho
  obtain rfl := Except.ok.inj ho
  have hoptions : g.options = f.options := (Frame.schema_take hg).2
  refine ⟨c, c, rfl, fun w' => ?_, .single (Column.length_literal hc)⟩
  rw [Backend.eval]
  refine bind_eq_ok.2 ⟨c, ?_, rfl⟩
  simpa only [Frame.backend, hoptions] using hc

theorem selects_leaf (hf : f.Valid) (hg : f.take rows = .ok g) (name : String) : Selects f g rows (.leaf name) := by
  intro scope w o ho
  rw [Backend.eval] at ho
  obtain ⟨c, hc, ho⟩ := bind_eq_ok.1 ho
  obtain rfl := Except.ok.inj ho
  obtain ⟨d, hd, hselected⟩ := token_selected hf hg hc
  refine ⟨c, d, rfl, fun w' => ?_, ?_⟩
  · rw [Backend.eval]
    exact bind_eq_ok.2 ⟨d, hd, rfl⟩
  · simpa [Expr.mentions, Expr.tokens] using hselected

/-- The operation of a row-wise call or of an operator, over operands that select rows. -/
theorem operation_selected (hg : f.take rows = .ok g) (hrows : ∀ row ∈ rows, row < f.rows) {name : String}
    (hname : name ∈ Operation.rowWiseNames) {args : List Expr} {cs ds : List Column}
    (h : SelectedAll f.rows rows (Expr.mentions f.hasColumn) args cs ds) {scope : Scope} {e : Expr} {c : Column}
    (hc : Frame.backend.apply f scope e name (args.zip cs) = .ok c) :
    ∃ d, Frame.backend.apply g scope e name (args.zip ds) = .ok d ∧
      c.Selected f.rows rows (args.any (Expr.mentions f.hasColumn)) d := by
  refine apply_selected (fun _ => rfl) h (Frame.schema_take hg).2 ?_ hc
  intro op cs ds c hbuiltIn hop hall hexecute
  rw [execute_rowWise hbuiltIn (hop ▸ hname)] at hexecute ⊢
  exact rowWise_selected hrows hall hexecute

theorem selects_binary (hg : f.take rows = .ok g) (hrows : ∀ row ∈ rows, row < f.rows) {op : BinaryOp}
    {left right : Expr} (hleft : Selects f g rows left) (hright : Selects f g rows right) :
    Selects f g rows (.binary op left right) := by
  intro scope w o ho
  rw [Backend.eval] at ho
  obtain ⟨lo, hlo, ho⟩ := bind_eq_ok.1 ho
  obtain ⟨l, l', rfl, hl', hlselected⟩ := hleft hlo
  obtain ⟨_, hl, ho⟩ := bind_eq_ok.1 ho
  obtain rfl := Except.ok.inj hl
  obtain ⟨ro, hro, ho⟩ := bind_eq_ok.1 ho
  obtain ⟨r, r', rfl, hr', hrselected⟩ := hright hro
  obtain ⟨_, hr, ho⟩ := bind_eq_ok.1 ho
  obtain rfl := Except.ok.inj hr
  obtain ⟨c, hc, ho⟩ := bind_eq_ok.1 ho
  obtain rfl := Except.ok.inj ho
  have hname := Operation.operation_mem_rowWiseNames op
  obtain ⟨d, hd, hselected⟩ := operation_selected hg hrows hname (.cons hlselected (.cons hrselected .nil)) hc
  refine ⟨c, d, rfl, fun w' => ?_, ?_⟩
  · rw [Backend.eval]
    refine bind_eq_ok.2 ⟨_, hl' w', bind_eq_ok.2 ⟨l', rfl, ?_⟩⟩
    exact bind_eq_ok.2 ⟨_, hr' w', bind_eq_ok.2 ⟨r', rfl, bind_eq_ok.2 ⟨d, hd, rfl⟩⟩⟩
  · simpa [Expr.mentions, Expr.tokens] using hselected

/-- A call of an operation selects rows if what it applies does. -/
theorem selects_call {name : String} (hform : SpecialForm.named? name = none) {args : List Expr}
    (hargs : ∀ arg ∈ args, Selects f g rows arg)
    (happly : ∀ {cs ds : List Column} {scope : Scope} {e : Expr} {c : Column},
      SelectedAll f.rows rows (Expr.mentions f.hasColumn) args cs ds →
      Frame.backend.apply f scope e name (args.zip cs) = .ok c →
      ∃ d, Frame.backend.apply g scope e name (args.zip ds) = .ok d ∧
        c.Selected f.rows rows (args.any (Expr.mentions f.hasColumn)) d) :
    Selects f g rows (.call name args) := by
  intro scope w o ho
  unfold Backend.eval at ho
  rw [hform] at ho
  dsimp only at ho
  obtain ⟨cs, hcs, ho⟩ := bind_eq_ok.1 ho
  obtain ⟨c, hc, ho⟩ := bind_eq_ok.1 ho
  obtain rfl := Except.ok.inj ho
  obtain ⟨ds, hds, hall⟩ := evalColumns_selected hargs hcs
  obtain ⟨d, hd, hselected⟩ := happly hall hc
  refine ⟨c, d, rfl, fun w' => ?_, ?_⟩
  · unfold Backend.eval
    rw [hform]
    exact bind_eq_ok.2 ⟨ds, hds w', bind_eq_ok.2 ⟨d, hd, rfl⟩⟩
  · rwa [← Expr.any_tokensOf] at hselected

theorem selects_cast (hg : f.take rows = .ok g) {value : Expr} (hvalue : Selects f g rows value) (target : String) :
    Selects f g rows (.call "cast" [value, .quoted target]) := by
  refine selects_call rfl ?_ fun h hc => apply_selected (fun _ => rfl) h (Frame.schema_take hg).2 ?_ hc
  · intro arg harg
    rcases List.mem_pair.1 harg with rfl | rfl
    · exact hvalue
    · exact selects_quoted hg target
  · intro op cs ds c _ hop hall hexecute
    have hcast : ∀ rows args, execute f.options rows op args = cast f.options args := by
      intro rows args
      simp only [execute, hop]
    rw [hcast] at hexecute ⊢
    simpa [Expr.mentions, Expr.tokens] using cast_selected hall hexecute

end Trees

/-- Over selected rows a row-wise formula gives the column over all rows, at these rows. -/
theorem selects_rowWise {f g : Frame} (hf : f.Valid) {rows : List Nat} (hrows : ∀ row ∈ rows, row < f.rows)
    (hg : f.take rows = .ok g) {e : Expr} (he : e.RowWise) : Selects f g rows e := by
  induction he with
  | quoted content => exact selects_quoted hg content
  | leaf token => exact selects_leaf hf hg token
  | binary op _ _ hleft hright => exact selects_binary hg hrows hleft hright
  | call hname _ hargs =>
    exact selects_call (Operation.named?_rowWise _ hname) hargs fun h hc => operation_selected hg hrows hname h hc
  | cast _ target hvalue => exact selects_cast hg hvalue target

/-- A row-wise formula that mentions a column has a cell for each row of the frame. Over any rows of the frame, in any
    order and however often, it gives the same column at these rows. -/
theorem eval_take {f : Frame} (hf : f.Reached) {rows : List Nat} (hrows : ∀ row ∈ rows, row < f.rows) {e : Expr}
    (he : e.RowWise) (hcolumn : ∃ token ∈ e.tokens, f.hasColumn token = true) {scope : Scope} {w : Frame} {c : Column}
    (hc : Frame.backend.eval e scope f w = .ok (.column c)) :
    ∃ g data, f.take rows = .ok g ∧ c.length = f.rows ∧ c.data.take rows = .ok data ∧
      ∀ w', Frame.backend.eval e scope g w' = .ok (.column { c with data }) := by
  obtain ⟨g, hg⟩ := hf.valid.exists_take hrows
  have hmentions : e.mentions f.hasColumn = true := List.any_eq_true.2 hcolumn
  obtain ⟨_, d, heq, hd, hselected⟩ := selects_rowWise hf.valid hrows hg he hc
  obtain rfl := Outcome.column.inj heq
  rw [hmentions] at hselected
  cases hselected with
  | spread hlength htake =>
    obtain ⟨data, hdata, rfl⟩ := Frame.take_column_ok htake
    exact ⟨g, data, hg, hlength, hdata, hd⟩

/-- A choice by row over two rows, of which the second, the first and the second again are selected. -/
theorem eval_take_choice :
    let f := (Frame.empty .default).run [(.append (.ofSeries "n" (.integers [4, 2])), false)]
    let e := Expr.call "if" [.binary .gt (.leaf "n") (.leaf "2"), .binary .multiply (.leaf "n") (.leaf "10"),
      .call "cast" [.quoted "7", .quoted "integer"]]
    ∃ c g, Frame.backend.eval e .rows f f = .ok (.column c) ∧ f.take [1, 0, 1] = .ok g ∧ c.length = f.rows ∧
      c.data.take [1, 0, 1] = .ok (.integers [7, 40, 7]) ∧
      Frame.backend.eval e .rows g g = .ok (.column { c with data := .integers [7, 40, 7] }) := by
  intro f e
  have hf : f.Reached := (Frame.Reached.empty .default).run fun c returned hc => by
    obtain ⟨rfl, -⟩ : c = .ofSeries "n" (.integers [4, 2]) ∧ returned = false := by simpa using hc
    exact .ofSeries ..
  have he : e.RowWise := by
    refine .call (by decide) fun arg harg => ?_
    rcases List.mem_cons.1 harg with rfl | harg
    · exact .binary _ (.leaf _) (.leaf _)
    rcases List.mem_pair.1 harg with rfl | rfl
    · exact .binary _ (.leaf _) (.leaf _)
    · exact .cast (.quoted _) _
  have hc : Frame.backend.eval e .rows f f = .ok (.column (.ofSeries e.text (.integers [40, 7]))) := rfl
  have hrows : ∀ row ∈ [1, 0, 1], row < f.rows := by decide
  obtain ⟨g, data, hg, hlength, hdata, heval⟩ := eval_take hf hrows he ⟨"n", by decide, by decide⟩ hc
  obtain rfl : .integers [7, 40, 7] = data := Except.ok.inj hdata
  exact ⟨_, g, hc, hg, hlength, hdata, heval g⟩

end Memory

end Tabular
