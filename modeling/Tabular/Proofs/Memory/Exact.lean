-- SUMMARY: Formulas of integers are computed exactly, and overflow exactly where an exact value does not fit 64 bits.
import Tabular.Proofs.Memory.Selection

/-!
# Exact integers

A formula of integers is built from columns of integers or categories and from integer constants with `+`, `-`, `*`
and `abs`. Its exact value on a row is computed with integers of any size, where a constant has its value on every row.
A part of the formula has a cell for each row of the frame if it names a column, and otherwise a single one, also over
a frame without rows. The formula is computed if the exact values of all its parts, each on all rows of its own, fit 64
bits, and its cells are then its exact values. If one does not fit, the formula fails with an overflow, even if its own
value would fit again.
-/

namespace Tabular

/-! ## Integers that fit -/

namespace Decimal

theorem fitsInt64_toInt (v : Int64) : fitsInt64 v.toInt = true := by
  have hlow := Int64.le_toInt v
  have hhigh := Int64.toInt_lt v
  simp only [fitsInt64, Bool.and_eq_true, decide_eq_true_eq]
  omega

theorem toInt64?_eq_some_iff {n : Int} {v : Int64} : toInt64? n = some v ↔ v.toInt = n := by
  unfold toInt64?
  constructor
  · intro h
    split at h
    · rename_i hfits
      obtain rfl := Option.some.inj h
      simp only [fitsInt64, Bool.and_eq_true, decide_eq_true_eq] at hfits
      exact Int64.toInt_ofInt_of_le (by omega) (by omega)
    · cases h
  · rintro rfl
    rw [if_pos (fitsInt64_toInt v), Int64.ofInt_toInt]

theorem toInt64?_eq_none_iff {n : Int} : toInt64? n = none ↔ fitsInt64 n = false := by
  unfold toInt64?
  split <;> simp_all

end Decimal

/-! ## Formulas of integers -/

/-- What an operator does to integers of any size. -/
def BinaryOp.unbounded? : BinaryOp → Option (Int → Int → Int)
  | .add => some (· + ·)
  | .subtract => some (· - ·)
  | .multiply => some (· * ·)
  | _ => none

/-- What a call of one operand does to integers of any size. -/
def Operation.unbounded? (name : String) : Option (Int → Int) :=
  match name with
  | "negate" => some (- ·)
  | "abs" => some fun n => n.natAbs
  | _ => none

mutual

/-- The tree and all trees inside it. -/
def Expr.parts : Expr → List Expr
  | .binary op left right => .binary op left right :: (left.parts ++ right.parts)
  | .call name args => .call name args :: Expr.partsOf args
  | .assign name value => .assign name value :: value.parts
  | e => [e]

def Expr.partsOf : List Expr → List Expr
  | [] => []
  | arg :: more => arg.parts ++ Expr.partsOf more

end

theorem Expr.mem_partsOf {part : Expr} {args : List Expr} : part ∈ partsOf args ↔ ∃ arg ∈ args, part ∈ arg.parts := by
  induction args with
  | nil => simp [partsOf]
  | cons arg more ih => rw [partsOf, List.mem_append, ih, List.exists_mem_cons_iff]

namespace Memory

namespace Frame

/-- The formulas of integers over a frame. -/
inductive Integral (f : Frame) : Expr → Prop
  | column {token : String} {c : Column} (hc : f.column? token = some c)
      (htype : c.dataType = .integer ∨ c.dataType = .categorical) : Integral f (.leaf token)
  | constant {token : String} {n : Int} (hcolumn : f.column? token = none)
      (hdate : Date.ofPatterns? f.options.datePatterns token = none) (hn : Decimal.wholeNumber? token.toList = some n)
      (hfits : Decimal.fitsInt64 n = true) : Integral f (.leaf token)
  | binary {op : BinaryOp} {compute : Int → Int → Int} {left right : Expr} (hop : op.unbounded? = some compute)
      (hleft : Integral f left) (hright : Integral f right) : Integral f (.binary op left right)
  | unary {name : String} {compute : Int → Int} {e : Expr} (hname : Operation.unbounded? name = some compute)
      (he : Integral f e) : Integral f (.call name [e])

/-- The exact value of a token on a row. -/
def exactToken (f : Frame) (token : String) (row : Nat) : Int :=
  match f.column? token with
  | some c => ((c.data.cell? row).bind Value.integer?).elim 0 Int64.toInt
  | none => (Decimal.wholeNumber? token.toList).getD 0

/-- The exact value of a formula on a row. -/
def exact (f : Frame) : Expr → Nat → Int
  | .leaf token, row => f.exactToken token row
  | .binary op left right, row =>
    (op.unbounded?.map fun compute => compute (f.exact left row) (f.exact right row)).getD 0
  | .call name [e], row => ((Operation.unbounded? name).map fun compute => compute (f.exact e row)).getD 0
  | _, _ => 0

/-- The number of cells of a formula: one for each row if it names a column, and otherwise one. -/
def extent (f : Frame) (e : Expr) : Nat := if e.mentions f.hasColumn then f.rows else 1

/-- Whether the exact values of all parts fit on all their rows. -/
def Fits (f : Frame) (e : Expr) : Prop :=
  ∀ part ∈ e.parts, ∀ row < f.extent part, Decimal.fitsInt64 (f.exact part row) = true

end Frame

/-! ## Columns of exact cells -/

/-- A column of integers or categories with the exact values of its rows. -/
structure Column.Exact (c : Column) (length : Nat) (value : Nat → Int) : Prop where
  type : c.dataType = .integer ∨ c.dataType = .categorical
  cells : ∃ ns, c.data = .integers ns ∧ ns.map Int64.toInt = (List.range length).map value

namespace Column.Exact

variable {c : Column} {length : Nat} {value : Nat → Int}

theorem length_eq (h : c.Exact length value) : c.length = length := by
  obtain ⟨ns, hdata, hcells⟩ := h.cells
  have hlength := congrArg List.length hcells
  rw [List.length_map, List.length_map, List.length_range] at hlength
  rw [Column.length, hdata]
  exact hlength

theorem exists_cell (h : c.Exact length value) {row : Nat} (hrow : row < length) :
    ∃ n : Int64, c.data.values[row]? = some (.integer n) ∧ n.toInt = value row := by
  obtain ⟨ns, hdata, hcells⟩ := h.cells
  have hcell : (ns.map Int64.toInt)[row]? = some (value row) := by
    rw [hcells, List.getElem?_map, List.getElem?_range hrow, Option.map_some]
  rw [List.getElem?_map] at hcell
  obtain ⟨n, hn, hvalue⟩ := Option.map_eq_some_iff.1 hcell
  refine ⟨n, ?_, hvalue⟩
  rw [hdata, Series.values, List.getElem?_map, hn, Option.map_some]

theorem fits (h : c.Exact length value) : ∀ row < length, Decimal.fitsInt64 (value row) = true := by
  intro row hrow
  obtain ⟨n, -, hn⟩ := h.exists_cell hrow
  exact hn ▸ Decimal.fitsInt64_toInt n

/-- The cell that a row of a longer run repeats. -/
theorem cyclic (h : c.Exact length value) (hpos : 0 < length) (row : Nat) :
    ∃ n : Int64, c.data.values.toArray[row % c.data.values.toArray.size]? = some (.integer n) ∧
      n.toInt = value (row % length) := by
  have hsize : c.data.values.toArray.size = length := (Series.length_values c.data).trans h.length_eq
  rw [hsize, List.getElem?_toArray]
  exact h.exists_cell (Nat.mod_lt row hpos)

end Column.Exact

/-! ## Exact operations -/

/-- An integer is stored exactly, or it overflows. -/
theorem Kernel.exactly_cases (n : Int) :
    (∃ v : Int64, Kernel.exactly n = .ok (.integer v) ∧ v.toInt = n) ∨
      Decimal.fitsInt64 n = false ∧ Kernel.exactly n = .error .overflow := by
  unfold Kernel.exactly
  cases h : Decimal.toInt64? n with
  | some v => exact .inl ⟨v, rfl, Decimal.toInt64?_eq_some_iff.1 h⟩
  | none => exact .inr ⟨Decimal.toInt64?_eq_none_iff.1 h, rfl⟩

/-- Exact integers are collected, or one that does not fit overflows. -/
theorem collect_exactly {name : String} {value : Nat → Int} {rows : Nat} {compute : Nat → Except Failure Value}
    (h : ∀ row < rows,
      compute row = (Kernel.exactly (value row)).mapError fun fault => .execution name (.atRow row fault)) :
    (∃ ns, Series.collect .integer compute (List.range rows) = .ok (.integers ns) ∧
      ns.map Int64.toInt = (List.range rows).map value) ∨
    ∃ row < rows, Decimal.fitsInt64 (value row) = false ∧
      Series.collect .integer compute (List.range rows) = .error (.execution name (.atRow row .overflow)) := by
  let cell (row : Nat) : Except Failure Int64 := do liftM (Series.integerCell (← compute row))
  have hcollect : Series.collect .integer compute (List.range rows) =
      (do return .integers (← (List.range rows).mapM cell)) := rfl
  have hcell : ∀ row < rows, (∃ v : Int64, cell row = .ok v ∧ v.toInt = value row) ∨
      Decimal.fitsInt64 (value row) = false ∧ cell row = .error (.execution name (.atRow row .overflow)) := by
    intro row hrow
    simp only [cell, h row hrow]
    rcases Kernel.exactly_cases (value row) with ⟨v, hv, hvalue⟩ | ⟨hfits, hv⟩
    · exact .inl ⟨v, by rw [hv]; rfl, hvalue⟩
    · exact .inr ⟨hfits, by rw [hv]; rfl⟩
  rcases mapM_cases cell (List.range rows) with ⟨ns, hns⟩ | ⟨row, hrow, e, hfail, he⟩
  · refine .inl ⟨ns, by rw [hcollect, hns]; rfl, ?_⟩
    refine map_of_mapM hns fun row hrow n hn => ?_
    obtain ⟨v, hv, hvalue⟩ | ⟨-, hv⟩ := hcell row (List.mem_range.1 hrow)
    · exact Except.ok.inj (hv.symm.trans hn) ▸ hvalue
    · exact absurd (hv.symm.trans hn) (by simp)
  · have hrow := List.mem_range.1 hrow
    obtain ⟨v, hv, -⟩ | ⟨hfits, hv⟩ := hcell row hrow
    · exact absurd (hfail.symm.trans hv) (by simp)
    · obtain rfl := Except.error.inj (hfail.symm.trans hv)
      exact .inr ⟨row, hrow, hfits, by rw [hcollect, he]; rfl⟩

/-- An operation that computes an exact integer of so many integers. -/
structure ComputesExactly (name : String) (arity : Nat) (compute : List Int → Int) : Prop where
  rowWise : name ∈ Operation.rowWiseNames
  resolves : ∀ types : List DataType, types.length = arity → (∀ type ∈ types, type = .integer ∨ type = .categorical) →
    ∃ op, Resolved.of name types = .ok op ∧ op.output = .integer
  kernel : ∃ kernel, Kernel.named? name .integer = some kernel ∧
    ∀ ns : List Int64, ns.length = arity →
      kernel (ns.map .integer) = Kernel.exactly (compute (ns.map Int64.toInt))

theorem computesExactly_binary {op : BinaryOp} {compute : Int → Int → Int} (h : op.unbounded? = some compute) :
    ComputesExactly op.operation 2 fun ns => compute (ns.getD 0 0) (ns.getD 1 0) := by
  refine ⟨Operation.operation_mem_rowWiseNames op, fun types hlength htypes => ?_,
    Kernel.integer2 compute, ?_, fun ns hlength => ?_⟩
  · obtain ⟨s, t, rfl⟩ := List.length_eq_two.1 hlength
    rw [List.forall_mem_cons, List.forall_mem_singleton] at htypes
    obtain ⟨hs, ht⟩ := htypes
    cases op <;> cases h <;> rcases hs with rfl | rfl <;> rcases ht with rfl | rfl <;> exact ⟨_, rfl, rfl⟩
  · cases op <;> cases h <;> rfl
  · obtain ⟨a, b, rfl⟩ := List.length_eq_two.1 hlength
    rfl

theorem computesExactly_unary {name : String} {compute : Int → Int}
    (h : Operation.unbounded? name = some compute) :
    ComputesExactly name 1 fun ns => compute (ns.getD 0 0) := by
  unfold Operation.unbounded? at h
  have hname : name = "negate" ∨ name = "abs" := by
    split at h
    · exact .inl rfl
    · exact .inr rfl
    · cases h
  refine ⟨by rcases hname with rfl | rfl <;> decide, fun types hlength htypes => ?_,
    Kernel.integer1 compute, ?_, fun ns hlength => ?_⟩
  · obtain ⟨t, rfl⟩ := List.length_eq_one_iff.1 hlength
    rw [List.forall_mem_singleton] at htypes
    rcases hname with rfl | rfl <;> rcases htypes with rfl | rfl <;> exact ⟨_, rfl, rfl⟩
  · rcases hname with rfl | rfl <;> cases h <;> rfl
  · obtain ⟨a, rfl⟩ := List.length_eq_one_iff.1 hlength
    rfl

/-! ## Operands on a row -/

namespace Frame

variable {f : Frame}

/-- A formula that names no column has one value. -/
theorem Integral.exact_const {e : Expr} (he : f.Integral e) (hcolumn : e.mentions f.hasColumn = false)
    (row row' : Nat) : f.exact e row = f.exact e row' := by
  induction he with
  | column hc _ => simp [Expr.mentions, Expr.tokens, Frame.hasColumn, hc] at hcolumn
  | constant hnone _ _ _ => simp only [exact, exactToken, hnone]
  | binary _ _ _ ihleft ihright =>
    simp only [Expr.mentions, Expr.tokens, List.any_append, Bool.or_eq_false_iff] at hcolumn
    simp only [exact, ihleft hcolumn.1, ihright hcolumn.2]
  | unary _ _ ih =>
    simp only [Expr.mentions, Expr.tokens, Expr.tokensOf, List.append_nil] at hcolumn
    simp only [exact, ih hcolumn]

/-- The cell that a row repeats has the exact value of the row. -/
theorem Integral.exact_mod {e : Expr} (he : f.Integral e) {row : Nat}
    (hrow : e.mentions f.hasColumn = true → row < f.rows) :
    0 < f.extent e ∧ f.exact e (row % f.extent e) = f.exact e row := by
  unfold extent
  cases hcolumn : e.mentions f.hasColumn with
  | true =>
    have hlt := hrow hcolumn
    rw [if_pos rfl, Nat.mod_eq_of_lt hlt]
    exact ⟨by omega, rfl⟩
  | false => exact ⟨Nat.one_pos, he.exact_const hcolumn ..⟩

/-- The columns of operands, each with the exact values of its formula. -/
abbrev Operands (f : Frame) (es : List Expr) (cs : List Column) : Prop :=
  List.Forall₂ (fun e c => f.Integral e ∧ c.Exact (f.extent e) (f.exact e)) es cs

theorem Operands.operandsAt {es : List Expr} {cs : List Column} (h : f.Operands es cs) {row : Nat}
    (hrow : es.any (Expr.mentions f.hasColumn) = true → row < f.rows) (name : String) :
    ∃ ns : List Int64, Memory.operandsAt name (cs.map (·.data.values.toArray)) row = .ok (ns.map .integer) ∧
      ns.map Int64.toInt = es.map (f.exact · row) := by
  simp only [operandsAt_eq_ok]
  induction h with
  | nil => exact ⟨[], .nil, rfl⟩
  | @cons e c es cs hc _ ih =>
    obtain ⟨ns, hcells, hvalues⟩ := ih fun hmore => hrow (by rw [List.any_cons, hmore, Bool.or_true])
    obtain ⟨hpos, hmod⟩ := hc.1.exact_mod fun hfirst => hrow (by rw [List.any_cons, hfirst, Bool.true_or])
    obtain ⟨n, hcell, hn⟩ := hc.2.cyclic hpos row
    exact ⟨n :: ns, .cons hcell hcells, congrArg₂ _ (hn.trans hmod) hvalues⟩

/-- The number of cells of an operation over operands: one for each row if one of them names a column. -/
theorem Operands.broadcastLength {es : List Expr} {cs : List Column} (h : f.Operands es cs) (name : String) :
    Tabular.broadcastLength name (cs.map Column.length) =
      .ok (if es.any (Expr.mentions f.hasColumn) then f.rows else 1) := by
  have hlengths : cs.map Column.length = es.map f.extent :=
    map_eq_map_of_forall₂ (h.flip.imp fun c e hc => hc.2.length_eq)
  rw [hlengths]
  cases hany : es.any (Expr.mentions f.hasColumn) with
  | true =>
    obtain ⟨e, he, hcolumn⟩ := List.any_eq_true.1 hany
    refine broadcastLength_eq (fun l hl => ?_) (.inl (List.mem_map.2 ⟨e, he, if_pos hcolumn⟩))
    obtain ⟨e, -, rfl⟩ := List.mem_map.1 hl
    unfold extent
    split
    · exact .inl rfl
    · exact .inr rfl
  | false =>
    refine broadcastLength_eq (fun l hl => ?_) (.inr rfl)
    obtain ⟨e, he, rfl⟩ := List.mem_map.1 hl
    exact .inl (if_neg (List.any_eq_false.1 hany e he))

/-! ## Operations -/

/-- Operands of types that an operation accepts are handed over as they are. -/
theorem apply_resolved {es : List Expr} {cs : List Column} (hlength : es.length = cs.length) {name : String}
    {op : Resolved} (h : Resolved.of name (cs.map (·.dataType)) = .ok op) (scope : Scope) (e : Expr) :
    Frame.backend.apply f scope e name (es.zip cs) =
      (fun c => Column.rename c e.text) <$> execute f.options f.rows op cs := by
  have hcolumns : (es.zip cs).map (·.2) = cs := List.map_snd_zip (Nat.le_of_eq hlength.symm)
  have htypes : ((es.zip cs).map fun p => (p.1, p.2.dataType)).map (·.2) = cs.map (·.dataType) :=
    calc _ = ((es.zip cs).map (·.2)).map (·.dataType) := by simp only [List.map_map]; rfl
      _ = cs.map (·.dataType) := by rw [hcolumns]
  have hresolved : Resolved.ofOperands name ((es.zip cs).map fun p => (p.1, p.2.dataType)) = .ok (op, false) := by
    unfold Resolved.ofOperands
    rw [htypes, h]
  unfold Backend.apply
  change (Resolved.ofOperands name ((es.zip cs).map fun p => (p.1, p.2.dataType)) >>= _) = _
  rw [hresolved]
  change (execute f.options f.rows op _ >>= _) = _
  rw [hcolumns]
  cases execute f.options f.rows op cs <;> rfl

/-- An exact operation over exact operands gives the exact values, or overflows on a row whose value does not fit. -/
theorem Operands.apply {es : List Expr} {cs : List Column} (h : f.Operands es cs) {name : String}
    {compute : List Int → Int} (hname : ComputesExactly name es.length compute) (scope : Scope) (e : Expr) :
    let rows := if es.any (Expr.mentions f.hasColumn) then f.rows else 1
    let value := fun row => compute (es.map (f.exact · row))
    (∃ c, Frame.backend.apply f scope e name (es.zip cs) = .ok c ∧ c.Exact rows value) ∨
      ∃ row < rows, Decimal.fitsInt64 (value row) = false ∧
        Frame.backend.apply f scope e name (es.zip cs) = .error (.execution name (.atRow row .overflow)) := by
  intro rows value
  obtain ⟨op, hop, houtput⟩ := hname.resolves (cs.map (·.dataType)) (by simp [h.length_eq]) fun type htype => by
    obtain ⟨c, hc, rfl⟩ := List.mem_map.1 htype
    obtain ⟨e, -, -, hexact⟩ := exists_of_mem_forall₂ h hc
    exact hexact.type
  obtain ⟨rfl, happlies⟩ := Resolved.of_ok hop
  obtain ⟨kernel, hkernel, hcompute⟩ := hname.kernel
  have hcell : ∀ row < rows, cellAt op.name kernel (cs.map (·.data.values.toArray)) row =
      (Kernel.exactly (value row)).mapError fun fault => .execution op.name (.atRow row fault) := by
    intro row hrow
    obtain ⟨ns, hcells, hvalues⟩ := h.operandsAt (fun hany => by simpa [rows, hany] using hrow) op.name
    have hlength : ns.length = es.length := by simpa using congrArg List.length hvalues
    unfold cellAt
    rw [hcells]
    exact congrArg (Except.mapError _) ((hcompute ns hlength).trans (by rw [hvalues]))
  have hexecute : execute f.options f.rows op cs = (do return Column.ofSeries op.name (← Series.collect .integer
      (cellAt op.name kernel (cs.map (·.data.values.toArray))) (List.range rows))) := by
    rw [execute_rowWise happlies.builtIn hname.rowWise]
    unfold rowWise
    rw [houtput, hkernel]
    dsimp only
    rw [h.broadcastLength op.name]
    rfl
  rw [apply_resolved h.length_eq hop, hexecute]
  rcases collect_exactly hcell with ⟨ns, hcollect, hcells⟩ | ⟨row, hrow, hfits, hcollect⟩
  · exact .inl ⟨_, by rw [hcollect]; rfl, .inl rfl, ns, rfl, hcells⟩
  · exact .inr ⟨row, hrow, hfits, by rw [hcollect]; rfl⟩

/-! ## Formulas -/

/-- What becomes of a formula: exact cells if everything fits, and an overflow if something does not. -/
inductive Settled (f : Frame) (e : Expr) : Except Failure (Outcome Frame Column) → Prop
  | computed {c : Column} (hfits : f.Fits e) (hc : c.Exact (f.extent e) (f.exact e)) : Settled f e (.ok (.column c))
  | overflow {name : String} {row : Nat} (hfits : ¬f.Fits e) :
      Settled f e (.error (.execution name (.atRow row .overflow)))

/-- A formula without parts inside it fits if its column is exact. -/
theorem fits_leaf {token : String} {c : Column} (hc : c.Exact (f.extent (.leaf token)) (f.exact (.leaf token))) :
    f.Fits (.leaf token) := by
  intro part hpart
  obtain rfl : part = .leaf token := by simpa [Expr.parts] using hpart
  exact hc.fits

/-- A column of integers or categories has the exact values of its name. -/
theorem exact_column (hf : f.Valid) {token : String} {c : Column} (hc : f.column? token = some c)
    (htype : c.dataType = .integer ∨ c.dataType = .categorical) : c.Exact f.rows (f.exactToken token) := by
  have hmem := (hf.mem_of_column? hc).1
  have hstorage : c.data.dataType = .integer := by
    rw [hf.typed c hmem]
    rcases htype with htype | htype <;> rw [htype] <;> rfl
  refine ⟨htype, ?_⟩
  have hlength := hf.lengths c hmem
  cases hdata : c.data with
  | integers ns =>
    rw [Column.length, hdata] at hlength
    refine ⟨ns, rfl, List.ext_getElem (by simp [← hlength, Series.length]) fun i hi hi' => ?_⟩
    simp only [List.length_map] at hi
    simp [exactToken, hc, hdata, Series.cell?, hi, Value.integer?]
  | _ => simp [hdata, Series.dataType] at hstorage

theorem eval_column {token : String} {c : Column} (hc : f.column? token = some c) (scope : Scope) (w : Frame) :
    Frame.backend.eval (.leaf token) scope f w = .ok (.column c) := by
  have htoken : Frame.backend.token f token = .ok c := by
    simp only [Backend.token, Frame.backend, hc]
    rfl
  rw [Backend.eval, htoken]
  rfl

theorem settled_column (hf : f.Valid) {token : String} {c : Column} (hc : f.column? token = some c)
    (htype : c.dataType = .integer ∨ c.dataType = .categorical) (scope : Scope) (w : Frame) :
    f.Settled (.leaf token) (Frame.backend.eval (.leaf token) scope f w) := by
  have hextent : f.extent (.leaf token) = f.rows := if_pos (by simp [Expr.mentions, Expr.tokens, hasColumn, hc])
  have hexact : c.Exact (f.extent (.leaf token)) (f.exact (.leaf token)) := hextent ▸ exact_column hf hc htype
  rw [eval_column hc]
  exact .computed (fits_leaf hexact) hexact

theorem settled_constant {token : String} {n : Int} (hcolumn : f.column? token = none)
    (hdate : Date.ofPatterns? f.options.datePatterns token = none)
    (hn : Decimal.wholeNumber? token.toList = some n) (hfits : Decimal.fitsInt64 n = true) (scope : Scope) (w : Frame) :
    f.Settled (.leaf token) (Frame.backend.eval (.leaf token) scope f w) := by
  have hextent : f.extent (.leaf token) = 1 := if_neg (by simp [Expr.mentions, Expr.tokens, hasColumn, hcolumn])
  obtain ⟨v, hv⟩ : ∃ v, Decimal.toInt64? n = some v := by
    cases hv : Decimal.toInt64? n with
    | some v => exact ⟨v, rfl⟩
    | none => simp [Decimal.toInt64?_eq_none_iff.1 hv] at hfits
  have htoken : Frame.backend.token f token = Column.literal (.integer v) := by
    simp only [Backend.token, Frame.backend, hcolumn, Value.ofToken?, hdate, Decimal.integer?, hn, Option.bind_some, hv]
  have hexact : (Column.mk (Value.integer v).text .integer (.integers [v]) none (some (.integer v))).Exact
      (f.extent (.leaf token)) (f.exact (.leaf token)) := by
    refine ⟨.inl rfl, [v], rfl, ?_⟩
    simp [hextent, exact, exactToken, hcolumn, hn, Decimal.toInt64?_eq_some_iff.1 hv]
  have heval : Frame.backend.eval (.leaf token) scope f w =
      .ok (.column (.mk (Value.integer v).text .integer (.integers [v]) none (some (.integer v)))) := by
    rw [Backend.eval, htoken]
    rfl
  rw [heval]
  exact .computed (fits_leaf hexact) hexact

/-- A formula fits if its own values and those of its operands do. -/
theorem fits_iff {e : Expr} {es : List Expr} (hparts : e.parts = e :: Expr.partsOf es) :
    f.Fits e ↔ (∀ row < f.extent e, Decimal.fitsInt64 (f.exact e row) = true) ∧ ∀ arg ∈ es, f.Fits arg := by
  simp only [Fits, hparts, List.forall_mem_cons, Expr.mem_partsOf]
  exact and_congr_right fun _ => ⟨fun h arg harg part hpart => h part ⟨arg, harg, hpart⟩,
    fun h part ⟨arg, harg, hpart⟩ => h arg harg part hpart⟩

/-- An exact operation settles a formula if its operands were computed. -/
theorem Operands.settled {es : List Expr} {cs : List Column} (h : f.Operands es cs) (hfits : ∀ arg ∈ es, f.Fits arg)
    {name : String} {compute : List Int → Int} (hname : ComputesExactly name es.length compute) {e : Expr}
    (hparts : e.parts = e :: Expr.partsOf es)
    (hcolumn : e.mentions f.hasColumn = es.any (Expr.mentions f.hasColumn))
    (hvalue : f.exact e = fun row => compute (es.map (f.exact · row))) (scope : Scope) :
    f.Settled e (do return .column (← Frame.backend.apply f scope e name (es.zip cs))) := by
  have happly := h.apply hname scope e
  rw [← hcolumn, ← hvalue] at happly
  rcases happly with ⟨c, hc, hexact⟩ | ⟨row, hrow, hoverflow, hc⟩
  · rw [hc]
    exact .computed ((fits_iff hparts).2 ⟨hexact.fits, hfits⟩) hexact
  · rw [hc]
    refine .overflow fun hall => ?_
    have hrowFits := ((fits_iff hparts).1 hall).1 row hrow
    exact Bool.false_ne_true (hoverflow.symm.trans hrowFits)

theorem settled_binary {op : BinaryOp} {compute : Int → Int → Int} {left right : Expr}
    (hop : op.unbounded? = some compute) (hl : f.Integral left) (hr : f.Integral right) {scope : Scope} {w : Frame}
    (hleft : f.Settled left (Frame.backend.eval left scope f w))
    (hright : f.Settled right (Frame.backend.eval right scope f w)) :
    f.Settled (.binary op left right) (Frame.backend.eval (.binary op left right) scope f w) := by
  have hparts : (Expr.binary op left right).parts = .binary op left right :: Expr.partsOf [left, right] := by
    simp [Expr.parts, Expr.partsOf]
  rw [Backend.eval]
  generalize Frame.backend.eval left scope f w = leftResult at hleft
  generalize Frame.backend.eval right scope f w = rightResult at hright
  cases hleft with
  | overflow hfits => exact .overflow fun hall => hfits (((fits_iff hparts).1 hall).2 left (by simp))
  | computed hlfits hlexact =>
    cases hright with
    | overflow hfits => exact .overflow fun hall => hfits (((fits_iff hparts).1 hall).2 right (by simp))
    | computed hrfits hrexact =>
      refine Operands.settled (.cons ⟨hl, hlexact⟩ (.cons ⟨hr, hrexact⟩ .nil)) (by simp [hlfits, hrfits])
        (computesExactly_binary hop) hparts (by simp [Expr.mentions, Expr.tokens]) ?_ scope
      simp [exact, hop]

theorem settled_unary {name : String} {compute : Int → Int} {e : Expr}
    (hname : Operation.unbounded? name = some compute) (he : f.Integral e) {scope : Scope} {w : Frame}
    (hsettled : f.Settled e (Frame.backend.eval e scope f w)) :
    f.Settled (.call name [e]) (Frame.backend.eval (.call name [e]) scope f w) := by
  have hparts : (Expr.call name [e]).parts = .call name [e] :: Expr.partsOf [e] := by
    simp [Expr.parts, Expr.partsOf]
  have hexactly := computesExactly_unary hname
  have hform := Operation.named?_rowWise name hexactly.rowWise
  unfold Backend.eval
  rw [hform]
  dsimp only
  rw [Backend.evalColumns]
  generalize Frame.backend.eval e scope f w = result at hsettled
  cases hsettled with
  | overflow hfits => exact .overflow fun hall => hfits (((fits_iff hparts).1 hall).2 e (by simp))
  | computed hfits hexact =>
    refine Operands.settled (.cons ⟨he, hexact⟩ .nil) (by simp [hfits]) hexactly hparts
      (by simp [Expr.mentions, Expr.tokens, Expr.tokensOf]) ?_ scope
    simp [exact, hname]

/-- Every formula of integers is settled. -/
theorem Integral.settled (hf : f.Valid) {e : Expr} (he : f.Integral e) (scope : Scope) (w : Frame) :
    f.Settled e (Frame.backend.eval e scope f w) := by
  induction he with
  | column hc htype => exact settled_column hf hc htype scope w
  | constant hcolumn hdate hn hfits => exact settled_constant hcolumn hdate hn hfits scope w
  | binary hop hleft hright ihleft ihright => exact settled_binary hop hleft hright ihleft ihright
  | unary hname he ih => exact settled_unary hname he ih

/-- A formula of integers gives the exact values on all rows, or fails with an overflow. It overflows exactly if one
    of its parts has an exact value that does not fit 64 bits, on some row of that part. -/
theorem eval_exact (hf : f.Reached) {e : Expr} (he : f.Integral e) (scope : Scope) (w : Frame) :
    (∀ o, Frame.backend.eval e scope f w = .ok o → ∃ c ns, o = .column c ∧ c.data = .integers ns ∧
      ns.map Int64.toInt = (List.range (f.extent e)).map (f.exact e)) ∧
    ((∃ name row, Frame.backend.eval e scope f w = .error (.execution name (.atRow row .overflow))) ↔
      ∃ part ∈ e.parts, ∃ row < f.extent part, Decimal.fitsInt64 (f.exact part row) = false) ∧
    ((∃ o, Frame.backend.eval e scope f w = .ok o) ∨
      ∃ name row, Frame.backend.eval e scope f w = .error (.execution name (.atRow row .overflow))) := by
  have hsettled := he.settled hf.valid scope w
  generalize Frame.backend.eval e scope f w = result at hsettled
  cases hsettled with
  | computed hfits hc =>
    refine ⟨fun o ho => ?_, ⟨?_, ?_⟩, .inl ⟨_, rfl⟩⟩
    · obtain rfl := Except.ok.inj ho
      obtain ⟨ns, hdata, hcells⟩ := hc.cells
      exact ⟨_, ns, rfl, hdata, hcells⟩
    · rintro ⟨name, row, h⟩
      cases h
    · rintro ⟨part, hpart, row, hrow, hoverflow⟩
      exact absurd (hoverflow.symm.trans (hfits part hpart row hrow)) Bool.false_ne_true
  | overflow hfits =>
    refine ⟨fun o ho => (by cases ho), ⟨fun _ => ?_, fun _ => ⟨_, _, rfl⟩⟩, .inr ⟨_, _, rfl⟩⟩
    simpa only [Fits, not_forall, Bool.not_eq_true, exists_prop] using hfits

/-- Over the least integer, `n + 1` is computed. `negate(n) - 1` would fit, but `negate(n)` does not. -/
theorem eval_exact_least :
    let f := (empty .default).run [(.append (.ofSeries "n" (.integers [Int64.minValue, 7])), false)]
    let sum := Expr.binary .add (.leaf "n") (.leaf "1")
    let difference := Expr.binary .subtract (.call "negate" [.leaf "n"]) (.leaf "1")
    (∃ c ns, Frame.backend.eval sum .rows f f = .ok (.column c) ∧ c.data = .integers ns ∧
      ns.map Int64.toInt = [-9223372036854775807, 8]) ∧
    (∀ row < f.extent difference, Decimal.fitsInt64 (f.exact difference row) = true) ∧
    ∃ name row, Frame.backend.eval difference .rows f f = .error (.execution name (.atRow row .overflow)) := by
  intro f sum difference
  have hf : f.Reached := (Reached.empty .default).run fun c returned hc => by
    obtain ⟨rfl, -⟩ : c = .ofSeries "n" (.integers [Int64.minValue, 7]) ∧ returned = false := by simpa using hc
    exact .ofSeries ..
  have hcolumn : f.Integral (.leaf "n") := .column rfl (.inl rfl)
  have hone : f.Integral (.leaf "1") := .constant (n := 1) rfl (by decide) (by decide) (by decide)
  have hsum : f.Integral sum := .binary rfl hcolumn hone
  have hdifference : f.Integral difference := .binary rfl (.unary rfl hcolumn) hone
  refine ⟨?_, by decide, ?_⟩
  · obtain ⟨c, ns, heq, hdata, hcells⟩ := (eval_exact hf hsum .rows f).1 _ rfl
    exact ⟨c, ns, congrArg Except.ok heq, hdata, hcells.trans (by decide)⟩
  · refine (eval_exact hf hdifference .rows f).2.1.2 ⟨.call "negate" [.leaf "n"], ?_, 0, by decide, by decide⟩
    simp [difference, Expr.parts]

end Frame

end Memory

end Tabular
