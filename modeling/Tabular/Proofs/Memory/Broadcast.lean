-- SUMMARY: Operands of one cell stand for that cell on every row, whether they are repeated beforehand or not.
import Tabular.Proofs.Memory.Legitimate
import Tabular.Proofs.Memory.Selection

/-!
# Broadcasting

The operands of an operation on rows go together if all that are not of one cell are equally long; this length is the
number of rows, and it may be none. An operand is read on a row at the remainder of the row by its length, which is the
row itself or, for an operand of one cell, always that cell. What is computed on a row is therefore the same when an
operand of one cell is repeated to the number of rows, and so are the result and the error of the operation: it has a
cell for each row that the kernel gives, and it fails at the first row where the kernel does.
-/

namespace Tabular

/-! ## Stored cells -/

/-- The value as a column of the type stores it: an integer is widened to a float. -/
def Value.storedAs (type : DataType) : Value → Value
  | .integer n => if type.storage = .float then .float (ofInt64 n) else .integer n
  | v => v

namespace Series

/-- The cells that values are in a series of a type that stores them. -/
theorem values_ofValues_stored {type : DataType} {values : List Value} {s : Series}
    (h : ofValues type values = .ok s) : s.values = values.map (·.storedAs type) := by
  obtain ⟨base, hbase, h⟩ := bind_eq_ok.1 h
  have hstorage := (empty_ok hbase).1
  cases base
  all_goals
    obtain ⟨cells, hcells, h⟩ := bind_eq_ok.1 h
    obtain rfl := Except.ok.inj h
    refine map_of_mapM hcells fun v _ c hc => ?_
    cases v <;> cases hc <;> simp [Value.storedAs, ← hstorage, dataType]

theorem exists_ofValues {type : DataType} (htype : type.isConcrete = true) {values : List Value}
    (h : ∀ v ∈ values, type.stores v = true) : ∃ s, ofValues type values = .ok s := by
  have hends : EndsWell (fun _ => False) (fun _ => True) (ofValues type values) :=
    endsWell_collect htype (fun _ => rfl) fun v hv => .ok (h v hv)
  cases hs : ofValues type values with
  | ok s => exact ⟨s, rfl⟩
  | error fault =>
    rw [hs] at hends
    exact hends.elim

/-- Cells that are made of values one by one as they are computed, where each value has a cell. -/
theorem mapM_cell {α γ : Type} {cell : Value → Except SeriesFault γ} (series : List γ → Series)
    {compute : α → Except Failure Value} {items : List α}
    (h : ∀ item ∈ items, ∀ v, compute item = .ok v → ∃ c, cell v = .ok c) :
    (items.mapM (fun item => compute item >>= fun v => (liftM (cell v) : Except Failure γ)) >>=
        fun cells => pure (series cells)) =
      items.mapM compute >>= fun values => liftM (values.mapM cell >>= fun cells => pure (series cells)) := by
  have hlift : ∀ {v : Value} {c : γ}, cell v = .ok c → (liftM (cell v) : Except Failure γ) = .ok c :=
    fun hc => liftM_series_eq_ok.2 hc
  rw [mapM_bind fun item hitem v hv => (h item hitem v hv).imp fun c hc => hlift hc]
  cases hvalues : items.mapM compute with
  | error e => rfl
  | ok values =>
    obtain ⟨cells, hcells⟩ : ∃ cells, values.mapM cell = .ok cells := by
      refine exists_mapM fun v hv => ?_
      obtain ⟨item, hitem, hcompute⟩ := exists_of_mem_mapM hvalues hv
      exact h item hitem v hcompute
    have hlifted : values.mapM (fun v => (liftM (cell v) : Except Failure γ)) = .ok cells :=
      mapM_eq_ok.2 ((mapM_eq_ok.1 hcells).imp fun v c hc => hlift hc)
    change (values.mapM (fun v => (liftM (cell v) : Except Failure γ)) >>= fun cells => pure (series cells)) = _
    rw [hlifted]
    change _ = liftM (values.mapM cell >>= fun cells => pure (series cells))
    rw [hcells]
    rfl

/-- Collecting values that can all be stored is computing them first and storing them then. -/
theorem collect_eq {type : DataType} (htype : type.isConcrete = true) {α : Type} {compute : α → Except Failure Value}
    {items : List α} (h : ∀ item ∈ items, ∀ v, compute item = .ok v → type.stores v = true) :
    collect type compute items = items.mapM compute >>= fun values => liftM (ofValues type values) := by
  obtain ⟨base, hbase⟩ := exists_empty htype
  have hstorage := (empty_ok hbase).1.symm
  unfold ofValues collect
  rw [hbase]
  cases base with
  | integers _ => exact mapM_cell integers fun item hitem v hv => exists_integerCell hstorage (h item hitem v hv)
  | floats _ => exact mapM_cell floats fun item hitem v hv => exists_floatCell hstorage (h item hitem v hv)
  | strings _ => exact mapM_cell strings fun item hitem v hv => exists_stringCell hstorage (h item hitem v hv)
  | dates _ => exact mapM_cell dates fun item hitem v hv => exists_dateCell hstorage (h item hitem v hv)

/-- What is collected depends on what is computed for each item. -/
theorem collect_congr {type : DataType} {α : Type} {f g : α → Except Failure Value} {items : List α}
    (h : ∀ item ∈ items, f item = g item) : collect type f items = collect type g items := by
  have hcells : ∀ {γ : Type} (cell : Value → Except SeriesFault γ),
      items.mapM (fun item => f item >>= fun v => (liftM (cell v) : Except Failure γ)) =
        items.mapM fun item => g item >>= fun v => (liftM (cell v) : Except Failure γ) :=
    fun cell => mapM_congr_left fun item hitem => by rw [h item hitem]
  unfold collect
  refine bind_congr fun base => ?_
  cases base with
  | integers _ => exact congrArg (· >>= _) (hcells integerCell)
  | floats _ => exact congrArg (· >>= _) (hcells floatCell)
  | strings _ => exact congrArg (· >>= _) (hcells stringCell)
  | dates _ => exact congrArg (· >>= _) (hcells dateCell)

/-- A series of one cell can be repeated to any length. -/
theorem exists_broadcastTo {s : Series} (hone : s.length = 1) (length : Nat) :
    ∃ t, s.broadcastTo length = .ok t := by
  unfold broadcastTo
  rw [if_neg (by omega)]
  refine exists_take fun row hrow => ?_
  obtain ⟨i, -, rfl⟩ := List.mem_map.1 hrow
  rw [hone, Nat.max_self]
  exact Nat.mod_lt i Nat.one_pos

theorem cell?_broadcastTo {s t : Series} {length row : Nat} (hone : s.length = 1) (h : s.broadcastTo length = .ok t)
    (hrow : row < length) : t.cell? row = s.cell? 0 := by
  obtain ⟨v, hv⟩ := List.length_eq_one_iff.1 ((length_values s).trans hone)
  rw [cell?_eq, cell?_eq, values_broadcastTo hone h, hv, List.flatten_replicate_singleton]
  simp [hrow]

end Series

namespace Memory

/-! ## Operands -/

/-- The element of a column on a row: a column of one cell has that cell on every row. -/
def Column.ElementAt (row : Nat) (c : Column) (v : Value) : Prop :=
  c.data.cell? (if c.length = 1 then 0 else row) = some v

/-- Columns that go together on so many rows: one that is not of one cell has as many, and if there is none then there
    is one row. -/
structure Together (args : List Column) (rows : Nat) : Prop where
  length : ∀ arg ∈ args, arg.length ≠ 1 → arg.length = rows
  single : (∀ arg ∈ args, arg.length = 1) → rows = 1

/-- Two columns that are not of one cell and have different lengths. -/
def Apart (args : List Column) : Prop := ∃ a ∈ args, ∃ b ∈ args, a.length ≠ 1 ∧ b.length ≠ 1 ∧ a.length ≠ b.length

/-- A column with the cells of another one, or with its only cell repeated to so many rows. -/
def Column.Repeats (rows : Nat) (c d : Column) : Prop :=
  d.data = c.data ∨ c.length = 1 ∧ c.data.broadcastTo rows = .ok d.data

/-- What a kernel gives for the elements of columns on a row. -/
def ComputesAt (kernel : Kernel) (args : List Column) (row : Nat) (result : Except CellFault Value) : Prop :=
  ∃ cells, List.Forall₂ (Column.ElementAt row) args cells ∧ kernel cells = result

section Operands

variable {args : List Column} {rows row : Nat}

theorem exists_together (h : ¬ Apart args) : ∃ rows, Together args rows := by
  by_cases hsingle : ∀ arg ∈ args, arg.length = 1
  · exact ⟨1, fun arg harg hne => absurd (hsingle arg harg) hne, fun _ => rfl⟩
  · simp only [not_forall] at hsingle
    obtain ⟨a, ha, hne⟩ := hsingle
    refine ⟨a.length, fun b hb hne' => ?_, fun hall => absurd (hall a ha) hne⟩
    by_contra hdiffers
    exact h ⟨b, hb, a, ha, hne', hne, hdiffers⟩

theorem Together.broadcastLength (h : Together args rows) (name : String) :
    broadcastLength name (args.map (·.length)) = .ok rows := by
  have hlengths : ∀ length ∈ args.map (·.length), length = rows ∨ length = 1 := by
    intro length hlength
    obtain ⟨arg, harg, rfl⟩ := List.mem_map.1 hlength
    exact (Decidable.em (arg.length = 1)).elim .inr fun hne => .inl (h.length arg harg hne)
  refine broadcastLength_eq hlengths ?_
  by_cases hsingle : ∀ arg ∈ args, arg.length = 1
  · exact .inr (h.single hsingle)
  · simp only [not_forall] at hsingle
    obtain ⟨arg, harg, hne⟩ := hsingle
    exact .inl (h.length arg harg hne ▸ List.mem_map_of_mem harg)

/-- Lengths that do not go together are refused. -/
theorem Apart.broadcastLength (h : Apart args) (name : String) :
    ∃ length expected, broadcastLength name (args.map (·.length)) =
      .error (.execution name (.broadcast length expected)) := by
  obtain ⟨a, ha, b, hb, hane, hbne, hdiffers⟩ := h
  have hmem : ∀ arg ∈ args, arg.length ≠ 1 → arg.length ∈ (args.map (·.length)).filter (· ≠ 1) := fun arg harg hne =>
    List.mem_filter.2 ⟨List.mem_map_of_mem harg, by simpa using hne⟩
  unfold Tabular.broadcastLength
  cases hfilter : (args.map (·.length)).filter (· ≠ 1) with
  | nil => exact absurd (hfilter ▸ hmem a ha hane) List.not_mem_nil
  | cons expected rest =>
    dsimp only
    cases hfind : rest.find? (· ≠ expected) with
    | some length => exact ⟨length, expected, rfl⟩
    | none =>
      -- Then both lengths would be the first one.
      have hsame : ∀ length ∈ expected :: rest, length = expected :=
        List.forall_mem_cons.2 ⟨rfl, fun length hlength => by simpa using List.find?_eq_none.1 hfind length hlength⟩
      rw [← hfilter] at hsame
      exact absurd ((hsame _ (hmem a ha hane)).trans (hsame _ (hmem b hb hbne)).symm) hdiffers

/-- Where there is a row, no operand is empty. -/
theorem Together.length_pos (h : Together args rows) (hrow : row < rows) : ∀ arg ∈ args, 0 < arg.length := by
  intro arg harg
  by_cases hone : arg.length = 1
  · omega
  · have := h.length arg harg hone
    omega

/-- The cell at the remainder of the row is the element on the row. -/
theorem Together.elementAt_iff (h : Together args rows) (hrow : row < rows) {arg : Column} (harg : arg ∈ args)
    {v : Value} :
    arg.data.values.toArray[row % arg.data.values.toArray.size]? = some v ↔ arg.ElementAt row v := by
  have hsize : arg.data.values.toArray.size = arg.length := Series.length_values arg.data
  unfold Column.ElementAt
  rw [hsize, List.getElem?_toArray, Series.cell?_eq]
  by_cases hone : arg.length = 1
  · rw [if_pos hone, hone, Nat.mod_one]
  · rw [if_neg hone, h.length arg harg hone, Nat.mod_eq_of_lt hrow]

theorem Together.operandsAt_iff (h : Together args rows) (hrow : row < rows) {name : String} {cells : List Value} :
    operandsAt name (args.map (·.data.values.toArray)) row = .ok cells ↔
      List.Forall₂ (Column.ElementAt row) args cells := by
  rw [operandsAt_eq_ok, List.forall₂_map_left_iff]
  constructor
  · intro hcells
    exact ((List.forall₂_and_left _ _).2 ⟨fun arg harg => harg, hcells⟩).imp
      fun arg v ⟨harg, hv⟩ => (h.elementAt_iff hrow harg).1 hv
  · intro hcells
    exact ((List.forall₂_and_left _ _).2 ⟨fun arg harg => harg, hcells⟩).imp
      fun arg v ⟨harg, hv⟩ => (h.elementAt_iff hrow harg).2 hv

/-- On each row a kernel gives something for the elements of the operands. -/
theorem Together.exists_computesAt (h : Together args rows) (hrow : row < rows) (kernel : Kernel) :
    ∃ result, ComputesAt kernel args row result := by
  obtain ⟨cells, hcells⟩ : ∃ cells, operandsAt "" (args.map (·.data.values.toArray)) row = .ok cells := by
    refine exists_mapM fun cells hmem => ?_
    obtain ⟨arg, harg, rfl⟩ := List.mem_map.1 hmem
    have hsize : 0 < arg.data.values.toArray.size := by
      rw [List.size_toArray, Series.length_values]
      exact h.length_pos hrow arg harg
    exact ⟨_, dif_pos hsize⟩
  exact ⟨_, cells, (h.operandsAt_iff hrow).1 hcells, rfl⟩

theorem Together.cellAt_eq (h : Together args rows) (hrow : row < rows) {kernel : Kernel}
    {result : Except CellFault Value} (hresult : ComputesAt kernel args row result) (name : String) :
    cellAt name kernel (args.map (·.data.values.toArray)) row =
      result.mapError fun fault => .execution name (.atRow row fault) := by
  obtain ⟨cells, hcells, rfl⟩ := hresult
  unfold cellAt
  rw [(h.operandsAt_iff hrow).2 hcells]
  rfl

/-- A cell that is computed on a row is the kernel's for the elements of the row. -/
theorem Together.computesAt_of_ok (h : Together args rows) (hrow : row < rows) {kernel : Kernel} {name : String}
    {v : Value} (hv : cellAt name kernel (args.map (·.data.values.toArray)) row = .ok v) :
    ComputesAt kernel args row (.ok v) := by
  obtain ⟨result, hresult⟩ := h.exists_computesAt hrow kernel
  rw [h.cellAt_eq hrow hresult] at hv
  cases result with
  | error fault => cases hv
  | ok w => exact Except.ok.inj hv ▸ hresult

theorem Together.computesAt_of_error (h : Together args rows) (hrow : row < rows) {kernel : Kernel} {name : String}
    {failure : Failure} (hfails : cellAt name kernel (args.map (·.data.values.toArray)) row = .error failure) :
    ∃ fault, failure = .execution name (.atRow row fault) ∧ ComputesAt kernel args row (.error fault) := by
  obtain ⟨result, hresult⟩ := h.exists_computesAt hrow kernel
  rw [h.cellAt_eq hrow hresult] at hfails
  cases result with
  | error fault => exact ⟨fault, (Except.error.inj hfails).symm, hresult⟩
  | ok w => cases hfails

/-! ## Repeated operands -/

variable {args' : List Column}

theorem Column.Repeats.length {c d : Column} (h : c.Repeats rows d) :
    d.length = c.length ∨ c.length = 1 ∧ d.length = rows := by
  rcases h with h | ⟨hone, h⟩
  · exact .inl (congrArg Series.length h)
  · exact .inr ⟨hone, (Series.broadcastTo_ok h).2⟩

/-- A column that is repeated to all rows has the same element on each of them. -/
theorem Column.Repeats.elementAt {c d : Column} (h : c.Repeats rows d) (hrow : row < rows) {v : Value}
    (hv : c.ElementAt row v) : d.ElementAt row v := by
  unfold Column.ElementAt at hv ⊢
  rcases h with h | ⟨hone, h⟩
  · rwa [h, show d.length = c.length from congrArg Series.length h]
  · rw [if_pos hone] at hv
    have hwithin : (if d.length = 1 then 0 else row) < rows := by
      split
      · omega
      · exact hrow
    rw [Series.cell?_broadcastTo hone h hwithin, hv]

/-- Repeated operands go together on the same rows. -/
theorem Together.repeats (h : Together args rows) (hargs : List.Forall₂ (Column.Repeats rows) args args') :
    Together args' rows := by
  refine ⟨fun d hd hne => ?_, fun hsingle => h.single fun c hc => ?_⟩
  · obtain ⟨c, hc, hrepeats⟩ := exists_of_mem_forall₂ hargs hd
    rcases hrepeats.length with hlength | ⟨-, hlength⟩
    · exact hlength.trans (h.length c hc (hlength ▸ hne))
    · exact hlength
  · obtain ⟨d, hd, hrepeats⟩ := exists_of_mem_forall₂ hargs.flip hc
    rcases Column.Repeats.length hrepeats with hlength | ⟨hone, -⟩
    · exact hlength ▸ hsingle d hd
    · exact hone

theorem ComputesAt.repeats {kernel : Kernel} {result : Except CellFault Value} (h : ComputesAt kernel args row result)
    (hargs : List.Forall₂ (Column.Repeats rows) args args') (hrow : row < rows) :
    ComputesAt kernel args' row result := by
  obtain ⟨cells, hcells, hresult⟩ := h
  refine ⟨cells, ?_, hresult⟩
  clear hresult
  induction hargs generalizing cells with
  | nil =>
    cases hcells
    exact .nil
  | cons hfirst _ ih =>
    cases hcells with
    | cons hv hmore => exact .cons (hfirst.elementAt hrow hv) (ih _ hmore)

end Operands

/-! ## Operations on rows -/

section Operations

variable {op : Resolved} {args : List Column} {rows : Nat}

theorem execute_eq_rowWise (hscalar : op.isScalar = false) (hrule : Kernel.hasOwnRule op.name = false)
    (options : Options) (n : Nat) (args : List Column) : execute options n op args = rowWise op args := by
  unfold execute
  split
  case h_5 => rw [hscalar, if_neg Bool.false_ne_true]
  all_goals
    rename_i hname
    rw [hname] at hrule
    cases hrule

/-- An operation on rows collects what its kernel gives. -/
theorem rowWise_eq_collect {kernel : Kernel} (hkernel : Kernel.named? op.name op.output = some kernel)
    (hrows : broadcastLength op.name (args.map (·.length)) = .ok rows) :
    rowWise op args = (do
      let data ← Series.collect op.output (cellAt op.name kernel (args.map (·.data.values.toArray))) (List.range rows)
      return Column.ofSeries op.name data) := by
  unfold rowWise
  rw [hkernel]
  dsimp only
  rw [hrows]
  rfl

/-- Repeated operands give the same result or the same error. -/
theorem Together.rowWise_repeats (h : Together args rows) {args' : List Column}
    (hrepeats : List.Forall₂ (Column.Repeats rows) args args') : rowWise op args' = rowWise op args := by
  have h' := h.repeats hrepeats
  have hcells : ∀ kernel, ∀ row ∈ List.range rows,
      cellAt op.name kernel (args'.map (·.data.values.toArray)) row =
        cellAt op.name kernel (args.map (·.data.values.toArray)) row := by
    intro kernel row hrow
    have hlt := List.mem_range.1 hrow
    obtain ⟨result, hresult⟩ := h.exists_computesAt hlt kernel
    rw [h.cellAt_eq hlt hresult, h'.cellAt_eq hlt (hresult.repeats hrepeats hlt)]
  cases hkernel : Kernel.named? op.name op.output with
  | none =>
    unfold rowWise
    rw [hkernel]
  | some kernel =>
    rw [rowWise_eq_collect hkernel (h.broadcastLength op.name), rowWise_eq_collect hkernel (h'.broadcastLength op.name),
      Series.collect_congr (hcells kernel)]

/-- What a kernel gives for the elements of a row can be stored. -/
theorem ComputesAt.stores (happlies : op.Applies (args.map (·.dataType))) (hargs : ∀ arg ∈ args, arg.Typed)
    (hrule : Kernel.hasOwnRule op.name = false) {kernel : Kernel}
    (hfits : ∀ extra, kernel.Fits (op.signature.slots op.operation.variadic extra) op.output) (h : Together args rows)
    {row : Nat} (hrow : row < rows) {v : Value} (hv : ComputesAt kernel args row (.ok v)) :
    op.output.stores v = true := by
  obtain ⟨cells, hcells, hkernel⟩ := hv
  obtain ⟨extra, hslots⟩ := fill_rowWise happlies hargs hrule
  have hfill : Kernel.Fill (op.signature.slots op.operation.variadic extra) cells := by
    have hends := @endsWell_operandsAt "" _ _ row hslots (h.length_pos hrow)
    rwa [(h.operandsAt_iff hrow).2 hcells] at hends
  have hends := hfits extra cells hfill
  rwa [hkernel] at hends

section Results

variable {kernel : Kernel} (happlies : op.Applies (args.map (·.dataType))) (hargs : ∀ arg ∈ args, arg.Typed)
  (hrule : Kernel.hasOwnRule op.name = false) (hkernel : Kernel.named? op.name op.output = some kernel)
  (hfits : ∀ extra, kernel.Fits (op.signature.slots op.operation.variadic extra) op.output) (h : Together args rows)

include happlies hargs hrule hkernel hfits h

/-- Where the operands go together, a kernel is run on each row and the results are stored. -/
theorem rowWise_eq :
    rowWise op args =
      (List.range rows).mapM (cellAt op.name kernel (args.map (·.data.values.toArray))) >>= fun values =>
        liftM (Series.ofValues op.output values) >>= fun data => pure (Column.ofSeries op.name data) := by
  have hstores : ∀ row ∈ List.range rows, ∀ v,
      cellAt op.name kernel (args.map (·.data.values.toArray)) row = .ok v → op.output.stores v = true :=
    fun row hrow v hv => (h.computesAt_of_ok (List.mem_range.1 hrow) hv).stores happlies hargs hrule hfits h
      (List.mem_range.1 hrow)
  rw [rowWise_eq_collect hkernel (h.broadcastLength op.name),
    Series.collect_eq (isConcrete_rowWise happlies hrule) hstores]
  cases (List.range rows).mapM (cellAt op.name kernel (args.map (·.data.values.toArray))) with
  | error e => rfl
  | ok values => rfl

/-- The result has a cell for each row, as the kernel gives it. -/
theorem rowWise_eq_ok {c : Column} (hc : rowWise op args = .ok c) :
    c.length = rows ∧ ∀ row < rows, ∃ v,
      ComputesAt kernel args row (.ok v) ∧ c.data.cell? row = some (v.storedAs op.output) := by
  rw [rowWise_eq happlies hargs hrule hkernel hfits h] at hc
  obtain ⟨values, hvalues, hc⟩ := bind_eq_ok.1 hc
  obtain ⟨data, hdata, hc⟩ := bind_eq_ok.1 hc
  obtain rfl := Except.ok.inj hc
  have hlength : values.length = rows := (length_of_mapM hvalues).trans List.length_range
  have hstored := liftM_series_eq_ok.1 hdata
  refine ⟨(Series.ofValues_ok hstored).2.trans hlength, fun row hrow => ?_⟩
  have hcell := (mapM_eq_ok.1 hvalues).get (by rwa [List.length_range]) (hlength.symm ▸ hrow)
  rw [List.get_eq_getElem, List.getElem_range] at hcell
  refine ⟨values.get ⟨row, hlength.symm ▸ hrow⟩, h.computesAt_of_ok hrow hcell, ?_⟩
  · change data.cell? row = _
    rw [Series.cell?_eq, Series.values_ofValues_stored hstored, List.getElem?_map,
      List.getElem?_eq_getElem (hlength.symm ▸ hrow)]
    rfl

/-- An error is the one of the kernel on the first row where it fails. -/
theorem rowWise_eq_error {failure : Failure} (hfailure : rowWise op args = .error failure) :
    ∃ row < rows, ∃ fault, failure = .execution op.name (.atRow row fault) ∧
      ComputesAt kernel args row (.error fault) ∧ ∀ earlier < row, ∃ v, ComputesAt kernel args earlier (.ok v) := by
  rw [rowWise_eq happlies hargs hrule hkernel hfits h] at hfailure
  cases hvalues : (List.range rows).mapM (cellAt op.name kernel (args.map (·.data.values.toArray))) with
  | error e =>
    rw [hvalues] at hfailure
    obtain rfl := Except.error.inj hfailure
    obtain ⟨row, hrow, hfails, hearlier⟩ := mapM_range_eq_error hvalues
    obtain ⟨fault, hfault, hcomputes⟩ := h.computesAt_of_error hrow hfails
    refine ⟨row, hrow, fault, hfault, hcomputes, fun earlier hlt => ?_⟩
    obtain ⟨v, hv⟩ := hearlier earlier hlt
    exact ⟨v, h.computesAt_of_ok (Nat.lt_trans hlt hrow) hv⟩
  -- What is computed on every row can be stored.
  | ok values =>
    have hstores : ∀ v ∈ values, op.output.stores v = true := by
      intro v hv
      obtain ⟨row, hrow, hcell⟩ := exists_of_mem_mapM hvalues hv
      have hlt := List.mem_range.1 hrow
      exact (h.computesAt_of_ok hlt hcell).stores happlies hargs hrule hfits h hlt
    obtain ⟨data, hdata⟩ := Series.exists_ofValues (isConcrete_rowWise happlies hrule) hstores
    rw [hvalues] at hfailure
    have hresult : (liftM (Series.ofValues op.output values) >>= fun data => pure (Column.ofSeries op.name data) :
        Except Failure Column) = .ok (Column.ofSeries op.name data) := by
      rw [hdata]
      rfl
    cases hresult.symm.trans hfailure

end Results

/-- An operation on rows refuses operands whose lengths do not go together, and no others. Otherwise it has a cell for
    each row, the one that its kernel gives for the elements of the operands, or it fails at the first row where the
    kernel fails. An operand of one cell may as well be repeated to all rows, also if there are none. -/
theorem rowWise_broadcasts (happlies : op.Applies (args.map (·.dataType))) (hargs : ∀ arg ∈ args, arg.Typed)
    (hscalar : op.isScalar = false) (hrule : Kernel.hasOwnRule op.name = false) :
    (∀ options n args', execute options n op args' = rowWise op args') ∧
      ((∃ length expected, rowWise op args = .error (.execution op.name (.broadcast length expected))) ↔ Apart args) ∧
      (¬ Apart args → ∃ rows, Together args rows) ∧
      ∃ kernel, Kernel.named? op.name op.output = some kernel ∧ ∀ rows, Together args rows →
        (∀ c, rowWise op args = .ok c → c.length = rows ∧ ∀ row < rows, ∃ v,
          ComputesAt kernel args row (.ok v) ∧ c.data.cell? row = some (v.storedAs op.output)) ∧
        (∀ failure, rowWise op args = .error failure → ∃ row < rows, ∃ fault,
          failure = .execution op.name (.atRow row fault) ∧ ComputesAt kernel args row (.error fault) ∧
          ∀ earlier < row, ∃ v, ComputesAt kernel args earlier (.ok v)) ∧
        (∀ arg ∈ args, arg.length = 1 → ∃ data, arg.data.broadcastTo rows = .ok data) ∧
        ∀ args', List.Forall₂ (Column.Repeats rows) args args' → rowWise op args' = rowWise op args := by
  obtain ⟨kernel, hkernel, hfits⟩ := Kernel.hasKernels _ happlies.builtIn hscalar hrule _ happlies.signature
  refine ⟨execute_eq_rowWise hscalar hrule, ⟨?_, fun hapart => ?_⟩, exists_together, kernel, hkernel,
    fun rows h => ⟨fun c => rowWise_eq_ok happlies hargs hrule hkernel hfits h,
      fun failure => rowWise_eq_error happlies hargs hrule hkernel hfits h,
      fun arg _ hone => Series.exists_broadcastTo hone rows, fun args' => h.rowWise_repeats⟩⟩
  · rintro ⟨length, expected, hrefused⟩
    by_contra hapart
    obtain ⟨rows, h⟩ := exists_together hapart
    obtain ⟨row, -, fault, hfault, -⟩ := rowWise_eq_error happlies hargs hrule hkernel hfits h hrefused
    cases hfault
  · obtain ⟨length, expected, hlengths⟩ := hapart.broadcastLength op.name
    refine ⟨length, expected, ?_⟩
    unfold rowWise
    rw [show Kernel.named? op.name op.output = some kernel from hkernel]
    dsimp only
    rw [hlengths]
    rfl

/-- A text of one cell goes with two rows and with none, as it would if it were repeated. -/
theorem rowWise_broadcasts_concat :
    let texts : Signature := ⟨[.string, .string], .string⟩
    let op : Resolved := ⟨⟨"concat", [texts], some .string, false⟩, texts⟩
    let column (cells : List String) : Column := .ofSeries "t" (.strings cells)
    (rowWise op [column ["a", "b"], column ["-"], column ["c", "d"]]).toOption.map (·.data) =
        some (.strings ["a-c", "b-d"]) ∧
      rowWise op [column ["a", "b"], column ["-", "-"], column ["c", "d"]] =
        rowWise op [column ["a", "b"], column ["-"], column ["c", "d"]] ∧
      rowWise op [column [], column []] = rowWise op [column [], column ["-"]] := by
  intro texts op column
  have hoperation : op.operation ∈ Operation.builtIn := by decide
  have hsignature : op.signature ∈ op.operation.signatures := by decide
  have htyped : ∀ args : List (List String), ∀ arg ∈ args.map column, arg.Typed := by
    intro args arg harg
    obtain ⟨cells, -, rfl⟩ := List.mem_map.1 harg
    rfl
  obtain ⟨-, -, -, kernel, -, htwo⟩ := @rowWise_broadcasts op ([["a", "b"], ["-"], ["c", "d"]].map column)
    ⟨hoperation, hsignature, by decide⟩ (htyped _) rfl rfl
  obtain ⟨-, -, -, kernel', -, hnone⟩ := @rowWise_broadcasts op ([[], ["-"]].map column)
    ⟨hoperation, hsignature, by decide⟩ (htyped _) rfl rfl
  have htwice : (column ["-"]).Repeats 2 (column ["-", "-"]) := .inr ⟨rfl, by decide +kernel⟩
  have hnever : (column ["-"]).Repeats 0 (column []) := .inr ⟨rfl, by decide +kernel⟩
  refine ⟨by decide +kernel, ?_, ?_⟩
  · exact (htwo 2 ⟨by decide, by decide⟩).2.2.2 _ (.cons (.inl rfl) (.cons htwice (.cons (.inl rfl) .nil)))
  · exact (hnone 0 ⟨by decide, by decide⟩).2.2.2 _ (.cons (.inl rfl) (.cons hnever .nil))

end Operations

end Memory

end Tabular
