-- SUMMARY: Operations in memory over operands they were resolved for only fail for reasons that lie in the values.
import Tabular.Proofs.Memory.Execute
import Tabular.Proofs.Memory.Kernel

/-!
# Legitimate failures

An operation may fail on values: integers that overflow, lengths that do not go together, a text that is no date. It
may also fail on itself: there is no kernel, an operand is missing or of another kind, a result does not go into the
column it is made for. Over typed operands that the signature accepts the second never happens. The one refusal of
another type is that of `applyCat`, which is told the raw type of its map only when it runs.
-/

namespace Tabular

/-! ## Failures of the operation itself -/

def SeriesFault.isInternal : SeriesFault → Bool
  | typeMismatch .. | notConcrete _ | null _ | outOfBounds .. => true
  | cast .. | notCategorical _ | unknownLevel _ => false

def ExecutionFault.isInternal : ExecutionFault → Bool
  | atRow _ fault => fault.isInternal
  | emptyOperand | noImplementation | noImplementationFor _ | missingOperand | missingOperandAt _ | castOperands
  | threeOperands => true
  | broadcast .. | overflow | emptyColumn _ | castTarget | castTo _ | threshold | manyThresholds | quantileLevel
  | defaultLevel => false

/-- Whether an operation fails on itself, and not on the values that it is given. -/
def Failure.isInternal : Failure → Bool
  | execution _ fault => fault.isInternal
  | series fault => fault.isInternal
  | _ => false

def SeriesFault.Legitimate (fault : SeriesFault) : Prop := fault.isInternal = false

def Failure.Legitimate (failure : Failure) : Prop := failure.isInternal = false

theorem EndsWell.lift {α : Type} {P : α → Prop} {x : Except SeriesFault α} (h : EndsWell SeriesFault.Legitimate P x) :
    EndsWell Failure.Legitimate P (liftM x) :=
  h.mapError fun _ hfault => hfault

/-! ## Collecting -/

namespace Series

/-- What can be stored in a column has the type of its cells, or is an integer that is widened. -/
theorem dataType_of_stores {type : DataType} {v : Value} (h : type.stores v = true) :
    v.dataType = type.storage ∨ type.storage = .float ∧ v.dataType = .integer := by
  simp only [DataType.stores, Bool.or_eq_true, Bool.and_eq_true, beq_iff_eq] at h
  rcases h with rfl | ⟨rfl, hv⟩
  · left
    cases v <;> rfl
  · exact .inr ⟨rfl, hv⟩

theorem exists_integerCell {type : DataType} {v : Value} (htype : type.storage = .integer) (h : type.stores v = true) :
    ∃ n, integerCell v = .ok n := by
  rcases dataType_of_stores h with hv | ⟨hfloat, -⟩
  · rw [htype] at hv
    cases v with
    | integer n => exact ⟨_, rfl⟩
    | _ => cases hv
  · cases htype.symm.trans hfloat

theorem exists_floatCell {type : DataType} {v : Value} (htype : type.storage = .float) (h : type.stores v = true) :
    ∃ x, floatCell v = .ok x := by
  rcases dataType_of_stores h with hv | ⟨hfloat, hv⟩
  · rw [htype] at hv
    cases v with
    | float x => exact ⟨_, rfl⟩
    | _ => cases hv
  · cases v with
    | integer n => exact ⟨_, rfl⟩
    | _ => cases hv

theorem exists_stringCell {type : DataType} {v : Value} (htype : type.storage = .string) (h : type.stores v = true) :
    ∃ s, stringCell v = .ok s := by
  rcases dataType_of_stores h with hv | ⟨hfloat, -⟩
  · rw [htype] at hv
    cases v with
    | string s => exact ⟨_, rfl⟩
    | _ => cases hv
  · cases htype.symm.trans hfloat

theorem exists_dateCell {type : DataType} {v : Value} (htype : type.storage = .date) (h : type.stores v = true) :
    ∃ d, dateCell v = .ok d := by
  rcases dataType_of_stores h with hv | ⟨hfloat, -⟩
  · rw [htype] at hv
    cases v with
    | date d => exact ⟨_, rfl⟩
    | _ => cases hv
  · cases htype.symm.trans hfloat

theorem exists_empty {type : DataType} (h : type.isConcrete = true) : ∃ s, empty type = .ok s := by
  cases type <;> simp_all [DataType.isConcrete, empty, DataType.storage]

/-- Collecting ends well if all values that are computed can be stored. -/
theorem endsWell_collect {ε : Type} [MonadLiftT (Except SeriesFault) (Except ε)] {legitimate : ε → Prop} {α : Type}
    {type : DataType} {compute : α → Except ε Value} {items : List α} (htype : type.isConcrete = true)
    (hlift : ∀ {β : Type} (b : β), (liftM (Except.ok b : Except SeriesFault β) : Except ε β) = .ok b)
    (h : ∀ item ∈ items, EndsWell legitimate (fun v => type.stores v = true) (compute item)) :
    EndsWell legitimate (fun _ => True) (collect type compute items) := by
  have hcells : ∀ {β : Type} (cell : Value → Except SeriesFault β), (∀ v, type.stores v = true → ∃ b, cell v = .ok b) →
      EndsWell legitimate (fun _ => True) (items.mapM fun item => do liftM (cell (← compute item))) := by
    intro β cell hcell
    refine (EndsWell.mapM (R := fun _ _ => True) fun item hitem => ?_).mono fun _ _ => trivial
    refine (h item hitem).bind fun v hv => ?_
    obtain ⟨b, hb⟩ := hcell v hv
    rw [hb]
    exact .of_ok (hlift b) trivial
  obtain ⟨base, hbase⟩ := exists_empty htype
  have hstorage := (empty_ok hbase).1
  unfold collect
  rw [hbase, hlift]
  cases base with
  | integers _ => exact (hcells _ fun v => exists_integerCell hstorage.symm).bind fun _ _ => trivial
  | floats _ => exact (hcells _ fun v => exists_floatCell hstorage.symm).bind fun _ _ => trivial
  | strings _ => exact (hcells _ fun v => exists_stringCell hstorage.symm).bind fun _ _ => trivial
  | dates _ => exact (hcells _ fun v => exists_dateCell hstorage.symm).bind fun _ _ => trivial

end Series

/-! ## Rows -/

/-- Where there is a row to compute, no operand is empty. -/
theorem endsWell_broadcastLength (name : String) (lengths : List Nat) :
    EndsWell Failure.Legitimate (fun rows => 0 < rows → ∀ length ∈ lengths, 0 < length)
      (broadcastLength name lengths) := by
  have hone : ∀ length ∈ lengths, length = 1 ∨ length ∈ lengths.filter (· ≠ 1) := by
    intro length hlength
    by_cases h : length = 1
    · exact .inl h
    · exact .inr (List.mem_filter.2 ⟨hlength, by simpa using h⟩)
  unfold broadcastLength
  split
  · rename_i hnone
    refine .ok fun _ length hlength => ?_
    rcases hone length hlength with rfl | hmem
    · exact Nat.one_pos
    · rw [hnone] at hmem
      cases hmem
  · rename_i expected rest hsome
    split
    · rename_i hall
      refine .ok fun hrows length hlength => ?_
      rcases hone length hlength with rfl | hmem
      · exact Nat.one_pos
      · rw [hsome] at hmem
        rcases List.mem_cons.1 hmem with rfl | hmem
        · exact hrows
        · have hsame := List.find?_eq_none.1 hall length hmem
          obtain rfl : length = expected := by simpa using hsame
          exact hrows
    · exact .error rfl

/-- Only category slots tell a type from its storage. -/
theorem DataType.accepts_storage {slot actual : DataType} (hslot : slot ≠ .categorical)
    (h : slot.accepts actual = true) : slot.accepts actual.storage = true := by
  revert hslot h
  cases slot <;> cases actual <;> decide

/-- No slot takes categories, and the result is one of the types of cells. -/
def Signature.isStored (signature : Signature) (variadic : Option DataType) : Bool :=
  signature.inputs.all (· != .categorical) && variadic != some .categorical && signature.output.isConcrete

theorem Signature.ne_categorical_of_mem_slots {signature : Signature} {variadic : Option DataType} {extra : Nat}
    (h : signature.isStored variadic = true) {slot : DataType} (hslot : slot ∈ signature.slots variadic extra) :
    slot ≠ .categorical := by
  simp only [isStored, Bool.and_eq_true, List.all_eq_true, bne_iff_ne] at h
  obtain ⟨⟨hinputs, hvariadic⟩, -⟩ := h
  rcases List.mem_append.1 hslot with hslot | hslot
  · exact hinputs slot hslot
  · cases variadic with
    | none => simp at hslot
    | some other =>
      obtain rfl := (List.mem_replicate.1 hslot).2
      exact fun heq => hvariadic (congrArg some heq)

theorem Signature.length_le_of_accepts {signature : Signature} {variadic : Option DataType} {types : List DataType}
    (h : signature.accepts variadic types = true) : signature.inputs.length ≤ types.length := by
  simp only [accepts, Bool.and_eq_true, decide_eq_true_eq] at h
  exact h.1.1

theorem Signature.length_of_accepts {signature : Signature} {types : List DataType}
    (h : signature.accepts none types = true) : types.length = signature.inputs.length := by
  have hle := length_le_of_accepts h
  simp only [accepts, Bool.and_eq_true, List.isEmpty_iff, List.drop_eq_nil_iff] at h
  omega

theorem Operation.isStored_builtIn : ∀ operation ∈ builtIn, Memory.Kernel.hasOwnRule operation.name = false →
    ∀ signature ∈ operation.signatures, signature.isStored operation.variadic = true := by
  decide

namespace Memory

/-- Operands of a row fill the slots that their columns fill. -/
theorem endsWell_operandsAt {name : String} {slots : List DataType} {args : List Column} (row : Nat)
    (hslots : List.Forall₂ (fun slot (arg : Column) => slot.accepts arg.data.dataType = true) slots args)
    (hlengths : ∀ arg ∈ args, 0 < arg.length) :
    EndsWell Failure.Legitimate (Kernel.Fill slots) (operandsAt name (args.map (·.data.values.toArray)) row) := by
  induction hslots with
  | nil => exact .ok .nil
  | @cons slot arg slots args hslot _ ih =>
    obtain ⟨hfirst, hrest⟩ := List.forall_mem_cons.1 hlengths
    have hsize : 0 < arg.data.values.toArray.size := by
      rw [List.size_toArray, Series.length_values]
      exact hfirst
    unfold operandsAt at ih ⊢
    rw [List.map_cons, List.mapM_cons, dif_pos hsize]
    refine EndsWell.bind (P := fun v => slot.accepts v.dataType = true) (.ok ?_) fun v hv =>
      (ih hrest).bind fun cells hcells => .ok (.cons hv hcells)
    rw [Series.dataType_of_mem_values (s := arg.data)]
    · exact hslot
    · simp

/-- The columns that a row-wise operation is resolved for fill its slots with what they store. -/
theorem fill_rowWise {op : Resolved} {args : List Column} (happlies : op.Applies (args.map (·.dataType)))
    (hargs : ∀ arg ∈ args, arg.Typed) (hrule : Kernel.hasOwnRule op.name = false) :
    ∃ extra, List.Forall₂ (fun slot (arg : Column) => slot.accepts arg.data.dataType = true)
      (op.signature.slots op.operation.variadic extra) args := by
  have hstored := Operation.isStored_builtIn _ happlies.builtIn hrule _ happlies.signature
  obtain ⟨extra, haccepts⟩ := Signature.forall₂_of_accepts happlies.accepts
  rw [List.forall₂_map_right_iff] at haccepts
  refine ⟨extra, List.forall₂_iff_zip.2 ⟨haccepts.length_eq, fun {slot arg} hmem => ?_⟩⟩
  rw [hargs arg (List.of_mem_zip hmem).2]
  exact DataType.accepts_storage (Signature.ne_categorical_of_mem_slots hstored (List.of_mem_zip hmem).1)
    ((List.forall₂_iff_zip.1 haccepts).2 hmem)

/-- A row-wise operation gives a column of cells. -/
theorem isConcrete_rowWise {op : Resolved} {types : List DataType} (happlies : op.Applies types)
    (hrule : Kernel.hasOwnRule op.name = false) : op.output.isConcrete = true := by
  have hstored := Operation.isStored_builtIn _ happlies.builtIn hrule _ happlies.signature
  simp only [Signature.isStored, Bool.and_eq_true] at hstored
  exact hstored.2

/-- The kernel of a row-wise operation is there, finds its operands, and gives cells of the output. -/
theorem endsWell_rowWise {op : Resolved} {args : List Column} (happlies : op.Applies (args.map (·.dataType)))
    (hargs : ∀ arg ∈ args, arg.Typed) (hscalar : op.isScalar = false) (hrule : Kernel.hasOwnRule op.name = false) :
    EndsWell Failure.Legitimate (fun _ => True) (rowWise op args) := by
  obtain ⟨kernel, hkernel, hfits⟩ := Kernel.hasKernels _ happlies.builtIn hscalar hrule _ happlies.signature
  obtain ⟨extra, hslots⟩ := fill_rowWise happlies hargs hrule
  unfold rowWise
  rw [show Kernel.named? op.name op.output = some kernel from hkernel]
  refine (endsWell_broadcastLength op.name _).bind fun rows hrows => ?_
  refine (Series.endsWell_collect (isConcrete_rowWise happlies hrule) (fun _ => rfl) fun row hrow => ?_).bind
    fun _ _ => trivial
  have hnonempty : ∀ arg ∈ args, 0 < arg.length := fun arg harg =>
    hrows (Nat.zero_lt_of_lt (List.mem_range.1 hrow)) _ (List.mem_map_of_mem harg)
  exact (endsWell_operandsAt row hslots hnonempty).bind fun cells hcells =>
    (hfits extra cells hcells).mapError fun _ hfault => hfault

/-! ## Aggregates -/

/-- Whether an aggregate of this name takes the columns that fill the first slot to a value. -/
def takesColumn (name : String) (signature : Signature) : Bool :=
  match name with
  | "sum" => signature.inputs.head? == some .integer || signature.inputs.head? == some .float
  | "count" | "mean" | "min" | "max" | "quantile" => true
  | _ => false

theorem takesColumn_builtIn : ∀ operation ∈ Operation.builtIn, operation.scalar = true →
    ∀ signature ∈ operation.signatures, takesColumn operation.name signature = true ∧
      0 < signature.inputs.length ∧ signature.output.isConcrete = true := by
  decide

theorem endsWell_quantileLevel (constant : Option Value) :
    EndsWell Failure.Legitimate (fun _ => True) (Parameter.quantileLevel constant) := by
  unfold Parameter.quantileLevel
  split
  · split
    · trivial
    · exact .error rfl
  · exact .error rfl

theorem endsWell_run {name : String} {signature : Signature} {data : Series} {level : Option Value}
    (htakes : takesColumn name signature = true)
    (hdata : ∀ slot, signature.inputs.head? = some slot → slot.isConcrete = true → data.dataType = slot) :
    EndsWell Failure.Legitimate (fun _ => True) (Aggregate.run name data level) := by
  unfold Aggregate.run
  split
  · trivial
  -- A total is one of integers or of floats.
  · simp only [takesColumn, Bool.or_eq_true, beq_iff_eq] at htakes
    have htype : data.dataType = .integer ∨ data.dataType = .float :=
      htakes.imp (fun h => hdata _ h rfl) fun h => hdata _ h rfl
    cases data with
    | integers cells =>
      dsimp only
      split
      · trivial
      · exact .error rfl
    | floats cells => trivial
    | strings cells => simp [Series.dataType] at htype
    | dates cells => simp [Series.dataType] at htype
  · split
    · exact .error rfl
    · trivial
  · split
    · trivial
    · exact .error rfl
  · split
    · trivial
    · exact .error rfl
  · refine (endsWell_quantileLevel level).bind fun _ _ => ?_
    split
    · trivial
    · exact .error rfl
  · simp [takesColumn] at htakes

theorem exists_scalar {v : Value} (h : v.dataType.isConcrete = true) : ∃ s, Series.scalar v = .ok s := by
  cases v with
  | null => simp [Value.dataType, DataType.isConcrete] at h
  | _ => exact ⟨_, rfl⟩

theorem endsWell_aggregate {op : Resolved} {args : List Column} (happlies : op.Applies (args.map (·.dataType)))
    (hargs : ∀ arg ∈ args, arg.Typed) (hscalar : op.isScalar = true) :
    EndsWell Failure.Legitimate (fun _ => True) (aggregate op args) := by
  obtain ⟨htakes, hinputs, houtput⟩ := takesColumn_builtIn _ happlies.builtIn hscalar _ happlies.signature
  cases args with
  | nil => exact absurd (Signature.length_le_of_accepts happlies.accepts) (Nat.not_le_of_lt hinputs)
  | cons arg more =>
    have hdata : ∀ slot, op.signature.inputs.head? = some slot → slot.isConcrete = true → arg.data.dataType = slot :=
      fun slot hslot hconcrete => (hargs arg List.mem_cons_self).trans
        (DataType.storage_of_accepts hconcrete (Signature.accepts_head happlies.accepts hslot))
    unfold aggregate
    refine (endsWell_run htakes hdata).bind_ok fun value hvalue => ?_
    have htype := Aggregate.dataType_run happlies.outputFits hdata hvalue
    obtain ⟨s, hs⟩ := exists_scalar (htype ▸ houtput)
    rw [hs]
    trivial

/-! ## Operations with a rule of their own -/

/-- How many operands the operations with a rule of their own have at least, or exactly if there are no more. -/
theorem arity_ownRule : ∀ operation ∈ Operation.builtIn, ∀ signature ∈ operation.signatures,
    (operation.name = "cast" → signature.inputs.length = 2 ∧ operation.variadic = none) ∧
      (operation.name = "cat" → signature.inputs.length = 1) ∧
      (operation.name = "applyCat" → signature.inputs.length = 3 ∧ operation.variadic = none) := by
  decide

theorem endsWell_castTarget (constant : Option Value) :
    EndsWell Failure.Legitimate (fun type => type.isConcrete = true) (Parameter.castTarget constant) := by
  unfold Parameter.castTarget
  split
  · exact .error rfl
  · rename_i name _
    have hname : EndsWell SeriesFault.Legitimate (fun _ => True) (DataType.ofName name) := by
      unfold DataType.ofName
      split
      · trivial
      · exact .error rfl
    refine hname.lift.bind fun type _ => ?_
    split
    · rename_i hconcrete
      exact .ok hconcrete
    · exact .error rfl

/-- What a value is cast to has the type it is cast to. -/
theorem dataType_cast? {patterns : List String} {target : DataType} {v w : Value} (hv : v ≠ .null)
    (h : v.cast? patterns target = some w) : w.dataType = target := by
  cases v <;> cases target <;> simp_all [Value.cast?]
  all_goals
    first
    | obtain rfl := h
      rfl
    | obtain ⟨_, _, rfl⟩ := h
      rfl
    | obtain ⟨_, _, _, rfl⟩ := h
      rfl

theorem endsWell_cast {patterns : List String} {type : DataType} (htype : type.isConcrete = true) (s : Series) :
    EndsWell SeriesFault.Legitimate (fun _ => True) (s.cast patterns type) := by
  have hstorage : type.storage = type := by
    revert htype
    cases type <;> decide
  unfold Series.cast
  split
  · trivial
  · rw [hstorage]
    refine Series.endsWell_collect htype (fun _ => rfl) fun v hv => ?_
    have hne : v ≠ .null := by
      rintro rfl
      have hnull := Series.dataType_of_mem_values hv
      cases s <;> cases hnull
    unfold Value.cast
    split
    · rename_i w hw
      refine .ok ?_
      rw [DataType.stores, dataType_cast? hne hw, beq_self_eq_true, Bool.true_or]
    · exact .error rfl

theorem endsWell_threshold (constant : Option Value) :
    EndsWell Failure.Legitimate (fun _ => True) (Parameter.threshold constant) := by
  unfold Parameter.threshold
  split
  · split
    · exact .error rfl
    · trivial
  · exact .error rfl

theorem endsWell_castColumn {options : Options} {args : List Column} (hlength : args.length = 2) :
    EndsWell Failure.Legitimate (fun _ => True) (cast options args) := by
  obtain ⟨value, target, rfl⟩ := List.length_eq_two.1 hlength
  unfold cast
  exact (endsWell_castTarget _).bind fun type htype => (endsWell_cast htype _).lift.bind fun _ _ => trivial

theorem endsWell_ofCodes {name : String} {codes : Series} {map : CategoryMap} (h : codes.dataType = .integer) :
    EndsWell Failure.Legitimate (fun _ => True) (Column.ofCodes name codes map) := by
  unfold Column.ofCodes
  rw [if_pos h]
  trivial

/-- The codes of a column that a map is built from are integers, as the map has the type of the column. -/
theorem endsWell_build (raw : Series) (threshold : Option Nat) :
    EndsWell SeriesFault.Legitimate (fun built => built.2.dataType = .integer) (CategoryMap.build raw threshold) := by
  have hencode : (CategoryMap.ofValues raw.dataType threshold raw.values).encode raw CategoryMap.otherCode =
      .ok (.integers (raw.values.map fun v =>
        ((CategoryMap.ofValues raw.dataType threshold raw.values).code? v).getD CategoryMap.otherCode)) := if_pos rfl
  unfold CategoryMap.build
  split
  · exact .error rfl
  · dsimp only
    rw [hencode]
    exact .ok rfl

theorem endsWell_categorize {options : Options} {args : List Column} (hlength : 0 < args.length) :
    EndsWell Failure.Legitimate (fun _ => True) (categorize options args) := by
  obtain ⟨raw, more, rfl⟩ := List.exists_cons_of_length_pos hlength
  have hthreshold : EndsWell Failure.Legitimate (fun _ => True) (categoryThreshold options more) := by
    unfold categoryThreshold
    split
    · trivial
    · exact (endsWell_threshold _).bind fun _ _ => trivial
    · exact .error rfl
  unfold categorize
  exact hthreshold.bind fun threshold _ => (endsWell_build _ _).lift.bind fun built hbuilt => endsWell_ofCodes hbuilt

/-- The refusal to encode a column with the map of a column of another raw type. -/
def isForeignMap : List Column → Failure → Bool
  | [raw, categorical, _], .series (.typeMismatch expected actual) =>
    expected != actual && raw.data.dataType == actual && categorical.categories.any (·.rawType == expected)
  | _, _ => false

/-- Whether an operation over these operands fails on itself. That a map has the raw type of a column is only known
    when `applyCat` runs, so this one mismatch is left to it. -/
def isOwnFault (op : Resolved) (args : List Column) (failure : Failure) : Bool :=
  failure.isInternal && !(op.name == "applyCat" && isForeignMap args failure)

theorem endsWell_applyCategories {args : List Column} (hlength : args.length = 3) :
    EndsWell (fun failure => failure.isInternal = false ∨ isForeignMap args failure = true) (fun _ => True)
      (applyCategories args) := by
  obtain ⟨raw, categorical, default, rfl⟩ := List.length_eq_three.1 hlength
  unfold applyCategories
  dsimp only
  split
  · exact .error (.inl rfl)
  · exact .error (.inl rfl)
  · rename_i map level hmap hlevel
    have hcode : EndsWell Failure.Legitimate (fun _ => True) (liftM (map.defaultCode level)) := by
      refine EndsWell.lift ?_
      unfold CategoryMap.defaultCode
      split
      · trivial
      · exact .error rfl
    refine (hcode.weaken fun _ hfailure => .inl hfailure).bind fun code _ => ?_
    unfold CategoryMap.encode
    split
    · have hinteger : ∀ codes, (Series.integers codes).dataType = .integer := fun _ => rfl
      exact (endsWell_ofCodes (hinteger _)).weaken fun _ hfailure => .inl hfailure
    · rename_i hforeign
      refine .error (.inr ?_)
      simp [isForeignMap, hmap, Ne.symm hforeign]

/-! ## Resolved operations -/

/-- An operation over typed operands that its signature accepts does not fail on itself. -/
theorem endsWell_execute {options : Options} {rows : Nat} {op : Resolved} {args : List Column}
    (happlies : op.Applies (args.map (·.dataType))) (hargs : ∀ arg ∈ args, arg.Typed) :
    EndsWell (fun failure => isOwnFault op args failure = false) (fun _ => True) (execute options rows op args) := by
  obtain ⟨hcast, hcat, hencode⟩ := arity_ownRule _ happlies.builtIn _ happlies.signature
  have hlengths := Signature.length_le_of_accepts happlies.accepts
  rw [List.length_map] at hlengths
  have hexact : op.operation.variadic = none → args.length = op.signature.inputs.length := by
    intro hnone
    have haccepts := happlies.accepts
    rw [hnone] at haccepts
    simpa using Signature.length_of_accepts haccepts
  have hown : ∀ {x : Except Failure Column}, EndsWell Failure.Legitimate (fun _ => True) x →
      EndsWell (fun failure => isOwnFault op args failure = false) (fun _ => True) x := by
    intro x hx
    refine hx.weaken fun failure hfailure => ?_
    rw [isOwnFault, show failure.isInternal = false from hfailure, Bool.false_and]
  unfold execute
  split
  · rename_i hname
    obtain ⟨hinputs, hnone⟩ := hcast hname
    exact hown (endsWell_castColumn ((hexact hnone).trans hinputs))
  · trivial
  · rename_i hname
    exact hown (endsWell_categorize (by rw [hcat hname] at hlengths; exact hlengths))
  · rename_i hname
    obtain ⟨hinputs, hnone⟩ := hencode hname
    refine (endsWell_applyCategories ((hexact hnone).trans hinputs)).weaken fun failure hfailure => ?_
    rcases hfailure with hfailure | hfailure
    · rw [isOwnFault, hfailure, Bool.false_and]
    · rw [isOwnFault, hfailure, show op.name = "applyCat" from hname]
      simp
  · rename_i hcast hnumber hcat hencode
    split
    · rename_i hscalar
      exact hown (endsWell_aggregate happlies hargs hscalar)
    · rename_i hscalar
      refine hown (endsWell_rowWise happlies hargs (by simpa using hscalar) ?_)
      simp only [Kernel.hasOwnRule, List.contains_eq_mem, List.mem_cons, List.not_mem_nil, or_false,
        decide_eq_false_iff_not, not_or]
      exact ⟨hcast, hnumber, hcat, hencode⟩

end Memory

end Tabular
