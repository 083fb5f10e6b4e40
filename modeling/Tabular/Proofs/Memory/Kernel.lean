-- SUMMARY: Kernels find their operands among cells that fill the slots of a signature, and give cells of its output.
import Tabular.Memory.Execute
import Tabular.Proofs.Operation.Resolve

/-!
# Kernels and signatures

A kernel is chosen by the name of the operation and the type of the result, and knows nothing of the slots of the
signature. That it finds operands of the kind it looks for is a property of the table of signatures: each row-wise
operation has a kernel for each of its signatures, and over cells that fill the slots the kernel gives a cell that can
be stored in a column of the output, or fails for a reason that lies in the values: an overflow, a division by zero, or
a number outside the domain of a function.
-/

namespace Tabular

/-! ## Legitimate failures -/

/-- Whether the fault is the kernel's own: it does not find the operand that it looks for. -/
def CellFault.isInternal : CellFault → Bool
  | missingOperand _ | notInteger _ | notNumber _ | notString _ => true
  | overflow | divisionByZero | logarithm _ | squareRoot _ => false

/-- Faults that lie in the values of the cells. -/
def CellFault.Legitimate (fault : CellFault) : Prop := fault.isInternal = false

/-! ## Slots -/

/-- Whether a value can be stored in a column of the type: an integer is widened to a float. -/
def DataType.stores (type : DataType) (v : Value) : Bool :=
  v.dataType == type || type == .float && v.dataType == .integer

/-- The slots for so many operands more than the inputs. -/
def Signature.slots (signature : Signature) (variadic : Option DataType) (extra : Nat) : List DataType :=
  signature.inputs ++ variadic.elim [] (List.replicate extra ·)

/-- A signature that accepts types has a slot for each of them. -/
theorem Signature.forall₂_of_accepts {inputs : List DataType} {output : DataType} {variadic : Option DataType}
    {types : List DataType} (h : Signature.accepts ⟨inputs, output⟩ variadic types = true) :
    ∃ extra, List.Forall₂ (fun slot type => slot.accepts type = true) (slots ⟨inputs, output⟩ variadic extra)
      types := by
  induction inputs generalizing types with
  | nil =>
    cases variadic with
    | none =>
      obtain rfl : types = [] := by simpa [accepts] using h
      exact ⟨0, .nil⟩
    | some slot =>
      have hall : ∀ type ∈ types, slot.accepts type = true := by simpa [accepts] using h
      refine ⟨types.length, ?_⟩
      rw [slots, List.nil_append, Option.elim_some, ← List.map_const', List.forall₂_map_left_iff, List.forall₂_same]
      exact hall
  | cons slot inputs ih =>
    cases types with
    | nil => simp [accepts] at h
    | cons type types =>
      simp only [accepts, List.length_cons, List.drop_succ_cons, List.zip_cons_cons, List.all_cons, Bool.and_eq_true,
        Nat.add_le_add_iff_right] at h
      obtain ⟨⟨hlength, hslot, hinputs⟩, hextra⟩ := h
      have haccepts : accepts ⟨inputs, output⟩ variadic types = true := by
        simp only [accepts, Bool.and_eq_true]
        exact ⟨⟨hlength, hinputs⟩, hextra⟩
      obtain ⟨extra, hfill⟩ := ih haccepts
      exact ⟨extra, .cons hslot hfill⟩

namespace Memory.Kernel

/-! ## Operands -/

/-- The cells of a row fill slots. -/
abbrev Fill (slots : List DataType) (cells : List Value) : Prop :=
  List.Forall₂ (fun slot v => slot.accepts v.dataType = true) slots cells

/-- Over cells that fill the slots, a kernel gives a cell that the output stores, or fails for a legitimate reason. -/
def Fits (kernel : Kernel) (slots : List DataType) (output : DataType) : Prop :=
  ∀ cells, Fill slots cells → EndsWell CellFault.Legitimate (fun v => output.stores v = true) (kernel cells)

/-- Types of numbers. -/
def isNumeric (type : DataType) : Bool := type == .integer || type == .float

theorem eq_integer {v : Value} (h : DataType.integer.accepts v.dataType = true) : ∃ n, v = .integer n := by
  cases v <;> simp_all [DataType.accepts, Value.dataType]

theorem exists_number {slot : DataType} (hslot : isNumeric slot = true) {v : Value}
    (h : slot.accepts v.dataType = true) : ∃ x, v.number? = some x := by
  cases slot <;> cases v <;> simp_all [isNumeric, DataType.accepts, Value.dataType, Value.number?]

theorem eq_string {v : Value} (h : DataType.string.accepts v.dataType = true) : ∃ s, v = .string s := by
  cases v <;> simp_all [DataType.accepts, Value.dataType]

theorem fill_one {slot : DataType} {cells : List Value} (h : Fill [slot] cells) :
    ∃ v, cells = [v] ∧ slot.accepts v.dataType = true := by
  obtain ⟨v, rest, hv, hrest, rfl⟩ := List.forall₂_cons_left_iff.1 h
  obtain rfl := List.forall₂_nil_left_iff.1 hrest
  exact ⟨v, rfl, hv⟩

theorem fill_two {slot slot' : DataType} {cells : List Value} (h : Fill [slot, slot'] cells) :
    ∃ v w, cells = [v, w] ∧ slot.accepts v.dataType = true ∧ slot'.accepts w.dataType = true := by
  obtain ⟨v, rest, hv, hrest, rfl⟩ := List.forall₂_cons_left_iff.1 h
  obtain ⟨w, rfl, hw⟩ := fill_one hrest
  exact ⟨v, w, rfl, hv, hw⟩

theorem fill_three {slot slot' slot'' : DataType} {cells : List Value} (h : Fill [slot, slot', slot''] cells) :
    ∃ u v w, cells = [u, v, w] ∧ slot.accepts u.dataType = true ∧ slot'.accepts v.dataType = true ∧
      slot''.accepts w.dataType = true := by
  obtain ⟨u, rest, hu, hrest, rfl⟩ := List.forall₂_cons_left_iff.1 h
  obtain ⟨v, w, rfl, hv, hw⟩ := fill_two hrest
  exact ⟨u, v, w, rfl, hu, hv, hw⟩

theorem integer_eq {cells : List Value} {index : Nat} {n : Int64} (h : cells[index]? = some (.integer n)) :
    integer cells index = .ok n := by
  simp [integer, operand, h, Value.integer?, bind, Except.bind, pure, Except.pure]

theorem number_eq {cells : List Value} {index : Nat} {v : Value} {x : Float} (h : cells[index]? = some v)
    (hx : v.number? = some x) : number cells index = .ok x := by
  simp [number, operand, h, hx, bind, Except.bind, pure, Except.pure]

/-! ## Shapes -/

/-- An exact integer is a cell, or it does not fit. -/
theorem endsWell_exactly (n : Int) :
    EndsWell CellFault.Legitimate (fun v => DataType.integer.stores v = true) (exactly n) := by
  unfold exactly
  split
  · exact .ok rfl
  · exact .error rfl

theorem fits_integer1 (f : Int → Int) : (integer1 f).Fits [.integer] .integer := by
  intro cells hcells
  obtain ⟨v, rfl, hv⟩ := fill_one hcells
  obtain ⟨n, rfl⟩ := eq_integer hv
  unfold integer1
  rw [integer_eq rfl]
  exact endsWell_exactly _

/-- A kernel of two integers. -/
theorem fits_of_integers {kernel : Kernel} (h : ∀ n k : Int64,
    EndsWell CellFault.Legitimate (fun v => DataType.integer.stores v = true) (kernel [.integer n, .integer k])) :
    kernel.Fits [.integer, .integer] .integer := by
  intro cells hcells
  obtain ⟨v, w, rfl, hv, hw⟩ := fill_two hcells
  obtain ⟨n, rfl⟩ := eq_integer hv
  obtain ⟨k, rfl⟩ := eq_integer hw
  exact h n k

theorem fits_integer2 (f : Int → Int → Int) : (integer2 f).Fits [.integer, .integer] .integer :=
  fits_of_integers fun _ _ => endsWell_exactly _

section Numbers

variable {slot slot' : DataType} (hslot : isNumeric slot = true) (hslot' : isNumeric slot' = true)

include hslot

/-- A kernel that goes on with the number of its one operand. -/
theorem fits_of_number {kernel : Kernel} {rest : Float → Except CellFault Value}
    (hkernel : ∀ cells, kernel cells = (number cells 0 >>= rest))
    (hrest : ∀ x, EndsWell CellFault.Legitimate (fun v => DataType.float.stores v = true) (rest x)) :
    kernel.Fits [slot] .float := by
  intro cells hcells
  obtain ⟨v, rfl, hv⟩ := fill_one hcells
  obtain ⟨x, hx⟩ := exists_number hslot hv
  rw [hkernel, number_eq rfl hx]
  exact hrest x

theorem fits_float1 (f : Float → Float) : (float1 f).Fits [slot] .float :=
  fits_of_number hslot (fun _ => rfl) fun _ => rfl

theorem fits_logarithm : logarithm.Fits [slot] .float := by
  refine fits_of_number hslot (fun _ => rfl) fun x => ?_
  split
  · exact .error rfl
  · exact .ok rfl

theorem fits_squareRoot : squareRoot.Fits [slot] .float := by
  refine fits_of_number hslot (fun _ => rfl) fun x => ?_
  split
  · exact .error rfl
  · exact .ok rfl

include hslot'

theorem fits_float2 (f : Float → Float → Float) : (float2 f).Fits [slot, slot'] .float := by
  intro cells hcells
  obtain ⟨v, w, rfl, hv, hw⟩ := fill_two hcells
  obtain ⟨x, hx⟩ := exists_number hslot hv
  obtain ⟨y, hy⟩ := exists_number hslot' hw
  unfold float2
  rw [number_eq rfl hx, number_eq rfl hy]
  exact .ok rfl

theorem fits_divide : divide.Fits [slot, slot'] .float := by
  intro cells hcells
  obtain ⟨v, w, rfl, hv, hw⟩ := fill_two hcells
  obtain ⟨x, hx⟩ := exists_number hslot hv
  obtain ⟨y, hy⟩ := exists_number hslot' hw
  unfold divide
  rw [number_eq rfl hy, number_eq rfl hx]
  dsimp only [bind, Except.bind]
  split
  · exact .error rfl
  · exact .ok rfl

end Numbers

/-- Any two cells can be tested. -/
theorem fits_comparison (test : Ordering → Bool) (slot slot' : DataType) :
    (comparison test).Fits [slot, slot'] .integer := by
  intro cells hcells
  obtain ⟨v, w, rfl, -, -⟩ := fill_two hcells
  exact .ok rfl

theorem fits_concat {slots : List DataType} (hslots : ∀ slot ∈ slots, slot = .string) :
    concat.Fits slots .string := by
  intro cells hcells
  have htexts : EndsWell CellFault.Legitimate (fun _ => True) (cells.mapM text) := by
    refine (EndsWell.mapM (R := fun _ _ => True) fun v hv => ?_).mono fun _ _ => trivial
    obtain ⟨slot, hslot, haccepts⟩ := exists_of_mem_forall₂ hcells hv
    rw [hslots slot hslot] at haccepts
    obtain ⟨s, rfl⟩ := eq_string haccepts
    exact trivial
  exact htexts.bind fun _ _ => .ok rfl

theorem fits_conjunction : conjunction.Fits [.integer, .integer] .integer := by
  refine fits_of_integers fun n k => ?_
  unfold conjunction
  rw [integer_eq rfl, integer_eq rfl]
  dsimp only [bind, Except.bind]
  split <;> exact .ok rfl

theorem fits_disjunction : disjunction.Fits [.integer, .integer] .integer := by
  refine fits_of_integers fun n k => ?_
  unfold disjunction
  rw [integer_eq rfl, integer_eq rfl]
  dsimp only [bind, Except.bind]
  split <;> exact .ok rfl

theorem fits_negation : negation.Fits [.integer] .integer := by
  intro cells hcells
  obtain ⟨v, rfl, hv⟩ := fill_one hcells
  obtain ⟨n, rfl⟩ := eq_integer hv
  exact .ok rfl

/-- Whether all that fills a slot can be stored in a column of the output. -/
def storesSlot (output slot : DataType) : Bool :=
  slot == output && (output == .integer || output == .float || output == .string || output == .date) ||
    output == .float && slot == .integer

theorem stores_of_storesSlot {output slot : DataType} (h : storesSlot output slot = true) {v : Value}
    (hv : slot.accepts v.dataType = true) : output.stores v = true := by
  revert h hv
  cases output <;> cases slot <;> cases v <;> simp [storesSlot, DataType.stores, DataType.accepts, Value.dataType]

theorem fits_choice {output slot slot' : DataType} (hslot : storesSlot output slot = true)
    (hslot' : storesSlot output slot' = true) : choice.Fits [.integer, slot, slot'] output := by
  intro cells hcells
  obtain ⟨u, v, w, rfl, hu, hv, hw⟩ := fill_three hcells
  obtain ⟨n, rfl⟩ := eq_integer hu
  unfold choice
  rw [integer_eq rfl]
  dsimp only [bind, Except.bind]
  split
  · exact stores_of_storesSlot hslot hv
  · exact stores_of_storesSlot hslot' hw

/-! ## The table of kernels -/

/-- An operation of the name has a kernel that fits each of the signatures. -/
def HasKernels (name : String) (variadic : Option DataType) (signatures : List Signature) : Prop :=
  ∀ signature ∈ signatures, ∃ kernel, named? name signature.output = some kernel ∧
    ∀ extra, kernel.Fits (signature.slots variadic extra) signature.output

section Signatures

open Operation

variable {name : String}

theorem hasKernels_single {inputs : List DataType} {output : DataType} {kernel : Kernel}
    (hkernel : named? name output = some kernel) (hfits : kernel.Fits inputs output) :
    HasKernels name none [sig inputs output] := by
  intro signature hsignature
  obtain rfl := List.mem_singleton.1 hsignature
  refine ⟨kernel, hkernel, fun extra => ?_⟩
  rw [Signature.slots, Option.elim_none, List.append_nil]
  exact hfits

theorem HasKernels.append {variadic : Option DataType} {signatures more : List Signature}
    (h : HasKernels name variadic signatures) (hmore : HasKernels name variadic more) :
    HasKernels name variadic (signatures ++ more) :=
  List.forall_mem_append.2 ⟨h, hmore⟩

theorem hasKernels_numeric {f : Int → Int → Int} {g : Float → Float → Float}
    (hinteger : named? name .integer = some (integer2 f)) (hfloat : named? name .float = some (float2 g)) :
    HasKernels name none numeric :=
  (hasKernels_single hinteger (fits_integer2 f)).append <| (hasKernels_single hfloat (fits_float2 rfl rfl g)).append <|
    (hasKernels_single hfloat (fits_float2 rfl rfl g)).append (hasKernels_single hfloat (fits_float2 rfl rfl g))

theorem hasKernels_quotient {kernel : Kernel} (hkernel : named? name .float = some kernel)
    (hfits : ∀ slot slot', isNumeric slot = true → isNumeric slot' = true → kernel.Fits [slot, slot'] .float) :
    HasKernels name none quotient :=
  (hasKernels_single hkernel (hfits _ _ rfl rfl)).append <| (hasKernels_single hkernel (hfits _ _ rfl rfl)).append <|
    (hasKernels_single hkernel (hfits _ _ rfl rfl)).append (hasKernels_single hkernel (hfits _ _ rfl rfl))

theorem hasKernels_sameNumber {f : Int → Int} {g : Float → Float} (hinteger : named? name .integer = some (integer1 f))
    (hfloat : named? name .float = some (float1 g)) : HasKernels name none sameNumber :=
  (hasKernels_single hinteger (fits_integer1 f)).append (hasKernels_single hfloat (fits_float1 rfl g))

theorem hasKernels_floatOfNumber {kernel : Kernel} (hkernel : named? name .float = some kernel)
    (hfits : ∀ slot, isNumeric slot = true → kernel.Fits [slot] .float) : HasKernels name none floatOfNumber :=
  (hasKernels_single hkernel (hfits _ rfl)).append (hasKernels_single hkernel (hfits _ rfl))

theorem hasKernels_comparable {test : Ordering → Bool} (hkernel : named? name .integer = some (comparison test)) :
    HasKernels name none comparable := by
  have hsingle : ∀ slot slot', HasKernels name none [sig [slot, slot'] .integer] := fun slot slot' =>
    hasKernels_single hkernel (fits_comparison test slot slot')
  exact (hsingle _ _).append <| (hsingle _ _).append <| (hsingle _ _).append <| (hsingle _ _).append <|
    (hsingle _ _).append (hsingle _ _)

theorem hasKernels_branches (hkernel : ∀ output, named? name output = some choice) : HasKernels name none branches := by
  have hsingle : ∀ slot slot' output, storesSlot output slot = true → storesSlot output slot' = true →
      HasKernels name none [sig [.integer, slot, slot'] output] := fun slot slot' output hslot hslot' =>
    hasKernels_single (hkernel output) (fits_choice hslot hslot')
  exact (hsingle _ _ _ rfl rfl).append <| (hsingle _ _ _ rfl rfl).append <| (hsingle _ _ _ rfl rfl).append <|
    (hsingle _ _ _ rfl rfl).append <| (hsingle _ _ _ rfl rfl).append (hsingle _ _ _ rfl rfl)

theorem hasKernels_concat : HasKernels "concat" (some .string) [sig [.string, .string] .string] := by
  intro signature hsignature
  obtain rfl := List.mem_singleton.1 hsignature
  refine ⟨concat, rfl, fun extra => fits_concat fun slot hslot => ?_⟩
  rcases List.mem_append.1 hslot with hslot | hslot
  · simpa [sig] using hslot
  · exact (List.mem_replicate.1 hslot).2

end Signatures

/-- Operations with a rule of their own. -/
def hasOwnRule (name : String) : Bool := ["cast", "row_number", "cat", "applyCat"].contains name

theorem hasKernels_arithmetic :
    ∀ operation ∈ Operation.arithmetic, HasKernels operation.name operation.variadic operation.signatures := by
  simp only [Operation.arithmetic, List.forall_mem_cons]
  exact ⟨(hasKernels_numeric rfl rfl).append (hasKernels_single rfl (fits_concat (by simp))),
    hasKernels_numeric rfl rfl, hasKernels_numeric rfl rfl,
    hasKernels_quotient rfl fun _ _ h h' => fits_divide h h',
    hasKernels_quotient rfl fun _ _ h h' => fits_float2 h h' _,
    hasKernels_sameNumber rfl rfl, hasKernels_sameNumber rfl rfl,
    hasKernels_floatOfNumber rfl fun _ h => fits_float1 h _, hasKernels_floatOfNumber rfl fun _ h => fits_logarithm h,
    hasKernels_floatOfNumber rfl fun _ h => fits_squareRoot h, by simp⟩

theorem hasKernels_logical :
    ∀ operation ∈ Operation.logical, HasKernels operation.name operation.variadic operation.signatures := by
  simp only [Operation.logical, List.map_cons, List.map_nil, List.cons_append, List.nil_append, List.forall_mem_cons]
  exact ⟨hasKernels_comparable rfl, hasKernels_comparable rfl, hasKernels_comparable rfl, hasKernels_comparable rfl,
    hasKernels_comparable rfl, hasKernels_comparable rfl, hasKernels_single rfl fits_conjunction,
    hasKernels_single rfl fits_disjunction, hasKernels_single rfl fits_negation, hasKernels_branches fun _ => rfl,
    by simp⟩

/-- Each row-wise operation has a kernel that fits each of its signatures. -/
theorem hasKernels : ∀ operation ∈ Operation.builtIn, operation.scalar = false → hasOwnRule operation.name = false →
    HasKernels operation.name operation.variadic operation.signatures := by
  intro operation hoperation hscalar hrule
  rcases List.mem_append.1 hoperation with hoperation | hoperation
  · rcases List.mem_append.1 hoperation with hoperation | hoperation
    · rcases List.mem_append.1 hoperation with hoperation | hoperation
      · exact hasKernels_arithmetic operation hoperation
      · exact hasKernels_logical operation hoperation
    -- Of the texts and categories only `concat` has no rule of its own.
    · simp only [Operation.textual, List.mem_cons, List.not_mem_nil, or_false] at hoperation
      rcases hoperation with rfl | rfl | rfl | rfl
      · cases hrule
      · exact hasKernels_concat
      · cases hrule
      · cases hrule
  · have hnone : ∀ operation ∈ Operation.aggregates, operation.scalar = true ∨ hasOwnRule operation.name = true := by
      decide
    rcases hnone operation hoperation with h | h
    · rw [hscalar] at h
      cases h
    · rw [hrule] at h
      cases h

end Memory.Kernel

end Tabular
