-- SUMMARY: What resolving promises: a built-in signature that accepts the operands, and the type of the result.
import Tabular.Operation.Operand
import Tabular.Operation.Parameter
import Tabular.Proofs.Results

/-!
# Resolved operations

Resolving gives an operation of the library with one of its signatures, and the signature accepts the types of
the operands, those that are read again as text included. The type of the result is the output of that signature,
except that a cast has the type that its second operand names. Of the table of signatures it is used that an
output agrees with how the operation of that name is carried out (`outputFits`).
-/

namespace Tabular

/-! ## Types of results -/

/-- The type of the result over operands with these constants. -/
def Resolved.resultType (r : Resolved) (constants : List (Option Value)) : Except Failure DataType :=
  if r.name = "cast" then Parameter.castTarget (constants.getD 1 none) else .ok r.output

theorem Resolved.resultType_of_ne {r : Resolved} {constants : List (Option Value)} (h : r.name ≠ "cast") :
    r.resultType constants = .ok r.output := by
  rw [resultType, if_neg h]

/-- A built-in operation and a signature of it that accepts the types. -/
structure Resolved.Applies (r : Resolved) (types : List DataType) : Prop where
  builtIn : r.operation ∈ Operation.builtIn
  signature : r.signature ∈ r.operation.signatures
  accepts : r.signature.accepts r.operation.variadic types = true

theorem Resolved.of_ok {name : String} {types : List DataType} {r : Resolved} (h : Resolved.of name types = .ok r) :
    r.name = name ∧ r.Applies types := by
  unfold Resolved.of at h
  split at h
  · rename_i operation hnamed
    unfold Operation.named? at hnamed
    have hname : operation.name = name := by simpa using List.find?_some hnamed
    unfold Operation.resolve at h
    split at h
    · simp at h
    · split at h
      · rename_i signature hfind
        have haccepts : signature.accepts operation.variadic types = true := by simpa using List.find?_some hfind
        obtain rfl := by simpa using h
        exact ⟨hname, List.mem_of_find?_eq_some hnamed, List.mem_of_find?_eq_some hfind, haccepts⟩
      · simp at h
  · simp at h

/-- The types over which the operation is resolved, once it is known whether quoted dates are taken as text. -/
def Resolved.operandTypes (operands : List (Expr × DataType)) (asText : Bool) : List DataType :=
  if asText then textTypes operands else operands.map (·.2)

theorem Resolved.length_operandTypes (operands : List (Expr × DataType)) (asText : Bool) :
    (operandTypes operands asText).length = operands.length := by
  unfold operandTypes textTypes
  split <;> exact List.length_map _

/-- An operand is a quoted date, or it is handed over as it is. -/
theorem Resolved.quotedDate_cases (e : Expr) (type : DataType) :
    (∃ content, e = .quoted content ∧ type = .date) ∨ isQuotedDate e type = false := by
  cases e with
  | quoted content => cases type <;> simp [isQuotedDate]
  | _ => exact .inr rfl

theorem Resolved.ofOperands_ok {name : String} {operands : List (Expr × DataType)} {r : Resolved} {asText : Bool}
    (h : Resolved.ofOperands name operands = .ok (r, asText)) :
    r.name = name ∧ r.Applies (operandTypes operands asText) := by
  unfold ofOperands at h
  split at h
  · rename_i hof
    obtain ⟨rfl, rfl⟩ := by simpa using h
    exact of_ok hof
  · split at h
    · split at h
      · rename_i hof
        obtain ⟨rfl, rfl⟩ := by simpa using h
        exact of_ok hof
      · simp at h
    · simp at h
  · simp at h

/-! ## The table of signatures -/

/-- Whether an operation of this name, as it is carried out, gives the output of the signature. -/
def Signature.outputFits (signature : Signature) (name : String) : Bool :=
  match name with
  | "row_number" | "count" => signature.output == .integer
  | "cat" | "applyCat" => signature.output == .categorical
  | "mean" | "quantile" => signature.output == .float
  | "sum" | "min" | "max" => signature.inputs.head? == some signature.output && signature.output.isConcrete
  | _ => signature.output != .categorical

theorem Operation.outputFits_builtIn :
    ∀ operation ∈ builtIn, ∀ signature ∈ operation.signatures, signature.outputFits operation.name = true := by
  decide

theorem Resolved.Applies.outputFits {r : Resolved} {types : List DataType} (h : r.Applies types) :
    r.signature.outputFits r.name = true :=
  Operation.outputFits_builtIn _ h.builtIn _ h.signature

/-- A slot of a concrete type only takes types that are stored as this type. -/
theorem DataType.storage_of_accepts {slot actual : DataType} (hslot : slot.isConcrete = true)
    (h : slot.accepts actual = true) : actual.storage = slot := by
  revert hslot h
  cases slot <;> cases actual <;> decide

/-- A first operand fills the first slot. -/
theorem Signature.accepts_head {signature : Signature} {variadic : Option DataType} {type slot : DataType}
    {types : List DataType} (h : signature.accepts variadic (type :: types) = true)
    (hslot : signature.inputs.head? = some slot) : slot.accepts type = true := by
  unfold Signature.accepts at h
  cases hinputs : signature.inputs with
  | nil => simp [hinputs] at hslot
  | cons first rest =>
    obtain rfl : first = slot := by simpa [hinputs] using hslot
    simp only [hinputs, List.zip_cons_cons, List.all_cons, Bool.and_eq_true] at h
    exact h.1.2.1

/-- The second operand of every cast is a text. -/
theorem Operation.inputs_cast :
    ∀ operation ∈ Operation.builtIn, operation.name = "cast" →
      ∀ signature ∈ operation.signatures, signature.inputs = [.any, .string] := by
  decide

theorem Resolved.Applies.string_of_cast {r : Resolved} {first second : DataType} {rest : List DataType}
    (h : r.Applies (first :: second :: rest)) (hname : r.name = "cast") : second = .string := by
  have hinputs := Operation.inputs_cast _ h.builtIn hname _ h.signature
  have haccepts := h.accepts
  simp only [Signature.accepts, hinputs, List.zip_cons_cons, List.all_cons, Bool.and_eq_true, DataType.accepts,
    beq_iff_eq] at haccepts
  exact haccepts.1.2.2.1.symm

end Tabular
