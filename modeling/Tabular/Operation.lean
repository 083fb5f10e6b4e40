-- SUMMARY: Operations: their signatures, and which signature takes a list of operand types.
import Tabular.Failure

/-!
# Operations

An operation has a name and a list of signatures in a fixed order. Operand types are resolved by walking
the list: the first signature whose slots accept the types wins, so the order is part of the operation's
contract. Whether any signature has the right number of slots is decided first.
-/

namespace Tabular

/-- One accepted list of operand types and the type of the result. -/
structure Signature where
  inputs : List DataType
  output : DataType
  deriving DecidableEq, Repr

structure Operation where
  name : String
  signatures : List Signature
  /-- The type of operands past the slots of a signature, if there may be any. -/
  variadic : Option DataType
  /-- A scalar operation takes whole operands and gives one value. -/
  scalar : Bool
  deriving DecidableEq, Repr

/-- Whether the slots accept the types, with extra operands for the variadic slot. -/
def Signature.accepts (signature : Signature) (variadic : Option DataType) (types : List DataType) : Bool :=
  let extra := types.drop signature.inputs.length
  signature.inputs.length ≤ types.length &&
    (signature.inputs.zip types).all (fun (slot, actual) => slot.accepts actual) &&
    match variadic with
    | some slot => extra.all slot.accepts
    | none => extra.isEmpty

namespace Operation

/-- Whether a signature can have this many operands. -/
def fitsArity (operation : Operation) (count : Nat) (signature : Signature) : Bool :=
  match operation.variadic with
  | some _ => signature.inputs.length ≤ count
  | none => count == signature.inputs.length

/-- The numbers of operands that are expected, in words. -/
def expectedArity (operation : Operation) : String :=
  let counts := ((operation.signatures.map (·.inputs.length)).mergeSort (· ≤ ·)).eraseDups
  let listed := " or ".intercalate (counts.map toString)
  match operation.variadic with
  | some _ => s!"at least {listed}"
  | none => listed

end Operation

/-- An operation and the signature that took the operands. -/
structure Resolved where
  operation : Operation
  signature : Signature
  deriving DecidableEq, Repr

namespace Resolved

def name (r : Resolved) : String := r.operation.name
def output (r : Resolved) : DataType := r.signature.output
def isScalar (r : Resolved) : Bool := r.operation.scalar

end Resolved

/-- The first signature of the operation that accepts the types. -/
def Operation.resolve (operation : Operation) (types : List DataType) : Except Failure Resolved :=
  if !operation.signatures.any (operation.fitsArity types.length) then
    .error (.arity operation.name operation.expectedArity types.length)
  else
    match operation.signatures.find? (·.accepts operation.variadic types) with
    | some signature => .ok ⟨operation, signature⟩
    | none => .error (.noSignature operation.name types)

/-- The number of rows of a row-wise operation over operands of these lengths. An operand of length one
    is a scalar and goes with any number of rows, none included; all others must be equally long. -/
def broadcastLength (operation : String) (lengths : List Nat) : Except Failure Nat :=
  match lengths.filter (· ≠ 1) with
  | [] => .ok 1
  | expected :: rest =>
    match rest.find? (· ≠ expected) with
    | none => .ok expected
    | some length => .error (.execution operation (.broadcast length expected))

end Tabular
