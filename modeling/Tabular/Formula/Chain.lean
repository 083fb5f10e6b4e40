-- SUMMARY: Chains: operands with operators of one level between them, and signs in front of an operand.
import Tabular.Formula.Fault
import Tabular.Formula.Occurrence

/-!
# Chains

A text is cut at all its operators of one level at once. What stands between the cuts are the operands,
which hold only operators that bind tighter. An operand that is missing is looked for from the last
operator to the first, and is reported with the text up to the operand after it. Cutting loses nothing
(`chars_of_loosest?`), and every operand is shorter than the text.
-/

namespace Tabular

/-- Operands with operators between them. -/
structure Chain where
  first : List Char
  /-- Each operator with the operand behind it. -/
  links : List (BinaryOp × List Char)
  deriving DecidableEq, Repr

namespace Chain

/-- An operator and the operand behind it. -/
def linkChars (link : BinaryOp × List Char) : List Char := link.1.spelling ++ link.2

/-- The text of a chain. -/
def chars (chain : Chain) : List Char := chain.first ++ chain.links.flatMap linkChars

/-! ## Cutting -/

/-- Cut at the operators of a level that stand between operands. -/
def cut (level : Nat) (last : List Char) : List Occurrence → Chain
  | [] => ⟨last, []⟩
  | o :: more =>
    let chain := cut level last more
    match o.symbol with
    | .binary op =>
      if !o.leads && op.level == level then ⟨o.before, (op, chain.first) :: chain.links⟩
      else { chain with first := o.chars ++ chain.first }
    | .bang => { chain with first := o.chars ++ chain.first }

/-- Cut at the operators of the loosest level that occurs. -/
def loosest? (found : List Occurrence) (last : List Char) : Option Chain :=
  BinaryOp.levels.findSome? fun level =>
    let chain := cut level last found
    if chain.links.isEmpty then none else some chain

theorem chars_cut (level : Nat) (last : List Char) (found : List Occurrence) :
    (cut level last found).chars = joined found last := by
  induction found with
  | nil => simp [cut, chars, joined]
  | cons o more ih =>
    simp only [chars, joined] at ih
    cases hsymbol : o.symbol with
    | binary op =>
      simp only [cut, hsymbol]
      split
      · simp only [chars, joined, List.flatMap_cons, linkChars, Occurrence.chars, hsymbol, Symbol.spelling,
          List.append_assoc]
        rw [← ih]
      · simp only [chars, joined, List.flatMap_cons, List.append_assoc]
        rw [ih]
    | bang =>
      simp only [cut, hsymbol, chars, joined, List.flatMap_cons, List.append_assoc]
      rw [ih]

theorem chars_of_loosest? {found : List Occurrence} {last : List Char} {chain : Chain}
    (h : loosest? found last = some chain) : chain.chars = joined found last ∧ chain.links ≠ [] := by
  obtain ⟨level, _, hlevel⟩ := List.exists_of_findSome?_eq_some h
  dsimp only at hlevel
  split at hlevel
  · simp at hlevel
  · rename_i hlinks
    obtain rfl := by simpa using hlevel
    exact ⟨chars_cut level last found, by simpa using hlinks⟩

/-! ## Operands -/

theorem length_linkChars (link : BinaryOp × List Char) : link.2.length < (linkChars link).length := by
  have := List.length_pos_iff.2 (Symbol.binary link.1).spelling_ne_nil
  simp only [Symbol.spelling] at this
  simp only [linkChars, List.length_append]
  omega

/-- The first operand is shorter than a chain with an operator. -/
theorem length_first {chain : Chain} (h : chain.links ≠ []) : chain.first.length < chain.chars.length := by
  cases hlinks : chain.links with
  | nil => exact absurd hlinks h
  | cons link more =>
    have := length_linkChars link
    simp only [chars, hlinks, List.flatMap_cons, List.length_append]
    omega

/-- An operand behind an operator is shorter than the chain. -/
theorem length_link {chain : Chain} {link : BinaryOp × List Char} (h : link ∈ chain.links) :
    link.2.length < chain.chars.length := by
  have := length_linkChars link
  have hmem : linkChars link ∈ chain.links.map linkChars := List.mem_map_of_mem h
  have := (List.sublist_flatten_of_mem hmem).length_le
  simp only [chars, List.flatMap, List.length_append]
  omega

/-- The text of a first operand and links, the links given backwards, without the blanks behind it. -/
def shown (first : List Char) (links : List (BinaryOp × List Char)) : String :=
  String.ofList (Text.trimEnd (chars ⟨first, links.reverse⟩))

/-- The fault of an operator that lacks an operand, among links given backwards: a blank operand is none. -/
def missingOperand? (first : List Char) : List (BinaryOp × List Char) → Option FormulaFault
  | [] => none
  | (op, operand) :: earlier =>
    if earlier.isEmpty && Text.allBlank first then
      some (.missingLeft (String.ofList op.spelling) (shown first ((op, operand) :: earlier)))
    else if Text.allBlank operand then
      some (.missingRight (String.ofList op.spelling) (shown first ((op, operand) :: earlier)))
    else missingOperand? first earlier

/-- Refuse a chain that lacks an operand. The blanks behind an operand belong to it only if it is the
    first. -/
def checked (chain : Chain) : Except FormulaFault Chain :=
  match missingOperand? chain.first chain.links.reverse with
  | some fault => .error fault
  | none => .ok { chain with links := chain.links.map fun (op, operand) => (op, Text.trimEnd operand) }

/-- The operands of a checked chain are shorter than the text that was cut. -/
theorem length_checked {chain c : Chain} (hlinks : chain.links ≠ []) (h : chain.checked = .ok c) :
    c.first.length < chain.chars.length ∧ ∀ link ∈ c.links, link.2.length < chain.chars.length := by
  unfold checked at h
  split at h
  · simp at h
  · obtain rfl := by simpa using h
    refine ⟨length_first hlinks, fun link hmem => ?_⟩
    obtain ⟨link', hmem', rfl⟩ := List.mem_map.1 hmem
    exact Nat.lt_of_le_of_lt (Text.length_trimEnd_le _) (length_link hmem')

end Chain

/-! ## Signs -/

/-- The symbols in front of a text's first operand, and what follows them. -/
def leading (found : List Occurrence) (last : List Char) : List Symbol × List Char :=
  ((found.takeWhile (·.leads)).map (·.symbol), joined (found.dropWhile (·.leads)) last)

/-- What follows the symbols in front of a text is shorter than the text. -/
theorem length_leading {found : List Occurrence} {last : List Char} (h : (leading found last).1 ≠ []) :
    (leading found last).2.length < (joined found last).length := by
  have hsplit := congrArg (fun l => (joined l last).length)
    (@List.takeWhile_append_dropWhile _ (fun o : Occurrence => o.leads) found)
  cases hsigns : found.takeWhile (·.leads) with
  | nil => simp [leading, hsigns] at h
  | cons o more =>
    have := List.length_pos_iff.2 o.symbol.spelling_ne_nil
    simp only [hsigns, joined, List.cons_append, List.flatMap_cons, List.flatMap_append, Occurrence.chars,
      List.length_append] at hsplit
    simp only [leading, joined, List.length_append]
    omega

end Tabular
