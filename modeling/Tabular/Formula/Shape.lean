-- SUMMARY: The outermost construction of a formula text: operators, signs, a call, a literal or a token.
import Tabular.Formula.Chain
import Tabular.Text.Quoted

/-!
# Shapes

Reading a formula text means to find its outermost construction and to read the texts inside. The
outermost construction is found here, without recursion: the operators of the loosest level at the top,
else leading signs, else a call, else a literal or a bare token. Blanks and enclosing parentheses are
dropped first. Every text inside is shorter than the whole, which is why reading ends.
-/

namespace Tabular

/-- An assignment target, if there is one, and the text of the value. -/
abbrev Assignable := Option String × List Char

inductive Shape where
  /-- Operands with operators of one level between them, which group to the left. -/
  | binary (chain : Chain)
  /-- Symbols in front of an operand; the last of them applies first. -/
  | signs (symbols : List Symbol) (operand : List Char)
  /-- A call. An argument that is wrong by itself is reported when its turn comes. -/
  | call (name : String) (args : List (Except FormulaFault Assignable))
  | quoted (content : String)
  | leaf (token : String)

/-! ## Assignments -/

/-- Split a text at its assignment. The target must be a name. -/
def Assignable.ofText (text : List Char) : Except FormulaFault Assignable :=
  match splitAssignment? Scan.start text with
  | none => .ok (none, text)
  | some (target, body) =>
    let name := Text.trim target
    if isName name then .ok (some (String.ofList name), body)
    else .error (.invalidTarget (String.ofList name))

theorem Assignable.length_ofText {text body : List Char} {target : Option String}
    (h : Assignable.ofText text = .ok (target, body)) : body.length ≤ text.length := by
  unfold Assignable.ofText at h
  split at h
  · obtain ⟨_, rfl⟩ := by simpa using h
    exact Nat.le_refl _
  · rename_i hsplit
    have := length_splitAssignment? hsplit
    dsimp only at h
    split at h
    · obtain ⟨_, rfl⟩ := by simpa using h
      omega
    · simp at h

/-! ## Finding the construction -/

namespace Shape

/-- A text that no operator stands inside must begin with those that it has, as signs. -/
def ofSigns (text : List Char) (o : Occurrence) (found : List Occurrence) (last : List Char) :
    Except FormulaFault Shape :=
  if o.before.isEmpty && o.leads then
    let (symbols, operand) := leading found last
    .ok (.signs symbols operand)
  else .error (.misplaced (String.ofList o.symbol.spelling) (String.ofList text))

/-- The argument of a call; it must not be blank. -/
def argument (text arg : List Char) : Except FormulaFault Assignable :=
  if Text.allBlank arg then .error (.emptyArgument (String.ofList text)) else Assignable.ofText arg

/-- A name and an enclosed text behind it. -/
def callParts? (text : List Char) : Option (List Char × List Char) :=
  let (name, after) := splitName text
  if name.isEmpty then none
  else (enclosed? (Text.trimStart after)).map fun inner => (name, inner)

/-- A call of a known function. -/
def ofCall (isFunction : String → Bool) (text name inner : List Char) : Except FormulaFault Shape :=
  if isFunction (String.ofList name) then
    let args := if Text.allBlank inner then [] else splitTop ',' Scan.start inner
    .ok (.call (String.ofList name) (args.map (argument text)))
  else .error (.unknownFunction (String.ofList name))

/-- Characters that may not stand in a bare token. -/
def breaksToken (c : Char) : Bool := c == '\'' || c == '(' || c == ',' || Text.isBlank c

/-- A literal between quotes, or a bare token. -/
def ofAtom (text : List Char) : Except FormulaFault Shape :=
  match text with
  | '\'' :: rest =>
    match rest.reverse with
    | '\'' :: body =>
      match Text.undouble? '\'' body.reverse with
      | some content => .ok (.quoted (String.ofList content))
      | none => .error (.malformedLiteral (String.ofList text))
    | _ => .error (.malformedLiteral (String.ofList text))
  | _ =>
    if text.any breaksToken then .error (.unreadable (String.ofList text))
    else .ok (.leaf (String.ofList text))

/-- The shape of a text without enclosing parentheses. -/
def ofStripped (isFunction : String → Bool) (text : List Char) : Except FormulaFault Shape :=
  let (found, last) := operators text
  match Chain.loosest? found last with
  | some chain => chain.checked.map .binary
  | none =>
    match found with
    | o :: _ => ofSigns text o found last
    | [] =>
      match callParts? text with
      | some (name, inner) => ofCall isFunction text name inner
      | none => ofAtom text

/-- Refuse a text whose quotes or parentheses do not match. -/
def checkBalance (text : List Char) : Except FormulaFault Unit :=
  match imbalance? text with
  | none => .ok ()
  | some .parentheses => .error (.unbalanced (String.ofList text))
  | some .quote => .error (.unterminated (String.ofList text))

/-- The shape of a text. -/
def ofText (isFunction : String → Bool) (input : List Char) : Except FormulaFault Shape := do
  checkBalance input
  let text := stripParens (Text.trim input)
  if text.isEmpty then .error (.empty (String.ofList input))
  else ofStripped isFunction text

/-! ## What a shape comes from -/

theorem ofSigns_ok {text last : List Char} {o : Occurrence} {found : List Occurrence} {shape : Shape}
    (h : ofSigns text o found last = .ok shape) :
    o.leads = true ∧ shape = .signs (leading found last).1 (leading found last).2 := by
  unfold ofSigns at h
  split at h
  · rename_i hleads
    obtain rfl := by simpa using h
    exact ⟨(Bool.and_eq_true _ _ ▸ hleads).2, rfl⟩
  · simp at h

theorem argument_ok {text arg : List Char} {found : Assignable} (h : argument text arg = .ok found) :
    Assignable.ofText arg = .ok found := by
  unfold argument at h
  split at h
  · simp at h
  · exact h

theorem callParts?_eq_some {text name inner : List Char} (h : callParts? text = some (name, inner)) :
    name = (splitName text).1 ∧ name ≠ [] ∧ enclosed? (Text.trimStart (splitName text).2) = some inner := by
  unfold callParts? at h
  dsimp only at h
  split at h
  · simp at h
  · rename_i hname
    obtain ⟨inner', henclosed, heq⟩ := Option.map_eq_some_iff.1 h
    obtain ⟨rfl, rfl⟩ := by simpa using heq
    exact ⟨rfl, by simpa using hname, henclosed⟩

/-- Every argument of a call is a part of the text between its parentheses. -/
theorem ofCall_ok {isFunction : String → Bool} {text name inner : List Char} {shape : Shape}
    (h : ofCall isFunction text name inner = .ok shape) :
    isFunction (String.ofList name) = true ∧ ∃ args, shape = .call (String.ofList name) args ∧
      ∀ found, .ok found ∈ args → ∃ arg, arg.length ≤ inner.length ∧ Assignable.ofText arg = .ok found := by
  unfold ofCall at h
  split at h
  · rename_i hfunction
    obtain rfl := by simpa using h
    refine ⟨hfunction, _, rfl, fun found hmem => ?_⟩
    obtain ⟨arg, harg, hok⟩ := List.mem_map.1 hmem
    refine ⟨arg, ?_, argument_ok hok⟩
    split at harg
    · simp at harg
    · exact length_splitTop harg
  · simp at h

theorem ofAtom_ok {text : List Char} {shape : Shape} (h : ofAtom text = .ok shape) :
    (∃ content, shape = .quoted content) ∨ text.any breaksToken = false ∧ shape = .leaf (String.ofList text) := by
  unfold ofAtom at h
  split at h
  · split at h
    · split at h
      · obtain rfl := by simpa using h
        exact .inl ⟨_, rfl⟩
      · simp at h
    · simp at h
  · split at h
    · simp at h
    · rename_i hbreaks
      obtain rfl := by simpa using h
      exact .inr ⟨by simpa using hbreaks, rfl⟩

/-- The four ways in which a text has a shape, in the order in which they are tried. -/
theorem ofStripped_ok {isFunction : String → Bool} {text : List Char} {shape : Shape}
    (h : ofStripped isFunction text = .ok shape) :
    (∃ chain c, Chain.loosest? (operators text).1 (operators text).2 = some chain ∧ chain.checked = .ok c ∧
      shape = .binary c) ∨
    (∃ o more, (operators text).1 = o :: more ∧
      ofSigns text o (operators text).1 (operators text).2 = .ok shape) ∨
    (∃ name inner, callParts? text = some (name, inner) ∧ ofCall isFunction text name inner = .ok shape) ∨
    (operators text).1 = [] ∧ ofAtom text = .ok shape := by
  unfold ofStripped at h
  dsimp only at h
  split at h
  · rename_i chain hchain
    cases hchecked : chain.checked with
    | error fault => simp [hchecked, Except.map] at h
    | ok c =>
      obtain rfl := by simpa [hchecked, Except.map] using h
      exact .inl ⟨chain, c, hchain, hchecked, rfl⟩
  · split at h
    · rename_i o more hfound
      exact .inr (.inl ⟨o, more, hfound, h⟩)
    · rename_i hfound
      split at h
      · rename_i name inner hcall
        exact .inr (.inr (.inl ⟨name, inner, hcall, h⟩))
      · exact .inr (.inr (.inr ⟨hfound, h⟩))

/-! ## Sizes -/

/-- Whether all texts inside are shorter than `n`. -/
def Within (n : Nat) : Shape → Prop
  | binary c => c.first.length < n ∧ ∀ link ∈ c.links, link.2.length < n
  | signs _ operand => operand.length < n
  | call _ args => ∀ target body, .ok (target, body) ∈ args → body.length < n
  | quoted _ | leaf _ => True

theorem Within.mono {shape : Shape} {m n : Nat} (h : shape.Within m) (hmn : m ≤ n) : shape.Within n := by
  cases shape with
  | binary c => exact ⟨Nat.lt_of_lt_of_le h.1 hmn, fun link hmem => Nat.lt_of_lt_of_le (h.2 link hmem) hmn⟩
  | signs symbols operand => exact Nat.lt_of_lt_of_le h hmn
  | call name args => exact fun target body hmem => Nat.lt_of_lt_of_le (h target body hmem) hmn
  | quoted content => trivial
  | leaf token => trivial

theorem length_callParts? {text name inner : List Char} (h : callParts? text = some (name, inner)) :
    inner.length < text.length := by
  have := length_enclosed? (callParts?_eq_some h).2.2
  have := Text.length_trimStart_le (splitName text).2
  have := length_splitName text
  omega

theorem within_ofStripped {isFunction : String → Bool} {text : List Char} {shape : Shape}
    (h : ofStripped isFunction text = .ok shape) : shape.Within text.length := by
  obtain ⟨chain, c, hchain, hchecked, rfl⟩ | ⟨o, more, hfound, h⟩ | ⟨name, inner, hcall, h⟩ | ⟨-, h⟩ := ofStripped_ok h
  · have ⟨hchars, hlinks⟩ := Chain.chars_of_loosest? hchain
    rw [joined_operators] at hchars
    exact hchars ▸ Chain.length_checked hlinks hchecked
  · obtain ⟨hleads, rfl⟩ := ofSigns_ok h
    have hne : (leading (operators text).1 (operators text).2).1 ≠ [] := by simp [hfound, leading, hleads]
    have := length_leading hne
    rwa [joined_operators] at this
  · have hinner := length_callParts? hcall
    obtain ⟨-, args, rfl, hargs⟩ := ofCall_ok h
    intro target body hmem
    obtain ⟨arg, hlength, harg⟩ := hargs _ hmem
    have := Assignable.length_ofText harg
    omega
  · obtain ⟨content, rfl⟩ | ⟨-, rfl⟩ := ofAtom_ok h <;> trivial

/-- The texts inside a text are shorter. -/
theorem within_ofText {isFunction : String → Bool} {input : List Char} {shape : Shape}
    (h : ofText isFunction input = .ok shape) : shape.Within input.length := by
  unfold ofText at h
  cases hbalance : checkBalance input with
  | error e => rw [hbalance] at h; simp [bind, Except.bind] at h
  | ok u =>
    rw [hbalance] at h
    simp only [bind, Except.bind] at h
    split at h
    · simp at h
    · refine (within_ofStripped h).mono ?_
      have := length_stripParens_le (Text.trim input)
      have := Text.length_trim_le input
      omega

end Shape

end Tabular
