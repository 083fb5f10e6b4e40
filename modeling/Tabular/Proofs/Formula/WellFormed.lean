-- SUMMARY: Well-formed formula trees, and that reading a text gives one.
import Tabular.Operation.Registry
import Tabular.Proofs.Formula.Operators
import Tabular.Proofs.Results

/-!
# Well-formed trees

A tree is well-formed if it could have been read: its tokens show nothing that scanning stops at, its calls
have names of functions, and assignments are arguments only. Reading goes by the shape of a text
(`Expr.parse_eq`), so it suffices that the shape is in order and that the texts inside it are shorter.
-/

namespace Tabular

/-! ## Well-formed trees -/

/-- Quotes, parentheses, commas and blanks. -/
def separates (c : Char) : Bool := c == '\'' || c == '(' || c == ')' || c == ',' || Text.isBlank c

/-- The text can be a bare token: it is visible, in one piece, and shows no operator. -/
def isToken (text : List Char) : Bool := !text.isEmpty && !text.any separates && (operators text).1.isEmpty

theorem ne_nil_of_isToken {text : List Char} (h : isToken text = true) : text ≠ [] := by
  rintro rfl
  simp [isToken] at h

theorem operators_of_isToken {text : List Char} (h : isToken text = true) : (operators text).1 = [] := by
  simp only [isToken, Bool.and_eq_true, List.isEmpty_iff] at h
  exact h.2

theorem visible_of_isToken {text : List Char} (h : isToken text = true) :
    ∀ c ∈ text, c ≠ '\'' ∧ c ≠ '(' ∧ c ≠ ')' ∧ c ≠ ',' ∧ Text.isBlank c = false := by
  simp only [isToken, separates, Bool.and_eq_true, Bool.not_eq_true', List.any_eq_false, Bool.or_eq_true, beq_iff_eq,
    not_or, Bool.not_eq_true] at h
  intro c hc
  obtain ⟨⟨⟨⟨hquote, hopen⟩, hclose⟩, hcomma⟩, hblank⟩ := h.1.2 c hc
  exact ⟨hquote, hopen, hclose, hcomma, hblank⟩

mutual

/-- Whether the tree could have been read, as an argument of a call or elsewhere. -/
def Expr.wellFormed (isFunction : String → Bool) (argument : Bool) : Expr → Bool
  | .quoted _ => true
  | .leaf token => isToken token.toList
  | .binary _ left right => left.wellFormed isFunction false && right.wellFormed isFunction false
  | .call name args => isName name.toList && isFunction name && Expr.argumentsWellFormed isFunction args
  | .assign name value => argument && isName name.toList && value.wellFormed isFunction false

def Expr.argumentsWellFormed (isFunction : String → Bool) : List Expr → Bool
  | [] => true
  | arg :: more => arg.wellFormed isFunction true && Expr.argumentsWellFormed isFunction more

end

theorem Expr.argumentsWellFormed_eq_all (isFunction : String → Bool) (args : List Expr) :
    Expr.argumentsWellFormed isFunction args = args.all (Expr.wellFormed isFunction true) := by
  induction args with
  | nil => rfl
  | cons arg more ih => rw [Expr.argumentsWellFormed, ih, List.all_cons]

/-- What may stand anywhere may be an argument. -/
theorem Expr.wellFormed_argument {isFunction : String → Bool} {e : Expr} (h : e.wellFormed isFunction false = true) :
    e.wellFormed isFunction true = true := by
  cases e with
  | assign name value => simp [Expr.wellFormed] at h
  | _ => exact h

/-- An argument is an assignment or what may stand anywhere. -/
theorem Expr.argument_cases {isFunction : String → Bool} {e : Expr} (h : e.wellFormed isFunction true = true) :
    e.wellFormed isFunction false = true ∨
      ∃ name value, e = .assign name value ∧ isName name.toList = true ∧
        value.wellFormed isFunction false = true := by
  cases e with
  | assign name value =>
    simp only [wellFormed, Bool.true_and, Bool.and_eq_true] at h
    exact .inr ⟨name, value, rfl, h⟩
  | _ => exact .inl h

/-! ## Reading by shape -/

/-- Read the argument of a call with a reader for its text. -/
def Assignable.read (read : List Char → Except FormulaFault Expr) (arg : Except FormulaFault Assignable) :
    Except FormulaFault Expr := do
  let (target, body) ← arg
  return (← read body).assignTo target

/-- Read a shape with a reader for the texts inside it. -/
def Shape.read (read : List Char → Except FormulaFault Expr) : Shape → Except FormulaFault Expr
  | .binary c => do
    let first ← read c.first
    let links ← c.links.mapM fun link => do return (link.1, ← read link.2)
    return links.foldl (fun left (op, right) => .binary op left right) first
  | .signs symbols operand => do return symbols.foldr Symbol.applyTo (← read operand)
  | .call name args => do return .call name (← args.mapM (Assignable.read read))
  | .quoted content => .ok (.quoted content)
  | .leaf token => .ok (.leaf token)

theorem Expr.parse_eq (isFunction : String → Bool) (input : List Char) :
    parse isFunction input = Shape.ofText isFunction input >>= Shape.read (parse isFunction) := by
  rw [parse]
  split
  · rename_i h
    rw [h]
    rfl
  · rename_i c h
    rw [h]
    change _ = Shape.read (parse isFunction) (.binary c)
    unfold Shape.read
    rw [mapM_attach fun link _ => rfl]
    rfl
  · rename_i h
    rw [h]
    rfl
  · rename_i name args h
    rw [h]
    refine congrArg (fun trees : Except FormulaFault (List Expr) => trees >>= fun trees => pure (call name trees))
      (mapM_attach ?_)
    intro arg hmem
    cases arg <;> rfl
  · rename_i h
    rw [h]
    rfl
  · rename_i h
    rw [h]
    rfl

/-! ## Shapes in order -/

/-- The names and the token of a shape are in order. -/
def Shape.WellFormed (isFunction : String → Bool) : Shape → Prop
  | .binary _ | .signs _ _ | .quoted _ => True
  | .call name args => isName name.toList = true ∧ isFunction name = true ∧
      ∀ target body, .ok (some target, body) ∈ args → isName target.toList = true
  | .leaf token => isToken token.toList = true

theorem isName_splitName {text : List Char} (h : (splitName text).1.isEmpty = false) :
    isName (splitName text).1 = true := by
  cases text with
  | nil => simp [splitName] at h
  | cons c rest =>
    simp only [splitName] at h ⊢
    split
    · rename_i hstart
      simp [isName, hstart]
    · rename_i hstart
      simp [hstart] at h

theorem Assignable.isName_ofText {text body : List Char} {target : String}
    (h : Assignable.ofText text = .ok (some target, body)) : isName target.toList = true := by
  unfold Assignable.ofText at h
  split at h
  · simp at h
  · dsimp only at h
    split at h
    · rename_i hname
      simp only [Except.ok.injEq, Prod.mk.injEq, Option.some.injEq] at h
      rw [← h.1, String.toList_ofList]
      exact hname
    · simp at h

/-- Where nothing is opened nothing is closed. -/
theorem not_mem_close {text : List Char} (hbalanced : Balanced text) (h : ∀ c ∈ text, c ≠ '\'' ∧ c ≠ '(') :
    ')' ∉ text := by
  have habove := (balanced_iff.1 hbalanced).1
  clear hbalanced
  induction text with
  | nil => simp
  | cons c rest ih =>
    obtain ⟨hquote, hopen⟩ := h c List.mem_cons_self
    -- At depth zero a closing parenthesis would lead below the ground.
    have hclose : c ≠ ')' := by
      rintro rfl
      have := habove.2.depth_le
      simp [Scan.step, Scan.start] at this
    have hstep := Scan.step_eq_self hquote hopen hclose Scan.start
    have hrest := habove.2
    rw [hstep] at hrest
    intro hmem
    rcases List.mem_cons.1 hmem with heq | hmem
    · exact hclose heq.symm
    · exact ih (fun d hd => h d (List.mem_cons_of_mem _ hd)) hrest hmem

theorem isToken_of_not_breaks {text : List Char} (hbalanced : Balanced text) (hne : text ≠ [])
    (hoperators : (operators text).1 = []) (hbreaks : text.any Shape.breaksToken = false) : isToken text = true := by
  simp only [List.any_eq_false, Shape.breaksToken, Bool.not_eq_true, Bool.or_eq_false_iff,
    beq_eq_false_iff_ne] at hbreaks
  have hclose := not_mem_close hbalanced fun c hc => ⟨(hbreaks c hc).1.1.1, (hbreaks c hc).1.1.2⟩
  simp only [isToken, hoperators, Bool.and_eq_true, Bool.not_eq_true', List.isEmpty_eq_false_iff,
    List.any_eq_false, List.isEmpty_nil, and_true]
  refine ⟨hne, fun c hc => ?_⟩
  obtain ⟨⟨⟨hquote, hopen⟩, hcomma⟩, hblank⟩ := hbreaks c hc
  have hne : c ≠ ')' := by
    rintro rfl
    exact hclose hc
  simp [separates, hquote, hopen, hne, hcomma, hblank]

theorem Shape.wellFormed_ofStripped {isFunction : String → Bool} {text : List Char} {shape : Shape}
    (hbalanced : Balanced text) (hne : text ≠ []) (h : ofStripped isFunction text = .ok shape) :
    shape.WellFormed isFunction := by
  obtain ⟨chain, c, -, -, rfl⟩ | ⟨o, more, -, h⟩ | ⟨name, inner, hcall, h⟩ | ⟨hoperators, h⟩ := ofStripped_ok h
  · trivial
  · obtain ⟨-, rfl⟩ := ofSigns_ok h
    trivial
  · obtain ⟨rfl, hname, -⟩ := callParts?_eq_some hcall
    obtain ⟨hfunction, args, rfl, hargs⟩ := ofCall_ok h
    refine ⟨?_, hfunction, fun target body hmem => ?_⟩
    · rw [String.toList_ofList]
      exact isName_splitName (by simpa using hname)
    · obtain ⟨arg, -, harg⟩ := hargs _ hmem
      exact Assignable.isName_ofText harg
  · obtain ⟨content, rfl⟩ | ⟨hbreaks, rfl⟩ := ofAtom_ok h
    · trivial
    · rw [Shape.WellFormed, String.toList_ofList]
      exact isToken_of_not_breaks hbalanced hne hoperators hbreaks

theorem Shape.checkBalance_eq_ok {text : List Char} : checkBalance text = .ok () ↔ Balanced text := by
  unfold checkBalance Balanced
  split
  · rename_i h
    simp [h]
  · rename_i h
    simp [h]
  · rename_i h
    simp [h]

theorem Shape.wellFormed_ofText {isFunction : String → Bool} {input : List Char} {shape : Shape}
    (h : ofText isFunction input = .ok shape) : shape.WellFormed isFunction := by
  obtain ⟨_, hbalance, h⟩ := bind_eq_ok.1 h
  have hbalanced := checkBalance_eq_ok.1 hbalance
  dsimp only at h
  split at h
  · simp at h
  · rename_i hne
    exact wellFormed_ofStripped (balanced_stripParens (balanced_trim.2 hbalanced)) (by simpa using hne) h

/-! ## Reading gives well-formed trees -/

theorem Symbol.wellFormed_foldr_applyTo {isFunction : String → Bool} (hnegate : isFunction "negate" = true)
    (hnot : isFunction "not" = true) (symbols : List Symbol) {operand : Expr}
    (h : operand.wellFormed isFunction false = true) :
    (symbols.foldr applyTo operand).wellFormed isFunction false = true := by
  have hcall : ∀ (name : String) (arg : Expr), isName name.toList = true → isFunction name = true →
      arg.wellFormed isFunction false = true → (Expr.call name [arg]).wellFormed isFunction false = true := by
    intro name arg hname hfunction harg
    simp [Expr.wellFormed, Expr.argumentsWellFormed, hname, hfunction, Expr.wellFormed_argument harg]
  induction symbols with
  | nil => exact h
  | cons symbol symbols ih =>
    rw [List.foldr_cons]
    unfold applyTo
    split
    · exact ih
    · exact hcall "negate" _ (by decide) hnegate ih
    · exact hcall "not" _ (by decide) hnot ih

theorem Expr.wellFormed_foldl_binary {isFunction : String → Bool} {first : Expr} {links : List (BinaryOp × Expr)}
    (hfirst : first.wellFormed isFunction false = true)
    (hlinks : ∀ link ∈ links, link.2.wellFormed isFunction false = true) :
    (links.foldl (fun left (op, right) => .binary op left right) first).wellFormed isFunction false = true := by
  induction links generalizing first with
  | nil => exact hfirst
  | cons link links ih =>
    refine ih ?_ fun l hl => hlinks l (List.mem_cons_of_mem _ hl)
    simp [wellFormed, hfirst, hlinks link List.mem_cons_self]

/-- A shape in order is read as a well-formed tree, if the texts inside it are. -/
theorem Shape.wellFormed_read {isFunction : String → Bool} (hnegate : isFunction "negate" = true)
    (hnot : isFunction "not" = true) {read : List Char → Except FormulaFault Expr} {n : Nat}
    (hread : ∀ text e, text.length < n → read text = .ok e → e.wellFormed isFunction false = true)
    {shape : Shape} (hwithin : shape.Within n) (hshape : shape.WellFormed isFunction) {e : Expr}
    (h : shape.read read = .ok e) : e.wellFormed isFunction false = true := by
  cases shape with
  | binary c =>
    obtain ⟨first, hfirst, h⟩ := bind_eq_ok.1 h
    obtain ⟨links, hlinks, h⟩ := bind_eq_ok.1 h
    obtain rfl := by simpa [pure, Except.pure] using h
    refine Expr.wellFormed_foldl_binary (hread _ _ hwithin.1 hfirst) fun link hmem => ?_
    obtain ⟨text, htext, hlink⟩ := exists_of_mem_mapM hlinks hmem
    obtain ⟨right, hright, hlink⟩ := bind_eq_ok.1 hlink
    obtain rfl := by simpa [pure, Except.pure] using hlink
    exact hread _ _ (hwithin.2 text htext) hright
  | signs symbols operand =>
    obtain ⟨tree, htree, h⟩ := bind_eq_ok.1 h
    obtain rfl := by simpa [pure, Except.pure] using h
    exact Symbol.wellFormed_foldr_applyTo hnegate hnot symbols (hread _ _ hwithin htree)
  | call name args =>
    obtain ⟨trees, htrees, h⟩ := bind_eq_ok.1 h
    obtain rfl := by simpa [pure, Except.pure] using h
    obtain ⟨hname, hfunction, htargets⟩ := hshape
    simp only [Expr.wellFormed, hname, hfunction, Expr.argumentsWellFormed_eq_all, Bool.true_and, List.all_eq_true]
    -- A target was checked to be a name when the shape was found; its value is read on its own.
    intro tree hmem
    obtain ⟨arg, harg, htree⟩ := exists_of_mem_mapM htrees hmem
    simp only [Assignable.read, bind_eq_ok] at htree
    obtain ⟨⟨target, body⟩, rfl, value, hvalue, htree⟩ := htree
    have hwell := hread _ _ (hwithin target body harg) hvalue
    obtain rfl := by simpa [pure, Except.pure] using htree
    cases target with
    | none => exact Expr.wellFormed_argument hwell
    | some target => simp [Expr.assignTo, Expr.wellFormed, hwell, htargets target body harg]
  | quoted content =>
    obtain rfl := by simpa [Shape.read] using h
    rfl
  | leaf token =>
    obtain rfl := by simpa [Shape.read] using h
    exact hshape

/-- Whatever is read is well-formed. -/
theorem Expr.wellFormed_of_parse {isFunction : String → Bool} (hnegate : isFunction "negate" = true)
    (hnot : isFunction "not" = true) {input : List Char} {e : Expr} (h : parse isFunction input = .ok e) :
    e.wellFormed isFunction false = true := by
  induction hn : input.length using Nat.strongRecOn generalizing input e with
  | ind n ih =>
    -- Every text inside of a shape is shorter than the input, so the hypothesis applies to it.
    rw [parse_eq] at h
    obtain ⟨shape, hshape, h⟩ := bind_eq_ok.1 h
    refine Shape.wellFormed_read hnegate hnot (fun text e hlt hparse => ?_) (Shape.within_ofText hshape)
      (Shape.wellFormed_ofText hshape) h
    exact ih text.length (hn ▸ hlt) hparse rfl

end Tabular
