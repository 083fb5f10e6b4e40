-- SUMMARY: The text of a tree: what scanning sees of it.
import Mathlib.Data.List.Infix
import Tabular.Formula.Dependency
import Tabular.Proofs.Formula.WellFormed

/-!
# Printed trees

To the scanners the text of a tree is one piece: it is balanced, it begins and ends visibly, and at the top level it
shows neither an operator nor a comma. Of a literal, a call and a pair of operands nothing is at the top level but
quotes, opening parentheses and parts of names, so the piece is solid: it shows no assignment either. A token is a
piece because it is a token, but it may show an assignment.
-/

namespace Tabular

/-- The text is one piece to operators and commas. -/
structure Piece (text : List Char) : Prop where
  tight : Text.Tight text
  balanced : Balanced text
  operators : (operators text).1 = []
  comma : Scan.start.Heads (· ≠ ',') text

/-- The text is read in one piece. -/
structure Solid (text : List Char) : Prop extends Piece text where
  assignment : ∀ rest, ¬Scan.start.TopSuffix text (':' :: '=' :: rest)

/-! ## Solid texts -/

/-- What a literal, a call, a pair of parentheses and a name show at the top level. -/
def Opens (c : Char) : Prop := c = '\'' ∨ c = '(' ∨ isNamePart c = true

theorem Opens.beginsSymbol {c : Char} (h : Opens c) : beginsSymbol c = false := by
  apply Bool.eq_false_iff.2
  intro hbegins
  have hmem : c ∈ ['=', '!', '>', '<', '&', '|', '+', '-', '*', '/', '^'] := by
    simpa [Tabular.beginsSymbol] using hbegins
  have hnot : ['=', '!', '>', '<', '&', '|', '+', '-', '*', '/', '^'].all
      (fun d => d != '\'' && d != '(' && !isNamePart d) = true := by decide
  have hc := List.all_eq_true.1 hnot c hmem
  simp only [Bool.and_eq_true, bne_iff_ne, Bool.not_eq_true'] at hc
  obtain ⟨⟨hquote, hopen⟩, hpart⟩ := hc
  rcases h with h | h | h
  · exact hquote h
  · exact hopen h
  · simp [hpart] at h

theorem Opens.ne_comma {c : Char} (h : Opens c) : c ≠ ',' := by
  rintro rfl
  exact absurd h (by simp [Opens]; decide)

theorem Opens.ne_colon {c : Char} (h : Opens c) : c ≠ ':' := by
  rintro rfl
  exact absurd h (by simp [Opens]; decide)

theorem solid_of_heads {text : List Char} (htight : Text.Tight text) (hbalanced : Balanced text)
    (hheads : Scan.start.Heads Opens text) : Solid text where
  tight := htight
  balanced := hbalanced
  operators := operatorsFrom_eq_nil true [] fun rest hrest => by
    cases rest with
    | nil => rfl
    | cons c rest => exact Symbol.atStart?_eq_none (hheads c rest hrest).beginsSymbol
  comma := hheads.mono fun _ hc => hc.ne_comma
  assignment := fun _ hrest => (hheads _ _ hrest).ne_colon rfl

theorem tight_of_isToken {text : List Char} (h : isToken text = true) : Text.Tight text :=
  Text.tight_of_forall (ne_nil_of_isToken h) fun c hc => (visible_of_isToken h c hc).2.2.2.2

theorem balanced_of_isToken {text : List Char} (h : isToken text = true) : Balanced text := by
  refine balanced_of_forall fun c hc => ?_
  obtain ⟨hquote, hopen, hclose, -⟩ := visible_of_isToken h c hc
  exact ⟨hquote, hopen, hclose⟩

theorem piece_of_isToken {text : List Char} (h : isToken text = true) : Piece text where
  tight := tight_of_isToken h
  balanced := balanced_of_isToken h
  operators := operators_of_isToken h
  comma := Scan.heads_of_forall fun c hc => (visible_of_isToken h c hc).2.2.2.1

theorem solid_of_isToken {text : List Char} (h : isToken text = true) (hassign : ¬[':', '='] <:+: text) :
    Solid text := by
  refine ⟨piece_of_isToken h, ?_⟩
  rintro rest ⟨before, rfl, -⟩
  exact hassign ⟨before, rest, by simp⟩

theorem solid_enclosed {inner : List Char} (h : Balanced inner) : Solid ('(' :: (inner ++ [')'])) :=
  solid_of_heads (Text.tight_between (by decide) (by decide)) h.enclose (Scan.heads_enclosed (.inr (.inl rfl)) h)

/-! ## Literals and names -/

/-- A text between quotes is balanced, and only quotes of it are at the top level. -/
theorem quoted_double (content : List Char) :
    Scan.Above 0 ⟨0, true⟩ (Text.double '\'' content ++ ['\'']) ∧
      Scan.run ⟨0, true⟩ (Text.double '\'' content ++ ['\'']) = Scan.start ∧
      Scan.Heads (· = '\'') ⟨0, true⟩ (Text.double '\'' content ++ ['\'']) := by
  have hclose : Scan.step ⟨0, true⟩ '\'' = Scan.start := rfl
  have hopen : Scan.start.step '\'' = ⟨0, true⟩ := rfl
  induction content with
  | nil => exact ⟨⟨Int.le_refl 0, Int.le_refl 0⟩, rfl, Scan.heads_cons (fun _ => rfl) Scan.heads_nil⟩
  | cons c content ih =>
    obtain ⟨habove, hrun, hheads⟩ := ih
    by_cases hc : c = '\''
    · subst hc
      simp only [Text.double, beq_self_eq_true, if_true, List.cons_append, Scan.Above, Scan.run_cons, hclose, hopen]
      refine ⟨⟨Int.le_refl 0, Int.le_refl 0, habove⟩, hrun, Scan.heads_cons (fun _ => rfl) ?_⟩
      exact Scan.heads_cons (fun _ => rfl) hheads
    · have hstep : Scan.step ⟨0, true⟩ c = ⟨0, true⟩ := by simp [Scan.step, hc]
      simp only [Text.double, beq_eq_false_iff_ne.2 hc, Bool.false_eq_true, if_false, List.cons_append, Scan.Above,
        Scan.run_cons, hstep]
      refine ⟨⟨Int.le_refl 0, habove⟩, hrun, Scan.heads_cons (fun htop => ?_) ?_⟩
      · exact absurd htop (by decide)
      · rw [hstep]
        exact hheads

theorem forall_isNamePart_of_isName {text : List Char} (h : isName text = true) :
    ∀ c ∈ text, isNamePart c = true := by
  cases text with
  | nil => simp [isName] at h
  | cons c rest =>
    simp only [isName, Bool.and_eq_true, List.all_eq_true] at h
    intro d hd
    rcases List.mem_cons.1 hd with rfl | hd
    · exact isNamePart_of_isNameStart h.1
    · exact h.2 d hd

theorem ne_nil_of_isName {text : List Char} (h : isName text = true) : text ≠ [] := by
  rintro rfl
  simp [isName] at h

theorem tight_of_isName {text : List Char} (h : isName text = true) : Text.Tight text :=
  Text.tight_of_forall (ne_nil_of_isName h) fun c hc => isBlank_of_isNamePart (forall_isNamePart_of_isName h c hc)

theorem unnested_of_isNamePart {c : Char} (h : isNamePart c = true) : c ≠ '\'' ∧ c ≠ '(' ∧ c ≠ ')' := by
  refine ⟨?_, ?_, ?_⟩
  · rintro rfl
    exact absurd h (by decide)
  · rintro rfl
    exact absurd h (by decide)
  · rintro rfl
    exact absurd h (by decide)

theorem run_of_isName {text : List Char} (h : isName text = true) (s : Scan) : s.run text = s :=
  Scan.run_eq_self (fun c hc => unnested_of_isNamePart (forall_isNamePart_of_isName h c hc)) s

theorem balanced_of_isName {text : List Char} (h : isName text = true) : Balanced text :=
  balanced_of_forall fun c hc => unnested_of_isNamePart (forall_isNamePart_of_isName h c hc)

theorem tight_close : Text.Tight [')'] :=
  Text.tight_of_forall (List.cons_ne_nil _ _) (List.forall_mem_singleton.2 (by decide))

/-- A name in front of parentheses. -/
theorem solid_call {name inner : List Char} (hname : isName name = true) (h : Balanced inner) :
    Solid (name ++ '(' :: (inner ++ [')'])) := by
  refine solid_of_heads ((tight_of_isName hname).append tight_close ('(' :: inner))
    ((balanced_of_isName hname).append h.enclose) (Scan.heads_append (Scan.heads_of_forall fun c hc => ?_) ?_)
  · exact .inr (.inr (forall_isNamePart_of_isName hname c hc))
  · rw [run_of_isName hname]
    exact Scan.heads_enclosed (.inr (.inl rfl)) h

theorem balanced_spelling (op : BinaryOp) : Balanced op.spelling := by
  cases op <;> rfl

/-! ## Trees -/

namespace Expr

/-- The text between the parentheses of an operator and its operands. -/
def operandChars (op : BinaryOp) (left right : Expr) : List Char :=
  left.chars ++ ' ' :: (op.spelling ++ ' ' :: right.chars)

theorem chars_binary (op : BinaryOp) (left right : Expr) :
    (binary op left right).chars = '(' :: (operandChars op left right ++ [')']) := by
  simp [chars, operandChars]

theorem chars_call (name : String) (args : List Expr) :
    (call name args).chars = name.toList ++ '(' :: (argumentChars args ++ [')']) := by
  simp [chars]

theorem chars_assign (name : String) (value : Expr) :
    (assign name value).chars = name.toList ++ ([' ', ':', '=', ' '] ++ value.chars) := by
  simp [chars]

theorem argumentChars_cons (arg next : Expr) (more : List Expr) :
    argumentChars (arg :: next :: more) = arg.chars ++ ([',', ' '] ++ argumentChars (next :: more)) := by
  simp [argumentChars]

theorem balanced_operandChars {op : BinaryOp} {left right : Expr} (hleft : Balanced left.chars)
    (hright : Balanced right.chars) : Balanced (operandChars op left right) := by
  have hspace : Balanced [' '] := balanced_of_allBlank (by decide)
  exact hleft.append (hspace.append ((balanced_spelling op).append (hspace.append hright)))

/-- No token of the tree shows an assignment. -/
def Unassigning (e : Expr) : Prop := ∀ token ∈ e.tokens, ¬[':', '='] <:+: token.toList

def ArgumentsUnassigning (args : List Expr) : Prop := ∀ token ∈ tokensOf args, ¬[':', '='] <:+: token.toList

mutual

theorem balanced_chars {isFunction : String → Bool} {argument : Bool} {e : Expr}
    (h : e.wellFormed isFunction argument = true) : Balanced e.chars := by
  cases e with
  | quoted content =>
    obtain ⟨habove, hrun, -⟩ := quoted_double content.toList
    exact balanced_iff.2 ⟨⟨Int.le_refl 0, habove⟩, hrun⟩
  | leaf token => exact balanced_of_isToken h
  | binary op left right =>
    simp only [wellFormed, Bool.and_eq_true] at h
    rw [chars_binary]
    exact (balanced_operandChars (balanced_chars h.1) (balanced_chars h.2)).enclose
  | call name args =>
    simp only [wellFormed, Bool.and_eq_true] at h
    rw [chars_call]
    exact (balanced_of_isName h.1.1).append (balanced_argumentChars h.2).enclose
  | assign name value =>
    simp only [wellFormed, Bool.and_eq_true] at h
    have hsymbol : Balanced [' ', ':', '=', ' '] := rfl
    rw [chars_assign]
    exact (balanced_of_isName h.1.2).append (hsymbol.append (balanced_chars h.2))

theorem balanced_argumentChars {isFunction : String → Bool} {args : List Expr}
    (h : argumentsWellFormed isFunction args = true) : Balanced (argumentChars args) := by
  match args with
  | [] => exact balanced_nil
  | [arg] =>
    simp only [argumentsWellFormed, Bool.and_true] at h
    exact balanced_chars h
  | arg :: next :: more =>
    rw [argumentsWellFormed, Bool.and_eq_true] at h
    have hcomma : Balanced [',', ' '] := rfl
    rw [argumentChars_cons]
    exact (balanced_chars h.1).append (hcomma.append (balanced_argumentChars h.2))

end

theorem tight_chars {isFunction : String → Bool} {argument : Bool} {e : Expr}
    (h : e.wellFormed isFunction argument = true) : Text.Tight e.chars := by
  cases e with
  | quoted content => exact Text.tight_between (by decide) (by decide)
  | leaf token => exact tight_of_isToken h
  | binary op left right =>
    rw [chars_binary]
    exact Text.tight_between (by decide) (by decide)
  | call name args =>
    simp only [wellFormed, Bool.and_eq_true] at h
    rw [chars_call]
    exact (tight_of_isName h.1.1).append tight_close ('(' :: argumentChars args)
  | assign name value =>
    simp only [wellFormed, Bool.and_eq_true] at h
    rw [chars_assign]
    exact (tight_of_isName h.1.2).append (tight_chars h.2) [' ', ':', '=', ' ']

/-- Whether the tree is a token that shows an assignment. -/
def showsAssignment : Expr → Bool
  | .leaf token => decide ([':', '='] <:+: token.toList)
  | _ => false

/-- Unless it is a token that shows an assignment, the text of a tree is read in one piece. -/
theorem solid_chars_of_not_shows {isFunction : String → Bool} {e : Expr} (h : e.wellFormed isFunction false = true)
    (hshows : e.showsAssignment = false) : Solid e.chars := by
  cases e with
  | quoted content =>
    refine solid_of_heads (tight_chars h) (balanced_chars h) (Scan.heads_cons (fun _ => .inl rfl) ?_)
    exact (quoted_double content.toList).2.2.mono fun _ => .inl
  | leaf token => exact solid_of_isToken h (of_decide_eq_false hshows)
  | binary op left right =>
    simp only [wellFormed, Bool.and_eq_true] at h
    rw [chars_binary]
    exact solid_enclosed (balanced_operandChars (balanced_chars h.1) (balanced_chars h.2))
  | call name args =>
    simp only [wellFormed, Bool.and_eq_true] at h
    rw [chars_call]
    exact solid_call h.1.1 (balanced_argumentChars h.2)
  | assign name value => simp [wellFormed] at h

/-- The text of a tree that is no assignment is one piece. -/
theorem piece_chars {isFunction : String → Bool} {e : Expr} (h : e.wellFormed isFunction false = true) :
    Piece e.chars := by
  cases e with
  | leaf token => exact piece_of_isToken h
  | _ => exact (solid_chars_of_not_shows h rfl).toPiece

theorem showsAssignment_of_unassigning {e : Expr} (h : e.Unassigning) : e.showsAssignment = false := by
  cases e with
  | leaf token => exact decide_eq_false (h token List.mem_cons_self)
  | _ => rfl

/-- The text of a tree that is no assignment is read in one piece. -/
theorem solid_chars {isFunction : String → Bool} {e : Expr} (h : e.wellFormed isFunction false = true)
    (htokens : e.Unassigning) : Solid e.chars :=
  solid_chars_of_not_shows h (showsAssignment_of_unassigning htokens)

end Expr

end Tabular
