-- SUMMARY: A text that ends in an operator is not read, and neither is one that holds such a text in an operand's place.
import Tabular.Proofs.Formula.Cuts

/-!
# Dangling operators

A text dangles if only blanks stand behind its last operator. Wherever it is cut, its last operand dangles again and is
shorter, until nothing is left, and a blank text is not read (`Expr.parse_ne_ok_of_dangles`). A sign that does not lead
is cut at, so where only blanks separate it from the operator before it, the operand in front of it dangles, and no text
around it is read (`Expr.parse_ne_ok_of_misplacing`).
-/

namespace Tabular

/-! ## Reading needs every text inside -/

/-- The texts that are read inside a shape. -/
def Shape.Inside (text : List Char) : Shape → Prop
  | .binary c => text = c.first ∨ ∃ op, (op, text) ∈ c.links
  | .signs _ operand => text = operand
  | .call _ args => ∃ target, .ok (target, text) ∈ args
  | .quoted _ | .leaf _ => False

theorem Shape.Within.length_lt {shape : Shape} {text : List Char} {n : Nat} (h : shape.Within n)
    (htext : shape.Inside text) : text.length < n := by
  cases shape with
  | binary c =>
    rcases htext with rfl | ⟨op, hlink⟩
    · exact h.1
    · exact h.2 _ hlink
  | signs symbols operand => exact htext ▸ h
  | call name args =>
    obtain ⟨target, harg⟩ := htext
    exact h target text harg
  | quoted content => exact htext.elim
  | leaf token => exact htext.elim

theorem Shape.exists_of_inside {read : List Char → Except FormulaFault Expr} {shape : Shape} {e : Expr}
    (h : shape.read read = .ok e) {text : List Char} (htext : shape.Inside text) : ∃ e, read text = .ok e := by
  cases shape with
  | binary c =>
    obtain ⟨first, hfirst, h⟩ := bind_eq_ok.1 h
    obtain ⟨links, hlinks, -⟩ := bind_eq_ok.1 h
    rcases htext with rfl | ⟨op, hlink⟩
    · exact ⟨first, hfirst⟩
    · obtain ⟨link, -, hread⟩ := exists_of_mem_forall₂ (mapM_eq_ok.1 hlinks).flip hlink
      obtain ⟨tree, htree, -⟩ := bind_eq_ok.1 hread
      exact ⟨tree, htree⟩
  | signs symbols operand =>
    obtain ⟨tree, htree, -⟩ := bind_eq_ok.1 h
    exact ⟨tree, htext ▸ htree⟩
  | call name args =>
    obtain ⟨trees, htrees, -⟩ := bind_eq_ok.1 h
    obtain ⟨target, harg⟩ := htext
    obtain ⟨tree, -, hread⟩ := exists_of_mem_forall₂ (mapM_eq_ok.1 htrees).flip harg
    simp only [Assignable.read, bind_eq_ok] at hread
    obtain ⟨_, heq, value, hvalue, -⟩ := hread
    obtain rfl := Except.ok.inj heq
    exact ⟨value, hvalue⟩
  | quoted content => exact htext.elim
  | leaf token => exact htext.elim

/-- What is read holds nothing that is not read. -/
theorem Expr.exists_parse_of_inside {isFunction : String → Bool} {input text : List Char} {shape : Shape} {e : Expr}
    (h : parse isFunction input = .ok e) (hshape : Shape.ofText isFunction input = .ok shape)
    (htext : shape.Inside text) : ∃ e, parse isFunction text = .ok e := by
  rw [parse_of_ofText hshape] at h
  exact Shape.exists_of_inside h htext

/-! ## Dangling texts -/

/-- Nothing but blanks stands behind the last operator. -/
def Dangles (text : List Char) : Prop := Text.allBlank (operators text).2 = true

theorem dangles_behind {front : List Char} (hfront : Text.allBlank front = true) (found : List Occurrence)
    (last : List Char) : Text.allBlank (behind front (found, last)).2 = Text.allBlank last := by
  cases found with
  | nil => rw [behind, Text.allBlank_append, hfront, Bool.true_and]
  | cons o more => rfl

theorem dangles_trim {text : List Char} : Dangles (Text.trim text) ↔ Dangles text := by
  obtain ⟨pre, post, hpre, hpost, -, hfound⟩ := exists_operators_trim text
  unfold Dangles
  rw [hfound, dangles_behind hpre, Text.allBlank_append, hpost, Bool.and_true]

theorem dangles_trimEnd {text : List Char} : Dangles (Text.trimEnd text) ↔ Dangles text := by
  rw [← dangles_trim, Text.trim_trimEnd, dangles_trim]

/-- A blank text is what a text without operators dangles as. -/
theorem allBlank_of_dangles {text : List Char} (h : Dangles text) (hfound : (operators text).1 = []) :
    Text.allBlank text = true := by
  rwa [Dangles, operators_eq hfound] at h

/-- A text that dangles has a shape only around another one that does. -/
theorem Shape.exists_dangles_inside {isFunction : String → Bool} {input : List Char} {shape : Shape}
    (hshape : ofText isFunction input = .ok shape) (h : Dangles input) :
    ∃ text, shape.Inside text ∧ Dangles text := by
  obtain ⟨-, hne, hstripped⟩ := ofText_eq_ok.1 hshape
  have htrim := dangles_trim.2 h
  have hfound : (operators (Text.trim input)).1 ≠ [] := by
    intro hnil
    have hblank := allBlank_of_dangles htrim hnil
    cases hinput : Text.allBlank input with
    | true => exact hne (by rw [Text.trim_eq_nil hinput, stripParens_eq_self rfl])
    | false => simp [(Text.tight_trim hinput).allBlank_eq_false] at hblank
  rw [stripParens_trim_of_operators hfound] at hstripped
  rcases ofStripped_operators hstripped hfound with ⟨chain, c, hchain, hchecked, rfl⟩ | ⟨-, o, more, hcons, hsigns⟩
  · obtain ⟨level, rfl, hlinks⟩ := Chain.exists_level_of_loosest? hchain
    obtain ⟨-, rfl⟩ := Chain.checked_eq_ok.1 hchecked
    rcases Chain.cut_last level (operators (Text.trim input)).2 (operators (Text.trim input)).1 with
      hnil | ⟨pre, seg, op, hsplit, hmem⟩
    · exact absurd hnil hlinks
    · have hseg := operators_drop (Prod.ext hsplit rfl : operators (Text.trim input) = (pre ++ seg, _))
      refine ⟨Text.trimEnd (joined seg (operators (Text.trim input)).2), .inr ⟨op, ?_⟩, ?_⟩
      · exact List.mem_map.2 ⟨_, hmem, rfl⟩
      · rw [dangles_trimEnd, Dangles, hseg]
        exact htrim
  · obtain ⟨-, rfl⟩ := ofSigns_ok hsigns
    refine ⟨_, rfl, ?_⟩
    have hsplit : (operators (Text.trim input)).1 =
        (o :: more).takeWhile (·.leads) ++ (o :: more).dropWhile (·.leads) := by
      rw [List.takeWhile_append_dropWhile, hcons]
    have hrest := operators_drop (Prod.ext hsplit rfl : operators (Text.trim input) = (_ ++ _, _))
    rw [leading, Dangles, hrest]
    exact htrim

/-- A text whose last operator lacks an operand is not read. -/
theorem Expr.parse_ne_ok_of_dangles {isFunction : String → Bool} {input : List Char} (h : Dangles input) (e : Expr) :
    parse isFunction input ≠ .ok e := by
  induction hn : input.length using Nat.strongRecOn generalizing input e with
  | ind n ih =>
    intro hparse
    obtain ⟨shape, hshape, -⟩ := parse_eq_ok.1 hparse
    obtain ⟨text, hinside, hdangles⟩ := Shape.exists_dangles_inside hshape h
    obtain ⟨e', he'⟩ := exists_parse_of_inside hparse hshape hinside
    exact ih text.length (hn ▸ (Shape.within_ofText hshape).length_lt hinside) hdangles e' rfl he'

/-! ## Signs that do not lead -/

/-- A sign that does not lead although only blanks stand in front of it. -/
def Occurrence.Misplaced (o : Occurrence) : Prop :=
  o.symbol.isSign = true ∧ o.leads = false ∧ Text.allBlank o.before = true

/-- In front of a misplaced sign stands a text that dangles. -/
theorem Shape.exists_dangles_of_misplaced {isFunction : String → Bool} {input : List Char} {shape : Shape}
    (hshape : ofText isFunction input = .ok shape) {o : Occurrence}
    (ho : o ∈ (operators (stripParens (Text.trim input))).1) (h : o.Misplaced) :
    ∃ text, shape.Inside text ∧ Dangles text := by
  obtain ⟨-, -, hstripped⟩ := ofText_eq_ok.1 hshape
  obtain ⟨hsign, hleads, hblank⟩ := h
  generalize stripParens (Text.trim input) = text at ho hstripped
  obtain ⟨op, hop⟩ := Chain.cutsAt_of_isSign hsign hleads
  have hloosest := Chain.loosest?_of_sign ho hsign hleads (operators text).2
  obtain ⟨pre, post, hsplit⟩ := List.append_of_mem ho
  have hfound : operators text = (pre ++ o :: post, (operators text).2) := Prod.ext hsplit rfl
  rcases ofStripped_operators hstripped (by simp [hsplit]) with ⟨chain, c, hchain, hchecked, rfl⟩ | ⟨hnone, -⟩
  · obtain rfl := Option.some.inj (hloosest.symm.trans hchain)
    obtain ⟨-, rfl⟩ := Chain.checked_eq_ok.1 hchecked
    rw [hsplit, Chain.cut_append hop]
    rcases Chain.cut_last 0 o.before pre with hnil | ⟨front, seg, op', rfl, hmem⟩
    · -- Nothing is cut at in front of the sign, so all that stands there is the first operand.
      refine ⟨joined pre o.before, .inl ?_, ?_⟩
      · have hchars := Chain.chars_cut 0 o.before pre
        simpa [Chain.chars, hnil] using hchars.symm
      · rw [Dangles, operators_take hfound]
        exact hblank
    · rw [List.append_assoc] at hfound
      refine ⟨Text.trimEnd (joined seg o.before), .inr ⟨op', ?_⟩, ?_⟩
      · exact List.mem_map.2 ⟨_, List.mem_append_left _ hmem, rfl⟩
      · rw [dangles_trimEnd, Dangles, operators_take (operators_drop hfound)]
        exact hblank
  · simp [hloosest] at hnone

/-- A text with a misplaced sign is not read. -/
theorem Expr.parse_ne_ok_of_misplaced {isFunction : String → Bool} {input : List Char} {o : Occurrence}
    (ho : o ∈ (operators (stripParens (Text.trim input))).1) (h : o.Misplaced) (e : Expr) :
    parse isFunction input ≠ .ok e := by
  intro hparse
  obtain ⟨shape, hshape, -⟩ := parse_eq_ok.1 hparse
  obtain ⟨text, hinside, hdangles⟩ := Shape.exists_dangles_of_misplaced hshape ho h
  obtain ⟨e', he'⟩ := exists_parse_of_inside hparse hshape hinside
  exact parse_ne_ok_of_dangles hdangles e' he'

/-- A sign is misplaced in the text or in one that is read inside it. -/
inductive Misplacing (isFunction : String → Bool) : List Char → Prop
  | here {input : List Char} {o : Occurrence} : o ∈ (operators (stripParens (Text.trim input))).1 → o.Misplaced →
      Misplacing isFunction input
  | inside {input text : List Char} {shape : Shape} : Shape.ofText isFunction input = .ok shape →
      shape.Inside text → Misplacing isFunction text → Misplacing isFunction input

/-- Wherever a misplaced sign stands, nothing is read. -/
theorem Expr.parse_ne_ok_of_misplacing {isFunction : String → Bool} {input : List Char}
    (h : Misplacing isFunction input) (e : Expr) : parse isFunction input ≠ .ok e := by
  induction h generalizing e with
  | here ho hmisplaced => exact parse_ne_ok_of_misplaced ho hmisplaced e
  | inside hshape hinside _ ih =>
    intro hparse
    obtain ⟨e', he'⟩ := exists_parse_of_inside hparse hshape hinside
    exact ih e' he'

end Tabular
