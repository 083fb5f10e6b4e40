-- SUMMARY: Only the whole input is refused for its quotes or parentheses: every text inside a balanced one is balanced.
import Tabular.Proofs.Formula.Parts

/-!
# Balance of texts inside

Reading a formula checks that its quotes and parentheses match, and reading a text inside checks this again. A text is
only taken apart where the state of the scan is back at the start: at an operator, a comma or an assignment at the top
level, at parentheses that enclose it, and at blanks around it. So what stands on either side of such a place is
balanced if the text is (`balanced_append`), and by induction so is every text that is handed on
(`Formula.Handed.balanced`). The check therefore only ever fails on the whole input.
-/

namespace Tabular

/-- Whether quotes or parentheses do not match. -/
def FormulaFault.isImbalance : FormulaFault → Bool
  | .unbalanced _ | .unterminated _ => true
  | .empty _ | .missingLeft .. | .missingRight .. | .misplaced .. | .emptyArgument _ | .malformedLiteral _
  | .unreadable _ | .invalidTarget _ | .unknownFunction _ => false

/-- Any other fault. -/
def FormulaFault.Other (fault : FormulaFault) : Prop := fault.isImbalance = false

theorem Shape.isImbalance_of_checkBalance {text : List Char} {fault : FormulaFault}
    (h : checkBalance text = .error fault) : fault.isImbalance = true := by
  unfold checkBalance at h
  split at h
  · cases h
  · obtain rfl := Except.error.inj h
    rfl
  · obtain rfl := Except.error.inj h
    rfl

/-! ## Taking a text apart -/

theorem balanced_trimEnd {text : List Char} (h : Balanced text) : Balanced (Text.trimEnd text) := by
  obtain ⟨post, hpost, htext⟩ := Text.exists_trimEnd text
  have hbetween : Balanced ([] ++ (Text.trimEnd text ++ post)) ↔ Balanced (Text.trimEnd text) :=
    balanced_between rfl hpost
  rw [htext] at h
  exact hbetween.1 h

theorem splitTop_ne_nil (separator : Char) (s : Scan) (text : List Char) : splitTop separator s text ≠ [] := by
  cases text with
  | nil => simp [splitTop]
  | cons c rest =>
    unfold splitTop
    split
    · simp
    · split <;> simp

/-- Commas are found at the top level, so what stands between them is balanced. From within a text, the first part ends
    where the text does. -/
theorem balanced_splitTop_from {s : Scan} {text first : List Char} {parts : List (List Char)}
    (habove : s.Above 0 text) (hrun : s.run text = Scan.start) (h : splitTop ',' s text = first :: parts) :
    (s.Above 0 first ∧ s.run first = Scan.start) ∧ ∀ part ∈ parts, Balanced part := by
  induction text generalizing s first parts with
  | nil =>
    obtain ⟨rfl, rfl⟩ : [] = first ∧ [] = parts := by simpa [splitTop] using h
    exact ⟨⟨habove, hrun⟩, by simp⟩
  | cons c rest ih =>
    simp only [splitTop] at h
    split at h
    · rename_i hsplit
      obtain ⟨rfl, htop⟩ := hsplit
      obtain rfl := Scan.isTop_iff.1 htop
      have hstep : Scan.start.step ',' = Scan.start := Scan.step_eq_self (by decide) (by decide) (by decide) _
      obtain ⟨rfl, rfl⟩ := List.cons.inj h
      rw [Scan.run_cons, hstep] at hrun
      rw [Scan.Above, hstep] at habove
      refine ⟨⟨habove.1, rfl⟩, ?_⟩
      cases hrest : splitTop ',' Scan.start rest with
      | nil => exact absurd hrest (splitTop_ne_nil _ _ _)
      | cons next more =>
        obtain ⟨hnext, hmore⟩ := ih habove.2 hrun hrest
        exact List.forall_mem_cons.2 ⟨balanced_iff.2 hnext, hmore⟩
    · split at h
      · rename_i hnil
        exact absurd hnil (splitTop_ne_nil _ _ _)
      · rename_i next more hrest
        obtain ⟨rfl, rfl⟩ := List.cons.inj h
        obtain ⟨⟨hnext, hend⟩, hmore⟩ := ih habove.2 hrun hrest
        exact ⟨⟨⟨habove.1, hnext⟩, hend⟩, hmore⟩

theorem balanced_splitTop {text part : List Char} (h : Balanced text) (hpart : part ∈ splitTop ',' Scan.start text) :
    Balanced part := by
  obtain ⟨habove, hrun⟩ := balanced_iff.1 h
  cases hparts : splitTop ',' Scan.start text with
  | nil => exact absurd hparts (splitTop_ne_nil _ _ _)
  | cons first parts =>
    obtain ⟨hfirst, hrest⟩ := balanced_splitTop_from habove hrun hparts
    rw [hparts] at hpart
    rcases List.mem_cons.1 hpart with rfl | hpart
    · exact balanced_iff.2 hfirst
    · exact hrest part hpart

theorem balanced_ofText {text body : List Char} {target : Option String} (h : Balanced text)
    (hbody : Assignable.ofText text = .ok (target, body)) : Balanced body := by
  unfold Assignable.ofText at hbody
  split at hbody
  · obtain ⟨-, rfl⟩ := Prod.mk.inj (Except.ok.inj hbody)
    exact h
  · rename_i name body' hsplit
    dsimp only at hbody
    split at hbody
    · obtain ⟨-, rfl⟩ := Prod.mk.inj (Except.ok.inj hbody)
      obtain ⟨rfl, htop⟩ := splitAssignment?_eq_some hsplit
      have hbehind := ((balanced_append (Scan.isTop_iff.1 htop)).1 h).2
      exact ((balanced_append (a := [':', '=']) rfl).1 hbehind).2
    · cases hbody

/-- In front of an operator and behind it stand balanced texts. -/
theorem balanced_around {text last : List Char} {pre post : List Occurrence} {o : Occurrence} (h : Balanced text)
    (hsplit : operators text = (pre ++ o :: post, last)) :
    Balanced (joined pre o.before) ∧ Balanced (joined post last) := by
  have hbefore : ∀ p ∈ pre ++ o :: post, Scan.start.run p.before = Scan.start := fun p hp =>
    (@of_mem_operators text p (by rw [hsplit]; exact hp)).1
  have hfront : Scan.start.run (joined pre o.before) = Scan.start := by
    rw [joined, Scan.run_append, run_flatMap_chars fun p hp => hbefore p (List.mem_append_left _ hp)]
    exact hbefore o (by simp)
  have htext : text = joined pre o.before ++ (o.symbol.spelling ++ joined post last) := by
    have hjoined := joined_operators text
    rw [hsplit, joined_append, joined_cons] at hjoined
    rw [joined, List.append_assoc]
    exact hjoined.symm
  rw [htext, balanced_append hfront, balanced_append (o.symbol.run_spelling _)] at h
  exact ⟨h.1, h.2.2⟩

/-- The operands of a text that is cut at operators are balanced. -/
theorem balanced_cut {level : Nat} {last : List Char} {found : List Occurrence}
    (hfound : ∀ o ∈ found, Scan.start.run o.before = Scan.start) (h : Balanced (joined found last)) :
    Balanced (Chain.cut level last found).first ∧ ∀ link ∈ (Chain.cut level last found).links, Balanced link.2 := by
  induction found with
  | nil => exact ⟨h, by simp [Chain.cut]⟩
  | cons o more ih =>
    obtain ⟨ho, hmore⟩ := List.forall_mem_cons.1 hfound
    rw [joined_cons, balanced_append ho, balanced_append (o.symbol.run_spelling _)] at h
    obtain ⟨hbefore, hspelling, hrest⟩ := h
    obtain ⟨hfirst, hlinks⟩ := ih hmore hrest
    rcases Chain.cutsAt_or_not level o with ⟨op, hcuts⟩ | hnot
    · rw [Chain.cut_cons hcuts]
      exact ⟨hbefore, List.forall_mem_cons.2 ⟨hfirst, hlinks⟩⟩
    · rw [Chain.cut_cons_of_not hnot]
      exact ⟨(hbefore.append hspelling).append hfirst, hlinks⟩

theorem balanced_of_callParts? {text name inner : List Char} (h : Shape.callParts? text = some (name, inner)) :
    Balanced inner :=
  (enclosed?_eq_some_iff.1 (Shape.callParts?_eq_some h).2.2).2

/-! ## Texts inside -/

theorem Shape.balanced_of_inside_stripped {isFunction : String → Bool} {text piece : List Char} {shape : Shape}
    (hshape : ofStripped isFunction text = .ok shape) (hbalanced : Balanced text) (h : shape.Inside piece) :
    Balanced piece := by
  obtain ⟨chain, c, hchain, hchecked, rfl⟩ | ⟨o, more, hfound, hsigns⟩ | ⟨name, inner, hcall, hcallshape⟩ |
    ⟨-, hatom⟩ := ofStripped_ok hshape
  · obtain ⟨level, rfl, -⟩ := Chain.exists_level_of_loosest? hchain
    obtain ⟨-, rfl⟩ := Chain.checked_eq_ok.1 hchecked
    have hjoined : Balanced (joined (operators text).1 (operators text).2) := (joined_operators text).symm ▸ hbalanced
    obtain ⟨hfirst, hlinks⟩ := @balanced_cut level _ _ (fun o ho => (of_mem_operators ho).1) hjoined
    rcases h with rfl | ⟨op, hlink⟩
    · exact hfirst
    · obtain ⟨⟨op', operand⟩, hmem, heq⟩ := List.mem_map.1 hlink
      obtain ⟨rfl, rfl⟩ := Prod.mk.inj heq
      exact balanced_trimEnd (hlinks _ hmem)
  · obtain ⟨-, rfl⟩ := ofSigns_ok hsigns
    obtain rfl := h
    exact balanced_drop (Prod.ext List.takeWhile_append_dropWhile.symm rfl) hbalanced
  · obtain ⟨arg, target, harg, htext⟩ := exists_arg_of_inside hcallshape h
    exact balanced_ofText (balanced_splitTop (balanced_of_callParts? hcall) harg) htext
  · obtain ⟨content, rfl⟩ | ⟨-, rfl⟩ := ofAtom_ok hatom
    · exact h.elim
    · exact h.elim

/-- What is read inside a text is balanced, as the text is. -/
theorem Shape.balanced_of_inside {isFunction : String → Bool} {input piece : List Char} {shape : Shape}
    (hshape : ofText isFunction input = .ok shape) (h : shape.Inside piece) : Balanced piece := by
  obtain ⟨hbalanced, -, hstripped⟩ := ofText_eq_ok.1 hshape
  exact balanced_of_inside_stripped hstripped (balanced_stripParens (balanced_trim.2 hbalanced)) h

/-! ## Faults of reading -/

section Faults

variable {isFunction : String → Bool}

theorem Assignable.endsWell_ofText (text : List Char) :
    EndsWell FormulaFault.Other (fun _ => True) (Assignable.ofText text) := by
  unfold Assignable.ofText
  split
  · trivial
  · dsimp only
    split
    · trivial
    · exact .error rfl

/-- The arguments that are wrong by themselves are so for other reasons. -/
def Shape.Sound : Shape → Prop
  | .call _ args => ∀ arg ∈ args, EndsWell FormulaFault.Other (fun _ => True) arg
  | .binary _ | .signs .. | .quoted _ | .leaf _ => True

theorem Shape.endsWell_argument (text arg : List Char) :
    EndsWell FormulaFault.Other (fun _ => True) (argument text arg) := by
  unfold argument
  split
  · exact .error rfl
  · exact Assignable.endsWell_ofText arg

theorem Chain.other_of_missingOperand? {first : List Char} {links : List (BinaryOp × List Char)} {fault : FormulaFault}
    (h : missingOperand? first links = some fault) : fault.Other := by
  induction links with
  | nil => cases h
  | cons link earlier ih =>
    unfold missingOperand? at h
    split at h
    · obtain rfl := Option.some.inj h
      rfl
    · split at h
      · obtain rfl := Option.some.inj h
        rfl
      · exact ih h

theorem Chain.endsWell_checked (chain : Chain) : EndsWell FormulaFault.Other (fun _ => True) chain.checked := by
  unfold checked
  split
  · rename_i fault hfault
    exact .error (other_of_missingOperand? hfault)
  · trivial

theorem Shape.endsWell_ofSigns (text : List Char) (o : Occurrence) (found : List Occurrence) (last : List Char) :
    EndsWell FormulaFault.Other Sound (ofSigns text o found last) := by
  unfold ofSigns
  split
  · trivial
  · exact .error rfl

theorem Shape.endsWell_ofCall (text name inner : List Char) :
    EndsWell FormulaFault.Other Sound (ofCall isFunction text name inner) := by
  unfold ofCall
  split
  · refine .ok fun arg harg => ?_
    obtain ⟨piece, -, rfl⟩ := List.mem_map.1 harg
    exact endsWell_argument text piece
  · exact .error rfl

theorem Shape.endsWell_ofAtom (text : List Char) : EndsWell FormulaFault.Other Sound (ofAtom text) := by
  unfold ofAtom
  split
  · split
    · split
      · trivial
      · exact .error rfl
    · exact .error rfl
  · split
    · exact .error rfl
    · trivial

theorem Shape.endsWell_ofStripped (text : List Char) :
    EndsWell FormulaFault.Other Sound (ofStripped isFunction text) := by
  unfold ofStripped
  dsimp only
  split
  · rename_i chain _
    have hchecked := chain.endsWell_checked
    cases hresult : chain.checked with
    | error fault =>
      rw [hresult] at hchecked
      exact hchecked
    | ok c => trivial
  · split
    · exact endsWell_ofSigns ..
    · split
      · exact endsWell_ofCall ..
      · exact endsWell_ofAtom text

/-- A balanced text has a shape, or it is wrong for another reason. -/
theorem Shape.endsWell_ofText {input : List Char} (h : Balanced input) :
    EndsWell FormulaFault.Other Sound (ofText isFunction input) := by
  unfold ofText
  rw [checkBalance_eq_ok.2 h]
  refine EndsWell.bind (P := fun _ => True) trivial fun _ _ => ?_
  dsimp only
  split
  · exact .error rfl
  · exact endsWell_ofStripped _

/-- Reading a shape fails for other reasons if reading the texts inside does. -/
theorem Shape.endsWell_read {read : List Char → Except FormulaFault Expr} {shape : Shape} (hsound : shape.Sound)
    (hread : ∀ piece, shape.Inside piece → EndsWell FormulaFault.Other (fun _ => True) (read piece)) :
    EndsWell FormulaFault.Other (fun _ => True) (shape.read read) := by
  cases shape with
  | binary c =>
    have hlink : ∀ link ∈ c.links, EndsWell FormulaFault.Other (fun _ => True)
        (do return (link.1, ← read link.2) : Except FormulaFault (BinaryOp × Expr)) :=
      fun link hlink => (hread link.2 (.inr ⟨link.1, hlink⟩)).bind fun _ _ => trivial
    exact (hread c.first (.inl rfl)).bind fun _ _ => (EndsWell.mapM hlink).bind fun _ _ => trivial
  | signs symbols operand => exact (hread operand rfl).bind fun _ _ => trivial
  | call name args =>
    have harg : ∀ arg ∈ args, EndsWell FormulaFault.Other (fun _ => True) (Assignable.read read arg) := by
      intro arg harg
      refine (hsound arg harg).bind_ok fun ⟨target, body⟩ hok => ?_
      exact (hread body ⟨target, hok ▸ harg⟩).bind fun _ _ => trivial
    exact (EndsWell.mapM harg).bind fun _ _ => trivial
  | quoted content => trivial
  | leaf token => trivial

/-- Reading a balanced text finds no imbalance anywhere. -/
theorem Expr.endsWell_parse {input : List Char} (h : Balanced input) :
    EndsWell FormulaFault.Other (fun _ => True) (parse isFunction input) := by
  rw [parse_eq]
  refine (Shape.endsWell_ofText h).bind_ok fun shape hshape => ?_
  have hsound : shape.Sound := by
    have hends := @Shape.endsWell_ofText isFunction input h
    rwa [hshape] at hends
  refine Shape.endsWell_read hsound fun piece hpiece => ?_
  have hshorter := (Shape.within_ofText hshape).length_lt hpiece
  exact endsWell_parse (Shape.balanced_of_inside hshape hpiece)
termination_by input.length

end Faults

/-! ## Texts that are handed on -/

namespace Formula

/-- The texts that are handed on where a formula is read, at any depth: the input, and of each of them the value of an
    assignment, what stands in front of an operator and behind it, the arguments of a call, and the texts inside of its
    shape, which are its operands when it is cut at all operators of a level at once. -/
inductive Handed (isFunction : String → Bool) (input : List Char) : List Char → Prop
  | whole : Handed isFunction input input
  /-- What an assignment gives its target. -/
  | value {text body : List Char} {target : Option String} (htext : Handed isFunction input text)
      (hbody : Assignable.ofText text = .ok (target, body)) : Handed isFunction input body
  | inFront {text last : List Char} {pre post : List Occurrence} {o : Occurrence} (htext : Handed isFunction input text)
      (ho : operators (stripParens (Text.trim text)) = (pre ++ o :: post, last)) :
      Handed isFunction input (joined pre o.before)
  | behind {text last : List Char} {pre post : List Occurrence} {o : Occurrence} (htext : Handed isFunction input text)
      (ho : operators (stripParens (Text.trim text)) = (pre ++ o :: post, last)) :
      Handed isFunction input (joined post last)
  | argument {text name inner arg : List Char} (htext : Handed isFunction input text)
      (hcall : Shape.callParts? (stripParens (Text.trim text)) = some (name, inner))
      (harg : arg ∈ splitTop ',' Scan.start inner) : Handed isFunction input arg
  | inside {text piece : List Char} {shape : Shape} (htext : Handed isFunction input text)
      (hshape : Shape.ofText isFunction text = .ok shape) (hpiece : shape.Inside piece) :
      Handed isFunction input piece

variable {isFunction : String → Bool}

/-- What is handed on is balanced, as the whole is. -/
theorem Handed.balanced {input piece : List Char} (h : Balanced input) (hpiece : Handed isFunction input piece) :
    Balanced piece := by
  induction hpiece with
  | whole => exact h
  | value _ hbody ih => exact balanced_ofText ih hbody
  | inFront _ ho ih => exact (balanced_around (balanced_stripParens (balanced_trim.2 ih)) ho).1
  | behind _ ho ih => exact (balanced_around (balanced_stripParens (balanced_trim.2 ih)) ho).2
  | argument _ hcall harg _ => exact balanced_splitTop (balanced_of_callParts? hcall) harg
  | inside _ hshape hpiece _ => exact Shape.balanced_of_inside hshape hpiece

/-- An input whose quotes or parentheses do not match is refused for that. -/
theorem parse_of_checkBalance {input : String} {fault : FormulaFault}
    (h : Shape.checkBalance input.toList = .error fault) : parse isFunction input = .error fault := by
  unfold parse
  dsimp only
  rw [h]
  rfl

/-- A balanced input is refused for other reasons only. -/
theorem endsWell_parse {input : String} (h : Balanced input.toList) :
    EndsWell FormulaFault.Other (fun _ => True) (parse isFunction input) := by
  unfold parse
  dsimp only
  rw [Shape.checkBalance_eq_ok.2 h]
  refine (Assignable.endsWell_ofText input.toList).bind_ok fun ⟨target, body⟩ hbody => ?_
  exact (Expr.endsWell_parse (balanced_ofText h hbody)).bind fun _ _ => trivial

/-- A formula is refused for its quotes or parentheses exactly if those of the whole input do not match, and then the
    fault shows the whole input. If they match, so do those of each text that is handed on, and the check of that text
    passes. -/
theorem parse_imbalance_iff (isFunction : String → Bool) (input : String) :
    (∀ fault, parse isFunction input = .error fault ∧ fault.isImbalance = true ↔
      Shape.checkBalance input.toList = .error fault) ∧
      (Shape.checkBalance input.toList = .ok () →
        ∀ piece, Handed isFunction input.toList piece → Balanced piece ∧ Shape.checkBalance piece = .ok ()) := by
  refine ⟨fun fault => ⟨?_, fun h => ⟨parse_of_checkBalance h, Shape.isImbalance_of_checkBalance h⟩⟩,
    fun h piece hpiece => ?_⟩
  · rintro ⟨hparse, himbalance⟩
    cases hcheck : Shape.checkBalance input.toList with
    | error fault' => exact congrArg _ (Except.error.inj ((parse_of_checkBalance hcheck).symm.trans hparse))
    | ok _ =>
      have hother := @endsWell_parse isFunction input (Shape.checkBalance_eq_ok.1 hcheck)
      rw [hparse] at hother
      cases himbalance.symm.trans hother
  · have hbalanced := hpiece.balanced (Shape.checkBalance_eq_ok.1 h)
    exact ⟨hbalanced, Shape.checkBalance_eq_ok.2 hbalanced⟩

/-- A quoted parenthesis does not matter in an argument, and one that is left open shows in the whole input. -/
theorem parse_imbalance_iff_quotes :
    Shape.checkBalance "'it''s ('".toList = .ok () ∧
      parse Operation.isFunction "concat(a, (b)" = .error (.unbalanced "concat(a, (b)") := by
  constructor
  · have hcall : Shape.callParts? (stripParens (Text.trim "concat('it''s (',(a))".toList)) =
        some ("concat".toList, "'it''s (',(a)".toList) := by
      decide +kernel
    exact ((parse_imbalance_iff Operation.isFunction "concat('it''s (',(a))").2 (by decide +kernel) _
      (.argument .whole hcall (by decide +kernel))).2
  · exact (((parse_imbalance_iff Operation.isFunction "concat(a, (b)").1 _).2 (by decide +kernel)).1

end Formula

end Tabular
