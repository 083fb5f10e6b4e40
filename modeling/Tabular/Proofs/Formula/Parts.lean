-- SUMMARY: Where the texts stand that are read inside of a formula text: all are parts of it that begin outside of quotes.
import Tabular.Proofs.Formula.Dangling

/-!
# Parts of a text

Reading descends to operands, arguments and assigned values. Each of them is a piece of the text that is read, and no
quote is open where it begins (`Part`). So what is found outside of quotes in a text deep inside stands outside of quotes
in the whole, as a misplaced sign does with the blanks and the operator in front of it (`Misplacing.signBehindBlanks`).
-/

namespace Tabular

/-! ## Splitting -/

theorem Scan.quoted_of_isTop {s : Scan} (h : s.isTop = true) : s.quoted = false := by
  rw [isTop_iff.1 h]
  rfl

theorem splitTop_eq_cons {s : Scan} {text first : List Char} {parts : List (List Char)}
    (h : splitTop ',' s text = first :: parts) : (∃ after, text = first ++ after) ∧
      ∀ part ∈ parts, ∃ before after, text = before ++ (part ++ after) ∧ (s.run before).isTop = true := by
  induction text generalizing s first parts with
  | nil =>
    obtain ⟨rfl, rfl⟩ : [] = first ∧ [] = parts := by simpa [splitTop] using h
    exact ⟨⟨[], rfl⟩, by simp⟩
  | cons c rest ih =>
    simp only [splitTop] at h
    split at h
    · rename_i hsplit
      obtain ⟨rfl, htop⟩ := hsplit
      have hstep : s.step ',' = s := Scan.step_eq_self (by decide) (by decide) (by decide) s
      obtain ⟨rfl, rfl⟩ := List.cons.inj h
      refine ⟨⟨_, rfl⟩, fun part hpart => ?_⟩
      cases hrest : splitTop ',' s rest with
      | nil => simp [hrest] at hpart
      | cons next more =>
        obtain ⟨⟨after, hnext⟩, hmore⟩ := ih hrest
        rw [hrest] at hpart
        rcases List.mem_cons.1 hpart with rfl | hpart
        · exact ⟨[','], after, by rw [hnext]; rfl, by simpa [hstep] using htop⟩
        · obtain ⟨before, after, rfl, hbefore⟩ := hmore part hpart
          exact ⟨',' :: before, after, rfl, by rwa [Scan.run_cons, hstep]⟩
    · split at h
      · obtain ⟨rfl, rfl⟩ := List.cons.inj h
        exact ⟨⟨rest, rfl⟩, by simp⟩
      · rename_i next more hrest
        obtain ⟨rfl, rfl⟩ := List.cons.inj h
        obtain ⟨⟨after, rfl⟩, hmore⟩ := ih hrest
        refine ⟨⟨after, rfl⟩, fun part hpart => ?_⟩
        obtain ⟨before, after', htext, hbefore⟩ := hmore part hpart
        exact ⟨c :: before, after', by rw [htext]; rfl, hbefore⟩

theorem splitAssignment?_eq_some {s : Scan} {text name body : List Char}
    (h : splitAssignment? s text = some (name, body)) :
    text = name ++ ':' :: '=' :: body ∧ (s.run name).isTop = true := by
  induction text generalizing s name body with
  | nil => simp [splitAssignment?] at h
  | cons c rest ih =>
    simp only [splitAssignment?] at h
    split at h
    · rename_i hsplit
      obtain ⟨rfl, htop, hhead⟩ := hsplit
      obtain ⟨rfl, rfl⟩ : [] = name ∧ rest.tail = body := by simpa using h
      exact ⟨by rw [← List.eq_cons_of_mem_head? hhead]; rfl, htop⟩
    · obtain ⟨⟨name', body'⟩, hrest, heq⟩ := Option.map_eq_some_iff.1 h
      obtain ⟨rfl, rfl⟩ : c :: name' = name ∧ body' = body := by simpa using heq
      obtain ⟨rfl, htop⟩ := ih hrest
      exact ⟨rfl, htop⟩

theorem append_splitName (text : List Char) : (splitName text).1 ++ (splitName text).2 = text := by
  cases text with
  | nil => rfl
  | cons c rest =>
    simp only [splitName]
    split
    · rw [List.cons_append, List.takeWhile_append_dropWhile]
    · rfl

/-! ## Parts -/

/-- The piece stands in the text, and no quote is open in front of it. -/
def Part (piece text : List Char) : Prop :=
  ∃ before after, text = before ++ (piece ++ after) ∧ (Scan.start.run before).quoted = false

namespace Part

theorem refl (text : List Char) : Part text text := ⟨[], [], by simp, rfl⟩

theorem trans {a b c : List Char} (hab : Part a b) (hbc : Part b c) : Part a c := by
  obtain ⟨before, after, rfl, hbefore⟩ := hab
  obtain ⟨before', after', rfl, hbefore'⟩ := hbc
  refine ⟨before' ++ before, after ++ after', by simp, ?_⟩
  rw [Scan.run_append, Scan.quoted_run_congr (show _ = Scan.start.quoted from hbefore'), hbefore]

theorem beginning (piece after : List Char) : Part piece (piece ++ after) := ⟨[], after, rfl, rfl⟩

theorem ending {before : List Char} (h : (Scan.start.run before).quoted = false) (piece : List Char) :
    Part piece (before ++ piece) := ⟨before, [], by simp, h⟩

theorem trim (text : List Char) : Part (Text.trim text) text := by
  obtain ⟨pre, post, hpre, -, htext⟩ := Text.exists_trim text
  exact ⟨pre, post, htext, by rw [Scan.run_eq_self_of_allBlank hpre]; rfl⟩

theorem trimEnd (text : List Char) : Part (Text.trimEnd text) text := by
  obtain ⟨post, -, htext⟩ := Text.exists_trimEnd text
  exact ⟨[], post, htext, rfl⟩

theorem enclosed {text inner : List Char} (h : enclosed? text = some inner) : Part inner text := by
  obtain ⟨rfl, -⟩ := enclosed?_eq_some_iff.1 h
  exact ⟨['('], [')'], rfl, rfl⟩

theorem stripParens (text : List Char) : Part (stripParens text) text := by
  induction text using stripParens.induct with
  | case1 text inner hinner ih =>
    rw [stripParens_of_enclosed hinner]
    exact (ih.trans (trim inner)).trans (enclosed hinner)
  | case2 text hnone =>
    rw [stripParens_eq_self hnone]
    exact refl text

/-- What is behind operators of a text is a part of it. -/
theorem joined {text last : List Char} {pre found : List Occurrence} (h : operators text = (pre ++ found, last)) :
    Part (Tabular.joined found last) text := by
  obtain ⟨front, htext, hfront⟩ := exists_front h
  rw [htext]
  exact ending (by rw [hfront]; rfl) _

theorem splitTop {text part : List Char} (h : part ∈ Tabular.splitTop ',' Scan.start text) : Part part text := by
  cases hparts : Tabular.splitTop ',' Scan.start text with
  | nil => simp [hparts] at h
  | cons first parts =>
    obtain ⟨⟨after, hfirst⟩, hrest⟩ := splitTop_eq_cons hparts
    rw [hparts] at h
    rcases List.mem_cons.1 h with rfl | h
    · exact ⟨[], after, hfirst, rfl⟩
    · obtain ⟨before, after, htext, htop⟩ := hrest part h
      exact ⟨before, after, htext, Scan.quoted_of_isTop htop⟩

theorem splitAssignment? {text name body : List Char}
    (h : Tabular.splitAssignment? Scan.start text = some (name, body)) : Part body text := by
  obtain ⟨rfl, htop⟩ := splitAssignment?_eq_some h
  have hquoted : (Scan.start.run (name ++ [':', '='])).quoted = false := by
    rw [Scan.run_append, Scan.isTop_iff.1 htop]
    rfl
  simpa using ending hquoted body

theorem ofText {text body : List Char} {target : Option String} (h : Assignable.ofText text = .ok (target, body)) :
    Part body text := by
  unfold Assignable.ofText at h
  split at h
  · obtain ⟨-, rfl⟩ := Prod.mk.inj (Except.ok.inj h)
    exact refl text
  · rename_i name body' hsplit
    dsimp only at h
    split at h
    · obtain ⟨-, rfl⟩ := Prod.mk.inj (Except.ok.inj h)
      exact splitAssignment? hsplit
    · simp at h

theorem trimStart (text : List Char) : Part (Text.trimStart text) text := by
  refine ⟨text.takeWhile Text.isBlank, [], ?_, ?_⟩
  · rw [List.append_nil, Text.trimStart, List.takeWhile_append_dropWhile]
  · rw [Scan.run_eq_self_of_allBlank (by simp [Text.allBlank])]
    rfl

theorem callParts? {text name inner : List Char} (h : Shape.callParts? text = some (name, inner)) : Part inner text := by
  obtain ⟨rfl, hname, hinner⟩ := Shape.callParts?_eq_some h
  have hbehind : Part (splitName text).2 text := by
    have hrun := run_of_isName (isName_splitName (by simpa using hname)) Scan.start
    have := ending (by rw [hrun]; rfl) (splitName text).2
    rwa [append_splitName] at this
  exact ((enclosed hinner).trans (trimStart _)).trans hbehind

end Part

/-! ## Texts inside -/

theorem Shape.exists_arg_of_inside {isFunction : String → Bool} {text name inner piece : List Char} {shape : Shape}
    (hshape : ofCall isFunction text name inner = .ok shape) (h : shape.Inside piece) :
    ∃ arg target, arg ∈ splitTop ',' Scan.start inner ∧ Assignable.ofText arg = .ok (target, piece) := by
  unfold ofCall at hshape
  split at hshape
  · obtain rfl := Except.ok.inj hshape
    obtain ⟨target, hmem⟩ := h
    obtain ⟨arg, harg, hok⟩ := List.mem_map.1 hmem
    refine ⟨arg, target, ?_, argument_ok hok⟩
    split at harg
    · simp at harg
    · exact harg
  · simp at hshape

theorem Shape.part_of_inside_stripped {isFunction : String → Bool} {text piece : List Char} {shape : Shape}
    (hshape : ofStripped isFunction text = .ok shape) (h : shape.Inside piece) : Part piece text := by
  obtain ⟨chain, c, hchain, hchecked, rfl⟩ | ⟨o, more, hfound, hsigns⟩ | ⟨name, inner, hcall, hcallshape⟩ |
    ⟨-, hatom⟩ := ofStripped_ok hshape
  · obtain ⟨level, rfl, -⟩ := Chain.exists_level_of_loosest? hchain
    obtain ⟨-, rfl⟩ := Chain.checked_eq_ok.1 hchecked
    have hchars := Chain.chars_cut level (operators text).2 (operators text).1
    rw [joined_operators] at hchars
    rcases h with rfl | ⟨op, hlink⟩
    · have hfirst := Part.beginning (Chain.cut level (operators text).2 (operators text).1).first
        ((Chain.cut level (operators text).2 (operators text).1).links.flatMap Chain.linkChars)
      rwa [← Chain.chars, hchars] at hfirst
    · obtain ⟨⟨op', operand⟩, hmem, heq⟩ := List.mem_map.1 hlink
      obtain ⟨rfl, rfl⟩ := Prod.mk.inj heq
      obtain ⟨pre, post, after, hsplit, hafter⟩ := Chain.exists_behind_of_link hmem
      have hbehind : Part (joined post (operators text).2) text := Part.joined (Prod.ext hsplit rfl)
      rw [hafter] at hbehind
      exact ((Part.trimEnd operand).trans (.beginning operand after)).trans hbehind
  · obtain ⟨-, rfl⟩ := ofSigns_ok hsigns
    obtain rfl := h
    exact Part.joined (Prod.ext List.takeWhile_append_dropWhile.symm rfl)
  · obtain ⟨arg, target, harg, htext⟩ := exists_arg_of_inside hcallshape h
    exact ((Part.ofText htext).trans (Part.splitTop harg)).trans (Part.callParts? hcall)
  · obtain ⟨content, rfl⟩ | ⟨-, rfl⟩ := ofAtom_ok hatom
    · exact h.elim
    · exact h.elim

theorem Shape.part_of_inside {isFunction : String → Bool} {input piece : List Char} {shape : Shape}
    (hshape : ofText isFunction input = .ok shape) (h : shape.Inside piece) : Part piece input := by
  obtain ⟨-, -, hstripped⟩ := ofText_eq_ok.1 hshape
  exact (part_of_inside_stripped hstripped h).trans ((Part.stripParens _).trans (Part.trim input))

/-! ## Misplaced signs -/

/-- What is left between parentheses is trimmed. -/
theorem trim_stripParens {text : List Char} (h : Text.trim text = text) :
    Text.trim (stripParens text) = stripParens text := by
  induction text using stripParens.induct with
  | case1 text inner hinner ih =>
    rw [stripParens_of_enclosed hinner]
    exact ih (Text.trim_trim inner)
  | case2 text hnone => rwa [stripParens_eq_self hnone]

/-- A sign stands outside of quotes behind an operator and blanks that are not all ASCII blanks. -/
def SignBehindBlanks (text : List Char) : Prop :=
  ∃ (before : List Char) (operator : Symbol) (blanks : List Char) (sign : Char) (after : List Char),
    text = before ++ (operator.spelling ++ (blanks ++ sign :: after)) ∧ (Scan.start.run before).quoted = false ∧
      Text.allBlank blanks = true ∧ blanks.all Text.isAsciiBlank = false ∧ (sign = '+' ∨ sign = '-')

/-- Where all blanks are ASCII blanks, no sign is behind others. -/
theorem not_signBehindBlanks {text : List Char} (h : (text.filter Text.isBlank).all Text.isAsciiBlank = true) :
    ¬SignBehindBlanks text := by
  rintro ⟨before, operator, blanks, sign, after, rfl, -, hblank, hascii, -⟩
  obtain ⟨c, hc, hother⟩ := List.all_eq_false.1 hascii
  have hblankc : Text.isBlank c = true := List.all_eq_true.1 hblank c hc
  exact hother (List.all_eq_true.1 h c (List.mem_filter.2 ⟨by simp [hc], hblankc⟩))

theorem SignBehindBlanks.of_part {piece text : List Char} (h : SignBehindBlanks piece) (hpart : Part piece text) :
    SignBehindBlanks text := by
  obtain ⟨before, operator, blanks, sign, after, rfl, hquoted, hblanks⟩ := h
  obtain ⟨before', after', rfl, hquoted'⟩ := hpart
  refine ⟨before' ++ before, operator, blanks, sign, after ++ after', by simp, ?_, hblanks⟩
  rw [Scan.run_append, Scan.quoted_run_congr (show _ = Scan.start.quoted from hquoted'), hquoted]

theorem Occurrence.Misplaced.signBehindBlanks {text : List Char} (htrim : Text.trim text = text) {o : Occurrence}
    (ho : o ∈ (operators text).1) (h : o.Misplaced) : SignBehindBlanks text := by
  obtain ⟨hsign, hleads, hblank⟩ := h
  have hascii : o.before.all Text.isAsciiBlank = false := by
    rw [(of_mem_operators ho).2, Symbol.mayLead_of_isSign hsign, Bool.true_and] at hleads
    exact hleads
  obtain ⟨sign, hspelling, hchar⟩ := Symbol.exists_spelling_of_isSign hsign
  obtain ⟨pre, post, hsplit⟩ := List.append_of_mem ho
  rcases List.eq_nil_or_concat pre with rfl | ⟨front, p, rfl⟩
  · -- The first sign of a trimmed text has no blanks in front of it, so it leads.
    have hnil := @before_eq_nil text o post (by rw [htrim]; exact hsplit) hblank
    simp [hnil] at hascii
  · rw [List.concat_eq_append, List.append_assoc, List.singleton_append] at hsplit
    obtain ⟨text', htext, hrun⟩ := exists_front (Prod.ext hsplit rfl : operators text = (front ++ _, _))
    have hp := @of_mem_operators text p (by rw [hsplit]; simp)
    refine ⟨text' ++ p.before, p.symbol, o.before, sign, joined post (operators text).2, ?_, ?_, hblank, hascii, hchar⟩
    · refine htext.trans ?_
      rw [joined_cons, joined_cons, hspelling]
      simp
    · rw [Scan.run_append, hrun, hp.1]
      rfl

theorem Misplacing.signBehindBlanks {isFunction : String → Bool} {text : List Char} (h : Misplacing isFunction text) :
    SignBehindBlanks text := by
  induction h with
  | @here input o ho hmisplaced =>
    have htrim := trim_stripParens (Text.trim_trim input)
    exact (hmisplaced.signBehindBlanks htrim ho).of_part ((Part.stripParens _).trans (Part.trim input))
  | inside hshape hinside _ ih => exact ih.of_part (Shape.part_of_inside hshape hinside)

end Tabular
