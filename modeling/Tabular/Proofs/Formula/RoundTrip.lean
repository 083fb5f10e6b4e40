-- SUMMARY: When reading the text of a well-formed tree gives the tree back.
import Tabular.Operation.Registry
import Tabular.Proofs.Formula.Printing

/-!
# The round trip

The shape of a printed tree is found construction by construction: the parentheses around an operator are
stripped and exactly that operator is found between its operands, a call is a name and an enclosed text, and
the arguments are cut at the commas between them. Blanks around a text do not matter, which is how an operand
is read although a blank separates it from its operator.

One thing is not read back: a token that shows an assignment, as the argument of a call. Where the text of an argument
has a `:=` at the top level the argument is taken for an assignment.
-/

namespace Tabular

/-! ## Splitting -/

/-- A text without separators at the top level goes to the first part. -/
theorem splitTop_append {separator : Char} {s : Scan} {text rest part : List Char} {parts : List (List Char)}
    (htext : s.Heads (· ≠ separator) text) (hrest : splitTop separator (s.run text) rest = part :: parts) :
    splitTop separator s (text ++ rest) = (text ++ part) :: parts := by
  induction text generalizing s with
  | nil => exact hrest
  | cons c text ih =>
    have hc : ¬(c = separator ∧ s.isTop = true) := by
      rintro ⟨hsep, htop⟩
      exact htext c text (Scan.topSuffix_cons.2 (.inl ⟨htop, rfl⟩)) hsep
    rw [List.cons_append, splitTop, if_neg hc, ih htext.of_cons hrest]
    rfl

theorem splitAssignment?_append {s : Scan} {text : List Char} (htext : s.Heads (· ≠ ':') text) (rest : List Char) :
    splitAssignment? s (text ++ rest) =
      (splitAssignment? (s.run text) rest).map fun (name, body) => (text ++ name, body) := by
  induction text generalizing s with
  | nil => simp
  | cons c text ih =>
    have hc : ¬(c = ':' ∧ s.isTop = true ∧ (text ++ rest).head? = some '=') := by
      rintro ⟨hcolon, htop, -⟩
      exact htext c text (Scan.topSuffix_cons.2 (.inl ⟨htop, rfl⟩)) hcolon
    rw [List.cons_append, splitAssignment?, if_neg hc, ih htext.of_cons, Option.map_map]
    rfl

theorem splitAssignment?_eq_none {s : Scan} {text : List Char}
    (h : ∀ rest, ¬s.TopSuffix text (':' :: '=' :: rest)) : splitAssignment? s text = none := by
  induction text generalizing s with
  | nil => rfl
  | cons c text ih =>
    have hc : ¬(c = ':' ∧ s.isTop = true ∧ text.head? = some '=') := by
      rintro ⟨rfl, htop, hhead⟩
      cases text with
      | nil => simp at hhead
      | cons d text =>
        obtain rfl : d = '=' := by simpa using hhead
        exact h text (Scan.topSuffix_cons.2 (.inl ⟨htop, rfl⟩))
    rw [splitAssignment?, if_neg hc, ih fun rest hrest => h rest (Scan.topSuffix_cons.2 (.inr hrest))]
    rfl

/-- A text that opens and closes nothing is cut at a `:=` wherever there is one. -/
theorem splitAssignment?_of_infix {text : List Char} (hnone : ∀ c ∈ text, c ≠ '\'' ∧ c ≠ '(' ∧ c ≠ ')')
    (h : [':', '='] <:+: text) : ∃ parts, splitAssignment? Scan.start text = some parts := by
  induction text with
  | nil => simp at h
  | cons c text ih =>
    unfold splitAssignment?
    split
    · exact ⟨_, rfl⟩
    · rename_i hc
      obtain ⟨⟨hquote, hopen, hclose⟩, hnone⟩ := List.forall_mem_cons.1 hnone
      rw [Scan.step_eq_self hquote hopen hclose]
      rcases List.infix_cons_iff.1 h with hprefix | hinfix
      · obtain ⟨rest, heq⟩ := hprefix
        obtain ⟨rfl, rfl⟩ := List.cons.inj heq
        exact absurd ⟨rfl, rfl, rfl⟩ hc
      · obtain ⟨parts, hparts⟩ := ih hnone hinfix
        exact ⟨_, by rw [hparts]; rfl⟩

theorem splitName_append {name rest : List Char} {c : Char} (hname : isName name = true)
    (hc : isNamePart c = false) : splitName (name ++ c :: rest) = (name, c :: rest) := by
  cases name with
  | nil => simp [isName] at hname
  | cons d name =>
    simp only [isName, Bool.and_eq_true, List.all_eq_true] at hname
    rw [List.cons_append, splitName, if_pos hname.1, List.takeWhile_append_of_pos hname.2,
      List.dropWhile_append_of_pos hname.2]
    simp [hc]

theorem subset_splitName (text : List Char) : (splitName text).2 ⊆ text := by
  cases text with
  | nil => exact List.Subset.refl _
  | cons c rest =>
    simp only [splitName]
    split
    · exact fun d hd => List.mem_cons_of_mem _ ((List.dropWhile_suffix _).subset hd)
    · exact List.Subset.refl _

/-! ## Stripping -/

theorem stripParens_eq_self {text : List Char} (h : enclosed? text = none) : stripParens text = text := by
  rw [stripParens]
  split
  · simp_all
  · rfl

theorem stripParens_enclosed {inner : List Char} (h : Balanced inner) :
    stripParens ('(' :: (inner ++ [')'])) = stripParens (Text.trim inner) := by
  have henclosed := enclosed?_eq_some_iff.2 ⟨rfl, h⟩
  rw [stripParens]
  split
  · rename_i inner' h'
    obtain rfl : inner = inner' := by simpa [henclosed] using h'
    rfl
  · simp_all

theorem stripParens_of_enclosed {text inner : List Char} (h : enclosed? text = some inner) :
    stripParens text = stripParens (Text.trim inner) := by
  obtain ⟨rfl, hbalanced⟩ := enclosed?_eq_some_iff.1 h
  exact stripParens_enclosed hbalanced

theorem enclosed?_eq_none {c : Char} {text : List Char} (hhead : text.head? = some c) (hc : c ≠ '(') :
    enclosed? text = none := by
  cases henclosed : enclosed? text with
  | none => rfl
  | some inner =>
    obtain ⟨rfl, -⟩ := enclosed?_eq_some_iff.1 henclosed
    exact absurd (by simpa using hhead.symm) hc

theorem enclosed?_eq_none_of_not_mem {text : List Char} (h : '(' ∉ text) : enclosed? text = none := by
  cases text with
  | nil => rfl
  | cons c text => exact enclosed?_eq_none rfl fun hc => h (hc ▸ List.mem_cons_self)

theorem enclosed?_call {name : List Char} (hname : isName name = true) (rest : List Char) :
    enclosed? (name ++ rest) = none := by
  cases name with
  | nil => exact absurd rfl (ne_nil_of_isName hname)
  | cons c name =>
    exact enclosed?_eq_none rfl (unnested_of_isNamePart (forall_isNamePart_of_isName hname c List.mem_cons_self)).2.1

/-- A text with an operator at the top level is not enclosed. -/
theorem enclosed?_eq_none_of_operators {text : List Char} (h : (operators text).1 ≠ []) : enclosed? text = none := by
  cases henclosed : enclosed? text with
  | none => rfl
  | some inner =>
    obtain ⟨rfl, hbalanced⟩ := enclosed?_eq_some_iff.1 henclosed
    have hopen : Opens '(' := .inr (.inl rfl)
    -- In an enclosed text only the opening parenthesis stands at the top level.
    refine absurd (operatorsFrom_eq_nil true [] fun rest hrest => ?_) h
    cases rest with
    | nil => rfl
    | cons c rest =>
      exact Symbol.atStart?_eq_none (Scan.heads_enclosed hopen hbalanced c rest hrest).beginsSymbol

/-! ## Shapes -/

namespace Shape

variable {isFunction : String → Bool}

theorem ofText_eq {input text : List Char} (hbalanced : Balanced input)
    (hstrip : stripParens (Text.trim input) = text) (hne : text ≠ []) :
    ofText isFunction input = ofStripped isFunction text := by
  have hcheck : checkBalance input = .ok () := by
    unfold checkBalance
    rw [hbalanced]
  have hnonempty : text.isEmpty = false := by simpa using hne
  simp [ofText, hcheck, bind, Except.bind, hstrip, hnonempty]

theorem ofStripped_of_operators_nil {text : List Char} (h : (operators text).1 = []) :
    ofStripped isFunction text =
      match callParts? text with
      | some (name, inner) => ofCall isFunction text name inner
      | none => ofAtom text := by
  unfold ofStripped
  rw [operators_eq h]
  rfl

theorem ofStripped_quoted (content : String) :
    ofStripped isFunction (Expr.quoted content).chars = .ok (.quoted content) := by
  have hpiece : Piece (Expr.quoted content).chars := @Expr.piece_chars isFunction (.quoted content) rfl
  have hname : isNameStart '\'' = false := by decide
  have hcall : callParts? (Expr.quoted content).chars = none := by
    simp [callParts?, Expr.chars, splitName, hname]
  rw [ofStripped_of_operators_nil hpiece.operators, hcall]
  simp [ofAtom, Expr.chars, Text.undouble?_double]

theorem ofStripped_leaf {token : String} (h : isToken token.toList = true) :
    ofStripped isFunction token.toList = .ok (.leaf token) := by
  have hvisible := visible_of_isToken h
  have hcall : callParts? token.toList = none := by
    unfold callParts?
    dsimp only
    split
    · rfl
    -- A token that begins with a name could be a call, but it has no parenthesis to enclose an argument.
    · have hsuffix : Text.trimStart (splitName token.toList).2 <:+ (splitName token.toList).2 :=
        List.dropWhile_suffix Text.isBlank
      rw [enclosed?_eq_none_of_not_mem, Option.map_none]
      intro hmem
      exact (hvisible '(' (subset_splitName token.toList (hsuffix.subset hmem))).2.1 rfl
  have hbreaks : token.toList.any breaksToken = false := by
    simp only [List.any_eq_false, breaksToken, Bool.or_eq_true, beq_iff_eq, not_or, Bool.not_eq_true]
    intro c hc
    obtain ⟨hquote, hopen, -, hcomma, hblank⟩ := hvisible c hc
    exact ⟨⟨⟨hquote, hopen⟩, hcomma⟩, hblank⟩
  rw [ofStripped_of_operators_nil (operators_of_isToken h), hcall]
  change ofAtom token.toList = _
  unfold ofAtom
  split
  · rename_i rest heq
    have hmem : '\'' ∈ token.toList := heq ▸ List.mem_cons_self
    exact absurd rfl (hvisible _ hmem).1
  · simp [hbreaks]

theorem ofStripped_operandChars {op : BinaryOp} {left right : Expr} (hleft : Piece left.chars)
    (hright : Piece right.chars) :
    ofStripped isFunction (Expr.operandChars op left right) =
      .ok (.binary ⟨left.chars ++ [' '], [(op, ' ' :: right.chars)]⟩) := by
  have hfound := operators_binary op hleft.operators hright.operators hleft.balanced.run_start hleft.tight
  have hloosest : Chain.loosest? [⟨left.chars ++ [' '], .binary op, false⟩] (' ' :: right.chars) =
      some ⟨left.chars ++ [' '], [(op, ' ' :: right.chars)]⟩ := by
    cases op <;> rfl
  have hfirst : Text.allBlank (left.chars ++ [' ']) = false := by
    rw [Text.allBlank_append, hleft.tight.allBlank_eq_false, Bool.false_and]
  have hlast : Text.allBlank (' ' :: right.chars) = false := by
    have := hright.tight.allBlank_eq_false
    simp_all [Text.allBlank]
  -- The last operand keeps the blank in front of it; only blanks behind it would be dropped.
  obtain ⟨-, c, hc, hblank⟩ := hright.tight
  have htrim : Text.trimEnd (' ' :: right.chars) = ' ' :: right.chars :=
    Text.trimEnd_eq_self (by simp [List.getLast?_cons, hc]) hblank
  have hchecked : Chain.checked ⟨left.chars ++ [' '], [(op, ' ' :: right.chars)]⟩ =
      .ok ⟨left.chars ++ [' '], [(op, ' ' :: right.chars)]⟩ := by
    simp [Chain.checked, Chain.missingOperand?, hfirst, hlast, htrim]
  unfold ofStripped Expr.operandChars
  simp only [hfound, hloosest, hchecked, Except.map]

theorem ofStripped_call {name : String} {inner : List Char} (hname : isName name.toList = true)
    (hinner : Balanced inner) :
    ofStripped isFunction (name.toList ++ '(' :: (inner ++ [')'])) =
      ofCall isFunction (name.toList ++ '(' :: (inner ++ [')'])) name.toList inner := by
  have hsplit := @splitName_append name.toList (inner ++ [')']) '(' hname (by decide)
  have hne : name.toList.isEmpty = false := by simpa using ne_nil_of_isName hname
  have htrim : Text.trimStart ('(' :: (inner ++ [')'])) = '(' :: (inner ++ [')']) :=
    Text.trimStart_eq_self rfl (by decide)
  have hcall : callParts? (name.toList ++ '(' :: (inner ++ [')'])) = some (name.toList, inner) := by
    rw [callParts?, hsplit]
    simp only [hne, Bool.false_eq_true, if_false, htrim, enclosed?_eq_some_iff.2 ⟨rfl, hinner⟩, Option.map_some]
  rw [ofStripped_of_operators_nil (solid_call hname hinner).operators, hcall]

end Shape

/-! ## Arguments -/

section Arguments

variable {read : List Char → Except FormulaFault Expr} {lead : List Char}

theorem ne_of_isBlank {c d : Char} (hc : Text.isBlank c = true) (hd : Text.isBlank d = false) : c ≠ d := by
  rintro rfl
  simp [hc] at hd

theorem heads_of_allBlank {d : Char} (hd : Text.isBlank d = false) (hlead : Text.allBlank lead = true) (s : Scan) :
    s.Heads (· ≠ d) lead := by
  simp only [Text.allBlank, List.all_eq_true] at hlead
  exact Scan.heads_of_forall fun c hc => ne_of_isBlank (hlead c hc) hd

/-- What is cut at a `:=` has a target. -/
theorem Assignable.target_of_split {text body : List Char} {parts : List Char × List Char} {target : Option String}
    (hsplit : splitAssignment? Scan.start text = some parts) (h : Assignable.ofText text = .ok (target, body)) :
    ∃ name, target = some name := by
  unfold Assignable.ofText at h
  rw [hsplit] at h
  dsimp only at h
  split at h
  · exact ⟨_, (Prod.mk.inj (Except.ok.inj h)).1.symm⟩
  · simp at h

/-- What shows an assignment is cut at it. -/
theorem splitAssignment?_of_shows {isFunction : String → Bool} {e : Expr} (h : e.wellFormed isFunction false = true)
    (hshows : e.showsAssignment = true) : ∃ parts, splitAssignment? Scan.start e.chars = some parts := by
  cases e with
  | leaf token =>
    refine splitAssignment?_of_infix (fun c hc => ?_) (of_decide_eq_true hshows)
    obtain ⟨hquote, hopen, hclose, -⟩ := visible_of_isToken h c hc
    exact ⟨hquote, hopen, hclose⟩
  | _ => cases hshows

/-- What shows no assignment is not cut. -/
theorem splitAssignment?_of_not_shows {isFunction : String → Bool} {e : Expr} (h : e.wellFormed isFunction false = true)
    (hshows : e.showsAssignment = false) : splitAssignment? Scan.start e.chars = none :=
  splitAssignment?_eq_none (Expr.solid_chars_of_not_shows h hshows).assignment

/-- An argument that is no assignment is read as it is, whatever blanks are in front of it, exactly if it does not
    show one. -/
theorem Assignable.read_argument_value_iff {isFunction : String → Bool} {text : List Char} {e : Expr}
    (h : e.wellFormed isFunction false = true) (hlead : Text.allBlank lead = true) :
    Assignable.read read (Shape.argument text (lead ++ e.chars)) = .ok e ↔
      e.showsAssignment = false ∧ read (lead ++ e.chars) = .ok e := by
  have hsplit : splitAssignment? Scan.start (lead ++ e.chars) =
      (splitAssignment? Scan.start e.chars).map fun (name, body) => (lead ++ name, body) := by
    rw [splitAssignment?_append (heads_of_allBlank (by decide) hlead _), Scan.run_eq_self_of_allBlank hlead]
  cases hshows : e.showsAssignment with
  | true =>
    refine ⟨fun hread => ?_, fun hfalse => by simp at hfalse⟩
    obtain ⟨parts, hparts⟩ := splitAssignment?_of_shows h hshows
    rw [hparts] at hsplit
    -- What is read is an assignment, and no assignment shows one in this sense.
    obtain ⟨⟨target, body⟩, htarget, hread⟩ := bind_eq_ok.1 hread
    obtain ⟨value, -, hread⟩ := bind_eq_ok.1 hread
    obtain ⟨name, rfl⟩ := Assignable.target_of_split hsplit (Shape.argument_ok htarget)
    obtain rfl := Except.ok.inj hread
    cases hshows
  | false =>
    have hblank : Text.allBlank (lead ++ e.chars) = false := by
      rw [Text.allBlank_append, (Expr.tight_chars h).allBlank_eq_false, Bool.and_false]
    rw [splitAssignment?_of_not_shows h hshows, Option.map_none] at hsplit
    have hargument : Shape.argument text (lead ++ e.chars) = .ok (none, lead ++ e.chars) := by
      simp [Shape.argument, hblank, Assignable.ofText, hsplit]
    rw [hargument, and_iff_right rfl]
    exact bind_pure (read (lead ++ e.chars)) ▸ Iff.rfl

/-- An assignment is cut at its `:=`. -/
theorem Assignable.ofText_assign {name : String} (value : Expr) (hname : isName name.toList = true)
    (hlead : Text.allBlank lead = true) :
    Assignable.ofText (lead ++ (Expr.assign name value).chars) = .ok (some name, ' ' :: value.chars) := by
  have hchars : lead ++ (Expr.assign name value).chars =
      lead ++ (name.toList ++ [' ']) ++ ':' :: '=' :: ' ' :: value.chars := by
    simp [Expr.chars_assign]
  have hcolon : ∀ c ∈ name.toList, c ≠ ':' := by
    rintro c hc rfl
    exact absurd (forall_isNamePart_of_isName hname ':' hc) (by decide)
  have hspace : Text.allBlank [' '] = true := by decide
  -- The first colon at the top level is that of the `:=`, since names have none.
  have hheads : Scan.start.Heads (· ≠ ':') (lead ++ (name.toList ++ [' '])) :=
    Scan.heads_append (heads_of_allBlank (by decide) hlead _)
      (Scan.heads_append (Scan.heads_of_forall hcolon) (heads_of_allBlank (by decide) hspace _))
  have hrun : Scan.start.run (lead ++ (name.toList ++ [' '])) = Scan.start := by
    rw [Scan.run_append, Scan.run_eq_self_of_allBlank hlead, Scan.run_append, run_of_isName hname,
      Scan.run_eq_self_of_allBlank hspace]
  have hsplit : splitAssignment? Scan.start (lead ++ (Expr.assign name value).chars) =
      some (lead ++ (name.toList ++ [' ']), ' ' :: value.chars) := by
    have hhere : splitAssignment? Scan.start (':' :: '=' :: ' ' :: value.chars) = some ([], ' ' :: value.chars) := rfl
    rw [hchars, splitAssignment?_append hheads, hrun, hhere]
    simp
  have htrim : Text.trim (lead ++ (name.toList ++ [' '])) = name.toList :=
    Text.trim_between hlead hspace (tight_of_isName hname)
  simp [Assignable.ofText, hsplit, htrim, hname]

theorem Assignable.read_argument_assign_iff {text : List Char} {name : String} {value : Expr}
    (hname : isName name.toList = true) (hlead : Text.allBlank lead = true) :
    Assignable.read read (Shape.argument text (lead ++ (Expr.assign name value).chars)) = .ok (.assign name value) ↔
      read (' ' :: value.chars) = .ok value := by
  have hblank : Text.allBlank (lead ++ (Expr.assign name value).chars) = false := by
    rw [Expr.chars_assign, Text.allBlank_append, Text.allBlank_append, (tight_of_isName hname).allBlank_eq_false,
      Bool.false_and, Bool.and_false]
  have hargument : Shape.argument text (lead ++ (Expr.assign name value).chars) =
      .ok (some name, ' ' :: value.chars) := by
    simp [Shape.argument, hblank, ofText_assign value hname hlead]
  rw [hargument]
  change (read (' ' :: value.chars) >>= fun v => .ok (Expr.assign name v)) = .ok (Expr.assign name value) ↔ _
  rw [bind_eq_ok]
  constructor
  · rintro ⟨v, hread, heq⟩
    obtain ⟨-, rfl⟩ := Expr.assign.inj (Except.ok.inj heq)
    exact hread
  · exact fun hread => ⟨value, hread, rfl⟩

/-- No argument shows a comma at the top level. -/
theorem heads_comma_chars {isFunction : String → Bool} {e : Expr} (h : e.wellFormed isFunction true = true) :
    Scan.start.Heads (· ≠ ',') e.chars := by
  rcases Expr.argument_cases h with h | ⟨name, value, rfl, hname, hvalue⟩
  · exact (Expr.piece_chars h).comma
  · have hsymbol : ∀ c ∈ [' ', ':', '=', ' '], c ≠ ',' := by simp
    rw [Expr.chars_assign]
    refine Scan.heads_append (Scan.heads_of_forall fun c hc => ?_)
      (Scan.heads_append (Scan.heads_of_forall hsymbol) ?_)
    · rintro rfl
      exact absurd (forall_isNamePart_of_isName hname ',' hc) (by decide)
    · rw [run_of_isName hname]
      exact (Expr.piece_chars hvalue).comma

end Arguments

/-! ## The round trip -/

namespace Expr

variable {isFunction : String → Bool}

theorem parse_of_ofText {input : List Char} {shape : Shape} (h : Shape.ofText isFunction input = .ok shape) :
    parse isFunction input = shape.read (parse isFunction) := by
  rw [parse_eq, h]
  rfl

theorem balanced_of_trim {input : List Char} {e : Expr} (h : e.wellFormed isFunction false = true)
    (hinput : Text.trim input = e.chars) : Balanced input := by
  rw [← balanced_trim, hinput]
  exact balanced_chars h

/-- The shape of a text whose visible part is that of a tree without parentheses around it. -/
theorem ofText_of_trim {input : List Char} {e : Expr} (h : e.wellFormed isFunction false = true)
    (hinput : Text.trim input = e.chars) (hnone : enclosed? e.chars = none) :
    Shape.ofText isFunction input = Shape.ofStripped isFunction e.chars := by
  refine Shape.ofText_eq (balanced_of_trim h hinput) ?_ (tight_chars h).ne_nil
  rw [hinput, stripParens_eq_self hnone]

/-- The parentheses around operands are stripped. -/
theorem ofText_of_trim_binary {input : List Char} {op : BinaryOp} {left right : Expr} (hbalanced : Balanced input)
    (hleft : Piece left.chars) (hright : Piece right.chars)
    (hinput : Text.trim input = (binary op left right).chars) :
    Shape.ofText isFunction input = .ok (.binary ⟨left.chars ++ [' '], [(op, ' ' :: right.chars)]⟩) := by
  have hfound := operators_binary op hleft.operators hright.operators hleft.balanced.run_start hleft.tight
  have hnone : enclosed? (operandChars op left right) = none :=
    enclosed?_eq_none_of_operators (by simp [operandChars, hfound])
  have htight : Text.Tight (operandChars op left right) := by
    have := hleft.tight.append hright.tight (' ' :: (op.spelling ++ [' ']))
    simpa [operandChars] using this
  have hstrip : stripParens (Text.trim input) = operandChars op left right := by
    rw [hinput, chars_binary, stripParens_enclosed (balanced_operandChars hleft.balanced hright.balanced),
      Text.trim_eq_self htight, stripParens_eq_self hnone]
  rw [Shape.ofText_eq hbalanced hstrip htight.ne_nil, Shape.ofStripped_operandChars hleft hright]

theorem allBlank_argumentChars {args : List Expr} (h : argumentsWellFormed isFunction args = true) (hne : args ≠ []) :
    Text.allBlank (argumentChars args) = false := by
  match args with
  | [] => exact absurd rfl hne
  | [arg] =>
    simp only [argumentsWellFormed, Bool.and_true] at h
    exact (tight_chars h).allBlank_eq_false
  | arg :: next :: more =>
    rw [argumentsWellFormed, Bool.and_eq_true] at h
    rw [argumentChars_cons, Text.allBlank_append, (tight_chars h.1).allBlank_eq_false, Bool.false_and]

theorem heads_lead_append {lead text : List Char} {d : Char} (hlead : Text.allBlank lead = true)
    (htext : Scan.start.Heads (· ≠ d) text) (hd : Text.isBlank d = false) :
    Scan.start.Heads (· ≠ d) (lead ++ text) := by
  refine Scan.heads_append (heads_of_allBlank hd hlead _) ?_
  rwa [Scan.run_eq_self_of_allBlank hlead]

mutual

/-- Whether no argument of a call in the tree is a token that shows an assignment. -/
def readsBack : Expr → Bool
  | .quoted _ | .leaf _ => true
  | .binary _ left right => left.readsBack && right.readsBack
  | .call _ args => argumentsReadBack args
  | .assign _ value => value.readsBack

def argumentsReadBack : List Expr → Bool
  | [] => true
  | arg :: more => !arg.showsAssignment && arg.readsBack && argumentsReadBack more

end

/-- The text of an argument is read as the argument exactly if it shows no assignment that it is not, and if the text of
    the tree inside is read as the tree. -/
theorem read_argument_iff {arg : Expr} (h : arg.wellFormed isFunction true = true)
    (hparse : ∀ e : Expr, sizeOf e ≤ sizeOf arg → e.wellFormed isFunction false = true →
      ∀ input, Text.trim input = e.chars → (parse isFunction input = .ok e ↔ e.readsBack = true))
    {lead : List Char} (hlead : Text.allBlank lead = true) (text : List Char) :
    Assignable.read (parse isFunction) (Shape.argument text (lead ++ arg.chars)) = .ok arg ↔
      (!arg.showsAssignment && arg.readsBack) = true := by
  rcases argument_cases h with h | ⟨name, value, rfl, hname, hvalue⟩
  · have htrim := @Text.trim_between lead arg.chars [] hlead rfl (tight_chars h)
    rw [List.append_nil] at htrim
    rw [Assignable.read_argument_value_iff h hlead, hparse arg (Nat.le_refl _) h _ htrim, Bool.and_eq_true,
      Bool.not_eq_true']
  · rw [Assignable.read_argument_assign_iff hname hlead,
      hparse value (by simp) hvalue _ (Text.trim_space_append (tight_chars hvalue))]
    rfl

theorem read_binary_iff {read : List Char → Except FormulaFault Expr} {op : BinaryOp} {first last : List Char}
    {left right : Expr} : (Shape.binary ⟨first, [(op, last)]⟩).read read = .ok (binary op left right) ↔
      read first = .ok left ∧ read last = .ok right := by
  constructor
  · intro h
    obtain ⟨left', hleft, h⟩ := bind_eq_ok.1 h
    obtain ⟨links, hlinks, h⟩ := bind_eq_ok.1 h
    obtain ⟨link, _, hlink, hnil, rfl⟩ := List.forall₂_cons_left_iff.1 (mapM_eq_ok.1 hlinks)
    obtain rfl := List.forall₂_nil_left_iff.1 hnil
    obtain ⟨right', hright, hlink⟩ := bind_eq_ok.1 hlink
    obtain rfl := Except.ok.inj hlink
    obtain ⟨-, rfl, rfl⟩ := binary.inj (Except.ok.inj h)
    exact ⟨hleft, hright⟩
  · rintro ⟨hleft, hright⟩
    simp [Shape.read, hleft, hright, bind, Except.bind, pure, Except.pure]

mutual

/-- The text of a tree is read as the tree, with blanks around it or without, exactly if no argument in it shows an
    assignment that it is not. -/
theorem parse_of_trim_iff {e : Expr} (h : e.wellFormed isFunction false = true) {input : List Char}
    (hinput : Text.trim input = e.chars) : parse isFunction input = .ok e ↔ e.readsBack = true := by
  cases e with
  | quoted content =>
    have hshape := (ofText_of_trim h hinput (enclosed?_eq_none rfl (by decide))).trans
      (Shape.ofStripped_quoted content)
    rw [parse_of_ofText hshape]
    exact iff_of_true rfl rfl
  | leaf token =>
    have hnone : enclosed? token.toList = none :=
      enclosed?_eq_none_of_not_mem fun hmem => (visible_of_isToken h '(' hmem).2.1 rfl
    rw [parse_of_ofText ((ofText_of_trim h hinput hnone).trans (Shape.ofStripped_leaf h))]
    exact iff_of_true rfl rfl
  | binary op left right =>
    have hbalanced := balanced_of_trim h hinput
    simp only [wellFormed, Bool.and_eq_true] at h
    -- The operands are read with the blanks that separate them from the operator.
    have hfirst := parse_of_trim_iff h.1 (Text.trim_append_space (tight_chars h.1))
    have hlast := parse_of_trim_iff h.2 (Text.trim_space_append (tight_chars h.2))
    rw [parse_of_ofText (ofText_of_trim_binary hbalanced (piece_chars h.1) (piece_chars h.2) hinput),
      read_binary_iff, hfirst, hlast, readsBack, Bool.and_eq_true]
  | call name args =>
    have hcall := h
    simp only [wellFormed, Bool.and_eq_true] at h
    have hshape := ofText_of_trim hcall hinput (chars_call name args ▸ enclosed?_call h.1.1 _)
    rw [chars_call, Shape.ofStripped_call h.1.1 (balanced_argumentChars h.2), Shape.ofCall, String.ofList_toList,
      if_pos h.1.2, ← chars_call] at hshape
    have hargs : ((if Text.allBlank (argumentChars args) then []
        else splitTop ',' Scan.start (argumentChars args)).map
          (Shape.argument (call name args).chars)).mapM (Assignable.read (parse isFunction)) = .ok args ↔
            argumentsReadBack args = true := by
      by_cases hne : args = []
      · subst hne
        exact iff_of_true rfl rfl
      · rw [allBlank_argumentChars h.2 hne]
        have hblank : Text.allBlank [] = true := rfl
        exact read_argumentChars_iff h.2 hne hblank _
    rw [parse_of_ofText hshape, readsBack, ← hargs]
    constructor
    · intro hread
      obtain ⟨trees, htrees, hread⟩ := bind_eq_ok.1 hread
      obtain ⟨-, rfl⟩ := call.inj (Except.ok.inj hread)
      exact htrees
    · exact fun htrees => bind_eq_ok.2 ⟨args, htrees, rfl⟩
  | assign name value => simp [wellFormed] at h

termination_by sizeOf e

/-- The text of arguments is cut and read as the arguments, with blanks in front of it or without. -/
theorem read_argumentChars_iff {args : List Expr} (h : argumentsWellFormed isFunction args = true) (hne : args ≠ [])
    {lead : List Char} (hlead : Text.allBlank lead = true) (text : List Char) :
    ((splitTop ',' Scan.start (lead ++ argumentChars args)).map (Shape.argument text)).mapM
      (Assignable.read (parse isFunction)) = .ok args ↔ argumentsReadBack args = true := by
  match args with
  | [] => exact absurd rfl hne
  | [arg] =>
    simp only [argumentsWellFormed, Bool.and_true] at h
    have hread := read_argument_iff h (fun e _ he _ hinput => parse_of_trim_iff he hinput) hlead text
    have hsplit := splitTop_append (heads_lead_append hlead (heads_comma_chars h) (by decide))
      (show splitTop ',' _ [] = [[]] from rfl)
    rw [List.append_nil] at hsplit
    rw [argumentChars, hsplit, argumentsReadBack, argumentsReadBack, Bool.and_true, ← hread, List.map_singleton,
      mapM_eq_ok, List.forall₂_cons, and_iff_left .nil]
  | arg :: next :: more =>
    rw [argumentsWellFormed, Bool.and_eq_true] at h
    have hread := read_argument_iff h.1 (fun e _ he _ hinput => parse_of_trim_iff he hinput) hlead text
    have hrest := read_argumentChars_iff h.2 (List.cons_ne_nil _ _) (show Text.allBlank [' '] = true by decide) text
    -- Behind a balanced argument the scan is at the top level again, so the comma cuts.
    have hrun : Scan.start.run (lead ++ arg.chars) = Scan.start := by
      rw [Scan.run_append, Scan.run_eq_self_of_allBlank hlead, (balanced_chars h.1).run_start]
    have hcomma : splitTop ',' Scan.start (',' :: ([' '] ++ argumentChars (next :: more))) =
        [] :: splitTop ',' Scan.start ([' '] ++ argumentChars (next :: more)) := rfl
    rw [← hrun] at hcomma
    have hsplit := splitTop_append (heads_lead_append hlead (heads_comma_chars h.1) (by decide)) hcomma
    rw [List.append_nil, hrun] at hsplit
    rw [argumentChars_cons, ← List.append_assoc]
    simp only [List.cons_append, List.nil_append] at hsplit hrest ⊢
    rw [hsplit, List.map_cons, argumentsReadBack, Bool.and_eq_true, ← hread, ← hrest, mapM_eq_ok, mapM_eq_ok,
      List.forall₂_cons]
termination_by sizeOf args
decreasing_by
  all_goals simp_wf
  all_goals omega

end

mutual

theorem readsBack_of_unassigning {e : Expr} (h : e.Unassigning) : e.readsBack = true := by
  cases e with
  | quoted content => rfl
  | leaf token => rfl
  | binary op left right =>
    have hleft : left.Unassigning := fun token hmem => h token (List.mem_append_left _ hmem)
    have hright : right.Unassigning := fun token hmem => h token (List.mem_append_right _ hmem)
    rw [readsBack, readsBack_of_unassigning hleft, readsBack_of_unassigning hright, Bool.and_self]
  | call name args => exact argumentsReadBack_of_unassigning h
  | assign name value => exact readsBack_of_unassigning (e := value) h

theorem argumentsReadBack_of_unassigning {args : List Expr} (h : ArgumentsUnassigning args) :
    argumentsReadBack args = true := by
  match args with
  | [] => rfl
  | arg :: more =>
    have harg : arg.Unassigning := fun token hmem => h token (List.mem_append_left _ hmem)
    have hmore : ArgumentsUnassigning more := fun token hmem => h token (List.mem_append_right _ hmem)
    rw [argumentsReadBack, showsAssignment_of_unassigning harg, readsBack_of_unassigning harg,
      argumentsReadBack_of_unassigning hmore]
    rfl

end

/-- The text of a tree is read as the tree, with blanks around it or without. -/
theorem parse_of_trim {e : Expr} (h : e.wellFormed isFunction false = true) (htokens : e.Unassigning)
    {input : List Char} (hinput : Text.trim input = e.chars) : parse isFunction input = .ok e :=
  (parse_of_trim_iff h hinput).2 (readsBack_of_unassigning htokens)

/-- With the built-in operations, whatever is read is well-formed, and the text of a well-formed tree is read as
    that tree, unless a token in it shows an assignment. -/
theorem parse_and_text_agree :
    (∀ (input : String) (e : Expr), parse Operation.isFunction input.toList = .ok e →
      e.wellFormed Operation.isFunction false = true) ∧
    ∀ e : Expr, e.wellFormed Operation.isFunction false = true →
      (∀ token ∈ e.tokens, ¬[':', '='] <:+: token.toList) →
      parse Operation.isFunction e.text.toList = .ok e := by
  refine ⟨fun input e h => wellFormed_of_parse (by decide) (by decide) h, fun e h htokens => ?_⟩
  rw [text_eq, String.toList_ofList]
  exact parse_of_trim h htokens (Text.trim_eq_self (tight_chars h))

/-- A call with an assignment, an exponent and a quote in a literal comes back. -/
theorem parse_and_text_agree_call :
    let e := call "by" [leaf "day", assign "n" (call "negate" [binary .add (leaf "1e-5") (quoted "it's")])]
    parse Operation.isFunction e.text.toList = .ok e ∧ e.wellFormed Operation.isFunction false = true := by
  have hback := parse_and_text_agree.2
    (call "by" [leaf "day", assign "n" (call "negate" [binary .add (leaf "1e-5") (quoted "it's")])])
    (by decide +kernel) (by decide)
  exact ⟨hback, parse_and_text_agree.1 _ _ hback⟩

end Expr

end Tabular
