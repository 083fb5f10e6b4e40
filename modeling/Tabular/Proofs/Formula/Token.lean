-- SUMMARY: The tokens of formulas are exactly the texts that can be bare tokens.
import Tabular.Proofs.Formula.RoundTrip

/-!
# Tokens of formulas

Whatever is read, its tokens are visible, in one piece and without operators. Each such text is a token of some
formula: between parentheses it is read as itself even if it shows an assignment, also as the key of a call of `sort`.
-/

namespace Tabular

/-! ## Tokens that are read -/

mutual

theorem Expr.isToken_of_wellFormed {isFunction : String → Bool} {argument : Bool} {e : Expr}
    (h : e.wellFormed isFunction argument = true) : ∀ token ∈ e.tokens, isToken token.toList = true := by
  cases e with
  | quoted content => simp [Expr.tokens]
  | leaf token =>
    intro other hother
    obtain rfl := List.mem_singleton.1 hother
    exact h
  | binary op left right =>
    simp only [Expr.wellFormed, Bool.and_eq_true] at h
    intro token htoken
    rcases List.mem_append.1 htoken with htoken | htoken
    · exact Expr.isToken_of_wellFormed h.1 token htoken
    · exact Expr.isToken_of_wellFormed h.2 token htoken
  | call name args =>
    simp only [Expr.wellFormed, Bool.and_eq_true] at h
    exact Expr.isToken_of_argumentsWellFormed h.2
  | assign name value =>
    simp only [Expr.wellFormed, Bool.and_eq_true] at h
    exact fun token htoken => Expr.isToken_of_wellFormed h.2 token htoken

theorem Expr.isToken_of_argumentsWellFormed {isFunction : String → Bool} {args : List Expr}
    (h : Expr.argumentsWellFormed isFunction args = true) :
    ∀ token ∈ Expr.tokensOf args, isToken token.toList = true := by
  match args with
  | [] => simp [Expr.tokensOf]
  | arg :: more =>
    rw [Expr.argumentsWellFormed, Bool.and_eq_true] at h
    intro token htoken
    rcases List.mem_append.1 htoken with htoken | htoken
    · exact Expr.isToken_of_wellFormed h.1 token htoken
    · exact Expr.isToken_of_argumentsWellFormed h.2 token htoken

end

namespace Formula

variable {isFunction : String → Bool} {f : Formula}

/-- A text is read as a formula if it is balanced, has its target and its body is read as its tree. -/
theorem parse_eq_ok {text : String} : parse isFunction text = .ok f ↔
    Shape.checkBalance text.toList = .ok () ∧ ∃ body, Assignable.ofText text.toList = .ok (f.target, body) ∧
      Expr.parse isFunction body = .ok f.expr := by
  unfold parse
  rw [bind_eq_ok]
  constructor
  · rintro ⟨⟨⟩, hbalance, h⟩
    obtain ⟨⟨target, body⟩, htarget, h⟩ := bind_eq_ok.1 h
    obtain ⟨e, he, h⟩ := bind_eq_ok.1 h
    obtain rfl := Except.ok.inj h
    exact ⟨hbalance, body, htarget, he⟩
  · rintro ⟨hbalance, body, htarget, he⟩
    exact ⟨(), hbalance, bind_eq_ok.2 ⟨_, htarget, bind_eq_ok.2 ⟨_, he, rfl⟩⟩⟩

theorem ofText_eq_ok {text : String} : ofText text = .ok f ↔ parse Operation.isFunction text = .ok f := by
  unfold ofText
  split
  · rename_i parsed hparsed
    rw [hparsed]
    exact ⟨fun h => congrArg _ (Except.ok.inj h), fun h => congrArg _ (Except.ok.inj h)⟩
  · rename_i fault hfault
    rw [hfault]
    exact iff_of_false (by simp) (by simp)

/-- What is read is well-formed, and its target is a name. -/
theorem wellFormed_of_ofText {text : String} (h : ofText text = .ok f) :
    f.expr.wellFormed Operation.isFunction false = true ∧ ∀ name ∈ f.target, isName name.toList = true := by
  obtain ⟨-, body, htarget, he⟩ := parse_eq_ok.1 (ofText_eq_ok.1 h)
  refine ⟨Expr.wellFormed_of_parse (by decide) (by decide) he, fun name hname => ?_⟩
  exact Assignable.isName_ofText (hname ▸ htarget)

/-- The tokens of a formula that is read. -/
theorem isToken_of_ofText {text : String} {formula : Formula} (h : ofText text = .ok formula) :
    ∀ token ∈ formula.expr.tokens, isToken token.toList = true :=
  Expr.isToken_of_wellFormed (wellFormed_of_ofText h).1

end Formula

/-! ## Tokens between parentheses -/

namespace Expr

variable {isFunction : String → Bool}

/-- A token between parentheses is read as the token. -/
theorem parse_enclosed {token : String} (h : isToken token.toList = true) :
    parse isFunction ('(' :: (token.toList ++ [')'])) = .ok (.leaf token) := by
  have hbalanced := balanced_of_isToken h
  have hnone : enclosed? token.toList = none :=
    enclosed?_eq_none_of_not_mem fun hmem => (visible_of_isToken h '(' hmem).2.1 rfl
  have hstrip : stripParens (Text.trim ('(' :: (token.toList ++ [')']))) = token.toList := by
    rw [Text.trim_eq_self (solid_enclosed hbalanced).tight, stripParens_enclosed hbalanced,
      Text.trim_eq_self (tight_of_isToken h), stripParens_eq_self hnone]
  have hshape := @Shape.ofText_eq isFunction _ _ hbalanced.enclose hstrip (ne_nil_of_isToken h)
  rw [parse_of_ofText (hshape.trans (Shape.ofStripped_leaf h))]
  rfl

/-- A solid argument is read as its text is. -/
theorem read_solid {read : List Char → Except FormulaFault Expr} {arg : List Char} {e : Expr} (hsolid : Solid arg)
    (hread : read arg = .ok e) (text : List Char) : Assignable.read read (Shape.argument text arg) = .ok e := by
  simp [Assignable.read, Shape.argument, hsolid.tight.allBlank_eq_false, Assignable.ofText,
    splitAssignment?_eq_none hsolid.assignment, bind, Except.bind, hread, pure, Except.pure, Expr.assignTo]

/-- A call with two solid arguments is read by reading the arguments. -/
theorem parse_call_pair {name : String} {first second : List Char} {e d : Expr} (hname : isName name.toList = true)
    (hfunction : isFunction name = true) (hfirst : Solid first) (hsecond : Solid second)
    (he : parse isFunction first = .ok e) (hd : parse isFunction second = .ok d) :
    parse isFunction (name.toList ++ '(' :: (first ++ ',' :: second ++ [')'])) = .ok (.call name [e, d]) := by
  have hcomma : Balanced [','] := rfl
  have hinner : Balanced (first ++ ',' :: second) := hfirst.balanced.append (hcomma.append hsecond.balanced)
  have hsolid := solid_call hname hinner
  have hstrip : stripParens (Text.trim (name.toList ++ '(' :: (first ++ ',' :: second ++ [')']))) =
      name.toList ++ '(' :: (first ++ ',' :: second ++ [')']) := by
    rw [Text.trim_eq_self hsolid.tight, stripParens_eq_self (enclosed?_call hname _)]
  have hshape := @Shape.ofText_eq isFunction _ _ hsolid.balanced hstrip hsolid.tight.ne_nil
  have hblank : Text.allBlank (first ++ ',' :: second) = false := by
    rw [Text.allBlank_append, hfirst.tight.allBlank_eq_false, Bool.false_and]
  have hlast : splitTop ',' Scan.start second = [second] := by
    have hend : splitTop ',' (Scan.start.run second) [] = [[]] := rfl
    simpa using splitTop_append hsecond.comma hend
  have hsplit : splitTop ',' Scan.start (first ++ ',' :: second) = [first, second] := by
    have hrest : splitTop ',' (Scan.start.run first) (',' :: second) = [] :: [second] := by
      rw [hfirst.balanced.run_start, ← hlast]
      rfl
    simpa using splitTop_append hfirst.comma hrest
  rw [Shape.ofStripped_call hname hinner, Shape.ofCall, String.ofList_toList, if_pos hfunction, hblank,
    if_neg Bool.false_ne_true, hsplit] at hshape
  rw [parse_of_ofText hshape]
  simp only [Shape.read, List.map_cons, List.map_nil, List.mapM_cons, List.mapM_nil, read_solid hfirst he,
    read_solid hsecond hd]
  rfl

end Expr

/-- A solid text is read as a formula without a target. -/
theorem Formula.ofText_solid {text : String} {e : Expr} (hsolid : Solid text.toList)
    (he : Expr.parse Operation.isFunction text.toList = .ok e) : Formula.ofText text = .ok ⟨none, e⟩ := by
  have hbalanced : Shape.checkBalance text.toList = .ok () := by
    unfold Shape.checkBalance
    rw [hsolid.balanced]
  simp [Formula.ofText, Formula.parse, hbalanced, Assignable.ofText, splitAssignment?_eq_none hsolid.assignment, he,
    bind, Except.bind, pure, Except.pure]

/-- Each text that can be a token is the key of a call of `sort` that is read. -/
theorem Formula.ofText_sort {token : String} (h : isToken token.toList = true) :
    Formula.ofText ("sort(asc,(" ++ token ++ "))") = .ok ⟨none, .call "sort" [.leaf "asc", .leaf token]⟩ := by
  have htext : ("sort(asc,(" ++ token ++ "))").toList =
      "sort".toList ++ '(' :: ("asc".toList ++ ',' :: ('(' :: (token.toList ++ [')'])) ++ [')']) := by
    simp
  have hasc : isToken "asc".toList = true := by decide +kernel
  have hassign : ¬[':', '='] <:+: "asc".toList := by decide
  have hfirst : Solid "asc".toList := solid_of_isToken hasc hassign
  have hsecond := solid_enclosed (balanced_of_isToken h)
  have hcomma : Balanced [','] := rfl
  have hname : isName "sort".toList = true := by decide
  apply Formula.ofText_solid
  · rw [htext]
    exact solid_call hname (hfirst.balanced.append (hcomma.append hsecond.balanced))
  · rw [htext]
    refine Expr.parse_call_pair hname (by decide) hfirst hsecond ?_ (Expr.parse_enclosed h)
    have hread := @Expr.parse_of_trim Operation.isFunction (.leaf "asc") hasc
    exact hread (fun _ hmem => List.mem_singleton.1 hmem ▸ hassign) (Text.trim_eq_self hfirst.tight)

end Tabular
