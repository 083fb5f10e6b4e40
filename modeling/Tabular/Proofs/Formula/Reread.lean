-- SUMMARY: Which formulas are read back from their text.
import Tabular.Proofs.Formula.Token

/-!
# Formulas that are read back

A formula that was read from any text is printed without the parentheses that the text may have had around its tokens.
Between parentheses a token may show an assignment, as in `(x:=y)`. Printed as the whole formula or as an argument of a
call, such a token is taken for an assignment the next time. Everywhere else it is read back, and so is everything
that is no such token.
-/

namespace Tabular.Formula

/-- Whether no token that shows an assignment stands where an assignment could. -/
def readsBack (f : Formula) : Bool := (f.target.isSome || !f.expr.showsAssignment) && f.expr.readsBack

variable {isFunction : String → Bool} {f : Formula} {e : Expr}

/-! ## Reading printed formulas -/

theorem checkBalance_chars {argument : Bool} (h : e.wellFormed isFunction argument = true) :
    Shape.checkBalance e.chars = .ok () := by
  unfold Shape.checkBalance
  rw [Expr.balanced_chars h]

/-- The text of a tree is read back exactly if it shows no assignment, neither itself nor as an argument. -/
theorem parse_text_iff (h : e.wellFormed isFunction false = true) :
    parse isFunction (text ⟨none, e⟩) = .ok ⟨none, e⟩ ↔ e.showsAssignment = false ∧ e.readsBack = true := by
  have hchars : (text ⟨none, e⟩).toList = e.chars := by
    rw [text_eq, String.toList_ofList]
    rfl
  rw [parse_eq_ok, hchars, and_iff_right (checkBalance_chars h),
    ← Expr.parse_of_trim_iff h (Text.trim_eq_self (Expr.tight_chars h))]
  cases hshows : e.showsAssignment with
  | true =>
    refine iff_of_false ?_ (by simp)
    rintro ⟨body, htarget, -⟩
    obtain ⟨parts, hparts⟩ := splitAssignment?_of_shows h hshows
    obtain ⟨name, heq⟩ := Assignable.target_of_split hparts htarget
    cases heq
  | false =>
    have hcut : Assignable.ofText e.chars = .ok (none, e.chars) := by
      simp [Assignable.ofText, splitAssignment?_of_not_shows h hshows]
    simp [hcut]

/-- Behind a target a tree is read back exactly if no argument in it shows an assignment that it is not. -/
theorem parse_text_target_iff {name : String} (hname : isName name.toList = true)
    (h : e.wellFormed isFunction false = true) :
    parse isFunction (text ⟨some name, e⟩) = .ok ⟨some name, e⟩ ↔ e.readsBack = true := by
  have hchars : (text ⟨some name, e⟩).toList = (Expr.assign name e).chars := by
    rw [text_eq, String.toList_ofList, Expr.chars_assign]
    simp [chars]
  have hwhole : (Expr.assign name e).wellFormed isFunction true = true := by
    simp [Expr.wellFormed, hname, h]
  have hcut := @Assignable.ofText_assign [] name e hname rfl
  rw [List.nil_append] at hcut
  rw [parse_eq_ok, hchars, and_iff_right (checkBalance_chars hwhole), hcut,
    ← Expr.parse_of_trim_iff h (Text.trim_space_append (Expr.tight_chars h))]
  simp

/-- A formula that was read from a text is read back from its own text, with the same target and the same tree,
    exactly if no token in it shows an assignment where it could be one: as the whole formula, or as an argument. -/
theorem ofText_text_iff {text : String} (h : ofText text = .ok f) : ofText f.text = .ok f ↔ f.readsBack = true := by
  obtain ⟨hexpr, htarget⟩ := wellFormed_of_ofText h
  obtain ⟨target, e⟩ := f
  rw [ofText_eq_ok]
  cases target with
  | none =>
    rw [parse_text_iff hexpr]
    simp [readsBack]
  | some name =>
    rw [parse_text_target_iff (htarget name rfl) hexpr]
    simp [readsBack]

/-- A token that shows an assignment, alone between parentheses, and one that shows none as an argument. -/
theorem ofText_text_iff_parentheses :
    let f : Formula := ⟨none, .leaf "x:=y"⟩
    let g : Formula := ⟨none, .call "sort" [.leaf "asc", .leaf "k"]⟩
    ofText "(x:=y)" = .ok f ∧ ofText f.text ≠ .ok f ∧
      ofText ("sort(asc,(" ++ "k" ++ "))") = .ok g ∧ ofText g.text = .ok g := by
  intro f g
  have htoken : isToken "x:=y".toList = true := by decide +kernel
  have hf : ofText "(x:=y)" = .ok f := by
    have hsolid : Solid "(x:=y)".toList := solid_enclosed (balanced_of_isToken htoken)
    exact ofText_solid hsolid (Expr.parse_enclosed htoken)
  have hg : ofText ("sort(asc,(" ++ "k" ++ "))") = .ok g := ofText_sort (by decide +kernel)
  exact ⟨hf, fun hback => absurd ((ofText_text_iff hf).1 hback) (by decide), hg, (ofText_text_iff hg).2 (by decide)⟩

/-! ## Trees whose tokens show no assignment -/

/-- The text of a tree is read as a formula without a target. -/
theorem ofText_text (h : e.wellFormed Operation.isFunction false = true) (htokens : e.Unassigning) :
    ofText e.text = .ok ⟨none, e⟩ :=
  ofText_eq_ok.2 ((parse_text_iff h).2
    ⟨Expr.showsAssignment_of_unassigning htokens, Expr.readsBack_of_unassigning htokens⟩)

/-- The text of a tree behind a target is read as a formula with the target. -/
theorem ofText_text_target {name : String} (hname : isName name.toList = true)
    (h : e.wellFormed Operation.isFunction false = true) (htokens : e.Unassigning) :
    ofText (text ⟨some name, e⟩) = .ok ⟨some name, e⟩ :=
  ofText_eq_ok.2 ((parse_text_target_iff hname h).2 (Expr.readsBack_of_unassigning htokens))

end Tabular.Formula
