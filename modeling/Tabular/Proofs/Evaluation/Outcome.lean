-- SUMMARY: What an outcome tells of its tree, and which tokens of the tree have been read.
import Tabular.Proofs.Evaluation.Parts
import Tabular.Proofs.Results

/-!
# Outcomes

Frames only come from `by` and `sort`, plots only from `plot`, and both only from the root of a tree, since an operand
must be a column. So if a tree gives anything and is no call of `sort` itself, there is no such call in it outside of
`by`, and the tokens that are read are all tokens of the tree.
-/

namespace Tabular

def SpecialForm.name : SpecialForm → String
  | .by => "by"
  | .global => "global"
  | .sort => "sort"
  | .plot => "plot"

theorem SpecialForm.eq_name_of_named? {name : String} {form : SpecialForm} (h : named? name = some form) :
    name = form.name := by
  unfold named? at h
  split at h
  · exact Option.some.inj h ▸ rfl
  · exact Option.some.inj h ▸ rfl
  · exact Option.some.inj h ▸ rfl
  · exact Option.some.inj h ▸ rfl
  · cases h

/-- The frame that an outcome is. -/
def Outcome.frame? {F C : Type} : Outcome F C → Option F
  | .frame f => some f
  | _ => none

theorem Outcome.frame?_eq_some {F C : Type} {o : Outcome F C} {f : F} : o.frame? = some f ↔ o = .frame f := by
  cases o <;> simp [frame?]

namespace Backend

variable {F C : Type} {B : Backend (Except Failure) F C} {scope : Scope} {f w : F}

theorem asColumn_eq_ok {e : Expr} {o : Outcome F C} {c : C} (h : (asColumn e o : Except Failure C) = .ok c) :
    o = .column c := by
  cases o with
  | column d => exact congrArg Outcome.column (Except.ok.inj h)
  | frame g => simp [asColumn, fail] at h
  | plot p => simp [asColumn, fail] at h

/-! ## Calls -/

section Calls

variable {name : String} {args : List Expr} {o : Outcome F C}

theorem eval_operation_ok (hform : SpecialForm.named? name = none) (h : B.eval (.call name args) scope f w = .ok o) :
    ∃ cs c, B.evalColumns args scope f w = .ok cs ∧ o = .column c := by
  unfold eval at h
  rw [hform] at h
  obtain ⟨cs, hcs, h⟩ := bind_eq_ok.1 h
  obtain ⟨c, -, h⟩ := bind_eq_ok.1 h
  exact ⟨cs, c, hcs, (Except.ok.inj h).symm⟩

theorem eval_global_ok (hform : SpecialForm.named? name = some .global)
    (h : B.eval (.call name args) scope f w = .ok o) :
    ∃ inner d c, args = [inner] ∧ B.eval inner .groups w w = .ok (.column d) ∧ o = .column c := by
  unfold eval at h
  rw [hform] at h
  dsimp only at h
  split at h
  · rename_i inner
    obtain ⟨io, hio, h⟩ := bind_eq_ok.1 h
    obtain ⟨d, hd, h⟩ := bind_eq_ok.1 h
    obtain ⟨c, -, h⟩ := bind_eq_ok.1 h
    exact ⟨inner, d, _, rfl, asColumn_eq_ok hd ▸ hio, (Except.ok.inj h).symm⟩
  · simp [fail] at h

theorem eval_sort_ok (hform : SpecialForm.named? name = some .sort) (h : B.eval (.call name args) scope f w = .ok o) :
    ∃ ascending keys g, B.sort f ascending keys = .ok g ∧ o = .frame g := by
  unfold eval at h
  rw [hform] at h
  dsimp only at h
  split at h
  · obtain ⟨ascending, -, h⟩ := bind_eq_ok.1 h
    obtain ⟨keys, -, h⟩ := bind_eq_ok.1 h
    obtain ⟨g, hg, h⟩ := bind_eq_ok.1 h
    exact ⟨ascending, keys, g, hg, (Except.ok.inj h).symm⟩
  · simp [fail] at h

theorem eval_plot_ok (hform : SpecialForm.named? name = some .plot) (h : B.eval (.call name args) scope f w = .ok o) :
    ∃ x y xc yc xs ys, args = [x, y] ∧ B.eval x scope f w = .ok (.column xc) ∧ B.eval y scope f w = .ok (.column yc) ∧
      B.values xc = .ok xs ∧ B.values yc = .ok ys ∧ o = .plot ⟨B.name xc, B.name yc, xs, ys⟩ := by
  unfold eval at h
  rw [hform] at h
  dsimp only at h
  split at h
  · rename_i x y
    obtain ⟨xo, hxo, h⟩ := bind_eq_ok.1 h
    obtain ⟨xc, hxc, h⟩ := bind_eq_ok.1 h
    obtain ⟨yo, hyo, h⟩ := bind_eq_ok.1 h
    obtain ⟨yc, hyc, h⟩ := bind_eq_ok.1 h
    obtain ⟨xs, hxs, h⟩ := bind_eq_ok.1 h
    obtain ⟨ys, hys, h⟩ := bind_eq_ok.1 h
    exact ⟨x, y, xc, yc, xs, ys, rfl, asColumn_eq_ok hxc ▸ hxo, asColumn_eq_ok hyc ▸ hyo, hxs, hys,
      (Except.ok.inj h).symm⟩
  · simp [fail] at h

theorem eval_by_ok (hform : SpecialForm.named? name = some .by) (h : B.eval (.call name args) scope f w = .ok o) :
    ∃ keys reducers g, groupArguments B args f = .ok (keys, reducers) ∧ ¬keys.isEmpty ∧
      B.group f keys reducers = .ok g ∧ o = .frame g := by
  unfold eval at h
  rw [hform] at h
  obtain ⟨⟨keys, reducers⟩, hparts, h⟩ := bind_eq_ok.1 h
  obtain ⟨hkeys, h⟩ := guard_eq_ok.1 h
  obtain ⟨g, hg, h⟩ := bind_eq_ok.1 h
  exact ⟨keys, reducers, g, hparts, hkeys, hg, (Except.ok.inj h).symm⟩

end Calls

/-- What is no column comes from a call of `by`, `sort` or `plot`. -/
theorem eval_cases {e : Expr} {o : Outcome F C} (h : B.eval e scope f w = .ok o) :
    (∃ c, o = .column c) ∨ (∃ args, e = .call "by" args) ∨ (∃ args, e = .call "sort" args) ∨
      ∃ args, e = .call "plot" args := by
  cases e with
  | quoted content =>
    rw [eval] at h
    obtain ⟨c, -, h⟩ := bind_eq_ok.1 h
    exact .inl ⟨c, (Except.ok.inj h).symm⟩
  | leaf token =>
    rw [eval] at h
    obtain ⟨c, -, h⟩ := bind_eq_ok.1 h
    exact .inl ⟨c, (Except.ok.inj h).symm⟩
  | binary op left right =>
    rw [eval] at h
    obtain ⟨_, _, h⟩ := bind_eq_ok.1 h
    obtain ⟨_, _, h⟩ := bind_eq_ok.1 h
    obtain ⟨_, _, h⟩ := bind_eq_ok.1 h
    obtain ⟨_, _, h⟩ := bind_eq_ok.1 h
    obtain ⟨c, -, h⟩ := bind_eq_ok.1 h
    exact .inl ⟨c, (Except.ok.inj h).symm⟩
  | call name args =>
    cases hform : SpecialForm.named? name with
    | none =>
      obtain ⟨-, c, -, hc⟩ := eval_operation_ok hform h
      exact .inl ⟨c, hc⟩
    | some form =>
      obtain rfl := SpecialForm.eq_name_of_named? hform
      cases form with
      | «by» => exact .inr (.inl ⟨args, rfl⟩)
      | global =>
        obtain ⟨-, -, c, -, -, hc⟩ := eval_global_ok hform h
        exact .inl ⟨c, hc⟩
      | sort => exact .inr (.inr (.inl ⟨args, rfl⟩))
      | plot => exact .inr (.inr (.inr ⟨args, rfl⟩))
  | assign name value =>
    rw [eval] at h
    simp [fail] at h

/-- A frame that is given is the sorted frame or the groups. -/
theorem eval_frame_ok {e : Expr} {g : F} (h : B.eval e scope f w = .ok (.frame g)) :
    (∃ ascending keys, B.sort f ascending keys = .ok g) ∨
      ∃ (keys : List String) (formulas : List (String × Expr)), B.group f keys (formulas.map B.reducer) = .ok g := by
  rcases eval_cases h with ⟨c, hc⟩ | ⟨args, rfl⟩ | ⟨args, rfl⟩ | ⟨args, rfl⟩
  · cases hc
  · obtain ⟨keys, reducers, g', hparts, -, hg, ho⟩ := eval_by_ok rfl h
    obtain rfl := Outcome.frame.inj ho
    exact .inr ⟨keys, reductions args, (groupArguments_ok hparts).2 ▸ hg⟩
  · obtain ⟨ascending, keys, g', hg, ho⟩ := eval_sort_ok rfl h
    obtain rfl := Outcome.frame.inj ho
    exact .inl ⟨ascending, keys, hg⟩
  · obtain ⟨_, _, _, _, _, _, -, -, -, -, -, ho⟩ := eval_plot_ok rfl h
    cases ho

/-! ## Tokens that are read -/

/-- A tree that gives a column is no call of `sort`. -/
theorem ne_sort_of_eval {e : Expr} {c : C} (h : B.eval e scope f w = .ok (.column c)) (args : List Expr) :
    e ≠ .call "sort" args := by
  rintro rfl
  obtain ⟨-, -, g, -, hg⟩ := eval_sort_ok rfl h
  cases hg

mutual

/-- Outside of `sort`, what has given something has read all its tokens. -/
theorem reads_eq_tokens {e : Expr} {o : Outcome F C} {scope : Scope} {f w : F} (h : B.eval e scope f w = .ok o)
    (hsort : ∀ args, e ≠ .call "sort" args) : e.reads = e.tokens := by
  cases e with
  | quoted content => rfl
  | leaf token => rfl
  | binary op left right =>
    rw [eval] at h
    obtain ⟨lo, hlo, h⟩ := bind_eq_ok.1 h
    obtain ⟨l, hl, h⟩ := bind_eq_ok.1 h
    obtain ⟨ro, hro, h⟩ := bind_eq_ok.1 h
    obtain ⟨r, hr, -⟩ := bind_eq_ok.1 h
    have hleft := reads_eq_tokens hlo (ne_sort_of_eval (asColumn_eq_ok hl ▸ hlo))
    have hright := reads_eq_tokens hro (ne_sort_of_eval (asColumn_eq_ok hr ▸ hro))
    rw [Expr.reads, Expr.tokens, hleft, hright]
  | call name args =>
    unfold Expr.reads
    cases hform : SpecialForm.named? name with
    | none =>
      obtain ⟨cs, -, hcs, -⟩ := eval_operation_ok hform h
      exact readsOf_eq_tokensOf hcs
    | some form =>
      cases form with
      | «by» => rfl
      | global =>
        obtain ⟨inner, d, -, rfl, hinner, -⟩ := eval_global_ok hform h
        exact congrArg (· ++ []) (reads_eq_tokens hinner (ne_sort_of_eval hinner))
      | sort => exact absurd (congrArg (Expr.call · args) (SpecialForm.eq_name_of_named? hform)) (hsort args)
      | plot =>
        obtain ⟨x, y, xc, yc, -, -, rfl, hx, hy, -, -, -⟩ := eval_plot_ok hform h
        have hxs := reads_eq_tokens hx (ne_sort_of_eval hx)
        have hys := reads_eq_tokens hy (ne_sort_of_eval hy)
        simp only [Expr.readsOf, Expr.tokens, Expr.tokensOf, hxs, hys]
  | assign name value =>
    rw [eval] at h
    simp [fail] at h

theorem readsOf_eq_tokensOf {args : List Expr} {cs : List C} {scope : Scope} {f w : F}
    (h : B.evalColumns args scope f w = .ok cs) : Expr.readsOf args = Expr.tokensOf args := by
  match args with
  | [] => rfl
  | arg :: more =>
    rw [evalColumns] at h
    obtain ⟨o, ho, h⟩ := bind_eq_ok.1 h
    obtain ⟨c, hc, h⟩ := bind_eq_ok.1 h
    obtain ⟨rest, hrest, -⟩ := bind_eq_ok.1 h
    have hfirst := reads_eq_tokens ho (ne_sort_of_eval (asColumn_eq_ok hc ▸ ho))
    rw [Expr.readsOf, Expr.tokensOf, hfirst, readsOf_eq_tokensOf hrest]

end

end Backend

end Tabular
