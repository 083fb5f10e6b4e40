-- SUMMARY: Computations that may fail: what a bind and a traversal that succeed are made of.
import Mathlib.Data.List.Forall2

/-!
# Results

A step after another succeeds only if both do. A traversal succeeds only if it does at every element, and
then it gives the results in order.
-/

namespace Tabular

variable {ε α β : Type _}

theorem bind_eq_ok {x : Except ε α} {f : α → Except ε β} {b : β} :
    (x >>= f) = .ok b ↔ ∃ a, x = .ok a ∧ f a = .ok b := by
  cases x with
  | error e => simp [bind, Except.bind]
  | ok a => simp [bind, Except.bind]

/-- A check before the rest. -/
theorem guard_eq_ok {p : Prop} [Decidable p] {e : ε} {x : Except ε β} {b : β} :
    (if p then (throw e : Except ε α) >>= fun _ => x else x) = .ok b ↔ ¬p ∧ x = .ok b := by
  split
  · rename_i hp
    simp [hp, throw, throwThe, MonadExceptOf.throw, bind, Except.bind]
  · rename_i hp
    simp [hp]

theorem mapM_eq_ok {f : α → Except ε β} {xs : List α} {ys : List β} :
    xs.mapM f = .ok ys ↔ List.Forall₂ (fun x y => f x = .ok y) xs ys := by
  induction xs generalizing ys with
  | nil =>
    cases ys with
    | nil => simp [pure, Except.pure]
    | cons y ys => simp [pure, Except.pure]
  | cons x xs ih =>
    simp only [List.mapM_cons, bind_eq_ok, ih]
    constructor
    · rintro ⟨y, hy, ys', hys, heq⟩
      obtain rfl : y :: ys' = ys := by simpa [pure, Except.pure] using heq
      exact .cons hy hys
    · rintro (_ | ⟨hy, hys⟩)
      exact ⟨_, hy, _, hys, rfl⟩

/-- What is related to a list comes from its elements. -/
theorem exists_of_mem_forall₂ {R : α → β → Prop} {xs : List α} {ys : List β} (h : List.Forall₂ R xs ys) {y : β}
    (hy : y ∈ ys) : ∃ x ∈ xs, R x y := by
  induction h with
  | nil => simp at hy
  | cons hx _ ih =>
    rcases List.mem_cons.1 hy with rfl | hy
    · exact ⟨_, List.mem_cons_self, hx⟩
    · obtain ⟨x, hmem, hx⟩ := ih hy
      exact ⟨x, List.mem_cons_of_mem _ hmem, hx⟩

/-- Every result of a traversal comes from an element. -/
theorem exists_of_mem_mapM {f : α → Except ε β} {xs : List α} {ys : List β} (h : xs.mapM f = .ok ys) {y : β}
    (hy : y ∈ ys) : ∃ x ∈ xs, f x = .ok y :=
  exists_of_mem_forall₂ (mapM_eq_ok.1 h) hy

/-- A traversal that follows another one at every element. -/
theorem mapM_follows {γ : Type _} {f : α → Except ε β} {g : α → Except ε γ} {R : β → γ → Prop} {xs : List α}
    {ys : List β} (h : ∀ x ∈ xs, ∀ y, f x = .ok y → ∃ z, g x = .ok z ∧ R y z) (hys : xs.mapM f = .ok ys) :
    ∃ zs, xs.mapM g = .ok zs ∧ List.Forall₂ R ys zs := by
  have hall := mapM_eq_ok.1 hys
  clear hys
  induction hall with
  | nil => exact ⟨[], rfl, .nil⟩
  | @cons x y xs ys hy _ ih =>
    obtain ⟨zs, hzs, hrest⟩ := ih fun x hx => h x (List.mem_cons_of_mem _ hx)
    obtain ⟨z, hz, hfirst⟩ := h x List.mem_cons_self y hy
    refine ⟨z :: zs, ?_, .cons hfirst hrest⟩
    rw [List.mapM_cons, hz, hzs]
    rfl

/-- A traversal succeeds if it does at every element. -/
theorem exists_mapM {f : α → Except ε β} {xs : List α} (h : ∀ x ∈ xs, ∃ y, f x = .ok y) :
    ∃ ys, xs.mapM f = .ok ys := by
  induction xs with
  | nil => exact ⟨[], rfl⟩
  | cons x xs ih =>
    obtain ⟨y, hy⟩ := h x List.mem_cons_self
    obtain ⟨ys, hys⟩ := ih fun z hz => h z (List.mem_cons_of_mem _ hz)
    refine ⟨y :: ys, ?_⟩
    rw [List.mapM_cons, hy, hys]
    rfl

/-- A traversal succeeds, or it fails as it does at some element. -/
theorem mapM_cases (f : α → Except ε β) (xs : List α) :
    (∃ ys, xs.mapM f = .ok ys) ∨ ∃ x ∈ xs, ∃ e, f x = .error e ∧ xs.mapM f = .error e := by
  induction xs with
  | nil => exact .inl ⟨[], rfl⟩
  | cons x xs ih =>
    rw [List.mapM_cons]
    cases hx : f x with
    | error e => exact .inr ⟨x, List.mem_cons_self, e, hx, rfl⟩
    | ok y =>
      rcases ih with ⟨ys, hys⟩ | ⟨z, hz, e, hfail, he⟩
      · exact .inl ⟨y :: ys, by rw [hys]; rfl⟩
      · exact .inr ⟨z, List.mem_cons_of_mem _ hz, e, hfail, by rw [he]; rfl⟩

/-- A traversal of steps of which the second never fails. -/
theorem mapM_bind {γ : Type _} {f : α → Except ε β} {g : β → Except ε γ} {xs : List α}
    (h : ∀ x ∈ xs, ∀ y, f x = .ok y → ∃ z, g y = .ok z) :
    xs.mapM (fun x => f x >>= g) = xs.mapM f >>= fun ys => ys.mapM g := by
  induction xs with
  | nil => rfl
  | cons x xs ih =>
    rw [List.mapM_cons, List.mapM_cons, ih fun z hz => h z (List.mem_cons_of_mem _ hz)]
    cases hx : f x with
    | error e => rfl
    | ok y =>
      obtain ⟨z, hz⟩ := h x List.mem_cons_self y hx
      cases xs.mapM f with
      | error e =>
        simp only [bind, Except.bind, hz]
      | ok ys =>
        simp only [bind, Except.bind, pure, Except.pure, List.mapM_cons, hz]

theorem mapM_congr_left {f g : α → Except ε β} {xs : List α} (h : ∀ x ∈ xs, f x = g x) : xs.mapM f = xs.mapM g := by
  induction xs with
  | nil => rfl
  | cons x xs ih =>
    rw [List.mapM_cons, List.mapM_cons, h x List.mem_cons_self, ih fun z hz => h z (List.mem_cons_of_mem _ hz)]

/-- A traversal of rows fails at the first row where a step fails. -/
theorem mapM_range_eq_error {f : Nat → Except ε β} {n : Nat} {e : ε} (h : (List.range n).mapM f = .error e) :
    ∃ row < n, f row = .error e ∧ ∀ earlier < row, ∃ y, f earlier = .ok y := by
  induction n with
  | zero => cases h
  | succ n ih =>
    rw [List.range_succ, List.mapM_append] at h
    cases hrest : (List.range n).mapM f with
    | error e' =>
      rw [hrest] at h
      obtain ⟨row, hrow, hfails, hearlier⟩ := ih (hrest.trans h)
      exact ⟨row, Nat.lt_succ_of_lt hrow, hfails, hearlier⟩
    | ok ys =>
      refine ⟨n, Nat.lt_succ_self n, ?_, fun earlier hlt => ?_⟩
      · cases hlast : f n with
        | error e' => simpa [hrest, hlast, bind, Except.bind] using h
        | ok y => simp [hrest, hlast, bind, Except.bind, pure, Except.pure] at h
      · obtain ⟨y, -, hy⟩ := exists_of_mem_forall₂ (mapM_eq_ok.1 hrest).flip (List.mem_range.2 hlt)
        exact ⟨y, hy⟩

theorem length_of_mapM {f : α → Except ε β} {xs : List α} {ys : List β} (h : xs.mapM f = .ok ys) :
    ys.length = xs.length :=
  (mapM_eq_ok.1 h).length_eq.symm

/-- Lists that agree element by element have equal images. -/
theorem map_eq_map_of_forall₂ {γ : Type _} {f : α → γ} {g : β → γ} {xs : List α} {ys : List β}
    (h : List.Forall₂ (fun x y => f x = g y) xs ys) : xs.map f = ys.map g := by
  rwa [← List.forall₂_eq_eq_eq, List.forall₂_map_left_iff, List.forall₂_map_right_iff]

/-- What the results of a traversal tell is what their elements tell. -/
theorem map_of_mapM {γ : Type _} {f : α → Except ε β} {tell : β → γ} {tell' : α → γ} {xs : List α} {ys : List β}
    (h : xs.mapM f = .ok ys) (hstep : ∀ x ∈ xs, ∀ y, f x = .ok y → tell y = tell' x) :
    ys.map tell = xs.map tell' := by
  refine map_eq_map_of_forall₂ ?_
  exact ((List.forall₂_and_left _ _).2 ⟨hstep, mapM_eq_ok.1 h⟩).flip.imp fun y x ⟨htell, hy⟩ => htell y hy

theorem map_eq_ok {x : Except ε α} {f : α → β} {b : β} : f <$> x = .ok b ↔ ∃ a, x = .ok a ∧ f a = b := by
  cases x with
  | error e => simp [Functor.map, Except.map]
  | ok a => simp [Functor.map, Except.map]

/-- A traversal that may use where its elements come from, but does not. -/
theorem mapM_attach {xs : List α} {f : α → Except ε β} {g : { x // x ∈ xs } → Except ε β}
    (h : ∀ x hx, g ⟨x, hx⟩ = f x) : xs.attach.mapM g = xs.mapM f := by
  rw [List.mapM_subtype h, List.unattach_attach]

/-- Where the steps of a fold have a result, a fold of steps with the same results has the same. -/
theorem foldlM_of_steps {f g : β → α → Except ε β} {xs : List α}
    (hstep : ∀ x ∈ xs, ∀ b b', f b x = .ok b' → g b x = .ok b') {b b' : β} (h : xs.foldlM f b = .ok b') :
    xs.foldlM g b = .ok b' := by
  induction xs generalizing b with
  | nil => exact h
  | cons x xs ih =>
    rw [List.foldlM_cons] at h ⊢
    obtain ⟨c, hc, h⟩ := bind_eq_ok.1 h
    exact bind_eq_ok.2 ⟨c, hstep x List.mem_cons_self b c hc, ih (fun y hy => hstep y (List.mem_cons_of_mem _ hy)) h⟩

/-- What every step of a fold keeps, the fold keeps. -/
theorem foldlM_invariant {P : β → Prop} {f : β → α → Except ε β} {xs : List α}
    (hstep : ∀ b a b', a ∈ xs → P b → f b a = .ok b' → P b') {b b' : β} (hb : P b) (h : xs.foldlM f b = .ok b') :
    P b' := by
  induction xs generalizing b with
  | nil =>
    obtain rfl : b = b' := by simpa [pure, Except.pure] using h
    exact hb
  | cons a xs ih =>
    rw [List.foldlM_cons] at h
    obtain ⟨c, hc, h⟩ := bind_eq_ok.1 h
    exact ih (fun b a b' ha => hstep b a b' (List.mem_cons_of_mem _ ha)) (hstep b a c List.mem_cons_self hb hc) h

/-! ## Results without their errors -/

theorem toOption_eq_some {x : Except ε α} {a : α} : x.toOption = some a ↔ x = .ok a := by
  cases x <;> simp [Except.toOption]

theorem toOption_eq_none {x : Except ε α} : x.toOption = none ↔ ∀ a, x ≠ .ok a := by
  cases x <;> simp [Except.toOption]

theorem toOption_map (f : α → β) (x : Except ε α) : (x >>= fun a => pure (f a)).toOption = x.toOption.map f := by
  cases x <;> rfl

/-- Steps that give the same after results that belong together. -/
theorem toOption_bind_partner {γ : Type _} {x : Except ε α} {y : Except ε β} {f : α → Except ε γ} {g : β → Except ε γ}
    (partner : α → β) (h : y.toOption = x.toOption.map partner)
    (hstep : ∀ a, x = .ok a → (g (partner a)).toOption = (f a).toOption) :
    (y >>= g).toOption = (x >>= f).toOption := by
  cases x with
  | error e =>
    cases y with
    | error e => rfl
    | ok b => simp [Except.toOption] at h
  | ok a =>
    obtain rfl : y = .ok (partner a) := toOption_eq_some.1 h
    exact hstep a rfl

theorem toOption_bind_congr {x y : Except ε α} {f g : α → Except ε β} (h : y.toOption = x.toOption)
    (hstep : ∀ a, x = .ok a → (g a).toOption = (f a).toOption) : (y >>= g).toOption = (x >>= f).toOption :=
  toOption_bind_partner id (by rw [Option.map_id_apply, h]) hstep

theorem toOption_mapM_congr {f g : α → Except ε β} {xs : List α}
    (h : ∀ x ∈ xs, (g x).toOption = (f x).toOption) : (xs.mapM g).toOption = (xs.mapM f).toOption := by
  induction xs with
  | nil => rfl
  | cons x xs ih =>
    have hx := h x List.mem_cons_self
    have hxs := ih fun z hz => h z (List.mem_cons_of_mem _ hz)
    rw [List.mapM_cons, List.mapM_cons]
    refine toOption_bind_congr hx fun y _ => ?_
    exact toOption_bind_congr hxs fun ys _ => rfl

/-! ## Results that are right, and failures that are legitimate -/

/-- A result has the property, and a failure is legitimate. -/
def EndsWell {ε α : Type} (legitimate : ε → Prop) (P : α → Prop) : Except ε α → Prop
  | .ok a => P a
  | .error e => legitimate e

namespace EndsWell

variable {ε ε' α β : Type} {legitimate : ε → Prop} {legitimate' : ε' → Prop} {P : α → Prop} {Q : β → Prop}

theorem ok {a : α} (h : P a) : EndsWell legitimate P (.ok a) := h

theorem error {e : ε} (h : legitimate e) : EndsWell legitimate P (.error e) := h

theorem bind {x : Except ε α} {f : α → Except ε β} (hx : EndsWell legitimate P x)
    (hf : ∀ a, P a → EndsWell legitimate Q (f a)) : EndsWell legitimate Q (x >>= f) := by
  cases x with
  | error e => exact hx
  | ok a => exact hf a hx

/-- A step after another one that gave this result. -/
theorem bind_ok {x : Except ε α} {f : α → Except ε β} (hx : EndsWell legitimate P x)
    (hf : ∀ a, x = .ok a → EndsWell legitimate Q (f a)) : EndsWell legitimate Q (x >>= f) := by
  cases x with
  | error e => exact hx
  | ok a => exact hf a rfl

theorem mono {x : Except ε α} {P' : α → Prop} (hx : EndsWell legitimate P x) (h : ∀ a, P a → P' a) :
    EndsWell legitimate P' x := by
  cases x with
  | error e => exact hx
  | ok a => exact h a hx

theorem weaken {x : Except ε α} {legitimate' : ε → Prop} (hx : EndsWell legitimate P x)
    (h : ∀ e, legitimate e → legitimate' e) : EndsWell legitimate' P x := by
  cases x with
  | error e => exact h e hx
  | ok a => exact hx

theorem mapError {x : Except ε α} {f : ε → ε'} (hx : EndsWell legitimate P x)
    (h : ∀ e, legitimate e → legitimate' (f e)) : EndsWell legitimate' P (x.mapError f) := by
  cases x with
  | error e => exact h e hx
  | ok a => exact hx

/-- What has a result ends well whatever is legitimate. -/
theorem of_ok {x : Except ε α} {a : α} (h : x = .ok a) (ha : P a) : EndsWell legitimate P x := h ▸ ha

theorem mapM {R : α → β → Prop} {f : α → Except ε β} {xs : List α}
    (h : ∀ x ∈ xs, EndsWell legitimate (R x) (f x)) :
    EndsWell legitimate (List.Forall₂ R xs) (xs.mapM f) := by
  induction xs with
  | nil => exact .nil
  | cons x xs ih =>
    obtain ⟨hx, hxs⟩ := List.forall_mem_cons.1 h
    rw [List.mapM_cons]
    exact hx.bind fun y hy => (ih hxs).bind fun ys hys => .cons hy hys

end EndsWell

end Tabular
