-- SUMMARY: How computations go on: properties of their results in the states that they leave.
import Tabular.Evaluation.Backend

/-!
# Progress

An `Ending` judges computations alike in every state. Where properties depend on a state, such as what a database has
given so far, computations are judged from one state to the next: a `Progress` tells whether, from a state on, a
computation can only reach later states, and only with results that have a property there. Failures are accepted.
-/

namespace Tabular

structure Progress (m : Type → Type) [Monad m] [MonadLiftT (Except Failure) m] where
  State : Type
  Later : State → State → Prop
  refl (s : State) : Later s s
  trans {s t u : State} : Later s t → Later t u → Later s u
  /-- From the state on, every result of the computation has the property in the state that is reached with it. -/
  Holds : {α : Type} → State → m α → (State → α → Prop) → Prop
  pure {α : Type} {s : State} {a : α} {P : State → α → Prop} : P s a → Holds s (pure a) P
  bind {α β : Type} {s : State} {x : m α} {f : α → m β} {Q : State → α → Prop} {P : State → β → Prop} :
    Holds s x Q → (∀ t a, Later s t → Q t a → Holds t (f a) P) → Holds s (x >>= f) P
  lift {α : Type} {s : State} {x : Except Failure α} {P : State → α → Prop} :
    (∀ a, x = .ok a → P s a) → Holds s (liftM x) P
  mono {α : Type} {s : State} {x : m α} {Q P : State → α → Prop} :
    Holds s x Q → (∀ t a, Q t a → P t a) → Holds s x P

namespace Progress

variable {m : Type → Type} [Monad m] [MonadLiftT (Except Failure) m] (J : Progress m) {s : J.State}

/-- A result that is at hand leaves the state as it is. -/
theorem lift_bind {α β : Type} {x : Except Failure α} {f : α → m β} {P : J.State → β → Prop}
    (h : ∀ a, x = .ok a → J.Holds s (f a) P) : J.Holds s (liftM x >>= f) P := by
  have hlift : J.Holds s (liftM x) fun t a => t = s ∧ x = .ok a := J.lift fun a ha => ⟨rfl, ha⟩
  refine J.bind hlift ?_
  rintro t a - ⟨rfl, ha⟩
  exact h a ha

/-- The same continuation after both branches. -/
theorem ite_bind {α β : Type} {p : Prop} [Decidable p] {x y : m α} {f : α → m β} {P : J.State → β → Prop}
    (h : J.Holds s ((if p then x else y) >>= f) P) : J.Holds s (if p then x >>= f else y >>= f) P := by
  split
  · rename_i hp
    rwa [if_pos hp] at h
  · rename_i hp
    rwa [if_neg hp] at h

/-- A traversal gives results with a property that is kept, if every element gives one. -/
theorem mapM [LawfulMonad m] {α β : Type} {f : α → m β} {R : J.State → β → Prop} {xs : List α}
    (hkept : ∀ {t u b}, J.Later t u → R t b → R u b) (h : ∀ x ∈ xs, ∀ t, J.Later s t → J.Holds t (f x) R) :
    J.Holds s (xs.mapM f) fun t ys => ∀ y ∈ ys, R t y := by
  induction xs generalizing s with
  | nil => exact J.pure (by simp)
  | cons x xs ih =>
    rw [List.forall_mem_cons] at h
    rw [List.mapM_cons]
    refine J.bind (h.1 s (J.refl s)) fun t y hst hy => ?_
    have hrest := ih fun x hx u htu => h.2 x hx u (J.trans hst htu)
    refine J.bind hrest fun u ys htu hys => J.pure ?_
    rw [List.forall_mem_cons]
    exact ⟨hkept htu hy, hys⟩

/-- Checks one after another. -/
theorem forM {α : Type} {f : α → m PUnit} {xs : List α}
    (h : ∀ x ∈ xs, ∀ t, J.Holds t (f x) fun _ _ => True) : J.Holds s (xs.forM f) fun _ _ => True := by
  induction xs generalizing s with
  | nil => exact J.pure trivial
  | cons x xs ih =>
    rw [List.forall_mem_cons] at h
    exact J.bind (h.1 s) fun _ _ _ _ => ih h.2

/-- What every step of a fold keeps, the fold keeps. -/
theorem foldlM {α β : Type} {P : J.State → β → Prop} {f : β → α → m β} {xs : List α} {b : β}
    (hstep : ∀ x ∈ xs, ∀ t b, J.Later s t → P t b → J.Holds t (f b x) P) (hb : P s b) :
    J.Holds s (xs.foldlM f b) P := by
  induction xs generalizing s b with
  | nil => exact J.pure hb
  | cons x xs ih =>
    rw [List.forall_mem_cons] at hstep
    rw [List.foldlM_cons]
    refine J.bind (hstep.1 s b (J.refl s) hb) fun t c hst hc => ?_
    exact ih (fun y hy u d htu hd => hstep.2 y hy u d (J.trans hst htu) hd) hc

end Progress

end Tabular
