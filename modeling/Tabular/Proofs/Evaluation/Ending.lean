-- SUMMARY: How computations may end: results of which a property holds, and failures that are accepted.
import Mathlib.Data.List.Forall2
import Tabular.Evaluation.Backend

/-!
# Endings

What is proved of an evaluation holds for every backend that keeps to a few rules, so it is said without looking
into the monad of the backend: an `Ending` tells whether a computation can only end well, that is, with a result
of which a property holds or with a failure that is accepted.
-/

namespace Tabular

structure Ending (m : Type → Type) [Monad m] [MonadLiftT (Except Failure) m] where
  /-- The failures that are accepted. -/
  Accepts : Failure → Prop
  /-- Every result of the computation has the property, and every failure is accepted. -/
  Holds : {α : Type} → m α → (α → Prop) → Prop
  pure {α : Type} {a : α} {P : α → Prop} : P a → Holds (pure a) P
  bind {α β : Type} {x : m α} {f : α → m β} {Q : α → Prop} {P : β → Prop} :
    Holds x Q → (∀ a, Q a → Holds (f a) P) → Holds (x >>= f) P
  lift {α : Type} {x : Except Failure α} {P : α → Prop} :
    (∀ a, x = .ok a → P a) → (∀ failure, x = .error failure → Accepts failure) → Holds (liftM x) P
  mono {α : Type} {x : m α} {Q P : α → Prop} : Holds x Q → (∀ a, Q a → P a) → Holds x P

namespace Ending

/-- Partial correctness: whatever fails is accepted. -/
def partialResult : Ending (Except Failure) where
  Accepts _ := True
  Holds x P := ∀ a, x = .ok a → P a
  pure := by
    intro _ a P h b hb
    obtain rfl : a = b := by simpa [Pure.pure, Except.pure] using hb
    exact h
  bind := by
    intro _ _ x f Q P hx hf b hb
    cases x with
    | error failure => simp [Bind.bind, Except.bind] at hb
    | ok a => exact hf a (hx a rfl) b hb
  lift := fun h _ => h
  mono := fun hx hP a ha => hP a (hx a ha)

/-- Total correctness: there is a result, and nothing else is accepted. -/
def totalResult : Ending (Except Failure) where
  Accepts _ := False
  Holds x P := ∃ a, x = .ok a ∧ P a
  pure h := ⟨_, rfl, h⟩
  bind := by
    rintro _ _ x f Q P ⟨a, rfl, ha⟩ hf
    exact hf a ha
  lift := by
    intro _ x P hok herror
    cases x with
    | ok a => exact ⟨a, rfl, hok a rfl⟩
    | error failure => exact (herror failure rfl).elim
  mono := by
    rintro _ x Q P ⟨a, hx, ha⟩ hP
    exact ⟨a, hx, hP a ha⟩

/-- Whatever is given has the property, and some failures are accepted. -/
def accepting (Accepts : Failure → Prop) : Ending (Except Failure) where
  Accepts := Accepts
  Holds x P :=
    match x with
    | .ok a => P a
    | .error failure => Accepts failure
  pure h := h
  bind := by
    intro _ _ x f Q P hx hf
    cases x with
    | error failure => exact hx
    | ok a => exact hf a hx
  lift := by
    intro _ x P hok herror
    cases x with
    | ok a => exact hok a rfl
    | error failure => exact herror failure rfl
  mono := by
    intro _ x Q P hx hP
    cases x with
    | ok a => exact hP a hx
    | error failure => exact hx

variable {m : Type → Type} [Monad m] [MonadLiftT (Except Failure) m] (E : Ending m)

/-- A result that is at hand. -/
theorem lift_ok {α : Type} {x : Except Failure α} {a : α} (h : x = .ok a) : E.Holds (liftM x) (· = a) := by
  refine E.lift (fun b hb => ?_) fun failure hfailure => ?_
  · exact (Except.ok.inj (h.symm.trans hb)).symm
  · simp [h] at hfailure

/-- A failure that is accepted. -/
theorem refuse {α : Type} {failure : Failure} {P : α → Prop} (h : E.Accepts failure) :
    E.Holds (liftM (Except.error failure : Except Failure α)) P :=
  E.lift (fun _ ha => by cases ha) fun _ hother => Except.error.inj hother ▸ h

/-- The same continuation after both branches. -/
theorem ite_bind {α β : Type} {p : Prop} [Decidable p] {x y : m α} {f : α → m β} {P : β → Prop}
    (h : E.Holds ((if p then x else y) >>= f) P) : E.Holds (if p then x >>= f else y >>= f) P := by
  split
  · rename_i hp
    rwa [if_pos hp] at h
  · rename_i hp
    rwa [if_neg hp] at h

/-- A traversal ends well if it does at every element. -/
theorem mapM [LawfulMonad m] {α β : Type} {f : α → m β} {R : α → β → Prop} {xs : List α}
    (h : ∀ x ∈ xs, E.Holds (f x) (R x)) :
    E.Holds (xs.mapM f) fun ys => List.Forall₂ R xs ys := by
  induction xs with
  | nil => exact E.pure .nil
  | cons x xs ih =>
    rw [List.mapM_cons]
    refine E.bind (h x List.mem_cons_self) fun y hy => ?_
    exact E.bind (ih fun z hz => h z (List.mem_cons_of_mem _ hz)) fun ys hys => E.pure (.cons hy hys)

/-- A fold that collects what its elements give, whatever it has collected before. -/
theorem foldlM_collect [LawfulMonad m] {α β : Type} {f : List β → α → m β} {R : α → β → Prop} {xs : List α}
    (h : ∀ x ∈ xs, ∀ found, E.Holds (f found x) (R x)) (found : List β) :
    E.Holds (xs.foldlM (fun found x => do return found ++ [← f found x]) found) fun all =>
      ∃ more, all = found ++ more ∧ List.Forall₂ R xs more := by
  induction xs generalizing found with
  | nil => exact E.pure ⟨[], (List.append_nil _).symm, .nil⟩
  | cons x xs ih =>
    rw [List.foldlM_cons, bind_assoc]
    refine E.bind (h x List.mem_cons_self found) fun y hy => ?_
    rw [pure_bind]
    refine E.mono (ih (fun z hz => h z (List.mem_cons_of_mem _ hz)) (found ++ [y])) fun all hall => ?_
    obtain ⟨more, rfl, hmore⟩ := hall
    exact ⟨y :: more, List.append_assoc _ _ _, .cons hy hmore⟩

/-- What the step of an element promises holds after the fold. -/
theorem foldlM_all {α β : Type} {P : α → Prop} {f : β → α → m β} {xs : List α} {b : β}
    (hstep : ∀ x ∈ xs, ∀ b, E.Holds (f b x) fun _ => P x) : E.Holds (xs.foldlM f b) fun _ => ∀ x ∈ xs, P x := by
  induction xs generalizing b with
  | nil => exact E.pure (by simp)
  | cons x xs ih =>
    rw [List.foldlM_cons]
    refine E.bind (hstep x List.mem_cons_self b) fun c hx => ?_
    refine E.mono (ih fun y hy => hstep y (List.mem_cons_of_mem _ hy)) fun _ hxs => ?_
    exact List.forall_mem_cons.2 ⟨hx, hxs⟩

/-- What every step of a fold keeps, the fold keeps. -/
theorem foldlM {α β : Type} {P : β → Prop} {f : β → α → m β} {xs : List α} {b : β}
    (hstep : ∀ x ∈ xs, ∀ b, P b → E.Holds (f b x) P) (hb : P b) : E.Holds (xs.foldlM f b) P := by
  induction xs generalizing b with
  | nil => exact E.pure hb
  | cons x xs ih =>
    rw [List.foldlM_cons]
    refine E.bind (hstep x List.mem_cons_self b hb) fun c hc => ?_
    exact ih (fun y hy => hstep y (List.mem_cons_of_mem _ hy)) hc

end Ending

end Tabular
