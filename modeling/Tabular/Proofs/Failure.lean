-- SUMMARY: Failures that only show when a formula is carried out, and computations that fail in no other way.
import Tabular.Proofs.Evaluation.Ending
import Tabular.Proofs.Results

/-!
# Late failures

Reading a formula, resolving its operations and looking up its names fails for the formula and the columns alone.
All other failures are late: they come from the cells, from the way in which an operation is carried out, or from
a database. A computation is late if all its failures are.
-/

namespace Tabular

/-- Whether failures of the kind come after reading, resolving and naming. -/
def FailureKind.isLate : FailureKind → Bool
  | .parse | .dispatch | .schema | .duplicateName => false
  | .execution | .database | .config => true

def Failure.IsLate (failure : Failure) : Prop := failure.kind.isLate = true

/-- All failures of the computation are late. -/
structure Late {α : Type} (x : Except Failure α) : Prop where
  isLate : ∀ failure, x = .error failure → failure.IsLate

namespace Late

variable {α β : Type}

theorem ok {a : α} : Late (.ok a : Except Failure α) := ⟨fun _ h => by simp at h⟩

theorem pure {a : α} : Late (Pure.pure a : Except Failure α) := ok

theorem error {failure : Failure} (h : failure.IsLate) : Late (.error failure : Except Failure α) := by
  refine ⟨fun other hother => ?_⟩
  obtain rfl : failure = other := by simpa using hother
  exact h

theorem throw {failure : Failure} (h : failure.IsLate) :
    Late (MonadExcept.throw failure : Except Failure α) := error h

theorem bind {x : Except Failure α} {f : α → Except Failure β} (hx : Late x) (hf : ∀ a, x = .ok a → Late (f a)) :
    Late (x >>= f) := by
  cases x with
  | error failure => exact error (hx.isLate failure rfl)
  | ok a => exact hf a rfl

theorem map {x : Except Failure α} {f : α → β} (hx : Late x) : Late (f <$> x) := by
  cases x with
  | error failure => exact error (hx.isLate failure rfl)
  | ok a => exact ok

/-- A check before the rest. -/
theorem guard {p : Prop} [Decidable p] {failure : Failure} {x : Except Failure α} (h : failure.IsLate) (hx : Late x) :
    Late (if p then MonadExcept.throw failure >>= fun _ : β => x else x) := by
  split
  · exact error h
  · exact hx

theorem mapM {f : α → Except Failure β} {xs : List α} (h : ∀ x ∈ xs, Late (f x)) : Late (xs.mapM f) := by
  induction xs with
  | nil => exact ok
  | cons x xs ih =>
    rw [List.mapM_cons]
    refine bind (h x List.mem_cons_self) fun y _ => ?_
    exact bind (ih fun z hz => h z (List.mem_cons_of_mem _ hz)) fun ys _ => ok

theorem forM {f : α → Except Failure PUnit} {xs : List α} (h : ∀ x ∈ xs, Late (f x)) : Late (xs.forM f) := by
  induction xs with
  | nil => exact ok
  | cons x xs ih => exact bind (h x List.mem_cons_self) fun _ _ => ih fun y hy => h y (List.mem_cons_of_mem _ hy)

/-- Faults of series are late. -/
theorem series (x : Except SeriesFault α) : Late (liftM x) := by
  cases x with
  | error fault => exact error rfl
  | ok a => exact ok

end Late

/-! ## Results of late computations -/

namespace Ending

variable {α : Type} {x : Except Failure α} {P : α → Prop}

/-- The computation is late, and its result has a property. -/
def late : Ending (Except Failure) where
  Accepts := Failure.IsLate
  Holds x P := Late x ∧ ∀ a, x = .ok a → P a
  pure h := ⟨Late.pure, fun _ ha => Except.ok.inj ha ▸ h⟩
  bind := by
    rintro _ _ x f Q P ⟨hx, hQ⟩ hf
    refine ⟨hx.bind fun a ha => (hf a (hQ a ha)).1, fun b hb => ?_⟩
    obtain ⟨a, ha, hb⟩ := bind_eq_ok.1 hb
    exact (hf a (hQ a ha)).2 b hb
  lift h herror := ⟨⟨herror⟩, h⟩
  mono h hP := ⟨h.1, fun a ha => hP a (h.2 a ha)⟩

theorem late_of (hx : Late x) : late.Holds x fun _ => True := ⟨hx, fun _ _ => trivial⟩

theorem late_throw {failure : Failure} (h : failure.IsLate) : late.Holds (throw failure : Except Failure α) P :=
  ⟨Late.throw h, fun _ ha => by simp [throw, throwThe, MonadExceptOf.throw] at ha⟩

/-- A check before the rest. -/
theorem late_guard {β : Type} {p : Prop} [Decidable p] {failure : Failure} (h : failure.IsLate)
    (hx : ¬p → late.Holds x P) :
    late.Holds (if p then (throw failure : Except Failure β) >>= fun _ => x else x) P := by
  split
  · exact late_throw h
  · rename_i hp
    exact hx hp

end Ending

end Tabular
