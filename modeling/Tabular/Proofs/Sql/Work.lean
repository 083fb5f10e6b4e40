-- SUMMARY: How work in a session may end, and requests to a database.
import Tabular.Proofs.Evaluation.Ending
import Tabular.Proofs.Failure
import Tabular.Sql.Database

/-!
# Work that ends late or well

Work in a session is judged from every session alike. Two endings are used: one that accepts all failures, and one
that accepts late failures only.
-/

namespace Tabular.Sql.Work

variable {δ α β : Type}

/-- Work after work, in the state that the first left. -/
theorem run_bind {σ : Type} (x : ExceptT Failure (StateM σ) α) (f : α → ExceptT Failure (StateM σ) β) (state : σ) :
    (x >>= f) state = match x state with
      | (.ok a, rest) => f a rest
      | (.error failure, rest) => (.error failure, rest) := by
  simp only [Bind.bind, ExceptT.bind, ExceptT.mk, StateT.bind, ExceptT.bindCont]
  rcases x state with ⟨result, rest⟩
  cases result <;> rfl

/-- Work after work succeeds if both do. -/
theorem bind_eq_ok {x : Work δ α} {f : α → Work δ β} {session : Session δ} {b : β} :
    ((x >>= f) session).1 = .ok b ↔ ∃ a rest, x session = (.ok a, rest) ∧ (f a rest).1 = .ok b := by
  rw [run_bind]
  constructor
  · intro h
    rcases hx : x session with ⟨_ | a, rest⟩
    · rw [hx] at h
      cases h
    · rw [hx] at h
      exact ⟨a, rest, rfl, h⟩
  · rintro ⟨a, rest, hx, h⟩
    rw [hx]
    exact h

/-- Results have a property and failures are accepted, whatever the session. -/
def ending (Accepts : Failure → Prop) : Ending (Work δ) where
  Accepts := Accepts
  Holds x P := ∀ session, match (x session).1 with
    | .ok a => P a
    | .error failure => Accepts failure
  pure h _ := h
  bind := by
    intro _ _ x f Q P hx hf session
    rw [run_bind]
    have hleft := hx session
    rcases hrun : x session with ⟨result, rest⟩
    rw [hrun] at hleft
    cases result with
    | ok a => exact hf a hleft rest
    | error failure => exact hleft
  lift := by
    intro _ x P hok herror session
    cases x with
    | ok a => exact hok a rfl
    | error failure => exact herror failure rfl
  mono := by
    intro _ x Q P hx hP session
    have := hx session
    split
    · rename_i a ha
      rw [ha] at this
      exact hP a this
    · rename_i failure hfailure
      rwa [hfailure] at this

/-- All results have a property. -/
abbrev partialResult : Ending (Work δ) := ending fun _ => True

/-- All results have a property, and all failures are late. -/
abbrev late : Ending (Work δ) := ending Failure.IsLate

theorem partialResult_any (x : Work δ α) : partialResult.Holds x fun _ => True := by
  intro session
  split <;> trivial

theorem partialResult_iff {x : Work δ α} {P : α → Prop} :
    partialResult.Holds x P ↔ ∀ session a, (x session).1 = .ok a → P a := by
  constructor
  · intro h session a ha
    have := h session
    rwa [ha] at this
  · intro h session
    split
    · rename_i a ha
      exact h session a ha
    · trivial

theorem partialResult_lift {x : Except Failure α} {P : α → Prop} (h : ∀ a, x = .ok a → P a) :
    partialResult.Holds (liftM x : Work δ α) P :=
  partialResult.lift h fun _ _ => trivial

/-- Giving up has no result. -/
theorem partialResult_throw {failure : Failure} {P : α → Prop} :
    partialResult.Holds (throw failure : Work δ α) P :=
  fun _ => trivial

/-- A check before the rest. -/
theorem partialResult_guard {p : Prop} [Decidable p] {failure : Failure} {x : Work δ α} {P : α → Prop}
    (h : partialResult.Holds x P) :
    partialResult.Holds (if p then (throw failure : Work δ β) >>= fun _ => x else x) P := by
  split
  · exact partialResult.bind (Q := fun _ => False) partialResult_throw fun _ hfalse => hfalse.elim
  · exact h

theorem late_throw {failure : Failure} {P : α → Prop} (h : failure.IsLate) :
    late.Holds (throw failure : Work δ α) P :=
  fun _ => h

theorem late_lift {x : Except Failure α} {P : α → Prop} (hx : Late x) (h : ∀ a, x = .ok a → P a) :
    late.Holds (liftM x : Work δ α) P :=
  late.lift h hx.isLate

theorem late_lift_any {x : Except Failure α} (hx : Late x) : late.Holds (liftM x : Work δ α) fun _ => True :=
  late_lift hx fun _ _ => trivial

theorem late_forM {xs : List α} {f : α → Work δ PUnit} (h : ∀ x ∈ xs, late.Holds (f x) fun _ => True) :
    late.Holds (xs.forM f) fun _ => True := by
  induction xs with
  | nil => exact late.pure trivial
  | cons x xs ih =>
    exact late.bind (h x List.mem_cons_self) fun _ _ => ih fun y hy => h y (List.mem_cons_of_mem _ hy)

theorem late_freshMark : late.Holds (freshMark : Work δ Nat) fun _ => True := fun _ => trivial

end Tabular.Sql.Work

namespace Tabular.Sql

/-- A database gives series with the storage of the types that it was asked for, and does not fail
for what a formula says. -/
structure Database.Faithful (δ : Type) [Database δ] : Prop where
  types (query : Query) (types : List DataType) (database : δ) (cells : List Series) :
    (Database.fetch query types database).1 = .ok cells → cells.map Series.dataType <+: types.map DataType.storage
  failures (query : Query) (types : List DataType) (database : δ) (failure : Failure) :
    (Database.fetch query types database).1 = .error failure → failure.IsLate

theorem Database.Faithful.holds_fetch {δ : Type} [Database δ] (h : Database.Faithful δ) (query : Query)
    (types : List DataType) :
    Work.late.Holds (Work.ask (Database.fetch query types) : Work δ (List Series))
      fun cells => cells.map Series.dataType <+: types.map DataType.storage := by
  intro session
  have htypes := h.types query types session.database
  have hfailures := h.failures query types session.database
  unfold Work.ask
  rcases hrun : Database.fetch query types session.database with ⟨answer, database⟩
  rw [hrun] at htypes hfailures
  cases answer with
  | ok cells => exact htypes cells rfl
  | error failure => exact hfailures failure rfl

end Tabular.Sql
