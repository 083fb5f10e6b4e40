-- SUMMARY: What a database has given so far, and work that is judged by it.
import Tabular.Proofs.Evaluation.Progress
import Tabular.Proofs.Sql.Work

/-!
# Records of what was fetched

A record tells of every state of a database which series it has given so far. Nothing is forgotten, and what a fetch
gives is in the record of the state it leaves. Work in a session is judged by the records before and after it. Every
database can be given a record by keeping its answers beside it.
-/

namespace Tabular.Sql

/-- The series that a database has given up to a state. -/
structure Record (δ : Type) [Database δ] where
  Given : δ → Series → Prop
  types {database : δ} {series : Series} (query : Query) :
    Given database series → Given (Database.types query database).2 series
  fetch {database : δ} {series : Series} (query : Query) (types : List DataType) :
    Given database series → Given (Database.fetch query types database).2 series
  fetched {database : δ} {cells : List Series} (query : Query) (types : List DataType) :
    (Database.fetch query types database).1 = .ok cells →
      ∀ series ∈ cells, Given (Database.fetch query types database).2 series

namespace Record

variable {δ α : Type} [Database δ]

/-- Work forgets nothing, and its result has a property in the state of the database that it leaves. -/
def progress (R : Record δ) : Progress (Work δ) where
  State := δ
  Later before after := ∀ series, R.Given before series → R.Given after series
  refl _ _ h := h
  trans hfirst hthen series h := hthen series (hfirst series h)
  Holds database x P := ∀ sources,
    (∀ series, R.Given database series → R.Given (x ⟨database, sources⟩).2.database series) ∧
      ∀ a, (x ⟨database, sources⟩).1 = .ok a → P (x ⟨database, sources⟩).2.database a
  pure := by
    intro _ database a P h sources
    refine ⟨fun _ hgiven => hgiven, fun b hb => ?_⟩
    obtain rfl : a = b := Except.ok.inj hb
    exact h
  bind := by
    intro _ _ database x f Q P hx hf sources
    obtain ⟨hkept, hresult⟩ := hx sources
    rw [Work.run_bind]
    rcases hrun : x ⟨database, sources⟩ with ⟨result, rest⟩
    rw [hrun] at hkept hresult
    cases result with
    | error failure => exact ⟨hkept, fun b hb => by simp at hb⟩
    | ok a =>
      obtain ⟨hkept', hresult'⟩ := hf rest.database a hkept (hresult a rfl) rest.sources
      exact ⟨fun series hgiven => hkept' series (hkept series hgiven), hresult'⟩
  lift h _ := ⟨fun _ hgiven => hgiven, h⟩
  mono hx hP sources := ⟨(hx sources).1, fun a ha => hP _ a ((hx sources).2 a ha)⟩

variable (R : Record δ) {database : δ} {P : δ → α → Prop}

/-- A run in a session. -/
theorem of_holds {x : Work δ α} {session after : Session δ} {a : α} (h : R.progress.Holds session.database x P)
    (hrun : x session = (.ok a, after)) : P after.database a := by
  have hresult := (h session.sources).2 a
  change (x session).1 = .ok a → P (x session).2.database a at hresult
  rw [hrun] at hresult
  exact hresult rfl

theorem holds_throw {failure : Failure} : R.progress.Holds database (throw failure : Work δ α) P :=
  fun _ => ⟨fun _ hgiven => hgiven, fun a ha => by
    have hfailed : Except.error failure = Except.ok a := ha
    simp at hfailed⟩

/-- A check before the rest. -/
theorem holds_guard {β : Type} {p : Prop} [Decidable p] {failure : Failure} {x : Work δ α}
    (h : R.progress.Holds database x P) :
    R.progress.Holds database (if p then (throw failure : Work δ β) >>= fun _ => x else x) P := by
  split
  · exact R.progress.bind (Q := fun _ _ => False) R.holds_throw fun _ _ _ hfalse => hfalse.elim
  · exact h

theorem holds_freshMark : R.progress.Holds database (Work.freshMark : Work δ Nat) fun _ _ => True :=
  fun _ => ⟨fun _ hgiven => hgiven, fun _ _ => trivial⟩

theorem holds_types (query : Query) :
    R.progress.Holds database (Work.ask (Database.types query)) fun _ _ => True :=
  fun _ => ⟨fun _ hgiven => R.types query hgiven, fun _ _ => trivial⟩

/-- What a fetch gives is in the record from then on. -/
theorem holds_fetch (query : Query) (types : List DataType) :
    R.progress.Holds database (Work.ask (Database.fetch query types)) fun after cells =>
      ∀ series ∈ cells, R.Given after series :=
  fun _ => ⟨fun _ hgiven => R.fetch query types hgiven, fun _ hcells => R.fetched query types hcells⟩

end Record

/-! ## Answers kept -/

/-- A database and the series that it has given. -/
structure Logged (δ : Type) where
  database : δ
  given : List Series

namespace Logged

variable {δ α : Type}

/-- Put a request to the database, and keep the series of its answer. -/
def ask (request : ExceptT Failure (StateM δ) α) (found : α → List Series) :
    ExceptT Failure (StateM (Logged δ)) α :=
  fun logged =>
    let (answer, database) := request logged.database
    let given := match answer with
      | .ok a => found a
      | .error _ => []
    (answer, ⟨database, given ++ logged.given⟩)

variable (request : ExceptT Failure (StateM δ) α) (found : α → List Series) {logged : Logged δ}

theorem kept_ask {series : Series} (h : series ∈ logged.given) : series ∈ (ask request found logged).2.given :=
  List.mem_append_right _ h

theorem given_ask {a : α} (h : (ask request found logged).1 = .ok a) :
    ∀ series ∈ found a, series ∈ (ask request found logged).2.given := by
  have hanswer : (request logged.database).1 = .ok a := h
  intro series hseries
  refine List.mem_append_left _ ?_
  rw [hanswer]
  exact hseries

variable [Database δ]

instance : Database (Logged δ) where
  types query := ask (Database.types query) fun _ => []
  rowCount query := ask (Database.rowCount query) fun _ => []
  fetch query types := ask (Database.fetch query types) id
  hasTable name := ask (Database.hasTable name) fun _ => []
  create name fields overwrite := ask (Database.create name fields overwrite) fun _ => []
  dropTable name := ask (Database.dropTable name) fun _ => []
  insert name query names := ask (Database.insert name query names) fun _ => []

/-- The record of the answers kept. -/
def record : Record (Logged δ) where
  Given logged series := series ∈ logged.given
  types _ h := kept_ask _ _ h
  fetch _ _ h := kept_ask _ _ h
  fetched _ _ hcells := given_ask _ _ hcells

end Logged

end Tabular.Sql
