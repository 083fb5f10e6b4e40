-- SUMMARY: A journal of what is inserted into a database, kept beside it without changing what it does.
import Tabular.Proofs.Sql.Work

/-!
# Journals

A journaled database passes every request on and writes down the insertions, in order. Work that succeeds in a session
over a database succeeds in the same way over the journaled one, and the journal then holds what it inserted. So what
is proved of the insertions is about the work and not about the database.
-/

namespace Tabular.Sql

/-- A request to add the rows of a query to the named columns of a table. -/
structure Insertion where
  table : String
  query : Query
  names : List String

/-- A database and the insertions that it was asked for. -/
structure Journaled (δ : Type) where
  database : δ
  journal : List Insertion

variable {δ α β : Type}

namespace Journaled

/-- Put a request to the database, and write down the insertions it consists of. -/
def ask (request : ExceptT Failure (StateM δ) α) (insertions : List Insertion) :
    ExceptT Failure (StateM (Journaled δ)) α :=
  fun journaled =>
    let (answer, database) := request journaled.database
    (answer, ⟨database, journaled.journal ++ insertions⟩)

instance [Database δ] : Database (Journaled δ) where
  types query := ask (Database.types query) []
  rowCount query := ask (Database.rowCount query) []
  fetch query types := ask (Database.fetch query types) []
  hasTable name := ask (Database.hasTable name) []
  create name fields overwrite := ask (Database.create name fields overwrite) []
  dropTable name := ask (Database.dropTable name) []
  insert name query names := ask (Database.insert name query names) [⟨name, query, names⟩]

end Journaled

/-- The session over the journaled database. -/
def Session.journaled (session : Session δ) (journal : List Insertion) : Session (Journaled δ) :=
  ⟨⟨session.database, journal⟩, session.sources⟩

namespace Work

/-- Where `plain` succeeds, `x` gives the same over the journaled database, and its insertions have a property. -/
def Inserts (x : Work (Journaled δ) α) (plain : Work δ α) (P : List Insertion → α → Prop) : Prop :=
  ∀ (session after : Session δ) (a : α) (journal : List Insertion), plain session = (.ok a, after) →
    ∃ insertions, x (session.journaled journal) = (.ok a, after.journaled (journal ++ insertions)) ∧ P insertions a

namespace Inserts

variable {x : Work (Journaled δ) α} {plain : Work δ α} {P Q : List Insertion → α → Prop}

theorem mono (h : Inserts x plain P) (hP : ∀ insertions a, P insertions a → Q insertions a) : Inserts x plain Q := by
  intro session after a journal hrun
  obtain ⟨insertions, hx, hinsertions⟩ := h session after a journal hrun
  exact ⟨insertions, hx, hP _ _ hinsertions⟩

theorem pure {a : α} (h : P [] a) : Inserts (Pure.pure a : Work (Journaled δ) α) (Pure.pure a) P := by
  intro session after b journal hrun
  obtain ⟨hb, rfl⟩ := Prod.mk.inj hrun
  obtain rfl : a = b := Except.ok.inj hb
  exact ⟨[], by rw [List.append_nil]; rfl, h⟩

/-- What is inserted by work after work: first the one, then the other. -/
theorem bind {f : α → Work (Journaled δ) β} {g : α → Work δ β} {R : List Insertion → β → Prop}
    (hx : Inserts x plain P)
    (hf : ∀ first a, P first a → Inserts (f a) (g a) fun second b => R (first ++ second) b) :
    Inserts (x >>= f) (plain >>= g) R := by
  intro session after b journal hrun
  rw [run_bind] at hrun
  rcases hplain : plain session with ⟨result, middle⟩
  rw [hplain] at hrun
  cases result with
  | error failure => exact absurd (Prod.mk.inj hrun).1 (by simp)
  | ok a =>
    obtain ⟨first, hfirst, hP⟩ := hx session middle a journal hplain
    obtain ⟨second, hsecond, hR⟩ := hf first a hP middle after b (journal ++ first) hrun
    refine ⟨first ++ second, ?_, hR⟩
    rw [run_bind, hfirst]
    dsimp only
    rw [hsecond, List.append_assoc]

/-- A computation without the database inserts nothing. -/
theorem lift {e : Except Failure α} (h : ∀ a, e = .ok a → P [] a) :
    Inserts (liftM e : Work (Journaled δ) α) (liftM e) P := by
  cases e with
  | error failure =>
    intro session after a journal hrun
    exact absurd (Prod.mk.inj hrun).1 (by simp)
  | ok a => exact pure (h a rfl)

/-- A request that is passed on. -/
theorem ask {request : ExceptT Failure (StateM δ) α} {insertions : List Insertion} (h : ∀ a, P insertions a) :
    Inserts (Work.ask (Journaled.ask request insertions)) (Work.ask request) P := by
  intro session after a journal hrun
  refine ⟨insertions, ?_, h a⟩
  rcases hrequest : request session.database with ⟨answer, database⟩
  simp only [Work.ask, hrequest] at hrun
  obtain ⟨rfl, rfl⟩ := Prod.mk.inj hrun
  simp only [Work.ask, Journaled.ask, Session.journaled, hrequest]

theorem freshMark {P : List Insertion → Nat → Prop} (h : ∀ mark, P [] mark) :
    Inserts (Work.freshMark : Work (Journaled δ) Nat) Work.freshMark P := by
  intro session after mark journal hrun
  obtain ⟨hmark, rfl⟩ := Prod.mk.inj hrun
  obtain rfl := Except.ok.inj hmark
  exact ⟨[], by rw [List.append_nil]; rfl, h _⟩

/-- One insertion at each step of a loop. -/
theorem forM {f : α → Work (Journaled δ) PUnit} {g : α → Work δ PUnit} {R : α → Insertion → Prop} {xs : List α}
    (h : ∀ x ∈ xs, Inserts (f x) (g x) fun insertions _ => ∃ insertion, insertions = [insertion] ∧ R x insertion) :
    Inserts (xs.forM f) (xs.forM g) fun insertions _ => List.Forall₂ R xs insertions := by
  induction xs with
  | nil => exact pure .nil
  | cons x xs ih =>
    refine bind (h x List.mem_cons_self) fun first _ hfirst => ?_
    obtain ⟨insertion, rfl, hinsertion⟩ := hfirst
    exact (ih fun y hy => h y (List.mem_cons_of_mem _ hy)).mono fun _ _ hmore => .cons hinsertion hmore

end Inserts

end Work

end Tabular.Sql
