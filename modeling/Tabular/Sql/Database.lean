-- SUMMARY: What composed statements ask of a database, and sessions over one.
import Tabular.Sql.Query
import Tabular.Series

/-!
# Databases

A database answers questions about queries and changes its tables. Every request may change the state of
the database, also one that fails. A session is a database together with a count of the sources that have
been made over it: sources are told apart by their number and not by their text.
-/

namespace Tabular.Sql

/-- Requests to a database with states `δ`. -/
class Database (δ : Type) where
  /-- The columns of a query with their types. -/
  types : Query → ExceptT Failure (StateM δ) (List (String × DataType))
  rowCount : Query → ExceptT Failure (StateM δ) Nat
  /-- The columns of a query, each read as its type. -/
  fetch : Query → List DataType → ExceptT Failure (StateM δ) (List Series)
  /-- Whether there is a table of this name. -/
  hasTable : String → ExceptT Failure (StateM δ) Bool
  /-- Make a table of fields, in place of an old one if `overwrite` is set. -/
  create : String → List (String × DataType) → Bool → ExceptT Failure (StateM δ) Unit
  dropTable : String → ExceptT Failure (StateM δ) Unit
  /-- Add the rows of a query to the named columns of a table. -/
  insert : String → Query → List String → ExceptT Failure (StateM δ) Unit

/-- A database in use. -/
structure Session (δ : Type) where
  database : δ
  /-- The number of sources made so far. -/
  sources : Nat

/-- Work in a session. What was done to the database stays done if the work fails. -/
abbrev Work (δ : Type) := ExceptT Failure (StateM (Session δ))

namespace Work

variable {δ α : Type}

/-- Put a request to the database. -/
def ask (request : ExceptT Failure (StateM δ) α) : Work δ α := fun session =>
  let (answer, database) := request session.database
  (answer, { session with database })

/-- A number that no source of the session has. -/
def freshMark : Work δ Nat := fun session =>
  (.ok session.sources, { session with sources := session.sources + 1 })

end Work

end Tabular.Sql
