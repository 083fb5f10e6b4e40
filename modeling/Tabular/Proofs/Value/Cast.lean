-- SUMMARY: Integers and dates come back from the texts that they are cast to.
import Tabular.Proofs.Results
import Tabular.Proofs.Value.Text
import Tabular.Value.Cast

/-!
# Casts by way of texts

A text is trimmed before it is read as an integer, and read as a date by the first pattern that fits. The text of an
integer or of a date has no blanks to lose, and the text of a date fits the first of the default patterns.
-/

namespace Tabular.Value

/-- The text of an integer begins and ends visibly. -/
theorem tight_text_integer (n : Int64) : Text.Tight (text (integer n)).toList := by
  have hdigits : ∀ k, ∀ c ∈ Nat.toDigits 10 k, Text.isBlank c = false := fun k c hc =>
    Date.isBlank_of_isDigit (Nat.isDigit_of_mem_toDigits (by decide) (by decide) hc)
  rw [text, Int.toString_eq_repr, Int.repr_eq_if]
  split
  · rw [Nat.toList_repr]
    exact Text.tight_of_forall Nat.toDigits_ne_nil (hdigits _)
  · rw [String.toList_append, Nat.toList_repr]
    refine Text.tight_of_forall (List.append_ne_nil_of_right_ne_nil _ Nat.toDigits_ne_nil) ?_
    have hdash : Text.isBlank '-' = false := by decide
    rw [List.forall_mem_append]
    exact ⟨by simpa using hdash, hdigits _⟩

/-- An integer is what its text is cast to. -/
theorem cast?_text_integer (patterns : List String) (n : Int64) :
    cast? patterns .integer (string (text (integer n))) = some (integer n) := by
  rw [cast?, Text.trim_eq_self (tight_text_integer n), Decimal.integer?_text, Option.map_some]

/-- A date is what its text is cast to, if texts are first read in the pattern that dates are written in. -/
theorem cast?_text_date (patterns : List String) (d : Date) :
    cast? ("%Y-%m-%d" :: patterns) .date (string d.text) = some (date d) := by
  rw [cast?, Date.ofPatterns?, List.findSome?_cons, Date.ofPattern?_text]
  rfl

/-- An integer is cast to its decimal text and comes back from it, and so does a date from year, month and day with
    hyphens, with the default patterns. -/
theorem cast_string_cast :
    (∀ patterns (n : Int64), cast patterns .string (integer n) = .ok (string (toString n.toInt)) ∧
      (do cast patterns .integer (← cast patterns .string (integer n))) = .ok (integer n)) ∧
    ∀ d : Date, cast Date.defaultPatterns .string (date d) = .ok (string d.text) ∧
      (do cast Date.defaultPatterns .date (← cast Date.defaultPatterns .string (date d))) = .ok (date d) := by
  constructor
  · intro patterns n
    have hprinted : cast patterns .string (integer n) = .ok (string (text (integer n))) := rfl
    have hread : cast patterns .integer (string (text (integer n))) = .ok (integer n) := by
      rw [cast, cast?_text_integer]
    exact ⟨hprinted, bind_eq_ok.2 ⟨_, hprinted, hread⟩⟩
  · intro d
    have hprinted : cast Date.defaultPatterns .string (date d) = .ok (string d.text) := rfl
    have hread : cast Date.defaultPatterns .date (string d.text) = .ok (date d) := by
      rw [cast, Date.defaultPatterns, cast?_text_date]
    exact ⟨hprinted, bind_eq_ok.2 ⟨_, hprinted, hread⟩⟩

/-- A year with a sign and six digits. -/
example : (do cast Date.defaultPatterns .date (← cast Date.defaultPatterns .string (date ⟨-262143, 1, 1, by decide⟩))) =
    .ok (date ⟨-262143, 1, 1, by decide⟩) := by decide +kernel

end Tabular.Value
