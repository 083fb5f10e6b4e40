-- SUMMARY: Names in statements: which are the same, and how names without quotes are found in the text.
import Tabular.Sql.Store.Cell

/-!
# Names in statements

Tables and columns are named between quotes, where every character but one may stand: a null character ends
the statement in the middle of the quotes. The sources of composed statements are named without quotes, as
options say. Blanks and comments before such a name are skipped, as they are before every word, and the rest
must be a single word.
-/

namespace Tabular.Sql

/-- Whether two names are the same, whatever the case of ASCII letters. -/
def sameName (a b : String) : Bool := a.toList.map Char.toLower == b.toList.map Char.toLower

/-- Whether a null character ends a text early. -/
def isCutShort (text : String) : Bool := text.toList.contains '\x00'

/-! ## Blanks and comments -/

/-- Characters that stand between words: blanks, and the mark of the byte order. -/
def separates (c : Char) : Bool := Cell.isBlank c || c == '\ufeff'

/-- What follows a comment between marks, behind the first mark. -/
def skipRemark : List Char → List Char
  | '*' :: '/' :: rest => rest
  | _ :: rest => skipRemark rest
  | [] => []

theorem length_skipRemark_le (s : List Char) : (skipRemark s).length ≤ s.length := by
  induction s using skipRemark.induct with
  | case1 rest => simp only [skipRemark, List.length_cons]; omega
  | case2 c rest h ih =>
    rw [skipRemark]
    · simp only [List.length_cons]; omega
    · exact h
  | case3 => simp [skipRemark]

/-- Skip blanks and comments. A comment runs to the end of its line, or up to its closing mark. -/
def skipToWord : List Char → List Char
  | '-' :: '-' :: rest => skipToWord (rest.dropWhile (· != '\n'))
  | '/' :: '*' :: c :: rest => skipToWord (skipRemark (c :: rest))
  | c :: rest => if separates c then skipToWord rest else c :: rest
  | [] => []
termination_by s => s.length
decreasing_by
  · have := Text.length_dropWhile_le (· != '\n') rest
    simp only [List.length_cons]
    omega
  · have := length_skipRemark_le (c :: rest)
    simp only [List.length_cons] at this ⊢
    omega
  · simp

/-! ## Words -/

/-- Whether a text is a single word, which needs no quotes to be a name. -/
def isWord : List Char → Bool
  | [] => false
  | c :: rest =>
    let starts (c : Char) : Bool := c.isAlpha || c == '_' || 128 ≤ c.toNat
    starts c && rest.all fun c => starts c || c.isDigit || c == '$'

/-- The name that a statement gives to its source without quotes. -/
def sourceName? (written : String) : Option String :=
  let name := skipToWord written.toList
  if isWord name then some (String.ofList name) else none

end Tabular.Sql
