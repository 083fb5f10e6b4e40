-- SUMMARY: Rows of literals are read back from the text of their query: names, texts, integers and dates.
import Tabular.Proofs.Sql.Choice

/-!
# Rows of literals

A query of literals is a `SELECT` for each row, one after another with `UNION ALL`. `Rows.read?` reads such a text
without knowing the rows it was made of: the literals of each row with the names behind `AS`. Quotes end where they
are not doubled, so neither a name nor a text is taken for what stands around it.

A literal is read as a value of the type of its column. Texts stand between quotes as they are, integers and dates
are read back from theirs. Floats are left out: they come back as the word that they were written as.
-/

namespace Tabular

namespace Sql

/-! ## Literals -/

/-- A literal as it stands in a statement: what is between quotes, or a word. -/
inductive Literal where
  | quoted (s : String)
  | word (s : String)
  deriving DecidableEq, Repr

namespace Literal

/-- The literal that a value is written as. -/
def of : Value → Literal
  | .string s => quoted s
  | .date d => quoted d.text
  | v => word (Spelling.literal v)

/-- The value of a literal in a column of texts, integers or dates. -/
def value? : DataType → Literal → Option Value
  | .integer, word s => (Decimal.integer? s.toList).map .integer
  | .string, quoted s => some (.string s)
  | .date, quoted s => (Date.ofPattern? "%Y-%m-%d" s).map .date
  | _, _ => none

/-- Integers, texts and dates are read back from their literals. -/
theorem value?_of {v : Value} (hnull : v.dataType ≠ .nil) (hfloat : v.dataType ≠ .float) :
    value? v.dataType (of v) = some v := by
  cases v with
  | null => exact absurd rfl hnull
  | integer n => exact congrArg (Option.map Value.integer) (Decimal.integer?_text n)
  | float x => exact absurd rfl hfloat
  | string s => rfl
  | date d => exact congrArg (Option.map Value.date) (Date.ofPattern?_text d)

end Literal

namespace Rows

open Choice (behind? behind?_append)

/-! ## Reading -/

/-- What stands before a closing quote, that is, a quote that is not doubled, and what follows it. -/
def inside? (q : Char) : List Char → Option (List Char × List Char)
  | [] => none
  | [c] => if c = q then some ([], []) else none
  | c :: d :: rest =>
    if c = q then
      if d = q then (inside? q rest).map fun (s, rest) => (q :: s, rest)
      else some ([], d :: rest)
    else (inside? q (d :: rest)).map fun (s, rest) => (c :: s, rest)

/-- A literal and what follows: what is between quotes, or all that stands before a blank. -/
def literal? : List Char → Option (Literal × List Char)
  | '\'' :: rest => (inside? '\'' rest).map fun (s, rest) => (.quoted (String.ofList s), rest)
  | text => some (.word (String.ofList (text.takeWhile (· ≠ ' '))), text.dropWhile (· ≠ ' '))

/-- A literal, the name of its column and what follows. -/
def field? (text : List Char) : Option ((String × Literal) × List Char) := do
  let (literal, text) ← literal? text
  let text ← behind? " AS \"".toList text
  let (name, text) ← inside? '"' text
  return ((String.ofList name, literal), text)

/-- Items with a mark between them, as long as they go on, and what follows. -/
def separated {α : Type} (mark : List Char) (item? : List Char → Option (α × List Char)) (text : List Char) :
    Option (List α × List Char) :=
  match item? text with
  | none => none
  | some (a, rest) =>
    match behind? mark rest with
    | none => some ([a], rest)
    | some more =>
      if more.length < text.length then
        (separated mark item? more).map fun (as, rest) => (a :: as, rest)
      else none
termination_by text.length

/-- One row and what follows. -/
def row? (text : List Char) : Option (List (String × Literal) × List Char) := do
  separated ", ".toList field? (← behind? "SELECT ".toList text)

/-- The rows that a text spells, each a list of literals with their names. -/
def read? (text : String) : Option (List (List (String × Literal))) := do
  let (rows, rest) ← separated " UNION ALL ".toList row? text.toList
  if rest.isEmpty then some rows else none

/-! ## What is written is read -/

theorem inside?_double (q : Char) (s : List Char) {rest : List Char} (h : rest.head? ≠ some q) :
    inside? q (Text.double q s ++ q :: rest) = some (s, rest) := by
  induction s with
  | nil =>
    cases rest with
    | nil => simp [Text.double, inside?]
    | cons d rest =>
      have hd : d ≠ q := fun hd => h (congrArg some hd)
      simp [Text.double, inside?, hd]
  | cons c s ih =>
    by_cases hc : c = q
    · subst hc
      simp [Text.double, inside?, ih]
    · have hdouble : Text.double q (c :: s) = c :: Text.double q s := by simp [Text.double, hc]
      rw [hdouble, List.cons_append]
      -- Something follows, if only the closing quote.
      cases hmore : Text.double q s ++ q :: rest with
      | nil => simp at hmore
      | cons d more =>
        rw [inside?, if_neg hc, ← hmore, ih, Option.map_some]

/-- What stands between quotes is read as it was before it was quoted. -/
theorem inside?_quoted (q : Char) (s : String) {rest : List Char} (h : rest.head? ≠ some q) :
    ∃ text, (Text.quoted q s).toList ++ rest = q :: text ∧ inside? q text = some (s.toList, rest) :=
  ⟨Text.double q s.toList ++ q :: rest, by simp [Text.quoted], inside?_double q s.toList h⟩

/-- A word is read up to the blank. -/
theorem literal?_word (text : List Char) (h : ∀ c ∈ text, c ≠ '\'' ∧ c ≠ ' ') (rest : List Char) :
    literal? (text ++ ' ' :: rest) = some (.word (String.ofList text), ' ' :: rest) := by
  have hword : ∀ c ∈ text, decide (c ≠ ' ') = true := fun c hc => decide_eq_true (h c hc).2
  unfold literal?
  split
  · rename_i heq
    cases text with
    | nil => exact absurd (List.cons.inj heq).1 (by decide)
    | cons c more => exact absurd (List.cons.inj heq).1 (h c List.mem_cons_self).1
  · rw [List.takeWhile_append_of_pos hword, List.dropWhile_append_of_pos hword]
    simp

theorem literal?_literal (v : Value) (rest : List Char) :
    literal? ((Spelling.literal v).toList ++ ' ' :: rest) = some (.of v, ' ' :: rest) := by
  have hnumeral : ∀ {text : String}, Numeral text.toList →
      literal? (text.toList ++ ' ' :: rest) = some (.word text, ' ' :: rest) := by
    intro text htext
    have hread := literal?_word text.toList ?_ rest
    · rwa [String.ofList_toList] at hread
    · intro c hc
      rcases htext.chars c hc with hc | rfl
      · constructor <;> (rintro rfl; exact absurd hc (by decide))
      · decide
  have hquoted : ∀ s : String,
      literal? ((Text.quoted '\'' s).toList ++ ' ' :: rest) = some (.quoted s, ' ' :: rest) := by
    intro s
    obtain ⟨text, htext, hread⟩ := inside?_quoted '\'' s (show (' ' :: rest).head? ≠ some '\'' by simp)
    simp only [htext, literal?, hread, Option.map_some, String.ofList_toList]
  cases v with
  | null => exact literal?_word _ (by simp [Spelling.literal]) rest
  | integer n => exact hnumeral (numeral_int n.toInt)
  | float x => exact hnumeral (numeral_float x)
  | string s => exact hquoted s
  | date d =>
    rw [literal_date]
    exact hquoted d.text

/-- A value under a name, as a field. -/
def field (cell : String × Value) : Field := ⟨.literal cell.2, cell.1⟩

/-- What is read of the values of a row. -/
def literals (cells : List (String × Value)) : List (String × Literal) := cells.map fun cell => (cell.1, .of cell.2)

theorem field?_field (d : Dialect) (cell : String × Value) {rest : List Char} (h : rest.head? ≠ some '"') :
    field? (((field cell).text d).toList ++ rest) = some ((cell.1, .of cell.2), rest) := by
  obtain ⟨name, v⟩ := cell
  obtain ⟨text, htext, hread⟩ := inside?_quoted '"' name h
  have hchars : ((field (name, v)).text d).toList ++ rest =
      (Spelling.literal v).toList ++ ' ' :: ("AS ".toList ++ '"' :: text) := by
    rw [← htext]
    simp [field, Field.text, Spelling.field, Spelling.ident, Term.text]
  have has : ∀ more, behind? " AS \"".toList (' ' :: ("AS ".toList ++ '"' :: more)) = some more :=
    behind?_append " AS \"".toList
  simp only [field?, hchars, literal?_literal, has, hread, Option.bind_eq_bind, Option.bind_some, Option.pure_def,
    String.ofList_toList]

/-- Items that are read one by one are read together. -/
theorem separated_intercalate {α β : Type} {mark : List Char} {item? : List Char → Option (α × List Char)}
    {write : β → List Char} {read : β → α} {xs : List β} {rest : List Char} (hmark : mark ≠ []) (hne : xs ≠ [])
    (hnext : ∀ x ∈ xs, ∀ more, item? (write x ++ (mark ++ more)) = some (read x, mark ++ more))
    (hlast : ∀ x ∈ xs, item? (write x ++ rest) = some (read x, rest)) (hrest : behind? mark rest = none) :
    separated mark item? (mark.intercalate (xs.map write) ++ rest) = some (xs.map read, rest) := by
  induction xs with
  | nil => exact absurd rfl hne
  | cons x xs ih =>
    cases xs with
    | nil =>
      rw [List.map_singleton, List.intercalate_singleton, separated, hlast x List.mem_cons_self]
      dsimp only
      rw [hrest]
      rfl
    | cons y ys =>
      have hmore := ih (List.cons_ne_nil y ys) (fun z hz => hnext z (List.mem_cons_of_mem x hz))
        fun z hz => hlast z (List.mem_cons_of_mem x hz)
      have hread := hnext x List.mem_cons_self (mark.intercalate ((y :: ys).map write) ++ rest)
      rw [List.map_cons, List.intercalate_cons_of_ne_nil (by simp), List.append_assoc, List.append_assoc, separated,
        hread]
      dsimp only
      have hlength : 0 < mark.length := List.length_pos_iff.2 hmark
      rw [behind?_append]
      dsimp only
      rw [if_pos (by simp only [List.length_append]; omega), hmore]
      rfl

/-- A row is read if no quote and no comma follows. -/
theorem row?_row (d : Dialect) {cells : List (String × Value)} (hne : cells ≠ []) {rest : List Char}
    (hquote : rest.head? ≠ some '"') (hcomma : rest.head? ≠ some ',') :
    row? ((Spelling.row (cells.map fun cell => (field cell).text d)).toList ++ rest) =
      some (literals cells, rest) := by
  have hchars : (Spelling.row (cells.map fun cell => (field cell).text d)).toList ++ rest = "SELECT ".toList ++
      (", ".toList.intercalate (cells.map fun cell => ((field cell).text d).toList) ++ rest) := by
    rw [Spelling.row, String.toList_append, String.toList_intercalate, List.map_map, List.append_assoc]
    rfl
  have hrest : behind? ", ".toList rest = none := by
    cases rest with
    | nil => rfl
    | cons c rest =>
      have hc : ',' ≠ c := fun hc => hcomma (congrArg some hc.symm)
      simp [behind?, hc]
  rw [row?, hchars, behind?_append, Option.bind_eq_bind, Option.bind_some]
  exact separated_intercalate (by decide) hne (fun cell _ more => field?_field d cell (by simp))
    (fun cell _ => field?_field d cell hquote) hrest

/-- The rows of a query of literals are read back from its text. -/
theorem read?_literals (d : Dialect) {rows : List (List (String × Value))} (hne : rows ≠ [])
    (hcells : ∀ cells ∈ rows, cells ≠ []) :
    read? ((Query.literals (rows.map (·.map field))).text d) = some (rows.map literals) := by
  have hchars : ((Query.literals (rows.map (·.map field))).text d).toList = " UNION ALL ".toList.intercalate
      (rows.map fun cells => (Spelling.row (cells.map fun cell => (field cell).text d)).toList) ++ [] := by
    rw [Query.text, Spelling.unionAll, String.toList_intercalate, List.append_nil]
    simp only [List.map_map, Function.comp_def]
  have hread : separated " UNION ALL ".toList row? (" UNION ALL ".toList.intercalate
      (rows.map fun cells => (Spelling.row (cells.map fun cell => (field cell).text d)).toList) ++ []) =
        some (rows.map literals, []) :=
    separated_intercalate (by decide) hne (fun cells h more => row?_row d (hcells cells h) (by simp) (by simp))
      (fun cells h => row?_row d (hcells cells h) (by simp) (by simp)) rfl
  rw [read?, hchars, hread]
  rfl

end Rows

end Sql

end Tabular
