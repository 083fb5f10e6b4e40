-- SUMMARY: Quoting by doubling: inside the quotes a quote is written twice.
/-!
# Doubled quotes

String literals of formulas, and names and literals of SQL, are written between quotes; a quote inside
is written twice. `double` writes the inside, `undouble?` reads it back and refuses a quote that stands
alone.
-/

namespace Tabular.Text

/-- Write every `q` of the text twice. -/
def double (q : Char) : List Char → List Char
  | [] => []
  | c :: rest => if c == q then q :: q :: double q rest else c :: double q rest

/-- Read doubled quotes as single ones; `none` if a quote stands alone. -/
def undouble? (q : Char) : List Char → Option (List Char)
  | [] => some []
  | [c] => if c == q then none else some [c]
  | c :: d :: rest =>
    if c == q then
      if d == q then (undouble? q rest).map (q :: ·) else none
    else (undouble? q (d :: rest)).map (c :: ·)

/-- `s` between quotes `q`, with the quotes inside doubled. -/
def quoted (q : Char) (s : String) : String :=
  String.ofList (q :: double q s.toList ++ [q])

theorem undouble?_double (q : Char) (s : List Char) : undouble? q (double q s) = some s := by
  induction s with
  | nil => rfl
  | cons c rest ih =>
    by_cases h : c = q
    · subst h; simp [double, undouble?, ih]
    · rw [double, if_neg (by simpa using h)]
      cases hd : double q rest with
      | nil => simp_all [undouble?]
      | cons d tail => simp [undouble?, h, ← hd, ih]

end Tabular.Text
