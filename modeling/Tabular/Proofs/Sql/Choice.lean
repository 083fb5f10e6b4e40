-- SUMMARY: The text of a choice among codes is read back, and compared with what the category map does itself.
import Tabular.Proofs.CategoryMap
import Tabular.Proofs.Sql.Literal
import Tabular.Sql.Compose

/-!
# Choices among codes

The codes of a column are chosen by a `CASE` over its raw values. `Choice.read?` reads such a text without knowing
the map it was made of: the literal of each branch with its code, and the code behind `ELSE`. A value then selects the
first branch that has its literal.

A rare value has an entry in its map and no branch in the text. It falls to the default, as a value does that the map
never met, while the map itself gives it the code for other values.
-/

namespace Tabular.Sql

/-- The branches of a choice, each a literal with its code, and the code of all other values. -/
structure Choice where
  branches : List (Fragment × Int64)
  otherwise : Int64
  deriving DecidableEq, Repr

namespace Choice

/-- The code of the first branch that has the literal of the value; without one, that of all other values. -/
def select (choice : Choice) (v : Value) : Int64 :=
  match choice.branches.find? (·.1 = Spelling.literal v) with
  | some (_, code) => code
  | none => choice.otherwise

/-! ## Reading -/

/-- What follows `front`. -/
def behind? (front text : List Char) : Option (List Char) :=
  if front.isPrefixOf text then some (text.drop front.length) else none

/-- The rest of a token behind its first quote, up to the first quote that is not doubled, and what follows. -/
def quoted? : List Char → Option (List Char × List Char)
  | [] => none
  | [c] => if c = '\'' then some ([c], []) else none
  | c :: d :: rest =>
    if c = '\'' then
      if d = '\'' then (quoted? rest).map fun (token, rest) => (c :: d :: token, rest)
      else some ([c], d :: rest)
    else (quoted? (d :: rest)).map fun (token, rest) => (c :: token, rest)

/-- A literal and what follows: a token between quotes, or all that stands before a closing parenthesis. -/
def literal? : List Char → Option (Fragment × List Char)
  | '\'' :: rest => (quoted? rest).map fun (token, rest) => (String.ofList ('\'' :: token), rest)
  | text => some (String.ofList (text.takeWhile (· ≠ ')')), text.dropWhile (· ≠ ')'))

/-- The integer up to the next blank and what follows. -/
def integer? (text : List Char) : Option (Int64 × List Char) :=
  (Decimal.integer? (text.takeWhile (· ≠ ' '))).map fun n => (n, text.dropWhile (· ≠ ' '))

/-- One branch of a choice over `raw` and what follows. -/
def branch? (raw : Fragment) (text : List Char) : Option ((Fragment × Int64) × List Char) := do
  let text ← behind? (" WHEN (" ++ raw ++ " = ").toList text
  let (literal, text) ← literal? text
  let text ← behind? ") THEN ".toList text
  let (code, text) ← integer? text
  return ((literal, code), text)

theorem length_behind? {front text rest : List Char} (h : behind? front text = some rest) :
    text.length = front.length + rest.length := by
  unfold behind? at h
  split at h
  · rename_i hfront
    obtain rfl := Option.some.inj h
    have := (List.isPrefixOf_iff_prefix.1 hfront).length_le
    rw [List.length_drop]
    omega
  · simp at h

theorem length_quoted? {text token rest : List Char} (h : quoted? text = some (token, rest)) :
    rest.length ≤ text.length := by
  fun_induction quoted? text generalizing token rest with
  | case1 | case3 => simp at h
  | case2 =>
    obtain ⟨-, rfl⟩ := Prod.mk.inj (Option.some.inj h)
    exact Nat.zero_le _
  | case4 more ih =>
    obtain ⟨⟨inner, left⟩, hinner, h⟩ := Option.map_eq_some_iff.1 h
    obtain ⟨-, rfl⟩ := Prod.mk.inj h
    exact (ih hinner).trans ((Nat.le_succ _).trans (Nat.le_succ _))
  | case5 =>
    obtain ⟨-, rfl⟩ := Prod.mk.inj (Option.some.inj h)
    exact Nat.le_succ _
  | case6 c d more hc ih =>
    obtain ⟨⟨inner, left⟩, hinner, h⟩ := Option.map_eq_some_iff.1 h
    obtain ⟨-, rfl⟩ := Prod.mk.inj h
    exact (ih hinner).trans (Nat.le_succ _)

theorem length_literal? {text rest : List Char} {literal : Fragment} (h : literal? text = some (literal, rest)) :
    rest.length ≤ text.length := by
  unfold literal? at h
  split at h
  · obtain ⟨⟨token, left⟩, hquoted, h⟩ := Option.map_eq_some_iff.1 h
    obtain ⟨-, rfl⟩ := Prod.mk.inj h
    exact (length_quoted? hquoted).trans (Nat.le_succ _)
  · obtain ⟨-, rfl⟩ := Prod.mk.inj (Option.some.inj h)
    exact (List.dropWhile_sublist _).length_le

theorem length_integer? {text rest : List Char} {n : Int64} (h : integer? text = some (n, rest)) :
    rest.length ≤ text.length := by
  obtain ⟨_, -, h⟩ := Option.map_eq_some_iff.1 h
  obtain ⟨-, rfl⟩ := Prod.mk.inj h
  exact (List.dropWhile_sublist _).length_le

/-- A branch is not empty. -/
theorem length_branch? {raw : Fragment} {text rest : List Char} {branch : Fragment × Int64}
    (h : branch? raw text = some (branch, rest)) : rest.length < text.length := by
  simp only [branch?, Option.bind_eq_bind, Option.bind_eq_some_iff, Option.pure_def, Prod.exists] at h
  obtain ⟨first, hfirst, literal, second, hsecond, third, hthird, code, fourth, hfourth, h⟩ := h
  have hwhen := length_behind? hfirst
  have hliteral := length_literal? hsecond
  have hthen := length_behind? hthird
  have hcode := length_integer? hfourth
  obtain ⟨-, rfl⟩ := Prod.mk.inj (Option.some.inj h)
  simp only [String.toList_append, List.length_append] at hwhen
  have hpositive : 0 < " WHEN (".toList.length := by decide
  omega

/-- All branches from the front of a text on, and what follows them. -/
def chain (raw : Fragment) (text : List Char) : List (Fragment × Int64) × List Char :=
  match h : branch? raw text with
  | none => ([], text)
  | some (branch, rest) =>
    have := length_branch? h
    let (more, rest) := chain raw rest
    (branch :: more, rest)
termination_by text.length

theorem chain_of_none {raw : Fragment} {text : List Char} (h : branch? raw text = none) :
    chain raw text = ([], text) := by
  unfold chain
  split <;> simp_all

theorem chain_of_some {raw : Fragment} {text rest : List Char} {branch : Fragment × Int64}
    (h : branch? raw text = some (branch, rest)) :
    chain raw text = (branch :: (chain raw rest).1, (chain raw rest).2) := by
  rw [chain]
  split <;> simp_all

/-- The choice over `raw` that a text spells: branches between `CASE` and `END`, or the code of all values alone. -/
def read? (raw : Fragment) (text : String) : Option Choice :=
  match behind? "CASE".toList text.toList with
  | none => (Decimal.integer? text.toList).map (⟨[], ·⟩)
  | some text => do
    let (found, text) := chain raw text
    let text ← behind? " ELSE ".toList text
    let (otherwise, text) ← integer? text
    if text = " END".toList then some ⟨found, otherwise⟩ else none

/-! ## What is spelled is read -/

theorem behind?_append (front rest : List Char) : behind? front (front ++ rest) = some rest := by
  rw [behind?, if_pos (List.isPrefixOf_iff_prefix.2 (List.prefix_append _ _)), List.drop_left]

theorem quoted?_double (s : List Char) {rest : List Char} (h : rest.head? ≠ some '\'') :
    quoted? (Text.double '\'' s ++ '\'' :: rest) = some (Text.double '\'' s ++ ['\''], rest) := by
  induction s with
  | nil =>
    cases rest with
    | nil => rfl
    | cons d rest =>
      have hd : d ≠ '\'' := fun hd => h (congrArg some hd)
      simp [Text.double, quoted?, hd]
  | cons c s ih =>
    by_cases hc : c = '\''
    · subst hc
      simp [Text.double, quoted?, ih]
    · have hdouble : Text.double '\'' (c :: s) = c :: Text.double '\'' s := by simp [Text.double, hc]
      rw [hdouble, List.cons_append, List.cons_append]
      -- Something follows, if only the closing quote.
      cases hmore : Text.double '\'' s ++ '\'' :: rest with
      | nil => simp at hmore
      | cons d more =>
        rw [quoted?, if_neg hc, ← hmore, ih, Option.map_some]

/-- A literal without quotes is read up to the parenthesis. -/
theorem literal?_plain {text : List Char} (h : ∀ c ∈ text, c ≠ '\'' ∧ c ≠ ')') (rest : List Char) :
    literal? (text ++ ')' :: rest) = some (String.ofList text, ')' :: rest) := by
  have hplain : ∀ c ∈ text, decide (c ≠ ')') = true := fun c hc => decide_eq_true (h c hc).2
  unfold literal?
  split
  · rename_i heq
    cases text with
    | nil => exact absurd (List.cons.inj heq).1 (by decide)
    | cons c more => exact absurd (List.cons.inj heq).1 (h c List.mem_cons_self).1
  · rw [List.takeWhile_append_of_pos hplain, List.dropWhile_append_of_pos hplain]
    simp

theorem literal?_quoted (s : String) (rest : List Char) :
    literal? ((Text.quoted '\'' s).toList ++ ')' :: rest) = some (Text.quoted '\'' s, ')' :: rest) := by
  have hread := quoted?_double s.toList (show (')' :: rest).head? ≠ some '\'' by simp)
  simp [literal?, Text.quoted, hread]

theorem literal?_literal (v : Value) (rest : List Char) :
    literal? ((Spelling.literal v).toList ++ ')' :: rest) = some (Spelling.literal v, ')' :: rest) := by
  have hnumeral : ∀ {text : List Char}, Numeral text → ∀ c ∈ text, c ≠ '\'' ∧ c ≠ ')' := by
    intro text htext c hc
    rcases htext.chars c hc with hc | rfl
    · constructor <;> (rintro rfl; exact absurd hc (by decide))
    · decide
  cases v with
  | null => exact literal?_plain (by simp [Spelling.literal]) rest
  | integer n =>
    have := literal?_plain (hnumeral (numeral_int n.toInt)) rest
    rwa [String.ofList_toList] at this
  | float x =>
    have := literal?_plain (hnumeral (numeral_float x)) rest
    rwa [String.ofList_toList] at this
  | string s => exact literal?_quoted s rest
  | date d =>
    rw [literal_date]
    exact literal?_quoted d.text rest

theorem integer?_literal (n : Int64) (rest : List Char) :
    integer? ((Spelling.literal (.integer n)).toList ++ ' ' :: rest) = some (n, ' ' :: rest) := by
  have hplain : ∀ c ∈ (Spelling.literal (.integer n)).toList, decide (c ≠ ' ') = true := by
    intro c hc
    rcases (numeral_int n.toInt).chars c hc with hc | rfl
    · refine decide_eq_true ?_
      rintro rfl
      exact absurd hc (by decide)
    · decide
  rw [integer?, List.takeWhile_append_of_pos hplain, List.dropWhile_append_of_pos hplain]
  simp [Spelling.literal, Decimal.integer?_text]

/-- What a branch for a value and its code looks like. -/
def spelled (raw : Fragment) (entry : Value × Int64) : Fragment × Fragment :=
  (Spelling.compare .eq raw (Spelling.literal entry.1), Spelling.literal (.integer entry.2))

theorem branch?_spelled (raw : Fragment) (entry : Value × Int64) (rest : List Char) :
    branch? raw ((Spelling.branches [spelled raw entry]).toList ++ ' ' :: rest) =
      some ((Spelling.literal entry.1, entry.2), ' ' :: rest) := by
  have hchars : (Spelling.branches [spelled raw entry]).toList ++ ' ' :: rest =
      (" WHEN (" ++ raw ++ " = ").toList ++ ((Spelling.literal entry.1).toList ++ ')' :: (" THEN ".toList ++
        ((Spelling.literal (.integer entry.2)).toList ++ ' ' :: rest))) := by
    simp [Spelling.branches, spelled, Spelling.compare, Comparison.symbol]
  have hthen : ∀ more, behind? ") THEN ".toList (')' :: (" THEN ".toList ++ more)) = some more :=
    behind?_append ") THEN ".toList
  simp only [branch?, hchars, behind?_append, literal?_literal, hthen, integer?_literal, Option.bind_eq_bind,
    Option.bind_some, Option.pure_def]

theorem chain_spelled (raw : Fragment) (entries : List (Value × Int64)) {rest : List Char}
    (hrest : branch? raw (' ' :: rest) = none) :
    chain raw ((Spelling.branches (entries.map (spelled raw))).toList ++ ' ' :: rest) =
      (entries.map fun entry => (Spelling.literal entry.1, entry.2), ' ' :: rest) := by
  induction entries with
  | nil => exact chain_of_none hrest
  | cons entry entries ih =>
    -- What follows the branch begins with a blank, be it another branch or the rest.
    obtain ⟨more, hmore⟩ :
        ∃ more, (Spelling.branches (entries.map (spelled raw))).toList ++ ' ' :: rest = ' ' :: more := by
      cases entries with
      | nil => exact ⟨rest, rfl⟩
      | cons next entries =>
        rw [List.map_cons, Spelling.branches]
        simp
    have hchars : (Spelling.branches ((entry :: entries).map (spelled raw))).toList ++ ' ' :: rest =
        (Spelling.branches [spelled raw entry]).toList ++ ' ' :: more := by
      rw [← hmore]
      simp [Spelling.branches]
    have hread := branch?_spelled raw entry more
    rw [hchars, chain_of_some hread, ← hmore, ih, List.map_cons]

theorem texts_encode (d : Dialect) (raw : Term) (entries : List (Value × Int64)) :
    (Term.texts d (entries.map fun entry => .compare .eq raw (.literal entry.1))).zip
      (Term.texts d (entries.map fun entry => Compose.integer entry.2)) = entries.map (spelled (raw.text d)) := by
  induction entries with
  | nil => rfl
  | cons entry entries ih =>
    simp only [List.map_cons, Term.texts, List.zip_cons_cons, ih]
    rfl

/-- An integer alone is not taken for branches. -/
theorem behind?_integer (n : Int64) : behind? "CASE".toList (Spelling.literal (.integer n)).toList = none := by
  refine if_neg fun hfront => ?_
  have hmem : 'C' ∈ (Spelling.literal (.integer n)).toList :=
    (List.isPrefixOf_iff_prefix.1 hfront).subset (by decide)
  rcases (numeral_int n.toInt).chars 'C' hmem with hc | hc
  · exact absurd hc (by decide)
  · exact absurd hc (by decide)

/-- The text of the codes of a map is read back: a branch for each value with a code of its own, and the default. -/
theorem read?_encode (d : Dialect) (raw : Term) (map : CategoryMap) (default : Int64) :
    read? (raw.text d) ((Compose.encode raw map default).text d) =
      some ⟨(Compose.encoded map).map fun entry => (Spelling.literal entry.1, entry.2), default⟩ := by
  have htext : (Compose.encode raw map default).text d = Spelling.case
      (Term.texts d ((Compose.encoded map).map fun entry => .compare .eq raw (.literal entry.1)))
      (Term.texts d ((Compose.encoded map).map fun entry => Compose.integer entry.2))
      (Spelling.literal (.integer default)) := rfl
  rw [htext, Spelling.case, texts_encode]
  split
  · rename_i hempty
    have hnone : Compose.encoded map = [] := by
      cases hentries : Compose.encoded map with
      | nil => rfl
      | cons entry entries => simp [hentries, Term.texts] at hempty
    have hread := Decimal.integer?_text default
    rw [hnone, read?, behind?_integer]
    exact congrArg (Option.map _) hread
  · generalize Compose.encoded map = entries
    have hotherwise : ∀ more, branch? (raw.text d) (' ' :: ("ELSE ".toList ++ more)) = none := by
      intro more
      have hnone : behind? (" WHEN (" ++ raw.text d ++ " = ").toList (' ' :: ("ELSE ".toList ++ more)) = none := by
        simp [behind?]
      rw [branch?, hnone]
      rfl
    have hchars : ("CASE" ++ Spelling.branches (entries.map (spelled (raw.text d))) ++ " ELSE " ++
        Spelling.literal (.integer default) ++ " END").toList = "CASE".toList ++
          ((Spelling.branches (entries.map (spelled (raw.text d)))).toList ++ ' ' :: ("ELSE ".toList ++
            ((Spelling.literal (.integer default)).toList ++ ' ' :: "END".toList))) := by
      simp
    have helse : ∀ more, behind? " ELSE ".toList (' ' :: ("ELSE ".toList ++ more)) = some more :=
      behind?_append " ELSE ".toList
    rw [read?, hchars, behind?_append]
    simp only [chain_spelled _ _ (hotherwise _), helse, integer?_literal, Option.bind_eq_bind, Option.bind_some]
    rfl

/-! ## What is selected -/

/-- A value with a code of its own selects it, and every other value the default. -/
theorem select_encoded {source codes : Series} {threshold : Option Nat} {map : CategoryMap}
    (hbuild : CategoryMap.build source threshold = .ok (map, codes)) {v : Value} (hv : v.dataType = map.rawType)
    (default : Int64) :
    select ⟨(Compose.encoded map).map fun entry => (Spelling.literal entry.1, entry.2), default⟩ v =
      if map.code? v = some CategoryMap.otherCode then default else (map.code? v).getD default := by
  obtain ⟨htype, hfloat⟩ := CategoryMap.build_dataType hbuild
  have htypes : ∀ entry ∈ map.entries, entry.1.dataType = v.dataType := by
    intro entry hentry
    rw [CategoryMap.eq_ofValues hbuild] at hentry
    exact (CategoryMap.entries_ofValues.1 entry hentry).trans (htype.symm.trans hv.symm)
  unfold select
  dsimp only
  rw [List.find?_map]
  cases hfind : (Compose.encoded map).find? _ with
  | none =>
    have hnone := List.find?_eq_none.1 hfind
    -- An entry of the value would be found, unless its code is that of the rare values.
    have hrare : ∀ code, map.code? v = some code → code = CategoryMap.otherCode := by
      intro code hcode
      by_contra hother
      have hmem := (CategoryMap.code?_eq_some_iff hbuild).1 hcode
      exact hnone (v, code) (List.mem_filter.2 ⟨hmem, by simpa using hother⟩) (by simp)
    cases hcode : map.code? v with
    | none => simp
    | some code => simp [hrare code hcode]
  | some entry =>
    obtain ⟨hmem, hother⟩ := List.mem_filter.1 (List.mem_of_find?_eq_some hfind)
    have hliteral : Spelling.literal entry.1 = Spelling.literal v := by simpa using List.find?_some hfind
    have hfloat : entry.1.dataType ≠ .float := by rwa [htypes entry hmem, hv, htype]
    have hentry := Spelling.literal_inj (htypes entry hmem) hfloat hliteral
    have hcode : map.code? v = some entry.2 := (CategoryMap.code?_eq_some_iff hbuild).2 (hentry ▸ hmem)
    have hother : entry.2 ≠ CategoryMap.otherCode := by simpa using hother
    simp [hcode, hother]

/-- The text of a map's codes is read back, whatever the term for the raw values is. A value of the raw type then
    selects the code that the map gives it exactly if it is not rare, or if the default is the code for other
    values. -/
theorem selects_iff {source codes : Series} {threshold : Option Nat} {map : CategoryMap}
    (hbuild : CategoryMap.build source threshold = .ok (map, codes)) (default : Int64) (d : Dialect) (term : Term) :
    ∃ choice, read? (term.text d) ((Compose.encode term map default).text d) = some choice ∧
      ∀ raw : Series, raw.dataType = map.rawType → ∃ encoded, map.encode raw default = .ok encoded ∧
        ∀ row v, raw.cell? row = some v → ∃ code, encoded.cell? row = some (.integer code) ∧
          (choice.select v = code ↔ map.code? v ≠ some CategoryMap.otherCode ∨ default = CategoryMap.otherCode) := by
  refine ⟨_, read?_encode d term map default, fun raw hraw => ⟨_, if_pos hraw, fun row v hv => ?_⟩⟩
  rw [Series.cell?_eq] at hv
  have htype : v.dataType = map.rawType :=
    (Series.dataType_of_mem_values (List.mem_of_getElem? hv)).trans hraw
  refine ⟨(map.code? v).getD default, ?_, ?_⟩
  · rw [Series.cell?, List.getElem?_map, hv]
    rfl
  · rw [select_encoded hbuild htype]
    split
    · rename_i hcode
      simp [hcode]
    · rename_i hcode
      simp [hcode]

/-- Of the values `a`, `a` and `b`, the last is rare below two. With the level `a` as the default it selects 0, and
    its code is -1. -/
theorem selects_iff_rare :
    ∃ map codes, CategoryMap.build (.strings ["a", "a", "b"]) (some 2) = .ok (map, codes) ∧
      map.defaultCode (.string "a") = .ok 0 ∧ map.encode (.strings ["b"]) 0 = .ok (.integers [-1]) ∧
      ∃ choice, read? "\"s\"" "CASE WHEN (\"s\" = 'a') THEN 0 ELSE 0 END" = some choice ∧
        choice.select (.string "b") ≠ -1 := by
  have hbuild : CategoryMap.build (.strings ["a", "a", "b"]) (some 2) =
      .ok (⟨.string, some 2, [(.string "a", 0), (.string "b", -1)], [.string "a"]⟩, .integers [0, 0, -1]) := by
    decide
  obtain ⟨choice, hread, hselects⟩ := selects_iff hbuild 0 .sqlite (.column "s")
  refine ⟨_, _, hbuild, by decide, by decide, choice, hread, fun hselect => ?_⟩
  obtain ⟨encoded, hencoded, hrows⟩ := hselects (.strings ["b"]) rfl
  obtain rfl : encoded = .integers [-1] := (Except.ok.inj hencoded).symm
  obtain ⟨code, hcell, hiff⟩ := hrows 0 (.string "b") rfl
  obtain rfl : code = -1 := (Value.integer.inj (Option.some.inj hcell)).symm
  exact absurd (hiff.1 hselect) (by decide)

end Choice

end Tabular.Sql
