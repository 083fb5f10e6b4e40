-- SUMMARY: Parentheses of SQL text: operands of aggregates hold aggregates in subqueries only.
import Tabular.Proofs.Formula.Printing
import Tabular.Proofs.Sql.Nesting
import Tabular.Proofs.Sql.Spelling
import Tabular.Sql.Store

/-!
# Parentheses of SQL text

SQL text is read from left to right, and of every parenthesis that is open it is known what it holds: the operand of
an aggregate, a subquery, or something else. What stands between quotes is passed over. The reading fails at an
aggregate that is inside of the operand of another one, unless a subquery is opened in between.

A term that nests its aggregates has a text that is read to its end, in every dialect.
-/

namespace Tabular.Sql

/-! ## Reading -/

/-- What an open parenthesis holds. -/
inductive Bracket where
  /-- The operand of an aggregate. -/
  | operand
  | subquery
  | other
  deriving DecidableEq

/-- Whether the innermost parenthesis that matters holds an operand; `inner` stands for those around the text. -/
def Bracket.inOperand (inner : Bool) : List Bracket → Bool
  | [] => inner
  | .operand :: _ => true
  | .subquery :: _ => false
  | .other :: more => inOperand inner more

/-- Where the reading of a text stands. -/
structure Reading where
  /-- The quote of the token that is being passed. -/
  quote : Option Char
  /-- The word that has been read last, if nothing else was read since. -/
  word : List Char
  /-- The open parentheses, from the inside to the outside. -/
  brackets : List Bracket
  deriving DecidableEq

namespace Reading

/-- The words that call an aggregate, in front of a parenthesis. -/
def aggregates : List (List Char) := ["sum", "avg", "count", "min", "max", "percentile_cont"].map String.toList

/-- What the parenthesis around a word holds, where the word tells: a subquery, or the operand of an aggregate that
    orders its rows. -/
def keyword? (word : List Char) : Option Bracket :=
  if word = "SELECT".toList then some .subquery else if word = "ORDER".toList then some .operand else none

def isWordPart (c : Char) : Bool := c.isAlphanum || c == '_'

/-- The open parentheses behind a word and a space. Keywords stand inside of parentheses. -/
def settle (word : List Char) (brackets : List Bracket) : Option (List Bracket) :=
  match keyword? word, brackets with
  | none, brackets => some brackets
  | some _, [] => none
  | some kind, _ :: more => some (kind :: more)

/-- The open parentheses behind a word and a character that is part of no word. -/
def mark (inner : Bool) (word : List Char) (brackets : List Bracket) (c : Char) : Option (List Bracket) :=
  if c = '(' then
    if !aggregates.contains word then some (.other :: brackets)
    else if Bracket.inOperand inner brackets then none
    else some (.operand :: brackets)
  else if c = ')' then brackets.tail?
  else if c = ' ' then settle word brackets
  else some brackets

/-- Read one more character. -/
def step (inner : Bool) (r : Reading) (c : Char) : Option Reading :=
  match r.quote with
  | some q => some (if c = q then { r with quote := none } else r)
  | none =>
    if (Quote.ofChar? c).isSome then some ⟨some c, [], r.brackets⟩
    else if isWordPart c then some ⟨none, r.word ++ [c], r.brackets⟩
    else (mark inner r.word r.brackets c).map (⟨none, [], ·⟩)

def run (inner : Bool) (r : Reading) (text : List Char) : Option Reading := text.foldlM (step inner) r

end Reading

/-- The text of a term can be read to its end: every aggregate in it holds further ones in subqueries only. If the term
    is inside of an aggregate itself (`inner`), all its aggregates are in subqueries. -/
def Separates (inner : Bool) (text : String) : Prop :=
  ∃ word, Reading.run inner ⟨none, [], []⟩ text.toList = some ⟨none, word, []⟩

example : Reading.run false ⟨none, [], []⟩ "sum((SELECT avg(\"(\") FROM _src0))".toList = some ⟨none, [], []⟩ := by
  decide

example : Reading.run false ⟨none, [], []⟩ "sum((1 + avg(\"x\")))".toList = none := by decide

namespace Reading

/-! ### More parentheses around -/

def within (r : Reading) (outer : List Bracket) : Reading := { r with brackets := r.brackets ++ outer }

theorem inOperand_append (inner : Bool) (brackets outer : List Bracket) :
    Bracket.inOperand inner (brackets ++ outer) = Bracket.inOperand (Bracket.inOperand inner outer) brackets := by
  induction brackets with
  | nil => rfl
  | cons bracket more ih => cases bracket <;> simp [Bracket.inOperand, ih]

theorem settle_append {word : List Char} {brackets after : List Bracket} (h : settle word brackets = some after)
    (outer : List Bracket) : settle word (brackets ++ outer) = some (after ++ outer) := by
  unfold settle at h ⊢
  cases hword : keyword? word with
  | none =>
    rw [hword] at h
    rw [← Option.some.inj h]
  | some kind =>
    rw [hword] at h
    cases brackets with
    | nil => cases h
    | cons bracket more => rw [← Option.some.inj h]; rfl

theorem mark_append {inner : Bool} {word : List Char} {brackets outer after : List Bracket} {c : Char}
    (h : mark (Bracket.inOperand inner outer) word brackets c = some after) :
    mark inner word (brackets ++ outer) c = some (after ++ outer) := by
  unfold mark at h ⊢
  rw [← inOperand_append] at h
  split at h
  · rename_i hopen
    rw [if_pos hopen]
    split at h
    · rename_i hword
      rw [if_pos hword, ← Option.some.inj h, List.cons_append]
    · rename_i hword
      rw [if_neg hword]
      split at h
      · cases h
      · rename_i hinner
        rw [if_neg hinner, ← Option.some.inj h, List.cons_append]
  · rename_i hopen
    rw [if_neg hopen]
    split at h
    · rename_i hclose
      rw [if_pos hclose]
      cases brackets with
      | nil => cases h
      | cons bracket more => rw [← Option.some.inj h]; rfl
    · rename_i hclose
      rw [if_neg hclose]
      split at h
      · rename_i hspace
        rw [if_pos hspace]
        exact settle_append h outer
      · rename_i hspace
        rw [if_neg hspace, ← Option.some.inj h]

theorem step_within {inner : Bool} {outer : List Bracket} {r after : Reading} {c : Char}
    (h : step (Bracket.inOperand inner outer) r c = some after) :
    step inner (r.within outer) c = some (after.within outer) := by
  obtain ⟨quote, word, brackets⟩ := r
  cases quote with
  | some q =>
    obtain rfl := Option.some.inj h
    by_cases hc : c = q <;> simp [step, within, hc]
  | none =>
    unfold step within at *
    dsimp only at h ⊢
    split
    · rename_i hquote
      rw [if_pos hquote] at h
      rw [← Option.some.inj h]
    · rename_i hquote
      rw [if_neg hquote] at h
      split
      · rename_i hword
        rw [if_pos hword] at h
        rw [← Option.some.inj h]
      · rename_i hword
        rw [if_neg hword] at h
        obtain ⟨marked, hmarked, heq⟩ := Option.map_eq_some_iff.1 h
        rw [mark_append hmarked, ← heq]
        rfl

theorem run_within {inner : Bool} {outer : List Bracket} {r after : Reading} {text : List Char}
    (h : run (Bracket.inOperand inner outer) r text = some after) :
    run inner (r.within outer) text = some (after.within outer) := by
  induction text generalizing r with
  | nil =>
    obtain rfl := Option.some.inj h
    rfl
  | cons c text ih =>
    obtain ⟨next, hstep, hrest⟩ := Option.bind_eq_some_iff.1 h
    exact Option.bind_eq_some_iff.2 ⟨next.within outer, step_within hstep, ih hrest⟩

theorem run_append (inner : Bool) (r : Reading) (a b : List Char) :
    run inner r (a ++ b) = run inner r a >>= fun middle => run inner middle b := by
  unfold run
  rw [List.foldlM_append]

theorem run_cons {inner : Bool} {r next : Reading} {c : Char} (h : step inner r c = some next) (text : List Char) :
    run inner r (c :: text) = run inner next text := by
  rw [run, List.foldlM_cons, h]
  rfl

/-! ### Quoted tokens -/

theorem step_open (inner : Bool) (q : Quote) (word : List Char) (brackets : List Bracket) :
    step inner ⟨none, word, brackets⟩ q.char = some ⟨some q.char, [], brackets⟩ := by
  simp [step, Quote.ofChar?_char]

theorem step_passed (inner : Bool) (q : Quote) (brackets : List Bracket) (c : Char) :
    step inner ⟨some q.char, [], brackets⟩ c = some ⟨if c = q.char then none else some q.char, [], brackets⟩ := by
  by_cases hc : c = q.char <;> simp [step, hc]

/-- What stands between quotes is passed: of two quotes in a row, the first ends the token and the second begins it
    again. -/
theorem run_double (inner : Bool) (q : Quote) (brackets : List Bracket) (content : List Char) :
    run inner ⟨some q.char, [], brackets⟩ (Text.double q.char content) = some ⟨some q.char, [], brackets⟩ := by
  induction content with
  | nil => rfl
  | cons c content ih =>
    have hstep := step_passed inner q brackets c
    unfold Text.double
    split
    · rename_i hc
      obtain rfl : c = q.char := by simpa using hc
      rw [if_pos rfl] at hstep
      rw [run_cons hstep, run_cons (step_open inner q [] brackets), ih]
    · rename_i hc
      rw [if_neg (by simpa using hc)] at hstep
      rw [run_cons hstep, ih]

theorem run_quoted (inner : Bool) (q : Quote) (word : List Char) (brackets : List Bracket) (content : String) :
    run inner ⟨none, word, brackets⟩ (Text.quoted q.char content).toList = some ⟨none, [], brackets⟩ := by
  have hend := step_passed inner q brackets q.char
  rw [if_pos rfl] at hend
  rw [Text.quoted, String.toList_ofList, List.cons_append, run_cons (step_open inner q word brackets), run_append,
    run_double]
  exact run_cons hend []

/-! ### Words and numbers -/

/-- The character changes nothing but the word. -/
def isCalm (c : Char) : Bool := !(['"', '\'', '(', ')', ' '].contains c)

theorem step_calm (inner : Bool) (word : List Char) (brackets : List Bracket) {c : Char} (h : isCalm c = true) :
    step inner ⟨none, word, brackets⟩ c = some ⟨none, if isWordPart c then word ++ [c] else [], brackets⟩ := by
  simp only [isCalm, Bool.not_eq_true', List.contains_eq_mem, decide_eq_false_iff_not, List.mem_cons,
    List.not_mem_nil, or_false, not_or] at h
  obtain ⟨hname, htext, hopen, hclose, hspace⟩ := h
  unfold step
  simp only [Quote.ofChar?, if_neg hname, if_neg htext]
  split
  · cases ‹_›
  · split <;> simp_all [mark]

/-- Calm characters change nothing but the word. -/
theorem run_calm (inner : Bool) (word : List Char) (brackets : List Bracket) {text : List Char}
    (h : ∀ c ∈ text, isCalm c = true) : ∃ last, run inner ⟨none, word, brackets⟩ text = some ⟨none, last, brackets⟩ ∧
      last ⊆ word ++ text := by
  induction text generalizing word with
  | nil => exact ⟨word, rfl, by simp⟩
  | cons c text ih =>
    rw [List.forall_mem_cons] at h
    obtain ⟨last, hlast, hsubset⟩ := ih (if isWordPart c then word ++ [c] else []) h.2
    refine ⟨last, (run_cons (step_calm inner word brackets h.1) text).trans hlast, fun d hd => ?_⟩
    have hd := hsubset hd
    split at hd
    · simpa using hd
    · exact List.mem_append_right _ (List.mem_cons_of_mem _ hd)

end Reading

/-! ## Pieces of text -/

/-- The text is a piece that is entered with some parentheses open and left with others. -/
def Reads (inner : Bool) (before : List Bracket) (text : String) (after : List Bracket) : Prop :=
  ∃ word, Reading.keyword? word = none ∧
    Reading.run inner ⟨none, [], before⟩ text.toList = some ⟨none, word, after⟩

/-- Constant text behind which a piece may begin, wherever it stands. -/
def isLead (before : List Bracket) (text : String) (after : List Bracket) : Bool :=
  [false, true].all fun inner =>
    decide (Reading.run inner ⟨none, [], before⟩ text.toList = some ⟨none, [], after⟩)

/-- Constant text that is a piece, wherever it stands. -/
def isPiece (before : List Bracket) (text : String) (after : List Bracket) : Bool :=
  [false, true].all fun inner =>
    match Reading.run inner ⟨none, [], before⟩ text.toList with
    | some ⟨none, word, brackets⟩ => (Reading.keyword? word).isNone && decide (brackets = after)
    | _ => false

/-- Constant text that no piece before it can change: it begins with what ends a word and opens nothing. -/
def isBreak (text : String) : Bool := text.toList.head?.any [' ', ')', ',', '.'].contains

theorem Reading.run_break {inner : Bool} {word : List Char} (hword : keyword? word = none) {brackets : List Bracket}
    {text : String} (h : isBreak text = true) :
    run inner ⟨none, word, brackets⟩ text.toList = run inner ⟨none, [], brackets⟩ text.toList := by
  obtain ⟨c, hc, hbreak⟩ := (Option.any_eq_true _ _).1 h
  obtain ⟨rest, hrest⟩ : ∃ rest, text.toList = c :: rest := by
    cases hlist : text.toList with
    | nil => simp [hlist] at hc
    | cons d rest => exact ⟨rest, by rw [hlist] at hc; rw [Option.some.inj hc]⟩
  have hstep : step inner ⟨none, word, brackets⟩ c = step inner ⟨none, [], brackets⟩ c := by
    have hnil : keyword? [] = none := by decide
    have hcases : c = ' ' ∨ c = ')' ∨ c = ',' ∨ c = '.' := by simpa using hbreak
    rcases hcases with rfl | rfl | rfl | rfl <;> simp [step, Quote.ofChar?, isWordPart, mark, settle, hword, hnil]
  rw [hrest, run, List.foldlM_cons, hstep]
  rfl

namespace Reads

variable {inner : Bool} {before middle after next : List Bracket} {a b c : String}

theorem separates (h : Reads inner [] a []) : Separates inner a := by
  obtain ⟨word, -, hrun⟩ := h
  exact ⟨word, hrun⟩

/-- A closed piece inside of parentheses. -/
theorem inside (brackets : List Bracket) (h : Reads (Bracket.inOperand inner brackets) [] a []) :
    Reads inner brackets a brackets := by
  obtain ⟨word, hword, hrun⟩ := h
  exact ⟨word, hword, Reading.run_within hrun⟩

theorem nil (inner : Bool) (brackets : List Bracket) : Reads inner brackets "" brackets := ⟨[], by decide, rfl⟩

theorem of_isPiece (h : isPiece before a after = true) : Reads inner before a after := by
  have hinner := List.all_eq_true.1 h inner (by cases inner <;> decide)
  split at hinner
  · rename_i word brackets hrun
    simp only [Bool.and_eq_true, Option.isNone_iff_eq_none, decide_eq_true_eq] at hinner
    obtain ⟨hword, rfl⟩ := hinner
    exact ⟨word, hword, hrun⟩
  · cases hinner

theorem of_isLead (h : isLead before a after = true) :
    Reading.run inner ⟨none, [], before⟩ a.toList = some ⟨none, [], after⟩ :=
  of_decide_eq_true (List.all_eq_true.1 h inner (by cases inner <;> decide))

theorem append (ha : Reading.run inner ⟨none, [], before⟩ a.toList = some ⟨none, [], middle⟩)
    (hb : Reads inner middle b after) : Reads inner before (a ++ b) after := by
  obtain ⟨word, hword, hrun⟩ := hb
  refine ⟨word, hword, ?_⟩
  rw [String.toList_append, Reading.run_append, ha]
  exact hrun

/-- A piece behind constant text. -/
theorem lead (ha : isLead before a middle = true) (hb : Reads inner middle b after) :
    Reads inner before (a ++ b) after := append (of_isLead ha) hb

/-- A piece in front of text that it cannot change. -/
theorem run_append_break (ha : Reads inner before a middle) (hb : isBreak b = true) :
    Reading.run inner ⟨none, [], before⟩ (a ++ b).toList = Reading.run inner ⟨none, [], middle⟩ b.toList := by
  obtain ⟨word, hword, hrun⟩ := ha
  rw [String.toList_append, Reading.run_append, hrun]
  exact Reading.run_break hword hb

/-- Two pieces with constant text between them. -/
theorem link (ha : Reads inner before a middle) (hb : (isBreak b && isLead middle b next) = true)
    (hc : Reads inner next c after) : Reads inner before (a ++ b ++ c) after := by
  obtain ⟨hbreak, hlead⟩ := Bool.and_eq_true_iff.1 hb
  exact append ((ha.run_append_break hbreak).trans (of_isLead hlead)) hc

/-- A piece in front of constant text. -/
theorem close (ha : Reads inner before a middle) (hb : (isBreak b && isPiece middle b after) = true) :
    Reads inner before (a ++ b) after := by
  obtain ⟨hbreak, hpiece⟩ := Bool.and_eq_true_iff.1 hb
  have hconstant : Reads inner middle b after := of_isPiece hpiece
  obtain ⟨word, hword, hrun⟩ := hconstant
  exact ⟨word, hword, (ha.run_append_break hbreak).trans hrun⟩

theorem intercalate {separator : String} (hseparator : (isBreak separator && isLead before separator before) = true)
    {args : List String} (h : ∀ arg ∈ args, Reads inner before arg before) :
    Reads inner before (separator.intercalate args) before := by
  induction args with
  | nil => exact nil inner before
  | cons arg more ih =>
    rw [List.forall_mem_cons] at h
    cases more with
    | nil => exact h.1
    | cons next more =>
      rw [String.intercalate_cons_cons]
      exact h.1.link hseparator (ih h.2)

end Reads

/-! ## Names and literals -/

variable {inner : Bool}

theorem reads_quoted (q : Quote) (content : String) : Reads inner [] (Text.quoted q.char content) [] :=
  ⟨[], by decide, Reading.run_quoted inner q [] [] content⟩

theorem reads_ident (name : String) : Reads inner [] (Spelling.ident name) [] := reads_quoted .name name

/-- Without an `E` there is no keyword. -/
theorem Reading.keyword?_of_not_mem {word : List Char} (h : 'E' ∉ word) : keyword? word = none := by
  unfold keyword?
  rw [if_neg, if_neg]
  · rintro rfl
    exact h (by decide)
  · rintro rfl
    exact h (by decide)

theorem Numeral.reads {text : String} (h : Numeral text.toList) : Reads inner [] text [] := by
  have hcalm : ∀ c ∈ text.toList, Reading.isCalm c = true ∧ c ≠ 'E' := by
    intro c hc
    rcases h.chars c hc with hc | rfl
    · exact ⟨not_contains_of_class (by decide) hc, fun heq => absurd (heq ▸ hc) (by decide)⟩
    · decide
  obtain ⟨word, hrun, hsubset⟩ := Reading.run_calm inner [] [] fun c hc => (hcalm c hc).1
  exact ⟨word, Reading.keyword?_of_not_mem fun hmem => (hcalm _ (hsubset hmem)).2 rfl, hrun⟩

theorem Reading.keyword?_concat (word : List Char) {c : Char} (h : ['T', 'R'].contains c = false) :
    keyword? (word ++ [c]) = none := by
  unfold keyword?
  rw [if_neg, if_neg]
  · intro heq
    obtain rfl : 'R' = c := by simpa using congrArg List.getLast? heq.symm
    cases h
  · intro heq
    obtain rfl : 'T' = c := by simpa using congrArg List.getLast? heq.symm
    cases h

/-- Calm text is a piece if its last character belongs to no keyword. -/
theorem reads_calm {text : String} {front : List Char} {last : Char} (htext : text.toList = front ++ [last])
    (hcalm : ∀ c ∈ text.toList, Reading.isCalm c = true)
    (hlast : Reading.isWordPart last && !(['T', 'R'].contains last)) : Reads inner [] text [] := by
  obtain ⟨hpart, hlast⟩ := Bool.and_eq_true_iff.1 hlast
  rw [htext, List.forall_mem_append, List.forall_mem_singleton] at hcalm
  obtain ⟨word, hrun, -⟩ := Reading.run_calm inner [] [] hcalm.1
  have hstep := Reading.step_calm inner word [] hcalm.2
  rw [if_pos hpart] at hstep
  refine ⟨word ++ [last], Reading.keyword?_concat word (by simpa using hlast), ?_⟩
  rw [htext, Reading.run_append, hrun]
  exact Reading.run_cons hstep []

theorem isCalm_sourceName {stem name : String} (hstem : isName stem.toList = true) (h : IsSourceName stem name) :
    ∀ c ∈ name.toList, Reading.isCalm c = true := by
  obtain ⟨depth, rfl⟩ := h
  rw [String.toList_append, List.forall_mem_append]
  refine ⟨fun c hc => not_contains_of_class (by decide) (forall_isNamePart_of_isName hstem c hc), fun c hc => ?_⟩
  have hdigits : (toString depth).toList = Nat.toDigits 10 depth := Nat.toList_repr
  exact not_contains_of_class (by decide) (isNumeric_toDigits depth c (hdigits ▸ hc))

theorem reads_sourceName {stem name : String} (hstem : isName stem.toList = true) (h : IsSourceName stem name) :
    Reads inner [] name [] := by
  have hcalm := isCalm_sourceName hstem h
  obtain ⟨depth, rfl⟩ := h
  have hdigits : (toString depth).toList = Nat.toDigits 10 depth := Nat.toList_repr
  have hne : Nat.toDigits 10 depth ≠ [] := Nat.toDigits_ne_nil
  have hlast : ((Nat.toDigits 10 depth).getLast hne).isDigit = true :=
    Nat.isDigit_of_mem_toDigits (by decide) (by decide) (List.getLast_mem hne)
  have htext : (stem ++ toString depth).toList =
      stem.toList ++ (Nat.toDigits 10 depth).dropLast ++ [(Nat.toDigits 10 depth).getLast hne] := by
    rw [String.toList_append, hdigits, List.append_assoc, List.dropLast_append_getLast]
  refine reads_calm htext hcalm ?_
  · have hpart : Reading.isWordPart ((Nat.toDigits 10 depth).getLast hne) = true := by
      simp [Reading.isWordPart, Char.isAlphanum, hlast]
    have hnone : ['T', 'R'].contains ((Nat.toDigits 10 depth).getLast hne) = false := by
      rw [Bool.eq_false_iff]
      intro hmem
      have hletter := List.all_eq_true.1 (by decide : ['T', 'R'].all (fun c => !c.isDigit) = true) _
        (List.contains_iff_mem.1 hmem)
      simp [hlast] at hletter
    rw [hpart, hnone]
    rfl

/-- The name that a source has inside of a subquery over one of its groups. -/
theorem reads_groupAlias {stem name : String} (hstem : isName stem.toList = true) (h : IsSourceName stem name) :
    Reads inner [] (Spelling.groupAlias name) [] := by
  have htext : (Spelling.groupAlias name).toList = name.toList ++ ['_'] ++ ['g'] := by simp [Spelling.groupAlias]
  refine reads_calm htext ?_ (by decide)
  rw [Spelling.groupAlias, String.toList_append, List.forall_mem_append]
  exact ⟨isCalm_sourceName hstem h, List.all_eq_true.1 (by decide)⟩

theorem reads_literal (v : Value) : Reads inner [] (Spelling.literal v) [] := by
  cases v with
  | null => exact .of_isPiece (by decide)
  | integer n => exact (numeral_int n.toInt).reads
  | float x => exact (numeral_float x).reads
  | string s => exact reads_quoted .text s
  | date d =>
    rw [literal_date]
    exact reads_quoted .text d.text

/-! ## Operations -/

theorem reads_typeName (d : Dialect) (type : ColumnType) : Reads inner [] (d.typeName type) [] := by
  cases d <;> cases type <;> exact .of_isPiece (by decide)

theorem reads_convert {d : Dialect} {expr : Fragment} (h : Reads inner [] expr []) (how : Conversion) :
    Reads inner [] (Spelling.convert d expr how) [] := by
  have hcast : ∀ {e : Fragment}, Reads inner [] e [] → ∀ target,
      Reads inner [] ("CAST(" ++ e ++ " AS " ++ d.typeName target ++ ")") [] := by
    intro e he target
    have hopen : Reads inner [] ("CAST(" ++ e) [.other] := .lead (by decide) (he.inside [.other])
    exact (hopen.link (by decide) ((reads_typeName d target).inside [.other])).close (by decide)
  cases how with
  | same => exact h
  | cast target => exact hcast h target
  | parseDate =>
    have hopen : Reads inner [] ("date(" ++ expr) [.other] := .lead (by decide) (h.inside [.other])
    exact hopen.close (by decide)
  | dateCode target =>
    have hcode : Reads inner [] ("CAST(strftime('%Y%m%d', " ++ expr) [.other, .other] :=
      .lead (by decide) (h.inside [.other, .other])
    exact (hcode.link (by decide) ((reads_typeName d target).inside [.other])).close (by decide)
  | fromDateCode =>
    have hcode := hcast h .integer
    have hyear : Reads inner [] ("printf('%04d-%02d-%02d', " ++ _) [.other] :=
      .lead (by decide) (hcode.inside [.other])
    have hmonth := hyear.link (by decide : (isBreak " / 10000, (" && isLead [.other] " / 10000, (" _) = true)
      (hcode.inside [.other, .other])
    exact (hmonth.link (by decide) (hcode.inside [.other])).close (by decide)

theorem reads_branches {a : String} (ha : Reads inner [] a []) {found : List (Fragment × Fragment)}
    (h : ∀ branch ∈ found, Reads inner [] branch.1 [] ∧ Reads inner [] branch.2 []) :
    Reads inner [] (a ++ Spelling.branches found) [] := by
  induction found generalizing a with
  | nil => rwa [Spelling.branches, String.append_empty]
  | cons branch more ih =>
    obtain ⟨condition, value⟩ := branch
    rw [List.forall_mem_cons] at h
    have hbranch : Reads inner [] (a ++ " WHEN " ++ condition ++ " THEN " ++ value) [] :=
      (ha.link (by decide) h.1.1).link (by decide) h.1.2
    have := ih hbranch h.2
    simpa only [Spelling.branches, String.append_assoc] using this

theorem reads_case {conditions values : List Fragment} {otherwise : Fragment}
    (hconditions : ∀ a ∈ conditions, Reads inner [] a []) (hvalues : ∀ a ∈ values, Reads inner [] a [])
    (hotherwise : Reads inner [] otherwise []) : Reads inner [] (Spelling.case conditions values otherwise) [] := by
  unfold Spelling.case
  split
  · exact hotherwise
  · have hbranches : ∀ branch ∈ conditions.zip values, Reads inner [] branch.1 [] ∧ Reads inner [] branch.2 [] :=
      fun branch hmem => ⟨hconditions _ (List.of_mem_zip hmem).1, hvalues _ (List.of_mem_zip hmem).2⟩
    have hcase : Reads inner [] "CASE" [] := .of_isPiece (by decide)
    exact ((reads_branches hcase hbranches).link (by decide) hotherwise).close (by decide)

theorem reads_compare (c : Comparison) {left right : Fragment} (hleft : Reads inner [] left [])
    (hright : Reads inner [] right []) : Reads inner [] (Spelling.compare c left right) [] := by
  have hsymbol : Reads inner [] c.symbol [] := by cases c <;> exact .of_isPiece (by decide)
  have hopen : Reads inner [] ("(" ++ left) [.other] := .lead (by decide) (hleft.inside [.other])
  exact ((hopen.link (by decide) (hsymbol.inside [.other])).link (by decide) (hright.inside [.other])).close (by decide)

section Calls

variable {args : List Fragment}

theorem reads_infixed (hargs : ∀ arg ∈ args, Reads inner [] arg []) {operator : String}
    (h : (isBreak (" " ++ operator ++ " ") && isLead [] (" " ++ operator ++ " ") []) = true) :
    Reads inner [] (Spelling.infixed operator args) [] := by
  have hlist : Reads inner [] ((" " ++ operator ++ " ").intercalate args) [] := .intercalate h hargs
  exact (Reads.lead (by decide) (hlist.inside [.other])).close (by decide)

theorem reads_listed (hargs : ∀ arg ∈ args, Reads inner [] arg []) : Reads inner [] (", ".intercalate args) [] :=
  .intercalate (by decide) hargs

/-- The operands of a function that is no aggregate stand where the function does. -/
theorem reads_applied (hargs : ∀ arg ∈ args, Reads inner [] arg []) {name : String}
    (h : isLead [] (name ++ "(") [.other] = true) : Reads inner [] (Spelling.applied name args) [] :=
  (Reads.lead h ((reads_listed hargs).inside [.other])).close (by decide)

/-- The operands of an aggregate are inside of it. -/
theorem reads_aggregate (hargs : ∀ arg ∈ args, Reads true [] arg []) {name : String}
    (h : Reading.run false ⟨none, [], []⟩ (name ++ "(").toList = some ⟨none, [], [.operand]⟩) :
    Reads false [] (Spelling.applied name args) [] :=
  (Reads.append h ((reads_listed hargs).inside [.operand])).close (by decide)

theorem reads_call {f : Function} (hinner : f.isAggregate = true → inner = false)
    (hargs : ∀ arg ∈ args, Reads (inner || f.isAggregate) [] arg []) : Reads inner [] (Spelling.call f args) [] := by
  cases haggregate : f.isAggregate with
  | true =>
    obtain rfl := hinner haggregate
    rw [haggregate, Bool.false_or] at hargs
    cases f with
    | sum | mean | count | min | max => exact reads_aggregate hargs (by decide)
    | _ => cases haggregate
  | false =>
    rw [haggregate, Bool.or_false] at hargs
    have hlist := reads_listed hargs
    cases f with
    | sum | mean | count | min | max => cases haggregate
    | not => exact (Reads.lead (by decide) (hlist.inside [.other])).close (by decide)
    | negate => exact (Reads.lead (by decide) (hlist.inside [.other])).close (by decide)
    | add | subtract | multiply | divide | concat | and | or => exact reads_infixed hargs (by decide)
    | log | abs | exp | sqrt | pow => exact reads_applied hargs (by decide)

end Calls

theorem reads_orderBy {keys : List Fragment} (h : ∀ key ∈ keys, Reads inner [] key []) (ascending : Bool) :
    Reads inner [] (Spelling.orderBy keys ascending) [] := by
  refine .intercalate (by decide) ?_
  rw [List.forall_mem_map]
  intro key hkey
  refine (h key hkey).close ?_
  cases ascending <;> decide

theorem reads_rowNumber {order : Option Fragment} (h : ∀ o, order = some o → Reads true [] o []) :
    Reads inner [] (Spelling.rowNumber order) [] := by
  cases order with
  | none => exact .of_isPiece (by decide)
  | some o => exact (Reads.lead (by decide) ((h o rfl).inside [.operand, .other])).close (by decide)

theorem reads_quantile {expr : Fragment} (h : Reads true [] expr []) (level : Float) :
    Reads false [] (Spelling.quantile expr level) [] := by
  have hlevel : Reads true [] (Value.float level).text [] := (numeral_float level).reads
  have hopen : Reads false [] ("percentile_cont(" ++ (Value.float level).text) [.operand] :=
    .append (by decide) (hlevel.inside [.operand])
  exact (hopen.link (by decide) (h.inside [.operand])).close (by decide)

/-! ## Aggregates elsewhere -/

theorem reads_broadcast {aggregate : Fragment} (h : Reads inner [] aggregate []) :
    Reads inner [] (Spelling.broadcast aggregate) [] :=
  h.close (by decide)

section Subqueries

variable {aggregate source : Fragment} (h : Reads false [] aggregate []) (hsource : Reads false [] source [])

include h hsource

/-- Inside of a subquery, aggregates stand as they do outside of all aggregates. -/
theorem reads_scalarSubquery : Reads inner [] (Spelling.scalarSubquery aggregate source) [] := by
  have hopen : Reads inner [] ("(SELECT " ++ aggregate) [.subquery] := .lead (by decide) (h.inside [.subquery])
  exact (hopen.link (by decide) (hsource.inside [.subquery])).close (by decide)

omit h hsource in
theorem reads_same (d : Dialect) {left right : Fragment} (hleft : Reads inner [] left [])
    (hright : Reads inner [] right []) : Reads inner [] (Spelling.same d left right) [] := by
  have hopen : Reads inner [] ("(" ++ left) [.other] := .lead (by decide) (hleft.inside [.other])
  cases d with
  | sqlite => exact (hopen.link (by decide) (hright.inside [.other])).close (by decide)
  | ansi => exact (hopen.link (by decide) (hright.inside [.other])).close (by decide)

theorem reads_groupSubquery (d : Dialect) (hinside : Reads false [] (Spelling.groupAlias source) [])
    {keys : List Fragment} (hkeys : ∀ key ∈ keys, Reads false [] key []) :
    Reads inner [] (Spelling.groupSubquery d aggregate source keys) [] := by
  have hcondition : ∀ condition ∈ keys.map fun key =>
      Spelling.same d (Spelling.groupAlias source ++ "." ++ key) (source ++ "." ++ key),
      Reads false [] condition [] := by
    rw [List.forall_mem_map]
    intro key hkey
    exact reads_same d (hinside.link (by decide) (hkeys key hkey)) (hsource.link (by decide) (hkeys key hkey))
  have hopen : Reads inner [] ("(SELECT " ++ aggregate) [.subquery] := .lead (by decide) (h.inside [.subquery])
  have hfrom := (hopen.link (by decide : (isBreak " FROM " && isLead [.subquery] " FROM " [.subquery]) = true)
    (hsource.inside [.subquery])).link (by decide : (isBreak " AS " && isLead [.subquery] " AS " [.subquery]) = true)
    (hinside.inside [.subquery])
  have hwhere : Reads false [] (" AND ".intercalate _) [] := .intercalate (by decide) hcondition
  exact (hfrom.link (by decide) (hwhere.inside [.subquery])).close (by decide)

end Subqueries

/-! ## Terms -/

theorem SortOrder.reads (o : SortOrder) : Reads inner [] o.text [] := by
  refine reads_orderBy ?_ o.ascending
  rw [List.forall_mem_map]
  exact fun key _ => reads_ident key

mutual

/-- The text of a term that nests its aggregates is a piece. -/
theorem Term.Nests.reads (d : Dialect) {stem : String} {inner : Bool} (hstem : isName stem.toList = true) {t : Term}
    (h : t.Nests stem inner) : Reads inner [] (t.text d) [] := by
  cases t with
  | column name => exact reads_ident name
  | literal value => exact reads_literal value
  | convert how operand => exact reads_convert (Nests.reads d hstem (t := operand) h) how
  | compare how left right => exact reads_compare how (Nests.reads d hstem (t := left) h.1) (h.2.reads d hstem)
  | case conditions values otherwise =>
    exact reads_case (AllNest.reads d hstem h.1) (AllNest.reads d hstem h.2.1) (h.2.2.reads d hstem)
  | call function args =>
    have hargs : Term.AllNest stem (inner || function.isAggregate) args := h.2
    exact reads_call h.1 (AllNest.reads d hstem hargs)
  | rowNumber order =>
    refine reads_rowNumber fun text htext => ?_
    obtain ⟨o, -, rfl⟩ := Option.map_eq_some_iff.1 htext
    exact o.reads
  | quantile operand level =>
    obtain ⟨rfl, hoperand⟩ : inner = false ∧ operand.Nests stem true := h
    exact reads_quantile (hoperand.reads d hstem) level
  | broadcast aggregate => exact reads_broadcast (Nests.reads d hstem (t := aggregate) h)
  | overSource aggregate source =>
    exact reads_scalarSubquery (Nests.reads d hstem (t := aggregate) h.1) (reads_sourceName hstem h.2)
  | overGroup aggregate source keys =>
    refine reads_groupSubquery (Nests.reads d hstem (t := aggregate) h.1) (reads_sourceName hstem h.2) d
      (reads_groupAlias hstem h.2) ?_
    rw [List.forall_mem_map]
    exact fun key _ => reads_ident key

theorem Term.AllNest.reads (d : Dialect) {stem : String} {inner : Bool} (hstem : isName stem.toList = true)
    {terms : List Term} (h : Term.AllNest stem inner terms) : ∀ a ∈ Term.texts d terms, Reads inner [] a [] := by
  match terms with
  | [] =>
    rw [Term.texts]
    exact List.forall_mem_nil _
  | term :: more =>
    rw [Term.texts, List.forall_mem_cons]
    exact ⟨h.1.reads d hstem, AllNest.reads d hstem h.2⟩

end

/-! ## Frames -/

namespace Frame

variable {δ : Type} [Database δ] {f : Frame}

/-- Whatever is assigned, dropped, sorted and grouped, and whatever formulas are evaluated over the frame, inside or
    outside of `by`: in the terms of its statement and of its columns, aggregates are inside of others only in
    subqueries, and the terms that columns have inside of aggregates have all their aggregates in subqueries. With a
    plain name as the beginning of the names of sources, the texts of the terms show it in every dialect. -/
theorem Built.aggregates_nest (h : f.Built δ) :
    f.Composes δ (Term.Nests f.source.options.temporaryAlias) ∧
      (isName f.source.options.temporaryAlias.toList = true →
        ∀ d, f.Composes δ fun inner t => Separates inner (t.text d)) := by
  have hcomposes : f.Composes δ (Term.Nests _) := h.nests.composes
  refine ⟨hcomposes, fun hstem d => hcomposes.imp fun inner t ht => (ht.reads d hstem).separates⟩

/-- An aggregate of an aggregate, inside of `by` and over the groups. -/
theorem Built.aggregates_nest_groups :
    let formula := Expr.call "sum" [.call "mean" [.leaf "x"]]
    let session : Session Store := ⟨⟨[⟨"t", [⟨"k", "TEXT"⟩, ⟨"x", "INTEGER"⟩], [[.text "a", .integer 1]]⟩]⟩, 0⟩
    ∃ (f : Frame) (c : Column), f.Built Store ∧ isName f.source.options.temporaryAlias.toList = true ∧
      (backend.eval formula .rows { f with groupKeys := none } f session).1 = .ok (.column c) ∧
      f.query.terms.map (Term.text .sqlite) = ["\"k\"", "sum((SELECT avg(\"x\") FROM _src0 AS _src0_g WHERE " ++
        "(_src0_g.\"k\" IS _src0.\"k\")))", "\"k\"", "\"k\"", "\"x\""] ∧
      c.fragment = "sum((SELECT avg(\"x\") FROM _src1)) OVER ()" ∧
      f.Composes Store (Term.Nests f.source.options.temporaryAlias) ∧
      f.Composes Store fun inner t => Separates inner (t.text .sqlite) := by
  intro formula session
  let t := ofOutputs ⟨0, .sqlite, .table "t", 0, none, .default⟩ [⟨"k", .string, none⟩, ⟨"x", .integer, none⟩]
  have ht : (Frame.ofTable .sqlite "t" .default session).1 = .ok t := rfl
  have hformulas : ∃ (f : Frame) (c : Column),
      (t.group ["k"] ([("x", formula)].map backend.reducer) session).1 = .ok f ∧
      isName f.source.options.temporaryAlias.toList = true ∧
      (backend.eval formula .rows { f with groupKeys := none } f session).1 = .ok (.column c) ∧
      f.query.terms.map (Term.text .sqlite) = ["\"k\"", "sum((SELECT avg(\"x\") FROM _src0 AS _src0_g WHERE " ++
        "(_src0_g.\"k\" IS _src0.\"k\")))", "\"k\"", "\"k\"", "\"x\""] ∧
      c.fragment = "sum((SELECT avg(\"x\") FROM _src1)) OVER ()" :=
    ⟨_, _, rfl, by decide +kernel, rfl, by decide +kernel, by decide +kernel⟩
  obtain ⟨f, c, hf, hname, hc, hterms, hfragment⟩ := hformulas
  have hbuilt : f.Built Store := .group (.ofTable ht) hf
  obtain ⟨hcomposes, htexts⟩ := hbuilt.aggregates_nest
  exact ⟨f, c, hbuilt, hname, hc, hterms, hfragment, hcomposes, htexts hname .sqlite⟩

end Frame

end Tabular.Sql
