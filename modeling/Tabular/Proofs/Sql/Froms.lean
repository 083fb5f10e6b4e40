-- SUMMARY: Which sources SQL text names behind FROM: for the text of a term, the sources of its subqueries.
import Tabular.Proofs.Formula.Printing
import Tabular.Proofs.Sql.Sources
import Tabular.Proofs.Sql.Spelling

/-!
# Sources in SQL text

SQL text is read word by word. Blanks, commas and parentheses end a word, and a token between quotes is a word of its
own whatever it contains. The word behind `FROM` names a source, unless `FROM` stands behind `DISTINCT`, where it is
part of a comparison.

In the text of a term, all these words are names that its subqueries were composed with.
-/

namespace Tabular.Sql

/-! ## Reading -/

/-- What the word before tells of a word. -/
inductive Expected where
  | anything
  /-- Behind `FROM`. -/
  | source
  /-- Behind `DISTINCT`. -/
  | comparison
  deriving DecidableEq

/-- What is expected behind a word that names no source. -/
def Expected.behind (word : List Char) : Expected :=
  if word = "FROM".toList then .source else if word = "DISTINCT".toList then .comparison else .anything

/-- Where the reading of a text stands. -/
structure Cursor where
  /-- The quote of the token that is being passed. -/
  quote : Option Char
  /-- What has been read of the current word; of a token between quotes, the quote. -/
  word : List Char
  expected : Expected
  /-- The words behind `FROM` so far. -/
  found : List (List Char)
  deriving DecidableEq

namespace Cursor

def start : Cursor := ⟨none, [], .anything, []⟩

/-- End the current word, if there is one. -/
def settle (r : Cursor) : Cursor :=
  if r.word = [] then r
  else
    match r.expected with
    | .anything => ⟨r.quote, [], .behind r.word, r.found⟩
    | .source => ⟨r.quote, [], .anything, r.found ++ [r.word]⟩
    | .comparison => ⟨r.quote, [], .anything, r.found⟩

/-- The characters between words. -/
def isBreak (c : Char) : Bool := [' ', ',', '(', ')'].contains c

/-- Read one more character. -/
def step (r : Cursor) (c : Char) : Cursor :=
  match r.quote with
  | some q => if c = q then { r with quote := none } else r
  | none =>
    if (Quote.ofChar? c).isSome then { r.settle with quote := some c, word := [c] }
    else if isBreak c then r.settle
    else { r with word := r.word ++ [c] }

def run (r : Cursor) (text : List Char) : Cursor := text.foldl step r

end Cursor

/-- The words behind `FROM` in a text; none if the text ends between quotes, or behind a keyword that needs another
    word. -/
def sourcesIn? (text : List Char) : Option (List (List Char)) :=
  match (Cursor.start.run text).settle with
  | ⟨none, _, .anything, found⟩ => some found
  | _ => none

example : sourcesIn? "(SELECT avg(\"x FROM t\") FROM _src0 AS _src0_g WHERE (_src0_g.\"k\" IS _src0.\"k\"))".toList =
    some ["_src0".toList] := by decide +kernel

example : sourcesIn? "sum(x) FROM ".toList = none := by decide

namespace Cursor

/-! ### Words found before -/

/-- The same place in a text in front of which some words were found. -/
def after (r : Cursor) (found : List (List Char)) : Cursor := { r with found := found ++ r.found }

theorem settle_after (r : Cursor) (found : List (List Char)) : (r.after found).settle = r.settle.after found := by
  unfold settle after
  split
  · rfl
  · dsimp only
    split
    · rfl
    · rw [List.append_assoc]
    · rfl

theorem step_after (r : Cursor) (found : List (List Char)) (c : Char) :
    (r.after found).step c = (r.step c).after found := by
  obtain ⟨quote, word, expected, more⟩ := r
  cases quote with
  | some q => by_cases hc : c = q <;> simp [step, after, hc]
  | none =>
    simp only [step]
    split
    · rename_i q heq
      cases heq
    · rw [settle_after]
      split
      · rfl
      · split <;> rfl

theorem run_after (r : Cursor) (found : List (List Char)) (text : List Char) :
    (r.after found).run text = (r.run text).after found := by
  induction text generalizing r with
  | nil => rfl
  | cons c text ih => exact (congrArg (·.run text) (step_after r found c)).trans (ih (r.step c))

theorem run_append (r : Cursor) (a b : List Char) : r.run (a ++ b) = (r.run a).run b := List.foldl_append

/-! ### Ended words -/

theorem word_settle (r : Cursor) : r.settle.word = [] := by
  unfold settle
  split
  · assumption
  · split <;> rfl

theorem settle_settle (r : Cursor) : r.settle.settle = r.settle := by
  rw [settle, if_pos r.word_settle]

theorem quote_settle (r : Cursor) : r.settle.quote = r.quote := by
  unfold settle
  split
  · rfl
  · split <;> rfl

/-- The character ends the word before it. -/
def ends (c : Char) : Bool := (Quote.ofChar? c).isSome || isBreak c

theorem step_settle {r : Cursor} (hquote : r.quote = none) {c : Char} (hc : ends c = true) :
    r.settle.step c = r.step c := by
  unfold step
  rw [quote_settle, hquote, settle_settle]
  dsimp only
  split
  · rfl
  · rename_i hnone
    rw [ends, Bool.or_eq_true, or_iff_right hnone] at hc
    rw [if_pos hc, if_pos hc]

/-- A character of a word. -/
def isPlain (c : Char) : Bool := !(['"', '\'', ' ', ',', '(', ')'].contains c)

theorem step_plain {word : List Char} {expected : Expected} {found : List (List Char)} {c : Char}
    (hc : isPlain c = true) : step ⟨none, word, expected, found⟩ c = ⟨none, word ++ [c], expected, found⟩ := by
  simp only [isPlain, Bool.not_eq_true', List.contains_eq_mem, decide_eq_false_iff_not, List.mem_cons,
    List.not_mem_nil, or_false, not_or] at hc
  obtain ⟨hname, htext, hbreak⟩ := hc
  simp [step, Quote.ofChar?, hname, htext, isBreak, hbreak]

theorem run_plain {word : List Char} {expected : Expected} {found : List (List Char)} {text : List Char}
    (h : ∀ c ∈ text, isPlain c = true) :
    run ⟨none, word, expected, found⟩ text = ⟨none, word ++ text, expected, found⟩ := by
  induction text generalizing word with
  | nil => rw [List.append_nil]; rfl
  | cons c text ih =>
    rw [List.forall_mem_cons] at h
    rw [run, List.foldl_cons, step_plain h.1]
    exact (ih h.2).trans (by rw [List.append_assoc]; rfl)

end Cursor

/-! ## Pieces of text -/

theorem sourcesIn?_eq_some {text : List Char} {found : List (List Char)} :
    sourcesIn? text = some found ↔ (Cursor.start.run text).settle = ⟨none, [], .anything, found⟩ := by
  have hword := (Cursor.start.run text).word_settle
  unfold sourcesIn?
  generalize (Cursor.start.run text).settle = r at hword
  obtain ⟨quote, word, expected, more⟩ := r
  obtain rfl : word = [] := hword
  cases quote <;> cases expected <;> simp

theorem sourcesIn?_nil : sourcesIn? [] = some [] := by decide

/-- Text that begins with the end of a word goes on where the text before it has ended. -/
theorem run_append_ends {a b : List Char} {found : List (List Char)} (ha : sourcesIn? a = some found)
    (hb : b.head?.any Cursor.ends = true) :
    Cursor.start.run (a ++ b) = (Cursor.start.run b).after found := by
  rw [sourcesIn?_eq_some] at ha
  have hquote : (Cursor.start.run a).quote = none := by rw [← Cursor.quote_settle, ha]
  obtain ⟨c, hc, hends⟩ := (Option.any_eq_true _ _).1 hb
  cases b with
  | nil => cases hc
  | cons d rest =>
    obtain rfl := Option.some.inj hc
    have hstep := Cursor.step_settle hquote hends
    rw [Cursor.run_append, Cursor.run, List.foldl_cons, ← hstep, ha]
    have hafter : (⟨none, [], .anything, found⟩ : Cursor) = Cursor.start.after found := by
      rw [Cursor.after, Cursor.start, List.append_nil]
    rw [hafter, ← Cursor.run_after]
    rfl

theorem sourcesIn?_append {a b : List Char} {found more : List (List Char)} (ha : sourcesIn? a = some found)
    (hb : sourcesIn? b = some more) (hends : b.head?.any Cursor.ends = true) :
    sourcesIn? (a ++ b) = some (found ++ more) := by
  rw [sourcesIn?_eq_some] at hb ⊢
  rw [run_append_ends ha hends, Cursor.settle_after, hb]
  rfl

/-- What is read before text that stands at a start does not matter. -/
theorem sourcesIn?_start_append {a : List Char} (ha : Cursor.start.run a = Cursor.start) (b : List Char) :
    sourcesIn? (a ++ b) = sourcesIn? b := by
  rw [sourcesIn?, Cursor.run_append, ha]
  rfl

/-- The words behind which something is expected. -/
def keywords : List (List Char) := ["FROM".toList, "DISTINCT".toList]

theorem Expected.behind_of_not_mem {word : List Char} (h : word ∉ keywords) : behind word = .anything := by
  obtain ⟨hfrom, hdistinct⟩ : word ≠ "FROM".toList ∧ word ≠ "DISTINCT".toList := by simpa [keywords] using h
  rw [behind, if_neg hfrom, if_neg hdistinct]

/-- A plain word is no source where none is expected. -/
theorem sourcesIn?_plain {text : List Char} (h : ∀ c ∈ text, Cursor.isPlain c = true) (hword : text ∉ keywords) :
    sourcesIn? text = some [] := by
  rw [sourcesIn?_eq_some, Cursor.start, Cursor.run_plain h, List.nil_append]
  unfold Cursor.settle
  split
  · rename_i hnil
    obtain rfl : text = [] := hnil
    rfl
  · rw [Expected.behind_of_not_mem hword]

/-- The name behind `FROM` is found. -/
theorem sourcesIn?_from {a name : List Char} {found : List (List Char)} (ha : sourcesIn? a = some found)
    (hname : ∀ c ∈ name, Cursor.isPlain c = true) (hne : name ≠ []) :
    sourcesIn? (a ++ " FROM ".toList ++ name) = some (found ++ [name]) := by
  have hfrom : Cursor.start.run " FROM ".toList = ⟨none, [], .source, []⟩ := by decide
  rw [sourcesIn?_eq_some, Cursor.run_append, run_append_ends ha (by decide), hfrom]
  have hrun : (Cursor.after ⟨none, [], .source, []⟩ found).run name = ⟨none, name, .source, found⟩ := by
    rw [Cursor.after, Cursor.run_plain hname, List.append_nil]
    rfl
  rw [hrun, Cursor.settle, if_neg hne]

/-- Inside of a token that stands behind no `FROM`. -/
def Cursor.inside (q : Quote) : Cursor := ⟨some q.char, [q.char], .anything, []⟩

theorem Cursor.run_double (q : Quote) (content : List Char) :
    (inside q).run (Text.double q.char content) = inside q := by
  induction content with
  | nil => rfl
  | cons c content ih =>
    unfold Text.double
    split
    · rename_i hc
      obtain rfl : c = q.char := by simpa using hc
      -- The token ends at the first quote and begins again at the second.
      have hreopen : ((inside q).step q.char).step q.char = inside q := by cases q <;> decide
      rw [run, List.foldl_cons, List.foldl_cons, hreopen]
      exact ih
    · rename_i hc
      have hstep : (inside q).step c = inside q := by simp_all [step, inside]
      rw [run, List.foldl_cons, hstep]
      exact ih

/-- A token between quotes names no source, unless it stands behind `FROM`. -/
theorem sourcesIn?_quoted (q : Quote) (content : String) :
    sourcesIn? (Text.quoted q.char content).toList = some [] := by
  have hopen : Cursor.start.step q.char = Cursor.inside q := by cases q <;> decide
  have hclose : (Cursor.run (Cursor.inside q) [q.char]).settle = Cursor.start := by cases q <;> decide
  rw [sourcesIn?_eq_some, Text.quoted, String.toList_ofList, List.cons_append, Cursor.run, List.foldl_cons, hopen]
  refine Eq.trans ?_ hclose
  rw [← Cursor.run, Cursor.run_append, Cursor.run_double]

/-! ### Pieces that name known sources -/

/-- The text can be read to its end, and every source in it is known. -/
def Finds (P : String → Prop) (text : String) : Prop :=
  ∃ found, sourcesIn? text.toList = some found ∧ ∀ name ∈ found, P (String.ofList name)

/-- Constant text behind which a piece may begin. -/
def isOpening (text : String) : Bool := decide (Cursor.start.run text.toList = Cursor.start)

/-- Constant text that ends the word before it. -/
def isEnding (text : String) : Bool := text.toList.head?.any Cursor.ends

/-- Constant text without sources. -/
def isSourceless (text : String) : Bool := decide (sourcesIn? text.toList = some [])

namespace Finds

variable {P : String → Prop} {a b c : String}

theorem nil (P : String → Prop) : Finds P "" := ⟨[], sourcesIn?_nil, List.forall_mem_nil _⟩

theorem of_isSourceless (h : isSourceless a = true) : Finds P a := ⟨[], of_decide_eq_true h, List.forall_mem_nil _⟩

theorem append (ha : Finds P a) (hb : Finds P b) (hends : isEnding b = true) : Finds P (a ++ b) := by
  obtain ⟨found, hfound, hknown⟩ := ha
  obtain ⟨more, hmore, hknown'⟩ := hb
  refine ⟨found ++ more, ?_, List.forall_mem_append.2 ⟨hknown, hknown'⟩⟩
  rw [String.toList_append]
  exact sourcesIn?_append hfound hmore hends

/-- A piece behind constant text. -/
theorem lead (ha : isOpening a = true) (hb : Finds P b) : Finds P (a ++ b) := by
  obtain ⟨found, hfound, hknown⟩ := hb
  refine ⟨found, ?_, hknown⟩
  rw [String.toList_append, sourcesIn?_start_append (of_decide_eq_true ha), hfound]

/-- A piece in front of constant text. -/
theorem close (ha : Finds P a) (hb : (isEnding b && isSourceless b) = true) : Finds P (a ++ b) := by
  obtain ⟨hends, hless⟩ := Bool.and_eq_true_iff.1 hb
  exact ha.append (of_isSourceless hless) hends

/-- Two pieces with constant text between them. -/
theorem link (ha : Finds P a) (hb : (isEnding b && isOpening b) = true) (hc : Finds P c) : Finds P (a ++ b ++ c) := by
  obtain ⟨hends, hopen⟩ := Bool.and_eq_true_iff.1 hb
  have hhead : isEnding (b ++ c) = true := by
    unfold isEnding at hends ⊢
    obtain ⟨d, hd, hends⟩ := (Option.any_eq_true _ _).1 hends
    rw [String.toList_append, List.head?_append, hd]
    exact hends
  rw [String.append_assoc]
  exact ha.append (hc.lead hopen) hhead

theorem intercalate {separator : String} (hseparator : (isEnding separator && isOpening separator) = true)
    {args : List String} (h : ∀ arg ∈ args, Finds P arg) : Finds P (separator.intercalate args) := by
  induction args with
  | nil => exact nil P
  | cons arg more ih =>
    rw [List.forall_mem_cons] at h
    cases more with
    | nil => exact h.1
    | cons next more =>
      rw [String.intercalate_cons_cons]
      exact h.1.link hseparator (ih h.2)

/-- The source behind `FROM` is known. -/
theorem source (ha : Finds P a) {name : String} (hname : ∀ c ∈ name.toList, Cursor.isPlain c = true)
    (hne : name ≠ "") (h : P name) : Finds P (a ++ " FROM " ++ name) := by
  obtain ⟨found, hfound, hknown⟩ := ha
  refine ⟨found ++ [name.toList], ?_, ?_⟩
  · rw [String.toList_append, String.toList_append]
    exact sourcesIn?_from hfound hname (by simpa using hne)
  · rw [List.forall_mem_append, List.forall_mem_singleton, String.ofList_toList]
    exact ⟨hknown, h⟩

end Finds

variable {P : String → Prop}

/-! ## Names and literals -/

theorem finds_quoted (q : Quote) (content : String) : Finds P (Text.quoted q.char content) :=
  ⟨[], sourcesIn?_quoted q content, List.forall_mem_nil _⟩

theorem finds_ident (name : String) : Finds P (Spelling.ident name) := finds_quoted .name name

theorem finds_plain {text : String} (h : ∀ c ∈ text.toList, Cursor.isPlain c = true) (hword : text.toList ∉ keywords) :
    Finds P text := ⟨[], sourcesIn?_plain h hword, List.forall_mem_nil _⟩

theorem Numeral.finds {text : String} (h : Numeral text.toList) : Finds P text := by
  refine finds_plain (fun c hc => ?_) fun hmem => ?_
  · rcases h.chars c hc with hc | rfl
    · exact not_contains_of_class (by decide) hc
    · decide
  · rcases List.mem_pair.1 hmem with heq | heq
    · exact absurd (h.chars 'R' (by rw [heq]; decide)) (by decide)
    · exact absurd (h.chars 'D' (by rw [heq]; decide)) (by decide)

theorem finds_literal (v : Value) : Finds P (Spelling.literal v) := by
  cases v with
  | null => exact .of_isSourceless (by decide)
  | integer n => exact (numeral_int n.toInt).finds
  | float x => exact (numeral_float x).finds
  | string s => exact finds_quoted .text s
  | date d =>
    rw [literal_date]
    exact finds_quoted .text d.text

/-! ## Operations -/

theorem finds_typeName (d : Dialect) (type : ColumnType) : Finds P (d.typeName type) := by
  cases d <;> cases type <;> exact .of_isSourceless (by decide)

theorem finds_convert {d : Dialect} {expr : Fragment} (h : Finds P expr) (how : Conversion) :
    Finds P (Spelling.convert d expr how) := by
  have hcast : ∀ {e : Fragment}, Finds P e → ∀ target,
      Finds P ("CAST(" ++ e ++ " AS " ++ d.typeName target ++ ")") := by
    intro e he target
    have hopen : Finds P ("CAST(" ++ e) := .lead (by decide) he
    exact (hopen.link (by decide) (finds_typeName d target)).close (by decide)
  cases how with
  | same => exact h
  | cast target => exact hcast h target
  | parseDate =>
    have hopen : Finds P ("date(" ++ expr) := .lead (by decide) h
    exact hopen.close (by decide)
  | dateCode target =>
    have hcode : Finds P ("CAST(strftime('%Y%m%d', " ++ expr) := .lead (by decide) h
    exact (hcode.link (by decide) (finds_typeName d target)).close (by decide)
  | fromDateCode =>
    have hcode := hcast h .integer
    have hyear : Finds P ("printf('%04d-%02d-%02d', " ++ _) := .lead (by decide) hcode
    exact ((hyear.link (by decide) hcode).link (by decide) hcode).close (by decide)

theorem finds_branches {a : String} (ha : Finds P a) {branches : List (Fragment × Fragment)}
    (h : ∀ branch ∈ branches, Finds P branch.1 ∧ Finds P branch.2) : Finds P (a ++ Spelling.branches branches) := by
  induction branches generalizing a with
  | nil => rwa [Spelling.branches, String.append_empty]
  | cons branch more ih =>
    obtain ⟨condition, value⟩ := branch
    rw [List.forall_mem_cons] at h
    have hbranch : Finds P (a ++ " WHEN " ++ condition ++ " THEN " ++ value) :=
      (ha.link (by decide) h.1.1).link (by decide) h.1.2
    have := ih hbranch h.2
    simpa only [Spelling.branches, String.append_assoc] using this

theorem finds_case {conditions values : List Fragment} {otherwise : Fragment}
    (hconditions : ∀ a ∈ conditions, Finds P a) (hvalues : ∀ a ∈ values, Finds P a) (hotherwise : Finds P otherwise) :
    Finds P (Spelling.case conditions values otherwise) := by
  unfold Spelling.case
  split
  · exact hotherwise
  · have hbranches : ∀ branch ∈ conditions.zip values, Finds P branch.1 ∧ Finds P branch.2 :=
      fun branch hmem => ⟨hconditions _ (List.of_mem_zip hmem).1, hvalues _ (List.of_mem_zip hmem).2⟩
    have hcase : Finds P "CASE" := .of_isSourceless (by decide)
    exact ((finds_branches hcase hbranches).link (by decide) hotherwise).close (by decide)

theorem finds_compare (c : Comparison) {left right : Fragment} (hleft : Finds P left) (hright : Finds P right) :
    Finds P (Spelling.compare c left right) := by
  have hsymbol : Finds P c.symbol := by cases c <;> exact .of_isSourceless (by decide)
  have hopen : Finds P ("(" ++ left) := .lead (by decide) hleft
  exact ((hopen.link (by decide) hsymbol).link (by decide) hright).close (by decide)

section Calls

variable {args : List Fragment} (hargs : ∀ arg ∈ args, Finds P arg)

include hargs

theorem finds_infixed {operator : String}
    (h : (isEnding (" " ++ operator ++ " ") && isOpening (" " ++ operator ++ " ")) = true) :
    Finds P (Spelling.infixed operator args) :=
  (Finds.lead (by decide) (.intercalate h hargs)).close (by decide)

theorem finds_listed : Finds P (", ".intercalate args) := .intercalate (by decide) hargs

theorem finds_applied {name : String} (h : isOpening (name ++ "(") = true) : Finds P (Spelling.applied name args) :=
  (Finds.lead h (finds_listed hargs)).close (by decide)

theorem finds_call (f : Function) : Finds P (Spelling.call f args) := by
  have hlist := finds_listed hargs
  cases f with
  | not => exact (Finds.lead (by decide) hlist).close (by decide)
  | negate => exact (Finds.lead (by decide) hlist).close (by decide)
  | add | subtract | multiply | divide | concat | and | or => exact finds_infixed hargs (by decide)
  | log | abs | exp | sqrt | pow | sum | mean | count | min | max => exact finds_applied hargs (by decide)

end Calls

theorem SortOrder.finds (o : SortOrder) : Finds P o.text := by
  refine .intercalate (by decide) ?_
  rw [List.forall_mem_map, List.forall_mem_map]
  intro key _
  refine (finds_ident key).close ?_
  cases o.ascending <;> decide

theorem finds_rowNumber (order : Option SortOrder) : Finds P (Spelling.rowNumber (order.map SortOrder.text)) := by
  cases order with
  | none => exact .of_isSourceless (by decide)
  | some o => exact (Finds.lead (by decide) o.finds).close (by decide)

theorem finds_quantile {expr : Fragment} (h : Finds P expr) (level : Float) :
    Finds P (Spelling.quantile expr level) := by
  have hlevel : Finds P (Value.float level).text := (numeral_float level).finds
  have hopen : Finds P ("percentile_cont(" ++ (Value.float level).text) := .lead (by decide) hlevel
  exact (hopen.link (by decide) h).close (by decide)

/-! ## Aggregates elsewhere -/

theorem finds_broadcast {aggregate : Fragment} (h : Finds P aggregate) : Finds P (Spelling.broadcast aggregate) :=
  h.close (by decide)

/-- What a source can be called: a word that is no token between quotes. -/
structure IsSourceWord (name : String) : Prop where
  plain : ∀ c ∈ name.toList, Cursor.isPlain c = true
  ne_empty : name ≠ ""

/-- A source and more text are no keyword if keywords end otherwise. -/
theorem IsSourceWord.finds_append {name suffix : String} (h : IsSourceWord name)
    (hplain : suffix.toList.all Cursor.isPlain = true)
    (hlast : suffix.toList.getLast?.any (fun c => !(['M', 'T'].contains c)) = true) : Finds P (name ++ suffix) := by
  obtain ⟨last, hlast, hother⟩ := (Option.any_eq_true _ _).1 hlast
  refine finds_plain ?_ fun hmem => ?_
  · rw [String.toList_append, List.forall_mem_append]
    exact ⟨h.plain, List.all_eq_true.1 hplain⟩
  · have hend : (name ++ suffix).toList.getLast? = some last := by
      rw [String.toList_append, List.getLast?_append, hlast]
      rfl
    rcases List.mem_pair.1 hmem with heq | heq
    · obtain rfl : 'M' = last := by simpa [heq] using hend
      cases hother
    · obtain rfl : 'T' = last := by simpa [heq] using hend
      cases hother

theorem isEnding_quoted (q : Quote) (content : String) : isEnding (Text.quoted q.char content) = true := by
  have hends : Cursor.ends q.char = true := by cases q <;> decide
  simpa [isEnding, Text.quoted] using hends

section Subqueries

variable {aggregate : Fragment} {source : String} (h : Finds P aggregate) (hword : IsSourceWord source)
  (hsource : P source)

include h hword hsource

/-- A subquery opens with its aggregate and the source. -/
theorem finds_from : Finds P ("(SELECT " ++ aggregate ++ " FROM " ++ source) :=
  (Finds.lead (by decide) h).source hword.plain hword.ne_empty hsource

theorem finds_scalarSubquery : Finds P (Spelling.scalarSubquery aggregate source) :=
  (finds_from h hword hsource).close (by decide)

omit h hword hsource in
theorem finds_same (d : Dialect) {left right : Fragment} (hleft : Finds P left) (hright : Finds P right) :
    Finds P (Spelling.same d left right) := by
  have hopen : Finds P ("(" ++ left) := .lead (by decide) hleft
  cases d with
  | sqlite => exact (hopen.link (by decide) hright).close (by decide)
  | ansi => exact (hopen.link (by decide) hright).close (by decide)

theorem finds_groupSubquery (d : Dialect) (keys : List String) :
    Finds P (Spelling.groupSubquery d aggregate source (keys.map Spelling.ident)) := by
  have hinside : Finds P (Spelling.groupAlias source) := hword.finds_append (by decide) (by decide)
  have hkey : ∀ {a : Fragment}, Finds P (a ++ ".") → ∀ key, Finds P (a ++ "." ++ Spelling.ident key) :=
    fun ha key => ha.append (finds_ident key) (isEnding_quoted .name key)
  have hcondition : ∀ condition ∈ (keys.map Spelling.ident).map fun key =>
      Spelling.same d (Spelling.groupAlias source ++ "." ++ key) (source ++ "." ++ key), Finds P condition := by
    rw [List.forall_mem_map, List.forall_mem_map]
    intro key _
    refine finds_same d (hkey ?_ key) (hkey (hword.finds_append (by decide) (by decide)) key)
    rw [Spelling.groupAlias, String.append_assoc]
    exact hword.finds_append (by decide) (by decide)
  have hfrom := (finds_from h hword hsource).link (by decide : (isEnding " AS " && isOpening " AS ") = true) hinside
  exact (hfrom.link (by decide) (.intercalate (by decide) hcondition)).close (by decide)

end Subqueries

/-! ## Terms -/

mutual

/-- The sources in the text of a term are those that its subqueries were composed with. -/
theorem Term.finds (d : Dialect) {t : Term} (h : ∀ source ∈ t.sources, IsSourceWord source ∧ P source) :
    Finds P (t.text d) := by
  cases t with
  | column name => exact finds_ident name
  | literal value => exact finds_literal value
  | convert how operand => exact finds_convert (Term.finds d (t := operand) h) how
  | compare how left right =>
    obtain ⟨hleft, hright⟩ := List.forall_mem_append.1 h
    exact finds_compare how (Term.finds d hleft) (Term.finds d hright)
  | case conditions values otherwise =>
    obtain ⟨h, hotherwise⟩ := List.forall_mem_append.1 h
    obtain ⟨hconditions, hvalues⟩ := List.forall_mem_append.1 h
    exact finds_case (Term.finds_texts d hconditions) (Term.finds_texts d hvalues) (Term.finds d hotherwise)
  | call function args => exact finds_call (Term.finds_texts d h) function
  | rowNumber order => exact finds_rowNumber order
  | quantile operand level => exact finds_quantile (Term.finds d (t := operand) h) level
  | broadcast aggregate => exact finds_broadcast (Term.finds d (t := aggregate) h)
  | overSource aggregate source =>
    obtain ⟨h, hsource⟩ := List.forall_mem_append.1 h
    obtain ⟨hword, hknown⟩ := List.forall_mem_singleton.1 hsource
    exact finds_scalarSubquery (Term.finds d h) hword hknown
  | overGroup aggregate source keys =>
    obtain ⟨h, hsource⟩ := List.forall_mem_append.1 h
    obtain ⟨hword, hknown⟩ := List.forall_mem_singleton.1 hsource
    exact finds_groupSubquery (Term.finds d h) hword hknown d keys

theorem Term.finds_texts (d : Dialect) {terms : List Term}
    (h : ∀ source ∈ Term.sourcesOf terms, IsSourceWord source ∧ P source) : ∀ a ∈ Term.texts d terms, Finds P a := by
  match terms with
  | [] =>
    rw [Term.texts]
    exact List.forall_mem_nil _
  | term :: more =>
    obtain ⟨hterm, hmore⟩ := List.forall_mem_append.1 h
    rw [Term.texts, List.forall_mem_cons]
    exact ⟨Term.finds d hterm, Term.finds_texts d hmore⟩

end

end Tabular.Sql
