-- SUMMARY: The lexemes of SQL text, and texts whose quotes and parentheses close where they should.
import Mathlib.Data.List.Chain
import Tabular.Date.Pattern
import Tabular.Text.Quoted

/-!
# Lexemes

SQL text is scanned from left to right: outside of quotes every character stands for itself, and a token between
quotes ends at the first quote that is not doubled. A text is `Contained` if the scan ends outside of quotes with all
parentheses closed, meets no comment, and finds between quotes only names and texts that are known.

A text that is put together is contained if its pieces are (`Spells`). A piece may open parentheses that another one
closes; pieces are joined by glue, constant text that begins and ends with a character that no comment begins or ends
with, so nothing new arises where they meet.
-/

namespace Tabular.Sql

/-! ## Lexemes -/

/-- The two kinds of quotes. -/
inductive Quote where
  | name
  | text
  deriving DecidableEq, Repr

def Quote.char : Quote → Char
  | name => '"'
  | text => '\''

def Quote.ofChar? (c : Char) : Option Quote :=
  if c = '"' then some name else if c = '\'' then some text else none

theorem Quote.ofChar?_char (q : Quote) : ofChar? q.char = some q := by cases q <;> rfl

/-- What the scan sees. -/
inductive Lexeme where
  /-- A character outside of quotes. -/
  | plain (c : Char)
  /-- A token between quotes, with its quotes single. -/
  | quoted (q : Quote) (content : List Char)
  deriving DecidableEq, Repr

/-! ## Scanning -/

/-- Where the scan stands. The content of a token is kept backwards. -/
inductive Place where
  | outside
  | inside (q : Quote) (content : List Char)
  /-- Behind a quote that ends the token, unless another one follows. -/
  | closing (q : Quote) (content : List Char)

/-- The lexemes of a text from a place on; none if the text ends inside of a token. -/
def lexemesFrom? : Place → List Char → Option (List Lexeme)
  | .outside, [] => some []
  | .inside _ _, [] => none
  | .closing q content, [] => some [.quoted q content.reverse]
  | .outside, c :: rest =>
    match Quote.ofChar? c with
    | some q => lexemesFrom? (.inside q []) rest
    | none => (lexemesFrom? .outside rest).map (.plain c :: ·)
  | .inside q content, c :: rest =>
    if c = q.char then lexemesFrom? (.closing q content) rest else lexemesFrom? (.inside q (c :: content)) rest
  | .closing q content, c :: rest =>
    if c = q.char then lexemesFrom? (.inside q (c :: content)) rest
    else
      match Quote.ofChar? c with
      | some other => (lexemesFrom? (.inside other []) rest).map (.quoted q content.reverse :: ·)
      | none => (lexemesFrom? .outside rest).map fun found => .quoted q content.reverse :: .plain c :: found

def lexemes? (text : List Char) : Option (List Lexeme) := lexemesFrom? .outside text

example : lexemes? "\"a\"\"(\"='--'".toList =
    some [.quoted .name ['a', '"', '('], .plain '=', .quoted .text ['-', '-']] := by decide

example : lexemes? "'a''".toList = none := by decide

/-- The depth of parentheses behind a lexeme; none if one is closed that is not open. -/
def Lexeme.depth? (depth : Nat) : Lexeme → Option Nat
  | plain '(' => some (depth + 1)
  | plain ')' => if depth = 0 then none else some (depth - 1)
  | _ => some depth

def depthAfter? (depth : Nat) (found : List Lexeme) : Option Nat := found.foldlM Lexeme.depth? depth

/-- The text is scanned to its end outside of quotes, parentheses match, no comment begins, and what stands between
    quotes are names and texts of the given kinds. -/
def Contained (names texts : String → Prop) (text : String) : Prop :=
  ∃ found, lexemes? text.toList = some found ∧ depthAfter? 0 found = some 0 ∧
    (¬[.plain '-', .plain '-'] <:+: found ∧ ¬[.plain '/', .plain '*'] <:+: found) ∧
    (∀ content, .quoted .name content ∈ found → names (String.ofList content)) ∧
    ∀ content, .quoted .text content ∈ found → texts (String.ofList content)

/-! ## Pieces of text -/

/-- What may stand between quotes. The formats of dates and the texts of dates are always known. -/
structure Vocabulary where
  Name : String → Prop
  Text : String → Prop
  dateCode : Text "%Y%m%d"
  dateFormat : Text "%04d-%02d-%02d"
  date (d : Date) : Text d.text

/-! ## Classes of characters -/

/-- A character of a class that none of the listed ones is in is none of them. -/
theorem not_contains_of_class {listed : List Char} {p : Char → Bool} (hp : listed.all (fun d => !p d) = true) {c : Char}
    (hc : p c = true) : (!listed.contains c) = true := by
  rw [Bool.not_eq_true', List.contains_eq_mem, decide_eq_false_iff_not]
  intro hmem
  have hother := List.all_eq_true.1 hp c hmem
  simp [hc] at hother

/-! ## Lexemes as text -/

namespace Lexeme

/-- The characters of a lexeme. -/
def chars : Lexeme → List Char
  | plain c => [c]
  | quoted q content => q.char :: (Text.double q.char content ++ [q.char])

/-- Whether a lexeme is what it seems, and known if it is quoted. -/
def Known (V : Vocabulary) : Lexeme → Prop
  | plain c => Quote.ofChar? c = none
  | quoted .name content => V.Name (String.ofList content)
  | quoted .text content => V.Text (String.ofList content)

/-- Lexemes that may not meet: they would begin a comment, or be one token. -/
def clash : Lexeme → Lexeme → Bool
  | plain '-', plain '-' => true
  | plain '/', plain '*' => true
  | quoted _ _, quoted _ _ => true
  | _, _ => false

/-- Nothing begins or ends with the character but the character itself. -/
def neutral (c : Char) : Bool := !(['-', '/', '*'].contains c)

theorem clash_plain_left {c : Char} (h : neutral c = true) (l : Lexeme) : clash (plain c) l = false := by
  unfold clash
  split <;> simp_all [neutral]

theorem clash_plain_right {c : Char} (h : neutral c = true) (l : Lexeme) : clash l (plain c) = false := by
  unfold clash
  split <;> simp_all [neutral]

end Lexeme

/-- Lexemes that may meet. -/
def Apart (x y : Lexeme) : Prop := x.clash y = false

/-- A doubled text is passed, and its quotes are single again. -/
theorem lexemesFrom?_double (q : Quote) (content rest gathered : List Char) :
    lexemesFrom? (.inside q gathered) (Text.double q.char content ++ q.char :: rest) =
      lexemesFrom? (.closing q (content.reverse ++ gathered)) rest := by
  induction content generalizing gathered with
  | nil => simp [Text.double, lexemesFrom?]
  | cons c content ih =>
    by_cases hc : c = q.char
    · subst hc
      simp [Text.double, lexemesFrom?, ih]
    · simp [Text.double, lexemesFrom?, hc, ih]

/-- A token is passed up to the quote that ends it. -/
theorem lexemesFrom?_quoted (q : Quote) (content rest : List Char) :
    lexemesFrom? .outside ((Lexeme.quoted q content).chars ++ rest) =
      lexemesFrom? (.closing q content.reverse) rest := by
  have hdouble := lexemesFrom?_double q content rest []
  rw [List.append_nil] at hdouble
  simp [Lexeme.chars, lexemesFrom?, Quote.ofChar?_char, hdouble]

/-- A token has ended if no other quote follows. -/
theorem lexemesFrom?_closing {q : Quote} {content rest : List Char}
    (h : ∀ c, rest.head? = some c → Quote.ofChar? c = none) :
    lexemesFrom? (.closing q content) rest = (lexemes? rest).map (.quoted q content.reverse :: ·) := by
  cases rest with
  | nil => rfl
  | cons c rest =>
    have hc := h c rfl
    have hne : c ≠ q.char := by
      rintro rfl
      simp [Quote.ofChar?_char] at hc
    simp [lexemes?, lexemesFrom?, hne, hc, Function.comp_def]

/-- Lexemes that do not clash are found again. -/
theorem lexemes?_flatMap {V : Vocabulary} {found : List Lexeme} (hknown : ∀ l ∈ found, l.Known V)
    (happart : found.IsChain Apart) : lexemes? (found.flatMap Lexeme.chars) = some found := by
  induction found with
  | nil => rfl
  | cons l found ih =>
    rw [List.forall_mem_cons] at hknown
    have hrest := ih hknown.2 happart.tail
    cases l with
    | plain c =>
      have hc : Quote.ofChar? c = none := hknown.1
      unfold lexemes? at hrest ⊢
      simp [Lexeme.chars, lexemesFrom?, hc, hrest]
    | quoted q content =>
      -- Behind the token the text ends or goes on with a character that is no quote.
      have hhead : ∀ c, (found.flatMap Lexeme.chars).head? = some c → Quote.ofChar? c = none := by
        cases found with
        | nil => simp
        | cons next found =>
          cases next with
          | quoted other inner =>
            have := (List.isChain_cons_cons.1 happart).1
            simp [Apart, Lexeme.clash] at this
          | plain d =>
            have hd : Quote.ofChar? d = none := hknown.2 _ List.mem_cons_self
            simpa [Lexeme.chars] using hd
      rw [List.flatMap_cons, lexemes?, lexemesFrom?_quoted, lexemesFrom?_closing hhead, hrest, List.reverse_reverse]
      rfl

/-! ## Depth -/

theorem depthAfter?_append (depth : Nat) (a b : List Lexeme) :
    depthAfter? depth (a ++ b) = depthAfter? depth a >>= fun middle => depthAfter? middle b := by
  unfold depthAfter?
  rw [List.foldlM_append]

theorem Lexeme.depth?_add {depth after : Nat} {l : Lexeme} (h : l.depth? depth = some after) (n : Nat) :
    l.depth? (depth + n) = some (after + n) := by
  unfold depth? at h ⊢
  split at h
  · obtain rfl := Option.some.inj h
    simp only [Option.some.injEq]
    omega
  · split at h
    · simp at h
    · obtain rfl := Option.some.inj h
      rw [if_neg (by omega)]
      simp only [Option.some.injEq]
      omega
  · obtain rfl := Option.some.inj h
    rfl

/-- More parentheses around do not matter. -/
theorem depthAfter?_add {depth after : Nat} {found : List Lexeme} (h : depthAfter? depth found = some after)
    (n : Nat) : depthAfter? (depth + n) found = some (after + n) := by
  induction found generalizing depth with
  | nil =>
    obtain rfl := Option.some.inj h
    rfl
  | cons l found ih =>
    obtain ⟨middle, hl, hrest⟩ := Option.bind_eq_some_iff.1 h
    exact Option.bind_eq_some_iff.2 ⟨middle + n, Lexeme.depth?_add hl n, ih hrest⟩

/-! ## Pieces -/

/-- The text is a piece that is entered at one depth and left at another. -/
def Spells (V : Vocabulary) (before after : Nat) (text : String) : Prop :=
  ∃ found : List Lexeme, text.toList = found.flatMap Lexeme.chars ∧ (∀ l ∈ found, l.Known V) ∧
    found.IsChain Apart ∧ depthAfter? before found = some after

/-- Constant text that may stand between any pieces. -/
def isGlue (before after : Nat) (text : String) : Bool :=
  text.toList.all (Quote.ofChar? · = none) && text.toList.head?.any Lexeme.neutral &&
    text.toList.getLast?.any Lexeme.neutral &&
    decide ((text.toList.map Lexeme.plain).IsChain fun x y => x.clash y = false) &&
    decide (depthAfter? before (text.toList.map Lexeme.plain) = some after)

theorem flatMap_chars_plain (text : List Char) : (text.map Lexeme.plain).flatMap Lexeme.chars = text := by
  induction text with
  | nil => rfl
  | cons c text ih => simp [Lexeme.chars, ih]

namespace Spells

variable {V : Vocabulary} {before middle after : Nat} {a b : String}

theorem raise (h : Spells V before after a) (n : Nat) : Spells V (before + n) (after + n) a := by
  obtain ⟨found, htext, hknown, happart, hdepth⟩ := h
  exact ⟨found, htext, hknown, happart, depthAfter?_add hdepth n⟩

/-- A closed piece at any depth. -/
theorem atDepth (h : Spells V 0 0 a) (n : Nat) : Spells V n n a := by
  have := h.raise n
  rwa [Nat.zero_add] at this

theorem nil (V : Vocabulary) (n : Nat) : Spells V n n "" :=
  ⟨[], rfl, by simp, .nil, rfl⟩

/-- Characters outside of quotes that begin no comment. -/
theorem of_plain (hplain : ∀ c ∈ a.toList, Quote.ofChar? c = none)
    (happart : (a.toList.map Lexeme.plain).IsChain Apart)
    (hdepth : depthAfter? before (a.toList.map Lexeme.plain) = some after) : Spells V before after a := by
  refine ⟨a.toList.map Lexeme.plain, (flatMap_chars_plain _).symm, ?_, happart, hdepth⟩
  rw [List.forall_mem_map]
  exact hplain

/-- A token between quotes. -/
theorem quoted (q : Quote) {content : String} (h : (Lexeme.quoted q content.toList).Known V) (n : Nat) :
    Spells V n n (Text.quoted q.char content) := by
  refine ⟨[.quoted q content.toList], ?_, by simpa using h, .singleton _, rfl⟩
  simp [Text.quoted, Lexeme.chars]

/-- Pieces with glue between them are one piece: what is at the edges of glue clashes with nothing. -/
theorem glued {next : Nat} {c : String} (ha : Spells V before middle a) (hb : isGlue middle next b = true)
    (hc : Spells V next after c) : Spells V before after (a ++ b ++ c) := by
  simp only [isGlue, Bool.and_eq_true, List.all_eq_true, decide_eq_true_eq, Option.any_eq_true] at hb
  obtain ⟨⟨⟨⟨hplain, first, hfirst, hneutral⟩, last, hlast, hneutral'⟩, happart⟩, hglue⟩ := hb
  obtain ⟨foundA, hA, hknownA, hchainA, hdepthA⟩ := ha
  obtain ⟨foundC, hC, hknownC, hchainC, hdepthC⟩ := hc
  have hlastLexeme : (b.toList.map Lexeme.plain).getLast? = some (.plain last) := by rw [List.getLast?_map, hlast]; rfl
  have hfirstLexeme : (b.toList.map Lexeme.plain ++ foundC).head? = some (.plain first) := by
    rw [List.head?_append, List.head?_map, hfirst]
    rfl
  refine ⟨foundA ++ (b.toList.map Lexeme.plain ++ foundC), ?_, ?_, ?_, ?_⟩
  · rw [String.append_assoc, String.toList_append, String.toList_append, hA, hC, List.flatMap_append,
      List.flatMap_append, flatMap_chars_plain]
  · rw [List.forall_mem_append, List.forall_mem_append, List.forall_mem_map]
    exact ⟨hknownA, hplain, hknownC⟩
  · refine List.isChain_append.2 ⟨hchainA, List.isChain_append.2 ⟨happart, hchainC, ?_⟩, ?_⟩
    · intro x hx y _
      obtain rfl := Option.some.inj (hlastLexeme.symm.trans hx)
      exact Lexeme.clash_plain_left hneutral' y
    · intro x _ y hy
      obtain rfl := Option.some.inj (hfirstLexeme.symm.trans hy)
      exact Lexeme.clash_plain_right hneutral x
  · rw [depthAfter?_append, hdepthA]
    change depthAfter? middle (b.toList.map Lexeme.plain ++ foundC) = _
    rw [depthAfter?_append, hglue]
    exact hdepthC

/-- A piece behind glue. -/
theorem glue_append (ha : isGlue before middle a = true) (hb : Spells V middle after b) :
    Spells V before after (a ++ b) := by
  have := (nil V before).glued ha hb
  rwa [String.empty_append] at this

/-- Glue behind a piece. -/
theorem append_glue (ha : Spells V before middle a) (hb : isGlue middle after b = true) :
    Spells V before after (a ++ b) := by
  have := ha.glued hb (nil V after)
  rwa [String.append_empty] at this

theorem of_isGlue (h : isGlue before after a = true) : Spells V before after a := by
  have := glue_append h (nil V after)
  rwa [String.append_empty] at this

theorem intercalate {separator : String} {n : Nat} (hseparator : isGlue n n separator = true) {args : List String}
    (h : ∀ arg ∈ args, Spells V n n arg) : Spells V n n (separator.intercalate args) := by
  induction args with
  | nil => exact nil V n
  | cons arg more ih =>
    rw [List.forall_mem_cons] at h
    cases more with
    | nil => exact h.1
    | cons next more =>
      rw [String.intercalate_cons_cons]
      exact h.1.glued hseparator (ih h.2)

/-- A text in one closed piece is contained. -/
theorem contained (h : Spells V 0 0 a) : Contained V.Name V.Text a := by
  obtain ⟨found, htext, hknown, happart, hdepth⟩ := h
  refine ⟨found, ?_, hdepth, ⟨?_, ?_⟩, ?_, ?_⟩
  · rw [htext]
    exact lexemes?_flatMap hknown happart
  · intro hinfix
    have := List.IsChain.infix happart hinfix
    simp [Apart, Lexeme.clash] at this
  · intro hinfix
    have := List.IsChain.infix happart hinfix
    simp [Apart, Lexeme.clash] at this
  · exact fun content hmem => hknown _ hmem
  · exact fun content hmem => hknown _ hmem

end Spells

end Tabular.Sql
