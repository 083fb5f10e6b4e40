-- SUMMARY: The spelling of SQL closes its quotes and parentheses, whatever names and texts it is given.
import Tabular.Formula.Scan
import Tabular.Proofs.Sql.Lexical
import Tabular.Sql.Query

/-!
# Closed spelling

Numbers show no quotes, no parentheses and no two dashes in a row; names and texts are written between quotes with
their quotes doubled. All else that is spelled is glue around closed pieces, so one lemma for each function of
`Spelling` says that it keeps pieces closed.
-/

namespace Tabular.Sql

variable {V : Vocabulary}

/-! ## Inert characters -/

/-- The scan does nothing special at the character. -/
def isInert (c : Char) : Bool := !(['"', '\'', '(', ')', '-', '/', '*'].contains c)

theorem isInert_of_isNamePart {c : Char} (h : isNamePart c = true) : isInert c = true :=
  not_contains_of_class (by decide) h

theorem plain_of_isInert {c : Char} (h : isInert c = true) :
    Quote.ofChar? c = none ∧ c ≠ '(' ∧ c ≠ ')' ∧ Lexeme.neutral c = true := by
  simp only [isInert, Bool.not_eq_true', List.contains_eq_mem, decide_eq_false_iff_not, List.mem_cons,
    List.not_mem_nil, or_false, not_or] at h
  obtain ⟨hname, htext, hopen, hclose, hdash, hslash, hstar⟩ := h
  refine ⟨?_, hopen, hclose, ?_⟩
  · rw [Quote.ofChar?, if_neg hname, if_neg htext]
  · simp [Lexeme.neutral, hdash, hslash, hstar]

theorem depthAfter?_plain {text : List Char} (h : ∀ c ∈ text, c ≠ '(' ∧ c ≠ ')') (depth : Nat) :
    depthAfter? depth (text.map Lexeme.plain) = some depth := by
  induction text with
  | nil => rfl
  | cons c text ih =>
    rw [List.forall_mem_cons] at h
    have hc : (Lexeme.plain c).depth? depth = some depth := by
      unfold Lexeme.depth?
      split <;> simp_all
    rw [List.map_cons, depthAfter?, List.foldlM_cons, hc]
    exact ih h.2

/-! ## Numbers -/

/-- The characters that numbers are written with, apart from dashes. -/
def isNumeric (c : Char) : Bool := c.isDigit || ['.', 'e', 'i', 'n', 'f', 'N', 'a'].contains c

theorem isNumeric_of_isDigit {c : Char} (h : c.isDigit = true) : isNumeric c = true := by
  rw [isNumeric, h, Bool.true_or]

theorem isInert_of_isNumeric {c : Char} (h : isNumeric c = true) : isInert c = true :=
  not_contains_of_class (by decide) h

/-- A text of characters of numbers and dashes, no two dashes in a row. -/
structure Numeral (text : List Char) : Prop where
  chars : ∀ c ∈ text, isNumeric c = true ∨ c = '-'
  dashes : (text.map Lexeme.plain).IsChain Apart

theorem Numeral.spells {text : String} (h : Numeral text.toList) (n : Nat) : Spells V n n text := by
  have hplain : ∀ c ∈ text.toList, Quote.ofChar? c = none ∧ c ≠ '(' ∧ c ≠ ')' := by
    intro c hc
    rcases h.chars c hc with hc | rfl
    · obtain ⟨hquote, hopen, hclose, -⟩ := plain_of_isInert (isInert_of_isNumeric hc)
      exact ⟨hquote, hopen, hclose⟩
    · decide
  exact Spells.of_plain (fun c hc => (hplain c hc).1) h.dashes (depthAfter?_plain (fun c hc => (hplain c hc).2) n)

theorem numeral_nil : Numeral [] := ⟨by simp, .nil⟩

/-- A dash in front of what does not begin with one. -/
theorem Numeral.dash {text : List Char} (h : Numeral text) (hhead : ∀ c, text.head? = some c → isNumeric c = true) :
    Numeral ('-' :: text) where
  chars := by
    rw [List.forall_mem_cons]
    exact ⟨.inr rfl, h.chars⟩
  dashes := by
    cases text with
    | nil => exact .singleton _
    | cons c text =>
      rw [List.map_cons, List.map_cons, List.isChain_cons_cons]
      exact ⟨Lexeme.clash_plain_right (plain_of_isInert (isInert_of_isNumeric (hhead c rfl))).2.2.2 _, h.dashes⟩

/-- Characters of numbers in front of a number. -/
theorem Numeral.numeric_append {front text : List Char} (hfront : ∀ c ∈ front, isNumeric c = true) (h : Numeral text) :
    Numeral (front ++ text) := by
  induction front with
  | nil => exact h
  | cons c front ih =>
    rw [List.forall_mem_cons] at hfront
    obtain ⟨hchars, hdashes⟩ := ih hfront.2
    refine ⟨?_, ?_⟩
    · rw [List.cons_append, List.forall_mem_cons]
      exact ⟨.inl hfront.1, hchars⟩
    · rw [List.cons_append, List.map_cons, List.isChain_cons]
      exact ⟨fun y _ => Lexeme.clash_plain_left (plain_of_isInert (isInert_of_isNumeric hfront.1)).2.2.2 y, hdashes⟩

theorem numeral_of_numeric {text : List Char} (h : ∀ c ∈ text, isNumeric c = true) : Numeral text := by
  have := numeral_nil.numeric_append h
  rwa [List.append_nil] at this

theorem isNumeric_toDigits (n : Nat) : ∀ c ∈ Nat.toDigits 10 n, isNumeric c = true :=
  fun _ hc => isNumeric_of_isDigit (Nat.isDigit_of_mem_toDigits (by decide) (by decide) hc)

theorem numeral_int (n : Int) : Numeral (toString n).toList := by
  rw [Int.toString_eq_repr, Int.repr_eq_if]
  split
  · rw [Nat.toList_repr]
    exact numeral_of_numeric (isNumeric_toDigits _)
  · rw [String.toList_append, Nat.toList_repr]
    refine (numeral_of_numeric (isNumeric_toDigits _)).dash fun c hc => ?_
    exact isNumeric_toDigits _ c (List.mem_of_mem_head? hc)

theorem isNumeric_positional (layout : Decimal.Layout) {digits : List Char} (h : ∀ c ∈ digits, isNumeric c = true)
    (exponent : Int) : ∀ c ∈ layout.positional digits exponent, isNumeric c = true := by
  have hpoint : isNumeric '.' = true := by decide
  have hzero : isNumeric '0' = true := by decide
  have hzeros : ∀ n, ∀ c ∈ List.replicate n '0', isNumeric c = true := by
    intro n c hc
    rw [(List.mem_replicate.1 hc).2]
    exact hzero
  unfold Decimal.Layout.positional
  split
  · rw [List.forall_mem_append, List.forall_mem_append]
    refine ⟨⟨h, hzeros _⟩, ?_⟩
    split
    · exact List.all_eq_true.1 (by decide)
    · simp
  · dsimp only
    split
    · rw [List.forall_mem_append, List.forall_mem_cons]
      exact ⟨fun c hc => h c (List.mem_of_mem_take hc), hpoint, fun c hc => h c (List.mem_of_mem_drop hc)⟩
    · rw [List.cons_append, List.cons_append, List.forall_mem_cons, List.forall_mem_cons, List.forall_mem_append]
      exact ⟨hzero, hpoint, hzeros _, h⟩

theorem positional_ne_nil (layout : Decimal.Layout) {digits : List Char} (h : digits ≠ []) (exponent : Int) :
    layout.positional digits exponent ≠ [] := by
  unfold Decimal.Layout.positional
  split
  · simp [h]
  · dsimp only
    split <;> simp

/-- The digit before the point comes first, and the power of ten last. -/
theorem scientificText_eq (layout : Decimal.Layout) {digits : List Char} (h : ∀ c ∈ digits, isNumeric c = true)
    (power : Int) : ∃ mantissa, layout.scientificText digits power = (mantissa ++ ['e']) ++ layout.power power ∧
      ∀ c ∈ mantissa ++ ['e'], isNumeric c = true := by
  have hpoint : isNumeric '.' = true := by decide
  have hmark : ∀ c ∈ ['e'], isNumeric c = true := List.all_eq_true.1 (by decide)
  unfold Decimal.Layout.scientificText
  refine ⟨_, by rw [List.append_assoc]; rfl, ?_⟩
  rw [List.forall_mem_append]
  refine ⟨?_, hmark⟩
  split
  · simp
  · split
    · rw [List.forall_mem_cons]
      exact ⟨h _ List.mem_cons_self, List.all_eq_true.1 (by decide)⟩
    · exact h
  · rw [List.forall_mem_cons] at h
    rw [List.forall_mem_cons, List.forall_mem_cons]
    exact ⟨h.1, hpoint, h.2⟩

/-- The magnitude of a float begins with a character of numbers. -/
theorem numeral_magnitude (x : Float) : ∃ front text, Decimal.Layout.tagged.magnitude x = front ++ text ∧
    front ≠ [] ∧ (∀ c ∈ front, isNumeric c = true) ∧ Numeral text := by
  unfold Decimal.Layout.magnitude
  dsimp only
  split
  · exact ⟨['0', '.', '0'], [], rfl, by simp, List.all_eq_true.1 (by decide), numeral_nil⟩
  · split
    · obtain ⟨mantissa, heq, hnumeric⟩ := scientificText_eq Decimal.Layout.tagged (isNumeric_toDigits _) _
      exact ⟨mantissa ++ ['e'], _, heq, by simp, hnumeric, numeral_int _⟩
    · refine ⟨_, [], (List.append_nil _).symm, ?_, isNumeric_positional _ (isNumeric_toDigits _) _, numeral_nil⟩
      exact positional_ne_nil _ Nat.toDigits_ne_nil _

theorem numeral_float (x : Float) : Numeral (Decimal.Layout.tagged.text x).toList := by
  unfold Decimal.Layout.text
  split
  · exact numeral_of_numeric (List.all_eq_true.1 (by decide))
  · have hsize : ∃ front text, (if x.isInf = true then ['i', 'n', 'f'] else Decimal.Layout.tagged.magnitude x) =
        front ++ text ∧ front ≠ [] ∧ (∀ c ∈ front, isNumeric c = true) ∧ Numeral text := by
      split
      · exact ⟨['i', 'n', 'f'], [], rfl, by simp, List.all_eq_true.1 (by decide), numeral_nil⟩
      · exact numeral_magnitude x
    obtain ⟨front, text, heq, hne, hfront, htext⟩ := hsize
    have hnumeral := htext.numeric_append hfront
    dsimp only
    rw [String.toList_ofList, heq]
    split
    · refine hnumeral.dash fun c hc => hfront c ?_
      rw [List.head?_append_of_ne_nil _ hne] at hc
      exact List.mem_of_mem_head? hc
    · exact hnumeral

/-! ## Names and literals -/

/-- A word of inert characters, such as the name of a source. -/
def IsWord (text : String) : Prop := ∀ c ∈ text.toList, isInert c = true

theorem IsWord.spells {text : String} (h : IsWord text) (n : Nat) : Spells V n n text := by
  have hplain := fun c hc => plain_of_isInert (h c hc)
  refine Spells.of_plain (fun c hc => (hplain c hc).1) ?_
    (depthAfter?_plain (fun c hc => ⟨(hplain c hc).2.1, (hplain c hc).2.2.1⟩) n)
  rw [List.isChain_map]
  refine (List.pairwise_of_forall_mem_list fun x hx y _ => ?_).isChain
  exact Lexeme.clash_plain_left (hplain x hx).2.2.2 (.plain y)

theorem IsWord.append {a b : String} (ha : IsWord a) (hb : IsWord b) : IsWord (a ++ b) := by
  intro c hc
  rw [String.toList_append] at hc
  rcases List.mem_append.1 hc with hc | hc
  · exact ha c hc
  · exact hb c hc

theorem isWord_nat (n : Nat) : IsWord (toString n) := by
  intro c hc
  have hdigits : (toString n).toList = Nat.toDigits 10 n := Nat.toList_repr
  rw [hdigits] at hc
  exact isInert_of_isNumeric (isNumeric_toDigits n c hc)

theorem double_eq_self {q : Char} {text : List Char} (h : ∀ c ∈ text, c ≠ q) : Text.double q text = text := by
  induction text with
  | nil => rfl
  | cons c text ih =>
    rw [List.forall_mem_cons] at h
    simp [Text.double, h.1, ih h.2]

/-- The text of a date has no quotes to double. -/
theorem ne_quote_date (d : Date) : ∀ c ∈ d.text.toList, c ≠ '\'' := by
  have hpadded : ∀ width n, ∀ c ∈ Date.padded width n, c ≠ '\'' := by
    intro width n c hc
    rcases List.mem_append.1 hc with hc | hc
    · rw [(List.mem_replicate.1 hc).2]
      decide
    · rintro rfl
      exact absurd (isNumeric_toDigits n _ hc) (by decide)
  have hyear : ∀ c ∈ Date.yearText d.year, c ≠ '\'' := by
    unfold Date.yearText
    split
    · exact hpadded _ _
    · rw [List.forall_mem_cons]
      refine ⟨?_, hpadded _ _⟩
      split <;> decide
  have hdash : '-' ≠ '\'' := by decide
  rw [Date.text, String.toList_ofList, List.append_assoc, List.forall_mem_append, List.cons_append,
    List.forall_mem_cons, List.forall_mem_append, List.forall_mem_cons]
  exact ⟨hyear, hdash, hpadded _ _, hdash, hpadded _ _⟩

theorem literal_date (d : Date) : Spelling.literal (.date d) = Text.quoted '\'' d.text := by
  apply String.ext
  rw [Text.quoted, double_eq_self (ne_quote_date d)]
  simp [Spelling.literal]

/-- Strings of the value are known. -/
def Vocabulary.Admits (V : Vocabulary) : Value → Prop
  | .string s => V.Text s
  | _ => True

theorem spells_ident {name : String} (h : V.Name name) (n : Nat) : Spells V n n (Spelling.ident name) :=
  Spells.quoted .name (by rwa [Lexeme.Known, String.ofList_toList]) n

theorem spells_text {text : String} (h : V.Text text) (n : Nat) : Spells V n n (Text.quoted '\'' text) :=
  Spells.quoted .text (by rwa [Lexeme.Known, String.ofList_toList]) n

theorem spells_literal {v : Value} (h : V.Admits v) (n : Nat) : Spells V n n (Spelling.literal v) := by
  cases v with
  | null =>
    have hnull : ∀ c ∈ "NULL".toList, isInert c = true := List.all_eq_true.1 (by decide)
    exact IsWord.spells hnull n
  | integer m => exact (numeral_int m.toInt).spells n
  | float x => exact (numeral_float x).spells n
  | string s => exact spells_text h n
  | date d =>
    rw [literal_date]
    exact spells_text (V.date d) n

/-! ## Operations -/

theorem spells_typeName (d : Dialect) (type : ColumnType) : Spells V 0 0 (d.typeName type) := by
  cases d <;> cases type <;> exact Spells.of_isGlue (by decide)

theorem spells_convert {d : Dialect} {expr : Fragment} (h : Spells V 0 0 expr) (how : Conversion) :
    Spells V 0 0 (Spelling.convert d expr how) := by
  have hcast : ∀ {e : Fragment}, Spells V 0 0 e → ∀ target,
      Spells V 0 0 ("CAST(" ++ e ++ " AS " ++ d.typeName target ++ ")") := by
    intro e he target
    have hopen : Spells V 0 1 ("CAST(" ++ e) := .glue_append (by decide) (he.atDepth 1)
    exact (hopen.glued (by decide) ((spells_typeName d target).atDepth 1)).append_glue (by decide)
  cases how with
  | same => exact h
  | cast target => exact hcast h target
  | parseDate =>
    have hopen : Spells V 0 1 ("date(" ++ expr) := .glue_append (by decide) (h.atDepth 1)
    exact hopen.append_glue (by decide)
  | dateCode target =>
    have hspelled : "CAST(strftime('%Y%m%d', " = "CAST(strftime(" ++ Text.quoted '\'' "%Y%m%d" ++ ", " := by decide
    have hformat : Spells V 0 2 ("CAST(strftime(" ++ Text.quoted '\'' "%Y%m%d") :=
      .glue_append (by decide) (spells_text V.dateCode 2)
    have hcode := hformat.glued (by decide : isGlue 2 2 ", " = true) (h.atDepth 2)
    have htyped := hcode.glued (by decide : isGlue 2 1 ") AS " = true) ((spells_typeName d target).atDepth 1)
    unfold Spelling.convert
    dsimp only
    rw [hspelled]
    exact htyped.append_glue (by decide)
  | fromDateCode =>
    have hspelled : "printf('%04d-%02d-%02d', " = "printf(" ++ Text.quoted '\'' "%04d-%02d-%02d" ++ ", " := by decide
    have hformat : Spells V 0 1 ("printf(" ++ Text.quoted '\'' "%04d-%02d-%02d") :=
      .glue_append (by decide) (spells_text V.dateFormat 1)
    have hcode := hcast h .integer
    have hyear := hformat.glued (by decide : isGlue 1 1 ", " = true) (hcode.atDepth 1)
    have hmonth := hyear.glued (by decide : isGlue 1 2 " / 10000, (" = true) (hcode.atDepth 2)
    unfold Spelling.convert
    dsimp only
    rw [hspelled]
    exact (hmonth.glued (by decide) (hcode.atDepth 1)).append_glue (by decide)

theorem spells_branches {a : String} (ha : Spells V 0 0 a) {found : List (Fragment × Fragment)}
    (h : ∀ branch ∈ found, Spells V 0 0 branch.1 ∧ Spells V 0 0 branch.2) :
    Spells V 0 0 (a ++ Spelling.branches found) := by
  induction found generalizing a with
  | nil => rwa [Spelling.branches, String.append_empty]
  | cons branch more ih =>
    obtain ⟨condition, value⟩ := branch
    rw [List.forall_mem_cons] at h
    have hbranch := (ha.glued (by decide : isGlue 0 0 " WHEN " = true) h.1.1).glued
      (by decide : isGlue 0 0 " THEN " = true) h.1.2
    have := ih hbranch h.2
    simpa only [Spelling.branches, String.append_assoc] using this

theorem spells_case {conditions values : List Fragment} {otherwise : Fragment}
    (hconditions : ∀ a ∈ conditions, Spells V 0 0 a) (hvalues : ∀ a ∈ values, Spells V 0 0 a)
    (hotherwise : Spells V 0 0 otherwise) : Spells V 0 0 (Spelling.case conditions values otherwise) := by
  unfold Spelling.case
  split
  · exact hotherwise
  · have hbranches : ∀ branch ∈ conditions.zip values, Spells V 0 0 branch.1 ∧ Spells V 0 0 branch.2 :=
      fun branch hmem => ⟨hconditions _ (List.of_mem_zip hmem).1, hvalues _ (List.of_mem_zip hmem).2⟩
    have hcase : Spells V 0 0 "CASE" := .of_isGlue (by decide)
    exact ((spells_branches hcase hbranches).glued (by decide) hotherwise).append_glue (by decide)

theorem spells_compare (c : Comparison) {left right : Fragment} (hleft : Spells V 0 0 left)
    (hright : Spells V 0 0 right) : Spells V 0 0 (Spelling.compare c left right) := by
  have hsymbol : Spells V 0 0 c.symbol := by cases c <;> exact .of_isGlue (by decide)
  have hopen : Spells V 0 1 ("(" ++ left) := .glue_append (by decide) (hleft.atDepth 1)
  have hfound := (hopen.glued (by decide : isGlue 1 1 " " = true) (hsymbol.atDepth 1)).glued
    (by decide : isGlue 1 1 " " = true) (hright.atDepth 1)
  exact hfound.append_glue (by decide)

section Calls

variable {args : List Fragment} (hargs : ∀ arg ∈ args, Spells V 0 0 arg)

include hargs

theorem spells_listed {separator : String} (hseparator : isGlue 0 0 separator = true) :
    Spells V 0 0 (separator.intercalate args) := .intercalate hseparator hargs

theorem spells_infixed {operator : String} (h : isGlue 0 0 (" " ++ operator ++ " ") = true) :
    Spells V 0 0 (Spelling.infixed operator args) :=
  (Spells.glue_append (by decide) ((spells_listed hargs h).atDepth 1)).append_glue (by decide)

theorem spells_applied {name : String} (h : isGlue 0 1 (name ++ "(") = true) :
    Spells V 0 0 (Spelling.applied name args) := by
  have hlist : Spells V 1 1 (", ".intercalate args) := (spells_listed hargs (by decide)).atDepth 1
  exact (Spells.glue_append h hlist).append_glue (by decide)

theorem spells_call (f : Function) : Spells V 0 0 (Spelling.call f args) := by
  have hlist : Spells V 1 1 (", ".intercalate args) := (spells_listed hargs (by decide)).atDepth 1
  cases f with
  | not => exact (Spells.glue_append (by decide) hlist).append_glue (by decide)
  | negate => exact (Spells.glue_append (by decide) hlist).append_glue (by decide)
  | add | subtract | multiply | divide | concat | and | or => exact spells_infixed hargs (by decide)
  | log | abs | exp | sqrt | pow | sum | mean | count | min | max => exact spells_applied hargs (by decide)

end Calls

theorem spells_rowNumber {order : Option Fragment} (h : ∀ o, order = some o → Spells V 0 0 o) :
    Spells V 0 0 (Spelling.rowNumber order) := by
  cases order with
  | none => exact .of_isGlue (by decide)
  | some o => exact (Spells.glue_append (by decide) ((h o rfl).atDepth 2)).append_glue (by decide)

theorem spells_quantile {expr : Fragment} (h : Spells V 0 0 expr) (level : Float) :
    Spells V 0 0 (Spelling.quantile expr level) := by
  have hlevel : Spells V 1 1 (Value.float level).text := (numeral_float level).spells 1
  have hopen : Spells V 0 1 ("percentile_cont(" ++ (Value.float level).text) := .glue_append (by decide) hlevel
  exact (hopen.glued (by decide) (h.atDepth 1)).append_glue (by decide)

/-! ## Aggregates elsewhere -/

theorem spells_broadcast {aggregate : Fragment} (h : Spells V 0 0 aggregate) :
    Spells V 0 0 (Spelling.broadcast aggregate) :=
  h.append_glue (by decide)

theorem spells_scalarSubquery {aggregate : Fragment} {source : String} (h : Spells V 0 0 aggregate)
    (hsource : IsWord source) : Spells V 0 0 (Spelling.scalarSubquery aggregate source) := by
  have hopen : Spells V 0 1 ("(SELECT " ++ aggregate) := .glue_append (by decide) (h.atDepth 1)
  exact (hopen.glued (by decide) (hsource.spells 1)).append_glue (by decide)

theorem spells_same (d : Dialect) {left right : Fragment} (hleft : Spells V 0 0 left) (hright : Spells V 0 0 right) :
    Spells V 0 0 (Spelling.same d left right) := by
  have hopen : Spells V 0 1 ("(" ++ left) := .glue_append (by decide) (hleft.atDepth 1)
  cases d with
  | sqlite => exact (hopen.glued (by decide) (hright.atDepth 1)).append_glue (by decide)
  | ansi => exact (hopen.glued (by decide) (hright.atDepth 1)).append_glue (by decide)

theorem spells_groupSubquery (d : Dialect) {aggregate : Fragment} {source : String} {keys : List Fragment}
    (h : Spells V 0 0 aggregate) (hsource : IsWord source) (hkeys : ∀ key ∈ keys, Spells V 0 0 key) :
    Spells V 0 0 (Spelling.groupSubquery d aggregate source keys) := by
  have hsuffix : ∀ c ∈ "_g".toList, isInert c = true := List.all_eq_true.1 (by decide)
  have hinner : IsWord (Spelling.groupAlias source) := hsource.append hsuffix
  have hcondition : ∀ condition ∈ keys.map fun key =>
      Spelling.same d (Spelling.groupAlias source ++ "." ++ key) (source ++ "." ++ key), Spells V 0 0 condition := by
    rw [List.forall_mem_map]
    intro key hkey
    exact spells_same d ((hinner.spells 0).glued (by decide) (hkeys key hkey))
      ((hsource.spells 0).glued (by decide) (hkeys key hkey))
  have hopen : Spells V 0 1 ("(SELECT " ++ aggregate) := .glue_append (by decide) (h.atDepth 1)
  have hfrom := (hopen.glued (by decide : isGlue 1 1 " FROM " = true) (hsource.spells 1)).glued
    (by decide : isGlue 1 1 " AS " = true) (hinner.spells 1)
  have hwhere := (spells_listed hcondition (by decide : isGlue 0 0 " AND " = true)).atDepth 1
  exact (hfrom.glued (by decide) hwhere).append_glue (by decide)

/-! ## Statements -/

theorem spells_field {expr : Fragment} {name : String} (h : Spells V 0 0 expr) (hname : V.Name name) :
    Spells V 0 0 (Spelling.field expr name) :=
  h.glued (by decide) (spells_ident hname 0)

theorem spells_orderBy {keys : List Fragment} (h : ∀ key ∈ keys, Spells V 0 0 key) (ascending : Bool) :
    Spells V 0 0 (Spelling.orderBy keys ascending) := by
  refine .intercalate (by decide) ?_
  rw [List.forall_mem_map]
  intro key hkey
  refine (h key hkey).append_glue ?_
  cases ascending <;> decide

theorem spells_groupClause {a : String} (ha : Spells V 0 0 a) {keys : List Fragment}
    (h : ∀ key ∈ keys, Spells V 0 0 key) : Spells V 0 0 (a ++ Spelling.groupClause keys) := by
  unfold Spelling.groupClause
  split
  · rwa [String.append_empty]
  · rw [← String.append_assoc]
    exact ha.glued (by decide) (spells_listed h (by decide))

theorem spells_orderClause {a : String} (ha : Spells V 0 0 a) {order : Option Fragment}
    (h : ∀ o, order = some o → Spells V 0 0 o) : Spells V 0 0 (a ++ Spelling.orderClause order) := by
  cases order with
  | none => rwa [Spelling.orderClause, String.append_empty]
  | some o =>
    rw [Spelling.orderClause, ← String.append_assoc]
    exact ha.glued (by decide) (h o rfl)

theorem spells_select {name source : String} {fields groupBy : List Fragment} {order : Option Fragment}
    (hname : IsWord name) (hsource : Spells V 0 0 source) (hfields : ∀ field ∈ fields, Spells V 0 0 field)
    (hgroup : ∀ key ∈ groupBy, Spells V 0 0 key) (horder : ∀ o, order = some o → Spells V 0 0 o) :
    Spells V 0 0 (Spelling.select name source fields groupBy order) := by
  have hlisted : Spells V 0 0 (if fields.isEmpty then "*" else ", ".intercalate fields) := by
    split
    · have hstar : "*".toList.all (fun c => Quote.ofChar? c = none) = true := by decide
      exact .of_plain (fun c hc => of_decide_eq_true (List.all_eq_true.1 hstar c hc)) (.singleton _) rfl
    · exact spells_listed hfields (by decide)
  have hwith : Spells V 0 0 ("WITH " ++ name) := .glue_append (by decide) (hname.spells 0)
  have hbody := (hwith.glued (by decide : isGlue 0 1 " AS (" = true) (hsource.atDepth 1)).glued
    (by decide : isGlue 1 0 ") SELECT " = true) hlisted
  exact spells_orderClause (spells_groupClause (hbody.glued (by decide) (hname.spells 0)) hgroup) horder

theorem spells_table {name : String} (h : V.Name name) : Spells V 0 0 (Spelling.table name) :=
  .glue_append (by decide) (spells_ident h 0)

theorem spells_row {fields : List Fragment} (h : ∀ field ∈ fields, Spells V 0 0 field) :
    Spells V 0 0 (Spelling.row fields) :=
  .glue_append (by decide) (spells_listed h (by decide))

theorem spells_unionAll {rows : List String} (h : ∀ row ∈ rows, Spells V 0 0 row) :
    Spells V 0 0 (Spelling.unionAll rows) := spells_listed h (by decide)

end Tabular.Sql
