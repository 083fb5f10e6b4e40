-- SUMMARY: Formula texts with every blank outside of quotes written as a space, and what scanning finds in them.
import Tabular.Proofs.Formula.Segments

/-!
# Spaced texts

Two texts that differ in their blanks outside of quotes have the same spaced text: it has a space wherever they have
a blank. Blanks move no scan state and are no part of names, so each scanner finds in the spaced text the spaced parts
of what it finds in the text. What is in quotes stays, and so do names and tokens, which hold no blanks. Only which
operators lead may change, since in a spaced text all blanks outside of quotes are ASCII blanks (`operators_spaced`).
-/

namespace Tabular

/-! ## Spaced texts -/

/-- A space for a blank outside of quotes. -/
def Scan.spaced (s : Scan) (c : Char) : Char := if !s.quoted && Text.isBlank c then ' ' else c

def spacedFrom (s : Scan) : List Char → List Char
  | [] => []
  | c :: rest => s.spaced c :: spacedFrom (s.step c) rest

/-- The text with a space for every blank outside of quotes. -/
def spaced (text : List Char) : List Char := spacedFrom Scan.start text

namespace Scan

theorem spaced_eq_self {c : Char} (h : Text.isBlank c = false) (s : Scan) : s.spaced c = c := by
  simp [spaced, h]

theorem spaced_of_quoted {s : Scan} (h : s.quoted = true) (c : Char) : s.spaced c = c := by
  simp [spaced, h]

@[simp] theorem isBlank_spaced (s : Scan) (c : Char) : Text.isBlank (s.spaced c) = Text.isBlank c := by
  unfold spaced
  split
  · rename_i h
    simp only [Bool.and_eq_true] at h
    rw [h.2]
    decide
  · rfl

/-- A character is what it was, or it is a space for a blank. -/
theorem spaced_cases (s : Scan) (c : Char) : s.spaced c = c ∨ s.spaced c = ' ' ∧ Text.isBlank c = true := by
  unfold spaced
  split
  · rename_i h
    simp only [Bool.and_eq_true] at h
    exact .inr ⟨rfl, h.2⟩
  · exact .inl rfl

/-- A visible character is where it was, and nowhere else. -/
theorem spaced_eq_iff {d : Char} (hd : Text.isBlank d = false) (s : Scan) (c : Char) : s.spaced c = d ↔ c = d := by
  rcases s.spaced_cases c with h | ⟨h, hc⟩
  · rw [h]
  · rw [h]
    constructor
    · rintro rfl
      exact absurd hd (by decide)
    · rintro rfl
      simp [hd] at hc

@[simp] theorem step_spaced (s t : Scan) (c : Char) : t.step (s.spaced c) = t.step c := by
  rcases s.spaced_cases c with h | ⟨h, hc⟩
  · rw [h]
  · rw [h, step_eq_self_of_isBlank hc, step_eq_self_of_isBlank (by decide)]

/-- Only whether a quote is open matters. -/
theorem spacedFrom_congr {s t : Scan} (h : s.quoted = t.quoted) (text : List Char) :
    spacedFrom s text = spacedFrom t text := by
  induction text generalizing s t with
  | nil => rfl
  | cons c rest ih =>
    have hstep : (s.step c).quoted = (t.step c).quoted := by rw [quoted_step, quoted_step, h]
    rw [spacedFrom, spacedFrom, ih hstep, spaced, spaced, h]

end Scan

theorem spacedFrom_append (s : Scan) (a b : List Char) :
    spacedFrom s (a ++ b) = spacedFrom s a ++ spacedFrom (s.run a) b := by
  induction a generalizing s with
  | nil => rfl
  | cons c a ih => rw [List.cons_append, spacedFrom, ih, spacedFrom, Scan.run_cons, List.cons_append]

theorem spaced_append {a : List Char} (ha : Scan.start.run a = Scan.start) (b : List Char) :
    spaced (a ++ b) = spaced a ++ spaced b := by
  rw [spaced, spacedFrom_append, ha, spaced, spaced]

theorem spacedFrom_eq_self {text : List Char} (h : ∀ c ∈ text, Text.isBlank c = false) (s : Scan) :
    spacedFrom s text = text := by
  induction text generalizing s with
  | nil => rfl
  | cons c rest ih =>
    rw [spacedFrom, Scan.spaced_eq_self (h c List.mem_cons_self), ih fun d hd => h d (List.mem_cons_of_mem _ hd)]

@[simp] theorem spacedFrom_eq_nil {s : Scan} {text : List Char} : spacedFrom s text = [] ↔ text = [] := by
  cases text <;> simp [spacedFrom]

/-! ## Blanks -/

@[simp] theorem allBlank_spacedFrom (s : Scan) (text : List Char) :
    Text.allBlank (spacedFrom s text) = Text.allBlank text := by
  induction text generalizing s with
  | nil => rfl
  | cons c rest ih =>
    have := ih (s.step c)
    simp only [Text.allBlank] at this
    simp [spacedFrom, Text.allBlank, this]

/-- Outside of quotes all blanks of a spaced text are ASCII blanks. -/
theorem all_isAsciiBlank_spaced (text : List Char) : (spaced text).all Text.isAsciiBlank = Text.allBlank text := by
  cases hblank : Text.allBlank text with
  | true =>
    unfold spaced
    induction text with
    | nil => rfl
    | cons c rest ih =>
      simp only [Text.allBlank, List.all_cons, Bool.and_eq_true] at hblank
      rw [spacedFrom, Scan.step_eq_self_of_isBlank hblank.1, List.all_cons, ih hblank.2]
      simp [Scan.spaced, Scan.start, hblank.1, Text.isAsciiBlank]
  | false =>
    refine Bool.eq_false_iff.2 fun hall => ?_
    have := Text.allBlank_of_all_isAsciiBlank hall
    simp [spaced, hblank] at this

theorem trimStart_spacedFrom (s : Scan) (text : List Char) :
    Text.trimStart (spacedFrom s text) = spacedFrom s (Text.trimStart text) := by
  induction text generalizing s with
  | nil => rfl
  | cons c rest ih =>
    simp only [Text.trimStart] at ih
    cases hc : Text.isBlank c with
    | true => simp [spacedFrom, Text.trimStart, hc, ih, Scan.step_eq_self_of_isBlank hc]
    | false => simp [spacedFrom, Text.trimStart, hc]

theorem trimEnd_spacedFrom (s : Scan) (text : List Char) :
    Text.trimEnd (spacedFrom s text) = spacedFrom s (Text.trimEnd text) := by
  induction text using List.reverseRecOn with
  | nil => rfl
  | append_singleton front c ih =>
    cases hc : Text.isBlank c with
    | true =>
      have hblank : Text.allBlank [c] = true := by simp [Text.allBlank, hc]
      rw [spacedFrom_append, Text.trimEnd_append (by simpa using hblank), Text.trimEnd_append hblank, ih]
    | false =>
      have hlast : spacedFrom (s.run front) [c] = [c] := spacedFrom_eq_self (by simp [hc]) _
      rw [spacedFrom_append, hlast, Text.trimEnd_eq_self List.getLast?_concat hc,
        Text.trimEnd_eq_self List.getLast?_concat hc, spacedFrom_append, hlast]

theorem trim_spaced (text : List Char) : Text.trim (spaced text) = spaced (Text.trim text) := by
  rw [Text.trim, spaced, trimStart_spacedFrom, trimEnd_spacedFrom, Text.trim, spaced]

/-! ## Nesting -/

theorem imbalanceFrom?_spacedFrom (s t : Scan) (text : List Char) :
    imbalanceFrom? t (spacedFrom s text) = imbalanceFrom? t text := by
  induction text generalizing s t with
  | nil => rfl
  | cons c rest ih => simp only [spacedFrom, imbalanceFrom?, Scan.step_spaced, ih]

@[simp] theorem balanced_spaced {text : List Char} : Balanced (spaced text) ↔ Balanced text := by
  rw [Balanced, imbalance?, spaced, imbalanceFrom?_spacedFrom, Balanced, imbalance?]

theorem closing?_spacedFrom (s : Scan) (text : List Char) :
    closing? s (spacedFrom s text) = (closing? s text).map (Prod.map (spacedFrom s) spaced) := by
  induction text generalizing s with
  | nil => rfl
  | cons c rest ih =>
    simp only [spacedFrom, closing?, Scan.spaced_eq_iff (show Text.isBlank ')' = false by decide), Scan.step_spaced]
    split
    · rename_i hclose
      obtain ⟨rfl, hquoted, hone⟩ := hclose
      have : s.step ')' = Scan.start := by simp [Scan.step, Scan.start, hquoted, hone]
      simp [this, spacedFrom, spaced]
    · rw [ih, Option.map_map, Option.map_map]
      rfl

theorem enclosed?_spaced (text : List Char) : enclosed? (spaced text) = (enclosed? text).map spaced := by
  cases text with
  | nil => rfl
  | cons c rest =>
    by_cases hc : c = '('
    · subst hc
      have hspaced : spaced ('(' :: rest) = '(' :: spacedFrom ⟨1, false⟩ rest := rfl
      rw [hspaced, enclosed?, enclosed?, closing?_spacedFrom]
      cases closing? ⟨1, false⟩ rest with
      | none => rfl
      | some parts =>
        obtain ⟨inner, after⟩ := parts
        cases after with
        | nil => simp [spaced, spacedFrom, Scan.spacedFrom_congr (show (⟨1, false⟩ : Scan).quoted = Scan.start.quoted from rfl)]
        | cons d after => simp [spaced, spacedFrom]
    · have hspaced : Scan.start.spaced c ≠ '(' := by
        rwa [ne_eq, Scan.spaced_eq_iff (show Text.isBlank '(' = false by decide)]
      have hnone := @enclosed?_eq_none (Scan.start.spaced c) (spaced (c :: rest)) rfl hspaced
      rw [hnone, @enclosed?_eq_none c (c :: rest) rfl hc]
      rfl

theorem stripParens_spaced (text : List Char) : stripParens (spaced text) = spaced (stripParens text) := by
  induction text using stripParens.induct with
  | case1 text inner hinner ih =>
    have hspaced := enclosed?_spaced text
    rw [hinner] at hspaced
    rw [stripParens_of_enclosed hspaced, stripParens_of_enclosed hinner, trim_spaced, ih]
  | case2 text hnone =>
    rw [stripParens_eq_self hnone, stripParens_eq_self (by rw [enclosed?_spaced, hnone]; rfl)]

/-! ## Splitting -/

theorem splitTop_spacedFrom (s : Scan) (text : List Char) :
    splitTop ',' s (spacedFrom s text) =
      match splitTop ',' s text with
      | [] => []
      | part :: parts => spacedFrom s part :: parts.map spaced := by
  induction text generalizing s with
  | nil => rfl
  | cons c rest ih =>
    simp only [spacedFrom, splitTop, Scan.spaced_eq_iff (show Text.isBlank ',' = false by decide), Scan.step_spaced]
    split
    · rename_i hsplit
      obtain ⟨rfl, htop⟩ := hsplit
      obtain rfl := Scan.isTop_iff.1 htop
      rw [Scan.step_eq_self (by decide) (by decide) (by decide), ih]
      cases splitTop ',' Scan.start rest with
      | nil => rfl
      | cons part parts => rfl
    · rw [ih]
      cases splitTop ',' (s.step c) rest with
      | nil => rfl
      | cons part parts => rfl

theorem splitTop_spaced (text : List Char) :
    splitTop ',' Scan.start (spaced text) = (splitTop ',' Scan.start text).map spaced := by
  rw [spaced, splitTop_spacedFrom]
  cases splitTop ',' Scan.start text with
  | nil => rfl
  | cons part parts => rfl

theorem head?_spacedFrom_eq_some {d : Char} (hd : Text.isBlank d = false) (s : Scan) (text : List Char) :
    (spacedFrom s text).head? = some d ↔ text.head? = some d := by
  cases text with
  | nil => rfl
  | cons c rest => simp [spacedFrom, Scan.spaced_eq_iff hd]

theorem splitAssignment?_spacedFrom (s : Scan) (text : List Char) :
    splitAssignment? s (spacedFrom s text) = (splitAssignment? s text).map (Prod.map (spacedFrom s) spaced) := by
  induction text generalizing s with
  | nil => rfl
  | cons c rest ih =>
    simp only [spacedFrom, splitAssignment?, Scan.spaced_eq_iff (show Text.isBlank ':' = false by decide),
      Scan.step_spaced, head?_spacedFrom_eq_some (show Text.isBlank '=' = false by decide)]
    split
    · rename_i hsplit
      obtain ⟨rfl, htop, hhead⟩ := hsplit
      obtain rfl := Scan.isTop_iff.1 htop
      cases rest with
      | nil => simp at hhead
      | cons d rest =>
        obtain rfl : d = '=' := by simpa using hhead
        rfl
    · rw [ih, Option.map_map, Option.map_map]
      rfl

/-! ## Names -/

theorem isNameStart_of_isBlank {c : Char} (h : Text.isBlank c = true) : isNameStart c = false := by
  cases hstart : isNameStart c with
  | false => rfl
  | true => simp [isBlank_of_isNamePart (isNamePart_of_isNameStart hstart)] at h

theorem isNamePart_spaced (s : Scan) (c : Char) : isNamePart (s.spaced c) = isNamePart c := by
  rcases s.spaced_cases c with h | ⟨h, hc⟩
  · rw [h]
  · have : isNamePart c = false := by
      cases hpart : isNamePart c with
      | false => rfl
      | true => simp [isBlank_of_isNamePart hpart] at hc
    rw [h, this]
    decide

theorem isNameStart_spaced (s : Scan) (c : Char) : isNameStart (s.spaced c) = isNameStart c := by
  rcases s.spaced_cases c with h | ⟨h, hc⟩
  · rw [h]
  · rw [h, isNameStart_of_isBlank hc]
    decide

/-- The beginning of a text that is part of a name stays as it is. -/
theorem takeWhile_isNamePart_spacedFrom (s : Scan) (text : List Char) :
    (spacedFrom s text).takeWhile isNamePart = text.takeWhile isNamePart ∧
      (spacedFrom s text).dropWhile isNamePart = spacedFrom s (text.dropWhile isNamePart) := by
  induction text generalizing s with
  | nil => exact ⟨rfl, rfl⟩
  | cons c rest ih =>
    cases hc : isNamePart c with
    | true =>
      have hstep : s.step c = s := by
        obtain ⟨hquote, hopen, hclose⟩ := unnested_of_isNamePart hc
        exact Scan.step_eq_self hquote hopen hclose s
      simp [spacedFrom, hc, hstep, ih, Scan.spaced_eq_self (isBlank_of_isNamePart hc)]
    | false => simp [spacedFrom, isNamePart_spaced, hc]

/-- A name is split off as it is, and what follows it is spaced. -/
theorem splitName_spaced (text : List Char) :
    splitName (spaced text) = ((splitName text).1, spaced (splitName text).2) := by
  cases text with
  | nil => rfl
  | cons c rest =>
    simp only [spaced, spacedFrom, splitName, isNameStart_spaced]
    split
    · rename_i hc
      have hpart := isNamePart_of_isNameStart hc
      obtain ⟨hquote, hopen, hclose⟩ := unnested_of_isNamePart hpart
      rw [Scan.step_eq_self hquote hopen hclose, Scan.spaced_eq_self (isBlank_of_isNamePart hpart)]
      have := takeWhile_isNamePart_spacedFrom Scan.start rest
      rw [this.1, this.2]
    · rfl

theorem isName_spacedFrom (s : Scan) (text : List Char) : isName (spacedFrom s text) = isName text := by
  have hall : ∀ s (rest : List Char), (spacedFrom s rest).all isNamePart = rest.all isNamePart := by
    intro s rest
    induction rest generalizing s with
    | nil => rfl
    | cons d rest ih => rw [spacedFrom, List.all_cons, isNamePart_spaced, ih, List.all_cons]
  cases text with
  | nil => rfl
  | cons c rest => rw [spacedFrom, isName, isName, isNameStart_spaced, hall]

theorem spaced_of_isName {text : List Char} (h : isName text = true) : spaced text = text :=
  spacedFrom_eq_self (fun _ hc => isBlank_of_isNamePart (forall_isNamePart_of_isName h _ hc)) _

/-! ## Calls and assignments -/

theorem Shape.callParts?_spaced (text : List Char) :
    callParts? (spaced text) = (callParts? text).map (Prod.map id spaced) := by
  simp only [callParts?, splitName_spaced]
  split
  · rfl
  · have htrim : Text.trimStart (spaced (splitName text).2) = spaced (Text.trimStart (splitName text).2) :=
      trimStart_spacedFrom _ _
    rw [htrim, enclosed?_spaced, Option.map_map, Option.map_map]
    rfl

theorem Assignable.ofText_spaced (text : List Char) :
    (ofText (spaced text)).toOption = (ofText text).toOption.map (Prod.map id spaced) := by
  rw [ofText, spaced, splitAssignment?_spacedFrom]
  unfold ofText
  cases splitAssignment? Scan.start text with
  | none => rfl
  | some parts =>
    obtain ⟨target, body⟩ := parts
    have htarget : Text.trim (spacedFrom Scan.start target) = spaced (Text.trim target) := trim_spaced target
    simp only [Option.map_some, Prod.map_apply, htarget]
    cases hname : isName (Text.trim target) with
    | true => simp [spaced_of_isName hname, hname, Except.toOption]
    | false =>
      have : isName (spaced (Text.trim target)) = false := (isName_spacedFrom _ _).trans hname
      simp [this, Except.toOption]

/-! ## Literals and tokens -/

theorem undouble?_spacedFrom {s : Scan} (hs : s.quoted = true) (body : List Char) :
    Text.undouble? '\'' (spacedFrom s body) = Text.undouble? '\'' body := by
  induction body using Text.undouble?.induct '\'' generalizing s with
  | case1 => rfl
  | case2 c hc => simp [spacedFrom, Scan.spaced_of_quoted hs]
  | case3 c hc => simp [spacedFrom, Scan.spaced_of_quoted hs]
  | case4 c d rest hc hd ih =>
    obtain rfl : c = '\'' := by simpa using hc
    obtain rfl : d = '\'' := by simpa using hd
    have hquoted : ((s.step '\'').step '\'').quoted = true := by simp [Scan.quoted_step, hs]
    have hquote := Scan.spaced_eq_self (show Text.isBlank '\'' = false by decide)
    simp [spacedFrom, hquote, Text.undouble?, ih hquoted]
  | case5 c d rest hc hd =>
    obtain rfl : c = '\'' := by simpa using hc
    have hquote := Scan.spaced_eq_iff (show Text.isBlank '\'' = false by decide)
    simp_all [spacedFrom, Scan.spaced_of_quoted hs, Text.undouble?]
  | case6 c d rest hc ih =>
    have hne : c ≠ '\'' := by simpa using hc
    have hquoted : (s.step c).quoted = true := by simp [Scan.quoted_step, hs, hne]
    have hrest := ih hquoted
    rw [spacedFrom, Scan.spaced_of_quoted hquoted] at hrest
    rw [spacedFrom, Scan.spaced_of_quoted hs, spacedFrom, Scan.spaced_of_quoted hquoted, Text.undouble?, if_neg hc,
      hrest, Text.undouble?, if_neg hc]

theorem breaksToken_spaced (s : Scan) (c : Char) : Shape.breaksToken (s.spaced c) = Shape.breaksToken c := by
  rcases s.spaced_cases c with h | ⟨h, hc⟩
  · rw [h]
  · rw [h, Shape.breaksToken, Shape.breaksToken, hc]
    simp [show Text.isBlank ' ' = true by decide]

theorem any_breaksToken_spacedFrom (s : Scan) (text : List Char) :
    (spacedFrom s text).any Shape.breaksToken = text.any Shape.breaksToken := by
  induction text generalizing s with
  | nil => rfl
  | cons c rest ih => rw [spacedFrom, List.any_cons, breaksToken_spaced, ih, List.any_cons]

/-- A bare token shows no blank, so it stays as it is. -/
theorem spacedFrom_of_not_breaks {text : List Char} (h : text.any Shape.breaksToken = false) (s : Scan) :
    spacedFrom s text = text := by
  refine spacedFrom_eq_self (fun c hc => ?_) s
  have := List.any_eq_false.1 h c hc
  simp only [Shape.breaksToken, Bool.or_eq_true, not_or, Bool.not_eq_true] at this
  exact this.2

namespace Shape

theorem ofAtom_enclosed (body : List Char) (c : Char) : (ofAtom ('\'' :: (body ++ [c]))).toOption =
    if c = '\'' then (Text.undouble? '\'' body).map fun content => quoted (String.ofList content) else none := by
  unfold ofAtom
  simp only [List.reverse_append, List.reverse_singleton, List.singleton_append]
  split
  · rename_i front heq
    obtain ⟨rfl, rfl⟩ := List.cons.inj heq
    rw [List.reverse_reverse]
    cases Text.undouble? '\'' body <;> rfl
  · rename_i hne
    have hc : c ≠ '\'' := fun h => hne body.reverse (by rw [h])
    rw [if_neg hc]
    rfl

theorem ofAtom_bare {text : List Char} (h : text.head? ≠ some '\'') : (ofAtom text).toOption =
    if text.any breaksToken then none else some (leaf (String.ofList text)) := by
  unfold ofAtom
  split
  · exact absurd rfl h
  · split <;> rfl

/-- A text is the same literal or token when it is spaced, or neither is one. -/
theorem ofAtom_spaced (text : List Char) : (ofAtom (spaced text)).toOption = (ofAtom text).toOption := by
  have hquote : Text.isBlank '\'' = false := by decide
  by_cases hhead : text.head? = some '\''
  · obtain ⟨rest, rfl⟩ : ∃ rest, text = '\'' :: rest := by
      cases text with
      | nil => simp at hhead
      | cons c rest => exact ⟨rest, by simpa using hhead⟩
    have hspaced : spaced ('\'' :: rest) = '\'' :: spacedFrom ⟨0, true⟩ rest := rfl
    rw [hspaced]
    rcases List.eq_nil_or_concat rest with rfl | ⟨body, c, rfl⟩
    · rfl
    · rw [List.concat_eq_append, spacedFrom_append, spacedFrom, spacedFrom, ofAtom_enclosed, ofAtom_enclosed]
      simp only [Scan.spaced_eq_iff hquote]
      rw [undouble?_spacedFrom rfl]
  · have hspaced : (spaced text).head? ≠ some '\'' := by rwa [spaced, ne_eq, head?_spacedFrom_eq_some hquote]
    rw [ofAtom_bare hspaced, ofAtom_bare hhead, spaced, any_breaksToken_spacedFrom]
    split
    · rfl
    · rename_i hbreaks
      rw [spacedFrom_of_not_breaks (by simpa using hbreaks)]

end Shape

/-! ## Operators of a spaced text -/

theorem Symbol.atStart?_spacedFrom (s : Scan) (text : List Char) :
    atStart? (spacedFrom s text) = atStart? text := by
  match text with
  | [] => rfl
  | c :: rest =>
    cases hc : Text.isBlank c with
    | true =>
      rw [spacedFrom, atStart?_eq_none (beginsSymbol_of_isBlank hc),
        atStart?_eq_none (beginsSymbol_of_isBlank (by simpa using hc))]
    | false =>
      rw [spacedFrom, Scan.spaced_eq_self hc]
      match rest with
      | [] => rfl
      | d :: rest =>
        cases hd : Text.isBlank d with
        | true =>
          rw [spacedFrom, atStart?_cons c (endsSymbol_of_isBlank hd rest),
            atStart?_cons c (endsSymbol_of_isBlank (by simpa using hd) _)]
        | false =>
          rw [spacedFrom, Scan.spaced_eq_self hd]
          exact atStart?_cons_cons c d _ _

theorem Scan.symbol?_spacedFrom (s t : Scan) (text : List Char) :
    t.symbol? (spacedFrom s text) = t.symbol? text := by
  simp only [symbol?, Symbol.atStart?_spacedFrom]

theorem sameMark_spacedFrom (s : Scan) (text : List Char) : SameMark text.reverse (spacedFrom s text).reverse := by
  induction text using List.reverseRecOn with
  | nil => exact SameMark.refl []
  | append_singleton front c ih =>
    rw [spacedFrom_append, List.reverse_append, List.reverse_append]
    simp only [List.reverse_singleton, List.singleton_append, spacedFrom]
    rcases (s.run front).spaced_cases c with h | ⟨h, hc⟩
    · rw [h]
      exact ih.cons c
    · -- A blank hides what stands in front of it, and so does the space in its place.
      rw [h]
      intro text
      rw [← sameMark_of_isBlank hc front.reverse text, sameMark_space]

theorem spacedFrom_spelling (symbol : Symbol) (s : Scan) : spacedFrom s symbol.spelling = symbol.spelling :=
  spacedFrom_eq_self (fun _ hc => (Symbol.mem_spelling hc).2.2.2) s

theorem spacedFrom_spelling_append (symbol : Symbol) (s : Scan) (rest : List Char) :
    spacedFrom s (symbol.spelling ++ rest) = symbol.spelling ++ spacedFrom s rest := by
  rw [spacedFrom_append, spacedFrom_spelling, symbol.run_spelling]

/-- The occurrence in the spaced text. -/
def Occurrence.spaced (o : Occurrence) : Occurrence :=
  ⟨Tabular.spaced o.before, o.symbol, o.symbol.mayLead && Text.allBlank o.before⟩

theorem operatorsFrom_spaced {s : Scan} {gap : List Char} (hgap : Scan.start.run gap.reverse = s) (fresh : Bool)
    (text : List Char) :
    operatorsFrom s (Text.allBlank gap.reverse) (spaced gap.reverse).reverse (spacedFrom s text) =
      ((operatorsFrom s fresh gap text).1.map Occurrence.spaced, spaced (operatorsFrom s fresh gap text).2) := by
  have hmark : ∀ gap : List Char, endsInExponentMark (spaced gap.reverse).reverse = endsInExponentMark gap := by
    intro gap
    have := sameMark_spacedFrom Scan.start gap.reverse []
    rw [List.reverse_reverse] at this
    exact this.symm
  induction s, fresh, gap, text using operatorsFrom_induction with
  | nil s fresh gap => simp [operatorsFrom, spacedFrom]
  | passed s fresh gap c rest hsymbol ih =>
    have hsymbol' : s.symbol? (s.spaced c :: spacedFrom (s.step c) rest) = none :=
      (Scan.symbol?_spacedFrom s s (c :: rest)).trans hsymbol
    have hstep : Scan.start.run (c :: gap).reverse = s.step c := by
      rw [List.reverse_cons, Scan.run_append, hgap, Scan.run_cons, Scan.run_nil]
    have hspaced : (spaced (c :: gap).reverse).reverse = s.spaced c :: (spaced gap.reverse).reverse := by
      rw [spaced, List.reverse_cons, spacedFrom_append, hgap, List.reverse_append]
      rfl
    have hfresh : Text.allBlank (c :: gap).reverse = (Text.allBlank gap.reverse && Text.isAsciiBlank (s.spaced c)) := by
      rw [List.reverse_cons, Text.allBlank_append]
      cases hblank : Text.allBlank gap.reverse with
      | false => rfl
      | true =>
        -- No quote is open behind blanks, so the character is spaced if it is a blank.
        obtain rfl : Scan.start = s := by rw [← hgap, Scan.run_eq_self_of_allBlank hblank]
        simpa [spaced, spacedFrom] using (all_isAsciiBlank_spaced [c]).symm
    rw [operatorsFrom_cons_of_none hsymbol, ← ih hstep, spacedFrom, operatorsFrom_cons_of_none hsymbol', hspaced,
      hfresh, Scan.step_spaced]
  | exponent s fresh gap symbol rest hsymbol hsign hexponent ih =>
    have hsymbol' : s.symbol? (symbol.spelling ++ spacedFrom s rest) = some symbol := by
      rw [← spacedFrom_spelling_append, Scan.symbol?_spacedFrom, hsymbol]
    have hstep : Scan.start.run (symbol.spelling.reverse ++ gap).reverse = s := by
      rw [List.reverse_append, List.reverse_reverse, Scan.run_append, hgap, symbol.run_spelling]
    have hspaced : (spaced (symbol.spelling.reverse ++ gap).reverse).reverse =
        symbol.spelling.reverse ++ (spaced gap.reverse).reverse := by
      rw [List.reverse_append, List.reverse_reverse, spaced, spacedFrom_append, List.reverse_append,
        spacedFrom_spelling]
      rfl
    have hfresh : Text.allBlank (symbol.spelling.reverse ++ gap).reverse = false := by
      rw [List.reverse_append, List.reverse_reverse, Text.allBlank_append, symbol.allBlank_spelling, Bool.and_false]
    rw [operatorsFrom_exponent hsymbol hsign hexponent, ← ih hstep, spacedFrom_spelling_append,
      operatorsFrom_exponent hsymbol' hsign (by rw [hmark, hexponent]), hspaced, hfresh]
  | operator fresh gap symbol rest hsymbol hsign ih =>
    have hsymbol' : Scan.start.symbol? (symbol.spelling ++ spacedFrom Scan.start rest) = some symbol := by
      rw [← spacedFrom_spelling_append, Scan.symbol?_spacedFrom, hsymbol]
    have hrest : operators (spaced rest) = _ := ih rfl
    rw [operatorsFrom_operator hsymbol hsign, spacedFrom_spelling_append,
      operatorsFrom_operator hsymbol' (by rw [hmark, hsign]), ← spaced, hrest, List.reverse_reverse]
    rfl

/-- The operators of a spaced text are those of the text, and one leads wherever it may behind blanks. -/
theorem operators_spaced (text : List Char) :
    operators (spaced text) = ((operators text).1.map Occurrence.spaced, spaced (operators text).2) :=
  @operatorsFrom_spaced Scan.start [] rfl true text

end Tabular
