-- SUMMARY: What the scan for operators finds in the parts of a text: behind an operator, in front of one, and behind blanks.
import Tabular.Proofs.Formula.Operand

/-!
# Operators in parts of a text

The scan carries little from one operator to the next: behind an operator it goes on as from the start of a text
(`operators_drop`), and what follows an operator does not change what is found in front of it (`operators_take`). So the
operators between two operators are those of the text between them. Blanks in front of a text change nothing but its
first operator (`operators_blanks_append`). An operator leads exactly if it may and only ASCII blanks separate it from
the one before it (`of_mem_operators`).
-/

namespace Tabular

/-! ## Symbols -/

namespace Symbol

/-- Where a longer text begins with no symbol, its first character is none by itself. -/
theorem atStart?_singleton_eq_none {c : Char} {rest : List Char} (h : atStart? (c :: rest) = none) :
    atStart? [c] = none := by
  cases hc : atStart? [c] with
  | none => rfl
  | some symbol =>
    unfold atStart? at hc
    split at hc <;> simp_all
    all_goals cases rest with
    | nil => simp [atStart?] at h
    | cons d rest => by_cases hd : d = '=' <;> simp [atStart?, hd] at h

/-- Where no symbol begins in a text, none begins in a beginning of it. -/
theorem atStart?_eq_none_of_append {text rest : List Char} (h : atStart? (text ++ rest) = none) :
    atStart? text = none := by
  match text with
  | [] => rfl
  | [c] => exact atStart?_singleton_eq_none h
  | c :: d :: text => rwa [List.cons_append, List.cons_append, atStart?_cons_cons c d _ text] at h

theorem atStart?_singleton {c : Char} {symbol : Symbol} (h : symbol.spelling = [c]) : atStart? [c] = some symbol := by
  cases symbol with
  | bang =>
    obtain rfl : '!' = c := by simpa [spelling] using h
    rfl
  | binary op => cases op <;> simp [spelling, BinaryOp.spelling] at h <;> subst h <;> rfl

/-- A symbol is found in a beginning of a text that holds all of it. -/
theorem atStart?_of_append {text rest : List Char} {symbol : Symbol}
    (h : atStart? (symbol.spelling ++ (text ++ rest)) = some symbol) :
    atStart? (symbol.spelling ++ text) = some symbol := by
  match hspelling : symbol.spelling, text with
  | [], _ => exact absurd hspelling symbol.spelling_ne_nil
  | [c], [] => exact atStart?_singleton hspelling
  | [c], d :: text =>
    rw [hspelling] at h
    exact (atStart?_cons_cons c d text (text ++ rest)).trans h
  | c :: d :: more, text =>
    rw [hspelling] at h
    exact (atStart?_cons_cons c d (more ++ text) (more ++ (text ++ rest))).trans h

theorem mem_spelling {symbol : Symbol} {c : Char} (hc : c ∈ symbol.spelling) :
    c ≠ '\'' ∧ c ≠ '(' ∧ c ≠ ')' ∧ Text.isBlank c = false := by
  cases symbol with
  | bang =>
    obtain rfl : c = '!' := by simpa [spelling] using hc
    decide
  | binary op =>
    cases op <;> simp [spelling, BinaryOp.spelling] at hc <;> rcases hc with rfl | rfl <;> decide

theorem run_spelling (symbol : Symbol) (s : Scan) : s.run symbol.spelling = s :=
  Scan.run_eq_self (fun _ hc => ⟨(mem_spelling hc).1, (mem_spelling hc).2.1, (mem_spelling hc).2.2.1⟩) s

theorem allBlank_spelling (symbol : Symbol) : Text.allBlank symbol.spelling = false := by
  cases symbol with
  | bang => rfl
  | binary op => cases op <;> rfl

theorem all_isAsciiBlank_spelling (symbol : Symbol) : symbol.spelling.all Text.isAsciiBlank = false :=
  Bool.eq_false_iff.2 fun h => by simpa [allBlank_spelling] using Text.allBlank_of_all_isAsciiBlank h

theorem isSign_iff {symbol : Symbol} :
    symbol.isSign = true ↔ symbol = .binary .add ∨ symbol = .binary .subtract := by
  cases symbol with
  | bang => simp [isSign]
  | binary op => cases op <;> simp [isSign]

theorem mayLead_of_isSign {symbol : Symbol} (h : symbol.isSign = true) : symbol.mayLead = true := by
  rcases isSign_iff.1 h with rfl | rfl <;> rfl

theorem exists_spelling_of_isSign {symbol : Symbol} (h : symbol.isSign = true) :
    ∃ c, symbol.spelling = [c] ∧ (c = '+' ∨ c = '-') := by
  rcases isSign_iff.1 h with rfl | rfl
  · exact ⟨'+', rfl, .inl rfl⟩
  · exact ⟨'-', rfl, .inr rfl⟩

end Symbol

namespace Scan

theorem isTop_iff {s : Scan} : s.isTop = true ↔ s = start := by
  obtain ⟨depth, quoted⟩ := s
  simp [isTop, start, and_comm]

theorem symbol?_eq_some {s : Scan} {text : List Char} {symbol : Symbol} :
    s.symbol? text = some symbol ↔ s = start ∧ Symbol.atStart? text = some symbol := by
  unfold symbol?
  split
  · rename_i htop
    simp [isTop_iff.1 htop]
  · rename_i htop
    simp [isTop_iff] at htop
    simp [htop]

theorem symbol?_eq_none_of_append {s : Scan} {text rest : List Char} (h : s.symbol? (text ++ rest) = none) :
    s.symbol? text = none := by
  unfold symbol? at h ⊢
  split
  · rename_i htop
    rw [if_pos htop] at h
    exact Symbol.atStart?_eq_none_of_append h
  · rfl

theorem symbol?_of_append {s : Scan} {text rest : List Char} {symbol : Symbol}
    (h : s.symbol? (symbol.spelling ++ (text ++ rest)) = some symbol) :
    s.symbol? (symbol.spelling ++ text) = some symbol := by
  rw [symbol?_eq_some] at h ⊢
  exact ⟨h.1, Symbol.atStart?_of_append h.2⟩

end Scan

/-! ## Before and behind an operator -/

theorem joined_cons (o : Occurrence) (more : List Occurrence) (last : List Char) :
    joined (o :: more) last = o.before ++ (o.symbol.spelling ++ joined more last) := by
  simp [joined, Occurrence.chars]

theorem joined_append (found more : List Occurrence) (last : List Char) :
    joined (found ++ more) last = found.flatMap Occurrence.chars ++ joined more last := by
  simp [joined]

/-- The sign of an exponent is passed over like any other character. -/
theorem operatorsFrom_exponent {s : Scan} {rest gap : List Char} {symbol : Symbol}
    (hsymbol : s.symbol? (symbol.spelling ++ rest) = some symbol) (hsign : symbol.isSign = true)
    (hmark : endsInExponentMark gap = true) (fresh : Bool) :
    operatorsFrom s fresh gap (symbol.spelling ++ rest) =
      operatorsFrom s false (symbol.spelling.reverse ++ gap) rest := by
  obtain ⟨c, hspelling, -⟩ := symbol.exists_spelling_of_isSign hsign
  rw [hspelling, List.singleton_append] at hsymbol
  rw [hspelling, List.singleton_append, operatorsFrom, hsymbol]
  simp only [hsign, hmark, Bool.and_self, if_true, List.reverse_singleton, List.singleton_append]

/-- Behind an operator the scan goes on as from the start of a text. -/
theorem operatorsFrom_operator {rest gap : List Char} {symbol : Symbol}
    (hsymbol : Scan.start.symbol? (symbol.spelling ++ rest) = some symbol)
    (hsign : (symbol.isSign && endsInExponentMark gap) = false) (fresh : Bool) :
    operatorsFrom Scan.start fresh gap (symbol.spelling ++ rest) =
      (⟨gap.reverse, symbol, symbol.mayLead && fresh⟩ :: (operators rest).1, (operators rest).2) := by
  cases hspelling : symbol.spelling with
  | nil => exact absurd hspelling symbol.spelling_ne_nil
  | cons c more =>
    rw [hspelling, List.cons_append] at hsymbol
    rw [List.cons_append, operatorsFrom, hsymbol]
    simp only [hsign, Bool.false_eq_true, if_false, operators, hspelling, List.length_cons, Nat.add_sub_cancel,
      List.drop_left]

/-- The induction on the scan: the end of the text, a character that is passed over, the sign of an exponent, and an
    operator with the text behind it. -/
theorem operatorsFrom_induction {P : Scan → Bool → List Char → List Char → Prop}
    (nil : ∀ s fresh gap, P s fresh gap [])
    (passed : ∀ s fresh gap c rest, s.symbol? (c :: rest) = none →
      P (s.step c) (fresh && Text.isAsciiBlank c) (c :: gap) rest → P s fresh gap (c :: rest))
    (exponent : ∀ s fresh gap (symbol : Symbol) rest, s.symbol? (symbol.spelling ++ rest) = some symbol →
      symbol.isSign = true → endsInExponentMark gap = true →
      P s false (symbol.spelling.reverse ++ gap) rest → P s fresh gap (symbol.spelling ++ rest))
    (operator : ∀ fresh gap (symbol : Symbol) rest, Scan.start.symbol? (symbol.spelling ++ rest) = some symbol →
      (symbol.isSign && endsInExponentMark gap) = false → P Scan.start true [] rest →
      P Scan.start fresh gap (symbol.spelling ++ rest))
    (s : Scan) (fresh : Bool) (gap text : List Char) : P s fresh gap text := by
  induction s, fresh, gap, text using operatorsFrom.induct with
  | case1 s fresh gap => exact nil s fresh gap
  | case2 s fresh gap c rest hsymbol ih => exact passed s fresh gap c rest hsymbol ih
  | case3 s fresh gap c rest symbol hsymbol hsign ih =>
    simp only [Bool.and_eq_true] at hsign
    obtain ⟨d, hd, -⟩ := symbol.exists_spelling_of_isSign hsign.1
    obtain rfl : d = c := by simpa [hd] using Scan.spelling_append_drop hsymbol
    have := exponent s fresh gap symbol rest
    simp only [hd, List.singleton_append, List.reverse_singleton] at this
    exact this hsymbol hsign.1 hsign.2 ih
  | case4 s fresh gap c rest symbol hsymbol hsign found last hfound ih =>
    have hspelling := Scan.spelling_append_drop hsymbol
    rw [← hspelling] at hsymbol ⊢
    obtain rfl := (Scan.symbol?_eq_some.1 hsymbol).1
    exact operator fresh gap symbol _ hsymbol (by simpa using hsign) ih

theorem operatorsFrom_drop {s : Scan} {fresh : Bool} {gap text last : List Char} {o : Occurrence}
    {more : List Occurrence} (h : operatorsFrom s fresh gap text = (o :: more, last)) :
    operators (joined more last) = (more, last) := by
  induction s, fresh, gap, text using operatorsFrom_induction with
  | nil => simp [operatorsFrom] at h
  | passed s fresh gap c rest hsymbol ih => exact ih (by rwa [operatorsFrom_cons_of_none hsymbol] at h)
  | exponent s fresh gap symbol rest hsymbol hsign hmark ih =>
    exact ih (by rwa [operatorsFrom_exponent hsymbol hsign hmark] at h)
  | operator fresh gap symbol rest hsymbol hsign ih =>
    rw [operatorsFrom_operator hsymbol hsign] at h
    obtain ⟨hcons, rfl⟩ := Prod.mk.inj h
    obtain ⟨-, rfl⟩ := List.cons.inj hcons
    rw [joined_operators]

/-- What is found behind an operator is found in the text behind it. -/
theorem operators_drop {text last : List Char} {pre found : List Occurrence}
    (h : operators text = (pre ++ found, last)) : operators (joined found last) = (found, last) := by
  induction pre generalizing text with
  | nil =>
    have hjoined := joined_operators text
    rw [h, List.nil_append] at hjoined
    rw [hjoined, h, List.nil_append]
  | cons o pre ih => exact ih (operatorsFrom_drop h)

/-- What stands in front of an operator is scanned as if the text ended there. -/
theorem operatorsFrom_take {s : Scan} {fresh : Bool} {gap text last : List Char} {o : Occurrence}
    {pre post : List Occurrence} (h : operatorsFrom s fresh gap text = (pre ++ o :: post, last)) :
    ∃ front rest, text = front ++ rest ∧ operatorsFrom s fresh gap front = (pre, o.before) := by
  induction s, fresh, gap, text using operatorsFrom_induction generalizing pre with
  | nil => simp [operatorsFrom] at h
  | passed s fresh gap c rest hsymbol ih =>
    rw [operatorsFrom_cons_of_none hsymbol] at h
    obtain ⟨front, rest, rfl, hfront⟩ := ih h
    rw [← List.cons_append] at hsymbol
    exact ⟨c :: front, rest, rfl, by rw [operatorsFrom_cons_of_none (Scan.symbol?_eq_none_of_append hsymbol), hfront]⟩
  | exponent s fresh gap symbol rest hsymbol hsign hmark ih =>
    rw [operatorsFrom_exponent hsymbol hsign hmark] at h
    obtain ⟨front, rest, rfl, hfront⟩ := ih h
    refine ⟨symbol.spelling ++ front, rest, (List.append_assoc ..).symm, ?_⟩
    rw [operatorsFrom_exponent (Scan.symbol?_of_append hsymbol) hsign hmark, hfront]
  | operator fresh gap symbol rest hsymbol hsign ih =>
    rw [operatorsFrom_operator hsymbol hsign] at h
    obtain ⟨hcons, rfl⟩ := Prod.mk.inj h
    cases pre with
    | nil =>
      obtain ⟨rfl, -⟩ := List.cons.inj hcons
      exact ⟨[], _, rfl, by simp [operatorsFrom]⟩
    | cons p pre =>
      obtain ⟨rfl, hmore⟩ := List.cons.inj hcons
      obtain ⟨front, rest, rfl, hfront⟩ := ih (Prod.ext hmore rfl)
      refine ⟨symbol.spelling ++ front, rest, (List.append_assoc ..).symm, ?_⟩
      rw [operatorsFrom_operator (Scan.symbol?_of_append hsymbol) hsign, operators, hfront]

theorem operators_take {text last : List Char} {o : Occurrence} {pre post : List Occurrence}
    (h : operators text = (pre ++ o :: post, last)) : operators (joined pre o.before) = (pre, o.before) := by
  obtain ⟨front, rest, -, hfront⟩ := operatorsFrom_take h
  have hjoined := joined_operators front
  rw [operators, hfront] at hjoined
  rw [hjoined, operators, hfront]

/-- The texts in front of the operators come back to the start, and ASCII blanks alone let a symbol lead. -/
theorem of_mem_operatorsFrom {s : Scan} {fresh : Bool} {gap text : List Char}
    (hgap : Scan.start.run gap.reverse = s) (hfresh : fresh = gap.all Text.isAsciiBlank) {o : Occurrence}
    (ho : o ∈ (operatorsFrom s fresh gap text).1) :
    Scan.start.run o.before = Scan.start ∧ o.leads = (o.symbol.mayLead && o.before.all Text.isAsciiBlank) := by
  induction s, fresh, gap, text using operatorsFrom_induction with
  | nil => simp [operatorsFrom] at ho
  | passed s fresh gap c rest hsymbol ih =>
    refine ih ?_ ?_ (by rwa [operatorsFrom_cons_of_none hsymbol] at ho)
    · rw [List.reverse_cons, Scan.run_append, hgap, Scan.run_cons, Scan.run_nil]
    · rw [hfresh, List.all_cons, Bool.and_comm]
  | exponent s fresh gap symbol rest hsymbol hsign hmark ih =>
    refine ih ?_ ?_ (by rwa [operatorsFrom_exponent hsymbol hsign hmark] at ho)
    · rw [List.reverse_append, List.reverse_reverse, Scan.run_append, hgap, symbol.run_spelling]
    · rw [List.all_append, List.all_reverse, symbol.all_isAsciiBlank_spelling, Bool.false_and]
  | operator fresh gap symbol rest hsymbol hsign ih =>
    rw [operatorsFrom_operator hsymbol hsign] at ho
    rcases List.mem_cons.1 ho with rfl | ho
    · exact ⟨hgap, by rw [hfresh, List.all_reverse]⟩
    · exact ih rfl rfl ho

theorem of_mem_operators {text : List Char} {o : Occurrence} (ho : o ∈ (operators text).1) :
    Scan.start.run o.before = Scan.start ∧ o.leads = (o.symbol.mayLead && o.before.all Text.isAsciiBlank) :=
  @of_mem_operatorsFrom Scan.start true [] text rfl rfl o ho

/-- The state is back at the start behind every operator. -/
theorem run_flatMap_chars {found : List Occurrence} (h : ∀ o ∈ found, Scan.start.run o.before = Scan.start) :
    Scan.start.run (found.flatMap Occurrence.chars) = Scan.start := by
  induction found with
  | nil => rfl
  | cons o more ih =>
    obtain ⟨ho, h⟩ := List.forall_mem_cons.1 h
    rw [List.flatMap_cons, Scan.run_append, Occurrence.chars, Scan.run_append, ho, o.symbol.run_spelling, ih h]

/-- The operators behind an operator stand in an end of the text that begins at the top level. -/
theorem exists_front {text last : List Char} {pre found : List Occurrence} (h : operators text = (pre ++ found, last)) :
    ∃ front, text = front ++ joined found last ∧ Scan.start.run front = Scan.start := by
  have hjoined := joined_operators text
  rw [h, joined_append] at hjoined
  refine ⟨_, hjoined.symm, run_flatMap_chars fun o ho => ?_⟩
  exact (@of_mem_operators text o (by rw [h]; exact List.mem_append_left _ ho)).1

theorem balanced_drop {text last : List Char} {pre found : List Occurrence}
    (h : operators text = (pre ++ found, last)) (hbalanced : Balanced text) : Balanced (joined found last) := by
  obtain ⟨front, rfl, hfront⟩ := exists_front h
  exact ((balanced_append hfront).1 hbalanced).2

/-! ## Blanks around a text -/

theorem endsSymbol_of_isBlank {c : Char} (h : Text.isBlank c = true) (rest : List Char) : EndsSymbol (c :: rest) := by
  refine endsSymbol_cons ⟨?_, ?_, ?_⟩ <;> rintro rfl <;> exact absurd h (by decide)

theorem endsSymbol_of_allBlank {blanks : List Char} (h : Text.allBlank blanks = true) : EndsSymbol blanks := by
  cases blanks with
  | nil => exact endsSymbol_nil
  | cons c rest => exact endsSymbol_of_isBlank (List.all_eq_true.1 h c List.mem_cons_self) rest

/-- A blank in front of a text is like the start of the text. -/
theorem sameMark_of_isBlank {c : Char} (h : Text.isBlank c = true) (gap : List Char) : SameMark [] (c :: gap) := by
  refine sameMark_cons (Bool.eq_false_iff.2 fun hname => ?_) gap
  simp only [Bool.or_eq_true, beq_iff_eq] at hname
  rcases hname with (hname | rfl) | rfl
  · have := Text.inRanges_of_apart Text.blankRanges_apart_asciiNameRanges h
    simp [inRanges_of_isAlphanum hname] at this
  · exact absurd h (by decide)
  · exact absurd h (by decide)

theorem operatorsFrom_blanks {s : Scan} {fresh : Bool} {gap blanks : List Char} (h : Text.allBlank blanks = true)
    (text : List Char) : operatorsFrom s fresh gap (blanks ++ text) =
      operatorsFrom s (fresh && blanks.all Text.isAsciiBlank) (blanks.reverse ++ gap) text := by
  induction blanks generalizing fresh gap with
  | nil => simp
  | cons c blanks ih =>
    simp only [Text.allBlank, List.all_cons, Bool.and_eq_true] at h
    have hnone : s.symbol? (c :: (blanks ++ text)) = none := by
      simp [Scan.symbol?, Symbol.atStart?_eq_none (beginsSymbol_of_isBlank h.1)]
    rw [List.cons_append, operatorsFrom_cons_of_none hnone, Scan.step_eq_self_of_isBlank h.1, ih h.2]
    simp [Bool.and_assoc]

/-- Blanks behind a text are behind its last operator. -/
theorem operatorsFrom_append_blanks {s : Scan} {fresh : Bool} {gap blanks : List Char}
    (h : Text.allBlank blanks = true) (text : List Char) : operatorsFrom s fresh gap (text ++ blanks) =
      ((operatorsFrom s fresh gap text).1, (operatorsFrom s fresh gap text).2 ++ blanks) := by
  have hends := endsSymbol_of_allBlank h
  induction s, fresh, gap, text using operatorsFrom_induction with
  | nil s fresh gap =>
    have := @operatorsFrom_blanks s fresh gap blanks h []
    rw [List.append_nil] at this
    simp [this, operatorsFrom]
  | passed s fresh gap c rest hsymbol ih =>
    have hsymbol' : s.symbol? (c :: (rest ++ blanks)) = none :=
      (Scan.symbol?_append (List.cons_ne_nil c rest) hends).trans hsymbol
    rw [List.cons_append, operatorsFrom_cons_of_none hsymbol, operatorsFrom_cons_of_none hsymbol', ih]
  | exponent s fresh gap symbol rest hsymbol hsign hmark ih =>
    have hsymbol' : s.symbol? (symbol.spelling ++ (rest ++ blanks)) = some symbol := by
      rw [← List.append_assoc, Scan.symbol?_append (by simp [symbol.spelling_ne_nil]) hends, hsymbol]
    rw [List.append_assoc, operatorsFrom_exponent hsymbol hsign hmark, operatorsFrom_exponent hsymbol' hsign hmark, ih]
  | operator fresh gap symbol rest hsymbol hsign ih =>
    have hsymbol' : Scan.start.symbol? (symbol.spelling ++ (rest ++ blanks)) = some symbol := by
      rw [← List.append_assoc, Scan.symbol?_append (by simp [symbol.spelling_ne_nil]) hends, hsymbol]
    rw [List.append_assoc, operatorsFrom_operator hsymbol hsign, operatorsFrom_operator hsymbol' hsign]
    simp only [operators, ih]

/-- An occurrence with more text in front of it. -/
def Occurrence.behind (front : List Char) (o : Occurrence) : Occurrence :=
  ⟨front ++ o.before, o.symbol, o.leads && front.all Text.isAsciiBlank⟩

/-- The operators of a text with more text in front of it, if none stands there. -/
def behind (front : List Char) : List Occurrence × List Char → List Occurrence × List Char
  | ([], last) => ([], front ++ last)
  | (o :: more, last) => (o.behind front :: more, last)

theorem operatorsFrom_behind {front : List Char} (hfront : SameMark [] front.reverse) (s : Scan) (fresh : Bool)
    (gap text : List Char) : operatorsFrom s (fresh && front.all Text.isAsciiBlank) (gap ++ front.reverse) text =
      behind front (operatorsFrom s fresh gap text) := by
  have hmark : ∀ gap, endsInExponentMark (gap ++ front.reverse) = endsInExponentMark gap := by
    intro gap
    rw [← hfront gap, List.append_nil]
  induction s, fresh, gap, text using operatorsFrom_induction with
  | nil => simp [operatorsFrom, behind]
  | passed s fresh gap c rest hsymbol ih =>
    rw [operatorsFrom_cons_of_none hsymbol, operatorsFrom_cons_of_none hsymbol, ← ih, Bool.and_right_comm,
      List.cons_append]
  | exponent s fresh gap symbol rest hsymbol hsign hgap ih =>
    rw [operatorsFrom_exponent hsymbol hsign hgap, operatorsFrom_exponent hsymbol hsign (by rw [hmark, hgap]), ← ih,
      Bool.false_and, List.append_assoc]
  | operator fresh gap symbol rest hsymbol hsign ih =>
    rw [operatorsFrom_operator hsymbol hsign, operatorsFrom_operator hsymbol (by rw [hmark, hsign])]
    simp [behind, Occurrence.behind, Bool.and_assoc]

theorem sameMark_of_allBlank {blanks : List Char} (h : Text.allBlank blanks = true) :
    SameMark [] blanks.reverse := by
  have hreverse : Text.allBlank blanks.reverse = true := by rwa [Text.allBlank, List.all_reverse]
  cases hcases : blanks.reverse with
  | nil => exact SameMark.refl []
  | cons c more =>
    simp only [hcases, Text.allBlank, List.all_cons, Bool.and_eq_true] at hreverse
    exact sameMark_of_isBlank hreverse.1 more

/-- Blanks in front of a text are in front of its first operator, and may keep that from leading. -/
theorem operators_blanks_append {blanks : List Char} (h : Text.allBlank blanks = true) (text : List Char) :
    operators (blanks ++ text) = behind blanks (operators text) := by
  have := operatorsFrom_behind (sameMark_of_allBlank h) Scan.start true [] text
  rw [operators, operatorsFrom_blanks h, List.append_nil]
  exact this

/-- What trimming changes: the text in front of the first operator and the text behind the last one. -/
theorem exists_operators_trim (text : List Char) : ∃ pre post, Text.allBlank pre = true ∧ Text.allBlank post = true ∧
    text = pre ++ (Text.trim text ++ post) ∧
    operators text = behind pre ((operators (Text.trim text)).1, (operators (Text.trim text)).2 ++ post) := by
  obtain ⟨pre, post, hpre, hpost, htext⟩ := Text.exists_trim text
  refine ⟨pre, post, hpre, hpost, htext, ?_⟩
  have hmiddle : operators (Text.trim text ++ post) = _ := operatorsFrom_append_blanks hpost (Text.trim text)
  rw [htext, operators_blanks_append hpre, hmiddle, ← htext]
  rfl

/-- What stands in front of the first operator of a trimmed text is visible, or it is nothing. -/
theorem before_eq_nil {text : List Char} {o : Occurrence} {more : List Occurrence}
    (hfound : (operators (Text.trim text)).1 = o :: more) (hblank : Text.allBlank o.before = true) : o.before = [] := by
  have hjoined := joined_operators (Text.trim text)
  rw [hfound, joined_cons] at hjoined
  cases hbefore : o.before with
  | nil => rfl
  | cons c rest =>
    rw [hbefore] at hjoined hblank
    simp only [Text.allBlank, List.all_cons, Bool.and_eq_true] at hblank
    cases htext : Text.allBlank text with
    | true =>
      rw [Text.trim_eq_nil htext] at hjoined
      simp at hjoined
    | false =>
      obtain ⟨⟨d, hd, hvisible⟩, -⟩ := Text.tight_trim htext
      rw [← hjoined] at hd
      obtain rfl : c = d := by simpa using hd
      simp [hblank.1] at hvisible

end Tabular
