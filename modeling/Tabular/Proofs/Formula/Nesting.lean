-- SUMMARY: Nesting: how the scan state moves over a text, balanced texts, and texts between parentheses.
import Tabular.Formula.Scan
import Tabular.Proofs.Formula.Trim

/-!
# Nesting

All scanners carry the same state over a text, so what they find is decided by the state in front of each
part of it. `Above` bounds the depth from below all along a text, and `TopSuffix` names the places where a
scanner looks: the ends of a text that begin outside quotes and parentheses. A text is balanced if it keeps
above the ground and comes back to the start, and then a pair of parentheses around it hides all of it.
-/

namespace Tabular

namespace Scan

/-! ## Runs -/

@[simp] theorem run_nil (s : Scan) : s.run [] = s := rfl

@[simp] theorem run_cons (s : Scan) (c : Char) (text : List Char) : s.run (c :: text) = (s.step c).run text := rfl

theorem run_append (s : Scan) (a b : List Char) : s.run (a ++ b) = (s.run a).run b := List.foldl_append

/-- Only quotes and parentheses move the state. -/
theorem step_eq_self {c : Char} (hquote : c ≠ '\'') (hopen : c ≠ '(') (hclose : c ≠ ')') (s : Scan) :
    s.step c = s := by
  simp only [step, if_neg hquote, if_neg hopen, if_neg hclose, ite_self]

theorem run_eq_self {text : List Char} (h : ∀ c ∈ text, c ≠ '\'' ∧ c ≠ '(' ∧ c ≠ ')') (s : Scan) :
    s.run text = s := by
  induction text with
  | nil => rfl
  | cons c rest ih =>
    obtain ⟨hquote, hopen, hclose⟩ := h c List.mem_cons_self
    rw [run_cons, step_eq_self hquote hopen hclose]
    exact ih fun d hd => h d (List.mem_cons_of_mem _ hd)

theorem step_eq_self_of_isBlank {c : Char} (h : Text.isBlank c = true) (s : Scan) : s.step c = s :=
  step_eq_self (by rintro rfl; exact absurd h (by decide)) (by rintro rfl; exact absurd h (by decide))
    (by rintro rfl; exact absurd h (by decide)) s

theorem run_eq_self_of_allBlank {text : List Char} (h : Text.allBlank text = true) (s : Scan) : s.run text = s := by
  induction text with
  | nil => rfl
  | cons c rest ih =>
    simp only [Text.allBlank, List.all_cons, Bool.and_eq_true] at h
    rw [run_cons, step_eq_self_of_isBlank h.1]
    exact ih h.2

theorem quoted_step (s : Scan) (c : Char) : (s.step c).quoted = if c = '\'' then !s.quoted else s.quoted := by
  unfold step
  split
  · rfl
  · split
    · rfl
    · split
      · rfl
      · split <;> rfl

/-- Whether a quote is open does not depend on the depth. -/
theorem quoted_run_congr {s t : Scan} (h : s.quoted = t.quoted) (text : List Char) :
    (s.run text).quoted = (t.run text).quoted := by
  induction text generalizing s t with
  | nil => exact h
  | cons c rest ih =>
    rw [run_cons, run_cons]
    exact ih (by rw [quoted_step, quoted_step, h])

/-! ## Depth -/

/-- The state with the depth counted from another level. -/
def raise (s : Scan) (levels : Int) : Scan := { s with depth := s.depth + levels }

theorem step_raise (s : Scan) (levels : Int) (c : Char) : (s.raise levels).step c = (s.step c).raise levels := by
  unfold step raise
  split
  · rfl
  · split
    · rfl
    · split
      · simp only [mk.injEq, and_true]
        omega
      · split
        · simp only [mk.injEq, and_true]
          omega
        · rfl

theorem run_raise (s : Scan) (levels : Int) (text : List Char) :
    (s.raise levels).run text = (s.run text).raise levels := by
  induction text generalizing s with
  | nil => rfl
  | cons c rest ih => rw [run_cons, run_cons, step_raise, ih]

/-- The depth never falls below `least` along the text. -/
def Above (least : Int) (s : Scan) : List Char → Prop
  | [] => least ≤ s.depth
  | c :: rest => least ≤ s.depth ∧ Above least (s.step c) rest

theorem Above.depth_le {least : Int} {s : Scan} {text : List Char} (h : Above least s text) : least ≤ s.depth := by
  cases text with
  | nil => exact h
  | cons c rest => exact h.1

theorem Above.mono {least lower : Int} {s : Scan} {text : List Char} (h : Above least s text) (hle : lower ≤ least) :
    Above lower s text := by
  induction text generalizing s with
  | nil => exact Int.le_trans hle h
  | cons c rest ih => exact ⟨Int.le_trans hle h.1, ih h.2⟩

theorem above_append {least : Int} {s : Scan} {a b : List Char} :
    Above least s (a ++ b) ↔ Above least s a ∧ Above least (s.run a) b := by
  induction a generalizing s with
  | nil => exact ⟨fun h => ⟨h.depth_le, h⟩, fun h => h.2⟩
  | cons c rest ih => simp only [List.cons_append, Above, run_cons, ih, and_assoc]

theorem above_raise {least levels : Int} {s : Scan} {text : List Char} :
    Above (least + levels) (s.raise levels) text ↔ Above least s text := by
  induction text generalizing s with
  | nil => simp only [Above, raise]; omega
  | cons c rest ih =>
    simp only [Above, step_raise, ih]
    refine and_congr ?_ Iff.rfl
    simp only [raise]
    omega

theorem above_of_run_eq_self {least : Int} {s : Scan} {text : List Char} (hdepth : least ≤ s.depth)
    (h : ∀ c ∈ text, s.step c = s) : Above least s text := by
  induction text with
  | nil => exact hdepth
  | cons c rest ih =>
    refine ⟨hdepth, ?_⟩
    rw [h c List.mem_cons_self]
    exact ih fun d hd => h d (List.mem_cons_of_mem _ hd)

end Scan

/-! ## Balance -/

/-- The quotes and parentheses of the text match. -/
def Balanced (text : List Char) : Prop := imbalance? text = none

theorem imbalanceFrom?_eq_none_iff {s : Scan} {text : List Char} (hdepth : 0 ≤ s.depth) :
    imbalanceFrom? s text = none ↔ s.Above 0 text ∧ s.run text = Scan.start := by
  induction text generalizing s with
  | nil =>
    obtain ⟨depth, quoted⟩ := s
    cases quoted <;> simp_all [imbalanceFrom?, Scan.Above, Scan.start]
  | cons c rest ih =>
    simp only [imbalanceFrom?, Scan.Above, Scan.run_cons]
    split
    · rename_i hneg
      refine ⟨fun h => by simp at h, fun h => ?_⟩
      have := h.1.2.depth_le
      omega
    · rw [ih (by omega)]
      simp only [hdepth, true_and]

theorem balanced_iff {text : List Char} :
    Balanced text ↔ Scan.start.Above 0 text ∧ Scan.start.run text = Scan.start :=
  imbalanceFrom?_eq_none_iff (Int.le_refl 0)

theorem balanced_nil : Balanced [] := rfl

theorem Balanced.run_start {text : List Char} (h : Balanced text) : Scan.start.run text = Scan.start :=
  (balanced_iff.1 h).2

/-- A text falls into balanced parts wherever the state is back at the start. -/
theorem balanced_append {a b : List Char} (ha : Scan.start.run a = Scan.start) :
    Balanced (a ++ b) ↔ Balanced a ∧ Balanced b := by
  simp only [balanced_iff, Scan.above_append, Scan.run_append, ha, and_true, and_assoc]

theorem Balanced.append {a b : List Char} (ha : Balanced a) (hb : Balanced b) : Balanced (a ++ b) :=
  (balanced_append ha.run_start).2 ⟨ha, hb⟩

theorem balanced_of_forall {text : List Char} (h : ∀ c ∈ text, c ≠ '\'' ∧ c ≠ '(' ∧ c ≠ ')') : Balanced text := by
  refine balanced_iff.2 ⟨Scan.above_of_run_eq_self (Int.le_refl 0) ?_, Scan.run_eq_self h _⟩
  intro c hc
  obtain ⟨hquote, hopen, hclose⟩ := h c hc
  exact Scan.step_eq_self hquote hopen hclose _

theorem balanced_of_allBlank {text : List Char} (h : Text.allBlank text = true) : Balanced text := by
  simp only [Text.allBlank, List.all_eq_true] at h
  exact balanced_iff.2 ⟨Scan.above_of_run_eq_self (Int.le_refl 0) fun c hc => Scan.step_eq_self_of_isBlank (h c hc) _,
    Scan.run_eq_self_of_allBlank (by simpa [Text.allBlank] using h) _⟩

/-- Blanks around a text do not matter for its balance. -/
theorem balanced_between {pre text post : List Char} (hpre : Text.allBlank pre = true)
    (hpost : Text.allBlank post = true) : Balanced (pre ++ (text ++ post)) ↔ Balanced text := by
  have hrun := Scan.run_eq_self_of_allBlank hpost
  rw [balanced_append (Scan.run_eq_self_of_allBlank hpre _)]
  constructor
  · rintro ⟨-, h⟩
    -- Blanks behind the text leave the state as it is, so it is back at the start before them.
    have hstart : Scan.start.run text = Scan.start := by
      have := h.run_start
      rwa [Scan.run_append, hrun] at this
    exact ((balanced_append hstart).1 h).1
  · intro h
    exact ⟨balanced_of_allBlank hpre, h.append (balanced_of_allBlank hpost)⟩

theorem balanced_trim {text : List Char} : Balanced (Text.trim text) ↔ Balanced text := by
  obtain ⟨pre, post, hpre, hpost, htext⟩ := Text.exists_trim text
  have hbetween := @balanced_between pre (Text.trim text) post hpre hpost
  rw [← htext] at hbetween
  exact hbetween.symm

/-! ## Parentheses -/

theorem Scan.depth_step_of_not_closing {s : Scan} {c : Char} (hdepth : 1 ≤ s.depth)
    (h : ¬(c = ')' ∧ s.quoted = false ∧ s.depth = 1)) : 1 ≤ (s.step c).depth := by
  unfold Scan.step
  split
  · exact hdepth
  · split
    · exact hdepth
    · split
      · simp only
        omega
      · split
        · rename_i hquoted _ hclose
          have : s.depth ≠ 1 := fun hone => h ⟨hclose, by simpa using hquoted, hone⟩
          simp only
          omega
        · exact hdepth

/-- The closing parenthesis is found where the depth is about to fall to zero for the first time. -/
theorem closing?_eq_some_iff {s : Scan} {text inner after : List Char} (hdepth : 1 ≤ s.depth) :
    closing? s text = some (inner, after) ↔
      text = inner ++ ')' :: after ∧ s.Above 1 inner ∧ s.run inner = ⟨1, false⟩ := by
  induction text generalizing s inner with
  | nil => simp [closing?]
  | cons c rest ih =>
    -- The scan stops at this character exactly when it closes the one open parenthesis outside of quotes.
    by_cases hclose : c = ')' ∧ s.quoted = false ∧ s.depth = 1
    · obtain ⟨rfl, hquoted, hone⟩ := hclose
      obtain rfl : s = ⟨1, false⟩ := by
        cases s
        simp_all
      constructor
      · intro h
        obtain ⟨rfl, rfl⟩ : [] = inner ∧ rest = after := by simpa [closing?] using h
        exact ⟨rfl, hdepth, rfl⟩
      · rintro ⟨htext, habove, -⟩
        cases inner with
        | nil =>
          obtain rfl : rest = after := by simpa using htext
          simp [closing?]
        | cons d more =>
          obtain ⟨rfl, -⟩ : ')' = d ∧ _ := by simpa using htext
          -- An inner text that begins with this parenthesis would leave depth one.
          have := habove.2.depth_le
          simp [Scan.step] at this
    · rw [closing?, if_neg hclose, Option.map_eq_some_iff]
      constructor
      · rintro ⟨⟨inner', after'⟩, hrest, heq⟩
        obtain ⟨rfl, rfl⟩ : c :: inner' = inner ∧ after' = after := by simpa using heq
        obtain ⟨rfl, habove, hrun⟩ := (ih (Scan.depth_step_of_not_closing hdepth hclose)).1 hrest
        exact ⟨rfl, ⟨hdepth, habove⟩, hrun⟩
      · rintro ⟨htext, habove, hrun⟩
        cases inner with
        | nil =>
          obtain ⟨rfl, -⟩ : c = ')' ∧ _ := by simpa using htext
          obtain rfl : s = ⟨1, false⟩ := hrun
          exact absurd ⟨rfl, rfl, rfl⟩ hclose
        | cons d more =>
          obtain ⟨rfl, hrest⟩ : c = d ∧ rest = more ++ ')' :: after := by simpa using htext
          exact ⟨(more, after),
            (ih (Scan.depth_step_of_not_closing hdepth hclose)).2 ⟨hrest, habove.2, hrun⟩, rfl⟩

/-- Inside one more pair of parentheses a balanced text never comes down to the ground. -/
theorem balanced_iff_inside {inner : List Char} :
    Balanced inner ↔ Scan.Above 1 ⟨1, false⟩ inner ∧ Scan.run ⟨1, false⟩ inner = ⟨1, false⟩ := by
  have hraise : (⟨1, false⟩ : Scan) = Scan.start.raise 1 := rfl
  have habove : Scan.Above 1 ⟨1, false⟩ inner ↔ Scan.start.Above 0 inner := by
    simpa [hraise] using @Scan.above_raise 0 1 Scan.start inner
  rw [balanced_iff, habove, hraise, Scan.run_raise]
  refine and_congr_right fun _ => ?_
  obtain ⟨depth, quoted⟩ := Scan.start.run inner
  simp only [Scan.raise, Scan.start, Scan.mk.injEq]
  refine and_congr ?_ Iff.rfl
  omega

theorem enclosed?_eq_some_iff {text inner : List Char} :
    enclosed? text = some inner ↔ text = '(' :: (inner ++ [')']) ∧ Balanced inner := by
  rw [balanced_iff_inside]
  constructor
  · intro h
    unfold enclosed? at h
    split at h
    · split at h
      · rename_i hclosing
        obtain rfl := by simpa using h
        obtain ⟨rfl, hinside⟩ := (closing?_eq_some_iff (Int.le_refl 1)).1 hclosing
        exact ⟨rfl, hinside⟩
      · simp at h
    · simp at h
  · rintro ⟨rfl, hinside⟩
    simp only [enclosed?]
    rw [(closing?_eq_some_iff (Int.le_refl 1)).2 ⟨rfl, hinside⟩]

theorem Balanced.enclose {inner : List Char} (h : Balanced inner) : Balanced ('(' :: (inner ++ [')'])) := by
  obtain ⟨habove, hrun⟩ := balanced_iff_inside.1 h
  have hopen : Scan.start.step '(' = ⟨1, false⟩ := rfl
  have hclose : Scan.step ⟨1, false⟩ ')' = Scan.start := rfl
  -- Inside the depth is at least one, so it is at least zero over the whole text.
  refine balanced_iff.2 ⟨⟨Int.le_refl 0, ?_⟩, ?_⟩
  · rw [hopen, Scan.above_append, hrun]
    exact ⟨habove.mono (by decide), by decide, Int.le_refl 0⟩
  · rw [Scan.run_cons, hopen, Scan.run_append, hrun, Scan.run_cons, hclose, Scan.run_nil]

theorem balanced_stripParens {text : List Char} (h : Balanced text) : Balanced (stripParens text) := by
  induction text using stripParens.induct with
  | case1 text inner hinner ih =>
    rw [stripParens]
    split
    · rename_i inner' h'
      obtain rfl : inner = inner' := by simpa [hinner] using h'
      exact ih (balanced_trim.2 (enclosed?_eq_some_iff.1 hinner).2)
    · exact h
  | case2 text hnone =>
    rw [stripParens]
    split
    · simp_all
    · exact h

/-! ## Top level -/

/-- `rest` is an end of `text` that begins at the top level. -/
def Scan.TopSuffix (s : Scan) (text rest : List Char) : Prop :=
  ∃ before, text = before ++ rest ∧ (s.run before).isTop = true

namespace Scan

theorem topSuffix_nil {s : Scan} {rest : List Char} : s.TopSuffix [] rest ↔ s.isTop = true ∧ rest = [] := by
  constructor
  · rintro ⟨before, htext, htop⟩
    obtain ⟨rfl, rfl⟩ : before = [] ∧ rest = [] := by simpa [eq_comm] using htext
    exact ⟨htop, rfl⟩
  · rintro ⟨htop, rfl⟩
    exact ⟨[], rfl, htop⟩

theorem topSuffix_cons {s : Scan} {c : Char} {text rest : List Char} :
    s.TopSuffix (c :: text) rest ↔
      s.isTop = true ∧ rest = c :: text ∨ (s.step c).TopSuffix text rest := by
  constructor
  · rintro ⟨before, htext, htop⟩
    cases before with
    | nil => exact .inl ⟨htop, htext.symm⟩
    | cons d before =>
      obtain ⟨hc, hrest⟩ := List.cons.inj htext
      exact .inr ⟨before, hrest, hc ▸ htop⟩
  · rintro (⟨htop, rfl⟩ | ⟨before, rfl, htop⟩)
    · exact ⟨[], rfl, htop⟩
    · exact ⟨c :: before, rfl, htop⟩

/-- An end of a text in two parts begins in the first part or in the second. -/
theorem TopSuffix.of_append {s : Scan} {a b rest : List Char} (h : s.TopSuffix (a ++ b) rest) :
    (∃ r, r ≠ [] ∧ s.TopSuffix a r ∧ rest = r ++ b) ∨ (s.run a).TopSuffix b rest := by
  induction a generalizing s with
  | nil => exact .inr h
  | cons c a ih =>
    rcases topSuffix_cons.1 h with ⟨htop, rfl⟩ | h
    · exact .inl ⟨c :: a, List.cons_ne_nil c a, topSuffix_cons.2 (.inl ⟨htop, rfl⟩), rfl⟩
    · rcases ih h with ⟨r, hne, hr, rfl⟩ | hr
      · exact .inl ⟨r, hne, topSuffix_cons.2 (.inr hr), rfl⟩
      · exact .inr hr

/-- Nothing of a text that stays below the top level begins at it. -/
theorem Above.not_topSuffix {s : Scan} {text rest : List Char} (h : Above 1 s text) : ¬s.TopSuffix text rest := by
  rintro ⟨before, rfl, htop⟩
  have hdepth := (above_append.1 h).2.depth_le
  simp only [isTop, Bool.and_eq_true, beq_iff_eq] at htop
  omega

/-- Between parentheses nothing is at the top level. -/
theorem TopSuffix.of_enclosed {inner rest : List Char} (hinner : Balanced inner)
    (h : start.TopSuffix ('(' :: (inner ++ [')'])) rest) : rest = '(' :: (inner ++ [')']) ∨ rest = [] := by
  obtain ⟨habove, hrun⟩ := balanced_iff_inside.1 hinner
  rcases topSuffix_cons.1 h with ⟨-, rfl⟩ | h
  · exact .inl rfl
  · rcases h.of_append with ⟨r, -, hr, -⟩ | h
    · exact absurd hr habove.not_topSuffix
    · have hdeep : Scan.isTop ⟨1, false⟩ = false := rfl
      have hinside : (start.step '(').run inner = ⟨1, false⟩ := hrun
      rw [hinside, topSuffix_cons, hdeep] at h
      rcases h with ⟨h, -⟩ | h
      · exact absurd h (by decide)
      · exact .inr (topSuffix_nil.1 h).2

/-- `q` holds of every character of the text that stands at the top level. -/
def Heads (q : Char → Prop) (s : Scan) (text : List Char) : Prop :=
  ∀ c rest, s.TopSuffix text (c :: rest) → q c

theorem Heads.mono {q q' : Char → Prop} {s : Scan} {text : List Char} (h : Heads q s text) (hq : ∀ c, q c → q' c) :
    Heads q' s text := fun c rest hrest => hq c (h c rest hrest)

theorem Heads.of_cons {q : Char → Prop} {s : Scan} {c : Char} {text : List Char} (h : Heads q s (c :: text)) :
    Heads q (s.step c) text := fun d rest hrest => h d rest (topSuffix_cons.2 (.inr hrest))

theorem heads_cons {q : Char → Prop} {s : Scan} {c : Char} {text : List Char} (hc : s.isTop = true → q c)
    (h : Heads q (s.step c) text) : Heads q s (c :: text) := by
  intro d rest hrest
  rcases topSuffix_cons.1 hrest with ⟨htop, heq⟩ | hrest
  · obtain ⟨rfl, -⟩ := List.cons.inj heq
    exact hc htop
  · exact h d rest hrest

theorem heads_nil {q : Char → Prop} {s : Scan} : Heads q s [] := by
  intro c rest hrest
  simp [topSuffix_nil] at hrest

theorem heads_append {q : Char → Prop} {s : Scan} {a b : List Char} (ha : Heads q s a) (hb : Heads q (s.run a) b) :
    Heads q s (a ++ b) := by
  induction a generalizing s with
  | nil => exact hb
  | cons c a ih => exact heads_cons (fun htop => ha c a (topSuffix_cons.2 (.inl ⟨htop, rfl⟩))) (ih ha.of_cons hb)

theorem heads_of_forall {q : Char → Prop} {s : Scan} {text : List Char} (h : ∀ c ∈ text, q c) : Heads q s text := by
  rintro c rest ⟨before, rfl, -⟩
  exact h c (List.mem_append_right _ List.mem_cons_self)

theorem heads_enclosed {q : Char → Prop} {inner : List Char} (hq : q '(') (hinner : Balanced inner) :
    Heads q start ('(' :: (inner ++ [')'])) := by
  intro c rest hrest
  rcases hrest.of_enclosed hinner with heq | heq
  · obtain ⟨rfl, -⟩ := List.cons.inj heq
    exact hq
  · simp at heq

end Scan

end Tabular
