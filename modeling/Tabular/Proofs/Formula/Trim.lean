-- SUMMARY: Trimming: a text is its trimmed part between blanks, and a text that begins and ends visibly stays.
import Tabular.Text.Blank

/-!
# Trimming

Trimming cuts a text into blanks, a middle and blanks (`exists_trim`). A text is `Tight` if its first and its
last character are visible; it is what is left of any text that surrounds it with blanks (`trim_between`).
-/

namespace Tabular.Text

/-- The text begins and ends with a character that is no blank. -/
def Tight (text : List Char) : Prop :=
  (∃ c, text.head? = some c ∧ isBlank c = false) ∧ ∃ c, text.getLast? = some c ∧ isBlank c = false

/-! ## Blank texts -/

theorem allBlank_append {a b : List Char} : allBlank (a ++ b) = (allBlank a && allBlank b) := by
  simp [allBlank]

theorem allBlank_of_all_isAsciiBlank {text : List Char} (h : text.all isAsciiBlank = true) : allBlank text = true :=
  List.all_eq_true.2 fun c hc => isBlank_of_isAsciiBlank (List.all_eq_true.1 h c hc)

theorem Tight.ne_nil {text : List Char} (h : Tight text) : text ≠ [] := by
  obtain ⟨⟨c, hc, -⟩, -⟩ := h
  rintro rfl
  simp at hc

theorem Tight.allBlank_eq_false {text : List Char} (h : Tight text) : allBlank text = false := by
  obtain ⟨⟨c, hc, hblank⟩, -⟩ := h
  cases text with
  | nil => simp at hc
  | cons d rest =>
    obtain rfl : d = c := by simpa using hc
    simp [allBlank, hblank]

/-- A text of visible characters is tight. -/
theorem tight_of_forall {text : List Char} (hne : text ≠ []) (h : ∀ c ∈ text, isBlank c = false) : Tight text :=
  ⟨⟨text.head hne, List.head?_eq_some_head hne, h _ (List.head_mem hne)⟩,
    ⟨text.getLast hne, List.getLast?_eq_some_getLast hne, h _ (List.getLast_mem hne)⟩⟩

/-- What stands between two visible characters does not matter. -/
theorem tight_between {c d : Char} {text : List Char} (hc : isBlank c = false) (hd : isBlank d = false) :
    Tight (c :: (text ++ [d])) :=
  ⟨⟨c, rfl, hc⟩, ⟨d, by rw [← List.cons_append, List.getLast?_concat], hd⟩⟩

theorem Tight.append {a b : List Char} (ha : Tight a) (hb : Tight b) (middle : List Char) :
    Tight (a ++ (middle ++ b)) := by
  obtain ⟨⟨c, hc, hcblank⟩, -⟩ := ha
  obtain ⟨-, d, hd, hdblank⟩ := hb
  exact ⟨⟨c, by simp [List.head?_append, hc], hcblank⟩, ⟨d, by simp [List.getLast?_append, hd], hdblank⟩⟩

/-! ## Trimming -/

theorem trimStart_append {pre text : List Char} (hpre : allBlank pre = true) :
    trimStart (pre ++ text) = trimStart text := by
  simp only [allBlank, List.all_eq_true] at hpre
  exact List.dropWhile_append_of_pos hpre

theorem trimStart_eq_self {c : Char} {text : List Char} (h : text.head? = some c) (hc : isBlank c = false) :
    trimStart text = text := by
  cases text with
  | nil => rfl
  | cons d rest =>
    obtain rfl : d = c := by simpa using h
    simp [trimStart, hc]

theorem trimEnd_append {text post : List Char} (hpost : allBlank post = true) :
    trimEnd (text ++ post) = trimEnd text := by
  have hrev : ∀ c ∈ post.reverse, isBlank c = true := by simpa [allBlank] using hpost
  simp only [trimEnd, List.reverse_append]
  rw [List.dropWhile_append_of_pos hrev]

theorem trimEnd_eq_self {c : Char} {text : List Char} (h : text.getLast? = some c) (hc : isBlank c = false) :
    trimEnd text = text := by
  have hhead : text.reverse.head? = some c := by simpa using h
  have hstart := trimStart_eq_self hhead hc
  simp only [trimStart] at hstart
  simp [trimEnd, hstart]

theorem trim_eq_self {text : List Char} (h : Tight text) : trim text = text := by
  obtain ⟨⟨c, hc, hcblank⟩, ⟨d, hd, hdblank⟩⟩ := h
  rw [trim, trimStart_eq_self hc hcblank, trimEnd_eq_self hd hdblank]

/-- A tight text is what is left of it between blanks. -/
theorem trim_between {pre text post : List Char} (hpre : allBlank pre = true) (hpost : allBlank post = true)
    (h : Tight text) : trim (pre ++ (text ++ post)) = text := by
  obtain ⟨⟨c, hc, hcblank⟩, ⟨d, hd, hdblank⟩⟩ := h
  have hhead : (text ++ post).head? = some c := by simp [List.head?_append, hc]
  rw [trim, trimStart_append hpre, trimStart_eq_self hhead hcblank, trimEnd_append hpost,
    trimEnd_eq_self hd hdblank]

theorem trim_append_space {text : List Char} (h : Tight text) : trim (text ++ [' ']) = text :=
  @trim_between [] text [' '] rfl (by decide) h

theorem trim_space_append {text : List Char} (h : Tight text) : trim (' ' :: text) = text := by
  have := @trim_between [' '] text [] (by decide) rfl h
  simpa using this

theorem exists_trimEnd (text : List Char) : ∃ post, allBlank post = true ∧ text = trimEnd text ++ post := by
  refine ⟨(text.reverse.takeWhile isBlank).reverse, by simp [allBlank], ?_⟩
  rw [trimEnd, ← List.reverse_append, List.takeWhile_append_dropWhile, List.reverse_reverse]

theorem exists_trim (text : List Char) : ∃ pre post, allBlank pre = true ∧ allBlank post = true ∧
    text = pre ++ (trim text ++ post) := by
  obtain ⟨post, hpost, hend⟩ := exists_trimEnd (trimStart text)
  refine ⟨text.takeWhile isBlank, post, by simp [allBlank], hpost, ?_⟩
  rw [trim, ← hend, trimStart, List.takeWhile_append_dropWhile]

theorem trim_eq_nil {text : List Char} (h : allBlank text = true) : trim text = [] := by
  have hstart := @trimStart_append text [] h
  rw [List.append_nil] at hstart
  rw [trim, hstart]
  rfl

theorem trim_append_blanks {post : List Char} (hpost : allBlank post = true) (text : List Char) :
    trim (text ++ post) = trim text := by
  simp only [trim, trimStart, List.dropWhile_append]
  split
  · rename_i hnil
    have hnone := trim_eq_nil hpost
    simp only [trim, trimStart] at hnone
    rw [hnone, List.isEmpty_iff.1 hnil]
    rfl
  · exact trimEnd_append hpost

theorem trim_trimEnd (text : List Char) : trim (trimEnd text) = trim text := by
  obtain ⟨post, hpost, htext⟩ := exists_trimEnd text
  exact (trim_append_blanks hpost (trimEnd text)).symm.trans (congrArg trim htext.symm)

theorem exists_head?_trimStart {text : List Char} (h : allBlank text = false) :
    ∃ c, (trimStart text).head? = some c ∧ isBlank c = false := by
  induction text with
  | nil => simp [allBlank] at h
  | cons c rest ih =>
    cases hc : isBlank c with
    | true => simpa [trimStart, hc] using ih (by simpa [allBlank, hc] using h)
    | false => exact ⟨c, by simp [trimStart, hc], hc⟩

/-- Something visible is left of a text that shows something. -/
theorem tight_trim {text : List Char} (h : allBlank text = false) : Tight (trim text) := by
  obtain ⟨c, hc, hcblank⟩ := exists_head?_trimStart h
  have hmem : c ∈ trimStart text := List.mem_of_mem_head? hc
  have hreverse : allBlank (trimStart text).reverse = false := by
    rw [allBlank, List.all_reverse, List.all_eq_false]
    exact ⟨c, hmem, by simp [hcblank]⟩
  obtain ⟨d, hd, hdblank⟩ := exists_head?_trimStart hreverse
  refine ⟨?_, d, by rw [trim, trimEnd, List.getLast?_reverse]; exact hd, hdblank⟩
  -- What is cut off behind is blank, so the first character is none of it.
  obtain ⟨post, hpost, hsplit⟩ := exists_trimEnd (trimStart text)
  rw [hsplit, List.head?_append] at hc
  cases hhead : (trimEnd (trimStart text)).head? with
  | some e =>
    rw [hhead, Option.some_or] at hc
    exact ⟨e, hhead, Option.some.inj hc ▸ hcblank⟩
  | none =>
    rw [hhead, Option.none_or] at hc
    have := List.all_eq_true.1 hpost c (List.mem_of_mem_head? hc)
    simp [hcblank] at this

theorem trim_trim (text : List Char) : trim (trim text) = trim text := by
  cases h : allBlank text with
  | true =>
    rw [trim_eq_nil h]
    rfl
  | false => exact trim_eq_self (tight_trim h)

end Tabular.Text
