-- SUMMARY: Character classes of formula text: names, blanks and the characters that scanning looks for.
import Tabular.Formula.Occurrence

/-!
# Character classes

Scanning stops at quotes, parentheses and operator symbols; trimming removes blanks. None of these is part
of a name, so a name passes every scanner unseen and no trimming shortens it. The classes are given by
tables of ranges, and two tables that do not overlap have no character in common.
-/

namespace Tabular

/-! ## Tables -/

/-- No range of the one table overlaps a range of the other. -/
def Text.apart (a b : List (Nat × Nat)) : Bool :=
  a.all fun r => b.all fun q => r.2 < q.1 || q.2 < r.1

theorem Text.inRanges_of_apart {a b : List (Nat × Nat)} {n : Nat} (h : apart a b = true)
    (ha : inRanges a n = true) : inRanges b n = false := by
  apply Bool.eq_false_iff.2
  intro hb
  simp only [inRanges, List.any_eq_true, Bool.and_eq_true, decide_eq_true_eq] at ha hb
  obtain ⟨r, hr, hr1, hr2⟩ := ha
  obtain ⟨q, hq, hq1, hq2⟩ := hb
  simp only [apart, List.all_eq_true, Bool.or_eq_true, decide_eq_true_eq] at h
  have := h r hr q hq
  omega

theorem Text.blankRanges_apart_letterRanges : Text.apart Text.blankRanges Text.letterRanges = true := by
  decide +kernel

theorem Text.blankRanges_apart_numeralRanges : Text.apart Text.blankRanges Text.numeralRanges = true := by
  decide +kernel

/-- Digits, upper-case and lower-case letters, `_` and `.`. -/
def Text.asciiNameRanges : List (Nat × Nat) := [(0x2e, 0x2e), (0x30, 0x39), (0x41, 0x5a), (0x5f, 0x5f), (0x61, 0x7a)]

theorem Text.blankRanges_apart_asciiNameRanges : Text.apart Text.blankRanges Text.asciiNameRanges = true := by
  decide

/-! ## Names -/

theorem isNamePart_of_isNameStart {c : Char} (h : isNameStart c = true) : isNamePart c = true := by
  simp only [isNameStart, isNamePart, Text.isLetter, Text.isLetterOrNumeral, Bool.or_eq_true] at h ⊢
  refine .inl ?_
  rcases h with h | h
  · refine .inl ?_
    split at h
    · rw [if_pos ‹_›]
      simp [Char.isAlphanum, h]
    · rw [if_neg ‹_›]
      simp [h]
  · exact .inr h

theorem inRanges_of_isAlphanum {c : Char} (h : c.isAlphanum = true) :
    Text.inRanges Text.asciiNameRanges c.toNat = true := by
  have hval : c.toNat = c.val.toNat := rfl
  delta Char.isAlphanum Char.isAlpha Char.isUpper Char.isLower Char.isDigit at h
  simp only [Bool.or_eq_true, Bool.and_eq_true, decide_eq_true_eq, UInt32.le_iff_toNat_le, ge_iff_le] at h
  simp only [Text.inRanges, Text.asciiNameRanges, List.any_cons, List.any_nil, Bool.or_eq_true, Bool.and_eq_true,
    decide_eq_true_eq, hval]
  rcases h with (⟨h1, h2⟩ | ⟨h1, h2⟩) | ⟨h1, h2⟩
  · have : c.val.toNat ≤ 0x5a := h2
    have : 0x41 ≤ c.val.toNat := h1
    omega
  · have : c.val.toNat ≤ 0x7a := h2
    have : 0x61 ≤ c.val.toNat := h1
    omega
  · have : c.val.toNat ≤ 0x39 := h2
    have : 0x30 ≤ c.val.toNat := h1
    omega

/-- A part of a name lies in one of the tables. -/
theorem inRanges_of_isNamePart {c : Char} (h : isNamePart c = true) :
    Text.inRanges Text.asciiNameRanges c.toNat = true ∨ Text.inRanges Text.letterRanges c.toNat = true ∨
      Text.inRanges Text.numeralRanges c.toNat = true := by
  simp only [isNamePart, Text.isLetterOrNumeral, Bool.or_eq_true, beq_iff_eq] at h
  rcases h with (h | rfl) | rfl
  · split at h
    · exact .inl (inRanges_of_isAlphanum h)
    · exact .inr (by simpa using h)
  · exact .inl (by decide)
  · exact .inl (by decide)

theorem isBlank_of_isNamePart {c : Char} (h : isNamePart c = true) : Text.isBlank c = false := by
  apply Bool.eq_false_iff.2
  intro hblank
  rcases inRanges_of_isNamePart h with h | h | h
  · simp [Text.inRanges_of_apart Text.blankRanges_apart_asciiNameRanges hblank] at h
  · simp [Text.inRanges_of_apart Text.blankRanges_apart_letterRanges hblank] at h
  · simp [Text.inRanges_of_apart Text.blankRanges_apart_numeralRanges hblank] at h

end Tabular
