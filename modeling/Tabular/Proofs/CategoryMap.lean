-- SUMMARY: Category maps: which values become levels.
import Mathlib.Algebra.Group.Nat.Defs
import Tabular.Proofs.Series

/-!
# Levels of category maps

The levels of a map are values that it was built from, and every value with a code of its own is a level. A map has
one entry for each distinct value, so looking a value up finds the one entry that there is.
-/

namespace Tabular.CategoryMap

/-- Encoding gives a code for each value, and only takes values of the raw type. -/
theorem encode_ok {map : CategoryMap} {raw codes : Series} {default : Int64} (h : map.encode raw default = .ok codes) :
    raw.dataType = map.rawType ∧ codes = .integers (raw.values.map fun v => (map.code? v).getD default) := by
  unfold encode at h
  split at h
  · rename_i htype
    exact ⟨htype, (Except.ok.inj h).symm⟩
  · simp at h

theorem eq_ofValues {raw : Series} {threshold : Option Nat} {map : CategoryMap} {codes : Series}
    (h : build raw threshold = .ok (map, codes)) : map = ofValues raw.dataType threshold raw.values := by
  unfold build at h
  split at h
  · simp at h
  · obtain ⟨_, -, h⟩ := bind_eq_ok.1 h
    exact (congrArg Prod.fst (Except.ok.inj h)).symm

/-- The codes of the series that a map is built from. -/
theorem build_codes {raw : Series} {threshold : Option Nat} {map : CategoryMap} {codes : Series}
    (h : build raw threshold = .ok (map, codes)) :
    codes = .integers (raw.values.map fun v => (map.code? v).getD otherCode) := by
  unfold build at h
  split at h
  · simp at h
  · obtain ⟨_, hcodes, h⟩ := bind_eq_ok.1 h
    obtain ⟨rfl, rfl⟩ := Prod.mk.inj (Except.ok.inj h)
    exact (encode_ok hcodes).2

theorem mem_of_mem_distinct {values : List Value} {v : Value} (h : v ∈ distinct values) : v ∈ values := by
  have hfold : ∀ seen : List Value, v ∈ values.foldl (fun seen v => if seen.any (·.same v) then seen else seen ++ [v])
      seen → v ∈ seen ∨ v ∈ values := by
    clear h
    induction values with
    | nil => exact fun seen h => .inl h
    | cons w rest ih =>
      intro seen h
      rcases ih _ h with h | h
      · dsimp only at h
        split at h
        · exact .inl h
        · rcases List.mem_append.1 h with h | h
          · exact .inl h
          · exact .inr (List.mem_singleton.1 h ▸ List.mem_cons_self)
      · exact .inr (List.mem_cons_of_mem _ h)
  exact (hfold [] h).resolve_left (by simp)

/-- Levels are values of the series. -/
theorem mem_values_of_mem_levels {rawType : DataType} {threshold : Option Nat} {values : List Value} {v : Value}
    (h : v ∈ (ofValues rawType threshold values).levels) : v ∈ values :=
  mem_of_mem_distinct (List.mem_filter.1 h).1

theorem mem_number {rare : Value → Bool} {next : Nat} {order : List Value} {entry : Value × Int64}
    (h : entry ∈ number rare next order) (hcode : entry.2 ≠ otherCode) : entry.1 ∈ order.filter (!rare ·) := by
  induction order generalizing next with
  | nil => simp [number] at h
  | cons v rest ih =>
    rw [number] at h
    split at h
    · rename_i hrare
      rcases List.mem_cons.1 h with rfl | h
      · exact absurd rfl hcode
      · rw [List.filter_cons, hrare]
        exact ih h
    · rename_i hrare
      rw [List.filter_cons, if_pos (by simpa using hrare)]
      rcases List.mem_cons.1 h with rfl | h
      · exact List.mem_cons_self
      · exact List.mem_cons_of_mem _ (ih h)

/-- A value with a code of its own is a level. -/
theorem mem_levels {rawType : DataType} {threshold : Option Nat} {values : List Value} {entry : Value × Int64}
    (h : entry ∈ (ofValues rawType threshold values).entries) (hcode : entry.2 ≠ otherCode) :
    entry.1 ∈ (ofValues rawType threshold values).levels :=
  mem_number h hcode

/-! ## One entry a value -/

theorem build_dataType {raw : Series} {threshold : Option Nat} {map : CategoryMap} {codes : Series}
    (h : build raw threshold = .ok (map, codes)) : map.rawType = raw.dataType ∧ raw.dataType ≠ .float := by
  refine ⟨congrArg rawType (eq_ofValues h), ?_⟩
  unfold build at h
  split at h
  · simp at h
  · rename_i hfloats
    cases raw with
    | floats cells => exact absurd rfl (hfloats cells)
    | integers | strings | dates => simp [Series.dataType]

/-- No two distinct values are the same. -/
theorem pairwise_distinct (values : List Value) : (distinct values).Pairwise fun v w => v.same w = false := by
  have hfold : ∀ seen : List Value, (seen.Pairwise fun v w => v.same w = false) →
      (values.foldl (fun seen v => if seen.any (·.same v) then seen else seen ++ [v]) seen).Pairwise
        fun v w => v.same w = false := by
    induction values with
    | nil => exact fun _ hseen => hseen
    | cons w rest ih =>
      intro seen hseen
      refine ih _ ?_
      dsimp only
      split
      · exact hseen
      · rename_i hnew
        rw [List.pairwise_append]
        refine ⟨hseen, List.pairwise_singleton _ _, fun v hv u hu => ?_⟩
        obtain rfl := List.mem_singleton.1 hu
        simpa using fun hsame => hnew (List.any_eq_true.2 ⟨v, hv, hsame⟩)
  exact hfold [] List.Pairwise.nil

/-- Every value is the same as one of the distinct values. -/
theorem exists_same_distinct {values : List Value} {v : Value} (h : v ∈ values) :
    ∃ w ∈ distinct values, w.same v = true := by
  have hfold : ∀ seen : List Value, (v ∈ values ∨ ∃ w ∈ seen, w.same v = true) →
      ∃ w ∈ values.foldl (fun seen v => if seen.any (·.same v) then seen else seen ++ [v]) seen, w.same v = true := by
    clear h
    induction values with
    | nil => exact fun seen h => h.resolve_left (by simp)
    | cons u rest ih =>
      intro seen h
      refine ih _ ?_
      dsimp only
      rcases h with h | ⟨w, hw, hsame⟩
      · rcases List.mem_cons.1 h with rfl | h
        · refine .inr ?_
          split
          · rename_i hseen
            exact List.any_eq_true.1 hseen
          · exact ⟨v, by simp, Value.same_self v⟩
        · exact .inl h
      · refine .inr ⟨w, ?_, hsame⟩
        split
        · exact hw
        · exact List.mem_append_left _ hw
  exact hfold [] (.inl h)

theorem map_fst_number (rare : Value → Bool) (next : Nat) (order : List Value) :
    (number rare next order).map (·.1) = order := by
  induction order generalizing next with
  | nil => rfl
  | cons v rest ih =>
    rw [number]
    split <;> rw [List.map_cons, ih]

/-- Values of the entries have the type of the series, and no two entries are for the same value. -/
theorem entries_ofValues {raw : Series} {threshold : Option Nat} :
    (∀ entry ∈ (ofValues raw.dataType threshold raw.values).entries, entry.1.dataType = raw.dataType) ∧
      (ofValues raw.dataType threshold raw.values).entries.Pairwise fun a b => a.1.same b.1 = false := by
  have hkeys : (ofValues raw.dataType threshold raw.values).entries.map (·.1) = distinct raw.values :=
    map_fst_number _ _ _
  constructor
  · intro entry hentry
    have hmem := List.mem_map_of_mem (f := (·.1)) hentry
    rw [hkeys] at hmem
    exact Series.dataType_of_mem_values (mem_of_mem_distinct hmem)
  · have hpairwise := pairwise_distinct raw.values
    rw [← hkeys, List.pairwise_map] at hpairwise
    exact hpairwise

/-- The code of a value is that of its only entry. -/
theorem code?_eq_some_iff {raw : Series} {threshold : Option Nat} {map : CategoryMap} {codes : Series}
    (h : build raw threshold = .ok (map, codes)) {v : Value} {code : Int64} :
    map.code? v = some code ↔ (v, code) ∈ map.entries := by
  have hfloat := (build_dataType h).2
  have hentries := @entries_ofValues raw threshold
  rw [← eq_ofValues h] at hentries
  obtain ⟨htypes, hpairwise⟩ := hentries
  constructor
  · intro hcode
    obtain ⟨entry, hfind, rfl⟩ := Option.map_eq_some_iff.1 hcode
    have hmem := List.mem_of_find?_eq_some hfind
    have hsame : entry.1.same v = true := List.find?_some (p := fun entry : Value × Int64 => entry.1.same v) hfind
    exact Value.eq_of_same (htypes entry hmem ▸ hfloat) hsame ▸ hmem
  · intro hmem
    have hfind : map.entries.find? (fun entry => entry.1.same v) = some (v, code) := by
      obtain ⟨before, after, hsplit⟩ := List.append_of_mem hmem
      rw [hsplit] at hpairwise ⊢
      have hbefore := (List.pairwise_append.1 hpairwise).2.2
      rw [List.find?_append, List.find?_eq_none.2 fun entry hentry => by simp [hbefore entry hentry (v, code)],
        Option.none_or, List.find?_cons_of_pos (by exact Value.same_self v)]
    rw [code?, hfind, Option.map_some]

/-- A map knows every value that it was built from. -/
theorem code?_ne_none {raw : Series} {threshold : Option Nat} {map : CategoryMap} {codes : Series}
    (h : build raw threshold = .ok (map, codes)) {v : Value} (hv : v ∈ raw.values) : map.code? v ≠ none := by
  obtain ⟨w, hw, hsame⟩ := exists_same_distinct hv
  have hkeys : map.entries.map (·.1) = distinct raw.values := by
    rw [eq_ofValues h]
    exact map_fst_number _ _ _
  rw [← hkeys] at hw
  obtain ⟨entry, hentry, rfl⟩ := List.mem_map.1 hw
  intro hnone
  exact List.find?_eq_none.1 (Option.map_eq_none_iff.1 hnone) entry hentry hsame

/-! ## Codes of levels -/

/-- A map that was built from a series. -/
def Built (map : CategoryMap) : Prop := ∃ raw threshold codes, build raw threshold = .ok (map, codes)

/-- The entry of a value that is not rare has the position of the value among the levels for its code. -/
theorem code_number {rare : Value → Bool} {next : Nat} {order : List Value} {entry : Value × Int64}
    (h : entry ∈ number rare next order) (hcode : entry.2 ≠ otherCode) :
    ∃ i, (order.filter (!rare ·))[i]? = some entry.1 ∧ entry.2 = Int64.ofNat (next + i) := by
  induction order generalizing next with
  | nil => simp [number] at h
  | cons v rest ih =>
    rw [number] at h
    split at h
    · rename_i hrare
      rw [List.filter_cons, hrare]
      rcases List.mem_cons.1 h with rfl | h
      · exact absurd rfl hcode
      · exact ih h
    · rename_i hrare
      rw [List.filter_cons, if_pos (by simpa using hrare)]
      rcases List.mem_cons.1 h with rfl | h
      · exact ⟨0, rfl, rfl⟩
      · obtain ⟨i, hi, hentry⟩ := ih h
        exact ⟨i + 1, hi, by rw [hentry, Nat.add_right_comm, Nat.add_assoc]⟩

/-- A code that is no negative number leads back to its value, as long as all positions of levels are codes. -/
theorem Built.level?_of_code? {map : CategoryMap} (h : map.Built) (hsize : map.levels.length ≤ 2 ^ 63) {v : Value}
    {code : Int64} (hcode : map.code? v = some code) (hnonneg : 0 ≤ code.toInt) : map.level? code = some v := by
  obtain ⟨raw, threshold, codes, hbuild⟩ := h
  have hmem := (code?_eq_some_iff hbuild).1 hcode
  rw [eq_ofValues hbuild] at hmem hsize ⊢
  have hother : code ≠ otherCode := by
    rintro rfl
    exact absurd hnonneg (by decide)
  obtain ⟨i, hi, rfl⟩ := code_number hmem hother
  have hlt : i < 2 ^ 63 := Nat.lt_of_lt_of_le (List.getElem?_eq_some_iff.1 hi).1 hsize
  have hcodes : (Int64.ofNat (0 + i)).toInt = i := by
    rw [Nat.zero_add, Int64.toInt_ofNat_of_lt hlt]
  rw [level?, hcodes, if_neg (by omega), Int.toNat_natCast]
  exact hi

end Tabular.CategoryMap
