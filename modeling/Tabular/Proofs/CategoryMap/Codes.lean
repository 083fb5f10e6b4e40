-- SUMMARY: Category maps: the code of every value, and what the levels and the entries are.
import Mathlib.Data.List.Induction
import Tabular.Proofs.CategoryMap

/-!
# Codes of category maps

What a map says of its series is stated without the loops that build it. A list holds the values that are met in the
order of encounter when it holds each of them once and earlier ones stand before later ones. Levels are the values that
are frequent, in that order, and the code of a level is its position. Every other value of the series shares one code,
and a value that the series does not have has no code.
-/

namespace Tabular.CategoryMap

/-! ## Order of encounter -/

/-- The values with a property, each once, in the order in which they are first met. -/
structure Encountered (values : List Value) (p : Value → Prop) (order : List Value) : Prop where
  mem_iff (v : Value) : v ∈ order ↔ v ∈ values ∧ p v
  pairwise : order.Pairwise fun v w => values.idxOf v < values.idxOf w

theorem Encountered.nodup {values order : List Value} {p : Value → Prop} (h : Encountered values p order) :
    order.Nodup :=
  h.pairwise.imp fun hlt heq => absurd (congrArg values.idxOf heq) (Nat.ne_of_lt hlt)

/-- Leaving out values without a property keeps the order. -/
theorem Encountered.filter {values order : List Value} {p : Value → Prop} (h : Encountered values p order)
    (q : Value → Bool) : Encountered values (fun v => p v ∧ q v = true) (order.filter q) where
  mem_iff v := by rw [List.mem_filter, h.mem_iff, and_assoc]
  pairwise := h.pairwise.filter q

/-- One more value joins the order at its end, unless it was met before. -/
theorem Encountered.concat {values order : List Value} (h : Encountered values (fun _ => True) order) (v : Value) :
    Encountered (values ++ [v]) (fun _ => True) (if v ∈ order then order else order ++ [v]) := by
  have hmem : ∀ w, w ∈ order ↔ w ∈ values := fun w => by rw [h.mem_iff, and_true]
  -- Values that were met before keep the place of their first encounter.
  have hold : order.Pairwise fun u w => (values ++ [v]).idxOf u < (values ++ [v]).idxOf w := by
    refine h.pairwise.imp_of_mem fun hu hw hlt => ?_
    rw [List.idxOf_append_of_mem ((hmem _).1 hu), List.idxOf_append_of_mem ((hmem _).1 hw)]
    exact hlt
  split
  · rename_i hmet
    refine ⟨fun w => ?_, hold⟩
    rw [hmem, and_true, List.mem_append, List.mem_singleton, or_iff_left_of_imp]
    rintro rfl
    exact (hmem w).1 hmet
  · rename_i hnew
    refine ⟨fun w => by simp [hmem], List.pairwise_append.2 ⟨hold, List.pairwise_singleton _ _, fun u hu w hw => ?_⟩⟩
    obtain rfl := List.mem_singleton.1 hw
    rw [List.idxOf_append_of_mem ((hmem u).1 hu), List.idxOf_append_of_notMem fun hmet => hnew ((hmem w).2 hmet)]
    exact Nat.lt_add_right _ (List.idxOf_lt_length_of_mem ((hmem u).1 hu))

theorem distinct_concat (values : List Value) (v : Value) :
    distinct (values ++ [v]) =
      if (distinct values).any (·.same v) then distinct values else distinct values ++ [v] := by
  unfold distinct
  rw [List.foldl_append]
  rfl

theorem same_iff_eq {v w : Value} (hfloat : v.dataType ≠ .float) : v.same w = true ↔ v = w :=
  ⟨Value.eq_of_same hfloat, fun h => h ▸ Value.same_self v⟩

/-- The distinct values stand in the order of encounter. -/
theorem encountered_distinct {values : List Value} (hfloat : ∀ v ∈ values, v.dataType ≠ .float) :
    Encountered values (fun _ => True) (distinct values) := by
  induction values using List.reverseRecOn with
  | nil => exact ⟨fun v => by simp [distinct], List.Pairwise.nil⟩
  | append_singleton values v ih =>
    have hvalues : ∀ w ∈ values, w.dataType ≠ .float := fun w hw => hfloat w (List.mem_append_left _ hw)
    have hmet : (distinct values).any (·.same v) = true ↔ v ∈ distinct values := by
      rw [List.any_eq_true]
      refine ⟨fun ⟨w, hw, hsame⟩ => ?_, fun hv => ⟨v, hv, Value.same_self v⟩⟩
      exact Value.eq_of_same (hvalues w (mem_of_mem_distinct hw)) hsame ▸ hw
    rw [distinct_concat]
    simp only [hmet]
    exact (ih hvalues).concat v

/-! ## Thresholds -/

/-- Whether a value of a list occurs at least as often as a threshold asks. -/
def Frequent (threshold : Option Nat) (values : List Value) (v : Value) : Prop :=
  ∀ least, threshold = some least → least ≤ values.count v

instance (threshold : Option Nat) (values : List Value) (v : Value) : Decidable (Frequent threshold values v) :=
  match threshold with
  | none => .isTrue fun _ h => nomatch h
  | some least => decidable_of_iff (least ≤ values.count v) ⟨fun h _ heq => Option.some.inj heq ▸ h, fun h => h _ rfl⟩

/-- Rare values are those that are not frequent. -/
theorem isRare_iff {threshold : Option Nat} {values : List Value} (hfloat : ∀ v ∈ values, v.dataType ≠ .float)
    (v : Value) : isRare threshold values v = true ↔ ¬ Frequent threshold values v := by
  cases threshold with
  | none => simp [isRare, Frequent]
  | some least =>
    have hcount : (values.filter (·.same v)).length = values.count v := by
      rw [← List.countP_eq_length_filter, List.count]
      refine List.countP_congr fun w hw => ?_
      rw [same_iff_eq (hfloat w hw), beq_iff_eq]
    simp [isRare, Frequent, hcount]

/-! ## Numbering -/

/-- Values that are not rare are numbered by their position among those that are not rare. -/
theorem number_eq_map {rare : Value → Bool} {order : List Value} (h : order.Nodup) (next : Nat) :
    number rare next order = order.map fun v =>
      (v, if rare v then otherCode else Int64.ofNat (next + (order.filter (!rare ·)).idxOf v)) := by
  induction order generalizing next with
  | nil => rfl
  | cons v rest ih =>
    obtain ⟨hv, hrest⟩ := List.nodup_cons.1 h
    rw [number, List.map_cons]
    cases hrare : rare v with
    | true =>
      rw [if_pos rfl, if_pos rfl, ih hrest, List.filter_cons_of_neg (by simp [hrare])]
    | false =>
      rw [if_neg (by simp), if_neg (by simp), ih hrest, List.filter_cons_of_pos (by simp [hrare]), List.idxOf_cons_self]
      refine congrArg _ (List.map_congr_left fun w hw => ?_)
      have hne : v ≠ w := fun heq => hv (heq ▸ hw)
      rw [List.idxOf_cons_ne _ hne, Nat.add_assoc, Nat.add_comm 1]

/-! ## What a map says of its series -/

/-- What the map of a series says of it, for a threshold. -/
structure Describes (map : CategoryMap) (raw : Series) (threshold : Option Nat) : Prop where
  /-- Levels are the frequent values in the order of encounter. -/
  levels : Encountered raw.values (Frequent threshold raw.values) map.levels
  /-- The code of a frequent value is its position among the levels, and other values share one code. -/
  code (v : Value) : map.code? v =
    if v ∉ raw.values then none
    else if Frequent threshold raw.values v then some (Int64.ofNat (map.levels.idxOf v))
    else some otherCode
  /-- The code of a frequent value leads back to it, as long as there are codes for all levels. -/
  level (hsize : map.levels.length ≤ 2 ^ 63) (v : Value) (hv : v ∈ raw.values) (h : Frequent threshold raw.values v) :
    ∃ code, map.code? v = some code ∧ map.level? code = some v
  /-- Codes that are no positions lead nowhere. -/
  level_none (code : Int64) (h : code.toInt < 0 ∨ map.levels.length ≤ code.toInt) : map.level? code = none
  /-- Entries are for the distinct values in the order of encounter. -/
  entries : Encountered raw.values (fun _ => True) (map.entries.map (·.1))
  /-- An entry has the code of its value. -/
  entry_code (entry : Value × Int64) (h : entry ∈ map.entries) : map.code? entry.1 = some entry.2
  /-- There are other values exactly if some value is not frequent. -/
  hasOther : map.hasOther = true ↔ ∃ v ∈ raw.values, ¬ Frequent threshold raw.values v
  /-- A series of the raw type is encoded cell by cell, with a default for the values without a code. -/
  encode (w : Series) (default : Int64) (h : w.dataType = raw.dataType) :
    map.encode w default = .ok (.integers (w.values.map fun v => (map.code? v).getD default))

/-! ## Codes and levels -/

theorem level?_ofNat (map : CategoryMap) {position : Nat} (h : position < 2 ^ 63) :
    map.level? (Int64.ofNat position) = map.levels[position]? := by
  rw [level?, Int64.toInt_ofNat_of_lt h, if_neg (by omega), Int.toNat_natCast]

/-- The position of a level is a code that leads back to it. -/
theorem level?_idxOf {map : CategoryMap} (hsize : map.levels.length ≤ 2 ^ 63) {v : Value} (hv : v ∈ map.levels) :
    map.level? (Int64.ofNat (map.levels.idxOf v)) = some v := by
  have hlt := List.idxOf_lt_length_of_mem hv
  rw [level?_ofNat map (Nat.lt_of_lt_of_le hlt hsize), List.getElem?_eq_getElem hlt, List.getElem_idxOf]

theorem level?_eq_none {map : CategoryMap} {code : Int64} (h : code.toInt < 0 ∨ map.levels.length ≤ code.toInt) :
    map.level? code = none := by
  unfold level?
  split
  · rfl
  · exact List.getElem?_eq_none (by omega)

/-- Every series but one of floats has a map, and its codes are what the map encodes it to. -/
theorem exists_build {raw : Series} (hraw : raw.dataType ≠ .float) (threshold : Option Nat) :
    ∃ map codes, build raw threshold = .ok (map, codes) ∧ map.encode raw otherCode = .ok codes := by
  have hencode : (ofValues raw.dataType threshold raw.values).encode raw otherCode = .ok (.integers
      (raw.values.map fun v => ((ofValues raw.dataType threshold raw.values).code? v).getD otherCode)) :=
    if_pos rfl
  refine ⟨_, _, ?_, hencode⟩
  cases raw with
  | floats cells => exact absurd rfl hraw
  | integers | strings | dates => exact bind_eq_ok.2 ⟨_, hencode, rfl⟩

section

variable {raw : Series} (hraw : raw.dataType ≠ .float) (threshold : Option Nat)
include hraw

theorem not_float_of_mem_values {v : Value} (hv : v ∈ raw.values) : v.dataType ≠ .float :=
  Series.dataType_of_mem_values hv ▸ hraw

theorem encountered_levels :
    Encountered raw.values (Frequent threshold raw.values) (ofValues raw.dataType threshold raw.values).levels := by
  have hfloat := fun v => not_float_of_mem_values hraw (v := v)
  have hlevels := (encountered_distinct hfloat).filter (!isRare threshold raw.values ·)
  refine ⟨fun v => (hlevels.mem_iff v).trans (and_congr_right fun _ => ?_), hlevels.pairwise⟩
  rw [true_and, Bool.not_eq_true', ← Bool.not_eq_true, isRare_iff hfloat, not_not]

/-- There are fewer levels than entries exactly if some value is not frequent. -/
theorem hasOther_iff : (ofValues raw.dataType threshold raw.values).hasOther = true ↔
    ∃ v ∈ raw.values, ¬ Frequent threshold raw.values v := by
  have hfloat := fun v => not_float_of_mem_values hraw (v := v)
  have hentries := congrArg List.length (map_fst_number (isRare threshold raw.values) 0 (distinct raw.values))
  rw [List.length_map] at hentries
  simp only [hasOther, ofValues, decide_eq_true_eq, hentries, List.length_filter_lt_length_iff_exists,
    (encountered_distinct hfloat).mem_iff, and_true, Bool.not_eq_true', Bool.not_eq_false, isRare_iff hfloat]

/-- Every distinct value has one entry, with its position among the levels or the code for other values. -/
theorem entries_eq_map :
    (ofValues raw.dataType threshold raw.values).entries = (distinct raw.values).map fun v =>
      (v, if Frequent threshold raw.values v
        then Int64.ofNat ((ofValues raw.dataType threshold raw.values).levels.idxOf v) else otherCode) := by
  have hfloat := fun v => not_float_of_mem_values hraw (v := v)
  refine (number_eq_map (encountered_distinct hfloat).nodup 0).trans (List.map_congr_left fun v _ => ?_)
  rw [Nat.zero_add]
  by_cases hv : Frequent threshold raw.values v
  · rw [if_pos hv, if_neg fun hrare => (isRare_iff hfloat v).1 hrare hv]
    rfl
  · rw [if_neg hv, if_pos ((isRare_iff hfloat v).2 hv)]

end

/-- A map that is built of a series describes it. -/
theorem build_describes {raw : Series} (hraw : raw.dataType ≠ .float) (threshold : Option Nat) :
    ∃ map codes, build raw threshold = .ok (map, codes) ∧ map.encode raw otherCode = .ok codes ∧
      map.Describes raw threshold := by
  obtain ⟨map, codes, hbuild, hcodes⟩ := exists_build hraw threshold
  refine ⟨map, codes, hbuild, hcodes, ?_⟩
  have hmap := eq_ofValues hbuild
  have hdistinct := encountered_distinct fun v => not_float_of_mem_values hraw (v := v)
  have hlevels := encountered_levels hraw threshold
  have hentries := entries_eq_map hraw threshold
  rw [← hmap] at hlevels hentries
  have hkeys : map.entries.map (·.1) = distinct raw.values := by
    rw [hentries, List.map_map]
    exact List.map_id _
  -- The only entry of a value of the series has the code of the value.
  have hcode : ∀ v ∈ raw.values, map.code? v = some
      (if Frequent threshold raw.values v then Int64.ofNat (map.levels.idxOf v) else otherCode) := fun v hv => by
    rw [code?_eq_some_iff hbuild, hentries]
    exact List.mem_map.2 ⟨v, (hdistinct.mem_iff v).2 ⟨hv, trivial⟩, rfl⟩
  have hunknown : ∀ v ∉ raw.values, map.code? v = none := fun v hv => by
    refine Option.eq_none_iff_forall_not_mem.2 fun code hsome => hv ?_
    have hmem := List.mem_map_of_mem (f := (·.1)) ((code?_eq_some_iff hbuild).1 hsome)
    rw [hkeys] at hmem
    exact mem_of_mem_distinct hmem
  refine ⟨hlevels, fun v => ?_, fun hsize v hv hfrequent => ?_, fun code hcode => ?_, hkeys ▸ hdistinct,
    fun entry hentry => (code?_eq_some_iff hbuild).2 hentry, ?_, fun w default hw => ?_⟩
  · by_cases hv : v ∈ raw.values
    · rw [hcode v hv, if_neg (not_not.2 hv), apply_ite some]
    · rw [hunknown v hv, if_pos hv]
  · refine ⟨_, hcode v hv, ?_⟩
    rw [if_pos hfrequent]
    exact level?_idxOf hsize ((hlevels.mem_iff v).2 ⟨hv, hfrequent⟩)
  · exact level?_eq_none hcode
  · exact hmap ▸ hasOther_iff hraw threshold
  · rw [encode, if_pos (hw.trans (congrArg rawType hmap).symm)]

/-- A text that occurs once is rare for a threshold of two, and the codes of the others are counted on past it. -/
theorem build_describes_rare :
    ∃ map codes, build (.strings ["x", "z", "y", "x", "y"]) (some 2) = .ok (map, codes) ∧
      codes = .integers [0, -1, 1, 0, 1] ∧ map.levels = [.string "x", .string "y"] ∧ map.hasOther = true ∧
      map.Describes (.strings ["x", "z", "y", "x", "y"]) (some 2) := by
  have hraw : (Series.strings ["x", "z", "y", "x", "y"]).dataType ≠ .float := by decide
  obtain ⟨map, codes, hbuild, -, hdescribes⟩ := build_describes hraw (some 2)
  have hmap := eq_ofValues hbuild
  refine ⟨map, codes, hbuild, ?_, ?_, ?_, hdescribes⟩
  · rw [build_codes hbuild, hmap]
    decide +kernel
  · rw [hmap]
    decide +kernel
  · rw [hmap]
    decide +kernel

end Tabular.CategoryMap
