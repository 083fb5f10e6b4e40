-- SUMMARY: Sorting takes all rows in the order of their keys, in either direction, and does not reorder equal ones.
import Tabular.Proofs.Memory.Reached
import Tabular.Proofs.Memory.Rearrange

/-!
# Sorting

Values are totally ordered, kinds first and NaN above the other floats. Rows are compared by their key cells, the first
key that differs decides, and a descending sort turns each of these comparisons around. Two rows that are equal in all
keys are not turned around: the sort is stable, so it is the sort of a comparison that goes on with the row numbers.
All columns of a frame are rearranged by the order that is found from the keys, so the sorted frame is the frame with
its rows taken in that order.
-/

namespace Tabular

/-! ## The order of values -/

namespace Value

/-- The number that values of one kind are first ordered by. -/
def leading : Value → Int
  | integer n => n.toInt
  | float x => Decimal.orderKey x
  | date d => d.year
  | _ => 0

/-- The text that texts are ordered by. -/
def characters : Value → String
  | string s => s
  | _ => ""

/-- The month and the day that dates of one year are ordered by. -/
def monthAndDay : Value → Nat × Nat
  | date d => (d.month, d.day)
  | _ => (0, 0)

theorem compare_eq : Value.compare = compareLex (compareOn rank) (compareLex (compareOn leading)
    (compareLex (compareOn characters) (compareLex (compareOn fun v => v.monthAndDay.1)
      (compareOn fun v => v.monthAndDay.2)))) := by
  funext v w
  cases v <;> cases w
  all_goals
    first
    -- The kinds decide.
    | rfl
    | simp [Value.compare, Decimal.compareFloats, compareLex, compareOn, rank, leading, characters, monthAndDay]

/-- Values are totally ordered. -/
instance : Std.TransCmp Value.compare := by
  rw [compare_eq]
  infer_instance

end Value

namespace Memory

/-! ## The order of rows -/

/-- A comparison in the direction of a sort. -/
def directed (ascending : Bool) (order : Ordering) : Ordering := if ascending then order else order.swap

/-- Compare rows by a column. -/
def compareCells (ascending : Bool) (key : Series) (a b : Nat) : Ordering :=
  directed ascending (((key.cell? a).getD .null).compare ((key.cell? b).getD .null))

/-- Compare rows by key columns: the first key that differs decides. -/
def compareRows (ascending : Bool) : List Series → Nat → Nat → Ordering
  | [], _, _ => .eq
  | key :: keys, a, b => (compareCells ascending key a b).then (compareRows ascending keys a b)

instance (ascending : Bool) (key : Series) : Std.TransCmp (compareCells ascending key) := by
  have hswaps : ∀ v w : Value, v.compare w = (w.compare v).swap := fun _ _ => Std.OrientedCmp.eq_swap
  have htrans : ∀ u v w : Value, (u.compare v).isLE = true → (v.compare w).isLE = true →
      (u.compare w).isLE = true := fun _ _ _ => Std.TransCmp.isLE_trans
  cases ascending with
  | true => exact { eq_swap := hswaps _ _, isLE_trans := htrans _ _ _ }
  | false =>
    have hswap : compareCells false key = fun a b =>
        ((key.cell? b).getD .null).compare ((key.cell? a).getD .null) := by
      funext a b
      exact (hswaps _ _).symm
    rw [hswap]
    exact { eq_swap := hswaps _ _, isLE_trans := fun hab hbc => htrans _ _ _ hbc hab }

/-- Rows are totally ordered by their keys, in either direction. -/
instance transCmp_compareRows (ascending : Bool) (keys : List Series) : Std.TransCmp (compareRows ascending keys) := by
  induction keys with
  | nil => exact { eq_swap := rfl, isLE_trans := fun _ _ => rfl }
  | cons key keys ih => exact inferInstanceAs (Std.TransCmp (compareLex (compareCells ascending key) _))

theorem compareKeys_keysAt {ascending : Bool} {keys : List Series} {rows a b : Nat}
    (hkeys : ∀ key ∈ keys, key.length = rows) (ha : a < rows) (hb : b < rows) :
    compareKeys ascending (keysAt keys a) (keysAt keys b) = compareRows ascending keys a b := by
  induction keys with
  | nil => rfl
  | cons key keys ih =>
    have hcell : ∀ row < rows, ∃ v, key.cell? row = some v := by
      intro row hrow
      rw [Series.cell?_eq]
      exact ⟨_, List.getElem?_eq_getElem (by rw [Series.length_values, hkeys key List.mem_cons_self]; exact hrow)⟩
    obtain ⟨v, hv⟩ := hcell a ha
    obtain ⟨w, hw⟩ := hcell b hb
    have hkey : ∀ {row v}, key.cell? row = some v → keysAt (key :: keys) row = v :: keysAt keys row :=
      fun h => List.filterMap_cons_some h
    rw [hkey hv, hkey hw, compareKeys, compareRows, compareCells, hv, hw,
      ih fun key hmem => hkeys key (List.mem_cons_of_mem _ hmem)]
    rfl

/-! ## The order that sorts -/

/-- Sorting numbers from zero on is stable: numbers that compare as equal stay in their order. -/
theorem mergeSort_range (cmp : Nat → Nat → Ordering) [Std.OrientedCmp cmp] (n : Nat) :
    (List.range n).mergeSort (fun a b => (cmp a b).isLE) =
      (List.range n).mergeSort fun a b => (compareLex cmp Ord.compare a b).isLE := by
  have hindex : ∀ pair ∈ (List.range n).zipIdx, pair.2 = pair.1 := by
    rintro ⟨row, i⟩ hpair
    obtain ⟨-, hi⟩ := List.mem_zipIdx' hpair
    rw [hi, List.getElem_range]
  rw [← List.mergeSort_zipIdx, List.map_mergeSort, List.zipIdx_map_fst]
  intro x hx y hy
  unfold List.zipIdxLE
  have hswap : cmp y.1 x.1 = (cmp x.1 y.1).swap := Std.OrientedCmp.eq_swap
  simp only [hindex x hx, hindex y hy, hswap, compareLex]
  cases cmp x.1 y.1 with
  | eq => simp [← Nat.isLE_compare]
  | _ => simp

theorem sortedOrder_eq {ascending : Bool} {keys : List Series} {rows : Nat} (hkeys : ∀ key ∈ keys, key.length = rows) :
    sortedOrder ascending keys rows = (List.range rows).mergeSort fun a b =>
      (compareLex (compareRows ascending keys) Ord.compare a b).isLE := by
  have hrows : (keyedRows keys rows).map (·.1) = List.range rows := by
    simp [keyedRows, Function.comp_def]
  rw [← mergeSort_range]
  unfold sortedOrder
  rw [List.map_mergeSort, hrows]
  intro x hx y hy
  obtain ⟨a, ha, rfl⟩ := List.mem_map.1 hx
  obtain ⟨b, hb, rfl⟩ := List.mem_map.1 hy
  rw [compareKeys_keysAt hkeys (List.mem_range.1 ha) (List.mem_range.1 hb)]
  cases compareRows ascending keys a b <;> rfl

theorem perm_sortedOrder (ascending : Bool) (keys : List Series) (rows : Nat) :
    (sortedOrder ascending keys rows).Perm (List.range rows) := by
  have hrows : (keyedRows keys rows).map (·.1) = List.range rows := by
    simp [keyedRows, Function.comp_def]
  rw [← hrows]
  exact (List.mergeSort_perm _ _).map _

/-- The keys of the rows are in order, and rows with equal keys are in the order they were in. -/
theorem pairwise_sortedOrder {ascending : Bool} {keys : List Series} {rows : Nat}
    (hkeys : ∀ key ∈ keys, key.length = rows) :
    (sortedOrder ascending keys rows).Pairwise fun a b => compareRows ascending keys a b = .lt ∨
      compareRows ascending keys a b = .eq ∧ a < b := by
  have hdistinct : (sortedOrder ascending keys rows).Nodup :=
    (perm_sortedOrder ascending keys rows).nodup_iff.2 List.nodup_range
  have hsorted : (sortedOrder ascending keys rows).Pairwise fun a b =>
      (compareLex (compareRows ascending keys) Ord.compare a b).isLE = true := by
    rw [sortedOrder_eq hkeys]
    refine List.pairwise_mergeSort (fun a b c => Std.TransCmp.isLE_trans) (fun a b => ?_) _
    have hswap : compareLex (compareRows ascending keys) Ord.compare b a =
        (compareLex (compareRows ascending keys) Ord.compare a b).swap := Std.OrientedCmp.eq_swap
    rw [hswap]
    cases compareLex (compareRows ascending keys) Ord.compare a b <;> rfl
  refine (hsorted.and hdistinct).imp fun {a b} ⟨hle, hne⟩ => ?_
  unfold compareLex at hle
  cases hrows : compareRows ascending keys a b with
  | lt => exact .inl rfl
  | eq =>
    rw [hrows, Ordering.eq_then, Nat.isLE_compare] at hle
    exact .inr ⟨rfl, lt_of_le_of_ne hle hne⟩
  | gt => simp [hrows] at hle

/-! ## Sorted frames -/

namespace Frame

variable {f : Frame}

/-- How the cells of two rows compare in the column of a name. -/
def compareAt (f : Frame) (key : String) (a b : Nat) : Option Ordering := do
  let c ← f.column? key
  return (← c.data.cell? a).compare (← c.data.cell? b)

/-- A row belongs before another one: its cell is the lesser one, or the greater one if the sort is descending, in the
    first key column in which the two differ. Rows that do not differ in any of them belong in the order they have. -/
def Precedes (f : Frame) (ascending : Bool) : List String → Nat → Nat → Prop
  | [], a, b => a < b
  | key :: keys, a, b =>
    f.compareAt key a b = some (if ascending then .lt else .gt) ∨
      f.compareAt key a b = some .eq ∧ f.Precedes ascending keys a b

theorem compareAt_eq {key : String} {c : Column} (hc : f.column key = .ok c) {a b : Nat} (ha : a < c.length)
    (hb : b < c.length) :
    f.compareAt key a b = some (((c.data.cell? a).getD .null).compare ((c.data.cell? b).getD .null)) := by
  have hcell : ∀ row < c.length, ∃ v, c.data.cell? row = some v := by
    intro row hrow
    rw [Series.cell?_eq]
    exact ⟨_, List.getElem?_eq_getElem (by rw [Series.length_values]; exact hrow)⟩
  obtain ⟨v, hv⟩ := hcell a ha
  obtain ⟨w, hw⟩ := hcell b hb
  simp [compareAt, column_ok hc, hv, hw]

/-- Rows that compare as less by the key columns, or as equal and are in their order, are in the order of the sort. -/
theorem Valid.precedes (hf : f.Valid) {ascending : Bool} {keys : List String} {keyColumns : List Column}
    (hkeys : List.Forall₂ (fun key c => f.column key = .ok c) keys keyColumns) {a b : Nat} (ha : a < f.rows)
    (hb : b < f.rows)
    (h : compareRows ascending (keyColumns.map (·.data)) a b = .lt ∨
      compareRows ascending (keyColumns.map (·.data)) a b = .eq ∧ a < b) :
    f.Precedes ascending keys a b := by
  induction hkeys with
  | nil => simpa [compareRows, Precedes] using h
  | @cons key c keys keyColumns hc _ ih =>
    have hlength := hf.lengths c (hf.mem_of_column? (column_ok hc)).1
    have hat := compareAt_eq hc (hlength.symm ▸ ha) (hlength.symm ▸ hb)
    rw [List.map_cons, compareRows] at h
    unfold Precedes
    rw [hat]
    unfold compareCells directed at h
    generalize ((c.data.cell? a).getD .null).compare ((c.data.cell? b).getD .null) = order at h ⊢
    cases order with
    | eq => exact .inr ⟨rfl, ih (by simpa using h)⟩
    | lt =>
      cases ascending with
      | true => exact .inl rfl
      | false => simp at h
    | gt =>
      cases ascending with
      | true => simp at h
      | false => exact .inl rfl

/-- Keys that all exist have columns of the length of the frame. -/
theorem Valid.keyColumns (hf : f.Valid) {keys : List String} (hkeys : ∀ key ∈ keys, f.column? key ≠ none) :
    ∃ keyColumns, keys.mapM f.column = .ok keyColumns ∧ ∀ c ∈ keyColumns, c.length = f.rows := by
  obtain ⟨keyColumns, hcolumns⟩ := exists_mapM (f := f.column) fun key hkey => by
    obtain ⟨c, hc⟩ := Option.ne_none_iff_exists'.1 (hkeys key hkey)
    exact ⟨c, by simp [column, hc]⟩
  refine ⟨keyColumns, hcolumns, fun c hc => ?_⟩
  obtain ⟨key, -, hkey⟩ := exists_of_mem_mapM hcolumns hc
  exact hf.lengths c (hf.mem_of_column? (column_ok hkey)).1

/-- A key that no column has is refused. -/
theorem sort_unknown (ascending : Bool) {keys : List String} {key : String} (hmem : key ∈ keys)
    (hkey : f.column? key = none) :
    ∃ unknown ∈ keys, f.column? unknown = none ∧ f.sort ascending keys = .error (.unknownColumn unknown) := by
  rcases mapM_cases f.column keys with ⟨keyColumns, hcolumns⟩ | ⟨unknown, hunknown, failure, hfailure, hall⟩
  · obtain ⟨c, -, hc⟩ := exists_of_mem_forall₂ (mapM_eq_ok.1 hcolumns).flip hmem
    rw [column_ok hc] at hkey
    cases hkey
  · refine ⟨unknown, hunknown, ?_⟩
    unfold sort
    rw [hall]
    unfold column at hfailure
    split at hfailure
    · cases hfailure
    · rename_i hnone
      obtain rfl := Except.error.inj hfailure
      exact ⟨hnone, rfl⟩

/-- Sorting a frame by columns it has takes all its rows in one order for all columns. In that order a row comes before
    another one as their keys say, the first key that differs deciding, in the direction of the sort; rows that are
    equal in all keys keep their order, in both directions. If a key is not known, the frame stays as it was. -/
theorem sort_stable {f : Frame} (hf : f.Reached) (ascending : Bool) (keys : List String) :
    ((∀ key ∈ keys, f.column? key ≠ none) → ∃ order g, order.Perm (List.range f.rows) ∧
      order.Pairwise (f.Precedes ascending keys) ∧ f.take order = .ok g ∧ f.sort ascending keys = .ok g ∧
      f.handle (.sortInPlace ascending keys) = (g, none)) ∧
    ((∃ key ∈ keys, f.column? key = none) → f.handle (.sortInPlace ascending keys) = (f, none) ∧
      ∃ key ∈ keys, f.column? key = none ∧ f.sort ascending keys = .error (.unknownColumn key)) := by
  constructor
  · intro hkeys
    obtain ⟨keyColumns, hcolumns, hlengths⟩ := hf.valid.keyColumns hkeys
    have hdata : ∀ key ∈ keyColumns.map (·.data), key.length = f.rows := List.forall_mem_map.2 hlengths
    have hperm := perm_sortedOrder ascending (keyColumns.map (·.data)) f.rows
    have hsorted : f.sort ascending keys =
        .ok (f.permute (sortedOrder ascending (keyColumns.map (·.data)) f.rows)) := by
      unfold sort
      rw [hcolumns]
      rfl
    refine ⟨_, _, hperm, ?_, hf.valid.take_eq_permute hperm, hsorted, ?_⟩
    · refine List.Pairwise.imp_of_mem (fun {a b} ha hb h => ?_) (pairwise_sortedOrder hdata)
      exact hf.valid.precedes (mapM_eq_ok.1 hcolumns) (List.mem_range.1 (hperm.mem_iff.1 ha))
        (List.mem_range.1 (hperm.mem_iff.1 hb)) h
    · simp [handle, hsorted, Except.toOption]
  · rintro ⟨key, hmem, hkey⟩
    obtain ⟨unknown, hunknown, hnone, hsorted⟩ := sort_unknown ascending hmem hkey
    exact ⟨by simp [handle, hsorted, Except.toOption], unknown, hunknown, hnone, hsorted⟩

/-- The greater numbers come first, and the texts of equal numbers stay in their order. -/
theorem sort_stable_descending :
    let f := (empty .default).run [(.append (.ofSeries "n" (.integers [1, 2, 1, 2])), false),
      (.append (.ofSeries "t" (.strings ["a", "b", "c", "d"])), false)]
    (∃ order g, order.Perm (List.range f.rows) ∧ order.Pairwise (f.Precedes false ["n"]) ∧ f.take order = .ok g ∧
      f.sort false ["n"] = .ok g ∧ g.columns.map (·.data) = [.integers [2, 2, 1, 1], .strings ["b", "d", "a", "c"]]) ∧
    f.handle (.sortInPlace false ["n", "m"]) = (f, none) := by
  intro f
  have hf : f.Reached := (Reached.empty .default).run fun c returned hc => by
    simp only [List.mem_cons, Prod.mk.injEq, Request.append.injEq, List.not_mem_nil, or_false] at hc
    rcases hc with ⟨rfl, -⟩ | ⟨rfl, -⟩
    · exact .ofSeries ..
    · exact .ofSeries ..
  obtain ⟨order, g, hperm, hsorted, htake, hsort, -⟩ := (sort_stable hf false ["n"]).1 (by decide +kernel)
  refine ⟨⟨order, g, hperm, hsorted, htake, hsort, ?_⟩,
    ((sort_stable hf false ["n", "m"]).2 ⟨"m", by simp, by decide +kernel⟩).1⟩
  -- No other order of the rows has each row before the later ones.
  have hread : f.Precedes false ["n"] = fun a b => f.compareAt "n" a b = some .gt ∨
      f.compareAt "n" a b = some .eq ∧ a < b := rfl
  have hrows : ∀ row ∈ order, row < 4 := fun row hrow => List.mem_range.1 (hperm.mem_iff.1 hrow)
  have hstrict : ∀ a < 4, ∀ b < 4, f.Precedes false ["n"] a b → f.Precedes false ["n"] b a → a = b := by
    rw [hread]
    decide +kernel
  have hlisted : [1, 3, 0, 2].Pairwise (f.Precedes false ["n"]) := by
    rw [hread]
    decide +kernel
  have hlistedPerm : [1, 3, 0, 2].Perm (List.range 4) := by decide
  obtain rfl : order = [1, 3, 0, 2] :=
    (hperm.trans hlistedPerm.symm).eq_of_pairwise (fun a b ha hb => hstrict a (hrows a ha) b
      (List.mem_range.1 (hlistedPerm.mem_iff.1 hb))) hsorted hlisted
  rw [Except.ok.inj (htake.symm.trans (hf.valid.take_eq_permute hperm))]
  decide +kernel

end Frame

end Memory

end Tabular
