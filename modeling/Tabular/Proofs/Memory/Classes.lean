-- SUMMARY: Grouping divides the rows by their keys, each row into one group, in the order in which keys are first met.
import Tabular.Memory.Grouping
import Tabular.Proofs.Series

/-!
# Groups of equal keys

Being the same key is an equivalence: two values are the same if what identifies them is equal, where all NaNs are
identified alike, and both zeros. Classes of an equivalence divide a list. Each element is in one of them, its equals
are in the same one, and both the elements of a class and the first elements of the classes stand in the order of the
list. Filling the classes in one pass over the list, each element into the class whose first element it equals, gives
the same classes.
-/

namespace Tabular

/-! ## Equal keys -/

/-- What identifies a value as a key. -/
def Value.identity : Value → Value ⊕ Int
  | .float x => .inr (Decimal.orderKey x)
  | v => .inl v

theorem Value.same_iff {v w : Value} : v.same w = true ↔ v.identity = w.identity := by
  cases v <;> cases w <;> simp [same, identity, Decimal.compareFloats]

theorem Value.same_of_orderKey {x y : Float} (h : Decimal.orderKey x = Decimal.orderKey y) :
    (Value.float x).same (.float y) = true :=
  same_iff.2 (congrArg Sum.inr h)

/-- All NaNs are one key. -/
theorem Value.same_of_isNaN {x y : Float} (hx : x.isNaN = true) (hy : y.isNaN = true) :
    (Value.float x).same (.float y) = true :=
  have hkey : ∀ z : Float, z.isNaN = true → Decimal.orderKey z = 0x7fffffffffffffff := fun _ hz => if_pos hz
  same_of_orderKey ((hkey x hx).trans (hkey y hy).symm)

/-- Floats without a magnitude are one key, whatever their signs are. -/
theorem Value.same_of_zero {x y : Float} (hx : x.isNaN = false) (hy : y.isNaN = false)
    (hx0 : x.toBits &&& 0x7fffffffffffffff = 0) (hy0 : y.toBits &&& 0x7fffffffffffffff = 0) :
    (Value.float x).same (.float y) = true := by
  have hkey : ∀ z : Float, z.isNaN = false → z.toBits &&& 0x7fffffffffffffff = 0 → Decimal.orderKey z = 0 := by
    intro z hz h0
    unfold Decimal.orderKey
    rw [if_neg (by rw [hz]; exact Bool.false_ne_true), h0]
    dsimp only
    split <;> rfl
  exact same_of_orderKey ((hkey x hx hx0).trans (hkey y hy hy0).symm)

example : (Value.float 0.0).same (.float (-0.0)) = true := by decide +kernel

namespace Memory

theorem sameKeys_iff {as bs : List Value} : sameKeys as bs = true ↔ as.map Value.identity = bs.map Value.identity := by
  induction as generalizing bs with
  | nil => cases bs <;> simp [sameKeys]
  | cons a as ih =>
    cases bs with
    | nil => simp [sameKeys]
    | cons b bs => simp only [sameKeys, Bool.and_eq_true, Value.same_iff, ih, List.map_cons, List.cons.injEq]

/-! ## Classes -/

section Classes

variable {α : Type} {same : α → α → Bool}

theorem classes_cons (a : α) (rest : List α) :
    classes same (a :: rest) = (a :: rest.filter (same a)) :: classes same (rest.filter (!same a ·)) := by
  rw [classes]

/-- Classes are divided off one after another: first that of the first element, then those of the others. -/
theorem classes_induction (same : α → α → Bool) {motive : List α → Prop} (nil : motive [])
    (cons : ∀ a rest, motive (rest.filter (!same a ·)) → motive (a :: rest)) : ∀ items, motive items
  | [] => nil
  | a :: rest => cons a rest (classes_induction same nil cons (rest.filter (!same a ·)))
termination_by items => items.length
decreasing_by
  have := List.length_filter_le (!same a ·) rest
  simp only [List.length_cons]
  omega

/-- Every element is in one class, as often as in the list. -/
theorem flatten_classes (items : List α) : (classes same items).flatten.Perm items := by
  induction items using classes_induction same with
  | nil => simp [classes]
  | cons a rest ih =>
    rw [classes_cons, List.flatten_cons, List.cons_append, List.perm_cons]
    exact (ih.append_left _).trans (List.filter_append_perm _ rest)

theorem mem_of_mem_classes {items class' : List α} (h : class' ∈ classes same items) {a : α} (ha : a ∈ class') :
    a ∈ items :=
  (flatten_classes items).mem_iff.1 (List.mem_flatten.2 ⟨class', h, ha⟩)

theorem ne_nil_of_mem_classes {items : List α} : ∀ class' ∈ classes same items, class' ≠ [] := by
  induction items using classes_induction same with
  | nil => simp [classes]
  | cons a rest ih =>
    rw [classes_cons, List.forall_mem_cons]
    exact ⟨List.cons_ne_nil _ _, ih⟩

/-- The elements of a class stand in the order of the list. -/
theorem sublist_of_mem_classes {items : List α} : ∀ class' ∈ classes same items, class'.Sublist items := by
  induction items using classes_induction same with
  | nil => simp [classes]
  | cons a rest ih =>
    rw [classes_cons, List.forall_mem_cons]
    refine ⟨List.filter_sublist.cons_cons a, fun class' hclass => ?_⟩
    exact ((ih class' hclass).trans List.filter_sublist).cons a

/-- The first elements of the classes stand in the order of the list. -/
theorem firsts_classes (items : List α) : ((classes same items).filterMap List.head?).Sublist items := by
  induction items using classes_induction same with
  | nil => simp [classes]
  | cons a rest ih =>
    rw [classes_cons, List.filterMap_cons, List.head?_cons]
    exact (ih.trans List.filter_sublist).cons_cons a

/-- Two elements share a class if they are the same. -/
theorem exists_class_iff {β : Type} (key : α → β) (hsame : ∀ a b, same a b = true ↔ key a = key b) {items : List α} :
    ∀ a ∈ items, ∀ b ∈ items, (∃ class' ∈ classes same items, a ∈ class' ∧ b ∈ class') ↔ key a = key b := by
  induction items using classes_induction same with
  | nil => simp
  | cons first rest ih =>
    have hfirst : ∀ a ∈ first :: rest, a ∈ first :: rest.filter (same first) ↔ key first = key a := by
      intro a ha
      simp only [List.mem_cons, List.mem_filter, hsame] at ha ⊢
      grind
    have hothers : ∀ a ∈ first :: rest, a ∈ rest.filter (!same first ·) ↔ key first ≠ key a := by
      intro a ha
      simp only [List.mem_cons, List.mem_filter, Bool.not_eq_true', ← Bool.not_eq_true, hsame] at ha ⊢
      grind
    intro a ha b hb
    rw [classes_cons, List.exists_mem_cons_iff, hfirst a ha, hfirst b hb]
    have hlater : (∃ class' ∈ classes same (rest.filter (!same first ·)), a ∈ class' ∧ b ∈ class') →
        key first ≠ key a ∧ key first ≠ key b := by
      rintro ⟨class', hclass, hmema, hmemb⟩
      exact ⟨(hothers a ha).1 (mem_of_mem_classes hclass hmema), (hothers b hb).1 (mem_of_mem_classes hclass hmemb)⟩
    constructor
    · rintro (⟨hfirsta, hfirstb⟩ | h)
      · exact hfirsta.symm.trans hfirstb
      · obtain ⟨hnea, hneb⟩ := hlater h
        exact (ih a ((hothers a ha).2 hnea) b ((hothers b hb).2 hneb)).1 h
    · intro h
      by_cases hkey : key first = key a
      · exact .inl ⟨hkey, hkey.trans h⟩
      · exact .inr ((ih a ((hothers a ha).2 hkey) b ((hothers b hb).2 (h ▸ hkey))).2 h)

/-! ## Classes in one pass -/

/-- Put an element into the class whose first element it equals, or into a new one behind all others. -/
def enter (same : α → α → Bool) (a : α) : List (List α) → List (List α)
  | [] => [[a]]
  | class' :: more =>
    if class'.head?.any (same · a) then (class' ++ [a]) :: more else class' :: enter same a more

/-- The first class gets the elements that equal its first element, and the others are entered into the rest. -/
theorem foldl_enter (first : α) (class' : List α) (more : List (List α)) (items : List α) :
    items.foldl (fun classes a => enter same a classes) ((first :: class') :: more) =
      (first :: class' ++ items.filter (same first)) ::
        (items.filter (!same first ·)).foldl (fun classes a => enter same a classes) more := by
  induction items generalizing class' more with
  | nil => simp
  | cons a items ih =>
    rw [List.foldl_cons, enter, List.head?_cons, Option.any_some]
    cases hsame : same first a with
    | true =>
      rw [if_pos rfl, List.cons_append, ih]
      simp [hsame]
    | false =>
      rw [if_neg Bool.false_ne_true, ih]
      simp [hsame]

/-- The classes are those that one pass over the list fills. -/
theorem classes_eq_foldl (items : List α) :
    classes same items = items.foldl (fun classes a => enter same a classes) [] := by
  induction items using classes_induction same with
  | nil => simp [classes]
  | cons a rest ih =>
    rw [classes_cons, List.foldl_cons, enter, foldl_enter, ih]
    rfl

end Classes

/-! ## Groups of rows -/

/-- Row numbers that are divided into groups: each is in one group, and the same ones share a group. The rows of a
    group stand in ascending order, and so do the groups by their first rows. -/
structure Divides (same : Nat → Nat → Prop) (rows : Nat) (groups : List (List Nat)) : Prop where
  perm : groups.flatten.Perm (List.range rows)
  shared : ∀ row < rows, ∀ row' < rows, (∃ group ∈ groups, row ∈ group ∧ row' ∈ group) ↔ same row row'
  nonempty : ∀ group ∈ groups, group ≠ []
  ascending : ∀ group ∈ groups, group.Pairwise (· < ·)
  firsts : (groups.filterMap List.head?).Pairwise (· < ·)

/-- Two rows have the same key in each column of keys. -/
def SameCells (keys : List Series) (row row' : Nat) : Prop :=
  ∀ key ∈ keys, ∃ v v', key.cell? row = some v ∧ key.cell? row' = some v' ∧ v.same v' = true

theorem Series.exists_cell? {s : Series} {row : Nat} (h : row < s.length) : ∃ v, s.cell? row = some v := by
  rw [Series.cell?_eq]
  exact ⟨_, List.getElem?_eq_getElem ((Series.length_values s).symm ▸ h)⟩

theorem identity_keysAt_iff {keys : List Series} {row row' : Nat}
    (hkeys : ∀ key ∈ keys, row < key.length ∧ row' < key.length) :
    (keysAt keys row).map Value.identity = (keysAt keys row').map Value.identity ↔ SameCells keys row row' := by
  induction keys with
  | nil => simp [keysAt, SameCells]
  | cons key keys ih =>
    rw [List.forall_mem_cons] at hkeys
    obtain ⟨v, hv⟩ := Series.exists_cell? hkeys.1.1
    obtain ⟨v', hv'⟩ := Series.exists_cell? hkeys.1.2
    have hcons : ∀ {i : Nat} {w : Value}, key.cell? i = some w → keysAt (key :: keys) i = w :: keysAt keys i :=
      fun h => List.filterMap_cons_some h
    rw [hcons hv, hcons hv', List.map_cons, List.map_cons, List.cons.injEq, ih hkeys.2, ← Value.same_iff]
    simp only [SameCells, List.forall_mem_cons, hv, hv', Option.some.injEq, exists_eq_left', exists_and_left]

theorem mem_keyedRows {keys : List Series} {rows : Nat} {p : Nat × List Value} :
    p ∈ keyedRows keys rows ↔ p.1 < rows ∧ p.2 = keysAt keys p.1 := by
  unfold keyedRows
  rw [List.mem_map]
  constructor
  · rintro ⟨row, hrow, rfl⟩
    exact ⟨List.mem_range.1 hrow, rfl⟩
  · rintro ⟨hrow, hkeys⟩
    exact ⟨p.1, List.mem_range.2 hrow, Prod.ext rfl hkeys.symm⟩

theorem map_fst_keyedRows (keys : List Series) (rows : Nat) : (keyedRows keys rows).map (·.1) = List.range rows := by
  simp [keyedRows, Function.comp_def]

/-- Every group begins with a row. -/
theorem length_firsts (keys : List Series) (rows : Nat) :
    ((groups keys rows).filterMap List.head?).length = (groups keys rows).length := by
  have hne : ∀ group ∈ groups keys rows, group ≠ [] := by
    intro group hgroup
    obtain ⟨class', hclass, rfl⟩ := List.mem_map.1 hgroup
    simpa using ne_nil_of_mem_classes class' hclass
  generalize groups keys rows = divided at hne ⊢
  induction divided with
  | nil => rfl
  | cons group more ih =>
    rw [List.forall_mem_cons] at hne
    obtain ⟨row, rest, rfl⟩ := List.exists_cons_of_ne_nil hne.1
    rw [List.filterMap_cons, List.head?_cons, List.length_cons, List.length_cons, ih hne.2]

/-- Grouping divides the rows by their keys. -/
theorem divides_groups {keys : List Series} {rows : Nat} (hkeys : ∀ key ∈ keys, key.length = rows) :
    Divides (SameCells keys) rows (groups keys rows) := by
  have hrange := map_fst_keyedRows keys rows
  have hmem : ∀ class' ∈ classes (fun a b => sameKeys a.2 b.2) (keyedRows keys rows), ∀ row < rows,
      row ∈ class'.map (·.1) ↔ (row, keysAt keys row) ∈ class' := by
    intro class' hclass row hrow
    rw [List.mem_map]
    constructor
    · rintro ⟨p, hp, rfl⟩
      obtain ⟨-, hkey⟩ := mem_keyedRows.1 (mem_of_mem_classes hclass hp)
      exact hkey ▸ hp
    · exact fun hp => ⟨_, hp, rfl⟩
  refine ⟨?_, fun row hrow row' hrow' => ?_, fun group hgroup => ?_, fun group hgroup => ?_, ?_⟩
  · unfold groups
    rw [← List.map_flatten, ← hrange]
    exact (flatten_classes _).map _
  · have hclass := exists_class_iff (fun p : Nat × List Value => p.2.map Value.identity)
      (fun a b => sameKeys_iff) (row, keysAt keys row) (mem_keyedRows.2 ⟨hrow, rfl⟩) (row', keysAt keys row')
      (mem_keyedRows.2 ⟨hrow', rfl⟩)
    rw [← identity_keysAt_iff fun key hkey => by rw [hkeys key hkey]; exact ⟨hrow, hrow'⟩, ← hclass]
    constructor
    · rintro ⟨_, hgroup, hin, hin'⟩
      obtain ⟨class', hclass, rfl⟩ := List.mem_map.1 hgroup
      exact ⟨class', hclass, (hmem class' hclass row hrow).1 hin, (hmem class' hclass row' hrow').1 hin'⟩
    · rintro ⟨class', hclass, hin, hin'⟩
      exact ⟨_, List.mem_map_of_mem hclass, (hmem class' hclass row hrow).2 hin, (hmem class' hclass row' hrow').2 hin'⟩
  · obtain ⟨class', hclass, rfl⟩ := List.mem_map.1 hgroup
    simpa using ne_nil_of_mem_classes class' hclass
  · obtain ⟨class', hclass, rfl⟩ := List.mem_map.1 hgroup
    refine List.Pairwise.sublist ?_ (hrange ▸ List.pairwise_lt_range)
    exact (sublist_of_mem_classes class' hclass).map _
  · have hfirsts : (groups keys rows).filterMap List.head? =
        ((classes (fun a b => sameKeys a.2 b.2) (keyedRows keys rows)).filterMap List.head?).map (·.1) := by
      unfold groups
      simp only [List.filterMap_map, List.map_filterMap, Function.comp_def, List.head?_map]
    rw [hfirsts]
    exact List.Pairwise.sublist ((firsts_classes _).map _) (hrange ▸ List.pairwise_lt_range)

/-- What is listed for the first rows is listed for the groups. -/
theorem forall₂_firsts {β : Type} {R : Nat → β → Prop} {groups : List (List Nat)} (hne : ∀ group ∈ groups, group ≠ [])
    {values : List β} (h : List.Forall₂ R (groups.filterMap List.head?) values) :
    List.Forall₂ (fun group v => ∃ row, group.head? = some row ∧ R row v) groups values := by
  induction groups generalizing values with
  | nil =>
    cases h
    exact .nil
  | cons group more ih =>
    rw [List.forall_mem_cons] at hne
    obtain ⟨row, rest, rfl⟩ := List.exists_cons_of_ne_nil hne.1
    cases h with
    | cons hrow hmore => exact .cons ⟨row, rfl, hrow⟩ (ih hne.2 hmore)

end Memory

end Tabular
