-- SUMMARY: The index of a column set: it knows every column by its name and nothing else.
import Mathlib.Data.List.InsertIdx
import Tabular.ColumnSet

/-!
# The index of a column set

An index is right if a name stands at a position exactly when the column there has that name. Then names are
distinct, a lookup finds the one column of a name, and the index is the only one there is. Adding under a
new name, taking out and changing columns in place keep it right.

An index that is only sound finds no column under a name that is not its own, but need not find all of them. It
stays sound whatever is added, and over distinct names it is right wherever it finds anything.
-/

namespace Tabular.ColumnSet

variable {C : Type} {nameOf : C → String} {s : ColumnSet C}

/-- The names of the columns in order. -/
def names (nameOf : C → String) (s : ColumnSet C) : List String := s.columns.map nameOf

/-- The index leads from each column's name to its position, and from no other name anywhere. -/
def Indexed (nameOf : C → String) (s : ColumnSet C) : Prop :=
  ∀ name i, s.position? name = some i ↔ (s.names nameOf)[i]? = some name

/-- Where the index leads to, there is a column of the name. -/
def Sound (nameOf : C → String) (s : ColumnSet C) : Prop :=
  ∀ name i, s.position? name = some i → (s.names nameOf)[i]? = some name

theorem Indexed.sound (h : s.Indexed nameOf) : s.Sound nameOf := fun name i => (h name i).1

theorem mem_columns {name : String} {c : C} (h : s.column? name = some c) : c ∈ s.columns := by
  obtain ⟨i, -, hc⟩ := Option.bind_eq_some_iff.1 h
  exact List.mem_of_getElem? hc

/-- What a sound index finds has the name. -/
theorem Sound.mem_of_column? (h : s.Sound nameOf) {name : String} {c : C} (hc : s.column? name = some c) :
    c ∈ s.columns ∧ nameOf c = name := by
  obtain ⟨i, hposition, hc⟩ := Option.bind_eq_some_iff.1 hc
  have hname := h name i hposition
  rw [names, List.getElem?_map, hc] at hname
  exact ⟨List.mem_of_getElem? hc, Option.some.inj hname⟩

/-! ## What a right index gives -/

theorem Indexed.contains_iff (h : s.Indexed nameOf) (name : String) :
    s.contains name = true ↔ name ∈ s.names nameOf := by
  rw [contains, Option.isSome_iff_exists, List.mem_iff_getElem?]
  exact exists_congr fun i => h name i

theorem Indexed.nodup (h : s.Indexed nameOf) : (s.names nameOf).Nodup := by
  rw [List.nodup_iff_pairwise_ne, List.pairwise_iff_getElem]
  intro i j hi hj hij heq
  have hposi := (h _ i).2 (List.getElem?_eq_getElem hi)
  have hposj := (h _ j).2 (List.getElem?_eq_getElem hj)
  rw [heq, hposj] at hposi
  have := Option.some.inj hposi
  omega

/-- A lookup finds the one column of the name. -/
theorem Indexed.column?_eq_some_iff (h : s.Indexed nameOf) {name : String} {c : C} :
    s.column? name = some c ↔ c ∈ s.columns ∧ nameOf c = name := by
  simp only [column?, bind, Option.bind_eq_some_iff]
  constructor
  · rintro ⟨i, hposition, hc⟩
    have hname := (h name i).1 hposition
    rw [names, List.getElem?_map, hc] at hname
    exact ⟨List.mem_of_getElem? hc, by simpa using hname⟩
  · rintro ⟨hmem, rfl⟩
    obtain ⟨i, hc⟩ := List.mem_iff_getElem?.1 hmem
    exact ⟨i, (h _ i).2 (by rw [names, List.getElem?_map, hc, Option.map_some]), hc⟩

/-- What a lookup tells of a column depends on the index and on what the columns tell in order. -/
theorem map_column? {A : Type} (s : ColumnSet C) (name : String) (tell : C → A) :
    (s.column? name).map tell = (s.position? name).bind fun i => (s.columns.map tell)[i]? := by
  simp only [column?, bind, Option.map_bind, List.getElem?_map]
  rfl

/-- Changes in place change what a lookup finds. -/
theorem column?_map {D : Type} (s : ColumnSet C) (f : C → D) (name : String) :
    (s.map f).column? name = (s.column? name).map f := by
  simp only [column?, map, position?, bind, Option.map_bind, List.getElem?_map]
  rfl

/-! ## Positions -/

theorem lookup_forget (positions : List (String × Nat)) (name other : String) :
    (forget positions name).lookup other = if other = name then none else positions.lookup other := by
  induction positions with
  | nil => simp [forget]
  | cons entry rest ih =>
    obtain ⟨key, position⟩ := entry
    simp only [forget] at ih
    by_cases hkey : key = name
    · subst hkey
      simp only [forget, List.filter_cons, bne_self_eq_false, Bool.false_eq_true, if_false, ih]
      split
      · rfl
      · rename_i hother
        simp [List.lookup_cons, beq_eq_false_iff_ne.2 hother]
    · simp only [forget, List.filter_cons, bne_iff_ne.2 hkey, if_true, List.lookup_cons, ih]
      by_cases hother : other = key
      · subst hother
        simp [hkey]
      · simp [beq_eq_false_iff_ne.2 hother]

theorem lookup_map_snd (positions : List (String × Nat)) (f : Nat → Nat) (name : String) :
    (positions.map fun (n, p) => (n, f p)).lookup name = (positions.lookup name).map f := by
  induction positions with
  | nil => rfl
  | cons entry rest ih =>
    obtain ⟨key, position⟩ := entry
    simp only [List.map_cons, List.lookup_cons, ih]
    split <;> rfl

theorem position?_push (s : ColumnSet C) (name other : String) (c : C) :
    (s.push name c).position? other = if other = name then some s.columns.length else s.position? other := by
  simp only [position?, push, List.lookup_cons, lookup_forget]
  split
  · rename_i heq
    rw [if_pos (by simpa using heq)]
  · rename_i hne
    rw [if_neg (by simpa using hne), if_neg (by simpa using hne)]

/-! ## Changes -/

theorem indexed_empty : (empty : ColumnSet C).Indexed nameOf := by
  intro name i
  simp [position?, empty, names]

theorem names_push (s : ColumnSet C) (name : String) (c : C) :
    (s.push name c).names nameOf = s.names nameOf ++ [nameOf c] := by
  simp [names, push]

/-- Adding a column under its own name. -/
theorem Sound.push (h : s.Sound nameOf) (c : C) : (s.push (nameOf c) c).Sound nameOf := by
  intro name i hi
  have hlength : (s.names nameOf).length = s.columns.length := by simp [names]
  rw [position?_push] at hi
  rw [names_push]
  split at hi
  · rename_i heq
    obtain rfl := Option.some.inj hi
    rw [heq, ← hlength, List.getElem?_concat_length]
  · have hname := h name i hi
    rw [List.getElem?_append_left (List.getElem?_eq_some_iff.1 hname).1]
    exact hname

/-- Adding a column under a new name that is its own. -/
theorem Indexed.push (h : s.Indexed nameOf) {c : C} (hnew : s.contains (nameOf c) = false) :
    (s.push (nameOf c) c).Indexed nameOf := by
  refine fun name i => ⟨h.sound.push c name i, fun hi => ?_⟩
  have hlength : (s.names nameOf).length = s.columns.length := by simp [names]
  have hfresh : nameOf c ∉ s.names nameOf := by
    rw [← h.contains_iff, hnew]
    exact Bool.false_ne_true
  rw [names_push] at hi
  rw [position?_push]
  rcases Nat.lt_trichotomy i s.columns.length with hlt | rfl | hgt
  · rw [List.getElem?_append_left (hlength ▸ hlt)] at hi
    have hne : name ≠ nameOf c := by
      rintro rfl
      exact hfresh (List.mem_of_getElem? hi)
    rw [if_neg hne]
    exact (h name i).2 hi
  · rw [← hlength, List.getElem?_concat_length] at hi
    rw [if_pos (Option.some.inj hi).symm]
  · rw [List.getElem?_eq_none (by simp only [List.length_append, hlength, List.length_singleton]; omega)] at hi
    simp at hi

theorem columns_ofList (named : List (String × C)) : (ofList named).columns = named.map (·.2) := by
  have hfold : ∀ s : ColumnSet C,
      (named.foldl (fun s p => s.push p.1 p.2) s).columns = s.columns ++ named.map (·.2) := by
    induction named with
    | nil => simp
    | cons p more ih =>
      intro s
      rw [List.foldl_cons, ih]
      simp [ColumnSet.push]
  exact hfold empty

theorem sound_ofList {named : List (String × C)} (h : ∀ p ∈ named, nameOf p.2 = p.1) :
    (ofList named).Sound nameOf := by
  have hfold : ∀ s : ColumnSet C, s.Sound nameOf → (named.foldl (fun s p => s.push p.1 p.2) s).Sound nameOf := by
    induction named with
    | nil => exact fun s hs => hs
    | cons p more ih =>
      intro s hs
      have hpush : (s.push p.1 p.2).Sound nameOf := h p List.mem_cons_self ▸ hs.push p.2
      exact ih (fun q hq => h q (List.mem_cons_of_mem _ hq)) _ hpush
  exact hfold empty indexed_empty.sound

/-- A set made of columns with distinct names. -/
theorem indexed_ofList {named : List (String × C)} (h : ∀ p ∈ named, nameOf p.2 = p.1)
    (hdistinct : (named.map (·.1)).Nodup) : (ofList named).Indexed nameOf := by
  -- Along the fold the names still to come are not in the set.
  have hfold : ∀ s : ColumnSet C, s.Indexed nameOf → (∀ p ∈ named, s.contains p.1 = false) →
      (named.foldl (fun s p => s.push p.1 p.2) s).Indexed nameOf := by
    induction named with
    | nil => exact fun s hs _ => hs
    | cons p more ih =>
      intro s hs hnew
      have hp := h p List.mem_cons_self
      rw [List.map_cons, List.nodup_cons] at hdistinct
      have hpush : (s.push p.1 p.2).Indexed nameOf := hp ▸ hs.push (hp ▸ hnew p List.mem_cons_self)
      refine ih (fun q hq => h q (List.mem_cons_of_mem _ hq)) hdistinct.2 _ hpush fun q hq => ?_
      have hne : q.1 ≠ p.1 := by
        intro heq
        exact hdistinct.1 (heq ▸ List.mem_map_of_mem hq)
      rw [contains, position?_push, if_neg hne]
      exact hnew q (List.mem_cons_of_mem _ hq)
  exact hfold empty indexed_empty fun _ _ => rfl

theorem remove?_eq_some {name : String} {c : C} {rest : ColumnSet C} (h : s.remove? name = some (c, rest)) :
    ∃ p, s.position? name = some p ∧ s.columns[p]? = some c ∧
      rest = ⟨s.columns.eraseIdx p, (forget s.positions name).map fun (n, q) => (n, shift p q)⟩ := by
  simp only [remove?, bind, Option.bind_eq_some_iff] at h
  obtain ⟨p, hposition, column, hcolumn, heq⟩ := h
  obtain ⟨rfl, rfl⟩ : column = c ∧ _ = rest := by simpa [pure] using heq
  exact ⟨p, hposition, hcolumn, rfl⟩

theorem position?_remove (s : ColumnSet C) (name other : String) (p : Nat) :
    position? ⟨s.columns.eraseIdx p, (forget s.positions name).map fun (n, q) => (n, shift p q)⟩ other =
      if other = name then none else (s.position? other).map (shift p) := by
  simp only [position?, lookup_map_snd, lookup_forget]
  split <;> rfl

/-- Taking an element out moves the positions behind it. -/
theorem getElem?_shift {A : Type} (l : List A) {p q : Nat} (hne : q ≠ p) : (l.eraseIdx p)[shift p q]? = l[q]? := by
  -- Positions in front of `p` stay, those behind it move down by one.
  rw [List.getElem?_eraseIdx]
  unfold shift
  split
  · rw [if_neg (by omega), Nat.sub_add_cancel (by omega)]
  · rw [if_pos (by omega)]

/-- A sound index leads to different positions for different names. -/
theorem Sound.ne_of_ne (h : s.Sound nameOf) {name other : String} {p q : Nat} (hp : s.position? name = some p)
    (hq : s.position? other = some q) (hother : other ≠ name) : q ≠ p := by
  rintro rfl
  exact hother (Option.some.inj ((h other q hq).symm.trans (h name q hp)))

theorem Sound.remove? (h : s.Sound nameOf) {name : String} {c : C} {rest : ColumnSet C}
    (hremove : s.remove? name = some (c, rest)) : rest.Sound nameOf := by
  obtain ⟨p, hposition, -, rfl⟩ := remove?_eq_some hremove
  intro other i hi
  rw [position?_remove] at hi
  split at hi
  · simp at hi
  · rename_i hother
    obtain ⟨q, hq, rfl⟩ := Option.map_eq_some_iff.1 hi
    rw [names, ← List.eraseIdx_map, getElem?_shift _ (h.ne_of_ne hposition hq hother)]
    exact h other q hq

theorem Indexed.remove? (h : s.Indexed nameOf) {name : String} {c : C} {rest : ColumnSet C}
    (hremove : s.remove? name = some (c, rest)) : rest.Indexed nameOf := by
  refine fun other i => ⟨h.sound.remove? hremove other i, fun hi => ?_⟩
  obtain ⟨p, hposition, -, rfl⟩ := remove?_eq_some hremove
  -- The index is right, so `p` is the only position of the name, and no other one is forgotten with it.
  have hunique : ∀ j, (s.names nameOf)[j]? = some name → j = p := by
    intro j hj
    have := (h name j).2 hj
    rw [hposition] at this
    exact (Option.some.inj this).symm
  rw [names, ← List.eraseIdx_map, List.getElem?_eraseIdx] at hi
  rw [position?_remove]
  split at hi
  · rename_i hlt
    rw [if_neg, (h other i).2 hi, Option.map_some, shift, if_neg (by omega)]
    rintro rfl
    have := hunique i hi
    omega
  · rename_i hge
    rw [if_neg, (h other (i + 1)).2 hi, Option.map_some, shift, if_pos (by omega), Nat.add_sub_cancel]
    rintro rfl
    have := hunique (i + 1) hi
    omega

/-- What was added is found under its name, and under the others what was found before. -/
theorem Sound.column?_push (h : s.Sound nameOf) (name other : String) (c : C) :
    (s.push name c).column? other = if other = name then some c else s.column? other := by
  unfold column?
  rw [position?_push]
  split
  · exact List.getElem?_concat_length ..
  · cases hother : s.position? other with
    | none => rfl
    | some i =>
      have hi : i < (s.names nameOf).length := (List.getElem?_eq_some_iff.1 (h other i hother)).1
      have hi : i < s.columns.length := by simpa [names] using hi
      exact List.getElem?_append_left hi

/-- What was taken out is not found any more, and under the other names there is what was found before. -/
theorem Sound.column?_remove (h : s.Sound nameOf) {name : String} {c : C} {rest : ColumnSet C}
    (hremove : s.remove? name = some (c, rest)) (other : String) :
    rest.column? other = if other = name then none else s.column? other := by
  obtain ⟨p, hposition, -, rfl⟩ := remove?_eq_some hremove
  unfold column?
  rw [position?_remove]
  split
  · rfl
  · rename_i hother
    cases hq : s.position? other with
    | none => rfl
    | some q => exact getElem?_shift _ (h.ne_of_ne hposition hq hother)

/-- Taking out what was added last leads back. -/
theorem Sound.remove?_push (h : s.Sound nameOf)
    {name : String} (hnew : s.contains name = false) (c : C) :
    ∃ rest, (s.push name c).remove? name = some (c, rest) ∧ rest.columns = s.columns ∧
      ∀ other, rest.position? other = s.position? other := by
  have hposition : (s.push name c).position? name = some s.columns.length := by rw [position?_push, if_pos rfl]
  have hcolumn : (s.push name c).columns[s.columns.length]? = some c := List.getElem?_concat_length ..
  refine ⟨_, Option.bind_eq_some_iff.2 ⟨_, hposition, Option.bind_eq_some_iff.2 ⟨c, hcolumn, rfl⟩⟩, ?_, fun other => ?_⟩
  · exact (List.eraseIdx_append_of_length_le (Nat.le_refl _) [c]).trans (by simp)
  rw [position?_remove, position?_push]
  split
  · rename_i heq
    rw [heq]
    exact (Option.not_isSome_iff_eq_none.1 (Bool.eq_false_iff.1 hnew)).symm
  -- Every other name stands in front of the column, and does not move.
  · cases hother : s.position? other with
    | none => rfl
    | some i =>
      have hi : i < (s.names nameOf).length := (List.getElem?_eq_some_iff.1 (h other i hother)).1
      have hi : i < s.columns.length := by simpa [names] using hi
      rw [Option.map_some, shift, if_neg (by omega)]

/-- Changes in place that keep the names. -/
theorem Indexed.of_names {D : Type} {nameOf' : D → String} {t : ColumnSet D} (h : s.Indexed nameOf)
    (hpositions : t.positions = s.positions) (hnames : t.names nameOf' = s.names nameOf) : t.Indexed nameOf' := by
  intro name i
  rw [hnames, ← h name i, position?, hpositions]
  rfl

theorem Sound.of_names {D : Type} {nameOf' : D → String} {t : ColumnSet D} (h : s.Sound nameOf)
    (hpositions : t.positions = s.positions) (hnames : t.names nameOf' = s.names nameOf) : t.Sound nameOf' := by
  intro name i hi
  rw [hnames]
  rw [position?, hpositions] at hi
  exact h name i hi

/-- A sound index that finds all a right one finds leads to the same positions. -/
theorem Sound.position?_eq {D : Type} {nameOf' : D → String} {t : ColumnSet D} (hs : s.Sound nameOf)
    (ht : t.Indexed nameOf') (hnames : s.names nameOf = t.names nameOf') {name : String}
    (hfound : t.contains name = true → s.contains name = true) : s.position? name = t.position? name := by
  -- A position that is found is right in both; a position that is not found is not found in the other either.
  cases hposition : s.position? name with
  | some i =>
    have hname := hs name i hposition
    rw [hnames] at hname
    exact ((ht name i).2 hname).symm
  | none =>
    cases hother : t.position? name with
    | none => rfl
    | some i =>
      have := hfound (by rw [contains, hother, Option.isSome_some])
      rw [contains, hposition] at this
      simp at this

end Tabular.ColumnSet
