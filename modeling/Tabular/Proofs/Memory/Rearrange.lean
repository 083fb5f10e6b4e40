-- SUMMARY: Exchanging neighbours along the cycles of an order puts the rows in that order.
import Mathlib.GroupTheory.Perm.List
import Tabular.Memory.Rearrange
import Tabular.Proofs.Memory.Frame

/-!
# Rows moved along cycles

An order names every row once. Exchanging the neighbours of a list of rows, from its start to its end, moves the rows
once around that list. The rows of an order fall apart into cycles: what leads to a row of a cycle is in the cycle
itself, so a cycle that starts at a row that is not placed yet meets no row that is. The rows that are moved around all
cycles are therefore moved as the order says, and exchanging them in place is taking them in that order.
-/

namespace Tabular

/-- A series is its type and its cells. -/
theorem Series.eq_of_values {s t : Series} (htype : s.dataType = t.dataType) (h : s.values = t.values) :
    s = t := by
  cases s <;> cases t <;> cases htype
  all_goals
    refine congrArg _ (List.map_injective_iff.2 ?_ h)
    intro a b hab
    cases hab
    rfl

namespace Memory

/-! ## Exchanges -/

/-- Where exchanges, made one after another, take the row of a position from. -/
def exchanged (pairs : List (Nat × Nat)) : Equiv.Perm Nat := (pairs.map fun (a, b) => Equiv.swap a b).prod

theorem exchanged_cons (pair : Nat × Nat) (pairs : List (Nat × Nat)) :
    exchanged (pair :: pairs) = Equiv.swap pair.1 pair.2 * exchanged pairs := by
  simp [exchanged]

theorem exchanged_append (pairs more : List (Nat × Nat)) :
    exchanged (pairs ++ more) = exchanged pairs * exchanged more := by
  simp [exchanged]

theorem getElem?_exchange {α : Type} {cells : List α} {a b : Nat} (ha : a < cells.length) (hb : b < cells.length)
    (i : Nat) : (Series.exchange cells a b)[i]? = cells[Equiv.swap a b i]? := by
  unfold Series.exchange
  rw [List.getElem?_eq_getElem ha, List.getElem?_eq_getElem hb, Equiv.swap_apply_def]
  dsimp only
  rw [List.getElem?_set, List.getElem?_set, List.length_set]
  by_cases hib : i = b
  · subst hib
    by_cases hia : i = a
    · subst hia
      simp [ha]
    · simp [hia, hb, List.getElem?_eq_getElem ha]
  · by_cases hia : i = a
    · subst hia
      simp [Ne.symm hib, ha, List.getElem?_eq_getElem hb]
    · simp [hia, hib, Ne.symm hia, Ne.symm hib]

theorem getElem?_foldl_swap {s : Series} {pairs : List (Nat × Nat)}
    (h : ∀ pair ∈ pairs, pair.1 < s.length ∧ pair.2 < s.length) (i : Nat) :
    (pairs.foldl (fun s (a, b) => s.swap a b) s).values[i]? = s.values[exchanged pairs i]? := by
  induction pairs generalizing s with
  | nil => rfl
  | cons pair pairs ih =>
    obtain ⟨ha, hb⟩ := h pair List.mem_cons_self
    rw [← s.length_values] at ha hb
    rw [List.foldl_cons, ih (by simpa using fun a b hmem => h (a, b) (List.mem_cons_of_mem _ hmem)),
      Series.values_swap, getElem?_exchange ha hb, exchanged_cons, Equiv.Perm.mul_apply]

/-- Exchanging the neighbours of a list moves the rows once around it. -/
theorem exchanged_neighbours : ∀ cycle : List Nat, exchanged (neighbours cycle) = cycle.formPerm
  | [] => rfl
  | [a] => by simp [neighbours, exchanged]
  | a :: b :: more => by
    rw [neighbours, exchanged_cons, exchanged_neighbours (b :: more), List.formPerm_cons_cons]

theorem mem_of_mem_neighbours : ∀ {cycle : List Nat} {pair : Nat × Nat}, pair ∈ neighbours cycle →
    pair.1 ∈ cycle ∧ pair.2 ∈ cycle
  | a :: b :: more, pair, h => by
    rcases List.mem_cons.1 h with rfl | h
    · simp
    · obtain ⟨h1, h2⟩ := mem_of_mem_neighbours h
      exact ⟨List.mem_cons_of_mem _ h1, List.mem_cons_of_mem _ h2⟩

theorem exchanged_flatMap (cycles : List (List Nat)) :
    exchanged (cycles.flatMap neighbours) = (cycles.map List.formPerm).prod := by
  induction cycles with
  | nil => rfl
  | cons cycle cycles ih =>
    rw [List.flatMap_cons, exchanged_append, exchanged_neighbours, ih, List.map_cons, List.prod_cons]

/-! ## Cycles -/

section Cycles

variable {order : List Nat} {start : Nat}

/-- A list of distinct rows, each leading to the next one and the last to the first. -/
structure IsCycle (order cycle : List Nat) : Prop where
  nodup : cycle.Nodup
  next : ∀ row ∈ cycle, order[row]? = some (cycle.formPerm row)

/-- Distinct rows from a start on, each leading to the next one. -/
structure IsPath (order : List Nat) (start : Nat) (path : List Nat) : Prop where
  nodup : path.Nodup
  head : path.head? = some start
  within : ∀ row ∈ path, row < order.length
  next : path.IsChain fun row following => order[row]? = some following

/-- No row outside leads to a row inside. -/
def ClosedBackwards (order placed : List Nat) : Prop :=
  ∀ row next, order[row]? = some next → next ∈ placed → row ∈ placed

theorem IsCycle.lt {cycle : List Nat} (h : IsCycle order cycle) {row : Nat} (hrow : row ∈ cycle) :
    row < order.length :=
  (List.getElem?_eq_some_iff.1 (h.next row hrow)).1

theorem IsPath.singleton (hstart : start < order.length) : IsPath order start [start] :=
  ⟨List.nodup_singleton _, rfl, by simpa using hstart, .singleton _⟩

/-- A path of distinct rows is no longer than the order. -/
theorem IsPath.length_le {path : List Nat} (h : IsPath order start path) : path.length ≤ order.length := by
  have hsubperm : path.Subperm (List.range order.length) :=
    List.subperm_of_subset h.nodup fun row hrow => List.mem_range.2 (h.within row hrow)
  simpa using hsubperm.length_le

/-- A path whose last row leads to its start is a cycle. -/
theorem IsPath.isCycle {path : List Nat} {last : Nat} (h : IsPath order start (path ++ [last]))
    (hlast : order[last]? = some start) : IsCycle order (path ++ [last]) := by
  refine ⟨h.nodup, fun row hrow => ?_⟩
  obtain ⟨i, hi, rfl⟩ := List.mem_iff_getElem.1 hrow
  by_cases hnext : i + 1 < (path ++ [last]).length
  · rw [List.formPerm_apply_lt_getElem _ h.nodup i hnext]
    exact List.isChain_iff_getElem.1 h.next i hnext
  -- The last row is the one that leads back.
  · have hend : (path ++ [last])[i] = last := by
      have : i = path.length := by simp at hi hnext; omega
      simp [this]
    rw [hend, hlast]
    obtain ⟨rest, hrest⟩ : ∃ rest, path ++ [last] = start :: rest := by
      obtain ⟨rest, hrest⟩ := List.head?_eq_some_iff.1 h.head
      exact ⟨rest, hrest⟩
    have hgetLast := List.formPerm_apply_getLast start rest
    simp only [← hrest, List.getLast_append_singleton] at hgetLast
    rw [hgetLast]

/-- In an order of all rows, one row leads to a row. -/
theorem row_unique (hp : order.Perm (List.range order.length)) {row other next : Nat} (h : order[row]? = some next)
    (hother : order[other]? = some next) : row = other := by
  have hnodup : order.Nodup := hp.nodup_iff.2 List.nodup_range
  exact (List.getElem?_inj (List.getElem?_eq_some_iff.1 h).1 hnodup).1 (h.trans hother.symm)

theorem lt_of_order (hp : order.Perm (List.range order.length)) {row next : Nat} (h : order[row]? = some next) :
    next < order.length :=
  List.mem_range.1 (hp.mem_iff.1 (List.mem_of_getElem? h))

/-- A path goes on with a new row unless it leads back to the start. -/
theorem IsPath.extend (hp : order.Perm (List.range order.length)) {path : List Nat} {last next : Nat}
    (h : IsPath order start (path ++ [last])) (hlast : order[last]? = some next) (hne : next ≠ start) :
    IsPath order start (path ++ [last] ++ [next]) := by
  have hnew : next ∉ path ++ [last] := by
    intro hmem
    obtain ⟨i, hi, hnext⟩ := List.mem_iff_getElem.1 hmem
    cases i with
    | zero =>
      have hhead := h.head
      rw [List.head?_eq_getElem?, List.getElem?_eq_getElem hi, hnext] at hhead
      exact hne (Option.some.inj hhead)
    -- The row before it would be a second one that leads to it.
    | succ i =>
      have hbefore := List.isChain_iff_getElem.1 h.next i hi
      rw [hnext] at hbefore
      have hsame : (path ++ [last])[i] = (path ++ [last])[path.length] := by
        rw [row_unique hp hbefore hlast]
        simp
      have hindex := (h.nodup.getElem_inj_iff).1 hsame
      simp only [List.length_append, List.length_singleton] at hi
      omega
  refine ⟨List.nodup_append.2 ⟨h.nodup, List.nodup_singleton _, ?_⟩, ?_, fun row hrow => ?_, ?_⟩
  · rintro row hrow _ hmem rfl
    exact hnew (List.mem_singleton.1 hmem ▸ hrow)
  · rw [List.head?_append, h.head]
    rfl
  · rcases List.mem_append.1 hrow with hrow | hrow
    · exact h.within row hrow
    · obtain rfl := List.mem_singleton.1 hrow
      exact lt_of_order hp hlast
  · refine List.isChain_append.2 ⟨h.next, .singleton _, fun row hrow following hfollowing => ?_⟩
    simp only [List.getLast?_append, List.getLast?_singleton, Option.some_or, Option.mem_def, Option.some.injEq,
      List.head?_singleton] at hrow hfollowing
    rw [← hrow, ← hfollowing]
    exact hlast

/-- A path that is followed as long as there are rows closes to a cycle. -/
theorem isCycle_cycleFrom (hp : order.Perm (List.range order.length)) {bound : Nat} {path : List Nat}
    {position : Nat} (h : IsPath order start (path ++ [position])) (hbound : order.length ≤ path.length + bound) :
    IsCycle order (path ++ cycleFrom order start bound position) := by
  induction bound generalizing path position with
  -- The path cannot be that long.
  | zero =>
    have hlength := h.length_le
    simp only [List.length_append, List.length_singleton] at hlength
    omega
  | succ bound ih =>
    have hposition : position < order.length := h.within position (by simp)
    unfold cycleFrom
    rw [List.getElem?_eq_getElem hposition]
    dsimp only
    split
    · rename_i hback
      exact h.isCycle (by rw [List.getElem?_eq_getElem hposition, hback])
    · rename_i hne
      have hnext := ih (h.extend hp (List.getElem?_eq_getElem hposition) hne)
        (by simp only [List.length_append, List.length_singleton]; omega)
      simpa using hnext

theorem isCycle_cycleAt (hp : order.Perm (List.range order.length)) (hstart : start < order.length) :
    IsCycle order (cycleAt order start) := by
  have hpath : IsPath order start ([] ++ [start]) := .singleton hstart
  exact isCycle_cycleFrom hp hpath (by simp)

theorem mem_cycleAt (hstart : start < order.length) : start ∈ cycleAt order start := by
  obtain ⟨bound, hbound⟩ : ∃ bound, order.length = bound + 1 := ⟨order.length - 1, by omega⟩
  unfold cycleAt
  rw [hbound]
  unfold cycleFrom
  rw [List.getElem?_eq_getElem hstart]
  dsimp only
  split <;> simp

/-- The row that leads to a row of a cycle is in the cycle. -/
theorem IsCycle.closedBackwards (hp : order.Perm (List.range order.length)) {cycle : List Nat}
    (h : IsCycle order cycle) : ClosedBackwards order cycle := by
  intro row next hnext hmem
  have hbefore : cycle.formPerm (cycle.formPerm.symm next) = next := Equiv.apply_symm_apply _ _
  have hin : cycle.formPerm.symm next ∈ cycle := List.formPerm_mem_iff_mem.1 (hbefore.symm ▸ hmem)
  have hleads := h.next _ hin
  rw [hbefore] at hleads
  exact row_unique hp hnext hleads ▸ hin

/-- Going back from a placed row of a cycle, all rows before it are placed. -/
theorem IsCycle.mem_placed {cycle placed : List Nat} (h : IsCycle order cycle)
    (hplaced : ClosedBackwards order placed) {row : Nat} (hrow : row ∈ cycle) (steps : Nat) :
    (cycle.formPerm ^ steps) row ∈ placed → row ∈ placed := by
  induction steps generalizing row with
  | zero => exact id
  | succ steps ih =>
    rw [pow_succ, Equiv.Perm.mul_apply]
    intro hmem
    exact hplaced row _ (h.next row hrow) (ih (List.formPerm_apply_mem_of_mem hrow) hmem)

/-- A cycle with a row that is not placed meets no row that is. -/
theorem IsCycle.disjoint {cycle placed : List Nat} (h : IsCycle order cycle) (hplaced : ClosedBackwards order placed)
    (hstart : start ∈ cycle) (hnew : start ∉ placed) : cycle.Disjoint placed := by
  intro row hrow hmem
  obtain ⟨i, hi, rfl⟩ := List.mem_iff_getElem.1 hstart
  obtain ⟨j, hj, rfl⟩ := List.mem_iff_getElem.1 hrow
  -- The row is reached from the start around the cycle.
  refine hnew (h.mem_placed hplaced hstart (j + (cycle.length - i)) ?_)
  rw [List.formPerm_pow_apply_getElem _ h.nodup]
  have hindex : (i + (j + (cycle.length - i))) % cycle.length = j := by
    rw [show i + (j + (cycle.length - i)) = j + cycle.length by omega, Nat.add_mod_right, Nat.mod_eq_of_lt hj]
  simpa only [hindex] using hmem

/-- The cycles that are found are cycles, have no row in common and none that is placed, and every row they are
    looked for from is placed or in one of them. -/
theorem cyclesFrom_spec (hp : order.Perm (List.range order.length)) {starts placed : List Nat}
    (hstarts : ∀ row ∈ starts, row < order.length) (hplaced : ClosedBackwards order placed) :
    (∀ cycle ∈ cyclesFrom order starts placed, IsCycle order cycle) ∧
      (cyclesFrom order starts placed).flatten.Nodup ∧
      (cyclesFrom order starts placed).flatten.Disjoint placed ∧
      ∀ row ∈ starts, row ∈ placed ∨ row ∈ (cyclesFrom order starts placed).flatten := by
  induction starts generalizing placed with
  | nil => simp [cyclesFrom]
  | cons start starts ih =>
    have hmore : ∀ row ∈ starts, row < order.length := fun row hrow => hstarts row (List.mem_cons_of_mem _ hrow)
    unfold cyclesFrom
    split
    · rename_i hcontains
      obtain ⟨hcycles, hnodup, hdisjoint, hall⟩ := ih hmore hplaced
      refine ⟨hcycles, hnodup, hdisjoint, fun row hrow => ?_⟩
      rcases List.mem_cons.1 hrow with rfl | hrow
      · exact .inl (List.contains_iff_mem.1 hcontains)
      · exact hall row hrow
    · rename_i hcontains
      have hlt : start < order.length := hstarts start List.mem_cons_self
      have hcycle := isCycle_cycleAt hp hlt
      have hmem := mem_cycleAt hlt
      have hnew : (cycleAt order start).Disjoint placed :=
        hcycle.disjoint hplaced hmem fun h => hcontains (List.contains_iff_mem.2 h)
      have hclosed : ClosedBackwards order (cycleAt order start ++ placed) := by
        intro row next hnext hin
        rcases List.mem_append.1 hin with hin | hin
        · exact List.mem_append_left _ (hcycle.closedBackwards hp row next hnext hin)
        · exact List.mem_append_right _ (hplaced row next hnext hin)
      obtain ⟨hcycles, hnodup, hdisjoint, hall⟩ := ih hmore hclosed
      rw [List.disjoint_append_right] at hdisjoint
      refine ⟨List.forall_mem_cons.2 ⟨hcycle, hcycles⟩, ?_, ?_, fun row hrow => ?_⟩
      · exact List.nodup_append'.2 ⟨hcycle.nodup, hnodup, hdisjoint.1.symm⟩
      · exact List.disjoint_append_left.2 ⟨hnew, hdisjoint.2⟩
      · rw [List.flatten_cons, List.mem_append]
        rcases List.mem_cons.1 hrow with rfl | hrow
        · exact .inr (.inl hmem)
        · rcases hall row hrow with hin | hin
          · rcases List.mem_append.1 hin with hin | hin
            · exact .inr (.inl hin)
            · exact .inl hin
          · exact .inr (.inr hin)

/-- Moving rows around cycles leaves the rows that are in none of them. -/
theorem prod_formPerm_of_notMem {cycles : List (List Nat)} {row : Nat} (h : row ∉ cycles.flatten) :
    (cycles.map List.formPerm).prod row = row := by
  induction cycles with
  | nil => rfl
  | cons cycle cycles ih =>
    rw [List.flatten_cons, List.mem_append, not_or] at h
    rw [List.map_cons, List.prod_cons, Equiv.Perm.mul_apply, ih h.2, List.formPerm_apply_of_notMem h.1]

/-- Moving rows around cycles that have no row in common moves each row of them to where it leads. -/
theorem prod_formPerm_of_mem {cycles : List (List Nat)} (hcycles : ∀ cycle ∈ cycles, IsCycle order cycle)
    (hnodup : cycles.flatten.Nodup) {row : Nat} (h : row ∈ cycles.flatten) :
    order[row]? = some ((cycles.map List.formPerm).prod row) ∧
      (cycles.map List.formPerm).prod row ∈ cycles.flatten := by
  induction cycles with
  | nil => simp at h
  | cons cycle cycles ih =>
    obtain ⟨hcycle, hmore⟩ := List.forall_mem_cons.1 hcycles
    obtain ⟨-, hrest, hdisjoint⟩ := List.nodup_append'.1 hnodup
    rw [List.flatten_cons, List.mem_append] at h
    rw [List.flatten_cons, List.mem_append, List.map_cons, List.prod_cons, Equiv.Perm.mul_apply]
    rcases h with h | h
    · rw [prod_formPerm_of_notMem fun hin => hdisjoint h hin]
      exact ⟨hcycle.next row h, .inl (List.formPerm_apply_mem_of_mem h)⟩
    -- A row of a later cycle stays in the later cycles, which the first one does not move.
    · obtain ⟨hnext, hin⟩ := ih hmore hrest h
      rw [List.formPerm_apply_of_notMem fun hfirst => hdisjoint hfirst hin]
      exact ⟨hnext, .inr hin⟩

theorem cycles_spec (hp : order.Perm (List.range order.length)) :
    (∀ cycle ∈ cycles order, IsCycle order cycle) ∧ (cycles order).flatten.Nodup ∧
      ∀ row < order.length, row ∈ (cycles order).flatten := by
  have hstarts : ∀ row ∈ List.range order.length, row < order.length := fun row hrow => List.mem_range.1 hrow
  have hplaced : ClosedBackwards order [] := fun _ _ _ hmem => absurd hmem List.not_mem_nil
  obtain ⟨hcycles, hnodup, -, hall⟩ := cyclesFrom_spec hp hstarts hplaced
  exact ⟨hcycles, hnodup, fun row hrow => (hall row (List.mem_range.2 hrow)).resolve_left List.not_mem_nil⟩

/-- The exchanges of an order take the row of each position from where the order says. -/
theorem exchanged_exchanges (hp : order.Perm (List.range order.length)) {i : Nat} (hi : i < order.length) :
    order[i]? = some (exchanged (exchanges order) i) := by
  obtain ⟨hcycles, hnodup, hall⟩ := cycles_spec hp
  unfold exchanges
  rw [exchanged_flatMap]
  exact (prod_formPerm_of_mem hcycles hnodup (hall i hi)).1

theorem lt_of_mem_exchanges (hp : order.Perm (List.range order.length)) {pair : Nat × Nat}
    (h : pair ∈ exchanges order) : pair.1 < order.length ∧ pair.2 < order.length := by
  obtain ⟨cycle, hcycle, hpair⟩ := List.mem_flatMap.1 h
  obtain ⟨h1, h2⟩ := mem_of_mem_neighbours hpair
  have hcycles := (cycles_spec hp).1 cycle hcycle
  exact ⟨hcycles.lt h1, hcycles.lt h2⟩

end Cycles

/-! ## Taking rows in an order -/

/-- Moving the cells of a series in place is taking them in the order. -/
theorem take_eq_permute {s : Series} {order : List Nat} (hp : order.Perm (List.range s.length)) :
    s.take order = .ok (permute order s) := by
  have hlength : order.length = s.length := by simpa using hp.length_eq
  rw [← hlength] at hp
  have hwithin : ∀ row ∈ order, row < s.length := fun row hrow =>
    hlength ▸ List.mem_range.1 (hp.mem_iff.1 hrow)
  obtain ⟨t, ht⟩ := Series.exists_take hwithin
  obtain ⟨htype, htaken⟩ := Series.take_ok ht
  obtain ⟨hmoved, hcells⟩ := Frame.permute_ok order s
  have hrow : ∀ i < order.length, t.values[i]? = (permute order s).values[i]? := by
    intro i hi
    unfold permute
    rw [getElem?_foldl_swap fun pair hpair => hlength ▸ lt_of_mem_exchanges hp hpair]
    have hrel := Series.rel_getElem? (Series.values_take ht) i
    rw [exchanged_exchanges hp hi] at hrel
    generalize t.values[i]? = cell at hrel ⊢
    cases hrel with
    | some hcell => exact hcell.symm
  have hvalues : t.values = (permute order s).values := by
    refine List.ext_getElem? fun i => ?_
    by_cases hi : i < order.length
    · exact hrow i hi
    · rw [List.getElem?_eq_none, List.getElem?_eq_none]
      · rw [Series.length_values]
        omega
      · rw [Series.length_values]
        omega
  rw [ht, Series.eq_of_values (htype.trans hmoved.symm) hvalues]

namespace Frame

variable {f : Frame}

/-- Moving the rows of columns of one length in place is taking them in the order. -/
theorem take_eq_permute_of_lengths {n : Nat} (hlengths : ∀ c ∈ f.columns, c.length = n) {order : List Nat}
    (hp : order.Perm (List.range n)) : f.take order = .ok (f.permute order) := by
  have hcolumns : f.columns.mapM (·.take order) =
      .ok (f.columns.map fun c => { c with data := Memory.permute order c.data }) := by
    refine mapM_eq_ok.2 (List.forall₂_map_right_iff.2 (List.forall₂_same.2 fun c hc => ?_))
    have hdata : c.data.take order = .ok (Memory.permute order c.data) :=
      Memory.take_eq_permute (by rw [show c.data.length = n from hlengths c hc]; exact hp)
    unfold Column.take
    rw [hdata]
    rfl
  unfold Frame.take ColumnSet.mapM
  change (f.set.columns.mapM (·.take order) >>= fun columns => _) >>= _ = _
  rw [show f.set.columns.mapM (·.take order) = _ from hcolumns]
  rfl

/-- Moving the rows of a frame in place is taking them in the order. -/
theorem Valid.take_eq_permute (hf : f.Valid) {order : List Nat} (hp : order.Perm (List.range f.rows)) :
    f.take order = .ok (f.permute order) :=
  take_eq_permute_of_lengths hf.lengths hp

end Frame

end Memory

end Tabular
