-- SUMMARY: Moving the rows of a frame step by step in place ends, stays in bounds and puts them in the order.
import Tabular.Proofs.Memory.Rearrange

/-!
# Rows moved in place

The rows of a frame are moved while a loop walks along an order. The loop keeps a flag for each position that is
placed. It looks for the next position that is not, and from there it follows the order, exchanging the rows of one
position and the next in all columns, until the order leads back to where it started. Nothing in the loop bounds how
long a cycle is followed, and each position that it reads or exchanges has to be there.

In an order of all rows a path leads back to its start, so each position is passed once: the loop ends after as many
steps, and the exchanges that it makes are the exchanges of the cycles of the order.
-/

namespace Tabular.Memory

/-! ## The loop -/

namespace Frame

/-- Exchange two rows in every column. -/
def swap (f : Frame) (a b : Nat) : Frame :=
  { f with set := f.set.map fun c => { c with data := c.data.swap a b } }

/-- Exchange rows, one pair after another. -/
def swaps (f : Frame) (pairs : List (Nat × Nat)) : Frame := pairs.foldl (fun f (a, b) => f.swap a b) f

end Frame

/-- Where the loop is: the positions that are placed so far, and the frame as it has been moved so far. -/
inductive Moving where
  /-- Look whether a cycle starts at a position. -/
  | seek (start : Nat) (placed : List Bool) (f : Frame)
  /-- Follow the cycle of a start from a position on. -/
  | follow (start position : Nat) (placed : List Bool) (f : Frame)
  | done (f : Frame)
  /-- A position is out of bounds. -/
  | failed

namespace Moving

/-- No position is placed. -/
def begin (order : List Nat) (f : Frame) : Moving := .seek 0 (List.replicate order.length false) f

/-- One step of the loop. -/
def step (order : List Nat) : Moving → Moving
  | .seek start placed f =>
    if start < order.length then
      match placed[start]? with
      | none => .failed
      | some true => .seek (start + 1) placed f
      | some false => .follow start start placed f
    else .done f
  | .follow start position placed f =>
    match order[position]? with
    | none => .failed
    | some next =>
      if position < placed.length then
        if next = start then .seek (start + 1) (placed.set position true) f
        else if f.columns.all fun c => position < c.length ∧ next < c.length then
          .follow start next (placed.set position true) (f.swap position next)
        else .failed
      else .failed
  | .done f => .done f
  | .failed => .failed

theorem run_failed (order : List Nat) (steps : Nat) : (step order)^[steps] failed = failed :=
  Function.iterate_fixed rfl steps

theorem run_done (order : List Nat) (f : Frame) (steps : Nat) : (step order)^[steps] (done f) = done f :=
  Function.iterate_fixed rfl steps

/-- A loop that ends was never out of bounds. -/
theorem ne_failed {order : List Nat} {m : Moving} {f : Frame} {steps : Nat}
    (h : (step order)^[steps] m = done f) (earlier : Nat) : (step order)^[earlier] m ≠ failed := by
  intro hfailed
  have hend : (step order)^[steps + earlier] m = failed := by
    rw [Function.iterate_add_apply, hfailed, run_failed]
  rw [Nat.add_comm, Function.iterate_add_apply, h, run_done] at hend
  cases hend

end Moving

/-! ## Exchanges in all columns -/

section Exchanges

variable {f : Frame} {n : Nat}

theorem Frame.swaps_eq (f : Frame) (pairs : List (Nat × Nat)) :
    f.swaps pairs =
      { f with set := f.set.map fun c => { c with data := pairs.foldl (fun s (a, b) => s.swap a b) c.data } } := by
  induction pairs generalizing f with
  | nil => simp [swaps, ColumnSet.map]
  | cons pair pairs ih =>
    change (f.swap pair.1 pair.2).swaps pairs = _
    rw [ih]
    simp [swap, ColumnSet.map]

/-- The rows of a frame are moved by the exchanges of the order. -/
theorem Frame.permute_eq_swaps (f : Frame) (order : List Nat) : f.permute order = f.swaps (exchanges order) :=
  (f.swaps_eq _).symm

theorem Frame.length_swap (h : ∀ c ∈ f.columns, c.length = n) (a b : Nat) :
    ∀ c ∈ (f.swap a b).columns, c.length = n := by
  intro d hd
  obtain ⟨c, hc, rfl⟩ := List.mem_map.1 hd
  exact (c.data.length_swap a b).trans (h c hc)

theorem Frame.length_swaps (h : ∀ c ∈ f.columns, c.length = n) (pairs : List (Nat × Nat)) :
    ∀ c ∈ (f.swaps pairs).columns, c.length = n := by
  induction pairs generalizing f with
  | nil => exact h
  | cons pair pairs ih => exact ih (Frame.length_swap h pair.1 pair.2)

theorem Frame.swaps_append (f : Frame) (pairs more : List (Nat × Nat)) :
    f.swaps (pairs ++ more) = (f.swaps pairs).swaps more :=
  List.foldl_append

end Exchanges

/-! ## Flags -/

section Loop

variable {order rows : List Nat} {f : Frame} {start position : Nat}

/-- The flags of the positions that are placed. -/
def flags (order placed : List Nat) : List Bool := (List.range order.length).map placed.contains

theorem length_flags (order placed : List Nat) : (flags order placed).length = order.length := by
  simp [flags]

theorem flags_getElem? (hposition : position < order.length) :
    (flags order rows)[position]? = some (rows.contains position) := by
  simp [flags, hposition]

theorem flags_nil (order : List Nat) : flags order [] = List.replicate order.length false := by
  refine List.eq_replicate_iff.2 ⟨length_flags order [], fun flag hflag => ?_⟩
  obtain ⟨row, -, rfl⟩ := List.mem_map.1 hflag
  rfl

/-- Only which positions are placed matters, not in which order they were. -/
theorem flags_congr {more : List Nat} (h : ∀ row, row ∈ rows ↔ row ∈ more) : flags order rows = flags order more := by
  refine List.map_congr_left fun row _ => ?_
  simp [h row]

theorem set_flags (order rows : List Nat) (position : Nat) :
    (flags order rows).set position true = flags order (position :: rows) := by
  refine List.ext_getElem? fun row => ?_
  rw [List.getElem?_set, length_flags]
  by_cases hrow : row < order.length
  · by_cases hsame : position = row
    · subst hsame
      simp [flags_getElem? hrow, hrow]
    · simp [flags_getElem? hrow, hsame, Ne.symm hsame]
  · have hnone (placed : List Nat) : (flags order placed)[row]? = none :=
      List.getElem?_eq_none (by rw [length_flags]; omega)
    rw [hnone, hnone]
    split <;> simp_all

/-! ## One step -/

theorem step_seek_placed (hstart : start < order.length) (hplaced : rows.contains start = true) (f : Frame) :
    Moving.step order (.seek start (flags order rows) f) = .seek (start + 1) (flags order rows) f := by
  simp only [Moving.step, hstart, if_true, flags_getElem? hstart, hplaced]

theorem step_seek_new (hstart : start < order.length) (hnew : rows.contains start = false) (f : Frame) :
    Moving.step order (.seek start (flags order rows) f) = .follow start start (flags order rows) f := by
  simp only [Moving.step, hstart, if_true, flags_getElem? hstart, hnew]

/-- Where the order leads back to the start, the next cycle is looked for. -/
theorem step_follow_back (h : order[position]? = some start) (f : Frame) :
    Moving.step order (.follow start position (flags order rows) f) =
      .seek (start + 1) (flags order (position :: rows)) f := by
  have hlt := (List.getElem?_eq_some_iff.1 h).1
  simp only [Moving.step, h, length_flags, hlt, if_true, set_flags]

/-- Where the order leads on, two rows that are there are exchanged. -/
theorem step_follow_on {next : Nat} (h : order[position]? = some next) (hne : next ≠ start)
    (hnext : next < order.length) (hlengths : ∀ c ∈ f.columns, c.length = order.length) :
    Moving.step order (.follow start position (flags order rows) f) =
      .follow start next (flags order (position :: rows)) (f.swap position next) := by
  have hlt := (List.getElem?_eq_some_iff.1 h).1
  have hinside : (f.columns.all fun c => position < c.length ∧ next < c.length) = true := by
    refine List.all_eq_true.2 fun c hc => decide_eq_true ?_
    rw [hlengths c hc]
    exact ⟨hlt, hnext⟩
  simp only [Moving.step, h, length_flags, hlt, if_true, hne, if_false, hinside, set_flags]

/-! ## Cycles that are followed -/

/-- A path from a position along the order that leads back to a start, where it ends. -/
inductive Returns (order : List Nat) (start : Nat) : Nat → List Nat → Prop
  | back {position : Nat} (h : order[position]? = some start) : Returns order start position [position]
  | on {position next : Nat} {path : List Nat} (h : order[position]? = some next) (hne : next ≠ start)
      (hpath : Returns order start next path) : Returns order start position (position :: path)

theorem Returns.lt {path : List Nat} (h : Returns order start position path) : position < order.length := by
  cases h with
  | back h => exact (List.getElem?_eq_some_iff.1 h).1
  | on h _ _ => exact (List.getElem?_eq_some_iff.1 h).1

theorem Returns.eq_cons {path : List Nat} (h : Returns order start position path) :
    ∃ more, path = position :: more := by
  cases h with
  | back h => exact ⟨_, rfl⟩
  | on _ _ _ => exact ⟨_, rfl⟩

/-- A path that is followed as long as there are rows leads back to its start. -/
theorem returns_cycleFrom (hp : order.Perm (List.range order.length)) {bound : Nat} {path : List Nat}
    (h : IsPath order start (path ++ [position])) (hbound : order.length ≤ path.length + bound) :
    Returns order start position (cycleFrom order start bound position) := by
  induction bound generalizing path position with
  | zero =>
    have hlength := h.length_le
    simp only [List.length_append, List.length_singleton] at hlength
    omega
  | succ bound ih =>
    have hnext := List.getElem?_eq_getElem (h.within position (by simp))
    unfold cycleFrom
    rw [hnext]
    dsimp only
    split
    · rename_i hback
      exact .back (hnext.trans (congrArg some hback))
    · rename_i hne
      exact .on hnext hne (ih (h.extend hp hnext hne) (by simp; omega))

theorem returns_cycleAt (hp : order.Perm (List.range order.length)) (hstart : start < order.length) :
    Returns order start start (cycleAt order start) := by
  have hpath : IsPath order start ([] ++ [start]) := .singleton hstart
  exact returns_cycleFrom hp hpath (by simp)

/-- Following a path that leads back places its positions and makes the exchanges of its neighbours. -/
theorem Returns.run {path : List Nat} (h : Returns order start position path)
    (hlengths : ∀ c ∈ f.columns, c.length = order.length) :
    (Moving.step order)^[path.length] (.follow start position (flags order rows) f) =
      .seek (start + 1) (flags order (path ++ rows)) (f.swaps (neighbours path)) := by
  induction h generalizing rows f with
  | back h => exact step_follow_back h f
  | @on position next path h hne hpath ih =>
    obtain ⟨more, rfl⟩ := hpath.eq_cons
    rw [List.length_cons, Function.iterate_succ_apply, step_follow_on h hne hpath.lt hlengths,
      ih (Frame.length_swap hlengths position next)]
    have hflags : flags order (next :: more ++ position :: rows) = flags order (position :: next :: more ++ rows) := by
      refine flags_congr fun row => ?_
      simp only [List.cons_append, List.mem_cons, List.mem_append]
      tauto
    rw [hflags]
    rfl

/-- From a start on, the loop follows the cycles that are not placed yet and ends. It takes a step for each position of
    them, a step for each start, and the last one. -/
theorem run_seek (hp : order.Perm (List.range order.length)) {count : Nat} (hcount : start + count = order.length)
    (hlengths : ∀ c ∈ f.columns, c.length = order.length) :
    (Moving.step order)^[(cyclesFrom order (List.range' start count) rows).flatten.length + count + 1]
        (.seek start (flags order rows) f) =
      .done (f.swaps ((cyclesFrom order (List.range' start count) rows).flatMap neighbours)) := by
  induction count generalizing start rows f with
  | zero =>
    have hend : ¬ start < order.length := by omega
    simp [cyclesFrom, Moving.step, hend, Frame.swaps]
  | succ count ih =>
    have hstart : start < order.length := by omega
    have hnext : start + 1 + count = order.length := by omega
    rw [List.range'_succ]
    unfold cyclesFrom
    split
    · rename_i hplaced
      rw [Function.iterate_succ_apply, step_seek_placed hstart hplaced]
      exact ih hnext hlengths
    · rename_i hnew
      dsimp only
      generalize hcycle : cycleAt order start = cycle
      have hreturns : Returns order start start cycle := hcycle ▸ returns_cycleAt hp hstart
      generalize hrest : cyclesFrom order (List.range' (start + 1) count) (cycle ++ rows) = rest
      have hsteps : (cycle :: rest).flatten.length + (count + 1) + 1 =
          (rest.flatten.length + count + 1) + cycle.length + 1 := by
        simp only [List.flatten_cons, List.length_append]
        omega
      have hfollowed := @ih (cycle ++ rows) _ _ hnext (Frame.length_swaps hlengths (neighbours cycle))
      rw [hrest] at hfollowed
      rw [hsteps, Function.iterate_succ_apply, step_seek_new hstart (Bool.not_eq_true _ ▸ hnew),
        Function.iterate_add_apply, hreturns.run hlengths, hfollowed, List.flatMap_cons, Frame.swaps_append]

/-- The cycles of an order pass each of its positions once. -/
theorem length_flatten_cycles (hp : order.Perm (List.range order.length)) :
    (cycles order).flatten.length = order.length := by
  obtain ⟨hcycles, hnodup, hall⟩ := cycles_spec hp
  have hperm : (cycles order).flatten.Perm (List.range order.length) := by
    refine (List.perm_ext_iff_of_nodup hnodup List.nodup_range).2 fun row => ⟨fun hrow => ?_, fun hrow => ?_⟩
    · obtain ⟨cycle, hcycle, hmem⟩ := List.mem_flatten.1 hrow
      exact List.mem_range.2 ((hcycles cycle hcycle).lt hmem)
    · exact hall row (List.mem_range.1 hrow)
  simpa using hperm.length_eq

end Loop

/-! ## Rows in an order -/

/-- The cells of a series that is moved in place are its cells in the order. -/
theorem cell?_permute {s : Series} {order : List Nat} (hp : order.Perm (List.range s.length)) {i row : Nat}
    (h : order[i]? = some row) : (permute order s).cell? i = s.cell? row := by
  have hrel := Series.rel_getElem? (Series.values_take (take_eq_permute hp)) i
  rw [h] at hrel
  rw [Series.cell?_eq, Series.cell?_eq]
  generalize (permute order s).values[i]? = cell at hrel ⊢
  cases hrel with
  | some hcell => exact hcell.symm

/-- The loop that moves the rows of a frame ends when it has passed each position twice, once to look for a cycle and
    once along one. It reads and exchanges only rows that are there, and it leaves the rows in the order. -/
theorem Frame.permute_in_place {f : Frame} {n : Nat} (hlengths : ∀ c ∈ f.columns, c.length = n) {order : List Nat}
    (hp : order.Perm (List.range n)) :
    (Moving.step order)^[2 * n + 1] (.begin order f) = .done (f.permute order) ∧
      (∀ steps, (Moving.step order)^[steps] (.begin order f) ≠ .failed) ∧
      (∀ pair ∈ exchanges order, pair.1 < n ∧ pair.2 < n) ∧
      f.take order = .ok (f.permute order) ∧
      List.Forall₂ (fun c d => c.data.take order = .ok d.data ∧
        ∀ i row, order[i]? = some row → d.data.cell? i = c.data.cell? row) f.columns (f.permute order).columns := by
  obtain rfl : order.length = n := by simpa using hp.length_eq
  have hrun : (Moving.step order)^[2 * order.length + 1] (.begin order f) = .done (f.permute order) := by
    have hfrom := @run_seek order [] f 0 hp _ (Nat.zero_add _) hlengths
    rw [← List.range_eq_range', flags_nil] at hfrom
    change (Moving.step order)^[(cycles order).flatten.length + order.length + 1] (.begin order f) =
      .done (f.swaps (exchanges order)) at hfrom
    rw [Nat.two_mul, f.permute_eq_swaps, ← hfrom, length_flatten_cycles hp]
  refine ⟨hrun, Moving.ne_failed hrun, fun pair => lt_of_mem_exchanges hp, take_eq_permute_of_lengths hlengths hp, ?_⟩
  refine List.forall₂_map_right_iff.2 (List.forall₂_same.2 fun c hc => ?_)
  have hcolumn : order.Perm (List.range c.data.length) := by
    rw [show c.data.length = order.length from hlengths c hc]
    exact hp
  exact ⟨take_eq_permute hcolumn, fun i row => cell?_permute hcolumn⟩

/-- Four rows that are moved around one cycle, in columns of two types. -/
theorem Frame.permute_in_place_cycle :
    let f : Frame := ⟨.ofList [("x", ⟨"x", .string, .strings ["a", "b", "c", "d"], none, none⟩),
      ("y", ⟨"y", .integer, .integers [0, 1, 2, 3], none, none⟩)], .default⟩
    (Moving.step [2, 0, 3, 1])^[9] (.begin [2, 0, 3, 1] f) = .done (f.permute [2, 0, 3, 1]) ∧
      (f.permute [2, 0, 3, 1]).columns.map (·.data) = [.strings ["c", "a", "d", "b"], .integers [2, 0, 3, 1]] := by
  intro f
  have hlengths : ∀ c ∈ f.columns, c.length = 4 := by decide
  exact ⟨(permute_in_place hlengths (by decide)).1, by decide⟩

end Tabular.Memory
