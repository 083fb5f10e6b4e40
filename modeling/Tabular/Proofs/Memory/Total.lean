-- SUMMARY: Totals of integers: when a sum overflows, and whether this depends on the order of the rows.
import Mathlib.Algebra.Order.BigOperators.Group.List
import Mathlib.Algebra.Ring.Int.Defs
import Tabular.Proofs.Memory.Exact
import Tabular.Proofs.Memory.Sorting

/-!
# Totals of integers

A sum adds up cells from the first one on. It is the exact total of all cells if every running total on the way there
fits 64 bits, and it overflows as soon as one does not, even where the cells that follow would bring the total back. So
the order of the rows cannot change a sum, but it can decide whether there is one. It does not if the total of all
cells does not fit, as then no order has a sum, or if both the total of the positive cells and that of the negative
ones fit, as then every order has it. In all other cases there are orders of both kinds.
-/

namespace Tabular.Memory

/-! ## Running totals -/

/-- Every running total of the numbers fits 64 bits, that of all of them included. -/
def RunningFits (ns : List Int) : Prop := ∀ first, first <+: ns → Decimal.fitsInt64 first.sum = true

/-- The total of the positive numbers. -/
def gains (ns : List Int) : Int := (ns.filter (0 < ·)).sum

/-- The total of the negative numbers. -/
def losses (ns : List Int) : Int := (ns.filter (· < 0)).sum

theorem fitsInt64_iff {n : Int} :
    Decimal.fitsInt64 n = true ↔ -0x8000000000000000 ≤ n ∧ n < 0x8000000000000000 := by
  simp [Decimal.fitsInt64]

theorem RunningFits.fits {ns : List Int} (h : RunningFits ns) : Decimal.fitsInt64 ns.sum = true :=
  h ns (List.prefix_refl ns)

theorem RunningFits.of_append {ns more : List Int} (h : RunningFits (ns ++ more)) : RunningFits ns :=
  fun first hfirst => h first (hfirst.trans (List.prefix_append ns more))

/-- One more number leads to one more running total. -/
theorem runningFits_concat {ns : List Int} {n : Int} :
    RunningFits (ns ++ [n]) ↔ RunningFits ns ∧ Decimal.fitsInt64 (ns.sum + n) = true := by
  have hsum : (ns ++ [n]).sum = ns.sum + n := by rw [List.sum_append, List.sum_singleton]
  constructor
  · exact fun h => ⟨h.of_append, hsum ▸ h.fits⟩
  · rintro ⟨hbefore, hlast⟩ first hfirst
    rcases List.prefix_concat_iff.1 hfirst with rfl | hfirst
    · rw [hsum]
      exact hlast
    · exact hbefore first hfirst

/-! ## Orders with a sum -/

theorem sum_le_gains (ns : List Int) : ns.sum ≤ gains ns := by
  induction ns with
  | nil => exact le_refl _
  | cons n more ih =>
    unfold gains at ih ⊢
    by_cases hn : 0 < n
    · rw [List.filter_cons_of_pos (by simpa using hn), List.sum_cons, List.sum_cons]
      omega
    · rw [List.filter_cons_of_neg (by simpa using hn), List.sum_cons]
      omega

theorem losses_le_sum (ns : List Int) : losses ns ≤ ns.sum := by
  induction ns with
  | nil => exact le_refl _
  | cons n more ih =>
    unfold losses at ih ⊢
    by_cases hn : n < 0
    · rw [List.filter_cons_of_pos (by simpa using hn), List.sum_cons, List.sum_cons]
      omega
    · rw [List.filter_cons_of_neg (by simpa using hn), List.sum_cons]
      omega

theorem gains_nonneg (ns : List Int) : 0 ≤ gains ns :=
  List.sum_nonneg fun n hn => Int.le_of_lt (by simpa using (List.mem_filter.1 hn).2)

theorem losses_nonpos (ns : List Int) : losses ns ≤ 0 := by
  have hsum := List.sum_le_card_nsmul (ns.filter (· < 0)) 0 fun n hn =>
    Int.le_of_lt (by simpa using (List.mem_filter.1 hn).2)
  simpa [losses] using hsum

/-- If the positive numbers fit together, and so do the negative ones, every running total lies between the two. -/
theorem runningFits_of_signs {ns : List Int} (hgains : Decimal.fitsInt64 (gains ns) = true)
    (hlosses : Decimal.fitsInt64 (losses ns) = true) : RunningFits ns := by
  rintro first ⟨more, rfl⟩
  have hgain : gains (first ++ more) = gains first + gains more := by
    rw [gains, List.filter_append, List.sum_append]
    rfl
  have hloss : losses (first ++ more) = losses first + losses more := by
    rw [losses, List.filter_append, List.sum_append]
    rfl
  have habove := sum_le_gains first
  have hbelow := losses_le_sum first
  have hmore := gains_nonneg more
  have hless := losses_nonpos more
  rw [fitsInt64_iff] at *
  omega

/-- The next number to go on with: towards zero if there is one that leads there, and otherwise any. -/
theorem exists_next {start : Int} {ns : List Int} (hns : ns ≠ []) (hfit : ∀ n ∈ ns, Decimal.fitsInt64 n = true)
    (hstart : Decimal.fitsInt64 start = true) (htotal : Decimal.fitsInt64 (start + ns.sum) = true) :
    ∃ n ∈ ns, Decimal.fitsInt64 (start + n) = true := by
  obtain ⟨n, more, rfl⟩ := List.exists_cons_of_ne_nil hns
  have hsum : (n :: more).sum = n + more.sum := List.sum_cons
  rw [hsum, fitsInt64_iff] at htotal
  rw [fitsInt64_iff] at hstart
  by_cases htowards : ∃ m ∈ n :: more, if start < 0 then 0 ≤ m else m ≤ 0
  · obtain ⟨m, hm, hsign⟩ := htowards
    have hmfit := fitsInt64_iff.1 (hfit m hm)
    refine ⟨m, hm, fitsInt64_iff.2 ?_⟩
    split at hsign <;> omega
  -- All numbers lead away from zero, so the total is further away than the next running total.
  · push Not at htowards
    refine ⟨n, List.mem_cons_self, fitsInt64_iff.2 ?_⟩
    have hn := htowards n List.mem_cons_self
    by_cases hneg : start < 0
    · have hmore : more.sum ≤ 0 := by
        refine le_trans (sum_le_gains more) (le_of_eq ?_)
        rw [gains, List.filter_eq_nil_iff.2, List.sum_nil]
        intro m hm
        have hm := htowards m (List.mem_cons_of_mem _ hm)
        rw [if_pos hneg] at hm
        simpa using Int.le_of_lt (Int.not_le.1 hm)
      rw [if_pos hneg] at hn
      omega
    · have hmore : 0 ≤ more.sum := List.sum_nonneg fun m hm => by
        have hm := htowards m (List.mem_cons_of_mem _ hm)
        rw [if_neg hneg] at hm
        exact Int.le_of_lt (Int.not_le.1 hm)
      rw [if_neg hneg] at hn
      omega

/-- Numbers whose total fits can be put in an order in which all running totals fit. -/
theorem exists_order_from {ns : List Int} (hfit : ∀ n ∈ ns, Decimal.fitsInt64 n = true) {start : Int}
    (hstart : Decimal.fitsInt64 start = true) (htotal : Decimal.fitsInt64 (start + ns.sum) = true) :
    ∃ order, order.Perm ns ∧ ∀ first, first <+: order → Decimal.fitsInt64 (start + first.sum) = true := by
  generalize hlength : ns.length = length
  induction length generalizing ns start with
  | zero =>
    obtain rfl := List.length_eq_zero_iff.1 hlength
    refine ⟨[], .nil, fun first hfirst => ?_⟩
    rw [List.prefix_nil.1 hfirst, List.sum_nil, Int.add_zero]
    exact hstart
  | succ length ih =>
    obtain ⟨n, hn, hnext⟩ := exists_next (List.ne_nil_of_length_eq_add_one hlength) hfit hstart htotal
    obtain ⟨before, after, rfl⟩ := List.append_of_mem hn
    have hperm : (n :: (before ++ after)).Perm (before ++ n :: after) := List.perm_middle.symm
    have hsum : (before ++ n :: after).sum = n + (before ++ after).sum := by rw [← hperm.sum_eq, List.sum_cons]
    have hrest : ∀ m ∈ before ++ after, Decimal.fitsInt64 m = true :=
      fun m hm => hfit m (hperm.subset (List.mem_cons_of_mem _ hm))
    rw [hsum, ← Int.add_assoc] at htotal
    obtain ⟨order, horder, hrunning⟩ := ih hrest hnext htotal (Nat.succ.inj (hperm.length_eq.trans hlength))
    refine ⟨n :: order, (horder.cons n).trans hperm, fun first hfirst => ?_⟩
    rcases List.prefix_cons_iff.1 hfirst with rfl | ⟨rest, rfl, hrest⟩
    · rw [List.sum_nil, Int.add_zero]
      exact hstart
    · rw [List.sum_cons, ← Int.add_assoc]
      exact hrunning rest hrest

theorem exists_order {ns : List Int} (hfit : ∀ n ∈ ns, Decimal.fitsInt64 n = true)
    (htotal : Decimal.fitsInt64 ns.sum = true) : ∃ order, order.Perm ns ∧ RunningFits order := by
  have hzero : Decimal.fitsInt64 0 = true := rfl
  obtain ⟨order, hperm, hrunning⟩ := exists_order_from hfit hzero (by rw [Int.zero_add]; exact htotal)
  exact ⟨order, hperm, fun first hfirst => Int.zero_add first.sum ▸ hrunning first hfirst⟩

/-- The order of the numbers does not matter exactly if their total does not fit or the totals of both signs do. -/
theorem runningFits_perm_iff {ns : List Int} (hfit : ∀ n ∈ ns, Decimal.fitsInt64 n = true) :
    (∀ order : List Int, order.Perm ns → (RunningFits order ↔ RunningFits ns)) ↔
      Decimal.fitsInt64 ns.sum = false ∨
        Decimal.fitsInt64 (gains ns) = true ∧ Decimal.fitsInt64 (losses ns) = true := by
  constructor
  · intro hsame
    refine or_iff_not_imp_left.2 fun htotal => ?_
    obtain ⟨order, hperm, hrunning⟩ := exists_order hfit (by simpa using htotal)
    have hall : ∀ order : List Int, order.Perm ns → RunningFits order := fun other hother =>
      (hsame other hother).2 ((hsame order hperm).1 hrunning)
    -- The numbers of one sign may come first.
    have hfirst : ∀ p : Int → Bool, Decimal.fitsInt64 (ns.filter p).sum = true := fun p =>
      (hall _ (List.filter_append_perm p ns)).of_append.fits
    exact ⟨hfirst _, hfirst _⟩
  · rintro (htotal | ⟨hgains, hlosses⟩) order hperm
    · have hnone : ∀ other : List Int, other.Perm ns → ¬RunningFits other := fun other hother h =>
        Bool.false_ne_true (htotal.symm.trans (hother.sum_eq ▸ h.fits))
      exact iff_of_false (hnone order hperm) (hnone ns (.refl ns))
    · have hgain : gains order = gains ns := (hperm.filter _).sum_eq
      have hloss : losses order = losses ns := (hperm.filter _).sum_eq
      exact iff_of_true (runningFits_of_signs (hgain ▸ hgains) (hloss ▸ hlosses)) (runningFits_of_signs hgains hlosses)

/-! ## Sums of cells -/

theorem Aggregate.integerSum?_concat (cells : List Int64) (n : Int64) :
    Aggregate.integerSum? (cells ++ [n]) =
      (Aggregate.integerSum? cells).bind fun total => Decimal.toInt64? (total.toInt + n.toInt) := by
  unfold Aggregate.integerSum?
  rw [List.foldlM_append]
  refine bind_congr fun total => ?_
  rw [List.foldlM_cons]
  cases Decimal.toInt64? (total.toInt + n.toInt) <;> rfl

/-- Cells have a sum if their running totals fit, and the sum is exact. -/
theorem Aggregate.integerSum?_eq_some_iff {cells : List Int64} {total : Int64} :
    Aggregate.integerSum? cells = some total ↔
      RunningFits (cells.map Int64.toInt) ∧ total.toInt = (cells.map Int64.toInt).sum := by
  induction cells using List.reverseRecOn generalizing total with
  | nil =>
    refine ⟨fun h => ?_, fun ⟨_, h⟩ => congrArg some (Int64.toInt_inj.1 h).symm⟩
    obtain rfl := Option.some.inj h
    refine ⟨fun first hfirst => ?_, rfl⟩
    rw [List.prefix_nil.1 hfirst]
    rfl
  | append_singleton cells n ih =>
    rw [Aggregate.integerSum?_concat, Option.bind_eq_some_iff, List.map_append, List.map_singleton, runningFits_concat,
      List.sum_append, List.sum_singleton]
    constructor
    · rintro ⟨before, hbefore, htotal⟩
      obtain ⟨hrunning, hsum⟩ := ih.1 hbefore
      rw [hsum] at htotal
      have htotal := Decimal.toInt64?_eq_some_iff.1 htotal
      exact ⟨⟨hrunning, htotal ▸ Decimal.fitsInt64_toInt total⟩, htotal⟩
    · rintro ⟨⟨hrunning, -⟩, htotal⟩
      have hsum : (Int64.ofInt (cells.map Int64.toInt).sum).toInt = (cells.map Int64.toInt).sum :=
        Decimal.toInt64?_eq_some_iff.1 (if_pos hrunning.fits)
      exact ⟨_, ih.2 ⟨hrunning, hsum⟩, Decimal.toInt64?_eq_some_iff.2 (by rw [hsum, htotal])⟩

theorem Aggregate.integerSum?_eq_none_iff {cells : List Int64} :
    Aggregate.integerSum? cells = none ↔ ¬RunningFits (cells.map Int64.toInt) := by
  constructor
  · intro hnone hrunning
    obtain ⟨total, htotal⟩ : ∃ total, Decimal.toInt64? (cells.map Int64.toInt).sum = some total :=
      ⟨_, if_pos hrunning.fits⟩
    have hsome := Aggregate.integerSum?_eq_some_iff.2 ⟨hrunning, Decimal.toInt64?_eq_some_iff.1 htotal⟩
    cases hnone.symm.trans hsome
  · intro hrunning
    cases htotal : Aggregate.integerSum? cells with
    | none => rfl
    | some total => exact absurd (Aggregate.integerSum?_eq_some_iff.1 htotal).1 hrunning

namespace Frame

variable {f g : Frame}

/-! ## Sums of columns -/

/-- The exact cells of a column of integers or categories. -/
def exactCells (f : Frame) (token : String) : List Int := (List.range f.rows).map (f.exactToken token)

/-- The sum of a column, as a formula. -/
def sum (f : Frame) (token : String) : Except Failure (Outcome Frame Column) :=
  backend.eval (.call "sum" [.leaf token]) .rows f f

/-- The column of a sum. -/
def sumColumn (token : String) (total : Int64) : Column :=
  (Column.ofSeries "sum" (.integers [total])).rename (Expr.call "sum" [.leaf token]).text

/-- What a sum is of the exact cells of its column: their total if all running totals fit, and an overflow if not. -/
inductive Summed (token : String) (ns : List Int) : Except Failure (Outcome Frame Column) → Prop
  | exact {total : Int64} (hfits : RunningFits ns) (htotal : total.toInt = ns.sum) :
      Summed token ns (.ok (.column (sumColumn token total)))
  | overflow (hfits : ¬RunningFits ns) : Summed token ns (.error (.execution "sum" .overflow))

theorem summed (hf : f.Valid) {token : String} {c : Column} (hc : f.column? token = some c)
    (htype : c.dataType = .integer ∨ c.dataType = .categorical) : Summed token (f.exactCells token) (f.sum token) := by
  obtain ⟨cells, hdata, hcells⟩ := (exact_column hf hc htype).cells
  obtain ⟨op, hop, hname, hscalar⟩ : ∃ op, Resolved.of "sum" [c.dataType] = .ok op ∧ op.name = "sum" ∧
      op.isScalar = true := by
    rcases htype with htype | htype <;> rw [htype] <;> exact ⟨_, rfl, rfl, rfl⟩
  have hexecute : execute f.options f.rows op [c] = (Aggregate.integerSum? cells).elim
      (.error (.execution "sum" .overflow)) fun total => .ok (Column.ofSeries "sum" (.integers [total])) := by
    simp only [execute, hname, hscalar, if_true, aggregate, hdata, Aggregate.run]
    cases Aggregate.integerSum? cells <;> rfl
  have happly : backend.apply f .rows (.call "sum" [.leaf token]) "sum" ([Expr.leaf token].zip [c]) = _ :=
    apply_resolved rfl hop .rows (.call "sum" [.leaf token])
  have hsum : f.sum token = (do return .column (← (fun c => Column.rename c (Expr.call "sum" [.leaf token]).text) <$>
      execute f.options f.rows op [c])) := by
    rw [← happly, sum, Backend.eval]
    simp only [SpecialForm.named?, Backend.evalColumns, eval_column hc]
    rfl
  rw [hsum, hexecute]
  unfold exactCells
  rw [← hcells]
  cases htotal : Aggregate.integerSum? cells with
  | some total =>
    obtain ⟨hrunning, hsum⟩ := Aggregate.integerSum?_eq_some_iff.1 htotal
    exact .exact hrunning hsum
  | none =>
    exact .overflow (Aggregate.integerSum?_eq_none_iff.1 htotal)

/-! ## Reordered frames -/

/-- Frames with all rows of a frame in some order: taken in that order, or sorted in place. -/
inductive Reordered (f : Frame) : Frame → Prop
  | taken {order : List Nat} {g : Frame} (hperm : order.Perm (List.range f.rows)) (h : f.take order = .ok g) :
      Reordered f g
  | sorted (ascending : Bool) (keys : List String) : Reordered f (f.handle (.sortInPlace ascending keys)).1

/-- Taking rows takes the exact cells of the rows. -/
theorem exactCells_take (hf : f.Valid) {order : List Nat} (h : f.take order = .ok g) {token : String} {c : Column}
    (hc : f.column? token = some c) : ∃ d, g.column? token = some d ∧ d.dataType = c.dataType ∧
      g.exactCells token = order.map (f.exactToken token) := by
  have hrel := column?_take h token
  rw [hc] at hrel
  cases hd : g.column? token with
  | none => rw [hd] at hrel; cases hrel
  | some d =>
    rw [hd] at hrel
    obtain ⟨data, hdata, rfl⟩ := take_column_ok (by cases hrel with | some h => exact h)
    refine ⟨_, rfl, rfl, ?_⟩
    have hrows : g.rows = order.length := by
      rw [rows_take h, if_neg]
      simpa using List.ne_nil_of_mem (hf.mem_of_column? hc).1
    unfold exactCells
    rw [hrows]
    refine List.ext_getElem (by simp) fun i hi _ => ?_
    have hi : i < order.length := by simpa using hi
    have hcells := Series.values_take hdata
    have hcell : data.cell? i = c.data.cell? order[i] := by
      rw [Series.cell?_eq, Series.cell?_eq, List.getElem?_eq_getElem (hcells.length_eq ▸ hi)]
      exact (hcells.get hi (hcells.length_eq ▸ hi)).symm
    simp only [List.getElem_map, List.getElem_range, exactToken, hc, hd, hcell]

/-- A sorted frame has its rows taken in some order, or it is the frame itself if a key is unknown. -/
theorem Reordered.eq_or_taken (hf : f.Reached) (h : f.Reordered g) :
    g = f ∨ ∃ order : List Nat, order.Perm (List.range f.rows) ∧ f.take order = .ok g := by
  cases h with
  | taken hperm h => exact .inr ⟨_, hperm, h⟩
  | sorted ascending keys =>
    obtain ⟨hknown, hunknown⟩ := sort_stable hf ascending keys
    by_cases hkeys : ∀ key ∈ keys, f.column? key ≠ none
    · obtain ⟨order, g, hperm, -, htake, -, hsorted⟩ := hknown hkeys
      exact .inr ⟨order, hperm, hsorted ▸ htake⟩
    · push Not at hkeys
      exact .inl (congrArg Prod.fst (hunknown hkeys).1)

/-- A reordered frame has the column with its exact cells in some order. -/
theorem Reordered.exactCells_perm (hf : f.Reached) (h : f.Reordered g) {token : String} {c : Column}
    (hc : f.column? token = some c) : g.Valid ∧ ∃ d, g.column? token = some d ∧ d.dataType = c.dataType ∧
      (g.exactCells token).Perm (f.exactCells token) := by
  rcases h.eq_or_taken hf with rfl | ⟨order, hperm, htake⟩
  · exact ⟨hf.valid, c, hc, rfl, .refl _⟩
  · obtain ⟨d, hd, htype, hcells⟩ := exactCells_take hf.valid htake hc
    exact ⟨hf.valid.take htake, d, hd, htype, hcells ▸ hperm.map _⟩

/-- Every order of the cells of a column is that of some reordered frame. -/
theorem exists_reordered (hf : f.Valid) {token : String} {c : Column} (hc : f.column? token = some c) {ns : List Int}
    (hns : ns.Perm (f.exactCells token)) : ∃ g, f.Reordered g ∧ g.exactCells token = ns := by
  obtain ⟨order, hcells, hperm⟩ : ∃ order, List.Forall₂ (fun n row => n = f.exactToken token row) ns order ∧
      order.Perm (List.range f.rows) :=
    List.perm_comp_forall₂ hns (List.forall₂_map_left_iff.2 (List.forall₂_same.2 fun row _ => rfl))
  have htake := hf.take_eq_permute hperm
  obtain ⟨-, -, -, hexact⟩ := exactCells_take hf htake hc
  refine ⟨_, .taken hperm htake, hexact.trans ?_⟩
  rw [← List.forall₂_eq_eq_eq, List.forall₂_map_left_iff]
  exact hcells.flip.imp fun row n h => h.symm

theorem fits_of_mem_exactCells (hf : f.Valid) {token : String} {c : Column} (hc : f.column? token = some c)
    (htype : c.dataType = .integer ∨ c.dataType = .categorical) {n : Int} (hn : n ∈ f.exactCells token) :
    Decimal.fitsInt64 n = true := by
  obtain ⟨row, hrow, rfl⟩ := List.mem_map.1 hn
  exact (exact_column hf hc htype).fits row (List.mem_range.1 hrow)

section

variable {token : String} {ns order : List Int} (hperm : order.Perm ns)
include hperm

/-- Two orders of the same cells have the same sum, if both have one. -/
theorem Summed.unique {o o' : Outcome Frame Column} (h : Summed token ns (.ok o))
    (hother : Summed token order (.ok o')) : o' = o := by
  cases h with
  | exact _ htotal =>
    cases hother with
    | exact _ htotal' => rw [Int64.toInt_inj.1 (htotal'.trans (hperm.sum_eq.trans htotal.symm))]

theorem Summed.eq_iff {result other : Except Failure (Outcome Frame Column)} (h : Summed token ns result)
    (hother : Summed token order other) : other = result ↔ (RunningFits order ↔ RunningFits ns) := by
  cases h with
  | exact hfits htotal =>
    cases hother with
    | exact hfits' htotal' =>
      exact iff_of_true (congrArg Except.ok ((Summed.exact hfits htotal).unique hperm (.exact hfits' htotal')))
        (iff_of_true hfits' hfits)
    | overflow hfits' => exact iff_of_false (fun h => by cases h) fun h => hfits' (h.2 hfits)
  | overflow hfits =>
    cases hother with
    | exact hfits' htotal' => exact iff_of_false (fun h => by cases h) fun h => hfits (h.1 hfits')
    | overflow hfits' => exact iff_of_true rfl (iff_of_false hfits' hfits)

end

/-- A sum is the exact total of its column if the running totals from the first row on fit, and an overflow if one does
    not. In whatever order the rows are, sums that are computed are the same. No order changes what becomes of the sum
    exactly if the total of all cells does not fit, or those of the positive and of the negative cells do. -/
theorem sum_reordered (hf : f.Reached) {token : String} {c : Column} (hc : f.column? token = some c)
    (htype : c.dataType = .integer ∨ c.dataType = .categorical) :
    Summed token (f.exactCells token) (f.sum token) ∧
    (∀ g, f.Reordered g → (g.exactCells token).Perm (f.exactCells token) ∧
      Summed token (g.exactCells token) (g.sum token) ∧
      ∀ o o', f.sum token = .ok o → g.sum token = .ok o' → o' = o) ∧
    ((∀ g, f.Reordered g → g.sum token = f.sum token) ↔ Decimal.fitsInt64 (f.exactCells token).sum = false ∨
      Decimal.fitsInt64 (gains (f.exactCells token)) = true ∧
        Decimal.fitsInt64 (losses (f.exactCells token)) = true) := by
  have hsum := summed hf.valid hc htype
  have hreordered : ∀ g, f.Reordered g → (g.exactCells token).Perm (f.exactCells token) ∧
      Summed token (g.exactCells token) (g.sum token) := fun g hg => by
    obtain ⟨hvalid, d, hd, hdtype, hperm⟩ := hg.exactCells_perm hf hc
    exact ⟨hperm, summed hvalid hd (hdtype ▸ htype)⟩
  refine ⟨hsum, fun g hg => ?_, ?_⟩
  · obtain ⟨hperm, hother⟩ := hreordered g hg
    refine ⟨hperm, hother, fun o o' ho ho' => ?_⟩
    rw [ho] at hsum
    rw [ho'] at hother
    exact hsum.unique hperm hother
  · rw [← runningFits_perm_iff fun n hn => fits_of_mem_exactCells hf.valid hc htype hn]
    constructor
    · intro hsame order horder
      obtain ⟨g, hg, rfl⟩ := exists_reordered hf.valid hc horder
      obtain ⟨hperm, hother⟩ := hreordered g hg
      exact (hsum.eq_iff hperm hother).1 (hsame g hg)
    · intro hsame g hg
      obtain ⟨hperm, hother⟩ := hreordered g hg
      exact (hsum.eq_iff hperm hother).2 (hsame _ hperm)

/-- The positive cells fit together, and so do the negative ones, so a sort cannot make this sum overflow. -/
theorem sum_reordered_sorted :
    let f := (empty .default).run [(.append (.ofSeries "x" (.integers [3, 9223372036854775804, -8])), false)]
    f.sum "x" = .ok (.column (sumColumn "x" 9223372036854775799)) ∧
      ∀ ascending, (f.handle (.sortInPlace ascending ["x"])).1.sum "x" = f.sum "x" := by
  intro f
  have hf : f.Reached := (Reached.empty .default).run fun c returned hc => by
    obtain ⟨rfl, -⟩ : c = .ofSeries "x" (.integers [3, 9223372036854775804, -8]) ∧ returned = false := by
      simpa using hc
    exact .ofSeries ..
  have hx : f.column? "x" = some (.ofSeries "x" (.integers [3, 9223372036854775804, -8])) := rfl
  have hsame := (sum_reordered hf hx (.inl rfl)).2.2.2 (.inr ⟨by decide +kernel, by decide +kernel⟩)
  exact ⟨rfl, fun ascending => hsame _ (.sorted ascending ["x"])⟩

/-- The total of the cells fits, but the first two alone do not fit together, so the sum overflows until the rows are
    taken in another order. -/
theorem sum_overflows_in_order :
    let f := (empty .default).run [(.append (.ofSeries "x" (.integers [9223372036854775807, 1, -1])), false)]
    let g := (empty .default).run [(.append (.ofSeries "x" (.integers [9223372036854775807, -1, 1])), false)]
    f.Reached ∧ f.Reordered g ∧ (f.exactCells "x").sum = 9223372036854775807 ∧
      Decimal.fitsInt64 (f.exactCells "x").sum = true ∧ f.sum "x" = .error (.execution "sum" .overflow) ∧
      g.sum "x" = .ok (.column (sumColumn "x" 9223372036854775807)) := by
  intro f g
  have hf : f.Reached := (Reached.empty .default).run fun c returned hc => by
    obtain ⟨rfl, -⟩ : c = .ofSeries "x" (.integers [9223372036854775807, 1, -1]) ∧ returned = false := by
      simpa using hc
    exact .ofSeries ..
  have htake : f.take [0, 2, 1] = .ok g := rfl
  exact ⟨hf, .taken (by decide) htake, by decide +kernel, by decide +kernel, rfl, rfl⟩

end Frame

end Tabular.Memory
