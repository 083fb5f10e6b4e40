-- SUMMARY: The types and lengths of series: what rearranging keeps and what collecting gives.
import Tabular.CategoryMap
import Tabular.Failure
import Tabular.Proofs.Results

/-!
# Types and lengths of series

Taking rows, broadcasting and exchanging cells keep the type of a series. A series that is collected for a type
has the storage of that type and one cell an item, whatever the computation of the cells does. A cell is computed
from its item alone, so rows that are taken of a collected series are those that are collected from their items.
-/

namespace Tabular

/-- A fault of the series layer stays a failure, and success stays success. -/
theorem liftM_series_eq_ok {α : Type} {x : Except SeriesFault α} {a : α} :
    (liftM x : Except Failure α) = .ok a ↔ x = .ok a := by
  cases x with
  | error fault => simp [liftM, monadLift, MonadLift.monadLift, Except.mapError]
  | ok b => simp [liftM, monadLift, MonadLift.monadLift, Except.mapError]

theorem DataType.storage_storage (type : DataType) : type.storage.storage = type.storage := by
  cases type <;> rfl

/-- The type of a value is a type of stored cells. -/
theorem Value.storage_dataType (v : Value) : v.dataType.storage = v.dataType := by
  cases v <;> rfl

theorem Value.same_self (v : Value) : v.same v = true := by
  cases v <;> simp [Value.same, Decimal.compareFloats]

/-- Values are the same key only if they are equal, floats apart. -/
theorem Value.eq_of_same {v w : Value} (hfloat : v.dataType ≠ .float) (h : v.same w = true) : v = w := by
  cases v <;> cases w <;> simp_all [Value.same, Value.dataType]

namespace Series

/-! ## Cells -/

theorem dataType_of_mem_values {s : Series} {v : Value} (h : v ∈ s.values) : v.dataType = s.dataType := by
  cases s with
  | integers cells =>
    obtain ⟨n, -, rfl⟩ := List.mem_map.1 h
    rfl
  | floats cells =>
    obtain ⟨x, -, rfl⟩ := List.mem_map.1 h
    rfl
  | strings cells =>
    obtain ⟨t, -, rfl⟩ := List.mem_map.1 h
    rfl
  | dates cells =>
    obtain ⟨d, -, rfl⟩ := List.mem_map.1 h
    rfl

theorem cell?_eq (s : Series) (row : Nat) : s.cell? row = s.values[row]? := by
  cases s <;> simp [cell?, values]

/-! ## Rearranging -/

theorem length_gather {α : Type} {cells found : List α} {rows : List Nat} (h : gather cells rows = .ok found) :
    found.length = rows.length := length_of_mapM h

theorem take_ok {s t : Series} {rows : List Nat} (h : s.take rows = .ok t) :
    t.dataType = s.dataType ∧ t.length = rows.length := by
  cases s with
  | integers cells =>
    obtain ⟨found, hfound, rfl⟩ := map_eq_ok.1 h
    exact ⟨rfl, length_gather hfound⟩
  | floats cells =>
    obtain ⟨found, hfound, rfl⟩ := map_eq_ok.1 h
    exact ⟨rfl, length_gather hfound⟩
  | strings cells =>
    obtain ⟨found, hfound, rfl⟩ := map_eq_ok.1 h
    exact ⟨rfl, length_gather hfound⟩
  | dates cells =>
    obtain ⟨found, hfound, rfl⟩ := map_eq_ok.1 h
    exact ⟨rfl, length_gather hfound⟩

/-- What is gathered are the cells of the rows. -/
theorem gather_eq_ok {α : Type} {cells found : List α} {rows : List Nat} :
    gather cells rows = .ok found ↔ List.Forall₂ (fun row c => cells[row]? = some c) rows found := by
  unfold gather
  rw [mapM_eq_ok]
  refine iff_of_eq (congrArg (fun R => List.Forall₂ R rows found) ?_)
  funext row c
  rw [List.getElem?_toArray]
  cases cells[row]? with
  | none => simp
  | some d => simp

theorem exists_gather {α : Type} {cells : List α} {rows : List Nat} (h : ∀ row ∈ rows, row < cells.length) :
    ∃ found, gather cells rows = .ok found := by
  refine exists_mapM fun row hrow => ⟨cells.get ⟨row, h row hrow⟩, ?_⟩
  simp [List.getElem?_eq_getElem (h row hrow)]

/-- Rows of a series can be taken if they are there. -/
theorem exists_take {s : Series} {rows : List Nat} (h : ∀ row ∈ rows, row < s.length) : ∃ t, s.take rows = .ok t := by
  cases s with
  | integers cells =>
    obtain ⟨found, hfound⟩ := exists_gather h
    exact ⟨integers found, map_eq_ok.2 ⟨found, hfound, rfl⟩⟩
  | floats cells =>
    obtain ⟨found, hfound⟩ := exists_gather h
    exact ⟨floats found, map_eq_ok.2 ⟨found, hfound, rfl⟩⟩
  | strings cells =>
    obtain ⟨found, hfound⟩ := exists_gather h
    exact ⟨strings found, map_eq_ok.2 ⟨found, hfound, rfl⟩⟩
  | dates cells =>
    obtain ⟨found, hfound⟩ := exists_gather h
    exact ⟨dates found, map_eq_ok.2 ⟨found, hfound, rfl⟩⟩

/-- Rows that are taken are there. -/
theorem lt_of_take {s t : Series} {rows : List Nat} (h : s.take rows = .ok t) : ∀ row ∈ rows, row < s.length := by
  have hrows : ∀ {α : Type} {cells found : List α}, gather cells rows = .ok found →
      ∀ row ∈ rows, row < cells.length := by
    intro α cells found hfound row hrow
    obtain ⟨c, -, hc⟩ := exists_of_mem_forall₂ (gather_eq_ok.1 hfound).flip hrow
    exact (List.getElem?_eq_some_iff.1 hc).1
  cases s with
  | integers cells =>
    obtain ⟨found, hfound, -⟩ := map_eq_ok.1 h
    exact hrows hfound
  | floats cells =>
    obtain ⟨found, hfound, -⟩ := map_eq_ok.1 h
    exact hrows hfound
  | strings cells =>
    obtain ⟨found, hfound, -⟩ := map_eq_ok.1 h
    exact hrows hfound
  | dates cells =>
    obtain ⟨found, hfound, -⟩ := map_eq_ok.1 h
    exact hrows hfound

theorem values_gather {α : Type} {cells found : List α} {rows : List Nat} (f : α → Value)
    (h : gather cells rows = .ok found) :
    List.Forall₂ (fun row v => (cells.map f)[row]? = some v) rows (found.map f) := by
  rw [List.forall₂_map_right_iff]
  refine (gather_eq_ok.1 h).imp fun row c hc => ?_
  rw [List.getElem?_map, hc, Option.map_some]

/-- The cells that are taken are those of the rows. -/
theorem values_take {s t : Series} {rows : List Nat} (h : s.take rows = .ok t) :
    List.Forall₂ (fun row v => s.values[row]? = some v) rows t.values := by
  cases s with
  | integers cells =>
    obtain ⟨found, hfound, rfl⟩ := map_eq_ok.1 h
    exact values_gather _ hfound
  | floats cells =>
    obtain ⟨found, hfound, rfl⟩ := map_eq_ok.1 h
    exact values_gather _ hfound
  | strings cells =>
    obtain ⟨found, hfound, rfl⟩ := map_eq_ok.1 h
    exact values_gather _ hfound
  | dates cells =>
    obtain ⟨found, hfound, rfl⟩ := map_eq_ok.1 h
    exact values_gather _ hfound

theorem broadcastTo_ok {s t : Series} {length : Nat} (h : s.broadcastTo length = .ok t) :
    t.dataType = s.dataType ∧ t.length = length := by
  unfold broadcastTo at h
  split at h
  · simp at h
  · simpa using take_ok h

theorem length_exchange {α : Type} (cells : List α) (a b : Nat) : (exchange cells a b).length = cells.length := by
  unfold exchange
  split <;> simp

theorem rel_getElem? {α β : Type} {R : α → β → Prop} {xs : List α} {ys : List β} (h : List.Forall₂ R xs ys) (i : Nat) :
    Option.Rel R xs[i]? ys[i]? := by
  induction h generalizing i with
  | nil => exact .none
  | cons hx _ ih =>
    cases i with
    | zero => exact .some hx
    | succ i => exact ih i

theorem forall₂_set {α β : Type} {R : α → β → Prop} {xs : List α} {ys : List β} (h : List.Forall₂ R xs ys)
    {x : α} {y : β} (hxy : R x y) (i : Nat) : List.Forall₂ R (xs.set i x) (ys.set i y) := by
  induction h generalizing i with
  | nil => exact .nil
  | cons hx hrest ih =>
    cases i with
    | zero => exact .cons hxy hrest
    | succ i => exact .cons hx (ih i)

/-- Lists that agree row by row do so after an exchange of rows. -/
theorem forall₂_exchange {α β : Type} {R : α → β → Prop} {xs : List α} {ys : List β} (h : List.Forall₂ R xs ys)
    (a b : Nat) : List.Forall₂ R (exchange xs a b) (exchange ys a b) := by
  unfold exchange
  have ha := rel_getElem? h a
  have hb := rel_getElem? h b
  generalize xs[a]? = x at ha ⊢
  generalize ys[a]? = y at ha ⊢
  generalize xs[b]? = x' at hb ⊢
  generalize ys[b]? = y' at hb ⊢
  cases ha with
  | none => exact h
  | some hxy =>
    cases hb with
    | none => exact h
    | some hxy' => exact forall₂_set (forall₂_set h hxy' a) hxy b

theorem mem_exchange {α : Type} {cells : List α} {a b : Nat} {x : α} (h : x ∈ exchange cells a b) : x ∈ cells := by
  unfold exchange at h
  split at h
  · rename_i y z hy hz
    rcases List.mem_or_eq_of_mem_set h with h | rfl
    · rcases List.mem_or_eq_of_mem_set h with h | rfl
      · exact h
      · exact List.mem_of_getElem? hz
    · exact List.mem_of_getElem? hy
  · exact h

theorem map_exchange {α β : Type} (f : α → β) (cells : List α) (a b : Nat) :
    (exchange cells a b).map f = exchange (cells.map f) a b := by
  unfold exchange
  rw [List.getElem?_map, List.getElem?_map]
  cases cells[a]? with
  | none => rfl
  | some x =>
    cases cells[b]? with
    | none => rfl
    | some y =>
      rw [List.map_set, List.map_set]
      rfl

theorem values_swap (s : Series) (a b : Nat) : (s.swap a b).values = exchange s.values a b := by
  cases s <;> exact map_exchange _ _ a b

@[simp] theorem dataType_swap (s : Series) (a b : Nat) : (s.swap a b).dataType = s.dataType := by
  cases s <;> rfl

@[simp] theorem length_swap (s : Series) (a b : Nat) : (s.swap a b).length = s.length := by
  cases s <;> exact length_exchange _ a b

/-! ## Collecting -/

theorem empty_ok {type : DataType} {s : Series} (h : empty type = .ok s) :
    s.dataType = type.storage ∧ s.length = 0 := by
  unfold empty at h
  split at h
  all_goals
    first
    | obtain rfl := by simpa using h
      exact ⟨Eq.symm ‹_›, rfl⟩
    | simp at h

/-- There is an empty series of every type that cells have. -/
theorem exists_empty_of_storage {s : Series} {type : DataType} (h : s.dataType = type.storage) :
    ∃ t, empty type = .ok t := by
  unfold empty
  rw [← h]
  cases s <;> exact ⟨_, rfl⟩

theorem push_ok {s t : Series} {v : Value} (h : s.push v = .ok t) : t.dataType = s.dataType := by
  cases s
  all_goals
    obtain ⟨cell, -, h⟩ := bind_eq_ok.1 h
    obtain rfl := Except.ok.inj h
    rfl

/-- What is collected has the storage of the type asked for, and a cell an item. -/
theorem collect_ok {ε : Type} [MonadLiftT (Except SeriesFault) (Except ε)] {α : Type} {type : DataType}
    {compute : α → Except ε Value} {items : List α} {s : Series}
    (hlift : ∀ t : Series, (liftM (empty type) : Except ε Series) = .ok t → empty type = .ok t)
    (h : collect type compute items = .ok s) : s.dataType = type.storage ∧ s.length = items.length := by
  obtain ⟨base, hbase, h⟩ := bind_eq_ok.1 h
  have hempty := (empty_ok (hlift base hbase)).1
  split at h
  all_goals
    obtain ⟨cells, hcells, h⟩ := bind_eq_ok.1 h
    obtain rfl := by simpa [pure, Except.pure] using h
    exact ⟨hempty, length_of_mapM hcells⟩

/-- Gathering what is computed from items is computing from the gathered items. -/
theorem gather_mapM {ε α β γ : Type} {f : α → Except ε γ} {g : β → Except ε γ} {items : List α} {picked : List β}
    {rows : List Nat} {cells : List γ} (hcells : items.mapM f = .ok cells)
    (hpicked : List.Forall₂ (fun row y => ∃ x, items[row]? = some x ∧ ∀ c, f x = .ok c → g y = .ok c) rows picked) :
    ∃ found, gather cells rows = .ok found ∧ picked.mapM g = .ok found := by
  have hall := mapM_eq_ok.1 hcells
  simp only [gather_eq_ok, mapM_eq_ok]
  induction hpicked with
  | nil => exact ⟨[], .nil, .nil⟩
  | @cons row y rows picked hrow _ ih =>
    obtain ⟨found, hfound, hpicked⟩ := ih
    obtain ⟨x, hx, hfollow⟩ := hrow
    obtain ⟨hlt, rfl⟩ := List.getElem?_eq_some_iff.1 hx
    have hlt' : row < cells.length := hall.length_eq ▸ hlt
    have hc : f items[row] = .ok cells[row] := hall.get hlt hlt'
    exact ⟨cells[row] :: found, .cons (List.getElem?_eq_getElem hlt') hfound, .cons (hfollow _ hc) hpicked⟩

/-- Taking rows of a collected series is collecting from the items of these rows. -/
theorem take_collect {ε : Type} [MonadLiftT (Except SeriesFault) (Except ε)] {α β : Type} {type : DataType}
    {f : α → Except ε Value} {g : β → Except ε Value} {items : List α} {picked : List β} {rows : List Nat}
    {s : Series} (h : collect type f items = .ok s)
    (hpicked : List.Forall₂ (fun row y => ∃ x, items[row]? = some x ∧ ∀ v, f x = .ok v → g y = .ok v) rows picked) :
    ∃ t, s.take rows = .ok t ∧ collect type g picked = .ok t := by
  -- A cell is made of the value that is computed, so equal values give equal cells.
  have hcells : ∀ {γ : Type} (cell : Value → Except ε γ), List.Forall₂ (fun row y => ∃ x, items[row]? = some x ∧
      ∀ c, (do cell (← f x)) = .ok c → (do cell (← g y)) = .ok c) rows picked := by
    intro γ cell
    refine hpicked.imp fun row y ⟨x, hx, hfollow⟩ => ⟨x, hx, fun c hc => ?_⟩
    obtain ⟨v, hv, hc⟩ := bind_eq_ok.1 hc
    exact bind_eq_ok.2 ⟨v, hfollow v hv, hc⟩
  obtain ⟨base, hbase, h⟩ := bind_eq_ok.1 h
  unfold collect
  rw [hbase]
  cases base
  all_goals
    obtain ⟨cells, hmapM, h⟩ := bind_eq_ok.1 h
    obtain rfl := Except.ok.inj h
    obtain ⟨found, hfound, hcollect⟩ := gather_mapM hmapM (hcells _)
    refine ⟨_, map_eq_ok.2 ⟨found, hfound, rfl⟩, ?_⟩
    exact bind_eq_ok.2 ⟨_, rfl, bind_eq_ok.2 ⟨found, hcollect, rfl⟩⟩

theorem ofValues_ok {type : DataType} {values : List Value} {s : Series} (h : ofValues type values = .ok s) :
    s.dataType = type.storage ∧ s.length = values.length :=
  collect_ok (fun _ ht => ht) h

/-- Integers are stored as they are. -/
theorem values_ofValues_integer {type : DataType} (htype : type.storage = .integer) {values : List Value} {s : Series}
    (h : ofValues type values = .ok s) : s.values = values := by
  unfold ofValues collect empty at h
  rw [htype] at h
  obtain ⟨start, hstart, h⟩ := bind_eq_ok.1 h
  obtain rfl := Except.ok.inj hstart
  obtain ⟨cells, hcells, h⟩ := bind_eq_ok.1 h
  obtain rfl := Except.ok.inj h
  refine (map_of_mapM hcells fun v _ n hn => ?_).trans (List.map_id values)
  cases v with
  | integer k => exact congrArg Value.integer (Except.ok.inj hn).symm
  | _ => cases hn

/-- Values of one type are stored as they are. -/
theorem values_ofValues {type : DataType} {values : List Value} (hvalues : ∀ v ∈ values, v.dataType = type.storage)
    {s : Series} (h : ofValues type values = .ok s) : s.values = values := by
  obtain ⟨base, hbase, h⟩ := bind_eq_ok.1 h
  rw [← (empty_ok hbase).1] at hvalues
  cases base
  all_goals
    obtain ⟨cells, hcells, h⟩ := bind_eq_ok.1 h
    obtain rfl := Except.ok.inj h
    refine (map_of_mapM hcells fun v hv c hc => ?_).trans (List.map_id values)
    have htype := hvalues v hv
    cases v <;> cases htype
    obtain rfl := Except.ok.inj hc
    rfl

theorem scalar_ok {v : Value} {s : Series} (h : scalar v = .ok s) : s.dataType = v.dataType ∧ s.length = 1 := by
  have hs := ofValues_ok h
  rw [Value.storage_dataType] at hs
  exact hs

theorem values_scalar {v : Value} {s : Series} (h : scalar v = .ok s) : s.values = [v] := by
  cases v with
  | null =>
    have hnull : scalar .null = .error (.notConcrete .nil) := rfl
    simp [hnull] at h
  | _ =>
    obtain rfl := Except.ok.inj h
    rfl

theorem length_values (s : Series) : s.values.length = s.length := by
  cases s <;> simp [values, length]

/-- A series of one cell at another length. -/
theorem values_broadcastTo {s t : Series} {length : Nat} (hone : s.length = 1)
    (h : s.broadcastTo length = .ok t) : t.values = (List.replicate length s.values).flatten := by
  obtain ⟨v, hv⟩ := List.length_eq_one_iff.1 ((length_values s).trans hone)
  obtain ⟨-, hlength⟩ := broadcastTo_ok h
  unfold broadcastTo at h
  rw [if_neg (by omega)] at h
  rw [hv, List.flatten_replicate_singleton, List.eq_replicate_iff]
  refine ⟨(length_values t).trans hlength, fun w hw => ?_⟩
  -- Whatever row of the longer run is asked for, it is the first one of the shorter.
  obtain ⟨row, hrow, hcell⟩ := exists_of_mem_forall₂ (values_take h) hw
  obtain ⟨i, -, rfl⟩ := List.mem_map.1 hrow
  rw [hone, Nat.max_self, Nat.mod_one, hv] at hcell
  exact (Option.some.inj hcell).symm

theorem cast_ok {patterns : List String} {type : DataType} {s t : Series} (h : s.cast patterns type = .ok t) :
    t.dataType = type.storage := by
  unfold cast at h
  split at h
  · rename_i heq
    obtain rfl := by simpa using h
    exact heq.symm
  · rw [← type.storage_storage]
    exact (collect_ok (fun _ ht => ht) h).1

/-- Casting goes cell by cell, so it does not matter whether rows are taken before or after it. -/
theorem take_cast {patterns : List String} {type : DataType} {s t c : Series} {rows : List Nat}
    (hc : s.cast patterns type = .ok c) (ht : s.take rows = .ok t) :
    ∃ d, c.take rows = .ok d ∧ t.cast patterns type = .ok d := by
  unfold cast at hc ⊢
  rw [(take_ok ht).1]
  split at hc
  · rename_i heq
    obtain rfl := Except.ok.inj hc
    rw [if_pos heq]
    exact ⟨t, ht, rfl⟩
  · rename_i hne
    rw [if_neg hne]
    exact take_collect hc ((values_take ht).imp fun row v hv => ⟨v, hv, fun _ h => h⟩)

theorem length_cast {patterns : List String} {type : DataType} {s t : Series} (h : s.cast patterns type = .ok t) :
    t.length = s.length := by
  unfold cast at h
  split at h
  · exact congrArg length (Except.ok.inj h).symm
  · rw [(collect_ok (fun _ ht => ht) h).2, length_values]

end Series

end Tabular
