-- SUMMARY: The type of the column that an operation in memory gives.
import Tabular.Memory.Execute
import Tabular.Proofs.Operation.Resolve
import Tabular.Proofs.Series

/-!
# Types of results in memory

Each way to carry out an operation gives a column that is named after it, is no constant, and whose cells have the
storage of its type, whatever the operands are. If the operation was resolved over the types of typed operands,
the type of the column is the one that resolving promises.
-/

namespace Tabular.Memory

/-- The cells of a column have the storage of its type. -/
def Column.Typed (c : Column) : Prop := c.data.dataType = c.dataType.storage

namespace Column

theorem storage_dataType_series (s : Series) : s.dataType.storage = s.dataType := by
  cases s <;> rfl

/-- What is known of every column that an operation gives. -/
structure Made (c : Column) (name : String) : Prop where
  typed : c.Typed
  name : c.name = name
  constant : c.constant = none

theorem made_ofSeries (name : String) (data : Series) : (ofSeries name data).Made name :=
  ⟨(storage_dataType_series data).symm, rfl, rfl⟩

theorem ofCodes_ok {name : String} {codes : Series} {map : CategoryMap} {c : Column}
    (h : ofCodes name codes map = .ok c) : c.Made name ∧ c.dataType = .categorical := by
  unfold ofCodes at h
  split at h
  · rename_i hcodes
    obtain rfl := by simpa using h
    exact ⟨⟨hcodes, rfl, rfl⟩, rfl⟩
  · simp at h

theorem literal_ok {v : Value} {c : Column} (h : literal v = .ok c) :
    c.Typed ∧ c.dataType = v.dataType ∧ c.constant = some v ∧ c.name = v.text := by
  unfold literal at h
  simp only [bind_eq_ok] at h
  obtain ⟨data, hdata, h⟩ := h
  obtain rfl := by simpa [pure, Except.pure] using h
  exact ⟨(storage_dataType_series data).symm, (Series.scalar_ok (liftM_series_eq_ok.1 hdata)).1, rfl, rfl⟩

end Column

/-! ## Ways to carry out an operation -/

theorem rowWise_ok {op : Resolved} {args : List Column} {c : Column} (h : rowWise op args = .ok c) :
    c.Made op.name ∧ c.dataType = op.output.storage := by
  unfold rowWise at h
  split at h
  · simp [throw, throwThe, MonadExceptOf.throw] at h
  · obtain ⟨rows, -, h⟩ := bind_eq_ok.1 h
    obtain ⟨data, hdata, h⟩ := bind_eq_ok.1 h
    obtain rfl := by simpa [pure, Except.pure] using h
    exact ⟨Column.made_ofSeries _ _, (Series.collect_ok (fun _ => liftM_series_eq_ok.1) hdata).1⟩

theorem cast_ok {options : Options} {args : List Column} {c : Column} (h : cast options args = .ok c) :
    c.Made "cast" ∧ ∃ type, Parameter.castTarget ((args.map (·.constant)).getD 1 none) = .ok type ∧
      c.dataType = type.storage := by
  unfold cast at h
  split at h
  · obtain ⟨type, htype, h⟩ := bind_eq_ok.1 h
    obtain ⟨data, hdata, h⟩ := bind_eq_ok.1 h
    obtain rfl := by simpa [pure, Except.pure] using h
    exact ⟨Column.made_ofSeries _ _, type, htype, Series.cast_ok (liftM_series_eq_ok.1 hdata)⟩
  · simp at h

/-- What `cat` gives: the codes of its first operand and the map that was built from it. -/
theorem categorize_ok {options : Options} {args : List Column} {c : Column} (h : categorize options args = .ok c) :
    ∃ raw more threshold map codes, args = raw :: more ∧ CategoryMap.build raw.data threshold = .ok (map, codes) ∧
      Column.ofCodes "cat" codes map = .ok c := by
  unfold categorize at h
  split at h
  · simp at h
  · rename_i raw more
    obtain ⟨threshold, -, h⟩ := bind_eq_ok.1 h
    obtain ⟨⟨map, codes⟩, hbuild, h⟩ := bind_eq_ok.1 h
    exact ⟨raw, more, threshold, map, codes, rfl, liftM_series_eq_ok.1 hbuild, h⟩

/-- What `applyCat` gives: the codes of its first operand in the map of its second one. -/
theorem applyCategories_ok {args : List Column} {c : Column} (h : applyCategories args = .ok c) :
    ∃ raw categorical default map code codes, args = [raw, categorical, default] ∧ categorical.categories = some map ∧
      map.encode raw.data code = .ok codes ∧ Column.ofCodes "applyCat" codes map = .ok c := by
  unfold applyCategories at h
  split at h
  · rename_i raw categorical default
    split at h
    · simp at h
    · simp at h
    · rename_i map level hmap hlevel
      obtain ⟨code, -, h⟩ := bind_eq_ok.1 h
      obtain ⟨codes, hcodes, h⟩ := bind_eq_ok.1 h
      exact ⟨raw, categorical, default, map, code, codes, rfl, hmap, liftM_series_eq_ok.1 hcodes, h⟩
  · simp at h

theorem aggregate_ok {op : Resolved} {args : List Column} {c : Column} (h : aggregate op args = .ok c) :
    c.Made op.name ∧ ∃ arg more value, args = arg :: more ∧
      Aggregate.run op.name arg.data (more.head?.bind (·.constant)) = .ok value ∧ c.dataType = value.dataType := by
  unfold aggregate at h
  split at h
  · simp at h
  · rename_i arg more
    obtain ⟨value, hvalue, h⟩ := bind_eq_ok.1 h
    obtain ⟨data, hdata, h⟩ := bind_eq_ok.1 h
    obtain rfl := by simpa [pure, Except.pure] using h
    exact ⟨Column.made_ofSeries _ _, arg, more, value, rfl, hvalue, (Series.scalar_ok (liftM_series_eq_ok.1 hdata)).1⟩

/-- Whatever is carried out, the column is named after it and its cells have the storage of its type. -/
theorem made_execute {options : Options} {rows : Nat} {op : Resolved} {args : List Column} {c : Column}
    (h : execute options rows op args = .ok c) : c.Made op.name := by
  unfold execute at h
  split at h
  · rename_i hname
    exact hname ▸ (cast_ok h).1
  · rename_i hname
    obtain rfl := by simpa using h
    exact hname ▸ Column.made_ofSeries _ _
  · rename_i hname
    obtain ⟨_, _, _, map, codes, -, -, hc⟩ := categorize_ok h
    exact hname ▸ (Column.ofCodes_ok hc).1
  · rename_i hname
    obtain ⟨_, _, _, map, _, codes, -, -, -, hc⟩ := applyCategories_ok h
    exact hname ▸ (Column.ofCodes_ok hc).1
  · split at h
    · exact (aggregate_ok h).1
    · exact (rowWise_ok h).1

/-! ## Aggregates -/

/-- A fold that picks one of its two arguments picks from the list. -/
theorem foldl_mem {α : Type} {f : α → α → α} (hf : ∀ a b, f a b = a ∨ f a b = b) (a : α) (l : List α) :
    l.foldl f a ∈ a :: l := by
  induction l generalizing a with
  | nil => exact List.mem_cons_self
  | cons b l ih =>
    rw [List.foldl_cons]
    rcases List.mem_cons.1 (ih (f a b)) with h | h
    · rw [h]
      rcases hf a b with hab | hab
      · rw [hab]
        exact List.mem_cons_self
      · rw [hab]
        exact List.mem_cons_of_mem _ List.mem_cons_self
    · exact List.mem_cons_of_mem _ (List.mem_cons_of_mem _ h)

theorem Aggregate.mem_of_least? {cells : List Value} {v : Value} (h : least? cells = some v) : v ∈ cells := by
  cases cells with
  | nil => simp [least?] at h
  | cons w rest =>
    obtain rfl := by simpa [least?] using h
    refine foldl_mem (fun a b => ?_) w rest
    split
    · exact .inr rfl
    · exact .inl rfl

theorem Aggregate.mem_of_greatest? {cells : List Value} {v : Value} (h : greatest? cells = some v) : v ∈ cells := by
  cases cells with
  | nil => simp [greatest?] at h
  | cons w rest =>
    obtain rfl := by simpa [greatest?] using h
    refine foldl_mem (fun a b => ?_) w rest
    split
    · exact .inl rfl
    · exact .inr rfl

/-- An aggregate over a column of the type of the first slot gives a value of the type of the output. -/
theorem Aggregate.dataType_run {signature : Signature} {name : String} {data : Series} {level : Option Value}
    {value : Value} (hfits : signature.outputFits name = true)
    (hdata : ∀ slot, signature.inputs.head? = some slot → slot.isConcrete = true → data.dataType = slot)
    (h : run name data level = .ok value) : value.dataType = signature.output := by
  unfold run at h
  split at h
  · obtain rfl := by simpa using h
    simp only [Signature.outputFits, beq_iff_eq] at hfits
    exact hfits.symm
  · simp only [Signature.outputFits, Bool.and_eq_true, beq_iff_eq] at hfits
    have htype := hdata _ hfits.1 hfits.2
    split at h
    · split at h
      · obtain rfl := by simpa using h
        exact htype
      · simp at h
    · obtain rfl := by simpa using h
      exact htype
    · simp at h
  · split at h
    · simp at h
    · obtain rfl := by simpa using h
      simp only [Signature.outputFits, beq_iff_eq] at hfits
      exact hfits.symm
  · simp only [Signature.outputFits, Bool.and_eq_true, beq_iff_eq] at hfits
    split at h
    · rename_i v hleast
      obtain rfl := by simpa using h
      exact (Series.dataType_of_mem_values (mem_of_least? hleast)).trans (hdata _ hfits.1 hfits.2)
    · simp at h
  · simp only [Signature.outputFits, Bool.and_eq_true, beq_iff_eq] at hfits
    split at h
    · rename_i v hgreatest
      obtain rfl := by simpa using h
      exact (Series.dataType_of_mem_values (mem_of_greatest? hgreatest)).trans (hdata _ hfits.1 hfits.2)
    · simp at h
  · obtain ⟨level, -, h⟩ := bind_eq_ok.1 h
    split at h
    · obtain rfl := by simpa [pure, Except.pure] using h
      simp only [Signature.outputFits, beq_iff_eq] at hfits
      exact hfits.symm
    · simp [throw, throwThe, MonadExceptOf.throw] at h
  · simp at h

/-! ## The promised type -/

theorem castTarget_storage {constant : Option Value} {type : DataType}
    (h : Parameter.castTarget constant = .ok type) : type.storage = type := by
  unfold Parameter.castTarget at h
  split at h
  · simp at h
  · obtain ⟨named, -, h⟩ := bind_eq_ok.1 h
    split at h
    · rename_i hconcrete
      obtain rfl : named = type := by simpa [pure, Except.pure] using h
      cases named <;> first | rfl | simp [DataType.isConcrete] at hconcrete
    · simp [throw, throwThe, MonadExceptOf.throw] at h

/-- Only categories are stored as something else. -/
theorem storage_of_outputFits {signature : Signature} {name : String} (h : signature.outputFits name = true)
    (hcat : name ≠ "cat") (hencode : name ≠ "applyCat") : signature.output.storage = signature.output := by
  have hne : signature.output ≠ .categorical := by
    intro hcategorical
    unfold Signature.outputFits at h
    split at h <;> simp_all [DataType.isConcrete]
  revert hne
  cases signature.output <;> simp [DataType.storage]

/-- Over typed operands, an operation gives a column of the type that resolving promises. -/
theorem dataType_execute {options : Options} {rows : Nat} {op : Resolved} {args : List Column} {c : Column}
    (happlies : op.Applies (args.map (·.dataType))) (hargs : ∀ arg ∈ args, arg.Typed)
    (h : execute options rows op args = .ok c) : op.resultType (args.map (·.constant)) = .ok c.dataType := by
  have hfits := happlies.outputFits
  unfold execute at h
  split at h
  · rename_i hname
    obtain ⟨-, type, htype, hc⟩ := cast_ok h
    rw [Resolved.resultType, if_pos hname, htype, hc, castTarget_storage htype]
  · rename_i hname
    obtain rfl : rowNumbers rows = c := by simpa using h
    simp only [hname, Signature.outputFits, beq_iff_eq] at hfits
    rw [Resolved.resultType_of_ne (by simp [hname])]
    exact congrArg Except.ok hfits
  · rename_i hname
    simp only [hname, Signature.outputFits, beq_iff_eq] at hfits
    obtain ⟨_, _, _, map, codes, -, -, hc⟩ := categorize_ok h
    rw [Resolved.resultType_of_ne (by simp [hname]), (Column.ofCodes_ok hc).2]
    exact congrArg Except.ok hfits
  · rename_i hname
    simp only [hname, Signature.outputFits, beq_iff_eq] at hfits
    obtain ⟨_, _, _, map, _, codes, -, -, -, hc⟩ := applyCategories_ok h
    rw [Resolved.resultType_of_ne (by simp [hname]), (Column.ofCodes_ok hc).2]
    exact congrArg Except.ok hfits
  · rename_i hcast hnumber hcat hencode
    rw [Resolved.resultType_of_ne hcast]
    split at h
    · obtain ⟨-, arg, more, value, rfl, hvalue, hc⟩ := aggregate_ok h
      -- The type of an aggregate may be that of its operand, which the first slot of the signature fixes.
      have htype : value.dataType = op.output := by
        refine Aggregate.dataType_run hfits (fun slot hslot hconcrete => ?_) hvalue
        have haccepts := Signature.accepts_head happlies.accepts hslot
        exact (hargs arg List.mem_cons_self).trans (DataType.storage_of_accepts hconcrete haccepts)
      rw [hc, htype]
    · have hstorage := storage_of_outputFits hfits hcat hencode
      rw [(rowWise_ok h).2]
      exact congrArg Except.ok hstorage.symm

end Tabular.Memory
