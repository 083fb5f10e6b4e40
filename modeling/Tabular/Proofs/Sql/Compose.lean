-- SUMMARY: Composing an operation fails late if at all, and gives a term of the type that resolving promises.
import Tabular.Proofs.Operation.Resolve
import Tabular.Proofs.Series
import Tabular.Proofs.Sql.Work
import Tabular.Sql.Compose

/-!
# Composed operations

What a dialect does not have, constants that are missing and cells that cannot be fetched are the only reasons for
which an operation cannot be composed. The type of a composed term is never found from its cells: it is the output
of the signature, or the target of a cast.
-/

namespace Tabular

/-! ## Parameters -/

namespace Parameter

theorem late_castTarget (constant : Option Value) : Late (castTarget constant) := by
  unfold castTarget
  split
  · exact Late.error rfl
  · refine (Late.series _).bind fun type _ => ?_
    split
    · exact Late.pure
    · exact Late.throw rfl

theorem late_threshold (constant : Option Value) : Late (threshold constant) := by
  unfold threshold
  split
  · split
    · exact Late.error rfl
    · exact Late.ok
  · exact Late.error rfl

theorem late_quantileLevel (constant : Option Value) : Late (quantileLevel constant) := by
  unfold quantileLevel
  split
  · split
    · exact Late.ok
    · exact Late.error rfl
  · exact Late.error rfl

end Parameter

namespace Sql

/-! ## Dialects -/

namespace Dialect

theorem late_columnType (d : Dialect) (type : DataType) : Late (d.columnType type) := by
  unfold columnType
  split
  · exact Late.ok
  · exact Late.ok
  · exact Late.ok
  · exact Late.ok
  · exact Late.error rfl

theorem late_conversion (d : Dialect) (source target : DataType) : Late (d.conversion source target) := by
  unfold conversion
  split
  · exact Late.ok
  · split
    · exact (late_columnType _ _).map
    · split
      all_goals first | exact Late.ok | exact Late.error rfl

theorem late_comparison (d : Dialect) (name : String) : Late (d.comparison name) := by
  unfold comparison
  split
  · exact Late.ok
  · exact Late.error rfl

theorem late_function (d : Dialect) (name : String) (arity : Nat) : Late (d.function name arity) := by
  unfold function
  split
  · exact Late.ok
  · exact Late.error rfl

theorem late_checkQuantile (d : Dialect) : Late d.checkQuantile := by
  cases d with
  | ansi => exact Late.ok
  | sqlite => exact Late.error rfl

theorem late_checkLiteral (d : Dialect) (v : Value) : Late (d.checkLiteral v) := by
  unfold checkLiteral
  split
  · split
    · exact Late.ok
    · exact Late.error rfl
  · exact Late.ok

end Dialect

/-! ## Cells -/

variable {δ : Type} [Database δ]

/-- The fetched cells of a column have the storage of its type, and so has the cell of a literal of this type. -/
theorem Column.holds_values (hdatabase : Database.Faithful δ) (c : Column) :
    Work.late.Holds (c.values : Work δ Series) fun s =>
      (∀ v, c.constant = some v → c.dataType = v.dataType) → s.dataType = c.dataType.storage := by
  unfold values
  split
  · rename_i v hconstant
    refine Work.late_lift (Late.series _) fun s hs hliteral => ?_
    rw [hliteral v hconstant, Value.storage_dataType, (Series.scalar_ok (liftM_series_eq_ok.1 hs)).1]
  -- One type was asked for, so a series that was fetched has its storage.
  · refine Work.late.bind (hdatabase.holds_fetch _ _) fun cells hcells => ?_
    split
    · rename_i s hlast
      refine Work.late.pure fun _ => ?_
      have hmem : s.dataType ∈ cells.map Series.dataType := List.mem_map_of_mem (List.mem_of_getLast? hlast)
      exact (List.mem_singleton.1 (hcells.subset hmem)).trans c.dataType.storage_storage
    · exact Work.late_throw rfl

/-! ## Operations -/

namespace Compose

theorem late_operand (name : String) (operands : List Operand) (index : Nat) :
    Late (operand name operands index) := by
  unfold operand
  split
  · exact Late.ok
  · exact Late.error rfl

theorem late_call (d : Dialect) (name : String) (terms : List Term) : Late (call d name terms) :=
  (d.late_function name terms.length).bind fun _ _ => Late.pure

theorem late_convert (d : Dialect) (term : Term) (source target : DataType) :
    Late (convert d term source target) := by
  refine (d.late_conversion source target).bind fun how _ => ?_
  split
  · exact Late.pure
  · exact Late.pure

theorem late_cast (d : Dialect) (operands : List Operand) : Late (cast d operands) := by
  refine (late_operand _ _ _).bind fun target _ => (Parameter.late_castTarget _).bind fun type _ => ?_
  exact (late_operand _ _ _).bind fun value _ => (late_convert _ _ _ _).bind fun term _ => Late.pure

theorem late_applyCategories (operands : List Operand) : Late (applyCategories operands) := by
  refine (late_operand _ _ _).bind fun raw _ => (late_operand _ _ _).bind fun categorical _ => ?_
  dsimp only
  split
  · exact Late.throw rfl
  · refine Late.guard rfl ((late_operand _ _ _).bind fun default _ => ?_)
    split
    · exact Late.throw rfl
    · exact (Late.series _).bind fun code _ => Late.pure

theorem late_floats (d : Dialect) (operands : List Operand) : Late (floats d operands) :=
  Late.mapM fun _ _ => late_convert ..

theorem late_compare (d : Dialect) (name : String) (operands : List Operand) : Late (compare d name operands) :=
  (late_operand ..).bind fun _ _ => (late_operand ..).bind fun _ _ =>
    (d.late_comparison name).bind fun _ _ => Late.pure

theorem late_choice (name : String) (operands : List Operand) : Late (choice name operands) :=
  (late_operand ..).bind fun _ _ => (late_operand ..).bind fun _ _ => (late_operand ..).bind fun _ _ => Late.pure

theorem late_quantile (d : Dialect) (operands : List Operand) : Late (quantile d operands) := by
  refine (late_operand ..).bind fun level _ => (Parameter.late_quantileLevel _).bind fun share _ => ?_
  exact (late_operand ..).bind fun value _ => d.late_checkQuantile.bind fun _ _ => Late.pure

theorem late_plain (s : Source) (op : Resolved) (operands : List Operand) : Late (plain s op operands) := by
  unfold plain
  split
  · exact Late.ok
  · exact (late_floats ..).bind fun _ _ => late_call ..
  · exact (late_floats ..).bind fun _ _ => late_call ..
  · exact late_call ..
  · exact late_choice ..
  · exact late_quantile ..
  · split
    · exact late_compare ..
    · exact late_call ..

theorem late_categoryThreshold (options : Options) (operands : List Operand) :
    Late (categoryThreshold options operands) := by
  unfold categoryThreshold
  split
  · exact Late.ok
  · exact (Parameter.late_threshold _).map
  · exact Late.error rfl

/-- A composed cast has the type that its second operand names. -/
theorem castTarget_of_cast {d : Dialect} {operands : List Operand} {composed : Composed}
    (h : cast d operands = .ok composed) :
    Parameter.castTarget ((operands.map (·.1.constant)).getD 1 none) = .ok composed.dataType := by
  obtain ⟨⟨target, _⟩, htarget, h⟩ := bind_eq_ok.1 h
  obtain ⟨type, htype, h⟩ := bind_eq_ok.1 h
  obtain ⟨⟨value, term⟩, -, h⟩ := bind_eq_ok.1 h
  obtain ⟨converted, -, h⟩ := bind_eq_ok.1 h
  obtain rfl : _ = composed := by simpa [pure, Except.pure] using h
  unfold operand at htarget
  split at htarget
  · rename_i o ho
    obtain rfl : o = _ := by simpa using htarget
    rw [List.getD_eq_getElem?_getD, List.getElem?_map, ho]
    exact htype
  · simp at htarget

theorem dataType_of_applyCategories {operands : List Operand} {composed : Composed}
    (h : applyCategories operands = .ok composed) : composed.dataType = .categorical := by
  obtain ⟨⟨raw, term⟩, -, h⟩ := bind_eq_ok.1 h
  obtain ⟨⟨categorical, _⟩, -, h⟩ := bind_eq_ok.1 h
  dsimp only at h
  split at h
  · simp [throw, throwThe, MonadExceptOf.throw] at h
  · split at h
    · simp [throw, throwThe, MonadExceptOf.throw, bind, Except.bind] at h
    · obtain ⟨⟨default, _⟩, -, h⟩ := bind_eq_ok.1 h
      dsimp only at h
      split at h
      · simp [throw, throwThe, MonadExceptOf.throw] at h
      · obtain ⟨code, -, h⟩ := bind_eq_ok.1 h
        obtain rfl : _ = composed := by simpa [pure, Except.pure] using h
        rfl

theorem holds_categorize (hdatabase : Database.Faithful δ) (s : Source) (operands : List Operand) :
    Work.late.Holds (categorize s operands : Work δ Composed) fun composed => composed.dataType = .categorical := by
  unfold categorize
  split
  · exact Work.late_throw rfl
  · rename_i raw term more
    refine Work.late.bind (Work.late_lift_any (late_categoryThreshold ..)) fun threshold _ => ?_
    refine Work.late.bind (raw.holds_values hdatabase) fun cells _ => ?_
    exact Work.late.bind (Work.late_lift_any (Late.series _)) fun built _ => Work.late.pure rfl

/-- A composed operation has the type that resolving promises. -/
theorem holds_operation (hdatabase : Database.Faithful δ) (s : Source) {op : Resolved} {operands : List Operand}
    (happlies : op.Applies (operands.map (·.1.dataType))) :
    Work.late.Holds (operation s op operands : Work δ Composed) fun composed =>
      op.resultType (operands.map (·.1.constant)) = .ok composed.dataType := by
  have hfits := happlies.outputFits
  unfold operation
  split
  · rename_i hname
    refine Work.late_lift (late_cast ..) fun composed hcomposed => ?_
    rw [Resolved.resultType, if_pos hname]
    exact castTarget_of_cast hcomposed
  · rename_i hname
    refine Work.late.mono (holds_categorize hdatabase s operands) fun composed hcomposed => ?_
    simp only [hname, Signature.outputFits, beq_iff_eq] at hfits
    rw [Resolved.resultType_of_ne (by simp [hname]), hcomposed]
    exact congrArg Except.ok hfits
  · rename_i hname
    refine Work.late_lift (late_applyCategories ..) fun composed hcomposed => ?_
    simp only [hname, Signature.outputFits, beq_iff_eq] at hfits
    rw [Resolved.resultType_of_ne (by simp [hname]), dataType_of_applyCategories hcomposed]
    exact congrArg Except.ok hfits
  · rename_i hcast _ _
    refine Work.late.bind (Work.late_lift_any (late_plain ..)) fun term _ => Work.late.pure ?_
    exact Resolved.resultType_of_ne hcast

end Compose

end Sql

end Tabular
