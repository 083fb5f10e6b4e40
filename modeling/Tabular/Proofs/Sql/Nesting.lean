-- SUMMARY: No aggregate that SQL frames compose stands directly inside of another one.
import Tabular.Proofs.Evaluation.Invariant
import Tabular.Proofs.Sql.Derive
import Tabular.Proofs.Sql.Evaluate

/-!
# Nested aggregates

A term nests its aggregates if an aggregate is inside of another one only as part of a subquery. A term that stands
inside of an aggregate itself has none outside of its subqueries.

A column keeps two terms: the one that is selected, and the one that it has inside of aggregates. Operations that are
no aggregates are composed from the terms of one kind, so what they give is of that kind again; aggregates are
composed from terms of the second kind only, and become subqueries before they are used as one. This holds of all
columns that formulas give over frames that are made by assigning, dropping, sorting and grouping.
-/

namespace Tabular.Sql

/-! ## Terms -/

/-- Names that the sources of a session have, by what they begin with. -/
def IsSourceName (stem name : String) : Prop := ∃ depth : Nat, name = stem ++ toString depth

mutual

/-- Aggregates are inside of others only in subqueries; `inner` says that the term itself is inside of one. Subqueries
    are over sources with the names that `stem` begins. -/
def Term.Nests (stem : String) (inner : Bool) : Term → Prop
  | .column _ => True
  | .literal _ => True
  | .convert _ operand => operand.Nests stem inner
  | .compare _ left right => left.Nests stem inner ∧ right.Nests stem inner
  | .case conditions values otherwise =>
    Term.AllNest stem inner conditions ∧ Term.AllNest stem inner values ∧ otherwise.Nests stem inner
  | .call function args =>
    (function.isAggregate = true → inner = false) ∧ Term.AllNest stem (inner || function.isAggregate) args
  | .rowNumber _ => True
  | .quantile operand _ => inner = false ∧ operand.Nests stem true
  | .broadcast aggregate => aggregate.Nests stem inner
  | .overSource aggregate source => aggregate.Nests stem false ∧ IsSourceName stem source
  | .overGroup aggregate source _ => aggregate.Nests stem false ∧ IsSourceName stem source

def Term.AllNest (stem : String) (inner : Bool) : List Term → Prop
  | [] => True
  | term :: more => term.Nests stem inner ∧ Term.AllNest stem inner more

end

theorem Term.allNest_iff {stem : String} {inner : Bool} {terms : List Term} :
    Term.AllNest stem inner terms ↔ ∀ t ∈ terms, t.Nests stem inner := by
  induction terms with
  | nil => simp [AllNest]
  | cons term more ih => rw [AllNest, ih, List.forall_mem_cons]

mutual

/-- What may stand inside of an aggregate may stand anywhere. -/
theorem Term.Nests.anywhere {stem : String} {t : Term} (h : t.Nests stem true) (inner : Bool) :
    t.Nests stem inner := by
  cases t with
  | column name => trivial
  | literal value => trivial
  | convert how operand => exact Nests.anywhere (t := operand) h inner
  | compare how left right => exact ⟨Nests.anywhere (t := left) h.1 inner, h.2.anywhere inner⟩
  | case conditions values otherwise =>
    exact ⟨AllNest.anywhere h.1 inner, AllNest.anywhere h.2.1 inner, h.2.2.anywhere inner⟩
  | call function args =>
    obtain ⟨haggregate, hargs⟩ : (function.isAggregate = true → true = false) ∧ Term.AllNest stem true args := h
    have hplain : function.isAggregate = false := by simpa using haggregate
    exact ⟨by simp [hplain], AllNest.anywhere hargs _⟩
  | rowNumber order => trivial
  | quantile operand level => exact absurd h.1 (by simp)
  | broadcast aggregate => exact Nests.anywhere (t := aggregate) h inner
  | overSource aggregate source => exact h
  | overGroup aggregate source keys => exact h

theorem Term.AllNest.anywhere {stem : String} {terms : List Term} (h : Term.AllNest stem true terms) (inner : Bool) :
    Term.AllNest stem inner terms := by
  match terms with
  | [] => trivial
  | _ :: _ => exact ⟨h.1.anywhere inner, AllNest.anywhere h.2 inner⟩

end

/-- With more around it, a term has to keep to more. -/
theorem Term.Nests.outside {stem : String} {t : Term} {inner more : Bool} (h : t.Nests stem (inner || more)) :
    t.Nests stem inner := by
  cases more with
  | false => rwa [Bool.or_false] at h
  | true =>
    rw [Bool.or_true] at h
    exact h.anywhere inner

/-! ## Queries -/

/-- All terms that a query is composed of, those of its sources included. -/
def Query.terms : Query → List Term
  | .statement _ => []
  | .table _ => []
  | .select _ source fields groupBy _ => source.terms ++ (fields.map Field.term ++ groupBy)
  | .literals rows => rows.flatten.map Field.term

/-! ## Operations -/

/-- The operations that are carried out by aggregates. -/
def aggregateNames : List String := ["sum", "mean", "count", "min", "max", "quantile"]

theorem isScalar_of_mem_aggregateNames {op : Resolved} (hbuiltIn : op.operation ∈ Operation.builtIn)
    (h : op.name ∈ aggregateNames) : op.isScalar = true := by
  have hscalar : ∀ operation ∈ Operation.builtIn, operation.name ∈ aggregateNames → operation.scalar = true := by
    decide
  exact hscalar _ hbuiltIn h

theorem Function.mem_aggregateNames {name : String} {arity : Nat} {f : Function} (h : named? name arity = some f)
    (hf : f.isAggregate = true) : name ∈ aggregateNames := by
  unfold named? at h
  split at h
  all_goals first | (obtain rfl := Option.some.inj h; revert hf; decide) | cases h

namespace Compose

variable {stem : String} {inner : Bool} {op : Resolved} {operands : List Operand}

theorem nests_encode {raw : Term} (h : raw.Nests stem inner) (map : CategoryMap) (default : Int64) :
    (encode raw map default).Nests stem inner := by
  refine ⟨Term.allNest_iff.2 ?_, Term.allNest_iff.2 ?_, trivial⟩
  · rw [List.forall_mem_map]
    exact fun _ _ => ⟨h, trivial⟩
  · rw [List.forall_mem_map]
    exact fun _ _ => trivial

theorem nests_convert {d : Dialect} {source target : DataType} {raw term : Term} (hraw : raw.Nests stem inner)
    (h : convert d raw source target = .ok term) : term.Nests stem inner := by
  obtain ⟨how, -, h⟩ := bind_eq_ok.1 h
  split at h
  · exact Except.ok.inj h ▸ hraw
  · obtain rfl := Except.ok.inj h
    exact hraw

section Operands

variable (hoperands : ∀ o ∈ operands, o.2.Nests stem inner)

include hoperands

theorem nests_operand {name : String} {index : Nat} {o : Operand} (h : operand name operands index = .ok o) :
    o.2.Nests stem inner := by
  unfold operand at h
  split at h
  · rename_i found hfound
    exact Except.ok.inj h ▸ hoperands found (List.mem_of_getElem? hfound)
  · simp at h

theorem nests_floats {d : Dialect} {terms : List Term} (h : floats d operands = .ok terms) :
    ∀ t ∈ terms, t.Nests stem inner := by
  intro t ht
  obtain ⟨o, ho, hconvert⟩ := exists_of_mem_mapM h ht
  exact nests_convert (hoperands o ho) hconvert

theorem nests_cast {d : Dialect} {composed : Composed} (h : cast d operands = .ok composed) :
    composed.term.Nests stem inner := by
  obtain ⟨_, -, h⟩ := bind_eq_ok.1 h
  obtain ⟨_, -, h⟩ := bind_eq_ok.1 h
  obtain ⟨value, hvalue, h⟩ := bind_eq_ok.1 h
  obtain ⟨term, hterm, h⟩ := bind_eq_ok.1 h
  obtain rfl := Except.ok.inj h
  exact nests_convert (nests_operand hoperands hvalue) hterm

theorem nests_applyCategories {composed : Composed} (h : applyCategories operands = .ok composed) :
    composed.term.Nests stem inner := by
  obtain ⟨raw, hraw, h⟩ := bind_eq_ok.1 h
  obtain ⟨categorical, -, h⟩ := bind_eq_ok.1 h
  dsimp only at h
  split at h
  · simp [throw, throwThe, MonadExceptOf.throw] at h
  · obtain ⟨-, h⟩ := guard_eq_ok.1 h
    obtain ⟨_, -, h⟩ := bind_eq_ok.1 h
    split at h
    · simp [throw, throwThe, MonadExceptOf.throw] at h
    · obtain ⟨code, -, h⟩ := bind_eq_ok.1 h
      obtain rfl := Except.ok.inj h
      exact nests_encode (nests_operand hoperands hraw) _ code

theorem nests_compare {d : Dialect} {name : String} {term : Term} (h : compare d name operands = .ok term) :
    term.Nests stem inner := by
  obtain ⟨left, hleft, h⟩ := bind_eq_ok.1 h
  obtain ⟨right, hright, h⟩ := bind_eq_ok.1 h
  obtain ⟨how, -, h⟩ := bind_eq_ok.1 h
  obtain rfl := Except.ok.inj h
  exact ⟨nests_operand hoperands hleft, nests_operand hoperands hright⟩

theorem nests_choice {name : String} {term : Term} (h : choice name operands = .ok term) :
    term.Nests stem inner := by
  obtain ⟨condition, hcondition, h⟩ := bind_eq_ok.1 h
  obtain ⟨consequence, hconsequence, h⟩ := bind_eq_ok.1 h
  obtain ⟨alternative, halternative, h⟩ := bind_eq_ok.1 h
  obtain rfl := Except.ok.inj h
  have hcondition : Term.AllNest stem inner [.compare .ne condition.2 (integer 0)] :=
    ⟨⟨nests_operand hoperands hcondition, trivial⟩, trivial⟩
  exact ⟨hcondition, ⟨nests_operand hoperands hconsequence, trivial⟩, nests_operand hoperands halternative⟩

end Operands

section Aggregates

variable (hbuiltIn : op.operation ∈ Operation.builtIn) (hscalar : op.isScalar = true → inner = false)

include hscalar

/-- A call of an aggregate is not inside of one, but its operands are. -/
theorem nests_call {d : Dialect} {name : String} {terms : List Term}
    (hname : name ∈ aggregateNames → op.isScalar = true) (hterms : ∀ t ∈ terms, t.Nests stem (inner || op.isScalar))
    {term : Term} (h : call d name terms = .ok term) : term.Nests stem inner := by
  obtain ⟨f, hf, h⟩ := bind_eq_ok.1 h
  obtain rfl := Except.ok.inj h
  have haggregate : f.isAggregate = true → op.isScalar = true := by
    unfold Dialect.function at hf
    split at hf
    · rename_i found hfound
      obtain rfl := Except.ok.inj hf
      exact fun h => hname (Function.mem_aggregateNames hfound h)
    · cases hf
  refine ⟨fun h => hscalar (haggregate h), Term.allNest_iff.2 fun t ht => ?_⟩
  have ht := hterms t ht
  cases hf : f.isAggregate with
  | true => rwa [haggregate hf] at ht
  | false => exact (Bool.or_false inner).symm ▸ ht.outside

variable (hoperands : ∀ o ∈ operands, o.2.Nests stem (inner || op.isScalar))

include hoperands

theorem nests_quantile {d : Dialect} (hop : op.isScalar = true) {term : Term} (h : quantile d operands = .ok term) :
    term.Nests stem inner := by
  obtain ⟨_, -, h⟩ := bind_eq_ok.1 h
  obtain ⟨level, -, h⟩ := bind_eq_ok.1 h
  obtain ⟨value, hvalue, h⟩ := bind_eq_ok.1 h
  obtain ⟨_, -, h⟩ := bind_eq_ok.1 h
  obtain rfl := Except.ok.inj h
  rw [hop, Bool.or_true] at hoperands
  exact ⟨hscalar hop, nests_operand hoperands hvalue⟩

include hbuiltIn

theorem nests_plain {s : Source} {term : Term} (h : plain s op operands = .ok term) : term.Nests stem inner := by
  have houtside : ∀ o ∈ operands, o.2.Nests stem inner := fun o ho => (hoperands o ho).outside
  have hterms : ∀ t ∈ operands.map (·.2), t.Nests stem (inner || op.isScalar) := by
    rw [List.forall_mem_map]
    exact hoperands
  have hother : ∀ {name}, name ∉ aggregateNames → name ∈ aggregateNames → op.isScalar = true :=
    fun hnot hname => absurd hname hnot
  have hop := isScalar_of_mem_aggregateNames hbuiltIn
  unfold plain at h
  split at h
  · exact Except.ok.inj h ▸ trivial
  · obtain ⟨terms, hfloats, h⟩ := bind_eq_ok.1 h
    exact nests_call hscalar (hother (by decide)) (nests_floats hoperands hfloats) h
  · obtain ⟨terms, hfloats, h⟩ := bind_eq_ok.1 h
    exact nests_call hscalar (hother (by decide)) (nests_floats hoperands hfloats) h
  · refine nests_call hscalar (hother ?_) hterms h
    split <;> decide
  · exact nests_choice houtside h
  · rename_i hname
    exact nests_quantile hscalar hoperands (hop (by rw [hname]; decide)) h
  · split at h
    · exact nests_compare houtside h
    · exact nests_call hscalar hop hterms h

/-- Operations keep to the place that their operands have, and aggregates are not inside of others. -/
theorem holds_nests {δ : Type} [Database δ] (s : Source) :
    Work.partialResult.Holds (operation s op operands : Work δ Composed) fun composed =>
      composed.term.Nests stem inner := by
  have houtside : ∀ o ∈ operands, o.2.Nests stem inner := fun o ho => (hoperands o ho).outside
  unfold operation
  split
  · exact Work.partialResult_lift fun _ h => nests_cast houtside h
  · unfold categorize
    split
    · exact Work.partialResult_throw
    · rename_i raw term more
      refine Work.partialResult.bind (Work.partialResult_any _) fun _ _ => ?_
      refine Work.partialResult.bind (Work.partialResult_any _) fun _ _ => ?_
      refine Work.partialResult.bind (Work.partialResult_any _) fun built _ => Work.partialResult.pure ?_
      exact nests_encode (houtside _ List.mem_cons_self) built.1 _
  · exact Work.partialResult_lift fun _ h => nests_applyCategories houtside h
  · have hplain := Work.partialResult_lift (δ := δ) fun _ h => nests_plain hbuiltIn hscalar hoperands (s := s) h
    exact Work.partialResult.bind hplain fun _ h => Work.partialResult.pure h

end Aggregates

end Compose

/-! ## Columns -/

/-- The terms of a column: the one that is selected, and the one that it has inside of an aggregate, if there is one. -/
structure Column.Terms (P : Bool → Term → Prop) (c : Column) : Prop where
  term : P false c.term
  nested : ∀ t, Frame.nestedTerm c = .ok t → P true t

/-- Both terms of the column nest aggregates. -/
abbrev Column.Nests (stem : String) (c : Column) : Prop := c.Terms (Term.Nests stem)

namespace Frame

variable {δ : Type} {stem : String} {f g : Frame} {args : List Column} {op : Resolved}

/-- Everything in a frame nests aggregates. -/
structure Nests (stem : String) (f : Frame) : Prop where
  begins : f.source.options.temporaryAlias = stem
  source : ∀ t ∈ f.source.query.terms, t.Nests stem false
  columns : ∀ c ∈ f.columns, c.Nests stem

theorem nestedTerm_of_isPlain {c : Column} (h : isPlain c = true) : nestedTerm c = .ok c.term := by
  unfold isPlain at h
  unfold nestedTerm
  split at h
  · rename_i hplain
    rw [hplain]
  · cases h

/-- What is known of the terms that columns have inside of an aggregate is known of the operands of one. -/
theorem forall_nested {P : Bool → Term → Prop} (hargs : ∀ c ∈ args, c.Terms P) {terms : List Term}
    (h : args.mapM nestedTerm = .ok terms) : ∀ o ∈ args.zip terms, P true o.2 := by
  intro o ho
  obtain ⟨c, hc, hterm⟩ := exists_of_mem_mapM h (List.of_mem_zip ho).2
  exact (hargs c hc).nested _ hterm

namespace Nests

variable (hf : f.Nests stem)

include hf

theorem isSourceName : IsSourceName stem f.source.name := ⟨f.source.depth, hf.begins ▸ rfl⟩

theorem query : ∀ t ∈ f.query.terms, t.Nests stem false := by
  intro t ht
  rcases List.mem_append.1 ht with ht | ht
  · exact hf.source t ht
  · rw [List.append_nil, List.map_map] at ht
    obtain ⟨c, hc, rfl⟩ := List.mem_map.1 ht
    exact (hf.columns c hc).term

theorem column? {name : String} {c : Column} (h : f.column? name = some c) : c.Nests stem :=
  hf.columns c (ColumnSet.mem_columns h)

/-! ### Columns -/

omit hf in
theorem literal {v : Value} {c : Column} (h : f.literal v = .ok c) : c.Nests stem := by
  obtain rfl := literal_ok h
  exact ⟨trivial, fun t ht => Except.ok.inj ht ▸ trivial⟩

theorem globalize {c d : Column} (hc : c.Nests stem) (h : f.globalize c = .ok d) : d.Nests stem := by
  obtain ⟨-, ⟨-, rfl⟩ | ⟨-, rfl⟩⟩ := globalize_ok h
  · exact hc
  · have hterm : (Term.overSource c.term f.source.name).Nests stem true := ⟨hc.term, hf.isSourceName⟩
    exact ⟨hterm.anywhere false, fun t ht => Except.ok.inj ht ▸ hterm⟩

theorem append {c : Column} (hc : c.Nests stem) (h : f.append c = .ok g) : g.Nests stem := by
  obtain ⟨-, rfl⟩ := append_ok h
  refine ⟨hf.begins, hf.source, fun d hd => ?_⟩
  rcases List.mem_append.1 hd with hd | hd
  · exact hf.columns d hd
  · exact List.mem_singleton.1 hd ▸ ⟨hc.term, hc.nested⟩

theorem drop {name : String} {c : Column} (h : f.drop name = .ok (c, g)) : g.Nests stem := by
  have hsubset := drop_subset h
  obtain ⟨set, -, rfl⟩ := drop_ok h
  exact ⟨hf.begins, hf.source, fun e he => hf.columns e (hsubset he)⟩

/-- Inside of an aggregate, another one is a subquery. -/
theorem nestAggregate {aggregate : Term} (ha : aggregate.Nests stem false) {t : Term}
    (h : f.nestAggregate aggregate = .rewritten t) : t.Nests stem true := by
  unfold Frame.nestAggregate at h
  split at h
  · exact Nesting.rewritten.inj h ▸ ⟨ha, hf.isSourceName⟩
  · split at h
    · cases h
    · exact Nesting.rewritten.inj h ▸ ⟨ha, hf.isSourceName⟩

omit hf in
theorem nestAggregate_ne_plain (aggregate : Term) : f.nestAggregate aggregate ≠ .plain := by
  unfold Frame.nestAggregate
  split
  · simp
  · split <;> simp

end Nests

/-! ### Operations -/

section Requests

variable [Database δ] (hf : f.Nests stem) (hargs : ∀ c ∈ args, c.Nests stem)
  (hbuiltIn : op.operation ∈ Operation.builtIn)

include hargs hbuiltIn

/-- An aggregate is composed from the terms that its operands have inside of one. -/
theorem nests_executeScalar (hf : f.Nests stem) (hscalar : op.isScalar = true) (scope : Scope) :
    Work.partialResult.Holds (f.executeScalar op args scope : Work δ Column) (Column.Nests stem) := by
  unfold executeScalar
  split
  · exact Work.partialResult_throw
  · rename_i terms hterms
    have hoperands : ∀ o ∈ args.zip terms, o.2.Nests stem (false || op.isScalar) := by
      rw [hscalar, Bool.false_or]
      exact forall_nested hargs hterms
    refine Work.partialResult.bind (Compose.holds_nests hbuiltIn (fun _ => rfl) hoperands f.source) ?_
    intro composed hcomposed
    refine Work.partialResult.pure ⟨?_, fun t ht => ?_⟩
    · cases scope with
      | rows => exact hcomposed
      | groups => exact hcomposed
    · unfold nestedTerm at ht
      split at ht
      · rename_i hplain
        exact absurd hplain (Nests.nestAggregate_ne_plain _)
      · rename_i t' ht'
        exact Except.ok.inj ht ▸ hf.nestAggregate hcomposed ht'
      · cases ht

/-- What is no aggregate is composed twice, unless the terms of all operands may stand inside of aggregates. -/
theorem nests_executeRows (hscalar : op.isScalar = false) :
    Work.partialResult.Holds (f.executeRows op args : Work δ Column) (Column.Nests stem) := by
  have hnone : ∀ {inner}, op.isScalar = true → inner = false := by simp [hscalar]
  have hoperands : ∀ o ∈ args.map fun c => (c, c.term), o.2.Nests stem (args.all isPlain || op.isScalar) := by
    rw [List.forall_mem_map, hscalar, Bool.or_false]
    intro c hc
    cases hall : args.all isPlain with
    | true => exact (hargs c hc).nested _ (nestedTerm_of_isPlain (List.all_eq_true.1 hall c hc))
    | false => exact (hargs c hc).term
  unfold executeRows
  refine Work.partialResult.bind (Compose.holds_nests hbuiltIn hnone hoperands f.source) fun composed hcomposed => ?_
  have hterm : composed.term.Nests stem false := by
    rw [← Bool.false_or (args.all isPlain)] at hcomposed
    exact hcomposed.outside
  split
  · rename_i hall
    rw [hall] at hcomposed
    exact Work.partialResult.pure ⟨hterm, fun t ht => Except.ok.inj ht ▸ hcomposed⟩
  · split
    · exact Work.partialResult.pure ⟨hterm, fun t ht => by cases ht⟩
    · rename_i terms hterms
      have hnested : ∀ o ∈ args.zip terms, o.2.Nests stem (true || op.isScalar) := forall_nested hargs hterms
      refine Work.partialResult.bind (Compose.holds_nests hbuiltIn hnone hnested f.source) fun nested hnested => ?_
      exact Work.partialResult.pure ⟨hterm, fun t ht => Except.ok.inj ht ▸ hnested⟩

theorem nests_execute (hf : f.Nests stem) (scope : Scope) :
    Work.partialResult.Holds (f.execute op args scope : Work δ Column) (Column.Nests stem) := by
  unfold execute
  refine Work.partialResult.bind (Work.partialResult_any _) fun _ _ => ?_
  split
  · rename_i hscalar
    exact nests_executeScalar hargs hbuiltIn hf hscalar scope
  · rename_i hscalar
    exact nests_executeRows hargs hbuiltIn (by simpa using hscalar)

end Requests

/-! ### Rows and groups -/

theorem nests_ofOutputs {source : Source} (hstem : source.options.temporaryAlias = stem)
    (hsource : ∀ t ∈ source.query.terms, t.Nests stem false) (outputs : List Output) :
    (ofOutputs source outputs).Nests stem := by
  refine ⟨hstem, hsource, ?_⟩
  rw [columns_ofOutputs, List.forall_mem_map]
  exact fun o _ => ⟨trivial, fun t ht => Except.ok.inj ht ▸ trivial⟩

section Rearranged

variable (hf : f.Nests stem)

include hf

theorem nests_sort (ascending : Bool) (keys : List String) :
    Work.partialResult.Holds (f.sort ascending keys : Work δ Frame) (Nests stem) := by
  refine Work.partialResult.mono (holds_sort_derives f ascending keys) fun g hg => ?_
  obtain ⟨mark, order, outputs, rfl⟩ := hg
  refine nests_ofOutputs ?_ ?_ outputs
  · exact hf.begins
  · exact hf.query

/-- The frame that formulas inside of `by` are composed for. -/
theorem Nests.withKeys (keys : Option (List String)) : Nests stem { f with groupKeys := keys } :=
  ⟨hf.begins, hf.source, hf.columns⟩

theorem nests_group {reducers : List (Reducer (Work δ) Frame Column)}
    (hreducers : ∀ r ∈ reducers, ∀ g w : Frame, g.Nests stem → w.Nests stem →
      Work.partialResult.Holds (r.run g w) (Column.Nests stem)) (keys : List String) :
    Work.partialResult.Holds (f.group keys reducers) (Nests stem) := by
  have hgroup := holds_group_forall keys (P := Term.Nests stem false) (fun c hc => (hf.columns c hc).term) fun r hr =>
    Work.partialResult.mono (hreducers r hr _ f (hf.withKeys (some keys)) hf) fun c hc => hc.term
  refine Work.partialResult.mono hgroup fun g hg => ?_
  obtain ⟨fields, groupBy, ⟨mark, order, outputs, rfl⟩, hfields, hgroupBy⟩ := hg
  have hterms : ∀ t ∈ fields.map Field.term ++ groupBy, t.Nests stem false := by
    rw [List.forall_mem_append, List.forall_mem_map]
    exact ⟨hfields, hgroupBy⟩
  refine nests_ofOutputs ?_ ?_ outputs
  · exact hf.begins
  · exact List.forall_mem_append.2 ⟨hf.source, hterms⟩

end Rearranged

/-! ## Formulas -/

variable [Database δ]

/-- What formulas give over frames that nest aggregates does so too. -/
def nesting (stem : String) :
    (backend : Backend (Work δ) Frame Column).Contract (Work.partialResult.progress fun _ => trivial) where
  GoodFrame _ := Nests stem
  GoodResult _ := Nests stem
  GoodColumn _ := Column.Nests stem
  GoodText _ := True
  frameLater _ hf := hf
  columnLater _ hc := hc
  result hf := hf
  column? hf hc := hf.column? hc
  rename _ hc := ⟨hc.term, hc.nested⟩
  literal _ _ := Work.partialResult_lift fun _ hc => Nests.literal hc
  execute _ scope hbuiltIn hf hargs := nests_execute hargs hbuiltIn hf scope
  sort ascending keys hf := nests_sort hf ascending keys
  group keys hf hreducers := nests_group hf (fun r hr => hreducers r hr ()) keys
  globalize hf hc := Work.partialResult_lift fun _ hd => hf.globalize hc hd
  append hf hc := Work.partialResult_lift fun _ hg => hf.append hc hg
  values _ := Work.partialResult_any _

theorem nests_evaluate (hf : f.Nests stem) (text : String) :
    Work.partialResult.Holds (f.evaluate text : Work δ _) fun r => (nesting (δ := δ) stem).GoodOutcome () r.outcome :=
  (nesting stem).holds_evaluate (s := ()) hf fun _ _ _ _ => trivial

theorem nests_assign (hf : f.Nests stem) (text : String) :
    Work.partialResult.Holds (f.assign text : Work δ _) fun r => r.1.Nests stem ∧
      ∀ result, r.2 = some result → (nesting (δ := δ) stem).GoodOutcome () result.outcome :=
  (nesting stem).holds_assign (s := ()) hf fun _ _ _ _ => trivial

/-! ## Frames that are built -/

variable (δ) in
/-- Frames over a statement, a table or loaded cells, and what assigning, evaluating, dropping, sorting and grouping
    make of them. -/
inductive Built : Frame → Prop
  | ofStatement {dialect : Dialect} {text : String} {options : Options} {session : Session δ} {f : Frame}
      (h : (ofQuery dialect (.statement text) options session).1 = .ok f) : Built f
  | ofTable {dialect : Dialect} {table : String} {options : Options} {session : Session δ} {f : Frame}
      (h : (ofTable dialect table options session).1 = .ok f) : Built f
  | load {dialect : Dialect} {table : String} {frame : Memory.Frame} {session : Session δ} {f : Frame}
      (h : (load dialect table frame session).1 = .ok f) : Built f
  | assign {f g : Frame} {text : String} {session : Session δ} {result : Option (Evaluated Frame Column)}
      (hf : Built f) (h : (f.assign text session).1 = .ok (g, result)) : Built g
  | evaluate {f g : Frame} {text : String} {session : Session δ} {result : Evaluated Frame Column} (hf : Built f)
      (h : (f.evaluate text session).1 = .ok result) (hg : result.outcome = .frame g) : Built g
  | drop {f g : Frame} {name : String} {c : Column} (hf : Built f) (h : f.drop name = .ok (c, g)) : Built g
  | sort {f g : Frame} {ascending : Bool} {keys : List String} {session : Session δ} (hf : Built f)
      (h : (f.sort ascending keys session).1 = .ok g) : Built g
  | group {f g : Frame} {keys : List String} {formulas : List (String × Expr)} {session : Session δ} (hf : Built f)
      (h : (f.group keys (formulas.map backend.reducer) session).1 = .ok g) : Built g

theorem nests_ofQuery {query : Query} (hquery : query.terms = []) (dialect : Dialect) (options : Options) :
    Work.partialResult.Holds (ofQuery dialect query options : Work δ Frame) (Nests options.temporaryAlias) := by
  refine Work.partialResult.bind (Work.partialResult_any _) fun _ _ => ?_
  refine Work.partialResult.bind (Work.partialResult_any _) fun _ _ => Work.partialResult.pure ?_
  refine nests_ofOutputs ?_ ?_ _
  · rfl
  · rw [hquery]
    exact List.forall_mem_nil _

omit [Database δ] in
theorem Nests.withCategories (hf : f.Nests stem) (c : Memory.Column) : (f.withCategories c).Nests stem := by
  have hsource := source_withCategories f c
  refine ⟨hsource ▸ hf.begins, hsource ▸ hf.source, fun d hd => ?_⟩
  have hterms : (d.term, nestedTerm d) ∈ f.columns.map fun e => (e.term, nestedTerm e) := by
    rw [← map_withCategories (fun _ _ => rfl) f c]
    exact List.mem_map_of_mem hd
  obtain ⟨e, he, heq⟩ := List.mem_map.1 hterms
  obtain ⟨hterm, hnested⟩ := Prod.mk.inj heq
  exact ⟨hterm ▸ (hf.columns e he).term, fun t ht => (hf.columns e he).nested t (hnested.trans ht)⟩

theorem nests_load (d : Dialect) (table : String) (frame : Memory.Frame) :
    Work.partialResult.Holds (load d table frame : Work δ Frame) (Nests frame.options.temporaryAlias) :=
  holds_load_of (fun _ c hf => hf.withCategories c) (nests_ofQuery rfl d frame.options)

/-- Built frames nest aggregates. -/
theorem Built.nests (h : f.Built δ) : f.Nests f.source.options.temporaryAlias := by
  suffices ∃ stem, f.Nests stem by
    obtain ⟨stem, hf⟩ := this
    exact hf.begins ▸ hf
  induction h with
  | ofStatement h => exact ⟨_, Work.partialResult_iff.1 (nests_ofQuery rfl _ _) _ _ h⟩
  | ofTable h => exact ⟨_, Work.partialResult_iff.1 (nests_ofQuery rfl _ _) _ _ h⟩
  | load h => exact ⟨_, Work.partialResult_iff.1 (nests_load _ _ _) _ _ h⟩
  | assign hf h ih =>
    obtain ⟨stem, hf⟩ := ih
    exact ⟨stem, (Work.partialResult_iff.1 (nests_assign hf _) _ _ h).1⟩
  | evaluate hf h hg ih =>
    obtain ⟨stem, hf⟩ := ih
    have hgood := Work.partialResult_iff.1 (nests_evaluate hf _) _ _ h
    rw [hg] at hgood
    exact ⟨stem, hgood⟩
  | drop hf h ih =>
    obtain ⟨stem, hf⟩ := ih
    exact ⟨stem, hf.drop h⟩
  | sort hf h ih =>
    obtain ⟨stem, hf⟩ := ih
    exact ⟨stem, Work.partialResult_iff.1 (nests_sort hf _ _) _ _ h⟩
  | group hf h ih =>
    obtain ⟨stem, hf⟩ := ih
    refine ⟨stem, Work.partialResult_iff.1 (nests_group hf ?_ _) _ _ h⟩
    rw [List.forall_mem_map]
    exact fun named _ g w hg hw => (nesting stem).goodReducer (fun _ _ => trivial) () g w hg hw

/-- What is composed over a frame has a property that depends on whether it stands inside of an aggregate: the terms
    of its statement, those of its columns, and those of the columns that formulas give over it, also inside of `by`. -/
structure Composes (δ : Type) [Database δ] (P : Bool → Term → Prop) (f : Frame) : Prop where
  statement : ∀ t ∈ f.query.terms, P false t
  columns : ∀ c ∈ f.columns, c.Terms P
  formulas : ∀ (e : Expr) (scope : Scope) (keys : Option (List String)) (session : Session δ) (c : Column),
    (backend.eval e scope { f with groupKeys := keys } f session).1 = .ok (.column c) → c.Terms P

theorem Composes.imp {P Q : Bool → Term → Prop} (h : f.Composes δ P) (himp : ∀ inner t, P inner t → Q inner t) :
    f.Composes δ Q := by
  have hterms : ∀ c : Column, c.Terms P → c.Terms Q := fun c hc =>
    ⟨himp false _ hc.term, fun t ht => himp true t (hc.nested t ht)⟩
  refine ⟨fun t ht => himp false t (h.statement t ht), fun c hc => hterms c (h.columns c hc), ?_⟩
  exact fun e scope keys session c hc => hterms c (h.formulas e scope keys session c hc)

theorem Nests.composes (hf : f.Nests stem) : f.Composes δ (Term.Nests stem) where
  statement := hf.query
  columns := hf.columns
  formulas e scope keys session c h := by
    have hgives : (nesting (δ := δ) stem).Gives e := (nesting stem).gives fun _ _ => trivial
    exact Work.partialResult_iff.1 (hgives (s := ()) (hf.withKeys keys) hf) _ _ h

end Frame

end Tabular.Sql
