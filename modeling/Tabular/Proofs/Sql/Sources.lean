-- SUMMARY: The sources that terms read: operations add none, so a term over operands reads what these read.
import Tabular.Proofs.Sql.Work
import Tabular.Sql.Compose

/-!
# Sources of terms

A subquery in a term reads a source by its name. Only subqueries do, and operations compose none: what they give is
built over the terms of their operands, with literals, conversions, comparisons, choices and calls around them. So it
reads no source that none of the operands reads.

A query is closed if every subquery in its fields and keys reads the source that the query itself gives a name to, and
that source is closed again.
-/

namespace Tabular.Sql

/-! ## Terms -/

mutual

/-- The names behind `FROM` in the text of the term, from the inside of subqueries to the outside. -/
def Term.sources : Term → List String
  | .column _ => []
  | .literal _ => []
  | .convert _ operand => operand.sources
  | .compare _ left right => left.sources ++ right.sources
  | .case conditions values otherwise => Term.sourcesOf conditions ++ Term.sourcesOf values ++ otherwise.sources
  | .call _ args => Term.sourcesOf args
  | .rowNumber _ => []
  | .quantile operand _ => operand.sources
  | .broadcast aggregate => aggregate.sources
  | .overSource aggregate source => aggregate.sources ++ [source]
  | .overGroup aggregate source _ => aggregate.sources ++ [source]

def Term.sourcesOf : List Term → List String
  | [] => []
  | term :: more => term.sources ++ Term.sourcesOf more

end

theorem Term.mem_sourcesOf {terms : List Term} {name : String} :
    name ∈ Term.sourcesOf terms ↔ ∃ t ∈ terms, name ∈ t.sources := by
  induction terms with
  | nil => simp [sourcesOf]
  | cons term more ih => rw [sourcesOf, List.mem_append, ih, List.exists_mem_cons_iff]

/-- Every subquery of the term is over the source of the name. -/
def Term.ReadsOnly (name : String) (t : Term) : Prop := ∀ source ∈ t.sources, source = name

theorem Term.readsOnly_column (name column : String) : (Term.column column).ReadsOnly name := List.forall_mem_nil _

theorem Term.readsOnly_literal (name : String) (v : Value) : (Term.literal v).ReadsOnly name := List.forall_mem_nil _

/-- A subquery over the source of the name, whose inside reads no other one. -/
theorem Term.ReadsOnly.subquery {name : String} {aggregate t : Term} (h : aggregate.ReadsOnly name)
    (ht : t.sources = aggregate.sources ++ [name]) : t.ReadsOnly name := by
  intro source hsource
  rw [ht, List.mem_append, List.mem_singleton] at hsource
  exact hsource.elim (h source) id

/-! ## Terms over others -/

/-- The term is built of given terms without subqueries around them. -/
inductive Term.Over (Given : Term → Prop) : Term → Prop
  | given {t : Term} (h : Given t) : Over Given t
  | literal (v : Value) : Over Given (.literal v)
  | convert (how : Conversion) {operand : Term} (h : Over Given operand) : Over Given (.convert how operand)
  | compare (how : Comparison) {left right : Term} (hleft : Over Given left) (hright : Over Given right) :
      Over Given (.compare how left right)
  | case {conditions values : List Term} {otherwise : Term} (hconditions : ∀ t ∈ conditions, Over Given t)
      (hvalues : ∀ t ∈ values, Over Given t) (hotherwise : Over Given otherwise) :
      Over Given (.case conditions values otherwise)
  | call (function : Function) {args : List Term} (h : ∀ t ∈ args, Over Given t) : Over Given (.call function args)
  | rowNumber (order : Option SortOrder) : Over Given (.rowNumber order)
  | quantile {operand : Term} (h : Over Given operand) (level : Float) : Over Given (.quantile operand level)

/-- What is built over terms reads the sources that these read. -/
theorem Term.Over.readsOnly {Given : Term → Prop} {name : String} (hgiven : ∀ t, Given t → t.ReadsOnly name) {t : Term}
    (h : t.Over Given) : t.ReadsOnly name := by
  induction h with
  | given h => exact hgiven _ h
  | literal v => exact readsOnly_literal name v
  | convert how h ih => exact ih
  | compare how hleft hright ihleft ihright => exact List.forall_mem_append.2 ⟨ihleft, ihright⟩
  | case hconditions hvalues hotherwise ihconditions ihvalues ihotherwise =>
    have hall : ∀ {terms : List Term}, (∀ t ∈ terms, t.ReadsOnly name) → ∀ source ∈ sourcesOf terms, source = name :=
      fun h source hsource => by
        obtain ⟨t, ht, hsource⟩ := mem_sourcesOf.1 hsource
        exact h t ht source hsource
    exact List.forall_mem_append.2 ⟨List.forall_mem_append.2 ⟨hall ihconditions, hall ihvalues⟩, ihotherwise⟩
  | call function h ih =>
    intro source hsource
    obtain ⟨t, ht, hsource⟩ := mem_sourcesOf.1 hsource
    exact ih t ht source hsource
  | rowNumber order => exact List.forall_mem_nil _
  | quantile h level ih => exact ih

/-! ## Operations -/

namespace Compose

variable {operands : List Operand}

/-- The term is built over the terms of operands. -/
abbrev OverOperands (operands : List Operand) (t : Term) : Prop := t.Over fun given => ∃ o ∈ operands, o.2 = given

theorem over_operand {name : String} {index : Nat} {o : Operand} (h : operand name operands index = .ok o) :
    OverOperands operands o.2 := by
  unfold operand at h
  split at h
  · rename_i found hfound
    exact .given ⟨o, Except.ok.inj h ▸ List.mem_of_getElem? hfound, rfl⟩
  · cases h

theorem over_encode {raw : Term} (h : OverOperands operands raw) (map : CategoryMap) (default : Int64) :
    OverOperands operands (encode raw map default) := by
  refine .case ?_ ?_ (.literal _)
  · rw [List.forall_mem_map]
    exact fun _ _ => .compare _ h (.literal _)
  · rw [List.forall_mem_map]
    exact fun _ _ => .literal _

theorem over_convert {d : Dialect} {source target : DataType} {raw term : Term} (hraw : OverOperands operands raw)
    (h : convert d raw source target = .ok term) : OverOperands operands term := by
  obtain ⟨how, -, h⟩ := bind_eq_ok.1 h
  split at h
  · exact Except.ok.inj h ▸ hraw
  · exact Except.ok.inj h ▸ .convert _ hraw

theorem over_call {d : Dialect} {name : String} {terms : List Term} (hterms : ∀ t ∈ terms, OverOperands operands t)
    {term : Term} (h : call d name terms = .ok term) : OverOperands operands term := by
  obtain ⟨f, -, h⟩ := bind_eq_ok.1 h
  exact Except.ok.inj h ▸ .call f hterms

theorem over_cast {d : Dialect} {composed : Composed} (h : cast d operands = .ok composed) :
    OverOperands operands composed.term := by
  obtain ⟨_, -, h⟩ := bind_eq_ok.1 h
  obtain ⟨_, -, h⟩ := bind_eq_ok.1 h
  obtain ⟨value, hvalue, h⟩ := bind_eq_ok.1 h
  obtain ⟨term, hterm, h⟩ := bind_eq_ok.1 h
  exact Except.ok.inj h ▸ over_convert (over_operand hvalue) hterm

theorem over_applyCategories {composed : Composed} (h : applyCategories operands = .ok composed) :
    OverOperands operands composed.term := by
  obtain ⟨raw, hraw, h⟩ := bind_eq_ok.1 h
  obtain ⟨categorical, -, h⟩ := bind_eq_ok.1 h
  dsimp only at h
  split at h
  · cases h
  · obtain ⟨-, h⟩ := guard_eq_ok.1 h
    obtain ⟨_, -, h⟩ := bind_eq_ok.1 h
    split at h
    · cases h
    · obtain ⟨code, -, h⟩ := bind_eq_ok.1 h
      exact Except.ok.inj h ▸ over_encode (over_operand hraw) _ code

theorem over_plain {s : Source} {op : Resolved} {term : Term} (h : plain s op operands = .ok term) :
    OverOperands operands term := by
  have hterms : ∀ t ∈ operands.map (·.2), OverOperands operands t := by
    rw [List.forall_mem_map]
    exact fun o ho => .given ⟨o, ho, rfl⟩
  have hfloats : ∀ terms, floats s.dialect operands = .ok terms → ∀ t ∈ terms, OverOperands operands t :=
    fun terms hterms t ht => by
      obtain ⟨o, ho, hconvert⟩ := exists_of_mem_mapM hterms ht
      exact over_convert (.given ⟨o, ho, rfl⟩) hconvert
  unfold plain at h
  split at h
  · exact Except.ok.inj h ▸ .rowNumber _
  · obtain ⟨terms, hcells, h⟩ := bind_eq_ok.1 h
    exact over_call (hfloats terms hcells) h
  · obtain ⟨terms, hcells, h⟩ := bind_eq_ok.1 h
    exact over_call (hfloats terms hcells) h
  · exact over_call hterms h
  · obtain ⟨condition, hcondition, h⟩ := bind_eq_ok.1 h
    obtain ⟨consequence, hconsequence, h⟩ := bind_eq_ok.1 h
    obtain ⟨alternative, halternative, h⟩ := bind_eq_ok.1 h
    refine Except.ok.inj h ▸ .case ?_ ?_ (over_operand halternative)
    · exact List.forall_mem_singleton.2 (.compare _ (over_operand hcondition) (.literal _))
    · exact List.forall_mem_singleton.2 (over_operand hconsequence)
  · obtain ⟨_, -, h⟩ := bind_eq_ok.1 h
    obtain ⟨level, -, h⟩ := bind_eq_ok.1 h
    obtain ⟨value, hvalue, h⟩ := bind_eq_ok.1 h
    obtain ⟨_, -, h⟩ := bind_eq_ok.1 h
    exact Except.ok.inj h ▸ .quantile (over_operand hvalue) level
  · split at h
    · obtain ⟨left, hleft, h⟩ := bind_eq_ok.1 h
      obtain ⟨right, hright, h⟩ := bind_eq_ok.1 h
      obtain ⟨how, -, h⟩ := bind_eq_ok.1 h
      exact Except.ok.inj h ▸ .compare how (over_operand hleft) (over_operand hright)
    · exact over_call hterms h

/-- An operation is composed over the terms of its operands. -/
theorem holds_over {δ : Type} [Database δ] (s : Source) (op : Resolved) (operands : List Operand) :
    Work.partialResult.Holds (operation s op operands : Work δ Composed) fun composed =>
      OverOperands operands composed.term := by
  unfold operation
  split
  · exact Work.partialResult_lift fun _ h => over_cast h
  · unfold categorize
    split
    · exact Work.partialResult_throw
    · refine Work.partialResult.bind (Work.partialResult_any _) fun _ _ => ?_
      refine Work.partialResult.bind (Work.partialResult_any _) fun _ _ => ?_
      refine Work.partialResult.bind (Work.partialResult_any _) fun built _ => Work.partialResult.pure ?_
      exact over_encode (.given ⟨_, List.mem_cons_self, rfl⟩) built.1 _
  · exact Work.partialResult_lift fun _ h => over_applyCategories h
  · have hplain : ∀ term, plain s op operands = .ok term → OverOperands operands term := fun _ => over_plain
    exact Work.partialResult.bind (Work.partialResult_lift hplain) fun _ h => Work.partialResult.pure h

/-- Operations read the source that their operands read. -/
theorem holds_readsOnly {δ : Type} [Database δ] {name : String} (s : Source) (op : Resolved)
    (h : ∀ o ∈ operands, o.2.ReadsOnly name) :
    Work.partialResult.Holds (operation s op operands : Work δ Composed) fun composed =>
      composed.term.ReadsOnly name := by
  refine Work.partialResult.mono (holds_over s op operands) fun composed hover => hover.readsOnly fun t ht => ?_
  obtain ⟨o, ho, rfl⟩ := ht
  exact h o ho

end Compose

/-! ## Queries -/

/-- Every subquery in the statement, and in those that it selects from, reads the source of the statement it is in. -/
def Query.Closed : Query → Prop
  | .select name source fields groupBy _ =>
    source.Closed ∧ (∀ field ∈ fields, field.term.ReadsOnly name) ∧ ∀ t ∈ groupBy, t.ReadsOnly name
  | _ => True

/-- The names that a statement gives to sources, from the outside to the inside. -/
def Query.aliases : Query → List String
  | .select name source _ _ _ => name :: source.aliases
  | _ => []

end Tabular.Sql
