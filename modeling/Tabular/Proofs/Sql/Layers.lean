-- SUMMARY: Every level of a statement has a name of its own, and subqueries read the level that they are on.
import Mathlib.Data.List.Nodup
import Std.Data.String.ToNat
import Tabular.Proofs.Sql.Froms
import Tabular.Proofs.Sql.Order

/-!
# Layers of statements

Sorting and grouping put a layer on a frame: the statement composed so far becomes the source of the next one, which
gives it a name. The name ends with the number of layers below, so the names along a statement differ from each other,
and from the names that sources have inside of subqueries over one of their groups.

Terms of columns are kept and used again as long as no layer is put on them. Then only names of output columns remain,
so a subquery never stands in a statement other than the one whose source it was composed over.
-/

namespace Tabular.Sql

/-! ## Names of sources -/

/-- The name of the source over a number of layers. -/
def sourceName (stem : String) (depth : Nat) : String := stem ++ toString depth

theorem sourceName_inj {stem : String} {i j : Nat} : sourceName stem i = sourceName stem j ↔ i = j := by
  rw [sourceName, sourceName, String.append_right_inj]
  exact Nat.repr_inj

/-- The name of a source ends with a digit. -/
theorem sourceName_ne_groupAlias (stem : String) (i j : Nat) :
    sourceName stem i ≠ Spelling.groupAlias (sourceName stem j) := by
  intro h
  have hlast : 'g' ∈ (Nat.toDigits 10 i).getLast? := by
    have hlast := congrArg (fun text => text.toList.getLast?) h
    have hdigits : (toString i).toList = Nat.toDigits 10 i := Nat.toList_repr
    have hne : Nat.toDigits 10 i ≠ [] := Nat.toDigits_ne_nil
    simpa [sourceName, Spelling.groupAlias, hdigits, List.getLast?_append_of_ne_nil _ hne] using hlast
  have hdigit := Nat.isDigit_of_mem_toDigits (by decide) (by decide) (List.mem_of_mem_getLast? hlast)
  exact absurd hdigit (by decide)

theorem isSourceWord_sourceName {stem : String} (h : isName stem.toList = true) (depth : Nat) :
    IsSourceWord (sourceName stem depth) := by
  constructor
  · have hdigits : (toString depth).toList = Nat.toDigits 10 depth := Nat.toList_repr
    rw [sourceName, String.toList_append, List.forall_mem_append, hdigits]
    refine ⟨fun c hc => ?_, fun c hc => ?_⟩
    · exact not_contains_of_class (by decide) (forall_isNamePart_of_isName h c hc)
    · exact not_contains_of_class (by decide) (isNumeric_toDigits depth c hc)
  · have hne := ne_nil_of_isName h
    simp_all [sourceName]

/-- The name of a source, and the one that it has inside of a subquery over one of its groups. -/
def namesAt (stem : String) (depth : Nat) : List String :=
  [sourceName stem depth, Spelling.groupAlias (sourceName stem depth)]

/-- The names of the first levels differ from each other. -/
theorem nodup_namesAt (stem : String) (levels : Nat) : ((List.range levels).flatMap (namesAt stem)).Nodup := by
  refine List.nodup_flatMap.2 ⟨fun i _ => ?_, ?_⟩
  · simpa [namesAt] using sourceName_ne_groupAlias stem i i
  · refine List.nodup_range.imp fun {i j} hij => ?_
    have hne : sourceName stem i ≠ sourceName stem j := sourceName_inj.not.2 hij
    have hinside : Spelling.groupAlias (sourceName stem i) ≠ Spelling.groupAlias (sourceName stem j) :=
      (String.append_left_inj _).not.2 hne
    have hleft := sourceName_ne_groupAlias stem i j
    have hright := (sourceName_ne_groupAlias stem j i).symm
    simp [namesAt, Function.onFun, hne.symm, hinside.symm, hleft.symm, hright.symm]

/-! ## Columns over one source -/

/-- The column is over the source, and all that it selects, inside of an aggregate or not, reads no other one. -/
structure Column.Within (s : Source) (c : Column) : Prop where
  source : c.source = s
  terms : c.Terms fun _ => Term.ReadsOnly s.name

/-- The text of all that the column selects, inside of an aggregate or not, has the source of the column behind every
    `FROM`. -/
theorem Column.Within.finds {s : Source} {c : Column} (hc : c.Within s) (hword : IsSourceWord s.name) (d : Dialect) :
    c.Terms fun _ t => Finds (· = s.name) (t.text d) := by
  have hfinds : ∀ {t : Term}, t.ReadsOnly s.name → Finds (· = s.name) (t.text d) := fun ht =>
    Term.finds d fun source hsource => ⟨ht source hsource ▸ hword, ht source hsource⟩
  exact ⟨hfinds hc.terms.term, fun t ht => hfinds (hc.terms.nested t ht)⟩

namespace Frame

variable {δ : Type} {f g : Frame}

/-- The columns of the frame are within its source, and its source is closed. -/
structure Hygienic (f : Frame) : Prop where
  statement : f.source.query.Closed
  columns : ∀ c ∈ f.columns, c.Within f.source

theorem Hygienic.closed (hf : f.Hygienic) : f.query.Closed := by
  refine ⟨hf.statement, ?_, List.forall_mem_nil _⟩
  rw [List.forall_mem_map]
  exact fun c hc => (hf.columns c hc).terms.term

theorem Hygienic.column? (hf : f.Hygienic) {name : String} {c : Column} (h : f.column? name = some c) :
    c.Within f.source :=
  hf.columns c (ColumnSet.mem_columns h)

/-- Output columns of a source read it without subqueries. -/
theorem hygienic_ofOutputs {source : Source} (h : source.query.Closed) (outputs : List Output) :
    (ofOutputs source outputs).Hygienic := by
  refine ⟨h, ?_⟩
  rw [columns_ofOutputs, List.forall_mem_map]
  have hcolumn : ∀ name, (Term.column name).ReadsOnly source.name := Term.readsOnly_column source.name
  exact fun o _ => ⟨rfl, hcolumn o.name, fun t ht => Except.ok.inj ht ▸ hcolumn o.name⟩

theorem Hygienic.append (hf : f.Hygienic) {c : Column} (hc : c.Within f.source) (h : f.append c = .ok g) :
    g.Hygienic := by
  obtain ⟨hsource, hcolumns⟩ := append_source h
  refine ⟨hsource ▸ hf.statement, ?_⟩
  rw [hsource, hcolumns, List.forall_mem_append, List.forall_mem_singleton]
  exact ⟨hf.columns, hc.source, hc.terms.term, hc.terms.nested⟩

theorem Hygienic.drop (hf : f.Hygienic) {name : String} {c : Column} (h : f.drop name = .ok (c, g)) :
    g.Hygienic := by
  obtain ⟨hsource, hcolumns⟩ := drop_source h
  exact ⟨hsource ▸ hf.statement, fun e he => hsource ▸ hf.columns e (hcolumns he)⟩

/-! ## Operations -/

theorem within_literal {v : Value} {c : Column} (h : f.literal v = .ok c) : c.Within f.source := by
  obtain rfl := literal_ok h
  have hreads := Term.readsOnly_literal f.source.name v
  exact ⟨rfl, hreads, fun t ht => Except.ok.inj ht ▸ hreads⟩

theorem within_globalize {c e : Column} (hc : c.Within f.source) (h : f.globalize c = .ok e) : e.Within f.source := by
  obtain ⟨-, ⟨-, rfl⟩ | ⟨-, rfl⟩⟩ := globalize_ok h
  · exact hc
  · have hreads : (Term.overSource c.term f.source.name).ReadsOnly f.source.name := hc.terms.term.subquery rfl
    exact ⟨hc.source, hreads, fun t ht => Except.ok.inj ht ▸ hreads⟩

/-- An aggregate becomes a subquery over the source of the frame. -/
theorem readsOnly_nestAggregate {aggregate t : Term} (ha : aggregate.ReadsOnly f.source.name)
    (h : f.nestAggregate aggregate = .rewritten t) : t.ReadsOnly f.source.name := by
  unfold nestAggregate at h
  split at h
  · exact ha.subquery (Nesting.rewritten.inj h ▸ rfl)
  · split at h
    · cases h
    · exact ha.subquery (Nesting.rewritten.inj h ▸ rfl)

section Requests

variable [Database δ] {op : Resolved} {args : List Column}

theorem readsOnly_executeScalar (hargs : ∀ c ∈ args, c.Within f.source) (scope : Scope) :
    Work.partialResult.Holds (f.executeScalar op args scope : Work δ Column) fun c =>
      c.Terms fun _ => Term.ReadsOnly f.source.name := by
  unfold executeScalar
  split
  · exact Work.partialResult_throw
  · rename_i terms hterms
    have hoperands := forall_nested (fun c hc => (hargs c hc).terms) hterms
    refine Work.partialResult.bind (Compose.holds_readsOnly f.source op hoperands) fun composed hcomposed => ?_
    refine Work.partialResult.pure ⟨?_, fun t ht => ?_⟩
    · cases scope with
      | rows => exact hcomposed
      | groups => exact hcomposed
    · unfold nestedTerm at ht
      split at ht
      · rename_i hplain
        exact absurd hplain (Nests.nestAggregate_ne_plain _)
      · rename_i t' ht'
        exact Except.ok.inj ht ▸ readsOnly_nestAggregate hcomposed ht'
      · cases ht

theorem readsOnly_executeRows (hargs : ∀ c ∈ args, c.Within f.source) :
    Work.partialResult.Holds (f.executeRows op args : Work δ Column) fun c =>
      c.Terms fun _ => Term.ReadsOnly f.source.name := by
  have hoperands : ∀ o ∈ args.map fun c => (c, c.term), o.2.ReadsOnly f.source.name := by
    rw [List.forall_mem_map]
    exact fun c hc => (hargs c hc).terms.term
  unfold executeRows
  refine Work.partialResult.bind (Compose.holds_readsOnly f.source op hoperands) fun composed hcomposed => ?_
  split
  · exact Work.partialResult.pure ⟨hcomposed, fun t ht => Except.ok.inj ht ▸ hcomposed⟩
  · split
    · exact Work.partialResult.pure ⟨hcomposed, fun t ht => by cases ht⟩
    · rename_i terms hterms
      have hnested := forall_nested (fun c hc => (hargs c hc).terms) hterms
      refine Work.partialResult.bind (Compose.holds_readsOnly f.source op hnested) fun nested hnested => ?_
      exact Work.partialResult.pure ⟨hcomposed, fun t ht => Except.ok.inj ht ▸ hnested⟩

theorem within_execute (hargs : ∀ c ∈ args, c.Within f.source) (scope : Scope) :
    Work.partialResult.Holds (f.execute op args scope : Work δ Column) (Column.Within f.source) := by
  have hterms : Work.partialResult.Holds (f.execute op args scope : Work δ Column) fun c =>
      c.Terms fun _ => Term.ReadsOnly f.source.name := by
    unfold execute
    refine Work.partialResult.bind (Work.partialResult_any _) fun _ _ => ?_
    split
    · exact readsOnly_executeScalar hargs scope
    · exact readsOnly_executeRows hargs
  have hsource := source_execute (δ := δ) f op args scope
  rw [Work.partialResult_iff] at hsource hterms ⊢
  exact fun session c hc => ⟨hsource session c hc, hterms session c hc⟩

end Requests

/-! ## New sources -/

theorem DerivesFrom.hygienic {s : Source} {query : Query} (h : g.DerivesFrom s query) (hquery : query.Closed) :
    g.Hygienic := by
  obtain ⟨mark, order, outputs, rfl⟩ := h
  exact hygienic_ofOutputs hquery outputs

theorem Hygienic.holds_sort (hf : f.Hygienic) (ascending : Bool) (keys : List String) :
    Work.partialResult.Holds (f.sort ascending keys : Work δ Frame) Hygienic :=
  Work.partialResult.mono (holds_sort_derives f ascending keys) fun _ hg => hg.hygienic hf.closed

theorem Hygienic.holds_group (hf : f.Hygienic) {keys : List String} {reducers : List (Reducer (Work δ) Frame Column)}
    (h : ∀ r ∈ reducers, Work.partialResult.Holds (r.run { f with groupKeys := some keys } f)
      (Column.Within f.source)) :
    Work.partialResult.Holds (f.group keys reducers) Hygienic := by
  have hgroup := holds_group_forall keys (P := Term.ReadsOnly f.source.name) (fun c hc => (hf.columns c hc).terms.term)
    fun r hr => Work.partialResult.mono (h r hr) fun c hc => hc.terms.term
  refine Work.partialResult.mono hgroup fun g hg => ?_
  obtain ⟨fields, groupBy, hderives, hfields, hgroupBy⟩ := hg
  exact hderives.hygienic ⟨hf.statement, hfields, hgroupBy⟩

/-- The frame that formulas inside of `by` are composed for. -/
theorem Hygienic.withKeys (hf : f.Hygienic) (keys : Option (List String)) : Hygienic { f with groupKeys := keys } :=
  ⟨hf.statement, hf.columns⟩

variable [Database δ]

/-- Formulas over a frame give columns within its source, and frames that are hygienic again. -/
def scoping (s : Source) :
    (backend : Backend (Work δ) Frame Column).Contract (Work.partialResult.progress fun _ => trivial) where
  GoodFrame _ f := f.source = s ∧ f.Hygienic
  GoodResult _ := Hygienic
  GoodColumn _ := Column.Within s
  GoodText _ := True
  frameLater _ hf := hf
  columnLater _ hc := hc
  result hf := hf.2
  column? := by
    rintro _ f name c ⟨rfl, hf⟩ hc
    exact hf.column? hc
  rename _ hc := ⟨hc.source, hc.terms.term, hc.terms.nested⟩
  literal := by
    rintro _ f v ⟨rfl, hf⟩ -
    exact Work.partialResult_lift fun _ => within_literal
  execute := by
    rintro _ f args op scope - ⟨rfl, hf⟩ hargs
    exact within_execute hargs scope
  sort := by
    rintro _ f ascending keys ⟨rfl, hf⟩
    exact hf.holds_sort ascending keys
  group := by
    rintro _ f reducers keys ⟨rfl, hf⟩ hreducers
    exact hf.holds_group fun r hr => hreducers r hr () _ f ⟨rfl, hf.withKeys _⟩ ⟨rfl, hf⟩
  globalize := by
    rintro _ f c ⟨rfl, hf⟩ hc
    exact Work.partialResult_lift fun _ => within_globalize hc
  append := by
    rintro _ f c ⟨rfl, hf⟩ hc
    exact Work.partialResult_lift fun _ => hf.append hc
  values _ := Work.partialResult_any _

variable (δ) in
/-- Columns that are stored in a frame, or that formulas and their parts give over it, inside of `by` too. -/
inductive Offers (f : Frame) : Column → Prop
  | stored {c : Column} (h : c ∈ f.columns) : Offers f c
  | formula {text : String} {session after : Session δ} {result : Evaluated Frame Column} {c : Column}
      (h : f.Gives text session result after) (hc : result.outcome = .column c) : Offers f c
  | part {e : Expr} {scope : Scope} {keys : Option (List String)} {session : Session δ} {c : Column}
      (h : (backend.eval e scope { f with groupKeys := keys } f session).1 = .ok (.column c)) : Offers f c

section Formulas

variable (hf : f.Hygienic)

include hf

theorem Hygienic.gives {text : String} {session after : Session δ} {result : Evaluated Frame Column}
    (h : f.Gives text session result after) : (scoping (δ := δ) f.source).GoodOutcome () result.outcome := by
  rcases h with h | ⟨g, h⟩
  · exact Work.partialResult_iff.1 ((scoping f.source).holds_evaluate (s := ()) ⟨rfl, hf⟩ fun _ _ _ _ => trivial) _ _
      (congrArg Prod.fst h)
  · exact (Work.partialResult_iff.1 ((scoping f.source).holds_assign (s := ()) ⟨rfl, hf⟩ fun _ _ _ _ => trivial) _ _
      (congrArg Prod.fst h)).2 _ rfl

theorem Hygienic.assign {text : String} {session : Session δ} {result : Option (Evaluated Frame Column)}
    (h : (f.assign text session).1 = .ok (g, result)) : g.Hygienic :=
  (Work.partialResult_iff.1 ((scoping f.source).holds_assign (s := ()) ⟨rfl, hf⟩ fun _ _ _ _ => trivial) _ _ h).1

/-- Whatever is stored or given over a hygienic frame reads its source only. -/
theorem Hygienic.within {c : Column} (h : f.Offers δ c) : c.Within f.source := by
  cases h with
  | stored h => exact hf.columns c h
  | formula h hc =>
    have hgood := hf.gives h
    rwa [hc] at hgood
  | @part e scope keys session c h =>
    have hgives : (scoping (δ := δ) f.source).Gives e := (scoping f.source).gives fun _ _ => trivial
    have hgroups : (scoping (δ := δ) f.source).GoodFrame () { f with groupKeys := keys } := ⟨rfl, hf.withKeys keys⟩
    exact Work.partialResult_iff.1 (hgives (s := ()) hgroups ⟨rfl, hf⟩) _ _ h

end Formulas

/-! ## Layers -/

/-- A frame that was sorted or grouped, and what it was grouped by, if it was. -/
structure Layer where
  below : Frame
  grouping : Option (List String × List (String × Expr))

variable (δ) in
/-- The field is the value that the formula has for each group. -/
def FormulaField (f : Frame) (keys : List String) (named : String × Expr) (field : Field) : Prop :=
  ∃ (session : Session δ) (c : Column),
    (backend.eval named.2 .groups { f with groupKeys := some keys } f session).1 = .ok (.column c) ∧
      field = ⟨c.term, named.1⟩

variable (δ) in
/-- The statement that a step composes: of all columns where it sorts, of the keys and formulas where it groups. -/
def Layer.Composes (layer : Layer) (query : Query) : Prop :=
  match layer.grouping with
  | none => query = layer.below.query
  | some (keys, formulas) => ∃ keyed reduced,
      query = layer.below.source.select (keyed ++ reduced) (keyed.map Field.term) ∧
        List.Forall₂ layer.below.KeyField keys keyed ∧
        List.Forall₂ (layer.below.FormulaField δ keys) formulas reduced

variable (δ) in
/-- The frame is over a source derived from that of the layer, with the statement that the step composes. -/
def Layer.Bears (layer : Layer) (g : Frame) : Prop :=
  ∃ query, g.DerivesFrom layer.below.source query ∧ layer.Composes δ query

theorem holds_sort_bears (f : Frame) (ascending : Bool) (keys : List String) :
    Work.partialResult.Holds (f.sort ascending keys : Work δ Frame) (Layer.Bears δ ⟨f, none⟩) :=
  Work.partialResult.mono (holds_sort_derives f ascending keys) fun _ hg => ⟨_, hg, rfl⟩

/-- The column that a reducer gives is that of its formula. -/
theorem holds_reducer (f : Frame) (keys : List String) (named : String × Expr) :
    Work.partialResult.Holds ((backend.reducer named).run { f with groupKeys := some keys } f : Work δ Column) fun c =>
      f.FormulaField δ keys named ⟨c.term, named.1⟩ := by
  rw [Work.partialResult_iff]
  intro session c h
  obtain ⟨o, rest, heval, hcolumn⟩ := Work.bind_eq_ok.1 h
  cases o with
  | column found =>
    obtain rfl := Except.ok.inj hcolumn
    exact ⟨session, found, congrArg Prod.fst heval, rfl⟩
  | frame g => cases hcolumn
  | plot p => cases hcolumn

theorem holds_group_bears (f : Frame) (keys : List String) (formulas : List (String × Expr)) :
    Work.partialResult.Holds (f.group keys (formulas.map backend.reducer) : Work δ Frame)
      (Layer.Bears δ ⟨f, some (keys, formulas)⟩) := by
  have hreduce : ∀ r ∈ formulas.map backend.reducer, Work.partialResult.Holds
      (r.run { f with groupKeys := some keys } f : Work δ Column) fun c =>
        f.FormulaField δ keys (r.name, r.formula) ⟨c.term, r.name⟩ := by
    rw [List.forall_mem_map]
    exact fun named _ => holds_reducer f keys named
  have hgroup := holds_group_derives keys (R := fun r => f.FormulaField δ keys (r.name, r.formula)) hreduce
  refine Work.partialResult.mono hgroup fun g hg => ?_
  obtain ⟨keyed, reduced, hderives, hkeyed, hreduced⟩ := hg
  rw [List.forall₂_map_left_iff] at hreduced
  exact ⟨_, hderives, keyed, reduced, rfl, hkeyed, hreduced⟩

/-! ## Frames and their layers -/

variable (δ) in
/-- Frames that come from a statement or a table by formulas, dropping, sorting and grouping, with their layers, the
    last one first. Only sorting and grouping put a layer on a frame. -/
inductive Layered (dialect : Dialect) (options : Options) : Query → List Layer → Frame → Prop
  | ofStatement {text : String} {session : Session δ} {f : Frame}
      (h : (ofQuery dialect (.statement text) options session).1 = .ok f) :
      Layered dialect options (.statement text) [] f
  | ofTable {table : String} {session : Session δ} {f : Frame}
      (h : (Frame.ofTable dialect table options session).1 = .ok f) : Layered dialect options (.table table) [] f
  | assign {origin : Query} {layers : List Layer} {f g : Frame} {text : String} {session : Session δ}
      {result : Option (Evaluated Frame Column)} (hf : Layered dialect options origin layers f)
      (h : (f.assign text session).1 = .ok (g, result)) : Layered dialect options origin layers g
  | drop {origin : Query} {layers : List Layer} {f g : Frame} {name : String} {c : Column}
      (hf : Layered dialect options origin layers f) (h : f.drop name = .ok (c, g)) :
      Layered dialect options origin layers g
  | sort {origin : Query} {layers : List Layer} {f g : Frame} {ascending : Bool} {keys : List String}
      {session : Session δ} (hf : Layered dialect options origin layers f)
      (h : (f.sort ascending keys session).1 = .ok g) : Layered dialect options origin (⟨f, none⟩ :: layers) g
  | group {origin : Query} {layers : List Layer} {f g : Frame} {keys : List String} {formulas : List (String × Expr)}
      {session : Session δ} (hf : Layered dialect options origin layers f)
      (h : (f.group keys (formulas.map backend.reducer) session).1 = .ok g) :
      Layered dialect options origin (⟨f, some (keys, formulas)⟩ :: layers) g
  | formula {origin : Query} {layers : List Layer} {f g : Frame} {text : String} {formula : Formula}
      {session after : Session δ} {result : Evaluated Frame Column} (hf : Layered dialect options origin layers f)
      (htext : Formula.ofText text = .ok formula) (h : f.Gives text session result after)
      (hg : result.outcome = .frame g) :
      Layered dialect options origin (⟨f, formula.expr.grouping⟩ :: layers) g

variable (δ) in
/-- The statement under the last layer is the one that its step composes. Without layers it is the origin. -/
def TopStatement (origin : Query) (layers : List Layer) (query : Query) : Prop :=
  match layers with
  | [] => query = origin
  | layer :: _ => layer.Composes δ query

variable (δ) in
/-- What the layers of a frame tell of its source. -/
structure Tops (dialect : Dialect) (options : Options) (origin : Query) (layers : List Layer) (s : Source) : Prop where
  dialect_eq : s.dialect = dialect
  options_eq : s.options = options
  depth_eq : s.depth = layers.length
  statement : TopStatement δ origin layers s.query
  aliases : s.query.aliases = ((List.range layers.length).map (sourceName options.temporaryAlias)).reverse

section Layered

variable {dialect : Dialect} {options : Options} {origin : Query} {layers : List Layer}

theorem Tops.name {s : Source} (h : Tops δ dialect options origin layers s) :
    s.name = sourceName options.temporaryAlias layers.length := by
  rw [Source.name, h.options_eq, h.depth_eq]
  rfl

theorem Layer.Composes.aliases {layer : Layer} {query : Query} (h : layer.Composes δ query) :
    query.aliases = layer.below.source.name :: layer.below.source.query.aliases := by
  obtain ⟨below, grouping⟩ := layer
  cases grouping with
  | none =>
    obtain rfl : query = below.query := h
    rfl
  | some grouping =>
    obtain ⟨keyed, reduced, rfl, -, -⟩ := h
    rfl

theorem Tops.bears {layer : Layer} (h : Tops δ dialect options origin layers layer.below.source)
    (hg : layer.Bears δ g) : Tops δ dialect options origin (layer :: layers) g.source := by
  obtain ⟨query, ⟨mark, order, outputs, rfl⟩, hcomposes⟩ := hg
  refine ⟨h.dialect_eq, h.options_eq, congrArg Nat.succ h.depth_eq, hcomposes, ?_⟩
  rw [List.length_cons, List.range_succ, List.map_append, List.reverse_append, ← h.aliases]
  exact hcomposes.aliases.trans (congrArg (· :: _) h.name)

theorem holds_ofQuery_tops {query : Query} (hclosed : query.Closed) (haliases : query.aliases = []) :
    Work.partialResult.Holds (ofQuery dialect query options : Work δ Frame) fun f =>
      Tops δ dialect options query [] f.source ∧ f.Hygienic := by
  refine Work.partialResult.bind (Work.partialResult_any _) fun _ _ => ?_
  refine Work.partialResult.bind (Work.partialResult_any _) fun _ _ => Work.partialResult.pure ?_
  exact ⟨⟨rfl, rfl, rfl, rfl, haliases⟩, hygienic_ofOutputs hclosed _⟩

/-- The source of a frame is what its layers tell, and everything over it is hygienic. -/
theorem Layered.tops (h : Layered δ dialect options origin layers f) :
    Tops δ dialect options origin layers f.source ∧ f.Hygienic := by
  have hstatement : ∀ text, (Query.statement text).Closed := fun _ => trivial
  have htable : ∀ name, (Query.table name).Closed := fun _ => trivial
  induction h with
  | ofStatement h => exact Work.partialResult_iff.1 (holds_ofQuery_tops (hstatement _) rfl) _ _ h
  | ofTable h => exact Work.partialResult_iff.1 (holds_ofQuery_tops (htable _) rfl) _ _ h
  | @assign _ _ f g _ _ _ hf h ih =>
    obtain ⟨htops, hhygienic⟩ := ih
    have hsource : g.source = f.source :=
      assign_frame (Q := fun g => g.source = f.source) rfl (fun _ _ h => (append_source h).1) h
    exact ⟨hsource ▸ htops, hhygienic.assign h⟩
  | drop hf h ih =>
    obtain ⟨htops, hhygienic⟩ := ih
    exact ⟨(drop_source h).1 ▸ htops, hhygienic.drop h⟩
  | sort hf h ih =>
    obtain ⟨htops, hhygienic⟩ := ih
    refine ⟨htops.bears (Work.partialResult_iff.1 (holds_sort_bears _ _ _) _ _ h), ?_⟩
    exact Work.partialResult_iff.1 (hhygienic.holds_sort _ _) _ _ h
  | @group _ _ f _ _ _ _ hf h ih =>
    obtain ⟨htops, hhygienic⟩ := ih
    refine ⟨htops.bears (Work.partialResult_iff.1 (holds_group_bears _ _ _) _ _ h), ?_⟩
    refine Work.partialResult_iff.1 (hhygienic.holds_group ?_) _ _ h
    rw [List.forall_mem_map]
    exact fun named _ => (scoping f.source).goodReducer (fun _ _ => trivial) () _ f ⟨rfl, hhygienic.withKeys _⟩
      ⟨rfl, hhygienic⟩
  | formula hf htext h hg ih =>
    obtain ⟨htops, hhygienic⟩ := ih
    refine ⟨htops.bears ?_, ?_⟩
    · exact h.rearranged (P := fun grouping => Layer.Bears δ ⟨_, grouping⟩) (holds_sort_bears _) (holds_group_bears _)
        htext hg
    · have hgood := hhygienic.gives h
      rwa [hg] at hgood

/-- The statement of a frame is over the one below its last layer, under a name with the number of the layers. The
    names along it, and those inside of subqueries over groups, differ from each other. Every subquery, in the
    statement and in all that is stored in the frame or given over it, reads the source of the statement that it is in;
    with a plain name as the beginning of the names of sources, their texts show it in every dialect. -/
theorem Layered.names_hygienic (h : Layered δ dialect options origin layers f) :
    let name := sourceName options.temporaryAlias
    let top := name layers.length
    (∃ statement, TopStatement δ origin layers statement ∧ ∀ d, f.query.text d =
      "WITH " ++ top ++ " AS (" ++ statement.text d ++ ") SELECT " ++
        (if f.columns.isEmpty then "*" else ", ".intercalate (f.columns.map fun c => c.field.text d)) ++
        " FROM " ++ top ++ Spelling.orderClause (f.source.order.map SortOrder.text)) ∧
    f.query.aliases = ((List.range (layers.length + 1)).map name).reverse ∧
    ((List.range (layers.length + 1)).flatMap (namesAt options.temporaryAlias)).Nodup ∧
    f.query.Closed ∧
    ∀ c, f.Offers δ c → c.source = f.source ∧ c.query.Closed ∧ (c.Terms fun _ => Term.ReadsOnly top) ∧
      (isName options.temporaryAlias.toList = true → ∀ d, c.Terms fun _ t => Finds (· = top) (t.text d)) := by
  intro name top
  obtain ⟨htops, hhygienic⟩ := h.tops
  have hname : f.source.name = top := htops.name
  refine ⟨⟨f.source.query, htops.statement, fun d => ?_⟩, ?_, nodup_namesAt _ _, hhygienic.closed, fun c hc => ?_⟩
  · rw [← hname, query, Source.select, Query.text, Spelling.select]
    simp [Spelling.groupClause, Function.comp_def]
  · rw [List.range_succ, List.map_append, List.reverse_append, ← htops.aliases]
    exact congrArg (· :: _) hname
  · have hwithin := hhygienic.within hc
    refine ⟨hwithin.source, ?_, hname ▸ hwithin.terms, fun halias d => ?_⟩
    · rw [Column.query, hwithin.source]
      exact ⟨hhygienic.statement, List.forall_mem_singleton.2 hwithin.terms.term, List.forall_mem_nil _⟩
    · have hword : IsSourceWord f.source.name := hname ▸ isSourceWord_sourceName halias _
      exact hname ▸ hwithin.finds hword d

/-- An aggregate of an aggregate, inside of `by`, and over the sorted groups. -/
theorem Layered.names_hygienic_groups :
    let formula := Expr.call "sum" [.call "mean" [.leaf "x"]]
    let session : Session Store := ⟨⟨[⟨"t", [⟨"k", "TEXT"⟩, ⟨"x", "INTEGER"⟩], [[.text "a", .integer 1]]⟩]⟩, 0⟩
    ∃ (grouped f : Frame) (layers : List Layer) (c : Column),
      Layered Store .sqlite .default (.table "t") layers f ∧ layers.length = 2 ∧
      (backend.eval formula .rows { f with groupKeys := none } f session).1 = .ok (.column c) ∧
      isName Options.default.temporaryAlias.toList = true ∧
      grouped.source.query.text .sqlite = "WITH _src0 AS (SELECT * FROM \"t\") SELECT \"k\" AS \"k\", " ++
        "sum((SELECT avg(\"x\") FROM _src0 AS _src0_g WHERE (_src0_g.\"k\" IS _src0.\"k\"))) AS \"x\" " ++
        "FROM _src0 GROUP BY \"k\"" ∧
      TopStatement Store (.table "t") layers grouped.query ∧
      c.fragment = "sum((SELECT avg(\"x\") FROM _src2)) OVER ()" ∧
      f.query.aliases = ["_src2", "_src1", "_src0"] ∧ f.query.Closed ∧
      Finds (· = "_src2") (c.term.text .sqlite) := by
  intro formula session
  let t := ofOutputs ⟨0, .sqlite, .table "t", 0, none, .default⟩ [⟨"k", .string, none⟩, ⟨"x", .integer, none⟩]
  have ht : (Frame.ofTable .sqlite "t" .default session).1 = .ok t := rfl
  have hsteps : ∃ (grouped f : Frame) (c : Column),
      (t.group ["k"] ([("x", formula)].map backend.reducer) session).1 = .ok grouped ∧
      (grouped.sort true ["x"] session).1 = .ok f ∧
      (backend.eval formula .rows { f with groupKeys := none } f session).1 = .ok (.column c) ∧
      grouped.source.query.text .sqlite = "WITH _src0 AS (SELECT * FROM \"t\") SELECT \"k\" AS \"k\", " ++
        "sum((SELECT avg(\"x\") FROM _src0 AS _src0_g WHERE (_src0_g.\"k\" IS _src0.\"k\"))) AS \"x\" " ++
        "FROM _src0 GROUP BY \"k\"" ∧
      c.fragment = "sum((SELECT avg(\"x\") FROM _src2)) OVER ()" :=
    ⟨_, _, _, rfl, rfl, rfl, by decide +kernel, by decide +kernel⟩
  obtain ⟨grouped, f, c, hgrouped, hf, hc, htext, hfragment⟩ := hsteps
  have halias : isName Options.default.temporaryAlias.toList = true := by decide +kernel
  let layers : List Layer := [⟨grouped, none⟩, ⟨t, some (["k"], [("x", formula)])⟩]
  have hlayered : Layered Store .sqlite .default (.table "t") layers f := .sort (.group (.ofTable ht) hgrouped) hf
  obtain ⟨⟨statement, hstatement, -⟩, haliases, -, hclosed, hoffers⟩ := hlayered.names_hygienic
  have hbelow : statement = grouped.query := hstatement
  have hnames : ((List.range 3).map (sourceName Options.default.temporaryAlias)).reverse =
      ["_src2", "_src1", "_src0"] := by decide +kernel
  obtain ⟨-, -, -, hfinds⟩ := hoffers c (.part hc)
  have hfinds : Finds (· = sourceName Options.default.temporaryAlias 2) (c.term.text .sqlite) :=
    (hfinds halias .sqlite).term
  have htop : sourceName Options.default.temporaryAlias 2 = "_src2" := by decide +kernel
  rw [htop] at hfinds
  exact ⟨grouped, f, layers, c, hlayered, rfl, hc, halias, htext, hbelow ▸ hstatement, hfragment, haliases.trans hnames,
    hclosed, hfinds⟩

end Layered

end Frame

end Tabular.Sql
