-- SUMMARY: Statements keep the order of their source as long as no output column takes the name of a sort key.
import Tabular.Proofs.Sql.Lineage
import Tabular.Proofs.Sql.Nesting
import Tabular.Sql.Store

/-!
# Orders and the names of output columns

A sorted source remembers its keys by name, and statements over it order their rows by these names. A database looks
them up among the output columns first. So the rows stay in the order of the source if every output column with the
name of a key is that very column; a column of another kind captures the key, and the rows are ordered by its values.

Sorting and grouping start anew, and dropping columns does no harm. What can capture a key is a column that an
assignment adds under its name, after the column itself was dropped, and the column of a formula, which is named by
its target or its text.
-/

namespace Tabular.Sql

/-! ## Captured keys -/

/-- An output column has the name of a key, and is not the column of that name of the source. -/
def SortOrder.CapturedBy (d : Dialect) (o : SortOrder) (field : Field) : Prop :=
  field.name ∈ o.keys ∧ field.term.text d ≠ Spelling.ident field.name

/-- In the statement and in those that it selects from, no output column captures a key of the order. -/
def Query.KeepsOrder (d : Dialect) : Query → Prop
  | .select _ source fields _ order => source.KeepsOrder d ∧ ∀ o ∈ order, ∀ field ∈ fields, ¬o.CapturedBy d field
  | _ => True

/-- The output columns of a statement. -/
def Query.fields : Query → List Field
  | .select _ _ fields _ _ => fields
  | _ => []

namespace Source

variable {d : Dialect} {s : Source} {fields : List Field} {groupBy : List Term}

/-- A field over the source captures a key of its order. -/
def Captures (d : Dialect) (s : Source) (field : Field) : Prop := ∃ o ∈ s.order, o.CapturedBy d field

/-- A column of the source captures nothing under its own name. -/
theorem not_captures_column (name : String) : ¬s.Captures d ⟨.column name, name⟩ := by
  rintro ⟨o, -, -, hne⟩
  exact hne rfl

/-- Rows that are not grouped stay in the order of the source if no field captures a key. -/
theorem keepsOrder_select_iff :
    (s.select fields []).KeepsOrder d ↔ s.query.KeepsOrder d ∧ ∀ field ∈ fields, ¬s.Captures d field := by
  simp only [select, Query.KeepsOrder, List.isEmpty_nil, if_true, Captures, not_exists, not_and]
  exact and_congr_right fun _ => ⟨fun h field hfield o ho => h o ho field hfield,
    fun h o ho field hfield => h field hfield o ho⟩

/-- Groups have no order to keep. -/
theorem keepsOrder_select_groups (h : groupBy ≠ []) :
    (s.select fields groupBy).KeepsOrder d ↔ s.query.KeepsOrder d := by
  have hgroups : groupBy.isEmpty = false := List.isEmpty_eq_false_iff.2 h
  simp [select, Query.KeepsOrder, hgroups]

end Source

namespace Frame

variable {δ : Type} {d : Dialect} {f g : Frame}

theorem keepsOrder_iff : f.query.KeepsOrder d ↔
    f.source.query.KeepsOrder d ∧ ∀ c ∈ f.columns, ¬f.source.Captures d c.field := by
  rw [query, Source.keepsOrder_select_iff, List.forall_mem_map]

/-- Over a new source nothing is captured. -/
theorem keepsOrder_ofOutputs_iff (source : Source) (outputs : List Output) :
    (ofOutputs source outputs).query.KeepsOrder d ↔ source.query.KeepsOrder d := by
  rw [keepsOrder_iff, columns_ofOutputs, List.forall_mem_map]
  exact and_iff_left fun o _ => Source.not_captures_column o.name

/-! ## Columns over the source of their frame -/

/-- The columns of the frame are over its source. -/
def Owned (f : Frame) : Prop := ∀ c ∈ f.columns, c.source = f.source

theorem owned_ofOutputs (source : Source) (outputs : List Output) : (ofOutputs source outputs).Owned := by
  intro c hc
  rw [columns_ofOutputs] at hc
  obtain ⟨o, -, rfl⟩ := List.mem_map.1 hc
  rfl

theorem append_source {c : Column} (h : f.append c = .ok g) :
    g.source = f.source ∧ g.columns = f.columns ++ [{ c with constant := none }] := by
  obtain ⟨-, rfl⟩ := append_ok h
  exact ⟨rfl, rfl⟩

theorem drop_source {name : String} {c : Column} (h : f.drop name = .ok (c, g)) :
    g.source = f.source ∧ g.columns ⊆ f.columns := by
  have hsubset := drop_subset h
  obtain ⟨set, -, rfl⟩ := drop_ok h
  exact ⟨rfl, hsubset⟩

theorem Owned.append (hf : f.Owned) {c : Column} (hc : c.source = f.source) (h : f.append c = .ok g) : g.Owned := by
  obtain ⟨hsource, hcolumns⟩ := append_source h
  intro e he
  rw [hcolumns, List.mem_append, List.mem_singleton] at he
  rw [hsource]
  rcases he with he | rfl
  · exact hf e he
  · exact hc

theorem Owned.drop (hf : f.Owned) {name : String} {c : Column} (h : f.drop name = .ok (c, g)) : g.Owned := by
  obtain ⟨hsource, hcolumns⟩ := drop_source h
  exact fun e he => (hf e (hcolumns he)).trans hsource.symm

variable [Database δ]

omit [Database δ] in
theorem source_literal {v : Value} {c : Column} (h : f.literal v = .ok c) : c.source = f.source :=
  literal_ok h ▸ rfl

omit [Database δ] in
theorem source_globalize {c e : Column} (h : f.globalize c = .ok e) : e.source = c.source := by
  obtain ⟨-, ⟨-, rfl⟩ | ⟨-, rfl⟩⟩ := globalize_ok h <;> rfl

theorem source_execute (f : Frame) (op : Resolved) (args : List Column) (scope : Scope) :
    Work.partialResult.Holds (f.execute op args scope : Work δ Column) fun c => c.source = f.source := by
  unfold execute
  refine Work.partialResult.bind (Work.partialResult_any _) fun _ _ => ?_
  split
  · unfold executeScalar
    split
    · exact Work.partialResult_throw
    · exact Work.partialResult.bind (Work.partialResult_any _) fun _ _ => Work.partialResult.pure rfl
  · unfold executeRows
    refine Work.partialResult.bind (Work.partialResult_any _) fun _ _ => ?_
    split
    · exact Work.partialResult.pure rfl
    · split
      · exact Work.partialResult.pure rfl
      · exact Work.partialResult.bind (Work.partialResult_any _) fun _ _ => Work.partialResult.pure rfl

/-- Formulas over a frame give columns over its source. -/
def ownership (s : Source) :
    (backend : Backend (Work δ) Frame Column).Contract (Work.partialResult.progress fun _ => trivial) where
  GoodFrame _ f := f.source = s ∧ f.Owned
  GoodResult _ := Owned
  GoodColumn _ c := c.source = s
  GoodText _ := True
  frameLater _ hf := hf
  columnLater _ hc := hc
  result hf := hf.2
  column? hf hc := (hf.2 _ (ColumnSet.mem_columns hc)).trans hf.1
  rename _ hc := hc
  literal hf _ := Work.partialResult_lift fun _ hc => (source_literal hc).trans hf.1
  execute op scope _ hf _ := Work.partialResult.mono (source_execute _ op _ scope) fun _ hc => hc.trans hf.1
  sort ascending keys _ := holds_sort owned_ofOutputs _ ascending keys
  group keys _ _ := holds_group owned_ofOutputs _ keys _
  globalize _ hc := Work.partialResult_lift fun _ he => (source_globalize he).trans hc
  append hf hc := Work.partialResult_lift fun _ hg => hf.2.append (hc.trans hf.1.symm) hg
  values _ := Work.partialResult_any _

section Formulas

variable {text : String} {session after : Session δ}

theorem Owned.assign (hf : f.Owned) {result : Option (Evaluated Frame Column)}
    (h : (f.assign text session).1 = .ok (g, result)) : g.Owned :=
  (Work.partialResult_iff.1 ((ownership f.source).holds_assign (s := ()) ⟨rfl, hf⟩ fun _ _ _ _ => trivial) _ _ h).1

/-- What a formula gives over a frame is a column over its source, or a frame with columns over its own. -/
theorem Owned.gives (hf : f.Owned) {result : Evaluated Frame Column} (h : f.Gives text session result after) :
    (ownership (δ := δ) f.source).GoodOutcome () result.outcome := by
  rcases h with h | ⟨g, h⟩
  · exact Work.partialResult_iff.1 ((ownership f.source).holds_evaluate (s := ()) ⟨rfl, hf⟩ fun _ _ _ _ => trivial) _ _
      (congrArg Prod.fst h)
  · exact (Work.partialResult_iff.1 ((ownership f.source).holds_assign (s := ()) ⟨rfl, hf⟩ fun _ _ _ _ => trivial) _ _
      (congrArg Prod.fst h)).2 _ rfl

end Formulas

/-! ## Steps -/

/-- The fields that a grouping puts over the order of the source: those of a group without keys. -/
def ungrouped (keys? : Option (List String)) (g : Frame) : List Field :=
  if keys? = some [] then g.source.query.fields else []

variable (δ) in
/-- A step from a frame to another, and the fields that it puts over the source of the first. -/
inductive Move : Frame → List Field → Frame → Prop
  | drop {f g : Frame} {name : String} {c : Column} (h : f.drop name = .ok (c, g)) : Move f [] g
  | sort {f g : Frame} {ascending : Bool} {keys : List String} {session : Session δ}
      (h : (f.sort ascending keys session).1 = .ok g) : Move f [] g
  | group {f g : Frame} {keys : List String} {formulas : List (String × Expr)} {session : Session δ}
      (h : (f.group keys (formulas.map backend.reducer) session).1 = .ok g) : Move f (ungrouped (some keys) g) g
  | assign {f g : Frame} {text : String} {session : Session δ} {result : Option (Evaluated Frame Column)}
      (h : (f.assign text session).1 = .ok (g, result)) :
      Move f ((g.columns.drop f.columns.length).map Column.field) g
  | formula {f g : Frame} {text : String} {formula : Formula} {session after : Session δ}
      {result : Evaluated Frame Column} (htext : Formula.ofText text = .ok formula)
      (h : f.Gives text session result after) (hg : result.outcome = .frame g) :
      Move f (ungrouped formula.expr.groupedBy g) g

/-- The statement keeps its order exactly if no field that is put over the source captures a key. -/
def KeepsOrderAfter (d : Dialect) (f : Frame) (added : List Field) (g : Frame) : Prop :=
  g.query.KeepsOrder d ↔ ∀ field ∈ added, ¬f.source.Captures d field

omit [Database δ] in
/-- A sorted frame is over the statement of the frame before it. -/
theorem holds_sort_keepsOrder (hf : f.query.KeepsOrder d) (ascending : Bool) (keys : List String) :
    Work.partialResult.Holds (f.sort ascending keys : Work δ Frame) fun g =>
      KeepsOrderAfter d f (ungrouped none g) g := by
  refine Work.partialResult.mono (holds_sort_derives f ascending keys) fun g hg => ?_
  obtain ⟨mark, order, outputs, rfl⟩ := hg
  unfold KeepsOrderAfter
  rw [keepsOrder_ofOutputs_iff]
  exact iff_of_true hf (List.forall_mem_nil _)

omit [Database δ] in
/-- Groups are over a statement of their own. Without keys it has the order of the source before. -/
theorem holds_group_keepsOrder (hf : f.query.KeepsOrder d) (keys : List String)
    (reducers : List (Reducer (Work δ) Frame Column)) :
    Work.partialResult.Holds (f.group keys reducers) fun g => KeepsOrderAfter d f (ungrouped (some keys) g) g := by
  have hsource := (keepsOrder_iff.1 hf).1
  refine Work.partialResult.mono (holds_group_keyed keys f reducers) fun g hg => ?_
  obtain ⟨keyed, reduced, ⟨mark, order, outputs, rfl⟩, hkeyed⟩ := hg
  unfold KeepsOrderAfter ungrouped
  rw [keepsOrder_ofOutputs_iff]
  cases hkeyed with
  | nil =>
    rw [if_pos rfl]
    exact Source.keepsOrder_select_iff.trans (and_iff_right hsource)
  | cons hkey hkeys =>
    rw [if_neg (by simp)]
    exact iff_of_true ((Source.keepsOrder_select_groups (List.cons_ne_nil _ _)).2 hsource) (List.forall_mem_nil _)

omit [Database δ] in
/-- A column that is added has its field put over the source. -/
theorem keepsOrder_append (hf : f.query.KeepsOrder d) {c : Column} (h : f.append c = .ok g) :
    KeepsOrderAfter d f ((g.columns.drop f.columns.length).map Column.field) g := by
  obtain ⟨hsource, hcolumns⟩ := append_source h
  obtain ⟨hnested, hold⟩ := keepsOrder_iff.1 hf
  unfold KeepsOrderAfter
  rw [keepsOrder_iff, hsource, hcolumns, List.drop_left, List.forall_mem_append, List.forall_mem_map]
  exact ⟨fun h => h.2.2, fun h => ⟨hnested, hold, h⟩⟩

omit [Database δ] in
/-- Nothing is put over the source of a frame that stays as it is. -/
theorem keepsOrderAfter_self (hf : f.query.KeepsOrder d) :
    KeepsOrderAfter d f ((f.columns.drop f.columns.length).map Column.field) f := by
  unfold KeepsOrderAfter
  rw [List.drop_length]
  exact iff_of_true hf (List.forall_mem_nil _)

/-- After a step the statement keeps its order exactly if nothing that the step puts over the source captures a key. -/
theorem Move.keepsOrder {added : List Field} (h : Move δ f added g) (hf : f.query.KeepsOrder d) :
    KeepsOrderAfter d f added g := by
  cases h with
  | drop h =>
    obtain ⟨hsource, hcolumns⟩ := drop_source h
    obtain ⟨hnested, hold⟩ := keepsOrder_iff.1 hf
    refine iff_of_true (keepsOrder_iff.2 ?_) (List.forall_mem_nil _)
    rw [hsource]
    exact ⟨hnested, fun c hc => hold c (hcolumns hc)⟩
  | sort h => exact Work.partialResult_iff.1 (holds_sort_keepsOrder hf _ _) _ _ h
  | group h => exact Work.partialResult_iff.1 (holds_group_keepsOrder hf _ _) _ _ h
  | assign h =>
    exact assign_frame (Q := fun g => KeepsOrderAfter d f ((g.columns.drop f.columns.length).map Column.field) g)
      (keepsOrderAfter_self hf) (fun _ _ => keepsOrder_append hf) h
  | formula htext h hg =>
    exact h.frame (P := fun keys? g => KeepsOrderAfter d f (ungrouped keys? g) g) (holds_sort_keepsOrder hf)
      (fun keys _ => holds_group_keepsOrder hf keys _) htext hg

theorem Move.owned {added : List Field} (h : Move δ f added g) (hf : f.Owned) : g.Owned := by
  cases h with
  | drop h => exact hf.drop h
  | sort h => exact Work.partialResult_iff.1 (holds_sort owned_ofOutputs _ _ _) _ _ h
  | group h => exact Work.partialResult_iff.1 (holds_group owned_ofOutputs _ _ _) _ _ h
  | assign h => exact hf.assign h
  | formula htext h hg =>
    have hgood := hf.gives h
    rwa [hg] at hgood

/-! ## Runs -/

/-- A step of a run: the source that it starts from, the fields that it puts over it, and the frame it leads to. -/
structure Stage where
  source : Source
  added : List Field
  frame : Frame

variable (δ) in
/-- Steps one after another from a frame. -/
inductive Course : Frame → List Stage → Prop
  | done {f : Frame} : Course f []
  | move {f g : Frame} {added : List Field} {more : List Stage} (h : Move δ f added g) (hmore : Course g more) :
      Course f (⟨f.source, added, g⟩ :: more)

theorem Course.owned {stages : List Stage} (h : Course δ f stages) (hf : f.Owned) :
    ∀ stage ∈ stages, stage.frame.Owned := by
  induction h with
  | done => exact List.forall_mem_nil _
  | move h _ ih =>
    have hg := h.owned hf
    exact List.forall_mem_cons.2 ⟨hg, ih hg⟩

/-- From a statement that keeps its order, all statements of a run do so exactly if no step puts a field over a source
    that captures a key of its order. -/
theorem Course.forall_keepsOrder_iff {stages : List Stage} (h : Course δ f stages) (hf : f.query.KeepsOrder d) :
    (∀ stage ∈ stages, stage.frame.query.KeepsOrder d) ↔
      ∀ stage ∈ stages, ∀ field ∈ stage.added, ¬stage.source.Captures d field := by
  induction h with
  | done => simp
  | move h _ ih =>
    rw [List.forall_mem_cons, List.forall_mem_cons]
    constructor
    · rintro ⟨hg, hrest⟩
      exact ⟨(h.keepsOrder hf).1 hg, (ih hg).1 hrest⟩
    · rintro ⟨hadded, hrest⟩
      have hg := (h.keepsOrder hf).2 hadded
      exact ⟨hg, (ih hg).2 hrest⟩

/-! ## Starts -/

variable (δ) in
/-- Frames over a statement, a table or loaded cells. -/
inductive Start : Frame → Prop
  | ofStatement {dialect : Dialect} {text : String} {options : Options} {session : Session δ} {f : Frame}
      (h : (ofQuery dialect (.statement text) options session).1 = .ok f) : Start f
  | ofTable {dialect : Dialect} {table : String} {options : Options} {session : Session δ} {f : Frame}
      (h : (ofTable dialect table options session).1 = .ok f) : Start f
  | load {dialect : Dialect} {table : String} {frame : Memory.Frame} {session : Session δ} {f : Frame}
      (h : (load dialect table frame session).1 = .ok f) : Start f

theorem holds_ofQuery_keepsOrder {query : Query} (hquery : query.KeepsOrder d) (dialect : Dialect) (options : Options) :
    Work.partialResult.Holds (ofQuery dialect query options : Work δ Frame) fun f =>
      f.Owned ∧ f.query.KeepsOrder d := by
  refine Work.partialResult.bind (Work.partialResult_any _) fun _ _ => ?_
  refine Work.partialResult.bind (Work.partialResult_any _) fun _ _ => Work.partialResult.pure ⟨owned_ofOutputs _ _, ?_⟩
  rwa [keepsOrder_ofOutputs_iff]

omit [Database δ] in
/-- Categories change neither the source of a frame nor the sources and the fields of its columns. -/
theorem withCategories_keepsOrder (hf : f.Owned ∧ f.query.KeepsOrder d) (c : Memory.Column) :
    (f.withCategories c).Owned ∧ (f.withCategories c).query.KeepsOrder d := by
  have hsource := source_withCategories f c
  have hsources : (f.withCategories c).columns.map Column.source = f.columns.map Column.source :=
    map_withCategories (fun _ _ => rfl) f c
  have hfields : (f.withCategories c).columns.map Column.field = f.columns.map Column.field :=
    map_withCategories (fun _ _ => rfl) f c
  constructor
  · unfold Owned
    rw [← List.forall_mem_map (P := fun source => source = _), hsource, hsources, List.forall_mem_map]
    exact hf.1
  · have hquery : (f.withCategories c).query = f.query := by rw [query, query, hsource, hfields]
    rw [hquery]
    exact hf.2

theorem Start.keepsOrder (h : Start δ f) (d : Dialect) : f.Owned ∧ f.query.KeepsOrder d := by
  have hstatement : ∀ text, (Query.statement text).KeepsOrder d := fun _ => trivial
  have htable : ∀ name, (Query.table name).KeepsOrder d := fun _ => trivial
  cases h with
  | ofStatement h => exact Work.partialResult_iff.1 (holds_ofQuery_keepsOrder (hstatement _) _ _) _ _ h
  | ofTable h => exact Work.partialResult_iff.1 (holds_ofQuery_keepsOrder (htable _) _ _) _ _ h
  | load h =>
    refine Work.partialResult_iff.1 (holds_load_of ?_ (holds_ofQuery_keepsOrder (htable _) _ _)) _ _ h
    exact fun _ c hf => withCategories_keepsOrder hf c

/-- Along every run of dropping, sorting, grouping, assigning and formulas from a statement, a table or loaded cells:
    all statements, and those that they select from, keep their order exactly if no step puts a field over a source
    that captures a key of its order. A column that a formula gives over one of these frames is over the source of that
    frame, and its statement keeps the order exactly if it does not capture a key under the name that it is given. -/
theorem Course.statements_keep_order_iff {stages : List Stage} (hf : Start δ f) (h : Course δ f stages) (d : Dialect) :
    f.query.KeepsOrder d ∧
      ((∀ stage ∈ stages, stage.frame.query.KeepsOrder d) ↔
        ∀ stage ∈ stages, ∀ field ∈ stage.added, ¬stage.source.Captures d field) ∧
      ∀ g ∈ f :: stages.map Stage.frame, ∀ (text : String) (session after : Session δ)
        (result : Evaluated Frame Column) (c : Column),
        g.Gives text session result after → result.outcome = .column c → c.source = g.source ∧
          (g.query.KeepsOrder d → (c.query.KeepsOrder d ↔ ¬g.source.Captures d c.field)) := by
  obtain ⟨howned, hkeeps⟩ := hf.keepsOrder d
  refine ⟨hkeeps, h.forall_keepsOrder_iff hkeeps, ?_⟩
  have hall : ∀ g ∈ f :: stages.map Stage.frame, g.Owned := by
    rw [List.forall_mem_cons, List.forall_mem_map]
    exact ⟨howned, h.owned howned⟩
  intro g hg text session after result c hgives hc
  have hgood := (hall g hg).gives hgives
  rw [hc] at hgood
  have hsource : c.source = g.source := hgood
  refine ⟨hsource, fun hquery => ?_⟩
  rw [Column.query, Source.keepsOrder_select_iff, List.forall_mem_singleton, hsource]
  exact and_iff_right (keepsOrder_iff.1 hquery).1

/-- Over a table sorted by its column, a difference that is named like the column captures the order. -/
theorem Course.statements_keep_order_iff_captured :
    let session : Session Store := ⟨⟨[⟨"t", [⟨"k", "INTEGER"⟩], [[.integer 1], [.integer 2], [.integer 3]]⟩]⟩, 0⟩
    ∃ (f g : Frame) (c : Column) (result : Evaluated Frame Column),
      Start Store f ∧ Course Store f [⟨f.source, [], g⟩] ∧ g.query.KeepsOrder .sqlite ∧
      g.Gives "k := (0 - k)" session result session ∧ result.outcome = .column c ∧
      c.query.text .sqlite = "WITH _src1 AS (WITH _src0 AS (SELECT * FROM \"t\") SELECT \"k\" AS \"k\" FROM _src0) " ++
        "SELECT (0 - \"k\") AS \"k\" FROM _src1 ORDER BY \"k\" ASC" ∧
      ¬c.query.KeepsOrder .sqlite := by
  intro session
  let e : Expr := .binary .subtract (.leaf "0") (.leaf "k")
  let f := ofOutputs ⟨0, .sqlite, .table "t", 0, none, .default⟩ [⟨"k", .integer, none⟩]
  have hf : Start Store f := .ofTable (show (Frame.ofTable .sqlite "t" .default session).1 = .ok f from rfl)
  obtain ⟨g, hg, c, hc, hquery, hcaptures⟩ : ∃ g, (f.sort true ["k"] session).1 = .ok g ∧
      ∃ c, (backend.eval e .rows g g : Work Store _) session = (.ok (.column c), session) ∧
        (c.rename "k").query.text .sqlite =
          "WITH _src1 AS (WITH _src0 AS (SELECT * FROM \"t\") SELECT \"k\" AS \"k\" FROM _src0) " ++
            "SELECT (0 - \"k\") AS \"k\" FROM _src1 ORDER BY \"k\" ASC" ∧
        g.source.Captures .sqlite (c.rename "k").field :=
    ⟨_, rfl, _, rfl, by decide +kernel, _, rfl, List.mem_cons_self, by decide +kernel⟩
  have htext : Formula.ofText "k := (0 - k)" = .ok ⟨some "k", e⟩ := by
    have hspelled : "k := (0 - k)" = Formula.text ⟨some "k", e⟩ := by decide +kernel
    rw [hspelled]
    exact Formula.ofText_text_target (by decide +kernel) (by decide +kernel) (by unfold Expr.Unassigning; decide)
  have hgives : g.Gives "k := (0 - k)" session
      ⟨.column (c.rename "k"), e.dependencies fun name => (g.column? name).isSome⟩ session := by
    have hlift : (liftM (Except.ok ⟨some "k", e⟩ : Except Failure Formula) : Work Store Formula) =
      pure ⟨some "k", e⟩ := rfl
    refine .inl ?_
    unfold Frame.evaluate Backend.evaluate Backend.run
    rw [htext, hlift, pure_bind, bind_assoc, Work.run_bind, hc]
    rfl
  have hcourse : Course Store f [⟨f.source, [], g⟩] := .move (.sort hg) .done
  obtain ⟨-, hframes, hcolumns⟩ := Course.statements_keep_order_iff hf hcourse .sqlite
  have hkeeps : g.query.KeepsOrder .sqlite := by
    rw [List.forall_mem_singleton, List.forall_mem_singleton] at hframes
    exact hframes.2 (List.forall_mem_nil _)
  have hcolumn := (hcolumns g (by simp) _ _ _ _ _ hgives rfl).2 hkeeps
  exact ⟨f, g, c.rename "k", _, hf, hcourse, hkeeps, hgives, rfl, hquery, fun h => hcolumn.1 h hcaptures⟩

end Frame

end Tabular.Sql
