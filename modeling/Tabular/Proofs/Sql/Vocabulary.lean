-- SUMMARY: Operations over SQL frames use the names and texts that they are given, and levels of fetched series.
import Tabular.Proofs.CategoryMap
import Tabular.Proofs.Evaluation.Contract
import Tabular.Proofs.Sql.Frame
import Tabular.Proofs.Sql.Record
import Tabular.Proofs.Sql.Uses

/-!
# The vocabulary of SQL frames

Columns and frames use a vocabulary if everything does that they are composed of. Operations put nothing into a
statement but what they are given, with one exception: a category map is made of cells that are fetched. So along an
evaluation the vocabulary grows by the levels of the series that the database has given. A new frame also has new
names, those of its columns.
-/

namespace Tabular.Sql

variable {δ : Type} [Database δ] {V W : Vocabulary} {R : Record δ} {database : δ}

/-! ## Levels -/

/-- The text is a level of a category map of a series that the database has given. -/
def Record.IsLevel (R : Record δ) (database : δ) (text : String) : Prop :=
  ∃ series, R.Given database series ∧ ∃ threshold map codes,
    CategoryMap.build series threshold = .ok (map, codes) ∧ .string text ∈ map.levels

/-- A vocabulary and the levels that the database has given. -/
def Vocabulary.withLevels (V : Vocabulary) (R : Record δ) (database : δ) : Vocabulary where
  Name := V.Name
  Text text := V.Text text ∨ R.IsLevel database text
  dateCode := .inl V.dateCode
  dateFormat := .inl V.dateFormat
  date d := .inl (V.date d)

theorem Vocabulary.withLevels_later {later : δ} (h : R.progress.Later database later) :
    (V.withLevels R database).Extends (V.withLevels R later) where
  name _ h := h
  text := by
    rintro text (htext | ⟨series, hgiven, hlevel⟩)
    · exact .inl htext
    · exact .inr ⟨series, h series hgiven, hlevel⟩

/-- All levels of category maps of the series are known. -/
def Vocabulary.Covers (V : Vocabulary) (series : Series) : Prop :=
  ∀ threshold map codes, CategoryMap.build series threshold = .ok (map, codes) → ∀ v ∈ map.levels, V.Admits v

theorem Vocabulary.covers_given {series : Series} (h : R.Given database series) :
    (V.withLevels R database).Covers series := by
  intro threshold map codes hbuild v hv
  cases v with
  | string text => exact .inr ⟨series, h, threshold, map, codes, hbuild, hv⟩
  | _ => trivial

theorem Vocabulary.covers_scalar {v : Value} (hv : V.Admits v) {series : Series} (h : Series.scalar v = .ok series) :
    V.Covers series := by
  intro threshold map codes hbuild level hlevel
  rw [CategoryMap.eq_ofValues hbuild] at hlevel
  have hmem := CategoryMap.mem_values_of_mem_levels hlevel
  rw [Series.values_scalar h, List.mem_singleton] at hmem
  rwa [hmem]

/-- The values that a map gives codes of their own are known. -/
def Vocabulary.Encodes (V : Vocabulary) (map : CategoryMap) : Prop :=
  ∀ entry ∈ Compose.encoded map, V.Admits entry.1

theorem Vocabulary.Encodes.mono (hext : V.Extends W) {map : CategoryMap} (h : V.Encodes map) : W.Encodes map :=
  fun entry hentry => hext.admits (h entry hentry)

theorem Vocabulary.Covers.encodes {series : Series} (h : V.Covers series) {threshold : Option Nat}
    {map : CategoryMap} {codes : Series} (hbuild : CategoryMap.build series threshold = .ok (map, codes)) :
    V.Encodes map := by
  intro entry hentry
  obtain ⟨hmem, hcode⟩ := List.mem_filter.1 hentry
  have hlevel := h threshold map codes hbuild
  rw [CategoryMap.eq_ofValues hbuild] at hlevel hmem
  exact hlevel entry.1 (CategoryMap.mem_levels hmem (by simpa using hcode))

/-! ## Sources and columns -/

structure Source.Uses (V : Vocabulary) (s : Source) : Prop where
  word : IsWord s.options.temporaryAlias
  query : s.query.Uses V
  order : ∀ o, s.order = some o → o.Uses V

namespace Source.Uses

variable {s : Source} (h : s.Uses V)

include h

theorem mono (hext : V.Extends W) : s.Uses W :=
  ⟨h.word, h.query.mono hext, fun o ho key hkey => hext.name key (h.order o ho key hkey)⟩

theorem isWord_name : IsWord s.name := h.word.append (isWord_nat s.depth)

theorem select {fields : List Field} {groupBy : List Term} (hfields : ∀ f ∈ fields, f.Uses V)
    (hgroup : ∀ t ∈ groupBy, t.Uses V) : (s.select fields groupBy).Uses V := by
  refine ⟨h.isWord_name, h.query, hfields, hgroup, fun o ho => ?_⟩
  split at ho
  · exact h.order o ho
  · simp at ho

end Source.Uses

structure Column.Uses (V : Vocabulary) (c : Column) : Prop where
  term : c.term.Uses V
  nesting : ∀ term, c.nesting = .rewritten term → term.Uses V
  categories : ∀ map, c.categories = some map → V.Encodes map
  constant : ∀ v, c.constant = some v → V.Admits v
  source : c.source.Uses V

namespace Column.Uses

variable {c : Column} (h : c.Uses V)

include h

theorem mono (hext : V.Extends W) : c.Uses W where
  term := h.term.mono hext
  nesting term hterm := (h.nesting term hterm).mono hext
  categories map hmap := (h.categories map hmap).mono hext
  constant v hv := hext.admits (h.constant v hv)
  source := h.source.mono hext

theorem rename (name : String) : (c.rename name).Uses V := ⟨h.term, h.nesting, h.categories, h.constant, h.source⟩

theorem query (hname : V.Name c.name) : c.query.Uses V :=
  h.source.select (List.forall_mem_singleton.2 ⟨h.term, hname⟩) (by simp)

theorem nestedTerm {term : Term} (hterm : Frame.nestedTerm c = .ok term) : term.Uses V := by
  unfold Frame.nestedTerm at hterm
  split at hterm
  · exact Except.ok.inj hterm ▸ h.term
  · rename_i rewritten hnesting
    exact Except.ok.inj hterm ▸ h.nesting rewritten hnesting
  · simp at hterm

end Column.Uses

theorem Record.holds_derive (R : Record δ) (source : Source) (query : Query) (order : Option SortOrder) :
    R.progress.Holds database (source.derive query order : Work δ Source) fun _ derived =>
      ∃ mark, derived = { source with mark, query, depth := source.depth + 1, order } :=
  R.progress.bind R.holds_freshMark fun _ mark _ _ => R.progress.pure ⟨mark, rfl⟩

/-- The cells of a column are covered by what the database has given with them. -/
theorem Column.covers_values {c : Column} (hc : c.Uses (V.withLevels R database)) :
    R.progress.Holds database (c.values : Work δ Series) fun later series => (V.withLevels R later).Covers series := by
  unfold values
  split
  · rename_i v hv
    refine R.progress.lift fun series hseries => ?_
    exact Vocabulary.covers_scalar (hc.constant v hv) (liftM_series_eq_ok.1 hseries)
  · refine R.progress.bind (R.holds_fetch _ _) fun later cells _ hgiven => ?_
    split
    · rename_i series hlast
      exact R.progress.pure (Vocabulary.covers_given (hgiven series (List.mem_of_getLast? hlast)))
    · exact R.holds_throw

/-! ## Composed operations -/

structure Composed.Uses (V : Vocabulary) (composed : Composed) : Prop where
  term : composed.term.Uses V
  categories : ∀ map, composed.categories = some map → V.Encodes map

def Operand.Uses (V : Vocabulary) (operand : Operand) : Prop := operand.1.Uses V ∧ operand.2.Uses V

namespace Compose

theorem uses_encode {raw : Term} (hraw : raw.Uses V) {map : CategoryMap} (hmap : V.Encodes map) (default : Int64) :
    (encode raw map default).Uses V := by
  refine ⟨Term.allUse_iff.2 ?_, Term.allUse_iff.2 ?_, trivial⟩
  · rw [List.forall_mem_map]
    exact fun entry hentry => ⟨hraw, hmap entry hentry⟩
  · rw [List.forall_mem_map]
    exact fun _ _ => trivial

theorem uses_call {d : Dialect} {name : String} {terms : List Term} (hterms : ∀ t ∈ terms, t.Uses V) {term : Term}
    (h : call d name terms = .ok term) : term.Uses V := by
  obtain ⟨function, -, h⟩ := bind_eq_ok.1 h
  obtain rfl := Except.ok.inj h
  exact Term.allUse_iff.2 hterms

theorem uses_convert {d : Dialect} {source target : DataType} {raw term : Term} (hraw : raw.Uses V)
    (h : convert d raw source target = .ok term) : term.Uses V := by
  obtain ⟨how, -, h⟩ := bind_eq_ok.1 h
  split at h
  · exact Except.ok.inj h ▸ hraw
  · obtain rfl := Except.ok.inj h
    exact hraw

section Operands

variable {operands : List Operand} (hoperands : ∀ o ∈ operands, Operand.Uses V o)

include hoperands

theorem uses_operand {name : String} {index : Nat} {o : Operand} (h : operand name operands index = .ok o) :
    Operand.Uses V o := by
  unfold operand at h
  split at h
  · rename_i found hfound
    exact Except.ok.inj h ▸ hoperands found (List.mem_of_getElem? hfound)
  · simp at h

theorem uses_terms : ∀ t ∈ operands.map (·.2), t.Uses V := by
  rw [List.forall_mem_map]
  exact fun o ho => (hoperands o ho).2

theorem uses_cast {d : Dialect} {composed : Composed} (h : cast d operands = .ok composed) : composed.Uses V := by
  obtain ⟨_, -, h⟩ := bind_eq_ok.1 h
  obtain ⟨_, -, h⟩ := bind_eq_ok.1 h
  obtain ⟨value, hvalue, h⟩ := bind_eq_ok.1 h
  obtain ⟨term, hterm, h⟩ := bind_eq_ok.1 h
  obtain rfl := Except.ok.inj h
  exact ⟨uses_convert (uses_operand hoperands hvalue).2 hterm, by simp⟩

theorem uses_applyCategories {composed : Composed} (h : applyCategories operands = .ok composed) :
    composed.Uses V := by
  obtain ⟨raw, hraw, h⟩ := bind_eq_ok.1 h
  obtain ⟨categorical, hcategorical, h⟩ := bind_eq_ok.1 h
  dsimp only at h
  split at h
  · simp [throw, throwThe, MonadExceptOf.throw] at h
  · rename_i map hmap
    obtain ⟨-, h⟩ := guard_eq_ok.1 h
    obtain ⟨_, -, h⟩ := bind_eq_ok.1 h
    split at h
    · simp [throw, throwThe, MonadExceptOf.throw] at h
    · obtain ⟨code, -, h⟩ := bind_eq_ok.1 h
      obtain rfl := Except.ok.inj h
      have hencodes := (uses_operand hoperands hcategorical).1.categories map hmap
      refine ⟨uses_encode (uses_operand hoperands hraw).2 hencodes code, fun other hother => ?_⟩
      exact Option.some.inj hother ▸ hencodes

theorem uses_floats {d : Dialect} {terms : List Term} (h : floats d operands = .ok terms) :
    ∀ t ∈ terms, t.Uses V := by
  intro t ht
  obtain ⟨o, ho, hconvert⟩ := exists_of_mem_mapM h ht
  exact uses_convert (hoperands o ho).2 hconvert

theorem uses_compare {d : Dialect} {name : String} {term : Term} (h : compare d name operands = .ok term) :
    term.Uses V := by
  obtain ⟨left, hleft, h⟩ := bind_eq_ok.1 h
  obtain ⟨right, hright, h⟩ := bind_eq_ok.1 h
  obtain ⟨how, -, h⟩ := bind_eq_ok.1 h
  obtain rfl := Except.ok.inj h
  exact ⟨(uses_operand hoperands hleft).2, (uses_operand hoperands hright).2⟩

theorem uses_choice {name : String} {term : Term} (h : choice name operands = .ok term) : term.Uses V := by
  obtain ⟨condition, hcondition, h⟩ := bind_eq_ok.1 h
  obtain ⟨consequence, hconsequence, h⟩ := bind_eq_ok.1 h
  obtain ⟨alternative, halternative, h⟩ := bind_eq_ok.1 h
  obtain rfl := Except.ok.inj h
  have hcondition : Term.AllUse V [.compare .ne condition.2 (integer 0)] :=
    ⟨⟨(uses_operand hoperands hcondition).2, trivial⟩, trivial⟩
  have hconsequence : Term.AllUse V [consequence.2] := ⟨(uses_operand hoperands hconsequence).2, trivial⟩
  exact ⟨hcondition, hconsequence, (uses_operand hoperands halternative).2⟩

theorem uses_quantile {d : Dialect} {term : Term} (h : quantile d operands = .ok term) : term.Uses V := by
  obtain ⟨_, -, h⟩ := bind_eq_ok.1 h
  obtain ⟨level, -, h⟩ := bind_eq_ok.1 h
  obtain ⟨value, hvalue, h⟩ := bind_eq_ok.1 h
  obtain ⟨_, -, h⟩ := bind_eq_ok.1 h
  obtain rfl := Except.ok.inj h
  exact (uses_operand hoperands hvalue).2

theorem uses_plain {s : Source} (hs : s.Uses V) {op : Resolved} {term : Term} (h : plain s op operands = .ok term) :
    term.Uses V := by
  unfold plain at h
  split at h
  · exact Except.ok.inj h ▸ hs.order
  · obtain ⟨terms, hterms, h⟩ := bind_eq_ok.1 h
    exact uses_call (uses_floats hoperands hterms) h
  · obtain ⟨terms, hterms, h⟩ := bind_eq_ok.1 h
    exact uses_call (uses_floats hoperands hterms) h
  · exact uses_call (uses_terms hoperands) h
  · exact uses_choice hoperands h
  · exact uses_quantile hoperands h
  · split at h
    · exact uses_compare hoperands h
    · exact uses_call (uses_terms hoperands) h

end Operands

section Requests

variable {operands : List Operand} (hoperands : ∀ o ∈ operands, Operand.Uses (V.withLevels R database) o)

include hoperands

/-- The texts that a category map puts into a term are levels of the series that it is made of. -/
theorem uses_categorize (s : Source) :
    R.progress.Holds database (categorize s operands : Work δ Composed) fun later composed =>
      composed.Uses (V.withLevels R later) := by
  unfold categorize
  split
  · exact R.holds_throw
  · rename_i raw term more
    obtain ⟨hraw, hterm⟩ := hoperands _ List.mem_cons_self
    refine R.progress.lift_bind fun threshold _ => ?_
    refine R.progress.bind (Column.covers_values hraw) fun later series hlater hcovers => ?_
    refine R.progress.lift_bind fun built hbuild => R.progress.pure ?_
    have hencodes := hcovers.encodes (liftM_series_eq_ok.1 hbuild)
    refine ⟨uses_encode (hterm.mono (Vocabulary.withLevels_later hlater)) hencodes _, fun other hother => ?_⟩
    exact Option.some.inj hother ▸ hencodes

/-- A composed operation is made of its operands and of levels. -/
theorem uses_operation {s : Source} (hs : s.Uses (V.withLevels R database)) (op : Resolved) :
    R.progress.Holds database (operation s op operands : Work δ Composed) fun later composed =>
      composed.Uses (V.withLevels R later) := by
  unfold operation
  split
  · exact R.progress.lift fun composed h => uses_cast hoperands h
  · exact uses_categorize hoperands s
  · exact R.progress.lift fun composed h => uses_applyCategories hoperands h
  · refine R.progress.lift_bind fun term h => R.progress.pure ⟨uses_plain hoperands hs h, by simp⟩

end Requests

end Compose

/-! ## Frames -/

namespace Frame

structure Uses (V : Vocabulary) (f : Frame) : Prop where
  sound : f.Sound
  source : f.source.Uses V
  columns : ∀ c ∈ f.columns, c.Uses V
  names : ∀ c ∈ f.columns, V.Name c.name

/-- The frame uses a vocabulary and the names of its columns. -/
def Yields (V : Vocabulary) (f : Frame) : Prop :=
  ∀ ⦃W : Vocabulary⦄, V.Extends W → (∀ c ∈ f.columns, W.Name c.name) → f.Uses W

namespace Uses

variable {f g : Frame} (hf : f.Uses V)

include hf

theorem mono (hext : V.Extends W) : f.Uses W where
  sound := hf.sound
  source := hf.source.mono hext
  columns c hc := (hf.columns c hc).mono hext
  names c hc := hext.name _ (hf.names c hc)

theorem yields : f.Yields V := fun _ hext _ => hf.mono hext

theorem query : f.query.Uses V := by
  refine hf.source.select ?_ (by simp)
  rw [List.forall_mem_map]
  exact fun c hc => ⟨(hf.columns c hc).term, hf.names c hc⟩

theorem column? {name : String} {c : Column} (h : f.column? name = some c) : c.Uses V ∧ V.Name name := by
  obtain ⟨hc, rfl⟩ := hf.sound.index.mem_of_column? h
  exact ⟨hf.columns c hc, hf.names c hc⟩

theorem column {name : String} {c : Column} (h : f.column name = .ok c) : c.Uses V ∧ V.Name name :=
  hf.column? (column_ok h)

/-! ### Columns -/

theorem literal {v : Value} (hv : V.Admits v) {c : Column} (h : f.literal v = .ok c) : c.Uses V := by
  obtain rfl := literal_ok h
  refine ⟨hv, by simp, by simp, fun w hw => ?_, hf.source⟩
  exact Option.some.inj hw ▸ hv

theorem globalize {c d : Column} (hc : c.Uses V) (h : f.globalize c = .ok d) : d.Uses V := by
  obtain ⟨-, ⟨-, rfl⟩ | ⟨-, rfl⟩⟩ := globalize_ok h
  · exact hc
  · exact ⟨⟨hc.term, hf.source.isWord_name⟩, by simp, hc.categories, hc.constant, hc.source⟩

theorem append {c : Column} (hc : c.Uses V) (h : f.append c = .ok g) : g.Yields V := by
  have hsound := hf.sound.append h
  obtain ⟨-, rfl⟩ := append_ok h
  refine fun W hext hnames => ⟨hsound, hf.source.mono hext, fun d hd => ?_, hnames⟩
  rcases List.mem_append.1 hd with hd | hd
  · exact (hf.columns d hd).mono hext
  · obtain rfl := List.mem_singleton.1 hd
    have hc := hc.mono hext
    exact ⟨hc.term, hc.nesting, hc.categories, by simp, hc.source⟩

theorem drop {name : String} {c : Column} (h : f.drop name = .ok (c, g)) : g.Uses V := by
  have hsound := hf.sound.drop h
  have hsubset := drop_subset h
  obtain ⟨set, -, rfl⟩ := drop_ok h
  exact ⟨hsound, hf.source, fun e he => hf.columns e (hsubset he), fun e he => hf.names e (hsubset he)⟩

theorem nestAggregate {aggregate : Term} (ha : aggregate.Uses V) {term : Term}
    (h : f.nestAggregate aggregate = .rewritten term) : term.Uses V := by
  have hname := hf.source.isWord_name
  unfold Frame.nestAggregate at h
  split at h
  · obtain rfl := Nesting.rewritten.inj h
    exact ⟨ha, hname⟩
  · rename_i keys _
    split at h
    · simp at h
    · rename_i hkeys
      obtain rfl := Nesting.rewritten.inj h
      refine ⟨ha, hname, fun key hkey => ?_⟩
      -- A key of the source itself is found, so it is a name.
      have hsource : f.isSourceColumn key = true := by simpa using List.find?_eq_none.1 hkeys key hkey
      cases hcolumn : f.column? key with
      | none => simp [isSourceColumn, hcolumn] at hsource
      | some c => exact (hf.column? hcolumn).2

end Uses

/-! ### Operations -/

variable {f g : Frame} {args : List Column}

theorem uses_zip (hargs : ∀ c ∈ args, c.Uses V) {terms : List Term} (h : args.mapM nestedTerm = .ok terms) :
    ∀ o ∈ args.zip terms, Operand.Uses V o := by
  intro o ho
  obtain ⟨hc, ht⟩ := List.of_mem_zip ho
  obtain ⟨c, hc', hterm⟩ := exists_of_mem_mapM h ht
  exact ⟨hargs _ hc, (hargs c hc').nestedTerm hterm⟩

section Requests

variable (hf : f.Uses (V.withLevels R database)) (hargs : ∀ c ∈ args, c.Uses (V.withLevels R database))

include hf hargs

theorem uses_executeScalar (op : Resolved) (scope : Scope) :
    R.progress.Holds database (f.executeScalar op args scope : Work δ Column) fun later c =>
      c.Uses (V.withLevels R later) := by
  unfold executeScalar
  split
  · exact R.holds_throw
  · rename_i terms hterms
    have hcomposed := Compose.uses_operation (uses_zip hargs hterms) hf.source op
    refine R.progress.bind hcomposed fun later composed hlater hc => R.progress.pure ?_
    have hf := hf.mono (Vocabulary.withLevels_later hlater)
    refine ⟨?_, fun term => hf.nestAggregate hc.term, hc.categories, by simp, hf.source⟩
    cases scope with
    | rows => exact hc.term
    | groups => exact hc.term

theorem uses_executeRows (op : Resolved) :
    R.progress.Holds database (f.executeRows op args : Work δ Column) fun later c =>
      c.Uses (V.withLevels R later) := by
  have hplain : ∀ o ∈ args.map fun c => (c, c.term), Operand.Uses (V.withLevels R database) o := by
    rw [List.forall_mem_map]
    exact fun c hc => ⟨hargs c hc, (hargs c hc).term⟩
  unfold executeRows
  refine R.progress.bind (Compose.uses_operation hplain hf.source op) fun later composed hlater hc => ?_
  have hext := Vocabulary.withLevels_later (V := V) hlater
  have hsource := hf.source.mono hext
  split
  · exact R.progress.pure ⟨hc.term, by simp, hc.categories, by simp, hsource⟩
  · split
    · exact R.progress.pure ⟨hc.term, by simp, hc.categories, by simp, hsource⟩
    · rename_i terms hterms
      have hnested := Compose.uses_operation (uses_zip (fun c hc => (hargs c hc).mono hext) hterms) hsource op
      refine R.progress.bind hnested fun latest nested hlatest hn => R.progress.pure ?_
      have hext := Vocabulary.withLevels_later (V := V) hlatest
      refine ⟨hc.term.mono hext, fun term hterm => ?_, fun map hmap => (hc.categories map hmap).mono hext, by simp,
        hsource.mono hext⟩
      exact Nesting.rewritten.inj hterm ▸ hn.term

/-- A column that an operation gives is made of the columns it is given and of levels. -/
theorem uses_execute (op : Resolved) (scope : Scope) :
    R.progress.Holds database (f.execute op args scope : Work δ Column) fun later c =>
      c.Uses (V.withLevels R later) := by
  have hchecks : R.progress.Holds database (args.forM (m := Work δ) fun c => liftM (f.checkSource c)) fun _ _ => True :=
    R.progress.forM fun _ _ _ => R.progress.lift fun _ _ => trivial
  unfold execute
  refine R.progress.bind hchecks fun later _ hlater _ => ?_
  have hext := Vocabulary.withLevels_later (V := V) hlater
  have hf := hf.mono hext
  have hargs := fun c hc => (hargs c hc).mono hext
  split
  · exact uses_executeScalar hf hargs op scope
  · exact uses_executeRows hf hargs op

end Requests

/-! ### New frames -/

theorem uses_ofOutputs {source : Source} (hsource : source.Uses V) {outputs : List Output}
    (hcategories : ∀ o ∈ outputs, ∀ map, o.categories = some map → V.Encodes map)
    (hnames : ∀ o ∈ outputs, V.Name o.name) : (ofOutputs source outputs).Uses V := by
  refine ⟨sound_ofOutputs source outputs, hsource, ?_, ?_⟩
  · rw [columns_ofOutputs, List.forall_mem_map]
    exact fun o ho => ⟨hnames o ho, by simp [Output.column], hcategories o ho, by simp [Output.column], hsource⟩
  · rw [columns_ofOutputs, List.forall_mem_map]
    exact hnames

theorem names_ofOutputs {source : Source} {outputs : List Output}
    (h : ∀ c ∈ (ofOutputs source outputs).columns, W.Name c.name) : ∀ o ∈ outputs, W.Name o.name := by
  rw [columns_ofOutputs, List.forall_mem_map] at h
  exact h

/-- All columns of a table. -/
theorem yields_ofTable {dialect : Dialect} {table : String} {options : Options} (htable : V.Name table)
    (hword : IsWord options.temporaryAlias) :
    R.progress.Holds database (ofTable dialect table options : Work δ Frame) fun later f =>
      f.Yields (V.withLevels R later) := by
  refine R.progress.bind (R.holds_types _) fun _ types _ _ => ?_
  refine R.progress.bind R.holds_freshMark fun later mark _ _ => R.progress.pure fun W hext hnames => ?_
  have hsource : Source.Uses W { mark, dialect, query := .table table, depth := 0, order := none, options } :=
    ⟨hword, hext.name table htable, by simp⟩
  refine uses_ofOutputs hsource ?_ (names_ofOutputs hnames)
  rw [List.forall_mem_map]
  simp

/-! ### Rows and groups -/

section Rearranged

variable (hf : f.Uses (V.withLevels R database))

include hf

theorem yields_sort (ascending : Bool) (keys : List String) :
    R.progress.Holds database (f.sort ascending keys : Work δ Frame) fun later g =>
      g.Yields (V.withLevels R later) := by
  refine R.progress.lift_bind fun found hfound => ?_
  refine R.progress.bind (R.holds_derive _ _ _) ?_
  rintro later _ hlater ⟨mark, rfl⟩
  refine R.progress.pure fun W hext hnames => ?_
  have hf := (hf.mono (Vocabulary.withLevels_later hlater)).mono hext
  have hkeys : SortOrder.Uses W ⟨keys, ascending⟩ := by
    intro key hkey
    obtain ⟨c, -, hc⟩ := exists_of_mem_forall₂ (mapM_eq_ok.1 hfound).flip hkey
    exact (hf.column hc).2
  have hsource : Source.Uses W { f.source with
      mark, query := f.query, depth := f.source.depth + 1, order := some ⟨keys, ascending⟩ } :=
    ⟨hf.source.word, hf.query, fun o ho => Option.some.inj ho ▸ hkeys⟩
  refine uses_ofOutputs hsource ?_ (names_ofOutputs hnames)
  rw [List.forall_mem_map]
  exact fun c hc => (hf.columns c hc).categories

end Rearranged

/-- A field of a grouped statement, named as its output is. -/
structure GroupField.Uses (V : Vocabulary) (p : GroupField) : Prop where
  term : p.1.term.Uses V
  name : p.1.name = p.2.name
  categories : ∀ map, p.2.categories = some map → V.Encodes map

theorem GroupField.Uses.mono (hext : V.Extends W) {p : GroupField} (h : GroupField.Uses V p) : GroupField.Uses W p :=
  ⟨h.term.mono hext, h.name, fun map hmap => (h.categories map hmap).mono hext⟩

theorem Uses.keyField (hf : f.Uses V) {key : String} {p : GroupField} (h : f.keyField key = .ok p) :
    GroupField.Uses V p := by
  obtain ⟨c, hc, h⟩ := bind_eq_ok.1 h
  obtain rfl := Except.ok.inj h
  have hc := (hf.column hc).1
  exact ⟨hc.term, rfl, hc.categories⟩

/-- The reducer gives a column of the vocabulary when both of its frames have one. -/
def Reduces (V : Vocabulary) (R : Record δ) (r : Reducer (Work δ) Frame Column) : Prop :=
  ∀ database g w, Uses (V.withLevels R database) g → Uses (V.withLevels R database) w →
    R.progress.Holds database (r.run g w) fun later c => c.Uses (V.withLevels R later)

theorem uses_reduce (hf : f.Uses (V.withLevels R database)) {keys : List String} {fields : List GroupField}
    {r : Reducer (Work δ) Frame Column} (hr : Reduces V R r) :
    R.progress.Holds database (f.reduce keys fields r) fun later p => GroupField.Uses (V.withLevels R later) p := by
  have hgroup : Uses (V.withLevels R database) { f with groupKeys := some keys } :=
    ⟨⟨hf.sound.index, hf.sound.constants⟩, hf.source, hf.columns, hf.names⟩
  refine R.holds_guard (R.progress.bind (hr database _ f hgroup hf) fun later c _ hc => ?_)
  exact R.holds_guard (R.progress.pure ⟨hc.term, rfl, hc.categories⟩)

theorem uses_fields (hf : f.Uses (V.withLevels R database)) {keys : List String}
    {reducers : List (Reducer (Work δ) Frame Column)} (hreducers : ∀ r ∈ reducers, Reduces V R r)
    {keyFields : List GroupField} (hkeys : ∀ p ∈ keyFields, GroupField.Uses (V.withLevels R database) p) :
    R.progress.Holds database
      (reducers.foldlM (fun fields r => do return fields ++ [← f.reduce keys fields r]) keyFields : Work δ _)
      fun later fields => ∀ p ∈ fields, GroupField.Uses (V.withLevels R later) p := by
  refine R.progress.foldlM (fun r hr later fields hlater hfields => ?_) hkeys
  have hf := hf.mono (Vocabulary.withLevels_later hlater)
  refine R.progress.bind (uses_reduce hf (hreducers r hr)) fun latest p hlatest hp => R.progress.pure ?_
  rw [List.forall_mem_append, List.forall_mem_singleton]
  exact ⟨fun q hq => (hfields q hq).mono (Vocabulary.withLevels_later hlatest), hp⟩

/-- Groups are made of their keys and of what the reducers give. -/
theorem yields_group (hf : f.Uses (V.withLevels R database)) {keys : List String}
    {reducers : List (Reducer (Work δ) Frame Column)} (hreducers : ∀ r ∈ reducers, Reduces V R r) :
    R.progress.Holds database (f.group keys reducers) fun later g => g.Yields (V.withLevels R later) := by
  refine R.progress.lift_bind fun keyFields hkeyFields => ?_
  have hkeys : ∀ p ∈ keyFields, GroupField.Uses (V.withLevels R database) p := by
    intro p hp
    obtain ⟨key, -, hkey⟩ := exists_of_mem_mapM hkeyFields hp
    exact hf.keyField hkey
  refine R.progress.bind (uses_fields hf hreducers hkeys) fun later fields hlater hfields => ?_
  refine R.progress.bind (R.holds_derive _ _ _) ?_
  rintro latest _ hlatest ⟨mark, rfl⟩
  refine R.progress.pure fun W hext hnames => ?_
  have hlater := R.progress.trans hlater hlatest
  have hf := (hf.mono (Vocabulary.withLevels_later hlater)).mono hext
  have hfields := fun p hp => ((hfields p hp).mono (Vocabulary.withLevels_later hlatest)).mono hext
  have hkeys := fun p hp => ((hkeys p hp).mono (Vocabulary.withLevels_later hlater)).mono hext
  -- The names of the fields are those of the new columns.
  have hnames := names_ofOutputs hnames
  rw [List.forall_mem_map] at hnames
  have hquery : (f.source.select (fields.map (·.1)) (keyFields.map (·.1.term))).Uses W := by
    refine hf.source.select ?_ ?_
    · rw [List.forall_mem_map]
      exact fun p hp => ⟨(hfields p hp).term, (hfields p hp).name ▸ hnames p hp⟩
    · rw [List.forall_mem_map]
      exact fun p hp => (hkeys p hp).term
  have hsource : Source.Uses W { f.source with
      mark, query := f.source.select (fields.map (·.1)) (keyFields.map (·.1.term)),
      depth := f.source.depth + 1, order := none } :=
    ⟨hf.source.word, hquery, by simp⟩
  refine uses_ofOutputs hsource ?_ ?_
  · rw [List.forall_mem_map]
    exact fun p hp => (hfields p hp).categories
  · rw [List.forall_mem_map]
    exact hnames

/-! ## Formulas -/

/-- SQL frames use a vocabulary that grows by the levels that the database gives. -/
def contract (V : Vocabulary) (R : Record δ) : (backend : Backend (Work δ) Frame Column).Contract R.progress where
  GoodFrame database f := f.Uses (V.withLevels R database)
  GoodResult database f := f.Yields (V.withLevels R database)
  GoodColumn database c := c.Uses (V.withLevels R database)
  GoodText := V.Text
  frameLater hlater hf := hf.mono (Vocabulary.withLevels_later hlater)
  columnLater hlater hc := hc.mono (Vocabulary.withLevels_later hlater)
  result hf := hf.yields
  column? hf hc := (hf.column? hc).1
  rename name hc := hc.rename name
  literal := by
    intro database f v hf htext
    refine R.progress.lift fun c hc => hf.literal ?_ hc
    cases v with
    | string text => exact .inl (htext text rfl)
    | _ => trivial
  execute op scope _ hf hargs := uses_execute hf hargs op scope
  sort ascending keys hf := yields_sort hf ascending keys
  group _ hf hreducers := yields_group hf hreducers
  globalize hf hc := R.progress.lift fun _ hd => hf.globalize hc hd
  append hf hc := R.progress.lift fun _ hg => hf.append hc hg
  values hc := R.progress.mono (Column.covers_values hc) fun _ _ _ => trivial

end Frame

end Tabular.Sql
