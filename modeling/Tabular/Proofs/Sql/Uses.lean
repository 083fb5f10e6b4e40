-- SUMMARY: The names and texts that terms and queries use, and that nothing else stands between their quotes.
import Tabular.Proofs.Sql.Spelling

/-!
# Names and texts of queries

A term or query uses a vocabulary if it is made of names and texts of that vocabulary, whatever they look like, and
gives its sources plain words as names. Then its text is one closed piece, in every dialect.
-/

namespace Tabular.Sql

variable {V W : Vocabulary}

/-- A vocabulary that knows more. -/
structure Vocabulary.Extends (V W : Vocabulary) : Prop where
  name (n : String) : V.Name n → W.Name n
  text (t : String) : V.Text t → W.Text t

theorem Vocabulary.Extends.admits (h : V.Extends W) {v : Value} (hv : V.Admits v) : W.Admits v := by
  cases v with
  | string s => exact h.text s hv
  | _ => trivial

/-! ## Terms -/

/-- Sort keys are names of the vocabulary. -/
def SortOrder.Uses (V : Vocabulary) (o : SortOrder) : Prop := ∀ key ∈ o.keys, V.Name key

mutual

/-- The term is made of names and texts of the vocabulary. -/
def Term.Uses (V : Vocabulary) : Term → Prop
  | .column name => V.Name name
  | .literal value => V.Admits value
  | .convert _ operand => operand.Uses V
  | .compare _ left right => left.Uses V ∧ right.Uses V
  | .case conditions values otherwise => Term.AllUse V conditions ∧ Term.AllUse V values ∧ otherwise.Uses V
  | .call _ args => Term.AllUse V args
  | .rowNumber order => ∀ o, order = some o → o.Uses V
  | .quantile operand _ => operand.Uses V
  | .broadcast aggregate => aggregate.Uses V
  | .overSource aggregate source => aggregate.Uses V ∧ IsWord source
  | .overGroup aggregate source keys => aggregate.Uses V ∧ IsWord source ∧ ∀ key ∈ keys, V.Name key

def Term.AllUse (V : Vocabulary) : List Term → Prop
  | [] => True
  | term :: more => term.Uses V ∧ Term.AllUse V more

end

theorem Term.allUse_iff {terms : List Term} : Term.AllUse V terms ↔ ∀ t ∈ terms, t.Uses V := by
  induction terms with
  | nil => simp [AllUse]
  | cons term more ih => rw [AllUse, ih, List.forall_mem_cons]

theorem SortOrder.Uses.spells {o : SortOrder} (h : o.Uses V) : Spells V 0 0 o.text := by
  refine spells_orderBy ?_ o.ascending
  rw [List.forall_mem_map]
  exact fun key hkey => spells_ident (h key hkey) 0

/-- The order of a source, if it has one. -/
theorem spells_order {order : Option SortOrder} (h : ∀ o, order = some o → o.Uses V) :
    ∀ text, order.map SortOrder.text = some text → Spells V 0 0 text := by
  intro text htext
  obtain ⟨o, ho, rfl⟩ := Option.map_eq_some_iff.1 htext
  exact (h o ho).spells

mutual

/-- The text of a term is a closed piece. -/
theorem Term.Uses.spells (d : Dialect) {t : Term} (h : t.Uses V) : Spells V 0 0 (t.text d) := by
  cases t with
  | column name => exact spells_ident h 0
  | literal value => exact spells_literal h 0
  | convert how operand => exact spells_convert (Uses.spells d (t := operand) h) how
  | compare how left right => exact spells_compare how (Uses.spells d (t := left) h.1) (h.2.spells d)
  | case conditions values otherwise =>
    exact spells_case (AllUse.spells d h.1) (AllUse.spells d h.2.1) (h.2.2.spells d)
  | call function args =>
    have hargs : Term.AllUse V args := h
    exact spells_call (AllUse.spells d hargs) function
  | rowNumber order => exact spells_rowNumber (spells_order h)
  | quantile operand level => exact spells_quantile (Uses.spells d (t := operand) h) level
  | broadcast aggregate => exact spells_broadcast (Uses.spells d (t := aggregate) h)
  | overSource aggregate source => exact spells_scalarSubquery (h.1.spells d) h.2
  | overGroup aggregate source keys =>
    refine spells_groupSubquery d (h.1.spells d) h.2.1 ?_
    rw [List.forall_mem_map]
    exact fun key hkey => spells_ident (h.2.2 key hkey) 0

theorem Term.AllUse.spells (d : Dialect) {terms : List Term} (h : Term.AllUse V terms) :
    ∀ text ∈ Term.texts d terms, Spells V 0 0 text := by
  cases terms with
  | nil => simp [Term.texts]
  | cons term more =>
    rw [Term.texts, List.forall_mem_cons]
    exact ⟨h.1.spells d, AllUse.spells d h.2⟩

end

mutual

theorem Term.Uses.mono (hext : V.Extends W) {t : Term} (h : t.Uses V) : t.Uses W := by
  cases t with
  | column name => exact hext.name name h
  | literal value => exact hext.admits h
  | convert how operand => exact Uses.mono hext (t := operand) h
  | compare how left right => exact ⟨h.1.mono hext, h.2.mono hext⟩
  | case conditions values otherwise => exact ⟨AllUse.mono hext h.1, AllUse.mono hext h.2.1, h.2.2.mono hext⟩
  | call function args =>
    have hargs : Term.AllUse V args := h
    exact AllUse.mono hext hargs
  | rowNumber order => exact fun o ho key hkey => hext.name key (h o ho key hkey)
  | quantile operand level => exact Uses.mono hext (t := operand) h
  | broadcast aggregate => exact Uses.mono hext (t := aggregate) h
  | overSource aggregate source => exact ⟨h.1.mono hext, h.2⟩
  | overGroup aggregate source keys =>
    exact ⟨h.1.mono hext, h.2.1, fun key hkey => hext.name key (h.2.2 key hkey)⟩

theorem Term.AllUse.mono (hext : V.Extends W) {terms : List Term} (h : Term.AllUse V terms) :
    Term.AllUse W terms := by
  cases terms with
  | nil => trivial
  | cons term more => exact ⟨h.1.mono hext, AllUse.mono hext h.2⟩

end

/-! ## Queries -/

/-- A field and its name. -/
structure Field.Uses (V : Vocabulary) (f : Field) : Prop where
  term : f.term.Uses V
  name : V.Name f.name

theorem Field.Uses.spells (d : Dialect) {f : Field} (h : f.Uses V) : Spells V 0 0 (f.text d) :=
  spells_field (h.term.spells d) h.name

/-- The query is made of names and texts of the vocabulary. Of a statement that is given as text nothing is known. -/
def Query.Uses (V : Vocabulary) : Query → Prop
  | .statement _ => False
  | .table name => V.Name name
  | .select name source fields groupBy order =>
    IsWord name ∧ source.Uses V ∧ (∀ f ∈ fields, f.Uses V) ∧ (∀ t ∈ groupBy, t.Uses V) ∧
      ∀ o, order = some o → o.Uses V
  | .literals rows => ∀ fields ∈ rows, ∀ f ∈ fields, f.Uses V

/-- The text of a query is a closed piece. -/
theorem Query.Uses.spells (d : Dialect) {q : Query} (h : q.Uses V) : Spells V 0 0 (q.text d) := by
  induction q with
  | statement text => exact h.elim
  | table name => exact spells_table h
  | select name source fields groupBy order ih =>
    obtain ⟨hname, hsource, hfields, hgroup, horder⟩ := h
    refine spells_select hname (ih hsource) ?_ ?_ (spells_order horder)
    · rw [List.forall_mem_map]
      exact fun f hf => (hfields f hf).spells d
    · rw [List.forall_mem_map]
      exact fun t ht => (hgroup t ht).spells d
  | literals rows =>
    refine spells_unionAll ?_
    rw [List.forall_mem_map]
    intro fields hfields
    refine spells_row ?_
    rw [List.forall_mem_map]
    exact fun f hf => (h fields hfields f hf).spells d

theorem Query.Uses.mono (hext : V.Extends W) {q : Query} (h : q.Uses V) : q.Uses W := by
  have hfield : ∀ f : Field, f.Uses V → f.Uses W := fun f hf => ⟨hf.term.mono hext, hext.name _ hf.name⟩
  induction q with
  | statement text => exact h
  | table name => exact hext.name name h
  | select name source fields groupBy order ih =>
    obtain ⟨hname, hsource, hfields, hgroup, horder⟩ := h
    exact ⟨hname, ih hsource, fun f hf => hfield f (hfields f hf), fun t ht => (hgroup t ht).mono hext,
      fun o ho key hkey => hext.name key (horder o ho key hkey)⟩
  | literals rows => exact fun fields hfields f hf => hfield f (h fields hfields f hf)

end Tabular.Sql
