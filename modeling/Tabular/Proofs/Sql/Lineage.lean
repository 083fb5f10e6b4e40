-- SUMMARY: In the statements of frames that come from a table, no name and no text escapes its quotes.
import Tabular.Proofs.Evaluation.Grouping
import Tabular.Proofs.Formula.Reread
import Tabular.Proofs.Sql.Vocabulary
import Tabular.Sql.Store

/-!
# Statements of frames that come from a table

A frame comes from a table by formulas, by dropping columns, by sorting and by grouping. What led to it is its past:
the frames before it, the formulas of the steps and the sessions that the steps left. The past tells which names and
texts can be in a statement: those of the table, of columns and of formulas, dates, and levels of what was fetched. A
statement is contained whatever they look like, so nothing that is written in them is read as SQL.
-/

namespace Tabular.Sql.Frame

variable {δ : Type}

/-- What led to a frame. -/
structure Past (δ : Type) where
  frames : List Frame
  formulas : List Expr
  sessions : List (Session δ)

namespace Past

/-- A step from a frame. -/
def step (past : Past δ) (f : Frame) (formulas : List Expr) (after : Session δ) : Past δ :=
  ⟨f :: past.frames, formulas ++ past.formulas, after :: past.sessions⟩

/-- The name of the table, or of a column of the frame or of one before it. -/
def Name (past : Past δ) (table : String) (f : Frame) (name : String) : Prop :=
  name = table ∨ ∃ g ∈ f :: past.frames, ∃ c ∈ g.columns, c.name = name

variable [Database δ]

/-- The texts that can be in a statement. -/
inductive Text (past : Past δ) (R : Record δ) : String → Prop
  | quotation {e : Expr} {text : String} (he : e ∈ past.formulas) (h : text ∈ e.quotations) : Text past R text
  | date (d : Date) : Text past R d.text
  | level {session : Session δ} {text : String} (hsession : session ∈ past.sessions)
      (h : R.IsLevel session.database text) : Text past R text
  | dateCode : Text past R "%Y%m%d"
  | dateFormat : Text past R "%04d-%02d-%02d"

def vocabulary (past : Past δ) (R : Record δ) (table : String) (f : Frame) : Vocabulary where
  Name := past.Name table f
  Text := past.Text R
  dateCode := .dateCode
  dateFormat := .dateFormat
  date := .date

variable {past : Past δ} {R : Record δ} {table : String} {f g : Frame} {formulas : List Expr} {after : Session δ}

omit [Database δ] in
/-- Names of columns stay known as long as their frames do. -/
theorem Name.mono {past' : Past δ} {name : String} (h : past.Name table f name)
    (hframes : f :: past.frames ⊆ g :: past'.frames) : past'.Name table g name := by
  rcases h with h | ⟨u, hu, hname⟩
  · exact .inl h
  · exact .inr ⟨u, hframes hu, hname⟩

theorem Text.mono {past' : Past δ} {text : String} (h : past.Text R text)
    (hformulas : past.formulas ⊆ past'.formulas) (hsessions : past.sessions ⊆ past'.sessions) : past'.Text R text := by
  cases h with
  | quotation he h => exact .quotation (hformulas he) h
  | date d => exact .date d
  | level hsession h => exact .level (hsessions hsession) h
  | dateCode => exact .dateCode
  | dateFormat => exact .dateFormat

/-- Before a step, a frame uses what is known after it. -/
theorem uses_before (hf : f.Uses (past.vocabulary R table f)) (formulas : List Expr) (session after : Session δ) :
    f.Uses (((past.step f formulas after).vocabulary R table f).withLevels R session.database) := by
  refine hf.mono ⟨fun name hname => hname.mono (by simp [step]), fun text htext => .inl ?_⟩
  exact htext.mono (List.subset_append_right _ _) (List.subset_cons_self _ _)

/-- What was given up to the session that a step leaves is known after it. -/
theorem text_of_withLevels {text : String}
    (h : (((past.step f formulas after).vocabulary R table g).withLevels R after.database).Text text) :
    (past.step f formulas after).Text R text := by
  rcases h with h | h
  · exact h
  · exact .level List.mem_cons_self h

/-- The frame that a step gives uses what is known after the step. -/
theorem uses_step (h : g.Yields (((past.step f formulas after).vocabulary R table f).withLevels R after.database)) :
    g.Uses ((past.step f formulas after).vocabulary R table g) := by
  refine h ⟨fun name hname => ?_, fun _ => text_of_withLevels⟩ fun c hc => ?_
  · have hname : (past.step f formulas after).Name table f name := hname
    exact hname.mono (by simp [step])
  · exact .inr ⟨g, List.mem_cons_self, c, hc, rfl⟩

end Past

/-! ## What formulas give -/

variable [Database δ]

/-- What a formula gives over a frame, also where it is read as an assignment. -/
def Gives (f : Frame) (text : String) (session : Session δ) (result : Evaluated Frame Column)
    (after : Session δ) : Prop :=
  f.evaluate text session = (.ok result, after) ∨ ∃ g, f.assign text session = (.ok (g, some result), after)

/-- An assignment leaves the frame as it is or adds a column to it. -/
theorem assign_frame {f g : Frame} {Q : Frame → Prop} {text : String} {session : Session δ}
    {result : Option (Evaluated Frame Column)} (hf : Q f) (happend : ∀ c g, f.append c = .ok g → Q g)
    (h : (f.assign text session).1 = .ok (g, result)) : Q g := by
  have hassign := Backend.holds_assign_frame (B := (backend : Backend (Work δ) Frame Column)) (P := fun _ _ => True)
    (fun _ => trivial) Work.partialResult_any (fun _ _ => Work.partialResult_any _)
    (fun _ _ => Work.partialResult_any _) hf (fun c => Work.partialResult_lift (happend c)) text
  exact (Work.partialResult_iff.1 hassign _ _ h).1

/-- A frame that a formula gives is sorted or grouped, so it has what sorting and grouping promise. -/
theorem Gives.rearranged {f g : Frame} {P : Option (List String × List (String × Expr)) → Frame → Prop} {text : String}
    {formula : Formula} {session after : Session δ} {result : Evaluated Frame Column}
    (h : f.Gives text session result after)
    (hsort : ∀ ascending keys, Work.partialResult.Holds (f.sort ascending keys : Work δ Frame) (P none))
    (hgroup : ∀ keys formulas,
      Work.partialResult.Holds (f.group keys (formulas.map backend.reducer) : Work δ Frame) (P (some (keys, formulas))))
    (htext : Formula.ofText text = .ok formula) (hg : result.outcome = .frame g) : P formula.expr.grouping g := by
  rcases h with h | ⟨t, h⟩
  · have hevaluate := Backend.holds_evaluate_frame (B := (backend : Backend (Work δ) Frame Column)) (fun _ => trivial)
      Work.partialResult_any hsort hgroup text
    exact Work.partialResult_iff.1 hevaluate _ _ (congrArg Prod.fst h) _ _ hg htext
  · have hassign := Backend.holds_assign_frame (B := (backend : Backend (Work δ) Frame Column)) (Q := fun _ => True)
      (fun _ => trivial) Work.partialResult_any hsort hgroup trivial (fun _ => Work.partialResult_any _) text
    exact (Work.partialResult_iff.1 hassign _ _ (congrArg Prod.fst h)).2 _ _ _ rfl hg htext

/-- What depends on the keys of the groups alone. -/
theorem Gives.frame {f g : Frame} {P : Option (List String) → Frame → Prop} {text : String} {formula : Formula}
    {session after : Session δ} {result : Evaluated Frame Column} (h : f.Gives text session result after)
    (hsort : ∀ ascending keys, Work.partialResult.Holds (f.sort ascending keys : Work δ Frame) (P none))
    (hgroup : ∀ keys (formulas : List (String × Expr)),
      Work.partialResult.Holds (f.group keys (formulas.map backend.reducer) : Work δ Frame) (P (some keys)))
    (htext : Formula.ofText text = .ok formula) (hg : result.outcome = .frame g) : P formula.expr.groupedBy g := by
  rw [Expr.groupedBy_eq]
  exact h.rearranged (P := fun grouping g => P (grouping.map Prod.fst) g) hsort hgroup htext hg

/-! ## Frames that come from a table -/

/-- Frames that come from a table, with their past. -/
inductive Lineage (dialect : Dialect) (table : String) (options : Options) : Past δ → Frame → Prop
  | ofTable {f : Frame} {session after : Session δ}
      (h : Frame.ofTable dialect table options session = (.ok f, after)) :
      Lineage dialect table options ⟨[], [], [after]⟩ f
  | assign {past : Past δ} {f g : Frame} {text : String} {formula : Formula} {session after : Session δ}
      {result : Option (Evaluated Frame Column)} (hf : Lineage dialect table options past f)
      (htext : Formula.ofText text = .ok formula) (h : f.assign text session = (.ok (g, result), after)) :
      Lineage dialect table options (past.step f [formula.expr] after) g
  | evaluate {past : Past δ} {f g : Frame} {text : String} {formula : Formula} {session after : Session δ}
      {result : Evaluated Frame Column} (hf : Lineage dialect table options past f)
      (htext : Formula.ofText text = .ok formula) (h : f.Gives text session result after)
      (hg : result.outcome = .frame g) : Lineage dialect table options (past.step f [formula.expr] after) g
  | drop {past : Past δ} {f g : Frame} {name : String} {c : Column} (hf : Lineage dialect table options past f)
      (h : f.drop name = .ok (c, g)) :
      Lineage dialect table options { past with frames := f :: past.frames } g
  | sort {past : Past δ} {f g : Frame} {ascending : Bool} {keys : List String} {session after : Session δ}
      (hf : Lineage dialect table options past f) (h : f.sort ascending keys session = (.ok g, after)) :
      Lineage dialect table options (past.step f [] after) g
  | group {past : Past δ} {f g : Frame} {keys : List String} {formulas : List (String × Expr)}
      {session after : Session δ} (hf : Lineage dialect table options past f)
      (h : f.group keys (formulas.map backend.reducer) session = (.ok g, after)) :
      Lineage dialect table options (past.step f (formulas.map (·.2)) after) g

variable {R : Record δ} {dialect : Dialect} {table : String} {options : Options} {past : Past δ} {f : Frame}

/-- The texts of the formulas of a step are known after it. -/
theorem goodFormula {formulas : List Expr} {after : Session δ} {e : Expr} (he : e ∈ formulas) :
    (contract ((past.step f formulas after).vocabulary R table f) R).GoodFormula e :=
  fun _ hcontent => .quotation (List.mem_append_left _ he) hcontent

section Formulas

variable (hf : f.Uses (past.vocabulary R table f)) {text : String} {formula : Formula}
  (htext : Formula.ofText text = .ok formula) {session after : Session δ}

include hf htext

/-- An assignment leaves what is made of the names and texts that are known after it. -/
theorem good_assign {g : Frame} {result : Option (Evaluated Frame Column)}
    (h : f.assign text session = (.ok (g, result), after)) :
    let K := contract ((past.step f [formula.expr] after).vocabulary R table f) R
    K.GoodResult after.database g ∧ ∀ given, result = some given → K.GoodOutcome after.database given.outcome := by
  intro K
  refine R.of_holds (K.holds_assign (Past.uses_before hf _ session after) fun read hread => ?_) h
  obtain rfl : formula = read := Except.ok.inj (htext.symm.trans hread)
  exact goodFormula List.mem_cons_self

/-- What a formula gives is made of the names and texts that are known after it. -/
theorem good_gives {result : Evaluated Frame Column} (h : f.Gives text session result after) :
    (contract ((past.step f [formula.expr] after).vocabulary R table f) R).GoodOutcome after.database
      result.outcome := by
  rcases h with h | ⟨g, h⟩
  · have hbefore := Past.uses_before hf [formula.expr] session after
    have hgood := R.of_holds ((contract _ R).holds_evaluate hbefore fun read hread => ?_) h
    · exact hgood
    · obtain rfl : formula = read := Except.ok.inj (htext.symm.trans hread)
      exact goodFormula List.mem_cons_self
  · exact (good_assign hf htext h).2 result rfl

end Formulas

/-- A frame that comes from a table is made of the names and texts of its past. -/
theorem Lineage.uses (R : Record δ) (hword : IsWord options.temporaryAlias)
    (h : Lineage dialect table options past f) : f.Uses (past.vocabulary R table f) := by
  induction h with
  | @ofTable f session after h =>
    have hyields := R.of_holds (yields_ofTable (V := Past.vocabulary ⟨[], [], [after]⟩ R table f) (.inl rfl) hword) h
    refine hyields ⟨fun _ hname => hname, ?_⟩ fun c hc => .inr ⟨f, List.mem_cons_self, c, hc, rfl⟩
    rintro text (htext | htext)
    · exact htext
    · exact .level List.mem_cons_self htext
  | assign hf htext h ih => exact Past.uses_step (good_assign ih htext h).1
  | evaluate hf htext h hg ih =>
    have hgood := good_gives ih htext h
    rw [hg] at hgood
    exact Past.uses_step hgood
  | drop hf h ih =>
    refine (ih.drop h).mono ⟨fun name hname => Past.Name.mono hname (by simp), fun text htext => ?_⟩
    exact Past.Text.mono htext (List.Subset.refl _) (List.Subset.refl _)
  | @sort past f g ascending keys session after hf h ih =>
    exact Past.uses_step (R.of_holds (yields_sort (Past.uses_before ih [] session after) ascending keys) h)
  | @group past f g keys formulas session after hf h ih =>
    have hbefore := Past.uses_before ih (formulas.map (·.2)) session after
    have hreducers : ∀ r ∈ formulas.map backend.reducer,
        Reduces ((past.step f (formulas.map (·.2)) after).vocabulary R table f) R r := by
      rw [List.forall_mem_map]
      exact fun named hnamed => (contract _ R).goodReducer (goodFormula (List.mem_map_of_mem hnamed))
    exact Past.uses_step (R.of_holds (yields_group hbefore hreducers) h)

/-! ## Statements -/

/-- Whatever names and texts look like, the statements of a frame that comes from a table, and of the columns that
    formulas give over it, close all quotes and parentheses and begin no comment. Between double quotes stand names
    of the table and of columns, between single quotes texts of formulas, dates, levels and formats. -/
theorem Lineage.statements_contained (R : Record δ) (halias : isName options.temporaryAlias.toList = true)
    (h : Lineage dialect table options past f) (d : Dialect) :
    Contained (past.Name table f) (past.Text R) (f.query.text d) ∧
      ∀ {text : String} {formula : Formula} {session after : Session δ} {result : Evaluated Frame Column} {c : Column},
        Formula.ofText text = .ok formula → f.Gives text session result after → result.outcome = .column c →
          Contained (fun name => past.Name table f name ∨ name = c.name)
            ((past.step f [formula.expr] after).Text R) (c.query.text d) := by
  have hword : IsWord options.temporaryAlias := fun c hc =>
    isInert_of_isNamePart (forall_isNamePart_of_isName halias c hc)
  have hf := h.uses R hword
  refine ⟨(hf.query.spells d).contained, ?_⟩
  intro text formula session after result c htext hgives hc
  have hgood := good_gives hf htext hgives
  rw [hc] at hgood
  -- The name that the column is given is known beside those of the frames.
  let known : Vocabulary :=
    { (past.step f [formula.expr] after).vocabulary R table f with
      Name := fun name => past.Name table f name ∨ name = c.name }
  have hgood : c.Uses _ := hgood
  have hknown : c.Uses known := by
    refine hgood.mono ⟨fun name hname => .inl ?_, fun _ => Past.text_of_withLevels⟩
    have hname : (past.step f [formula.expr] after).Name table f name := hname
    exact hname.mono (by simp [Past.step])
  exact ((hknown.query (.inr rfl)).spells d).contained

/-- Quotes, parentheses and dashes in the name of a table, in the name of its column and in a text of a formula. -/
theorem Lineage.statements_contained_quotes :
    let e := Expr.call "eq" [.leaf "k\"", .quoted "it's (--"]
    isName Options.default.temporaryAlias.toList = true ∧ Formula.ofText e.text = .ok ⟨none, e⟩ ∧
    ∃ (past : Past (Logged Store)) (f : Frame) (c : Column) (after : Session (Logged Store)),
      Lineage .sqlite "t\"(--" .default past f ∧
      c.query.text .sqlite = "WITH _src0 AS (SELECT * FROM \"t\"\"(--\") " ++
        "SELECT (\"k\"\"\" = 'it''s (--') AS \"eq(k\"\", 'it''s (--')\" FROM _src0" ∧
      Contained (past.Name "t\"(--" f) (past.Text Logged.record) (f.query.text .sqlite) ∧
      Contained (fun name => past.Name "t\"(--" f name ∨ name = c.name)
        ((past.step f [e] after).Text Logged.record) (c.query.text .sqlite) := by
  intro e
  let session : Session (Logged Store) := ⟨⟨⟨[⟨"t\"(--", [⟨"k\"", "TEXT"⟩], [[.text "x"]]⟩]⟩, []⟩, 0⟩
  let f := ofOutputs ⟨0, .sqlite, .table "t\"(--", 0, none, .default⟩ [⟨"k\"", .string, none⟩]
  obtain ⟨after, htable⟩ : ∃ after, Frame.ofTable .sqlite "t\"(--" .default session = (.ok f, after) := ⟨_, rfl⟩
  have hcolumn : ∃ c, (backend.eval e .rows f f : Work (Logged Store) _) after = (.ok (.column c), after) ∧
      c.query.text .sqlite = "WITH _src0 AS (SELECT * FROM \"t\"\"(--\") " ++
        "SELECT (\"k\"\"\" = 'it''s (--') AS \"eq(k\"\", 'it''s (--')\" FROM _src0" :=
    ⟨_, rfl, by decide +kernel⟩
  obtain ⟨c, hc, hquery⟩ := hcolumn
  have htext : Formula.ofText e.text = .ok ⟨none, e⟩ :=
    Formula.ofText_text (by decide +kernel) (by unfold Expr.Unassigning; decide)
  have hgives : f.Gives e.text after ⟨.column c, e.dependencies fun name => (f.column? name).isSome⟩ after := by
    have hlift : (liftM (Except.ok ⟨none, e⟩ : Except Failure Formula) : Work (Logged Store) Formula) =
      pure ⟨none, e⟩ := rfl
    refine .inl ?_
    unfold Frame.evaluate Backend.evaluate Backend.run
    rw [htext, hlift, pure_bind, bind_assoc, Work.run_bind, hc]
    rfl
  have h : Lineage .sqlite "t\"(--" .default ⟨[], [], [after]⟩ f := .ofTable htable
  have halias : isName Options.default.temporaryAlias.toList = true := by decide +kernel
  obtain ⟨hframe, hcolumn⟩ := h.statements_contained Logged.record halias .sqlite
  exact ⟨halias, htext, _, f, c, after, h, hquery, hframe, hcolumn htext hgives rfl⟩

end Tabular.Sql.Frame
