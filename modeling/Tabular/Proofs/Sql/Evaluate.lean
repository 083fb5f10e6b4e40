-- SUMMARY: SQL frames that callers can reach are sound, and evaluating over SQL frames keeps to static types.
import Tabular.Proofs.Evaluation.Invariant
import Tabular.Proofs.Evaluation.Parts
import Tabular.Proofs.Evaluation.StaticType
import Tabular.Proofs.Sql.Frame
import Tabular.Sql.Load

/-!
# Evaluation over SQL frames

SQL frames are a backend that keeps its frames sound, and one that keeps to types as long as the database does. A
frame is reached from a query, a table or a loaded frame by any operations that succeed, in any sessions.
-/

namespace Tabular.Sql.Frame

variable {δ : Type} {f g : Frame}

/-! ## New frames -/

/-- What the frame over the table has, and what categories keep, the loaded frame has. -/
theorem holds_load_of [Database δ] {P : Frame → Prop} {d : Dialect} {table : String} {f : Memory.Frame}
    (hcategories : ∀ f c, P f → P (f.withCategories c))
    (htable : Work.partialResult.Holds (ofTable d table f.options : Work δ Frame) P) :
    Work.partialResult.Holds (load d table f : Work δ Frame) P := by
  refine Work.partialResult.bind (Work.partialResult_any _) fun _ _ => ?_
  refine Work.partialResult.bind (Work.partialResult_any _) fun _ _ => ?_
  refine Work.partialResult.bind htable fun loaded hloaded => Work.partialResult.pure ?_
  induction f.columns generalizing loaded with
  | nil => exact hloaded
  | cons c more ih => exact ih _ (hcategories loaded c hloaded)

section New

variable {P : Frame → Prop} (hP : ∀ source outputs, P (ofOutputs source outputs))

include hP

/-- Sorting gives a frame of outputs. -/
theorem holds_sort (f : Frame) (ascending : Bool) (keys : List String) :
    Work.partialResult.Holds (f.sort ascending keys : Work δ Frame) P := by
  refine Work.partialResult.bind (Work.partialResult_any _) fun _ _ => ?_
  exact Work.partialResult.bind (Work.partialResult_any _) fun source _ => Work.partialResult.pure (hP source _)

theorem holds_group (f : Frame) (keys : List String) (reducers : List (Reducer (Work δ) Frame Column)) :
    Work.partialResult.Holds (f.group keys reducers) P := by
  refine Work.partialResult.bind (Work.partialResult_any _) fun _ _ => ?_
  refine Work.partialResult.bind (Work.partialResult_any _) fun _ _ => ?_
  exact Work.partialResult.bind (Work.partialResult_any _) fun source _ => Work.partialResult.pure (hP source _)

theorem holds_ofQuery [Database δ] (dialect : Dialect) (query : Query) (options : Options) :
    Work.partialResult.Holds (ofQuery dialect query options : Work δ Frame) P := by
  refine Work.partialResult.bind (Work.partialResult_any _) fun _ _ => ?_
  exact Work.partialResult.bind (Work.partialResult_any _) fun _ _ => Work.partialResult.pure (hP _ _)

/-- Loading gives a frame of outputs, with the categories of the columns that were loaded. -/
theorem holds_load [Database δ] (hcategories : ∀ f c, P f → P (f.withCategories c)) (d : Dialect) (table : String)
    (f : Memory.Frame) : Work.partialResult.Holds (load d table f : Work δ Frame) P :=
  holds_load_of hcategories (holds_ofQuery hP d (.table table) f.options)

end New

/-! ## Soundness -/

variable [Database δ]

/-- SQL frames stay sound. -/
def invariant : (backend : Backend (Work δ) Frame Column).Invariant Work.partialResult where
  GoodFrame := Sound
  GoodColumn _ := True
  accepts _ := trivial
  any := Work.partialResult_any
  column? _ _ := trivial
  rename _ _ := trivial
  literal _ _ := Work.partialResult_any _
  execute _ _ _ _ := Work.partialResult_any _
  sort ascending keys _ := holds_sort sound_ofOutputs _ ascending keys
  group keys reducers _ := holds_group sound_ofOutputs _ keys reducers
  globalize _ := Work.partialResult_any _
  append hf _ := Work.partialResult.lift (fun _ hg => hf.append hg) fun _ _ => trivial

/-- Changing an element in its place keeps what the change keeps. -/
theorem map_modify {A B : Type} {tell : A → B} {change : A → A} (h : ∀ a, tell (change a) = tell a) (l : List A)
    (i : Nat) : (l.modify i change).map tell = l.map tell := by
  induction l generalizing i with
  | nil => simp
  | cons a l ih =>
    cases i with
    | zero => simp [h]
    | succ i => simp [ih]

/-- Categories of a column change nothing but its type and its categories. -/
theorem map_withCategories {B : Type} {tell : Column → B}
    (h : ∀ target map, tell { target with dataType := .categorical, categories := some map } = tell target) (f : Frame)
    (c : Memory.Column) : (f.withCategories c).columns.map tell = f.columns.map tell := by
  unfold Frame.withCategories
  split
  · exact map_modify (fun target => h target _) f.columns _
  · rfl

theorem source_withCategories (f : Frame) (c : Memory.Column) : (f.withCategories c).source = f.source := by
  unfold Frame.withCategories
  split <;> rfl

theorem Sound.withCategories (hf : f.Sound) (c : Memory.Column) : (f.withCategories c).Sound := by
  refine ⟨hf.index.of_names ?_ (map_withCategories (fun _ _ => rfl) f c), fun d hd => ?_⟩
  · unfold Frame.withCategories
    split <;> rfl
  · have hconstant : d.constant ∈ f.columns.map Column.constant := by
      rw [← map_withCategories (fun _ _ => rfl) f c]
      exact List.mem_map_of_mem hd
    obtain ⟨e, he, hde⟩ := List.mem_map.1 hconstant
    exact hde.symm.trans (hf.constants e he)

/-! ## Reached frames -/

variable (δ) in
/-- SQL frames that are made over databases `δ`, and what operations make of them. -/
inductive Reached : Frame → Prop
  | ofQuery {dialect : Dialect} {query : Query} {options : Options} {session : Session δ} {f : Frame}
      (h : (Frame.ofQuery dialect query options session).1 = .ok f) : Reached f
  | load {dialect : Dialect} {table : String} {frame : Memory.Frame} {session : Session δ} {f : Frame}
      (h : (Frame.load dialect table frame session).1 = .ok f) : Reached f
  | append {f g : Frame} {c : Column} (hf : Reached f) (h : f.append c = .ok g) : Reached g
  | drop {f g : Frame} {name : String} {c : Column} (hf : Reached f) (h : f.drop name = .ok (c, g)) : Reached g
  | sort {f g : Frame} {ascending : Bool} {keys : List String} {session : Session δ} (hf : Reached f)
      (h : (f.sort ascending keys session).1 = .ok g) : Reached g
  | group {f g : Frame} {keys : List String} {formulas : List (String × Expr)} {session : Session δ} (hf : Reached f)
      (h : (f.group keys (formulas.map backend.reducer) session).1 = .ok g) : Reached g
  | evaluate {f g : Frame} {text : String} {session : Session δ} {result : Evaluated Frame Column} (hf : Reached f)
      (h : (f.evaluate text session).1 = .ok result) (hg : result.outcome = .frame g) : Reached g
  | assign {f g : Frame} {text : String} {session : Session δ} {result : Option (Evaluated Frame Column)}
      (hf : Reached f) (h : (f.assign text session).1 = .ok (g, result)) : Reached g

/-- Reached frames are sound. -/
theorem Reached.sound (h : f.Reached δ) : f.Sound := by
  induction h with
  | ofQuery h => exact Work.partialResult_iff.1 (holds_ofQuery sound_ofOutputs _ _ _) _ _ h
  | load h =>
    exact Work.partialResult_iff.1 (holds_load sound_ofOutputs (fun _ c hf => hf.withCategories c) _ _ _) _ _ h
  | append hf h ih => exact ih.append h
  | drop hf h ih => exact ih.drop h
  | sort hf h ih => exact Work.partialResult_iff.1 (holds_sort sound_ofOutputs _ _ _) _ _ h
  | group hf h ih => exact Work.partialResult_iff.1 (holds_group sound_ofOutputs _ _ _) _ _ h
  | evaluate hf h hg ih =>
    have hgood := Work.partialResult_iff.1 (invariant.holds_evaluate ih _) _ _ h
    rwa [hg] at hgood
  | assign hf h ih => exact (Work.partialResult_iff.1 (invariant.holds_assign ih _) _ _ h).1

/-! ## Types -/

/-- SQL frames keep to types. -/
def typing (hdatabase : Database.Faithful δ) : (backend : Backend (Work δ) Frame Column).Typing Work.late where
  Good _ := True
  constant := Column.constant
  rename _ _ _ := ⟨trivial, rfl⟩
  literal f v := Work.late.mono (holds_literal f v) fun _ hc => ⟨trivial, hc.1, hc.2.1⟩
  execute := by
    intro f r args scope type happlies _ htype
    refine Work.late.mono (holds_execute hdatabase f scope happlies) fun c hc => ⟨trivial, ?_⟩
    exact Except.ok.inj (hc.dataType.symm.trans htype)
  globalize f c _ := Work.late.mono (holds_globalize f c) fun _ hd => ⟨trivial, hd.1⟩

end Tabular.Sql.Frame
