-- SUMMARY: Static types are the types of the columns that an evaluation gives, for every backend that keeps to them.
import Tabular.Evaluation.StaticType
import Tabular.Proofs.Evaluation.Ending
import Tabular.Proofs.Evaluation.Parts

/-!
# Static types

A backend keeps to types if its literals have the type of their value and if it carries out resolved operations
with a result of the type that resolving promises. Over such a backend a formula that has a static type only
gives columns of this type (`holds_eval`). The target of a cast is the one place where a type depends on a value:
there the operand is a literal, read as text, and its column knows the text.
-/

namespace Tabular

variable {m : Type → Type} [Monad m] [MonadLiftT (Except Failure) m] {F C : Type}

namespace Backend

/-- A backend that keeps to types, and what it has to know of columns for that. -/
structure Typing (B : Backend m F C) (E : Ending m) where
  Good : C → Prop
  /-- The value of a literal. -/
  constant : C → Option Value
  rename (c : C) (name : String) : Good c → Good (B.rename c name) ∧ B.dataType (B.rename c name) = B.dataType c
  literal (f : F) (v : Value) :
    E.Holds (B.literal f v) fun c => Good c ∧ B.dataType c = v.dataType ∧ constant c = some v
  execute (f : F) (r : Resolved) (args : List C) (scope : Scope) (type : DataType) :
    r.Applies (args.map B.dataType) → (∀ c ∈ args, Good c) → r.resultType (args.map constant) = .ok type →
      E.Holds (B.execute f r args scope) fun c => Good c ∧ B.dataType c = type
  globalize (f : F) (c : C) : Good c → E.Holds (B.globalize f c) fun d => Good d ∧ B.dataType d = B.dataType c

variable {B : Backend m F C} {E : Ending m}

/-- The columns that the tokens name are good and have the types of the schema. -/
structure Typing.Describes (T : B.Typing E) (f : F) (patterns : List String) (schema : String → Option DataType)
    (tokens : List String) : Prop where
  patterns : (B.options f).datePatterns = patterns
  schema : ∀ token ∈ tokens, (B.column? f token).map B.dataType = schema token
  good : ∀ token ∈ tokens, ∀ c, B.column? f token = some c → T.Good c

theorem Typing.Describes.mono {T : B.Typing E} {f : F} {patterns : List String} {schema : String → Option DataType}
    {tokens tokens' : List String} (h : T.Describes f patterns schema tokens) (hsub : tokens' ⊆ tokens) :
    T.Describes f patterns schema tokens' :=
  ⟨h.patterns, fun token ht => h.schema token (hsub ht), fun token ht => h.good token (hsub ht)⟩

/-! ## Operands -/

/-- What is known of the column of an operand: a literal knows its value. -/
structure Typing.Operand (T : B.Typing E) (patterns : List String) (e : Expr) (c : C) : Prop where
  good : T.Good c
  literal : ∀ content, e = .quoted content →
    T.constant c = some (Value.ofQuoted patterns content) ∧ B.dataType c = (Value.ofQuoted patterns content).dataType

/-- An operand as it is handed over: a literal of type text is known to be its content. -/
structure Typing.Handed (T : B.Typing E) (e : Expr) (c : C) : Prop where
  good : T.Good c
  text : ∀ content, e = .quoted content → B.dataType c = .string → T.constant c = some (.string content)

theorem ofQuoted_of_string {patterns : List String} {content : String}
    (h : (Value.ofQuoted patterns content).dataType = .string) :
    Value.ofQuoted patterns content = .string content := by
  unfold Value.ofQuoted at h ⊢
  split at h
  · simp [Value.dataType] at h
  · rfl

theorem Typing.Operand.handed {T : B.Typing E} {patterns : List String} {e : Expr} {c : C}
    (h : T.Operand patterns e c) : T.Handed e c := by
  refine ⟨h.good, fun content he htype => ?_⟩
  obtain ⟨hconstant, hc⟩ := h.literal content he
  rw [hconstant, ofQuoted_of_string (hc ▸ htype)]

/-- Quoted dates are handed over as text, and all other operands as they are. -/
theorem Typing.holds_reread [LawfulMonad m] (T : B.Typing E) {patterns : List String} {f : F}
    {operands : List (Expr × C)} (h : ∀ p ∈ operands, T.Operand patterns p.1 p.2) :
    E.Holds (B.reread f operands) fun cs => List.Forall₂ (fun p c => T.Handed p.1 c ∧
      B.dataType c = if Resolved.isQuotedDate p.1 (B.dataType p.2) then .string else B.dataType p.2) operands cs := by
  rw [reread_eq]
  refine E.mapM fun p hp => ?_
  obtain ⟨e, c⟩ := p
  have hoperand := h _ hp
  rcases Resolved.quotedDate_cases e (B.dataType c) with ⟨content, rfl, htype⟩ | hnot
  · rw [rereadOne_quoted htype]
    refine E.mono (T.literal f (.string content)) fun d hd => ⟨⟨hd.1, fun other hother _ => ?_⟩, ?_⟩
    · obtain rfl := Expr.quoted.inj hother
      exact hd.2.2
    · rw [htype, Resolved.isQuotedDate, if_pos rfl]
      exact hd.2.1
  · rw [rereadOne_of_not hnot]
    exact E.pure ⟨hoperand.handed, by rw [hnot, if_neg Bool.false_ne_true]⟩

/-- The operands of a resolved operation have the types over which it was resolved. -/
theorem Typing.holds_columns [LawfulMonad m] (T : B.Typing E) {patterns : List String} {f : F}
    {operands : List (Expr × C)} (asText : Bool) (h : ∀ p ∈ operands, T.Operand patterns p.1 p.2) :
    E.Holds (if asText then B.reread f operands else pure (operands.map (·.2))) fun cs =>
      List.Forall₂ (fun p c => T.Handed p.1 c) operands cs ∧
        cs.map B.dataType = Resolved.operandTypes (operands.map fun (e, c) => (e, B.dataType c)) asText := by
  cases asText with
  | true =>
    refine E.mono (T.holds_reread h) fun cs hcs => ⟨hcs.imp fun _ _ hc => hc.1, ?_⟩
    clear h
    induction hcs with
    | nil => rfl
    | cons hc _ ih =>
      simp only [Resolved.operandTypes, Resolved.textTypes, if_true, List.map_cons] at ih ⊢
      rw [hc.2, ih]
  | false =>
    refine E.pure ⟨?_, by simp [Resolved.operandTypes, Function.comp_def]⟩
    rw [List.forall₂_map_right_iff, List.forall₂_same]
    exact fun p hp => (h p hp).handed

/-! ## Operations -/

/-- The static type of an operation over operands, given the signature that took them. -/
def staticResult (name : String) (args : List Expr) (r : Resolved) : Except Failure DataType :=
  if name = "cast" then Expr.castTarget args else .ok r.output

/-- The target that a cast names statically is the one that its column knows. -/
theorem Typing.resultType_of_staticResult (T : B.Typing E) {name : String} {operands : List (Expr × C)} {r : Resolved}
    {cs : List C} {type : DataType} (hname : r.name = name) (happlies : r.Applies (cs.map B.dataType))
    (hcs : List.Forall₂ (fun p c => T.Handed p.1 c) operands cs)
    (h : staticResult name (operands.map (·.1)) r = .ok type) : r.resultType (cs.map T.constant) = .ok type := by
  unfold staticResult at h
  unfold Resolved.resultType
  rw [hname]
  split
  · rename_i hcast
    rw [if_pos hcast] at h
    -- The second operand of a cast names the target. It was resolved as text, so its column knows the content.
    cases hcs with
    | nil => simp [Expr.castTarget, Parameter.castTarget] at h
    | cons hfirst hcs =>
      cases hcs with
      | nil => simp [Expr.castTarget, Parameter.castTarget] at h
      | @cons p second _ _ hsecond hcs =>
        obtain ⟨e, c⟩ := p
        have htype := happlies.string_of_cast (hname.trans hcast)
        cases e with
        | quoted content =>
          simpa [Expr.castTarget, hsecond.text content rfl htype] using h
        | _ => simp [Expr.castTarget, Parameter.castTarget] at h
  · rename_i hcast
    rwa [if_neg hcast] at h

/-- An operation over operands gives a column of its static type. -/
theorem Typing.holds_apply [LawfulMonad m] (T : B.Typing E) {patterns : List String} {f : F} {scope : Scope}
    {e : Expr} {name : String} {operands : List (Expr × C)} {r : Resolved} {asText : Bool} {type : DataType}
    (hoperands : ∀ p ∈ operands, T.Operand patterns p.1 p.2)
    (hresolved : Resolved.ofOperands name (operands.map fun (e, c) => (e, B.dataType c)) = .ok (r, asText))
    (htype : staticResult name (operands.map (·.1)) r = .ok type) :
    E.Holds (B.apply f scope e name operands) fun c => T.Good c ∧ B.dataType c = type := by
  obtain ⟨hname, happlies⟩ := Resolved.ofOperands_ok hresolved
  unfold apply
  refine E.bind (E.lift_ok hresolved) ?_
  rintro _ rfl
  refine E.ite_bind (E.bind (T.holds_columns asText hoperands) fun cs hcs => ?_)
  obtain ⟨hhanded, htypes⟩ := hcs
  rw [← htypes] at happlies
  have hgood : ∀ c ∈ cs, T.Good c := by
    intro c hc
    obtain ⟨p, -, hp⟩ := exists_of_mem_forall₂ hhanded hc
    exact hp.good
  refine E.bind (T.execute f r cs scope type happlies hgood
    (T.resultType_of_staticResult hname happlies hhanded htype)) fun c hc => ?_
  obtain ⟨hrename, hc'⟩ := T.rename c e.text hc.1
  exact E.pure ⟨hrename, hc'.trans hc.2⟩

/-! ## Trees -/

theorem Typing.holds_token (T : B.Typing E) {patterns : List String} {schema : String → Option DataType} {f : F}
    {name : String} {type : DataType} (hf : T.Describes f patterns schema [name])
    (h : (Expr.leaf name).staticType patterns schema = .ok type) :
    E.Holds (B.token f name) fun c => T.Good c ∧ B.dataType c = type := by
  have hschema := hf.schema name List.mem_cons_self
  have hgood := hf.good name List.mem_cons_self
  rw [Expr.staticType, ← hschema] at h
  unfold token
  cases hcolumn : B.column? f name with
  | some c =>
    obtain rfl : B.dataType c = type := by simpa [hcolumn] using h
    exact E.pure ⟨hgood c hcolumn, rfl⟩
  | none =>
    simp only [hcolumn, Option.map_none] at h
    dsimp only
    rw [hf.patterns]
    split
    · rename_i v hv
      obtain rfl : v.dataType = type := by simpa [hv] using h
      exact E.mono (T.literal f v) fun c hc => ⟨hc.1, hc.2.1⟩
    · rename_i hv
      simp [hv] at h

theorem zip_dataTypes (dataType : C → DataType) (args : List Expr) (cs : List C) :
    args.zip (cs.map dataType) = (args.zip cs).map fun (e, c) => (e, dataType c) := by
  rw [List.zip_map_right]
  rfl

theorem Typing.operands_zip {T : B.Typing E} {patterns : List String} {args : List Expr} {cs : List C}
    (h : List.Forall₂ (T.Operand patterns) args cs) : ∀ p ∈ args.zip cs, T.Operand patterns p.1 p.2 := by
  intro p hp
  exact (List.forall₂_iff_zip.1 h).2 hp

/-- After a tree that gives a column, the column is at hand. -/
theorem holds_column {β : Type} {x : m (Outcome F C)} {e : Expr} {rest : C → m β} {Q : C → Prop} {P : β → Prop}
    (hx : E.Holds x fun o => ∃ c, o = .column c ∧ Q c) (hrest : ∀ c, Q c → E.Holds (rest c) P) :
    E.Holds (do rest (← asColumn e (← x))) P := by
  refine E.bind hx ?_
  rintro _ ⟨c, rfl, hc⟩
  refine E.bind (E.pure (rfl : c = c)) ?_
  rintro _ rfl
  exact hrest c hc

/-- Over frames that the schema describes, the tree gives columns of its static type. -/
def Typing.Keeps (T : B.Typing E) (patterns : List String) (schema : String → Option DataType) (e : Expr) : Prop :=
  ∀ ⦃f w : F⦄ ⦃type : DataType⦄, T.Describes f patterns schema e.tokens → T.Describes w patterns schema e.tokens →
    e.staticType patterns schema = .ok type → ∀ scope : Scope,
      E.Holds (B.eval e scope f w) fun o => ∃ c, o = .column c ∧ T.Operand patterns e c ∧ B.dataType c = type

section Trees

variable {T : B.Typing E} {patterns : List String} {schema : String → Option DataType}

theorem Typing.keeps_quoted (content : String) : T.Keeps patterns schema (.quoted content) := by
  intro f w type hf hw h scope
  obtain rfl : (Value.ofQuoted patterns content).dataType = type := by simpa [Expr.staticType] using h
  rw [eval, hf.patterns]
  refine E.bind (T.literal f _) fun c hc => E.pure ⟨c, rfl, ⟨hc.1, fun other hother => ?_⟩, hc.2.1⟩
  obtain rfl : content = other := by simpa using hother
  exact ⟨hc.2.2, hc.2.1⟩

theorem Typing.keeps_leaf (name : String) : T.Keeps patterns schema (.leaf name) := by
  intro f w type hf hw h scope
  rw [eval]
  exact E.bind (T.holds_token hf h) fun c hc => E.pure ⟨c, rfl, ⟨hc.1, by simp⟩, hc.2⟩

theorem Typing.keeps_binary [LawfulMonad m] {op : BinaryOp} {left right : Expr}
    (hleft : T.Keeps patterns schema left) (hright : T.Keeps patterns schema right) :
    T.Keeps patterns schema (.binary op left right) := by
  intro f w type hf hw h scope
  rw [Expr.staticType] at h
  obtain ⟨l, hl, h⟩ := bind_eq_ok.1 h
  obtain ⟨r, hr, h⟩ := bind_eq_ok.1 h
  obtain ⟨⟨resolved, asText⟩, hresolved, h⟩ := bind_eq_ok.1 h
  obtain rfl : resolved.output = type := by simpa [Pure.pure, Except.pure] using h
  have hl' : left.tokens ⊆ (Expr.binary op left right).tokens := List.subset_append_left _ _
  have hr' : right.tokens ⊆ (Expr.binary op left right).tokens := List.subset_append_right _ _
  rw [eval]
  refine holds_column (hleft (hf.mono hl') (hw.mono hl') hl scope) ?_
  rintro lc ⟨hlc, rfl⟩
  refine holds_column (hright (hf.mono hr') (hw.mono hr') hr scope) ?_
  rintro rc ⟨hrc, rfl⟩
  refine E.bind (T.holds_apply (by simpa using ⟨hlc, hrc⟩) hresolved ?_) fun c hc =>
    E.pure ⟨c, rfl, ⟨hc.1, by simp⟩, hc.2⟩
  -- No operator is spelled like the cast, so its output is its result.
  exact if_neg (by cases op <;> decide)

variable {name : String} {args : List Expr}

theorem Typing.holds_evalColumns (hargs : ∀ arg ∈ args, T.Keeps patterns schema arg) {f w : F}
    (hf : T.Describes f patterns schema (Expr.tokensOf args))
    (hw : T.Describes w patterns schema (Expr.tokensOf args)) {types : List DataType}
    (h : Expr.staticTypes patterns schema args = .ok types) (scope : Scope) :
    E.Holds (B.evalColumns args scope f w) fun cs => List.Forall₂ (T.Operand patterns) args cs ∧
      cs.map B.dataType = types := by
  induction args generalizing types with
  | nil =>
    obtain rfl : [] = types := by simpa [Expr.staticTypes] using h
    rw [evalColumns]
    exact E.pure ⟨.nil, rfl⟩
  | cons arg more ih =>
    rw [Expr.staticTypes] at h
    obtain ⟨type, htype, h⟩ := bind_eq_ok.1 h
    obtain ⟨rest, hrest, h⟩ := bind_eq_ok.1 h
    obtain rfl : type :: rest = types := by simpa [Pure.pure, Except.pure] using h
    have harg : arg.tokens ⊆ Expr.tokensOf (arg :: more) := List.subset_append_left _ _
    have hmore : Expr.tokensOf more ⊆ Expr.tokensOf (arg :: more) := List.subset_append_right _ _
    rw [evalColumns]
    refine holds_column (hargs arg List.mem_cons_self (hf.mono harg) (hw.mono harg) htype scope) ?_
    rintro c ⟨hc, rfl⟩
    have hcolumns := ih (fun e he => hargs e (List.mem_cons_of_mem _ he)) (hf.mono hmore) (hw.mono hmore) hrest
    exact E.bind hcolumns fun cs hcs => E.pure ⟨.cons hc hcs.1, by rw [List.map_cons, hcs.2]⟩

theorem Typing.keeps_operation [LawfulMonad m] (hform : SpecialForm.named? name = none)
    (hargs : ∀ arg ∈ args, T.Keeps patterns schema arg) : T.Keeps patterns schema (.call name args) := by
  intro f w type hf hw h scope
  unfold Expr.staticType at h
  unfold eval
  rw [hform] at h ⊢
  dsimp only at h ⊢
  obtain ⟨types, htypes, h⟩ := bind_eq_ok.1 h
  obtain ⟨⟨resolved, asText⟩, hresolved, hresult⟩ := bind_eq_ok.1 h
  refine E.bind (Typing.holds_evalColumns hargs hf hw htypes scope) fun cs hcs => ?_
  obtain ⟨hoperands, rfl⟩ := hcs
  rw [zip_dataTypes] at hresolved
  refine E.bind (T.holds_apply (Typing.operands_zip hoperands) hresolved ?_) fun c hc =>
    E.pure ⟨c, rfl, ⟨hc.1, by simp⟩, hc.2⟩
  rw [List.map_fst_zip (Nat.le_of_eq hoperands.length_eq)]
  exact hresult

/-- The argument of `global` is evaluated over the whole frame, which the schema describes too. -/
theorem Typing.keeps_global (hform : SpecialForm.named? name = some .global)
    (hargs : ∀ arg ∈ args, T.Keeps patterns schema arg) : T.Keeps patterns schema (.call name args) := by
  intro f w type hf hw h scope
  unfold Expr.staticType at h
  unfold eval
  rw [hform] at h ⊢
  dsimp only at h ⊢
  split at h
  · rename_i inner
    have hinner : inner.tokens ⊆ (Expr.call name [inner]).tokens := List.subset_append_left _ _
    refine holds_column (hargs inner List.mem_cons_self (hw.mono hinner) (hw.mono hinner) h .groups) ?_
    rintro ic ⟨hic, rfl⟩
    refine E.bind (T.globalize w ic hic.good) fun c hc => ?_
    obtain ⟨hgood, hrename⟩ := T.rename c (Expr.call name [inner]).text hc.1
    exact E.pure ⟨_, rfl, ⟨hgood, by simp⟩, hrename.trans hc.2⟩
  · simp at h

/-- A tree with a static type only gives columns of this type. -/
theorem Typing.holds_eval [LawfulMonad m] (T : B.Typing E) {e : Expr} : T.Keeps patterns schema e := by
  cases e with
  | quoted content => exact Typing.keeps_quoted content
  | leaf name => exact Typing.keeps_leaf name
  | binary op left right => exact Typing.keeps_binary T.holds_eval T.holds_eval
  | call name args =>
    have hargs : ∀ arg ∈ args, T.Keeps patterns schema arg := fun arg harg =>
      have hsize := List.sizeOf_lt_of_mem harg
      T.holds_eval
    cases hform : SpecialForm.named? name with
    | none => exact Typing.keeps_operation hform hargs
    | some form =>
      -- Of the special forms only `global` has a static type.
      by_cases hglobal : form = .global
      · exact Typing.keeps_global (hglobal ▸ hform) hargs
      · intro f w type hf hw h scope
        unfold Expr.staticType at h
        rw [hform] at h
        cases form <;> simp at h hglobal
  | assign name value =>
    intro f w type hf hw h scope
    simp [Expr.staticType] at h
termination_by sizeOf e
decreasing_by
  all_goals subst_vars
  all_goals simp_wf
  all_goals omega

end Trees

end Backend

end Tabular
