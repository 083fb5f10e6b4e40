-- SUMMARY: What one backend gives for a formula, another one gives too, up to a relation of frames and columns.
import Mathlib.Data.Option.Basic
import Tabular.Proofs.Evaluation.Ending
import Tabular.Proofs.Evaluation.Parts
import Tabular.Proofs.Formula.Dependency

/-!
# Simulation of one backend by another

The first backend only fails or gives a result; the second may do work of any kind. If each operation of the second
ends well where the first one has a result, and with something related to it, then so does the evaluation of every
formula. Of the tokens only those are used that the formula has, so lookups have to agree on these alone. Formulas
inside of `by` are handed to the operation that groups, with what holds of them by induction.
-/

namespace Tabular

variable {m : Type → Type} [Monad m] [MonadLiftT (Except Failure) m] {F C F' C' : Type}

namespace Backend

/-! ## Simulations -/

/-- A relation under which each operation of `B'` follows the one of `B`. -/
structure Simulation (B : Backend (Except Failure) F C) (B' : Backend m F' C') (E : Ending m) where
  /-- The names on which lookups agree. -/
  Known : String → Prop
  FrameRel : F → F' → Prop
  ColumnRel : C → C' → Prop
  options {f : F} {f' : F'} : FrameRel f f' → (B'.options f').datePatterns = (B.options f).datePatterns
  column? {f : F} {f' : F'} {name : String} : FrameRel f f' → Known name →
    Option.Rel ColumnRel (B.column? f name) (B'.column? f' name)
  name {c : C} {c' : C'} : ColumnRel c c' → B'.name c' = B.name c
  dataType {c : C} {c' : C'} : ColumnRel c c' → B'.dataType c' = B.dataType c
  rename {c : C} {c' : C'} (name : String) : ColumnRel c c' → ColumnRel (B.rename c name) (B'.rename c' name)
  literal {f : F} {v : Value} {c : C} (f' : F') : B.literal f v = .ok c →
    B.dataType c = v.dataType ∧ E.Holds (B'.literal f' v) (ColumnRel c)
  execute {f : F} {f' : F'} {r : Resolved} {args : List C} {args' : List C'} {scope : Scope} {c : C} :
    FrameRel f f' → r.Applies (args.map B.dataType) → List.Forall₂ ColumnRel args args' →
      B.execute f r args scope = .ok c → E.Holds (B'.execute f' r args' scope) (ColumnRel c)
  sort {f g : F} {f' : F'} {ascending : Bool} {keys : List String} : FrameRel f f' → (∀ key ∈ keys, Known key) →
    B.sort f ascending keys = .ok g → E.Holds (B'.sort f' ascending keys) (FrameRel g)
  group {f g : F} {f' : F'} {keys : List String} {formulas : List (String × Expr)} : FrameRel f f' →
    (∀ key ∈ keys, Known key) → (∀ named ∈ formulas, ∀ token ∈ named.2.tokens, Known token) →
    (∀ named ∈ formulas, ∀ u u' w w' c, FrameRel u u' → FrameRel w w' → (B.reducer named).run u w = .ok c →
      E.Holds ((B'.reducer named).run u' w') (ColumnRel c)) →
    B.group f keys (formulas.map B.reducer) = .ok g →
      E.Holds (B'.group f' keys (formulas.map B'.reducer)) (FrameRel g)
  globalize {f : F} {f' : F'} {c d : C} {c' : C'} : ColumnRel c c' → B.globalize f c = .ok d →
    E.Holds (B'.globalize f' c') (ColumnRel d)
  values {c : C} {c' : C'} {s : Series} : ColumnRel c c' → B.values c = .ok s →
    E.Holds (B'.values c') fun s' => s'.dataType = s.dataType

namespace Simulation

variable {B : Backend (Except Failure) F C} {B' : Backend m F' C'} {E : Ending m} (S : Simulation B B' E)

/-- Outcomes of one kind, with related contents. -/
def OutcomeRel : Outcome F C → Outcome F' C' → Prop
  | .frame g, .frame g' => S.FrameRel g g'
  | .column c, .column c' => S.ColumnRel c c'
  | .plot p, .plot p' => p'.xLabel = p.xLabel ∧ p'.yLabel = p.yLabel ∧ p'.x.dataType = p.x.dataType ∧
      p'.y.dataType = p.y.dataType
  | _, _ => False

variable {S}

/-! ## Parts of a formula -/

theorem isSome_of_rel {x : Option C} {y : Option C'} (h : Option.Rel S.ColumnRel x y) : y.isSome = x.isSome := by
  cases h <;> rfl

theorem fail_ne_ok {α : Type} {failure : Failure} {a : α} : (fail failure : Except Failure α) ≠ .ok a := by
  simp [fail]

theorem holds_asColumn {e : Expr} {o : Outcome F C} {o' : Outcome F' C'} {c : C} (ho : S.OutcomeRel o o')
    (h : (asColumn e o : Except Failure C) = .ok c) : E.Holds (asColumn e o') (S.ColumnRel c) := by
  cases o with
  | column d =>
    obtain rfl : d = c := by simpa [asColumn, Pure.pure, Except.pure] using h
    cases o' with
    | column d' => exact E.pure ho
    | _ => exact ho.elim
  | _ => exact absurd h fail_ne_ok

theorem holds_token {f : F} {f' : F'} (hf : S.FrameRel f f') {name : String} (hname : S.Known name) {c : C}
    (h : B.token f name = .ok c) : E.Holds (B'.token f' name) (S.ColumnRel c) := by
  have hcolumn := S.column? hf hname
  unfold token at h ⊢
  rw [S.options hf]
  split at h
  · rename_i d hd
    obtain rfl : d = c := by simpa [Pure.pure, Except.pure] using h
    rw [hd] at hcolumn
    cases hd' : B'.column? f' name with
    | some d' =>
      rw [hd'] at hcolumn
      cases hcolumn with
      | some hrel => exact E.pure hrel
    | none =>
      rw [hd'] at hcolumn
      cases hcolumn
  · rename_i hd
    rw [hd] at hcolumn
    cases hd' : B'.column? f' name with
    | some d' =>
      rw [hd'] at hcolumn
      cases hcolumn
    | none =>
      dsimp only
      split at h
      · exact (S.literal f' h).2
      · exact absurd h fail_ne_ok

theorem holds_key {f : F} {f' : F'} (hf : S.FrameRel f f') {form : String} {e : Expr}
    (he : ∀ token ∈ e.tokens, S.Known token) {key : String} (h : B.key f form e = .ok key) :
    S.Known key ∧ E.Holds (B'.key f' form e) (· = key) := by
  unfold Backend.key at h ⊢
  split at h
  · rename_i name
    have hname := he name List.mem_cons_self
    have hcolumn := S.column? hf hname
    split at h
    · rename_i hfound
      obtain rfl : name = key := by simpa [Pure.pure, Except.pure] using h
      refine ⟨hname, ?_⟩
      rw [if_pos ((isSome_of_rel hcolumn).trans hfound)]
      exact E.pure rfl
    · exact absurd h fail_ne_ok
  · exact absurd h fail_ne_ok

theorem holds_keys [LawfulMonad m] {f : F} {f' : F'} (hf : S.FrameRel f f') {form : String} {args : List Expr}
    (hargs : ∀ token ∈ Expr.tokensOf args, S.Known token) {keys : List String}
    (h : args.mapM (B.key f form) = .ok keys) :
    (∀ key ∈ keys, S.Known key) ∧ E.Holds (args.mapM (B'.key f' form)) (· = keys) := by
  induction args generalizing keys with
  | nil =>
    obtain rfl : [] = keys := by simpa [Pure.pure, Except.pure] using h
    exact ⟨by simp, E.pure rfl⟩
  | cons arg more ih =>
    rw [List.mapM_cons] at h ⊢
    obtain ⟨key, hkey, h⟩ := bind_eq_ok.1 h
    obtain ⟨rest, hrest, h⟩ := bind_eq_ok.1 h
    obtain rfl : key :: rest = keys := by simpa [Pure.pure, Except.pure] using h
    obtain ⟨hknown, hkey'⟩ := S.holds_key hf (fun token ht => hargs token (List.mem_append_left _ ht)) hkey
    obtain ⟨hknowns, hrest'⟩ := ih (fun token ht => hargs token (List.mem_append_right _ ht)) hrest
    refine ⟨List.forall_mem_cons.2 ⟨hknown, hknowns⟩, E.bind hkey' ?_⟩
    rintro _ rfl
    refine E.bind hrest' ?_
    rintro _ rfl
    exact E.pure rfl

theorem holds_ascending {e : Expr} {b : Bool} (h : (ascending e : Except Failure Bool) = .ok b) :
    E.Holds (ascending e : m Bool) (· = b) := by
  unfold ascending at h ⊢
  split at h
  · split at h
    · obtain rfl : true = b := by simpa [Pure.pure, Except.pure] using h
      exact E.pure rfl
    · obtain rfl : false = b := by simpa [Pure.pure, Except.pure] using h
      exact E.pure rfl
    · exact absurd h fail_ne_ok
  · split at h
    · obtain rfl : true = b := by simpa [Pure.pure, Except.pure] using h
      exact E.pure rfl
    · obtain rfl : false = b := by simpa [Pure.pure, Except.pure] using h
      exact E.pure rfl
    · exact absurd h fail_ne_ok
  · exact absurd h fail_ne_ok

theorem holds_groupArguments {f : F} {f' : F'} (hf : S.FrameRel f f') {args : List Expr}
    (hargs : ∀ token ∈ Expr.tokensOf args, S.Known token) {keys : List String}
    {reducers : List (Reducer (Except Failure) F C)} (h : groupArguments B args f = .ok (keys, reducers)) :
    (∀ key ∈ keys, S.Known key) ∧
      E.Holds (groupArguments B' args f') (· = (keys, (reductions args).map B'.reducer)) := by
  induction args generalizing keys reducers with
  | nil =>
    rw [groupArguments] at h
    obtain ⟨rfl, rfl⟩ : [] = keys ∧ [] = reducers := by simpa [Pure.pure, Except.pure] using h
    rw [groupArguments]
    exact ⟨by simp, E.pure rfl⟩
  | cons arg more ih =>
    have hmore : ∀ token ∈ Expr.tokensOf more, S.Known token := fun token ht =>
      hargs token (List.mem_append_right _ ht)
    -- An assignment is a formula to reduce; every other argument must be a key.
    cases arg with
    | assign name value =>
      rw [groupArguments] at h
      obtain ⟨⟨keys', reducers'⟩, hrest, h⟩ := bind_eq_ok.1 h
      obtain ⟨hkeys, hholds⟩ := ih hmore hrest
      obtain ⟨rfl, rfl⟩ : keys' = keys ∧ _ :: reducers' = reducers := by simpa [Pure.pure, Except.pure] using h
      refine ⟨hkeys, ?_⟩
      rw [groupArguments]
      refine E.bind hholds ?_
      rintro _ rfl
      exact E.pure rfl
    | _ =>
      rw [groupArguments] at h
      · obtain ⟨key, hkey, h⟩ := bind_eq_ok.1 h
        obtain ⟨⟨keys', reducers'⟩, hrest, h⟩ := bind_eq_ok.1 h
        obtain ⟨hkeys, hholds⟩ := ih hmore hrest
        obtain ⟨hknown, hkey'⟩ := S.holds_key hf (fun token ht => hargs token (List.mem_append_left _ ht)) hkey
        obtain ⟨rfl, rfl⟩ : key :: keys' = keys ∧ reducers' = reducers := by simpa [Pure.pure, Except.pure] using h
        refine ⟨List.forall_mem_cons.2 ⟨hknown, hkeys⟩, ?_⟩
        rw [groupArguments]
        · refine E.bind hkey' ?_
          rintro _ rfl
          refine E.bind hholds ?_
          rintro _ rfl
          exact E.pure rfl
        · simp
      · simp

/-! ## Operations -/

/-- The same operand trees over related columns. -/
def OperandRel (S : Simulation B B' E) (p : Expr × C) (p' : Expr × C') : Prop := p'.1 = p.1 ∧ S.ColumnRel p.2 p'.2

theorem operands_zip {args : List Expr} {cs : List C} {cs' : List C'} (h : List.Forall₂ S.ColumnRel cs cs') :
    List.Forall₂ S.OperandRel (args.zip cs) (args.zip cs') := by
  induction h generalizing args with
  | nil => simp
  | cons hc _ ih =>
    cases args with
    | nil => simp
    | cons arg more => exact .cons ⟨rfl, hc⟩ ih

theorem typed_operands {operands : List (Expr × C)} {operands' : List (Expr × C')}
    (h : List.Forall₂ S.OperandRel operands operands') :
    (operands'.map fun (e, c) => (e, B'.dataType c)) = operands.map fun (e, c) => (e, B.dataType c) := by
  induction h with
  | nil => rfl
  | cons hp _ ih => simp only [List.map_cons, ih, hp.1, S.dataType hp.2]

/-- Reading quoted dates again as text gives related columns of the types that resolving goes by. -/
theorem holds_reread [LawfulMonad m] {f : F} {f' : F'} {operands : List (Expr × C)} {operands' : List (Expr × C')}
    (hoperands : List.Forall₂ S.OperandRel operands operands') {cs : List C} (h : B.reread f operands = .ok cs) :
    cs.map B.dataType = Resolved.textTypes (operands.map fun (e, c) => (e, B.dataType c)) ∧
      E.Holds (B'.reread f' operands') (List.Forall₂ S.ColumnRel cs) := by
  rw [reread_eq] at h ⊢
  induction hoperands generalizing cs with
  | nil =>
    obtain rfl : [] = cs := by simpa [Pure.pure, Except.pure] using h
    exact ⟨rfl, E.pure .nil⟩
  | @cons p p' operands operands' hp _ ih =>
    obtain ⟨e, c⟩ := p
    obtain ⟨e', c'⟩ := p'
    obtain ⟨rfl, hc⟩ : e' = e ∧ S.ColumnRel c c' := hp
    rw [List.mapM_cons] at h ⊢
    obtain ⟨d, hd, h⟩ := bind_eq_ok.1 h
    obtain ⟨ds, hds, h⟩ := bind_eq_ok.1 h
    obtain rfl : d :: ds = cs := by simpa [Pure.pure, Except.pure] using h
    obtain ⟨htypes, hholds⟩ := ih hds
    -- Only a quoted date is read again, and both backends see the same operands as such.
    have hfirst : B.dataType d = (if Resolved.isQuotedDate e' (B.dataType c) then .string else B.dataType c) ∧
        E.Holds (B'.rereadOne f' (e', c')) (S.ColumnRel d) := by
      rcases Resolved.quotedDate_cases e' (B.dataType c) with ⟨content, rfl, htype⟩ | hnot
      · rw [rereadOne_quoted htype] at hd
        rw [rereadOne_quoted ((S.dataType hc).trans htype), htype]
        exact S.literal f' hd
      · rw [rereadOne_of_not hnot] at hd
        rw [rereadOne_of_not ((S.dataType hc).symm ▸ hnot), hnot, if_neg Bool.false_ne_true]
        obtain rfl := Except.ok.inj hd
        exact ⟨rfl, E.pure hc⟩
    refine ⟨?_, E.bind hfirst.2 fun d' hd' => E.bind hholds fun ds' hds' => E.pure (.cons hd' hds')⟩
    rw [List.map_cons, htypes, hfirst.1]
    rfl

theorem holds_columns [LawfulMonad m] {f : F} {f' : F'} {operands : List (Expr × C)}
    {operands' : List (Expr × C')} (asText : Bool) (hoperands : List.Forall₂ S.OperandRel operands operands')
    {cs : List C}
    (h : (if asText then B.reread f operands else pure (operands.map (·.2))) = Except.ok cs) :
    cs.map B.dataType = Resolved.operandTypes (operands.map fun (e, c) => (e, B.dataType c)) asText ∧
      E.Holds (if asText then B'.reread f' operands' else pure (operands'.map (·.2)))
        (List.Forall₂ S.ColumnRel cs) := by
  cases asText with
  | true => exact holds_reread hoperands h
  | false =>
    obtain rfl : operands.map (·.2) = cs := by simpa [Pure.pure, Except.pure] using h
    refine ⟨by simp [Resolved.operandTypes, Function.comp_def], E.pure ?_⟩
    rw [List.forall₂_map_left_iff, List.forall₂_map_right_iff]
    exact hoperands.imp fun _ _ hp => hp.2

theorem holds_apply [LawfulMonad m] {f : F} {f' : F'} (hf : S.FrameRel f f') {scope : Scope} {e : Expr}
    {name : String} {operands : List (Expr × C)} {operands' : List (Expr × C')}
    (hoperands : List.Forall₂ S.OperandRel operands operands') {c : C}
    (h : B.apply f scope e name operands = .ok c) : E.Holds (B'.apply f' scope e name operands') (S.ColumnRel c) := by
  unfold apply at h ⊢
  rw [typed_operands hoperands]
  obtain ⟨⟨resolved, asText⟩, hresolved, h⟩ := bind_eq_ok.1 h
  have hresolved : Resolved.ofOperands name (operands.map fun (e, c) => (e, B.dataType c)) = .ok (resolved, asText) :=
    hresolved
  refine E.bind (E.lift_ok hresolved) ?_
  rintro _ rfl
  have h : ((if asText then B.reread f operands else pure (operands.map (·.2))) >>= fun cs => do
      return B.rename (← B.execute f resolved cs scope) e.text) = .ok c := by
    cases asText <;> exact h
  obtain ⟨cs, hcs, h⟩ := bind_eq_ok.1 h
  obtain ⟨d, hd, h⟩ := bind_eq_ok.1 h
  obtain rfl : B.rename d e.text = c := by simpa [Pure.pure, Except.pure] using h
  obtain ⟨htypes, hcolumns⟩ := S.holds_columns asText hoperands hcs
  -- What is executed has the types that were resolved, after rereading too.
  have happlies := (Resolved.ofOperands_ok hresolved).2
  rw [← htypes] at happlies
  refine E.ite_bind (E.bind hcolumns fun cs' hcs' => ?_)
  exact E.bind (S.execute hf happlies hcs' hd) fun d' hd' => E.pure (S.rename e.text hd')

/-! ## Trees -/

/-- Over related frames, what the tree gives over the first backend the second follows. -/
def Follows (S : Simulation B B' E) (e : Expr) : Prop :=
  ∀ ⦃f w : F⦄ ⦃f' w' : F'⦄ ⦃scope : Scope⦄ ⦃o : Outcome F C⦄, S.FrameRel f f' → S.FrameRel w w' →
    B.eval e scope f w = .ok o → E.Holds (B'.eval e scope f' w') (S.OutcomeRel o)

theorem follows_quoted (content : String) : S.Follows (.quoted content) := by
  intro f w f' w' scope o hf hw h
  rw [eval] at h ⊢
  rw [S.options hf]
  obtain ⟨c, hc, h⟩ := bind_eq_ok.1 h
  obtain rfl : .column c = o := by simpa [Pure.pure, Except.pure] using h
  exact E.bind (S.literal f' hc).2 fun c' hc' => E.pure hc'

theorem follows_leaf {name : String} (hname : S.Known name) : S.Follows (.leaf name) := by
  intro f w f' w' scope o hf hw h
  rw [eval] at h ⊢
  obtain ⟨c, hc, h⟩ := bind_eq_ok.1 h
  obtain rfl : .column c = o := by simpa [Pure.pure, Except.pure] using h
  exact E.bind (S.holds_token hf hname hc) fun c' hc' => E.pure hc'

theorem follows_binary [LawfulMonad m] {op : BinaryOp} {left right : Expr} (hleft : S.Follows left)
    (hright : S.Follows right) : S.Follows (.binary op left right) := by
  intro f w f' w' scope o hf hw h
  rw [eval] at h ⊢
  obtain ⟨lo, hlo, h⟩ := bind_eq_ok.1 h
  obtain ⟨l, hl, h⟩ := bind_eq_ok.1 h
  obtain ⟨ro, hro, h⟩ := bind_eq_ok.1 h
  obtain ⟨r, hr, h⟩ := bind_eq_ok.1 h
  obtain ⟨c, hc, h⟩ := bind_eq_ok.1 h
  obtain rfl : .column c = o := by simpa [Pure.pure, Except.pure] using h
  refine E.bind (hleft hf hw hlo) fun lo' hlo' => E.bind (S.holds_asColumn hlo' hl) fun l' hl' => ?_
  refine E.bind (hright hf hw hro) fun ro' hro' => E.bind (S.holds_asColumn hro' hr) fun r' hr' => ?_
  refine E.bind (S.holds_apply hf ?_ hc) fun c' hc' => E.pure hc'
  exact .cons ⟨rfl, hl'⟩ (.cons ⟨rfl, hr'⟩ .nil)

section Calls

variable {name : String} {args : List Expr}

theorem holds_evalColumns (hargs : ∀ arg ∈ args, S.Follows arg) {f w : F} {f' w' : F'} (hf : S.FrameRel f f')
    (hw : S.FrameRel w w') {scope : Scope} {cs : List C} (h : B.evalColumns args scope f w = .ok cs) :
    E.Holds (B'.evalColumns args scope f' w') (List.Forall₂ S.ColumnRel cs) := by
  induction args generalizing cs with
  | nil =>
    rw [evalColumns] at h ⊢
    obtain rfl : [] = cs := by simpa [Pure.pure, Except.pure] using h
    exact E.pure .nil
  | cons arg more ih =>
    rw [evalColumns] at h ⊢
    obtain ⟨o, ho, h⟩ := bind_eq_ok.1 h
    obtain ⟨c, hc, h⟩ := bind_eq_ok.1 h
    obtain ⟨rest, hrest, h⟩ := bind_eq_ok.1 h
    obtain rfl : c :: rest = cs := by simpa [Pure.pure, Except.pure] using h
    have harg := hargs arg List.mem_cons_self
    refine E.bind (harg hf hw ho) fun o' ho' => E.bind (S.holds_asColumn ho' hc) fun c' hc' => ?_
    have hmore := ih (fun arg harg => hargs arg (List.mem_cons_of_mem _ harg)) hrest
    exact E.bind hmore fun cs' hcs' => E.pure (.cons hc' hcs')

theorem follows_operation [LawfulMonad m] (hform : SpecialForm.named? name = none)
    (hargs : ∀ arg ∈ args, S.Follows arg) : S.Follows (.call name args) := by
  intro f w f' w' scope o hf hw h
  unfold eval at h ⊢
  rw [hform] at h
  dsimp only at h ⊢
  obtain ⟨cs, hcs, h⟩ := bind_eq_ok.1 h
  obtain ⟨c, hc, h⟩ := bind_eq_ok.1 h
  obtain rfl : .column c = o := by simpa [Pure.pure, Except.pure] using h
  rw [hform]
  refine E.bind (S.holds_evalColumns hargs hf hw hcs) fun cs' hcs' => ?_
  exact E.bind (S.holds_apply hf (S.operands_zip hcs') hc) fun c' hc' => E.pure hc'

/-- The operand of `global` is evaluated on the whole frame. -/
theorem follows_global (hform : SpecialForm.named? name = some .global) (hargs : ∀ arg ∈ args, S.Follows arg) :
    S.Follows (.call name args) := by
  intro f w f' w' scope o hf hw h
  unfold eval at h ⊢
  rw [hform] at h ⊢
  dsimp only at h ⊢
  split at h
  · rename_i inner
    have hinner := hargs inner List.mem_cons_self
    obtain ⟨io, hio, h⟩ := bind_eq_ok.1 h
    obtain ⟨ic, hic, h⟩ := bind_eq_ok.1 h
    obtain ⟨c, hc, h⟩ := bind_eq_ok.1 h
    obtain rfl : .column _ = o := by simpa [Pure.pure, Except.pure] using h
    refine E.bind (hinner hw hw hio) fun io' hio' => E.bind (S.holds_asColumn hio' hic) fun ic' hic' => ?_
    exact E.bind (S.globalize hic' hc) fun c' hc' => E.pure (S.rename _ hc')
  · exact absurd h fail_ne_ok

theorem follows_sort [LawfulMonad m] (hform : SpecialForm.named? name = some .sort)
    (hknown : ∀ token ∈ Expr.tokensOf args, S.Known token) : S.Follows (.call name args) := by
  intro f w f' w' scope o hf hw h
  unfold eval at h ⊢
  rw [hform] at h ⊢
  dsimp only at h ⊢
  split at h
  · rename_i order first more
    obtain ⟨b, hb, h⟩ := bind_eq_ok.1 h
    obtain ⟨keys, hkeys, h⟩ := bind_eq_ok.1 h
    obtain ⟨g, hg, h⟩ := bind_eq_ok.1 h
    obtain rfl : .frame g = o := by simpa [Pure.pure, Except.pure] using h
    obtain ⟨hnames, hkeys'⟩ := S.holds_keys hf (fun token ht => hknown token (List.mem_append_right _ ht)) hkeys
    refine E.bind (holds_ascending hb) ?_
    rintro _ rfl
    refine E.bind hkeys' ?_
    rintro _ rfl
    exact E.bind (S.sort hf hnames hg) fun g' hg' => E.pure hg'
  · exact absurd h fail_ne_ok

theorem follows_plot (hform : SpecialForm.named? name = some .plot) (hargs : ∀ arg ∈ args, S.Follows arg) :
    S.Follows (.call name args) := by
  intro f w f' w' scope o hf hw h
  unfold eval at h ⊢
  rw [hform] at h ⊢
  dsimp only at h ⊢
  split at h
  · rename_i x y
    have hx := hargs x List.mem_cons_self
    have hy := hargs y (List.mem_cons_of_mem _ List.mem_cons_self)
    obtain ⟨xo, hxo, h⟩ := bind_eq_ok.1 h
    obtain ⟨xc, hxc, h⟩ := bind_eq_ok.1 h
    obtain ⟨yo, hyo, h⟩ := bind_eq_ok.1 h
    obtain ⟨yc, hyc, h⟩ := bind_eq_ok.1 h
    obtain ⟨xs, hxs, h⟩ := bind_eq_ok.1 h
    obtain ⟨ys, hys, h⟩ := bind_eq_ok.1 h
    obtain rfl : .plot _ = o := by simpa [Pure.pure, Except.pure] using h
    refine E.bind (hx hf hw hxo) fun xo' hxo' => E.bind (S.holds_asColumn hxo' hxc) fun xc' hxc' => ?_
    refine E.bind (hy hf hw hyo) fun yo' hyo' => E.bind (S.holds_asColumn hyo' hyc) fun yc' hyc' => ?_
    refine E.bind (S.values hxc' hxs) fun xs' hxs' => E.bind (S.values hyc' hys) fun ys' hys' => ?_
    exact E.pure ⟨S.name hxc', S.name hyc', hxs', hys'⟩
  · exact absurd h fail_ne_ok

/-- The formulas inside of `by` are handed over as reducers, which follow because the formulas do. -/
theorem follows_by (hform : SpecialForm.named? name = some .by) (hknown : ∀ token ∈ Expr.tokensOf args, S.Known token)
    (hformulas : ∀ named ∈ reductions args, S.Follows named.2) : S.Follows (.call name args) := by
  intro f w f' w' scope o hf hw h
  unfold eval at h ⊢
  rw [hform] at h ⊢
  dsimp only at h ⊢
  obtain ⟨⟨keys, reducers⟩, hparts, h⟩ := bind_eq_ok.1 h
  obtain ⟨-, rfl⟩ := groupArguments_ok hparts
  obtain ⟨hkeys, hparts'⟩ := S.holds_groupArguments hf hknown hparts
  dsimp only at h
  -- Without keys the first backend refuses, and there is nothing to follow.
  split at h
  · obtain ⟨_, hfail, -⟩ := bind_eq_ok.1 h
    exact absurd hfail fail_ne_ok
  · rename_i hnonempty
    obtain ⟨g, hg, h⟩ := bind_eq_ok.1 h
    obtain rfl : .frame g = o := by simpa [Pure.pure, Except.pure] using h
    have htokens : ∀ named ∈ reductions args, ∀ token ∈ named.2.tokens, S.Known token :=
      fun named hnamed token ht => hknown token (tokens_reduction hnamed ht)
    have hreducers : ∀ named ∈ reductions args, ∀ u u' x x' c, S.FrameRel u u' → S.FrameRel x x' →
        (B.reducer named).run u x = .ok c → E.Holds ((B'.reducer named).run u' x') (S.ColumnRel c) := by
      intro named hnamed u u' x x' c hu hx hc
      obtain ⟨vo, hvo, hc⟩ := bind_eq_ok.1 hc
      exact E.bind (hformulas named hnamed hu hx hvo) fun vo' hvo' => S.holds_asColumn hvo' hc
    refine E.bind hparts' ?_
    rintro _ rfl
    dsimp only
    rw [if_neg hnonempty]
    exact E.bind (S.group hf hkeys htokens hreducers hg) fun g' hg' => E.pure hg'

end Calls

/-- Every tree of known tokens follows. The formulas inside of `by` are no arguments themselves but parts of them, so
    the induction is on the size of the tree. -/
theorem follows [LawfulMonad m] {e : Expr} (he : ∀ token ∈ e.tokens, S.Known token) : S.Follows e := by
  cases e with
  | quoted content => exact follows_quoted content
  | leaf name => exact follows_leaf (he name List.mem_cons_self)
  | binary op left right =>
    exact follows_binary (follows fun token ht => he token (List.mem_append_left _ ht))
      (follows fun token ht => he token (List.mem_append_right _ ht))
  | call name args =>
    have hargs : ∀ arg ∈ args, S.Follows arg := fun arg harg =>
      have hsize := List.sizeOf_lt_of_mem harg
      follows fun token ht => he token (Expr.tokens_subset_tokensOf harg ht)
    cases hform : SpecialForm.named? name with
    | none => exact follows_operation hform hargs
    | some form =>
      cases form with
      | global => exact follows_global hform hargs
      | sort => exact follows_sort hform he
      | plot => exact follows_plot hform hargs
      | «by» =>
        refine follows_by hform he fun named hnamed => ?_
        have hsize := sizeOf_reduction hnamed
        exact follows fun token ht => he token (tokens_reduction hnamed ht)
  | assign name value =>
    intro f w f' w' scope o hf hw h
    rw [eval] at h
    exact absurd h fail_ne_ok
termination_by sizeOf e
decreasing_by
  all_goals subst_vars
  all_goals simp_wf
  all_goals omega

/-! ## Formulas -/

/-- Related outcomes with the same dependencies. -/
def ResultRel (S : Simulation B B' E) (r : Evaluated F C) (r' : Evaluated F' C') : Prop :=
  S.OutcomeRel r.outcome r'.outcome ∧ r'.dependencies = r.dependencies

theorem holds_run [LawfulMonad m] {f : F} {f' : F'} (hf : S.FrameRel f f') {e : Expr}
    (he : ∀ token ∈ e.tokens, S.Known token) {r : Evaluated F C} (h : B.run f e = .ok r) :
    E.Holds (B'.run f' e) (S.ResultRel r) := by
  unfold run at h ⊢
  obtain ⟨o, ho, h⟩ := bind_eq_ok.1 h
  obtain rfl := Except.ok.inj h
  refine E.bind (S.follows he hf hf ho) fun o' ho' => E.pure ⟨ho', ?_⟩
  exact Expr.dependencies_congr fun token ht => S.isSome_of_rel (S.column? hf (he token ht))

theorem renameOutcome_rel (target : Option String) {o : Outcome F C} {o' : Outcome F' C'} (h : S.OutcomeRel o o') :
    S.OutcomeRel (B.renameOutcome target o) (B'.renameOutcome target o') := by
  cases o with
  | column c =>
    cases o' with
    | column c' =>
      cases target with
      | none => exact h
      | some name => exact S.rename name h
    | _ => exact h.elim
  | _ => cases o' <;> exact h

/-- What a formula gives over the first backend, the second follows. -/
theorem holds_evaluate [LawfulMonad m] {f : F} {f' : F'} (hf : S.FrameRel f f') {text : String}
    (htext : ∀ formula, Formula.ofText text = .ok formula → ∀ token ∈ formula.expr.tokens, S.Known token)
    {r : Evaluated F C} (h : B.evaluate f text = .ok r) : E.Holds (B'.evaluate f' text) (S.ResultRel r) := by
  unfold evaluate at h ⊢
  obtain ⟨formula, hformula, h⟩ := bind_eq_ok.1 h
  obtain ⟨result, hresult, h⟩ := bind_eq_ok.1 h
  obtain rfl := Except.ok.inj h
  refine E.bind (E.lift_ok hformula) ?_
  rintro _ rfl
  refine E.bind (S.holds_run hf (htext _ hformula) hresult) fun result' hrel => E.pure ⟨?_, hrel.2⟩
  exact S.renameOutcome_rel _ hrel.1

end Simulation

end Backend

end Tabular
