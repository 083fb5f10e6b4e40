-- SUMMARY: Which formulas have the type on an empty frame that they have on one with rows, and so keep the schema of groups.
import Tabular.Proofs.Memory.Grouping
import Tabular.Proofs.Memory.Uniform

/-!
# Grouping without rows

Without rows there are no groups to evaluate a formula on, and its column gets the static type instead. The static type
is found for every formula that the evaluator accepts, and is the type of what it gives, but for one thing: the walk over
the tree takes the target of a cast from a quoted text, while the evaluator takes it from any operand that is a constant,
and `global` of a text is one too. A frame without rows groups to the schema of a frame with rows exactly if every cast
quotes its target.
-/

namespace Tabular

/-! ## Quoted targets -/

namespace Expr

/-- Whether the operands of a cast name the target by a quoted text. -/
def quotesTarget : List Expr → Bool
  | _ :: .quoted _ :: _ => true
  | _ => false

mutual

/-- Whether every cast in a tree names its target by a quoted text. -/
def quotesTargets : Expr → Bool
  | .quoted _ => true
  | .leaf _ => true
  | .binary _ left right => left.quotesTargets && right.quotesTargets
  | .call name args => quotesTargetsOf args && (name != "cast" || quotesTarget args)
  | .assign _ value => value.quotesTargets

/-- Whether every cast in several trees names its target by a quoted text. -/
def quotesTargetsOf : List Expr → Bool
  | [] => true
  | arg :: more => arg.quotesTargets && quotesTargetsOf more

end

/-- What the static walk gives up with at a cast. -/
def unquotedTarget : Failure := .execution "cast" .castTarget

/-- What the static walk finds of a tree that gives something of this kind: it, or the cast that it gives up at. -/
def walked {α : Type} (quotes : Bool) (found : α) : Except Failure α :=
  if quotes then .ok found else .error unquotedTarget

theorem castTarget_of_not_quotes {args : List Expr} (h : quotesTarget args = false) :
    castTarget args = .error unquotedTarget := by
  unfold castTarget
  split
  · cases h
  · rfl

/-- A walk that goes on gives up if it has given up before. -/
theorem walked_bind {α β : Type} {p q : Bool} {a : α} {b : β} {f : α → Except Failure β} (h : f a = walked q b) :
    (walked p a >>= f) = walked (p && q) b := by
  cases p
  · rfl
  · exact h

theorem walked_bind_ok {α β : Type} {p : Bool} {a : α} {b : β} {f : α → Except Failure β} (h : f a = .ok b) :
    (walked p a >>= f) = walked p b := by
  cases p
  · rfl
  · exact h

end Expr

namespace Memory.Frame

open Backend (evalWith evalColumnsWith)
open Tabular.Expr (walked)

variable {f g : Frame}

/-! ## What the evaluator accepts -/

section Types

variable {u w : Frame} {scope : Scope}

theorem SharesSchema.self (hw : w.Valid) : w.SharesSchema w := ⟨hw, hw, rfl, rfl⟩

/-- A cast whose target is quoted was handed that text. -/
theorem castTarget_handed {operands : List (Expr × Column)} {columns : List Column} {op : Resolved}
    (hhanded : List.Forall₂ (fun p d => typing.Handed p.1 d) operands columns) (hname : op.name = "cast")
    (happlies : op.Applies (columns.map Column.dataType))
    (hquotes : Expr.quotesTarget (operands.map (·.1)) = true) :
    Expr.castTarget (operands.map (·.1)) = Parameter.castTarget ((columns.map Column.constant).getD 1 none) := by
  cases hhanded with
  | nil => cases hquotes
  | cons _ hmore =>
    cases hmore with
    | nil => cases hquotes
    | @cons p d _ _ hsecond _ =>
      obtain ⟨e, c⟩ := p
      have htext : d.dataType = .string := happlies.string_of_cast hname
      cases e with
      | quoted content =>
        have hconstant : d.constant = some (.string content) := hsecond.text content rfl htext
        simp [Expr.castTarget, hconstant]
      | _ => cases hquotes

/-- The static result of an operation that was carried out. -/
theorem staticResult_apply {patterns : List String} {e : Expr} {name : String} {operands : List (Expr × Column)}
    {c : Column} (hoperands : ∀ p ∈ operands, typing.Operand patterns p.1 p.2)
    (h : backend.apply u scope e name operands = .ok c) :
    ∃ op asText, Resolved.ofOperands name (operands.map fun p => (p.1, p.2.dataType)) = .ok (op, asText) ∧
      Backend.staticResult name (operands.map (·.1)) op =
        walked (name != "cast" || Expr.quotesTarget (operands.map (·.1))) c.dataType := by
  obtain ⟨op, asText, columns, made, hop, hcolumns, hmade, rfl⟩ := apply_eq_ok.1 h
  obtain ⟨hhanded, happlies⟩ := handed_columns hoperands hop hcolumns
  have htype := resultType_execute hhanded happlies hmade
  change op.resultType (columns.map Column.constant) = .ok made.dataType at htype
  change ∃ op asText, _ ∧ _ = walked _ made.dataType
  refine ⟨op, asText, hop, ?_⟩
  obtain ⟨rfl, -⟩ := Resolved.ofOperands_ok hop
  unfold Backend.staticResult
  by_cases hcast : op.name = "cast"
  · rw [Resolved.resultType, if_pos hcast] at htype
    rw [if_pos hcast]
    cases hquotes : Expr.quotesTarget (operands.map (·.1)) with
    | false =>
      rw [Expr.castTarget_of_not_quotes hquotes, hcast]
      rfl
    | true =>
      rw [castTarget_handed hhanded hcast happlies hquotes, htype, Bool.or_true]
      rfl
  · rw [Resolved.resultType_of_ne hcast] at htype
    rw [if_neg hcast, htype, bne_iff_ne.2 hcast, Bool.true_or]
    rfl

/-! ## Static types -/

theorem staticType_token {name : String} {c : Column} (h : backend.token u name = .ok c) :
    (Expr.leaf name).staticType u.options.datePatterns u.schema = .ok c.dataType := by
  simp only [Backend.token, backend] at h
  rw [Expr.staticType, Frame.schema]
  cases hd : u.column? name with
  | some d =>
    rw [hd] at h
    obtain rfl := Except.ok.inj h
    rfl
  | none =>
    rw [hd] at h
    cases hv : Value.ofToken? u.options.datePatterns name with
    | some v =>
      rw [hv] at h
      exact congrArg Except.ok (Column.literal_ok h).2.1.symm
    | none =>
      rw [hv] at h
      cases h

mutual

/-- What a tree gives has its static type, unless the walk gives up at a cast. -/
theorem staticType_evalWith {u w : Frame} (hs : u.SharesSchema w) {e : Expr} {scope : Scope} {c : Column}
    (h : backend.evalWith (backend.globalOf w) scope u e = .ok c) :
    e.staticType u.options.datePatterns u.schema = walked e.quotesTargets c.dataType := by
  have htable := typed_globalOf hs.right
  cases e with
  | quoted content =>
    rw [evalWith] at h
    exact congrArg Except.ok (Column.literal_ok h).2.1.symm
  | leaf name =>
    rw [evalWith] at h
    exact staticType_token h
  | binary op left right =>
    rw [evalWith] at h
    obtain ⟨l, hl, h⟩ := bind_eq_ok.1 h
    obtain ⟨r, hr, h⟩ := bind_eq_ok.1 h
    have hoperands : ∀ p ∈ [(left, l), (right, r)], typing.Operand u.options.datePatterns p.1 p.2 := by
      simpa using ⟨operand_evalWith hs.left htable hl, operand_evalWith hs.left htable hr⟩
    obtain ⟨resolved, asText, hop, hresult⟩ := staticResult_apply hoperands h
    -- No operator is spelled like the cast.
    have hne : op.operation ≠ "cast" := by cases op <;> decide
    rw [bne_iff_ne.2 hne, Bool.true_or] at hresult
    rw [Expr.staticType, staticType_evalWith hs hl, staticType_evalWith hs hr, Expr.quotesTargets]
    refine Expr.walked_bind (Expr.walked_bind_ok (bind_eq_ok.2 ⟨(resolved, asText), hop, ?_⟩))
    rwa [Backend.staticResult, if_neg hne] at hresult
  | call name args =>
    cases hform : SpecialForm.named? name with
    | none =>
      unfold evalWith at h
      rw [hform] at h
      obtain ⟨cs, hcs, h⟩ := bind_eq_ok.1 h
      have hoperands := operands_evalColumnsWith hs.left htable hcs
      obtain ⟨resolved, asText, hop, hresult⟩ :=
        staticResult_apply (Backend.Typing.operands_zip hoperands) h
      rw [List.map_fst_zip (Nat.le_of_eq hoperands.length_eq)] at hresult
      unfold Expr.staticType
      rw [hform]
      dsimp only
      rw [staticTypes_evalColumnsWith hs hcs, Expr.quotesTargets]
      refine Expr.walked_bind ?_
      rw [Backend.zip_dataTypes]
      change (Resolved.ofOperands name ((args.zip cs).map fun p => (p.1, p.2.dataType)) >>= _) = _
      rw [hop]
      exact hresult
    | some form =>
      by_cases hglobal : form = .global
      · subst hglobal
        unfold evalWith at h
        rw [hform] at h
        dsimp only at h
        split at h
        · rename_i inner
          obtain ⟨o, ho, h⟩ := bind_eq_ok.1 h
          obtain ⟨d, hd, h⟩ := bind_eq_ok.1 h
          obtain ⟨d', hglobal, h⟩ := bind_eq_ok.1 h
          obtain rfl := Except.ok.inj h
          obtain rfl := globalize_ok hglobal
          obtain rfl := Backend.asColumn_eq_ok hd
          -- The operand of `global` is a tree over the whole frame, which has the same schema.
          have hinner := staticType_evalWith (.self hs.right) ((Backend.eval_column_iff inner d).1 ho)
          rw [hs.options, hs.schema] at hinner
          obtain rfl := SpecialForm.eq_name_of_named? hform
          unfold Expr.staticType Expr.quotesTargets
          rw [hform]
          dsimp only
          rw [hinner]
          simp [Expr.quotesTargetsOf, SpecialForm.name]
          rfl
        · cases h
      · rw [Backend.evalWith_form hform hglobal] at h
        cases h
  | assign name value =>
    rw [evalWith] at h
    cases h

theorem staticTypes_evalColumnsWith {u w : Frame} (hs : u.SharesSchema w) {args : List Expr} {scope : Scope} {cs : List Column}
    (h : backend.evalColumnsWith (backend.globalOf w) scope u args = .ok cs) :
    Expr.staticTypes u.options.datePatterns u.schema args = walked (Expr.quotesTargetsOf args) (cs.map Column.dataType) := by
  match args with
  | [] =>
    rw [evalColumnsWith] at h
    obtain rfl := Except.ok.inj h
    rfl
  | arg :: more =>
    rw [evalColumnsWith] at h
    obtain ⟨c, hc, h⟩ := bind_eq_ok.1 h
    obtain ⟨rest, hrest, h⟩ := bind_eq_ok.1 h
    obtain rfl := Except.ok.inj h
    rw [Expr.staticTypes, staticType_evalWith hs hc, staticTypes_evalColumnsWith hs hrest, Expr.quotesTargetsOf]
    exact Expr.walked_bind (Expr.walked_bind_ok rfl)

end

end Types

/-! ## No rows -/

/-- Two frames with the same labels, of which the second has no rows. -/
structure Emptied (f f₀ : Frame) : Prop where
  left : f.Valid
  right : f₀.Valid
  rows : f₀.rows = 0
  labels : f₀.labels = f.labels

theorem Emptied.contains {f f₀ : Frame} (h : f.Emptied f₀) (name : String) :
    f₀.set.contains name = f.set.contains name := by
  have hnames : f₀.set.names Column.name = f.set.names Column.name := by
    have hlabels := congrArg (List.map Prod.fst) h.labels
    simp only [Frame.labels, List.map_map] at hlabels
    exact hlabels
  rw [Bool.eq_iff_iff, h.right.indexed.contains_iff, h.left.indexed.contains_iff, hnames]

/-- Two columns with the same label, of which the second has no cells. -/
structure HollowColumn (c c₀ : Column) : Prop where
  left : c.Typed
  right : c₀.Typed
  length : c₀.length = 0
  label : c₀.label = c.label

/-- A column without cells is added where one of its label is. -/
theorem Emptied.append {f f₀ g : Frame} (h : f.Emptied f₀) {c c₀ : Column} (hc : HollowColumn c c₀)
    (hg : f.append c = .ok g) : ∃ g₀, f₀.append c₀ = .ok g₀ ∧ g.Emptied g₀ := by
  have hname : c₀.name = c.name := congrArg Prod.fst hc.label
  have hnew : f₀.set.contains c₀.name = false := by
    rw [h.contains, hname]
    exact (append_ok hg).1
  have hfit : f₀.fit c₀ = .ok c₀.data := if_pos (.inr (hc.length.trans h.rows.symm))
  have happend : f₀.append c₀ =
      .ok { f₀ with set := f₀.set.push c₀.name { c₀ with data := c₀.data, constant := none } } := by
    unfold Frame.append
    rw [hnew, hfit]
    rfl
  refine ⟨_, happend, h.left.append hc.left hg, h.right.append hc.right happend, ?_, ?_⟩
  · have hrows := h.rows
    rw [rows_eq] at hrows ⊢
    change ((f₀.columns ++ [{ c₀ with constant := none }]).map Column.length).headD 0 = 0
    cases hcolumns : f₀.columns with
    | nil => exact hc.length
    | cons d more =>
      rw [hcolumns] at hrows
      exact hrows
  · rw [(labels_append happend).1, (labels_append hg).1, h.labels, hc.label]

/-- Columns are made and added to both, each with one without cells for it, unless one of these cannot be made. -/
theorem Emptied.foldlM_append {A A₀ : Type} {make : A → Except Failure Column} {make₀ : A₀ → Except Failure Column}
    {quotes : A₀ → Bool} {xs : List A} {ys : List A₀}
    (hmake : List.Forall₂ (fun x y => ∀ c, make x = .ok c → ∃ c₀, make₀ y = walked (quotes y) c₀ ∧ HollowColumn c c₀)
      xs ys)
    {f f₀ g : Frame} (h : f.Emptied f₀) (hg : xs.foldlM (fun (out : Frame) x => do out.append (← make x)) f = .ok g) :
    ∃ g₀, ys.foldlM (fun (out : Frame) y => do out.append (← make₀ y)) f₀ = walked (ys.all quotes) g₀ ∧
      g.Emptied g₀ := by
  induction hmake generalizing f f₀ with
  | nil =>
    obtain rfl := Except.ok.inj hg
    exact ⟨f₀, rfl, h⟩
  | @cons x y xs ys hstep _ ih =>
    rw [List.foldlM_cons] at hg
    obtain ⟨out, hout, hg⟩ := bind_eq_ok.1 hg
    obtain ⟨c, hc, happend⟩ := bind_eq_ok.1 hout
    obtain ⟨c₀, hc₀, hhollow⟩ := hstep c hc
    obtain ⟨out₀, hout₀, hemptied⟩ := h.append hhollow happend
    obtain ⟨g₀, hg₀, hresult⟩ := ih hemptied hg
    refine ⟨g₀, ?_, hresult⟩
    rw [List.foldlM_cons, hc₀, bind_assoc, List.all_cons]
    refine Expr.walked_bind ?_
    rw [hout₀]
    exact hg₀

/-- The column of a formula without groups, where the formula was reduced over some. -/
theorem reduce_empty (hf : f.Valid) {f₀ : Frame} (hf₀ : f.take [] = .ok f₀) {groups : List (List Nat)}
    (hgroups : groups ≠ []) {named : String × Expr} {c : Column}
    (h : f.reduce groups (backend.reducer named) = .ok c) :
    ∃ c₀, f₀.reduce [] (backend.reducer named) = walked named.2.quotesTargets c₀ ∧ HollowColumn c c₀ := by
  have htyped := typed_reduce h
  unfold reduce at h
  obtain ⟨results, hresults, h⟩ := bind_eq_ok.1 h
  split at h
  · exact absurd (List.length_eq_zero_iff.1 (length_of_mapM hresults).symm) hgroups
  rename_i first value more
  obtain ⟨data, -, h⟩ := bind_eq_ok.1 h
  obtain rfl := Except.ok.inj h
  -- The first group gives the column its type, and has the schema of the whole frame.
  obtain ⟨rows, -, hrow⟩ := exists_of_mem_mapM hresults List.mem_cons_self
  obtain ⟨u, hu, -, hwith, -⟩ := reduceGroup_value hrow
  have hshares : u.SharesSchema f := ⟨hf.take hu, hf, (schema_take hu).2.symm, (schema_take hu).1.symm⟩
  have hstatic := staticType_evalWith hshares hwith
  rw [(schema_take hu).1, (schema_take hu).2, ← (schema_take hf₀).1, ← (schema_take hf₀).2] at hstatic
  obtain ⟨cells, hcells⟩ := Series.exists_empty_of_storage htyped
  obtain ⟨hstored, hlength⟩ := Series.empty_ok hcells
  refine ⟨⟨named.1, first.dataType, cells, none, none⟩, ?_, ⟨htyped, hstored, hlength, rfl⟩⟩
  unfold reduce
  change (do
    let dataType ← named.2.staticType f₀.options.datePatterns f₀.schema
    return ⟨named.1, dataType, ← Series.empty dataType, none, none⟩ : Except Failure Column) = _
  rw [hstatic]
  refine Expr.walked_bind_ok ?_
  rw [hcells]
  rfl

/-- Whatever rows of a column are taken, it can be taken without rows, also once it is. -/
theorem take_take_nil {c c' d : Column} {rows rows' : List Nat} (hc : c.Typed) (hc' : c.take rows = .ok c')
    (hd : c.take rows' = .ok d) : ∃ c₀, d.take [] = .ok c₀ ∧ HollowColumn c' c₀ := by
  obtain ⟨cells, hcells⟩ : ∃ cells, d.data.take [] = .ok cells := Series.exists_take (by simp)
  have htake : d.take [] = .ok { d with data := cells } := bind_eq_ok.2 ⟨cells, liftM_series_eq_ok.2 hcells, rfl⟩
  have hleft := Column.Typed.take hc hc'
  have hright := Column.Typed.take (Column.Typed.take hc hd) htake
  obtain ⟨_, -, rfl⟩ := take_column_ok hd
  obtain ⟨_, -, rfl⟩ := take_column_ok hc'
  exact ⟨_, htake, hleft, hright, (Series.take_ok hcells).2, rfl⟩

/-- The key columns of a frame without its rows. -/
theorem keyColumns_take {f₀ : Frame} {rows : List Nat} (hf₀ : f.take rows = .ok f₀) {keys : List String}
    {keyColumns : List Column} (h : keys.mapM f.column = .ok keyColumns) :
    ∃ keyColumns₀, keys.mapM f₀.column = .ok keyColumns₀ ∧
      List.Forall₂ (fun c d => c.take rows = .ok d) keyColumns keyColumns₀ := by
  refine mapM_follows (fun key _ c hc => ?_) h
  have hrel := column?_take hf₀ key
  rw [column_ok hc] at hrel
  unfold column
  generalize f₀.column? key = found at hrel
  cases hrel with
  | some htake => exact ⟨_, rfl, htake⟩

/-- Grouping a frame without rows, where its formulas were reduced over groups of rows. -/
theorem group_empty (hf : f.Valid) (hrows : 0 < f.rows) {f₀ : Frame} (hf₀ : f.take [] = .ok f₀) {keys : List String}
    {formulas : List (String × Expr)} (h : f.group keys (formulas.map backend.reducer) = .ok g) :
    ∃ g₀, f₀.group keys (formulas.map backend.reducer) = walked (formulas.all (·.2.quotesTargets)) g₀ ∧
      g.Emptied g₀ := by
  obtain ⟨keyColumns, hkeys, h⟩ := bind_eq_ok.1 h
  obtain ⟨grouped, hgrouped, h⟩ := bind_eq_ok.1 h
  obtain ⟨keyColumns₀, hkeys₀, htaken⟩ := keyColumns_take hf₀ hkeys
  have hrows₀ : f₀.rows = 0 := by
    rw [rows_take hf₀]
    exact ite_self 0
  have hgroups := groups_ne_nil (keyColumns.map (·.data)) hrows
  generalize groups (keyColumns.map (·.data)) f.rows = divided at *
  have htyped : ∀ c ∈ keyColumns, c.Typed := by
    intro c hc
    obtain ⟨key, -, hkey⟩ := exists_of_mem_mapM hkeys hc
    exact hf.typed c (hf.mem_of_column? (column_ok hkey)).1
  have hstart : (empty f.options).Emptied (empty f₀.options) := ⟨valid_empty _, valid_empty _, rfl, rfl⟩
  have hkeyColumns : List.Forall₂ (fun c d => ∀ c', c.take (divided.filterMap List.head?) = .ok c' →
      ∃ c₀, d.take [] = walked true c₀ ∧ HollowColumn c' c₀) keyColumns keyColumns₀ :=
    ((List.forall₂_and_left _ _).2 ⟨htyped, htaken⟩).imp fun c d ⟨hc, hd⟩ c' hc' => take_take_nil hc hc' hd
  have hformulas : List.Forall₂ (fun r named => ∀ c, f.reduce divided r = .ok c →
      ∃ c₀, f₀.reduce [] (backend.reducer named) = walked named.2.quotesTargets c₀ ∧ HollowColumn c c₀)
      (formulas.map backend.reducer) formulas := by
    rw [List.forall₂_map_left_iff, List.forall₂_same]
    exact fun named _ c hc => reduce_empty hf hf₀ hgroups hc
  obtain ⟨grouped₀, hgrouped₀, hemptied⟩ := hstart.foldlM_append hkeyColumns hgrouped
  obtain ⟨g₀, hg₀, hresult⟩ := hemptied.foldlM_append hformulas h
  refine ⟨g₀, ?_, hresult⟩
  rw [group_eq hkeys₀ (hrows₀ ▸ groups_zero _), List.filterMap_nil, hgrouped₀,
    List.all_eq_true.2 fun _ _ => rfl, ← hg₀]
  exact List.foldlM_map

/-- A call of `by` that gives groups over a frame with rows is carried out over the frame without its rows exactly if
    every cast in its formulas quotes its target, and then it gives no rows and the names and the types of the groups, in
    order. Otherwise it fails at a cast. -/
theorem eval_by_empty_iff (hf : f.Reached) (hrows : 0 < f.rows) {args : List Expr} {scope : Scope}
    (h : backend.eval (.call "by" args) scope f f = .ok (.frame g)) :
    ∃ f₀, f.take [] = .ok f₀ ∧
      ((∃ g₀, backend.eval (.call "by" args) scope f₀ f₀ = .ok (.frame g₀) ∧ g₀.rows = 0 ∧ g₀.labels = g.labels) ↔
        ∀ named ∈ Backend.reductions args, named.2.quotesTargets = true) ∧
      (¬(∀ named ∈ Backend.reductions args, named.2.quotesTargets = true) →
        backend.eval (.call "by" args) scope f₀ f₀ = .error (.execution "cast" .castTarget)) := by
  obtain ⟨f₀, hf₀⟩ : ∃ f₀, f.take [] = .ok f₀ := hf.valid.exists_take (by simp)
  obtain ⟨keys, reducers, g', hparts, hkeys, hgroup, ho⟩ := Backend.eval_by_ok rfl h
  obtain rfl := Outcome.frame.inj ho
  obtain ⟨rfl, rfl⟩ := Backend.groupArguments_ok hparts
  obtain ⟨g₀, hg₀, hemptied⟩ := group_empty hf.valid hrows hf₀ hgroup
  have heval : backend.eval (.call "by" args) scope f₀ f₀ =
      walked ((Backend.reductions args).all (·.2.quotesTargets)) (.frame g₀) := by
    unfold Backend.eval
    change (Backend.groupArguments backend args f₀ >>= _) = _
    rw [Backend.groupArguments_congr (isSome_column?_take hf₀), hparts]
    refine (if_neg hkeys).trans ?_
    have hgroup₀ : backend.group f₀ _ _ = _ := hg₀
    rw [hgroup₀]
    exact Expr.walked_bind_ok rfl
  rw [← List.all_eq_true]
  refine ⟨f₀, hf₀, ?_, fun hnot => ?_⟩
  · rw [heval]
    refine ⟨?_, fun hall => ⟨g₀, ?_, hemptied.rows, hemptied.labels⟩⟩
    · rintro ⟨g', hg', -⟩
      cases hall : (Backend.reductions args).all (·.2.quotesTargets) with
      | true => rfl
      | false =>
        rw [hall] at hg'
        cases hg'
    · rw [hall]
      rfl
  · rw [heval, Bool.eq_false_iff.2 hnot]
    rfl

/-- A count per key as a text. With the target quoted the groups of no rows have the same schema; with the target from
    `global` of the same text there are groups of the rows only. -/
theorem eval_by_empty_iff_global :
    let f := (empty .default).run [(.append (.ofSeries "k" (.integers [1])), false),
      (.append (.ofSeries "x" (.integers [1])), false)]
    let call (target : Expr) := Expr.call "by" [.leaf "k", .assign "m" (.call "cast" [.call "count" [.leaf "x"], target])]
    let quoted := Expr.quoted "string"
    let indirect := Expr.call "global" [quoted]
    (∀ target ∈ [quoted, indirect], ∃ g, backend.eval (call target) .rows f f = .ok (.frame g) ∧
      g.labels = [("k", .integer), ("m", .string)]) ∧
    ∃ f₀ g₀, f.take [] = .ok f₀ ∧ backend.eval (call quoted) .rows f₀ f₀ = .ok (.frame g₀) ∧ g₀.rows = 0 ∧
      g₀.labels = [("k", .integer), ("m", .string)] ∧
      backend.eval (call indirect) .rows f₀ f₀ = .error (.execution "cast" .castTarget) := by
  intro f call quoted indirect
  have hf : f.Reached := (Reached.empty .default).run fun c returned hc => by
    simp only [List.mem_cons, Prod.mk.injEq, Request.append.injEq, List.not_mem_nil, or_false] at hc
    rcases hc with ⟨rfl, -⟩ | ⟨rfl, -⟩
    · exact .ofSeries ..
    · exact .ofSeries ..
  have hlabels : ∀ target ∈ [quoted, indirect], ((backend.eval (call target) .rows f f).toOption.bind
      Outcome.frame?).map labels = some [("k", .integer), ("m", .string)] := by
    decide +kernel
  have hgiven : ∀ target ∈ [quoted, indirect], ∃ g, backend.eval (call target) .rows f f = .ok (.frame g) ∧
      g.labels = [("k", .integer), ("m", .string)] := by
    intro target htarget
    obtain ⟨g, hframe, hg⟩ := Option.map_eq_some_iff.1 (hlabels target htarget)
    obtain ⟨o, ho, hframe⟩ := Option.bind_eq_some_iff.1 hframe
    obtain rfl := Outcome.frame?_eq_some.1 hframe
    exact ⟨g, toOption_eq_some.1 ho, hg⟩
  obtain ⟨g, hquoted, hg⟩ := hgiven quoted (by simp)
  obtain ⟨g', hindirect, -⟩ := hgiven indirect (by simp)
  obtain ⟨f₀, hf₀, hkept, -⟩ := eval_by_empty_iff hf (by decide) hquoted
  obtain ⟨f₀', hf₀', -, hfails⟩ := eval_by_empty_iff hf (by decide) hindirect
  obtain rfl := Except.ok.inj (hf₀.symm.trans hf₀')
  obtain ⟨g₀, hg₀, hrows, hsame⟩ := hkept.2 (by decide)
  exact ⟨hgiven, f₀, g₀, hf₀, hg₀, hrows, hsame.trans hg, hfails (by decide)⟩

end Memory.Frame

end Tabular
