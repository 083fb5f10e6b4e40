-- SUMMARY: Grouping in memory gives one row for each distinct key, and each formula its value on the rows of the group.
import Tabular.Proofs.Evaluation.Table
import Tabular.Proofs.Memory.Decoding
import Tabular.Proofs.Memory.Evaluate

/-!
# Grouping in memory

A formula is evaluated once for each group, over frames of one schema and with one table of global values. So it has
the same type on all groups, and its values are stored as they are.
-/

namespace Tabular.Memory

/-! ## Formulas over frames of one schema -/

/-- Columns of one type, with the same value if they are literals. -/
structure Column.Matches (c d : Column) : Prop where
  dataType : d.dataType = c.dataType
  constant : d.constant = c.constant

theorem Column.Matches.refl (c : Column) : c.Matches c := ⟨rfl, rfl⟩

namespace Frame

open Backend (evalWith evalColumnsWith)

/-- Frames with the same columns but for the cells. -/
structure SharesSchema (s s' : Frame) : Prop where
  left : s.Valid
  right : s'.Valid
  options : s'.options = s.options
  schema : s'.schema = s.schema

section Schema

variable {s s' : Frame} {scope : Scope} {table : Expr → Except Failure Column}

theorem rereadOne_matches {e : Expr} {c c' d d' : Column} (hmatches : c.Matches c')
    (h : backend.rereadOne s (e, c) = .ok d) (h' : backend.rereadOne s' (e, c') = .ok d') : d.Matches d' := by
  rcases Resolved.quotedDate_cases e c.dataType with ⟨content, rfl, htype⟩ | hnot
  · rw [Backend.rereadOne_quoted htype] at h
    rw [Backend.rereadOne_quoted (hmatches.dataType.trans htype)] at h'
    obtain rfl := Except.ok.inj (h.symm.trans h')
    exact .refl d
  · rw [Backend.rereadOne_of_not hnot] at h
    rw [Backend.rereadOne_of_not (by rw [← hnot]; exact congrArg _ hmatches.dataType)] at h'
    obtain rfl := Except.ok.inj h
    obtain rfl := Except.ok.inj h'
    exact hmatches

/-- Operands that match are handed over as columns that match. -/
theorem columns_matches {operands operands' : List (Expr × Column)} (asText : Bool)
    (hall : List.Forall₂ (fun p q => q.1 = p.1 ∧ p.2.Matches q.2) operands operands') {cs cs' : List Column}
    (h : (if asText then backend.reread s operands else pure (operands.map (·.2))) = .ok cs)
    (h' : (if asText then backend.reread s' operands' else pure (operands'.map (·.2))) = .ok cs') :
    List.Forall₂ Column.Matches cs cs' := by
  cases asText with
  | false =>
    obtain rfl := Except.ok.inj h
    obtain rfl := Except.ok.inj h'
    rw [List.forall₂_map_left_iff, List.forall₂_map_right_iff]
    exact hall.imp fun _ _ hp => hp.2
  | true =>
    rw [if_pos rfl, Backend.reread_eq, mapM_eq_ok] at h h'
    induction hall generalizing cs cs' with
    | nil =>
      cases h
      cases h'
      exact .nil
    | @cons p q _ _ hp _ ih =>
      obtain ⟨e, c⟩ := p
      obtain ⟨e', c'⟩ := q
      obtain ⟨rfl, hmatches⟩ := hp
      cases h with
      | cons hd hds =>
        cases h' with
        | cons hd' hds' => exact .cons (rereadOne_matches hmatches hd hd') (ih hds hds')

/-- An operation over operands that match gives columns that match. -/
theorem apply_matches {patterns : List String} {e : Expr} {name : String} {operands operands' : List (Expr × Column)}
    (hleft : ∀ p ∈ operands, typing.Operand patterns p.1 p.2)
    (hright : ∀ p ∈ operands', typing.Operand patterns p.1 p.2)
    (hall : List.Forall₂ (fun p q => q.1 = p.1 ∧ p.2.Matches q.2) operands operands') {c c' : Column}
    (h : backend.apply s scope e name operands = .ok c) (h' : backend.apply s' scope e name operands' = .ok c') :
    c.Matches c' := by
  obtain ⟨op, asText, columns, made, hop, hcolumns, hmade, rfl⟩ := apply_eq_ok.1 h
  obtain ⟨op', asText', columns', made', hop', hcolumns', hmade', rfl⟩ := apply_eq_ok.1 h'
  have htypes : (operands'.map fun p => (p.1, p.2.dataType)) = operands.map fun p => (p.1, p.2.dataType) :=
    map_eq_map_of_forall₂ (hall.flip.imp fun q p hp => Prod.ext hp.1 hp.2.dataType)
  obtain ⟨rfl, rfl⟩ := Prod.mk.inj (Except.ok.inj (hop.symm.trans (htypes ▸ hop')))
  have hmatches := columns_matches asText hall hcolumns hcolumns'
  have hconstants : columns'.map (·.constant) = columns.map (·.constant) :=
    map_eq_map_of_forall₂ (hmatches.flip.imp fun _ _ hc => hc.constant)
  obtain ⟨hhanded, happlies⟩ := handed_columns hleft hop hcolumns
  obtain ⟨hhanded', happlies'⟩ := handed_columns hright (htypes ▸ hop) hcolumns'
  have htype := resultType_execute hhanded happlies hmade
  have htype' := resultType_execute hhanded' happlies' hmade'
  rw [hconstants, htype] at htype'
  exact ⟨(Except.ok.inj htype').symm, (made_execute hmade').constant.trans (made_execute hmade).constant.symm⟩

theorem typed_apply {e : Expr} {name : String} {operands : List (Expr × Column)} {c : Column}
    (h : backend.apply s scope e name operands = .ok c) : c.Typed := by
  obtain ⟨op, asText, columns, made, -, -, hmade, rfl⟩ := apply_eq_ok.1 h
  exact (made_execute hmade).typed

theorem typed_token (hs : s.Valid) {name : String} {c : Column} (h : backend.token s name = .ok c) : c.Typed := by
  simp only [Backend.token, backend] at h
  split at h
  · rename_i d hd
    obtain rfl := Except.ok.inj h
    exact hs.typed _ (hs.mem_of_column? hd).1
  · split at h
    · exact (Column.literal_ok h).1
    · simp [Backend.fail] at h

/-- What a tree gives is an operand: its cells have the storage of its type, and a literal knows its value. -/
theorem operand_evalWith (hs : s.Valid) (htable : ∀ a c, table a = .ok c → c.Typed) {e : Expr} {c : Column}
    (h : backend.evalWith table scope s e = .ok c) : typing.Operand s.options.datePatterns e c := by
  cases e with
  | quoted content =>
    rw [evalWith] at h
    obtain ⟨htyped, htype, hconstant, -⟩ := Column.literal_ok h
    refine ⟨htyped, fun other hother => ?_⟩
    obtain rfl := Expr.quoted.inj hother
    exact ⟨hconstant, htype⟩
  | leaf name =>
    rw [evalWith] at h
    exact ⟨typed_token hs h, by simp⟩
  | binary op left right =>
    rw [evalWith] at h
    obtain ⟨l, -, h⟩ := bind_eq_ok.1 h
    obtain ⟨r, -, h⟩ := bind_eq_ok.1 h
    exact ⟨typed_apply h, by simp⟩
  | call name args =>
    refine ⟨?_, by simp⟩
    unfold evalWith at h
    split at h
    · obtain ⟨columns, -, h⟩ := bind_eq_ok.1 h
      exact typed_apply h
    · split at h
      · exact htable _ _ h
      · cases h
    · cases h
  | assign name value =>
    rw [evalWith] at h
    cases h

theorem operands_evalColumnsWith (hs : s.Valid) (htable : ∀ a c, table a = .ok c → c.Typed) {args : List Expr}
    {cs : List Column} (h : backend.evalColumnsWith table scope s args = .ok cs) :
    List.Forall₂ (typing.Operand s.options.datePatterns) args cs := by
  induction args generalizing cs with
  | nil =>
    rw [evalColumnsWith] at h
    obtain rfl := Except.ok.inj h
    exact .nil
  | cons arg more ih =>
    rw [evalColumnsWith] at h
    obtain ⟨c, hc, h⟩ := bind_eq_ok.1 h
    obtain ⟨rest, hrest, h⟩ := bind_eq_ok.1 h
    obtain rfl := Except.ok.inj h
    exact .cons (operand_evalWith hs htable hc) (ih hrest)

theorem token_matches (hs : s.SharesSchema s') {name : String} {c c' : Column} (h : backend.token s name = .ok c)
    (h' : backend.token s' name = .ok c') : c.Matches c' := by
  have hname := congrFun hs.schema name
  simp only [Backend.token, backend, hs.options] at h h'
  unfold Frame.schema at hname
  cases hc : s.column? name with
  | some d =>
    rw [hc, Option.map_some] at hname
    obtain ⟨d', hd', htype⟩ := Option.map_eq_some_iff.1 hname
    rw [hc] at h
    rw [hd'] at h'
    obtain rfl := Except.ok.inj h
    obtain rfl := Except.ok.inj h'
    refine ⟨htype, ?_⟩
    rw [hs.left.constants _ (hs.left.mem_of_column? hc).1, hs.right.constants _ (hs.right.mem_of_column? hd').1]
  | none =>
    rw [hc, Option.map_none, Option.map_eq_none_iff] at hname
    rw [hc] at h
    rw [hname] at h'
    obtain rfl := Except.ok.inj (h.symm.trans h')
    exact .refl c

mutual

/-- Over frames of one schema, and with one table, a tree gives columns that match. -/
theorem evalWith_matches (hs : s.SharesSchema s') (htable : ∀ a c, table a = .ok c → c.Typed) (e : Expr)
    {c c' : Column} (h : backend.evalWith table scope s e = .ok c)
    (h' : backend.evalWith table scope s' e = .ok c') : c.Matches c' := by
  cases e with
  | quoted content =>
    rw [evalWith] at h h'
    have h' : Column.literal (Value.ofQuoted s'.options.datePatterns content) = .ok c' := h'
    rw [hs.options] at h'
    obtain rfl := Except.ok.inj (Eq.trans (Eq.symm h) h')
    exact .refl c
  | leaf name =>
    rw [evalWith] at h h'
    exact token_matches hs h h'
  | binary op left right =>
    rw [evalWith] at h h'
    obtain ⟨l, hl, h⟩ := bind_eq_ok.1 h
    obtain ⟨r, hr, h⟩ := bind_eq_ok.1 h
    obtain ⟨l', hl', h'⟩ := bind_eq_ok.1 h'
    obtain ⟨r', hr', h'⟩ := bind_eq_ok.1 h'
    have hleft := operand_evalWith hs.left htable hl
    have hright := operand_evalWith hs.left htable hr
    have hleft' := hs.options ▸ operand_evalWith hs.right htable hl'
    have hright' := hs.options ▸ operand_evalWith hs.right htable hr'
    have hall : List.Forall₂ (fun p q : Expr × Column => q.1 = p.1 ∧ p.2.Matches q.2) [(left, l), (right, r)]
        [(left, l'), (right, r')] :=
      .cons ⟨rfl, evalWith_matches hs htable left hl hl'⟩ (.cons ⟨rfl, evalWith_matches hs htable right hr hr'⟩ .nil)
    exact apply_matches (by simpa using ⟨hleft, hright⟩) (by simpa using ⟨hleft', hright'⟩) hall h h'
  | call name args =>
    unfold evalWith at h h'
    cases hform : SpecialForm.named? name with
    | none =>
      rw [hform] at h h'
      obtain ⟨cs, hcs, h⟩ := bind_eq_ok.1 h
      obtain ⟨cs', hcs', h'⟩ := bind_eq_ok.1 h'
      have hoperands := operands_evalColumnsWith hs.left htable hcs
      have hoperands' := operands_evalColumnsWith hs.right htable hcs'
      rw [hs.options] at hoperands'
      refine apply_matches (Backend.Typing.operands_zip hoperands) (Backend.Typing.operands_zip hoperands')
        (evalColumnsWith_matches hs htable args hcs hcs') h h'
    | some form =>
      rw [hform] at h h'
      cases form with
      | global =>
        dsimp only at h h'
        split at h
        · obtain rfl := Except.ok.inj (Eq.trans (Eq.symm h) h')
          exact .refl c
        · cases h
      | _ => cases h
  | assign name value =>
    rw [evalWith] at h
    cases h

theorem evalColumnsWith_matches (hs : s.SharesSchema s') (htable : ∀ a c, table a = .ok c → c.Typed)
    (args : List Expr) {cs cs' : List Column} (h : backend.evalColumnsWith table scope s args = .ok cs)
    (h' : backend.evalColumnsWith table scope s' args = .ok cs') :
    List.Forall₂ (fun p q => q.1 = p.1 ∧ p.2.Matches q.2) (args.zip cs) (args.zip cs') := by
  match args with
  | [] => exact .nil
  | arg :: more =>
    rw [evalColumnsWith] at h h'
    obtain ⟨c, hc, h⟩ := bind_eq_ok.1 h
    obtain ⟨rest, hrest, h⟩ := bind_eq_ok.1 h
    obtain rfl := Except.ok.inj h
    obtain ⟨c', hc', h'⟩ := bind_eq_ok.1 h'
    obtain ⟨rest', hrest', h'⟩ := bind_eq_ok.1 h'
    obtain rfl := Except.ok.inj h'
    exact .cons ⟨rfl, evalWith_matches hs htable arg hc hc'⟩ (evalColumnsWith_matches hs htable more hrest hrest')

end

end Schema

/-! ## Values of formulas -/

variable {f g : Frame}

theorem typed_globalOf (hf : f.Valid) (a : Expr) (c : Column) (h : backend.globalOf f a = .ok c) : c.Typed := by
  obtain ⟨o, ho, h⟩ := bind_eq_ok.1 h
  obtain ⟨d, hd, h⟩ := bind_eq_ok.1 h
  obtain ⟨d', hglobal, h⟩ := bind_eq_ok.1 h
  obtain rfl := Except.ok.inj h
  obtain rfl := globalize_ok hglobal
  obtain rfl := Backend.asColumn_eq_ok hd
  exact invariant.holds_eval hf hf a .groups _ ho

theorem sharesSchema_take (hf : f.Valid) {u u' : Frame} {rows rows' : List Nat} (hu : f.take rows = .ok u)
    (hu' : f.take rows' = .ok u') : u.SharesSchema u' :=
  ⟨hf.take hu, hf.take hu', (schema_take hu').2.trans (schema_take hu).2.symm,
    (schema_take hu').1.trans (schema_take hu).1.symm⟩

/-- The value of a formula on the rows of a group: its single cell over these rows, where the whole frame gives the
    values of `global`. -/
def GroupValue (f : Frame) (e : Expr) (rows : List Nat) (v : Value) : Prop :=
  ∃ u c, f.take rows = .ok u ∧ backend.eval e .groups u f = .ok (.column c) ∧
    backend.evalWith (backend.globalOf f) .groups u e = .ok c ∧ c.data.values = [v]

theorem reduceGroup_value {named : String × Expr} {rows : List Nat} {result : Column × Value}
    (h : f.reduceGroup (backend.reducer named) rows = .ok result) :
    ∃ u, f.take rows = .ok u ∧ backend.eval named.2 .groups u f = .ok (.column result.1) ∧
      backend.evalWith (backend.globalOf f) .groups u named.2 = .ok result.1 ∧
      result.1.data.values = [result.2] := by
  obtain ⟨u, hu, hrun, hone, hcell⟩ := reduceGroup_ok h
  obtain ⟨o, ho, hcolumn⟩ := bind_eq_ok.1 hrun
  obtain rfl := Backend.asColumn_eq_ok hcolumn
  refine ⟨u, hu, ho, (Backend.eval_column_iff named.2 _).1 ho, ?_⟩
  obtain ⟨v, hv⟩ := List.length_eq_one_iff.1 ((Series.length_values _).trans hone)
  unfold Column.cell at hcell
  rw [Series.cell?_eq, hv] at hcell
  exact hv.trans (congrArg (fun v => [v]) (Except.ok.inj hcell))

/-- The formula of a column that is reduced has a value on each group, and these values are its cells. -/
theorem reduce_values (hf : f.Valid) {named : String × Expr} {groups : List (List Nat)} (hgroups : groups ≠ [])
    {c : Column} (h : f.reduce groups (backend.reducer named) = .ok c) :
    List.Forall₂ (f.GroupValue named.2) groups c.data.values := by
  unfold reduce at h
  obtain ⟨results, hresults, h⟩ := bind_eq_ok.1 h
  have hall := (mapM_eq_ok.1 hresults).imp fun _ _ => reduceGroup_value
  split at h
  · exact absurd (List.length_eq_zero_iff.1 (length_of_mapM hresults).symm) hgroups
  rename_i first value more
  obtain ⟨data, hdata, h⟩ := bind_eq_ok.1 h
  obtain rfl := Except.ok.inj h
  -- All groups have the type of the first one, so no value is widened.
  obtain ⟨_, _, u, hu, -, hfirst, -⟩ := exists_of_mem_forall₂ hall (y := (first, value)) List.mem_cons_self
  have htypes : ∀ v ∈ ((first, value) :: more).map (·.2), v.dataType = first.dataType.storage := by
    intro v hv
    obtain ⟨result, hresult, rfl⟩ := List.mem_map.1 hv
    obtain ⟨_, _, u', hu', -, hother, hvalues⟩ := exists_of_mem_forall₂ hall hresult
    have hmatches := evalWith_matches (sharesSchema_take hf hu hu') (typed_globalOf hf) named.2 hfirst hother
    have htyped := (operand_evalWith (hf.take hu') (typed_globalOf hf) hother).good
    have hcell : result.2 ∈ result.1.data.values := hvalues ▸ List.mem_singleton_self _
    rw [Series.dataType_of_mem_values hcell, ← hmatches.dataType]
    exact htyped
  have hvalues := Series.values_ofValues htypes (liftM_series_eq_ok.1 hdata)
  change List.Forall₂ _ _ data.values
  rw [hvalues, List.forall₂_map_right_iff]
  exact hall.imp fun _ result ⟨u, hu, heval, hwith, hcells⟩ => ⟨u, result.1, hu, heval, hwith, hcells⟩

/-! ## Grouped frames -/

/-- A frame of groups: each key column has the keys of the first rows, and each formula its values on the groups. -/
structure Grouped (f : Frame) (keys : List String) (formulas : List (String × Expr)) (groups : List (List Nat))
    (g : Frame) : Prop where
  rows : g.rows = groups.length
  keys : ∀ key ∈ keys, ∃ c d, f.column? key = some c ∧ g.column? key = some d ∧ d.dataType = c.dataType ∧
    List.Forall₂ (fun group v => ∃ row, group.head? = some row ∧ c.data.cell? row = some v) groups d.data.values
  formulas : ∀ named ∈ formulas, ∃ d, g.column? named.1 = some d ∧
    List.Forall₂ (f.GroupValue named.2) groups d.data.values

/-- Grouping divides the rows by their keys and gives the frame of the groups. -/
theorem group_grouped (hf : f.Valid) (hrows : 0 < f.rows) {keys : List String} (hkeys : keys ≠ [])
    {formulas : List (String × Expr)} (h : f.group keys (formulas.map backend.reducer) = .ok g) :
    ∃ keyColumns, keys.mapM f.column = .ok keyColumns ∧
      Divides (SameCells (keyColumns.map (·.data))) f.rows (groups (keyColumns.map (·.data)) f.rows) ∧
      f.Grouped keys formulas (groups (keyColumns.map (·.data)) f.rows) g := by
  obtain ⟨keyColumns, hkeyColumns, -⟩ := bind_eq_ok.1 h
  have hgroups : f.grouping keys = .ok (groups (keyColumns.map (·.data)) f.rows) :=
    bind_eq_ok.2 ⟨keyColumns, hkeyColumns, rfl⟩
  obtain ⟨keyColumns', taken, cs, hkeys', htaken, hcs, hcolumns⟩ := group_columns hgroups h
  obtain rfl := Except.ok.inj (hkeyColumns.symm.trans hkeys')
  have hdivides : Divides (SameCells (keyColumns.map (·.data))) f.rows (groups (keyColumns.map (·.data)) f.rows) := by
    refine divides_groups fun key hkey => ?_
    obtain ⟨c, hc, rfl⟩ := List.mem_map.1 hkey
    obtain ⟨name, -, hname⟩ := exists_of_mem_mapM hkeyColumns hc
    exact hf.lengths c (hf.mem_of_column? (column_ok hname)).1
  refine ⟨keyColumns, hkeyColumns, hdivides, ?_⟩
  generalize groups (keyColumns.map (·.data)) f.rows = divided at *
  have hg : g.Valid := hf.group h
  have hnonempty : divided ≠ [] := by
    rintro rfl
    have hlength := hdivides.perm.length_eq
    simp at hlength
    omega
  have hkey : ∀ key ∈ keys, ∃ c d, f.column? key = some c ∧ g.column? key = some d ∧ d.dataType = c.dataType ∧
      List.Forall₂ (fun group v => ∃ row, group.head? = some row ∧ c.data.cell? row = some v) divided
        d.data.values := by
    intro key hkey
    obtain ⟨c, hc, hcolumn⟩ := exists_of_mem_forall₂ (mapM_eq_ok.1 hkeyColumns).flip hkey
    obtain ⟨d, hd, htake⟩ := exists_of_mem_forall₂ (mapM_eq_ok.1 htaken).flip hc
    obtain ⟨data, hdata, rfl⟩ := take_column_ok htake
    have hname := (hf.mem_of_column? (column_ok hcolumn)).2
    refine ⟨c, _, column_ok hcolumn, hg.column?_stored hcolumns (List.mem_append_left _ hd) hname, rfl, ?_⟩
    simp only [Series.cell?_eq]
    exact forall₂_firsts hdivides.nonempty (Series.values_take hdata)
  refine ⟨?_, hkey, fun named hnamed => ?_⟩
  · obtain ⟨key, more, rfl⟩ := List.exists_cons_of_ne_nil hkeys
    obtain ⟨c, d, -, hd, -, hcells⟩ := hkey key List.mem_cons_self
    rw [← hg.lengths d (hg.mem_of_column? hd).1]
    exact (Series.length_values _).symm.trans hcells.length_eq.symm
  · obtain ⟨c, hc, hreduce⟩ := exists_of_mem_forall₂ (mapM_eq_ok.1 hcs).flip (List.mem_map_of_mem hnamed)
    have hname : c.name = named.1 := (reduce_ok hreduce).1
    have hvalues := reduce_values hf hnonempty hreduce
    exact ⟨_, hg.column?_stored hcolumns (List.mem_append_right _ hc) hname, hvalues⟩

/-- Grouping a frame with rows gives one row for each distinct key, in the order in which the keys are first met. Each
    formula has on a group its single value over the rows of the group, where `global` stands for values of the whole
    frame. -/
theorem eval_by_grouped (hf : f.Reached) (hrows : 0 < f.rows) {args : List Expr} {scope : Scope} {w : Frame}
    (h : backend.eval (.call "by" args) scope f w = .ok (.frame g)) :
    ∃ keyColumns, (Backend.keysOf args).mapM f.column = .ok keyColumns ∧
      Divides (SameCells (keyColumns.map (·.data))) f.rows (groups (keyColumns.map (·.data)) f.rows) ∧
      f.Grouped (Backend.keysOf args) (Backend.reductions args) (groups (keyColumns.map (·.data)) f.rows) g := by
  obtain ⟨keys, reducers, g', hparts, hkeys, hgroup, ho⟩ := Backend.eval_by_ok rfl h
  obtain rfl := Outcome.frame.inj ho
  obtain ⟨rfl, rfl⟩ := Backend.groupArguments_ok hparts
  exact group_grouped hf.valid hrows (by simpa using hkeys) hgroup

/-- Three rows with two keys, of which the second row has its own. The sum over the whole frame is the same for both
    groups, and the sums over their rows are taken from it. -/
theorem eval_by_grouped_rest :
    let f := (empty .default).run [(.append (.ofSeries "k" (.strings ["b", "a", "b"])), false),
      (.append (.ofSeries "x" (.integers [1, 2, 3])), false)]
    let sum := Expr.call "sum" [.leaf "x"]
    let rest := Expr.binary .subtract (.call "global" [sum]) sum
    ∃ g keyColumns, backend.eval (.call "by" [.leaf "k", .assign "rest" rest]) .rows f f = .ok (.frame g) ∧
      ["k"].mapM f.column = .ok keyColumns ∧ groups (keyColumns.map (·.data)) f.rows = [[0, 2], [1]] ∧
      Divides (SameCells (keyColumns.map (·.data))) 3 [[0, 2], [1]] ∧
      f.Grouped ["k"] [("rest", rest)] [[0, 2], [1]] g ∧
      (g.column? "k").map (·.data.values) = some [.string "b", .string "a"] ∧
      (g.column? "rest").map (·.data.values) = some [.integer 2, .integer 4] := by
  intro f sum rest
  have hf : f.Reached := (Reached.empty .default).run fun c returned hc => by
    simp only [List.mem_cons, Prod.mk.injEq, Request.append.injEq, List.not_mem_nil, or_false] at hc
    rcases hc with ⟨rfl, -⟩ | ⟨rfl, -⟩
    · exact .ofSeries ..
    · exact .ofSeries ..
  have hgiven : ((backend.eval (.call "by" [.leaf "k", .assign "rest" rest]) .rows f f).toOption.bind
      Outcome.frame?).map (fun g => ["k", "rest"].map fun name => (g.column? name).map (·.data.values)) =
        some [some [.string "b", .string "a"], some [.integer 2, .integer 4]] := by
    decide +kernel
  obtain ⟨g, hframe, hcells⟩ := Option.map_eq_some_iff.1 hgiven
  obtain ⟨o, ho, hframe⟩ := Option.bind_eq_some_iff.1 hframe
  obtain rfl := Outcome.frame?_eq_some.1 hframe
  have hg := toOption_eq_some.1 ho
  obtain ⟨keyColumns, hkeys, hdivides, hgrouped⟩ := eval_by_grouped hf (by decide) hg
  have hgroups : groups (keyColumns.map (·.data)) f.rows = [[0, 2], [1]] := by
    have hgrouping : f.grouping ["k"] = .ok [[0, 2], [1]] := toOption_eq_some.1 (by decide +kernel)
    obtain ⟨keyColumns', hkeys', hgrouping⟩ := bind_eq_ok.1 hgrouping
    obtain rfl := Except.ok.inj (hkeys.symm.trans hkeys')
    exact Except.ok.inj hgrouping
  rw [hgroups] at hdivides hgrouped
  obtain ⟨hk, hrest, -⟩ := List.cons_eq_cons.1 hcells |>.imp id List.cons_eq_cons.1
  exact ⟨g, keyColumns, hg, hkeys, hgroups, hdivides, hgrouped, hk, hrest⟩

end Frame

end Tabular.Memory
