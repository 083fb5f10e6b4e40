-- SUMMARY: What the rows of coded columns stand for is followed through frames in memory.
import Tabular.Proofs.Memory.Categories
import Tabular.Proofs.Memory.Reached

/-!
# Provenance of codes

A column that `cat` or `applyCat` gives stands for raw values, one a row. A trace tells of every such column of a frame
which raw values these are, and with which map each of them was encoded. It follows the frame through everything that
rearranges rows, since codes and maps travel separately.

A row has the code that its own map gives to its raw value, or the default of `applyCat` if it gives none. Outside of
`by` this map is the one that the column carries, and the row decodes to its raw value. A formula of `by` encodes each
group with a map of its own, while the column carries the map of the first group: there a row decodes to its raw value
only if the two maps agree on its code.
-/

namespace Tabular.Memory

/-! ## Origins -/

/-- The raw value that a row stands for, and the map that it was encoded with. -/
structure Origin where
  raw : Value
  map : CategoryMap
  /-- `applyCat` puts its default in place of a value that the map does not know. -/
  substitutes : Bool
  deriving DecidableEq

/-- A default was put in place of the raw value. -/
def Origin.Defaulted (o : Origin) : Prop := o.substitutes = true ∧ o.map.code? o.raw = none

/-- The row of a code decodes to its raw value with a map, unless a default was put in its place. -/
def Origin.Decodes (o : Origin) (map : CategoryMap) (code : Int64) : Prop :=
  ¬ o.Defaulted → ∀ v, map.level? code = some v → v = o.raw

/-- What the rows of a column stand for. -/
structure Provenance where
  origins : List Origin
  /-- The first group of a formula of `by`, whose map the column carries. -/
  first : Option Origin

namespace Provenance

/-- The named rows in the named order. -/
def pick (p : Provenance) (rows : List Nat) : Provenance := { p with origins := rows.filterMap (p.origins[·]?) }

/-- Exchange rows as `permute` does. -/
def permute (p : Provenance) (order : List Nat) : Provenance :=
  { p with origins := (exchanges order).foldl (fun origins (a, b) => Series.exchange origins a b) p.origins }

/-- Repeat the rows of a column of one cell. -/
def spread (p : Provenance) (rows : Nat) : Provenance := p.pick ((List.range rows).map (· % p.origins.length))

end Provenance

/-- A cell has the code that the map of its row gives to the raw value, or the default that was put in its place. -/
def Origin.Stands (v : Value) (o : Origin) : Prop :=
  ∃ code, v = .integer code ∧ o.map.Built ∧ (¬ o.Defaulted → o.map.code? o.raw = some code)

/-- What a column stands for fits it: every cell has its origin, and the column carries the map of its rows or, if it is
    a formula of `by`, that of the first group. -/
structure Provenance.Fits (p : Provenance) (c : Column) : Prop where
  cells : List.Forall₂ Origin.Stands c.data.values p.origins
  carried : ∀ o ∈ p.origins, c.dataType = .categorical ∧ c.categories = some ((p.first.getD o).map)

/-! ## Rearranging -/

namespace Provenance.Fits

variable {p : Provenance} {c : Column} {data : Series}

/-- Neither the name nor the value of a literal matter. -/
theorem relabel (h : p.Fits c) (name : String) (constant : Option Value) : p.Fits { c with name, constant } :=
  ⟨h.cells, h.carried⟩

theorem length (h : p.Fits c) : p.origins.length = c.length := by
  rw [← h.cells.length_eq, Series.length_values]
  rfl

theorem forall₂_pick {R : Value → Origin → Prop} {values picked : List Value} {origins : List Origin}
    (h : List.Forall₂ R values origins) {rows : List Nat}
    (hrows : List.Forall₂ (fun row v => values[row]? = some v) rows picked) :
    List.Forall₂ R picked (rows.filterMap (origins[·]?)) := by
  induction hrows with
  | nil => exact .nil
  | @cons row v rows picked hrow _ ih =>
    have hrel := Series.rel_getElem? h row
    rw [hrow] at hrel
    cases horigin : origins[row]? with
    | none =>
      rw [horigin] at hrel
      cases hrel
    | some o =>
      rw [horigin] at hrel
      cases hrel with
      | some ho =>
        rw [List.filterMap_cons, horigin]
        exact .cons ho ih

theorem mem_pick {rows : List Nat} {o : Origin} (h : o ∈ (p.pick rows).origins) : o ∈ p.origins := by
  obtain ⟨row, -, ho⟩ := List.mem_filterMap.1 h
  exact List.mem_of_getElem? ho

theorem pick (h : p.Fits c) {rows : List Nat} (hdata : c.data.take rows = .ok data) :
    (p.pick rows).Fits { c with data } :=
  ⟨forall₂_pick h.cells (Series.values_take hdata), fun o ho => h.carried o (mem_pick ho)⟩

theorem permute (h : p.Fits c) (order : List Nat) :
    (p.permute order).Fits { c with data := Memory.permute order c.data } := by
  have hcells : ∀ (moves : List (Nat × Nat)) (s : Series) (origins : List Origin),
      List.Forall₂ Origin.Stands s.values origins → (∀ o ∈ origins, o ∈ p.origins) →
      List.Forall₂ Origin.Stands (moves.foldl (fun s (a, b) => s.swap a b) s).values
        (moves.foldl (fun origins (a, b) => Series.exchange origins a b) origins) ∧
        ∀ o ∈ moves.foldl (fun origins (a, b) => Series.exchange origins a b) origins, o ∈ p.origins := by
    intro moves
    induction moves with
    | nil => exact fun s origins hs hmem => ⟨hs, hmem⟩
    | cons move moves ih =>
      intro s origins hs hmem
      refine ih _ _ ?_ fun o ho => hmem o (Series.mem_exchange ho)
      rw [Series.values_swap]
      exact Series.forall₂_exchange hs _ _
  obtain ⟨hcells, hmem⟩ := hcells (exchanges order) c.data p.origins h.cells fun _ ho => ho
  exact ⟨hcells, fun o ho => h.carried o (hmem o ho)⟩

/-- A column that is added to a frame keeps its rows, or its one row is repeated. -/
theorem spread {f : Frame} (h : p.Fits c) (hdata : f.fit c = .ok data) :
    (p.spread data.length).Fits { c with data } := by
  have hlength : p.origins.length = c.data.length := h.length
  rcases Frame.fit_cases hdata with rfl | ⟨hone, hbroadcast⟩
  · have hrows : (List.range c.data.length).map (· % p.origins.length) = List.range c.data.length :=
      (List.map_congr_left fun row hrow => Nat.mod_eq_of_lt (hlength ▸ List.mem_range.1 hrow)).trans (List.map_id _)
    have hall : List.Forall₂ (fun row v => c.data.values[row]? = some v) (List.range c.data.length) c.data.values :=
      List.forall₂_iff_get.2 ⟨by simp [Series.length_values], fun i _ _ => by simp⟩
    rw [Provenance.spread, hrows]
    exact ⟨forall₂_pick h.cells hall, fun o ho => h.carried o (mem_pick ho)⟩
  · have hone : c.data.length = 1 := hone
    unfold Series.broadcastTo at hbroadcast
    rw [if_neg (by omega), hone] at hbroadcast
    have hrows : data.length = f.rows := by rw [(Series.take_ok hbroadcast).2, List.length_map, List.length_range]
    rw [Provenance.spread, hlength, hone, hrows]
    exact h.pick hbroadcast

end Provenance.Fits

/-! ## Origins of formulas -/

namespace Frame

/-- The operands of a call, as the operation gets them: a quoted date can be read as a text. -/
def operands (f w : Frame) (scope : Scope) (name : String) (args : List Expr) : Except Failure (List Column) := do
  let columns ← backend.evalColumns args scope f w
  let operands := args.zip columns
  let (_, asText) ← Resolved.ofOperands name (operands.map fun (e, c) => (e, c.dataType))
  if asText then backend.reread f operands else pure (operands.map (·.2))

/-- What the rows of a call of `cat` or `applyCat` stand for: the cells of its first operand. -/
def origins? (f w : Frame) (scope : Scope) : Expr → Option (List Origin)
  | .call name args =>
    if name = "cat" ∨ name = "applyCat" then
      match backend.eval (.call name args) scope f w, f.operands w scope name args with
      | .ok (.column c), .ok (raw :: _) =>
        c.categories.map fun map => raw.data.values.map (⟨·, map, name = "applyCat"⟩)
      | _, _ => none
    else none
  | _ => none

/-- What evaluating a call runs its operation on. -/
theorem eval_operands {f w : Frame} {scope : Scope} {name : String} {args : List Expr} {c : Column}
    (hform : SpecialForm.named? name = none) (h : backend.eval (.call name args) scope f w = .ok (.column c)) :
    ∃ op operands d, f.operands w scope name args = .ok operands ∧ op.name = name ∧
      execute f.options f.rows op operands = .ok d ∧ c = d.rename (Expr.call name args).text := by
  unfold Backend.eval at h
  rw [hform] at h
  obtain ⟨columns, hcolumns, h⟩ := bind_eq_ok.1 h
  obtain ⟨d, hd, h⟩ := bind_eq_ok.1 h
  obtain rfl := Outcome.column.inj (Except.ok.inj h)
  obtain ⟨⟨resolved, asText⟩, hresolved, hd⟩ := bind_eq_ok.1 hd
  -- The operands are handed over, read again or not.
  have hd : ((if asText then backend.reread f (args.zip columns) else pure ((args.zip columns).map (·.2))) >>=
      fun operands => do
        return Column.rename (← execute f.options f.rows resolved operands) (Expr.call name args).text) = .ok d := by
    cases asText <;> exact hd
  obtain ⟨operands, hoperands, hd⟩ := bind_eq_ok.1 hd
  obtain ⟨made, hmade, hd⟩ := bind_eq_ok.1 hd
  refine ⟨resolved, operands, made, ?_, (Resolved.ofOperands_ok hresolved).1, hmade, (Except.ok.inj hd).symm⟩
  exact bind_eq_ok.2 ⟨columns, hcolumns, bind_eq_ok.2 ⟨(resolved, asText), hresolved, hoperands⟩⟩

/-- The cells of an operation are the codes of its first operand in the map that its column carries. -/
theorem execute_stands {options : Options} {rows : Nat} {op : Resolved} {raw : Column} {more : List Column} {c : Column}
    {map : CategoryMap} (hop : op.name = "cat" ∨ op.name = "applyCat")
    (h : execute options rows op (raw :: more) = .ok c) (hmap : c.categories = some map) (hbuilt : map.Built) :
    c.dataType = .categorical ∧
      List.Forall₂ Origin.Stands c.data.values (raw.data.values.map (⟨·, map, op.name = "applyCat"⟩)) := by
  -- Both encode the values, and differ in what they do with one that the map does not know.
  have hcodes : ∀ (default : Int64), (∀ v ∈ raw.data.values, map.code? v = none → op.name = "applyCat") →
      List.Forall₂ Origin.Stands (Series.integers (raw.data.values.map fun v => (map.code? v).getD default)).values
        (raw.data.values.map (⟨·, map, op.name = "applyCat"⟩)) := by
    intro default hunknown
    rw [Series.values, List.map_map, List.forall₂_map_left_iff, List.forall₂_map_right_iff, List.forall₂_same]
    refine fun v hv => ⟨_, rfl, hbuilt, fun hdefaulted => ?_⟩
    have hknown : map.code? v ≠ none := fun hnone => hdefaulted ⟨decide_eq_true (hunknown v hv hnone), hnone⟩
    obtain ⟨code, hcode⟩ := Option.ne_none_iff_exists'.1 hknown
    show map.code? v = some ((map.code? v).getD default)
    rw [hcode, Option.getD_some]
  rcases hop with hop | hop
  · rw [execute_cat hop] at h
    obtain ⟨raw', more', _, map', codes, hargs, hbuild, hc⟩ := categorize_ok h
    obtain ⟨hdata, hmap'⟩ := Column.ofCodes_categories hc
    obtain ⟨rfl, -⟩ := List.cons.inj hargs
    obtain rfl := Option.some.inj (hmap.symm.trans hmap')
    refine ⟨(Column.ofCodes_ok hc).2, ?_⟩
    rw [hdata, CategoryMap.build_codes hbuild]
    exact hcodes _ fun v hv hnone => absurd hnone (CategoryMap.code?_ne_none hbuild hv)
  · rw [execute_applyCat hop] at h
    obtain ⟨raw', _, _, map', code, codes, hargs, -, hencode, hc⟩ := applyCategories_ok h
    obtain ⟨hdata, hmap'⟩ := Column.ofCodes_categories hc
    obtain ⟨rfl, -⟩ := List.cons.inj hargs
    obtain rfl := Option.some.inj (hmap.symm.trans hmap')
    refine ⟨(Column.ofCodes_ok hc).2, ?_⟩
    rw [hdata, (CategoryMap.encode_ok hencode).2]
    exact hcodes _ fun _ _ _ => hop

/-- What an operation is run on begins with the column of raw values, and what it gives carries a map. -/
theorem execute_raw {options : Options} {rows : Nat} {op : Resolved} {operands : List Column} {c : Column}
    (hop : op.name = "cat" ∨ op.name = "applyCat") (h : execute options rows op operands = .ok c) :
    ∃ raw more map, operands = raw :: more ∧ c.categories = some map := by
  rcases hop with hop | hop
  · rw [execute_cat hop] at h
    obtain ⟨raw, more, _, map, _, hargs, -, hc⟩ := categorize_ok h
    exact ⟨raw, more, map, hargs, (Column.ofCodes_categories hc).2⟩
  · rw [execute_applyCat hop] at h
    obtain ⟨raw, _, _, map, _, _, hargs, -, -, hc⟩ := applyCategories_ok h
    exact ⟨raw, _, map, hargs, (Column.ofCodes_categories hc).2⟩

/-- Whenever a call of `cat` or `applyCat` gives a column, it is known what its rows stand for, and this fits it. -/
theorem exists_origins {f w : Frame} (hf : f.Categorized) (hw : w.Categorized) {scope : Scope} {name : String}
    {args : List Expr} {c : Column} (hname : name = "cat" ∨ name = "applyCat")
    (h : backend.eval (.call name args) scope f w = .ok (.column c)) :
    ∃ origins, f.origins? w scope (.call name args) = some origins ∧ Provenance.Fits ⟨origins, none⟩ c := by
  have hform : SpecialForm.named? name = none := by
    rcases hname with rfl | rfl <;> rfl
  have hcategorized : c.Categorized := categorizing.gives (fun _ _ => trivial) (s := ()) hf hw _ h
  obtain ⟨op, operands, d, hoperands, rfl, hd, rfl⟩ := eval_operands hform h
  obtain ⟨raw, more, map, rfl, hmap⟩ := execute_raw hname hd
  obtain ⟨htype, hcells⟩ := execute_stands hname hd hmap (hcategorized.built map hmap)
  refine ⟨raw.data.values.map (⟨·, map, op.name = "applyCat"⟩), ?_, hcells, fun o ho => ⟨htype, ?_⟩⟩
  · simp only [origins?, if_pos hname, h, hoperands]
    exact Option.map_eq_some_iff.2 ⟨map, hmap, rfl⟩
  · obtain ⟨v, -, rfl⟩ := List.mem_map.1 ho
    exact hmap

/-- What a call stands for fits the column that it gives. -/
theorem origins?_fits {f w : Frame} (hf : f.Categorized) (hw : w.Categorized) {scope : Scope} {e : Expr}
    {origins : List Origin} (h : f.origins? w scope e = some origins) :
    ∃ c, backend.eval e scope f w = .ok (.column c) ∧ Provenance.Fits ⟨origins, none⟩ c := by
  have hgiven := h
  unfold origins? at h
  split at h
  · split at h
    · rename_i hname
      split at h
      · rename_i c raw _ heval _
        obtain ⟨origins', horigins, hfits⟩ := exists_origins hf hw hname heval
        obtain rfl := Option.some.inj (hgiven.symm.trans horigins)
        exact ⟨c, heval, hfits⟩
      · simp at h
    · simp at h
  · simp at h

/-- The rows of each group. -/
def grouping (f : Frame) (keys : List String) : Except Failure (List (List Nat)) := do
  let keyColumns ← keys.mapM f.column
  return groups (keyColumns.map (·.data)) f.rows

/-- What a formula of `by` stands for on each group. -/
def groupOrigins? (f : Frame) (groups : List (List Nat)) (e : Expr) : Option (List Origin) := do
  let found ← groups.mapM fun rows => do (← (f.take rows).toOption).origins? f .groups e
  return found.flatten

end Frame

/-! ## Traces -/

/-- What the coded columns of a frame stand for, by name. -/
abbrev Trace := String → Option Provenance

namespace Trace

def empty : Trace := fun _ => none

def set (t : Trace) (name : String) (p : Option Provenance) : Trace := fun other => if other = name then p else t other

def map (t : Trace) (move : Provenance → Provenance) : Trace := fun name => (t name).map move

/-- Keys keep the rows that the groups begin with; formulas have a row for each group. -/
def group (t : Trace) (f : Frame) (groups : List (List Nat)) (keys : List String) (formulas : List (String × Expr)) :
    Trace := fun name =>
  match formulas.find? (·.1 = name) with
  | some (_, e) => (f.groupOrigins? groups e).map fun origins => ⟨origins, origins.head?⟩
  | none => if name ∈ keys then (t name).map (·.pick (groups.filterMap List.head?)) else none

end Trace

/-- Frames that are reached from plain columns, and what their coded columns stand for. -/
inductive Traced : Frame → Trace → Prop
  | empty (options : Options) : Traced (.empty options) .empty
  | plain {f g : Frame} {t : Trace} {name : String} {data : Series} (hf : Traced f t)
      (h : f.append (.ofSeries name data) = .ok g) : Traced g (t.set name none)
  | setOptions {f : Frame} {t : Trace} (options : Options) (hf : Traced f t) : Traced { f with options } t
  | take {f g : Frame} {t : Trace} {rows : List Nat} (hf : Traced f t) (h : f.take rows = .ok g) :
      Traced g (t.map (·.pick rows))
  | sort {f g : Frame} {t : Trace} {ascending : Bool} {keys : List String} {keyColumns : List Column}
      (hf : Traced f t) (hkeys : keys.mapM f.column = .ok keyColumns) (h : f.sort ascending keys = .ok g) :
      Traced g (t.map (·.permute (sortedOrder ascending (keyColumns.map (·.data)) f.rows)))
  | drop {f g : Frame} {t : Trace} {name : String} {c : Column} (hf : Traced f t) (h : f.drop name = .ok (c, g)) :
      Traced g (t.set name none)
  | parse {f g : Frame} {t : Trace} {text name : String} {formula : Formula} (hf : Traced f t)
      (hformula : Formula.ofText text = .ok formula) (htarget : formula.target = some name)
      (h : f.assign text = .ok (g, none)) :
      Traced g
        (t.set name ((f.origins? f .rows formula.expr).map fun origins => Provenance.spread ⟨origins, none⟩ g.rows))
  | group {f g : Frame} {t : Trace} {keys : List String} {formulas : List (String × Expr)} {groups : List (List Nat)}
      (hf : Traced f t) (hgroups : f.grouping keys = .ok groups)
      (h : f.group keys (formulas.map Frame.backend.reducer) = .ok g) : Traced g (t.group f groups keys formulas)

/-! ## Steps -/

/-- Every column that the trace knows is there, and what it stands for fits it. -/
def Trace.Fits (t : Trace) (f : Frame) : Prop := ∀ name p, t name = some p → ∃ c, f.column? name = some c ∧ p.Fits c

namespace Trace.Fits

variable {t : Trace} {f g : Frame}

theorem append (ht : t.Fits f) (hf : f.Valid) (hg : g.Valid) {c : Column} {p : Option Provenance}
    (hp : ∀ q, p = some q → q.Fits c) (h : f.append c = .ok g) : (t.set c.name (p.map (·.spread g.rows))).Fits g := by
  obtain ⟨-, data, hdata, rfl⟩ := Frame.append_ok h
  intro name q hq
  unfold Trace.set at hq
  split at hq
  · rename_i hname
    obtain ⟨q', rfl, rfl⟩ := Option.map_eq_some_iff.1 hq
    have hmem : { c with data, constant := none } ∈ f.set.columns ++ [{ c with data, constant := none }] :=
      List.mem_append_right _ (List.mem_singleton_self _)
    have hrows : data.length = _ := hg.lengths _ hmem
    refine ⟨_, hg.indexed.column?_eq_some_iff.2 ⟨hmem, hname.symm⟩, ?_⟩
    rw [← hrows]
    exact ((hp q' rfl).spread hdata).relabel c.name none
  · obtain ⟨d, hd, hfits⟩ := ht name q hq
    obtain ⟨hmem, hname⟩ := hf.mem_of_column? hd
    exact ⟨d, hg.indexed.column?_eq_some_iff.2 ⟨List.mem_append_left _ hmem, hname⟩, hfits⟩

theorem take (ht : t.Fits f) {rows : List Nat} (h : f.take rows = .ok g) : (t.map (·.pick rows)).Fits g := by
  intro name q hq
  obtain ⟨p, hp, rfl⟩ := Option.map_eq_some_iff.1 hq
  obtain ⟨c, hc, hfits⟩ := ht name p hp
  have hrel := Frame.column?_take h name
  rw [hc] at hrel
  cases hd : g.column? name with
  | none =>
    rw [hd] at hrel
    cases hrel
  | some d =>
    rw [hd] at hrel
    cases hrel with
    | some htake =>
      obtain ⟨data, hdata, rfl⟩ := Frame.take_column_ok htake
      exact ⟨_, rfl, hfits.pick hdata⟩

theorem permute (ht : t.Fits f) (order : List Nat) : (t.map (·.permute order)).Fits (f.permute order) := by
  intro name q hq
  obtain ⟨p, hp, rfl⟩ := Option.map_eq_some_iff.1 hq
  obtain ⟨c, hc, hfits⟩ := ht name p hp
  refine ⟨_, ?_, hfits.permute order⟩
  rw [Frame.column?_permute, hc, Option.map_some]

theorem drop (ht : t.Fits f) (hf : f.Valid) (hg : g.Valid) {name : String} {c : Column}
    (h : f.drop name = .ok (c, g)) : (t.set name none).Fits g := by
  obtain ⟨set, hremove, rfl⟩ := Frame.drop_ok h
  obtain ⟨i, hposition, hi, rfl⟩ := ColumnSet.remove?_eq_some hremove
  have hdropped : c.name = name := (hf.mem_of_column? (Option.bind_eq_some_iff.2 ⟨i, hposition, hi⟩)).2
  intro other q hq
  unfold Trace.set at hq
  split at hq
  · simp at hq
  · rename_i hother
    obtain ⟨d, hd, hfits⟩ := ht other q hq
    obtain ⟨hmem, hname⟩ := hf.mem_of_column? hd
    refine ⟨d, hg.indexed.column?_eq_some_iff.2 ⟨?_, hname⟩, hfits⟩
    -- Only the column of the name is gone.
    obtain ⟨j, hj⟩ := List.mem_iff_getElem?.1 hmem
    refine List.mem_eraseIdx_iff_getElem?.2 ⟨j, ?_, hj⟩
    rintro rfl
    obtain rfl := Option.some.inj (hi.symm.trans hj)
    exact hother (hname.symm.trans hdropped)

end Trace.Fits

end Tabular.Memory
