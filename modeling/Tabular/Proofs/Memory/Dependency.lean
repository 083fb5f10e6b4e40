-- SUMMARY: Frames in memory that agree on the dependencies of a formula give it the same result.
import Tabular.Proofs.Evaluation.Outcome
import Tabular.Proofs.Evaluation.Simulation
import Tabular.Proofs.Formula.Reread
import Tabular.Proofs.Memory.Reached

/-!
# Dependencies in memory

Two frames of the same shape are alike in some names if these have the same columns in both. Taking the rows of a
group and sorting keep this, and grouping alike frames by such names gives one and the same frame. So a formula whose
tokens are among the names has one result over both, and the tokens of a formula that are columns are what its result
reports as dependencies.
-/

namespace Tabular.Memory.Frame

variable {known : String → Prop} {f g u : Frame}

/-- Frames of one shape with the same columns of the known names. -/
structure Alike (known : String → Prop) (f g : Frame) : Prop where
  left : f.Valid
  right : g.Valid
  names : g.columns.map Column.name = f.columns.map Column.name
  rows : g.rows = f.rows
  options : g.options = f.options
  column? : ∀ name, known name → g.column? name = f.column? name

namespace Alike

theorem refl (hf : f.Valid) : Alike known f f := ⟨hf, hf, rfl, rfl, rfl, fun _ _ => rfl⟩

theorem column (h : Alike known f g) {name : String} (hname : known name) : g.column name = f.column name := by
  unfold Frame.column
  rw [h.column? name hname]

theorem mapM_column (h : Alike known f g) {names : List String} (hnames : ∀ name ∈ names, known name) :
    names.mapM g.column = names.mapM f.column := by
  induction names with
  | nil => rfl
  | cons name more ih =>
    rw [List.forall_mem_cons] at hnames
    rw [List.mapM_cons, List.mapM_cons, h.column hnames.1, ih hnames.2]

theorem schema (h : Alike known f g) {name : String} (hname : known name) : g.schema name = f.schema name := by
  unfold Frame.schema
  rw [h.column? name hname]

/-! ## Rows -/

/-- Columns of one frame that are as long as the rows are there in the other frame too. -/
theorem rows_lt (h : Alike known f g) {rows : List Nat} (hu : f.take rows = .ok u) :
    ∀ c ∈ g.columns, ∀ row ∈ rows, row < c.length := by
  intro c hc
  have hlength : c.length = f.rows := (h.right.lengths c hc).trans h.rows
  obtain ⟨taken, htaken, -⟩ := take_ok hu
  cases hcolumns : f.columns with
  | nil =>
    have hnames := h.names
    rw [hcolumns, List.map_nil, List.map_eq_nil_iff] at hnames
    rw [hnames] at hc
    cases hc
  | cons first more =>
    have hfirst : first ∈ f.columns := hcolumns ▸ List.mem_cons_self
    rw [hcolumns, mapM_eq_ok] at htaken
    cases htaken with
    | cons htake _ =>
      obtain ⟨data, hdata, -⟩ := take_column_ok htake
      intro row hrow
      rw [hlength, ← h.left.lengths first hfirst]
      exact Series.lt_of_take hdata row hrow

/-- Rows that one of the frames has, the other one has too. -/
theorem take (h : Alike known f g) {rows : List Nat} (hu : f.take rows = .ok u) :
    ∃ v, g.take rows = .ok v ∧ Alike known u v := by
  obtain ⟨v, hv⟩ := exists_take (h.rows_lt hu)
  have hnames : v.columns.map Column.name = u.columns.map Column.name := by
    rw [names_take hv, names_take hu, h.names]
  refine ⟨v, hv, h.left.take hu, h.right.take hv, hnames, ?_, ?_, fun name hname => ?_⟩
  · have hempty : g.columns.isEmpty = f.columns.isEmpty := by
      simpa using congrArg List.isEmpty h.names
    rw [rows_take hv, rows_take hu, hempty]
  · rw [(schema_take hv).2, (schema_take hu).2, h.options]
  · have hleft := column?_take hu name
    have hright := column?_take hv name
    rw [h.column? name hname] at hright
    generalize f.column? name = found at hleft hright
    generalize u.column? name = c at hleft ⊢
    generalize v.column? name = d at hright ⊢
    cases hleft with
    | none =>
      cases hright with
      | none => rfl
    | some hc =>
      cases hright with
      | some hd => exact congrArg some (Except.ok.inj (hd.symm.trans hc))

theorem permute (h : Alike known f g) (order : List Nat) : Alike known (f.permute order) (g.permute order) := by
  refine ⟨h.left.permute order, h.right.permute order, ?_, ?_, h.options, fun name hname => ?_⟩
  · rw [names_permute, names_permute, h.names]
  · rw [rows_permute, rows_permute, h.rows]
  · rw [column?_permute, column?_permute, h.column? name hname]

theorem sort (h : Alike known f g) {ascending : Bool} {keys : List String} (hkeys : ∀ key ∈ keys, known key)
    (hu : f.sort ascending keys = .ok u) : ∃ v, g.sort ascending keys = .ok v ∧ Alike known u v := by
  unfold Frame.sort at hu ⊢
  rw [h.mapM_column hkeys, h.rows]
  obtain ⟨keyColumns, hkeyColumns, hu⟩ := bind_eq_ok.1 hu
  obtain rfl := Except.ok.inj hu
  exact ⟨_, bind_eq_ok.2 ⟨keyColumns, hkeyColumns, rfl⟩, h.permute _⟩

/-! ## Groups -/

/-- A reducer that has one result on alike groups of alike frames. -/
def Respects (known : String → Prop) (r : Reducer (Except Failure) Frame Column) : Prop :=
  (∀ token ∈ r.formula.tokens, known token) ∧
    ∀ u v f g c, Alike known u v → Alike known f g → r.run u f = .ok c → r.run v g = .ok c

variable {r : Reducer (Except Failure) Frame Column}

theorem reduceGroup (h : Alike known f g) (hr : Respects known r) {rows : List Nat} {result : Column × Value}
    (hresult : f.reduceGroup r rows = .ok result) : g.reduceGroup r rows = .ok result := by
  unfold Frame.reduceGroup at hresult ⊢
  obtain ⟨u, hu, hresult⟩ := bind_eq_ok.1 hresult
  obtain ⟨c, hc, hresult⟩ := bind_eq_ok.1 hresult
  obtain ⟨v, hv, halike⟩ := h.take hu
  exact bind_eq_ok.2 ⟨v, hv, bind_eq_ok.2 ⟨c, hr.2 u v f g c halike h hc, hresult⟩⟩

theorem reduce (h : Alike known f g) (hr : Respects known r) {groups : List (List Nat)} {c : Column}
    (hc : f.reduce groups r = .ok c) : g.reduce groups r = .ok c := by
  unfold Frame.reduce at hc ⊢
  obtain ⟨results, hresults, hc⟩ := bind_eq_ok.1 hc
  refine bind_eq_ok.2 ⟨results, ?_, ?_⟩
  · rw [mapM_eq_ok] at hresults ⊢
    exact hresults.imp fun _ _ => h.reduceGroup hr
  · rw [h.options, Expr.staticType_congr fun token ht => h.schema (hr.1 token ht)]
    exact hc

/-- Alike frames have the same groups. -/
theorem group (h : Alike known f g) {keys : List String} (hkeys : ∀ key ∈ keys, known key)
    {reducers : List (Reducer (Except Failure) Frame Column)} (hreducers : ∀ r ∈ reducers, Respects known r)
    (hu : f.group keys reducers = .ok u) : g.group keys reducers = .ok u := by
  unfold Frame.group at hu ⊢
  simp only [h.mapM_column hkeys, h.options, h.rows]
  obtain ⟨keyColumns, hkeyColumns, hu⟩ := bind_eq_ok.1 hu
  refine bind_eq_ok.2 ⟨keyColumns, hkeyColumns, ?_⟩
  obtain ⟨grouped, hgrouped, hu⟩ := bind_eq_ok.1 hu
  refine bind_eq_ok.2 ⟨grouped, hgrouped, foldlM_of_steps (fun r hr out out' hstep => ?_) hu⟩
  obtain ⟨c, hc, happend⟩ := bind_eq_ok.1 hstep
  exact bind_eq_ok.2 ⟨c, h.reduce (hreducers r hr) hc, happend⟩

end Alike

/-! ## Formulas -/

/-- Alike frames give what is known of them alike. -/
def alike (known : String → Prop) : backend.Simulation backend Ending.totalResult where
  Known := known
  FrameRel := Alike known
  ColumnRel := Eq
  options h := congrArg Options.datePatterns h.options
  column? := by
    intro f g name h hname
    change Option.Rel Eq (f.column? name) (g.column? name)
    rw [h.column? name hname]
    cases f.column? name with
    | none => exact .none
    | some c => exact .some rfl
  name h := congrArg Column.name h.symm
  dataType h := congrArg Column.dataType h.symm
  rename name h := congrArg (Column.rename · name) h
  literal := by
    intro f v c g hc
    exact ⟨(Column.literal_ok hc).2.1, c, hc, rfl⟩
  execute := by
    intro f g r args args' scope c h _ hargs hc
    obtain rfl : args = args' := by rwa [List.forall₂_eq_eq_eq] at hargs
    refine ⟨c, ?_, rfl⟩
    change execute g.options g.rows r args = .ok c
    rw [h.options, h.rows]
    exact hc
  sort h hkeys hu := h.sort hkeys hu
  group := by
    intro f u g keys formulas h hkeys htokens hruns hu
    refine ⟨u, h.group hkeys (fun r hr => ?_) hu, .refl (h.left.group hu)⟩
    obtain ⟨named, hnamed, rfl⟩ := List.mem_map.1 hr
    refine ⟨htokens named hnamed, fun v v' w w' c hv hw hc => ?_⟩
    obtain ⟨c', hc', rfl⟩ := hruns named hnamed v v' w w' c hv hw hc
    exact hc'
  globalize := by
    rintro f g c d _ rfl hd
    exact ⟨d, hd, rfl⟩
  values := by
    rintro c _ s rfl hs
    exact ⟨s, hs, rfl⟩

/-- The column of a tree is the same over alike frames. -/
theorem Alike.eval_column (h : Alike known f g) {e : Expr} (he : ∀ token ∈ e.tokens, known token) {scope : Scope}
    {c : Column} (hc : backend.eval e scope f f = .ok (.column c)) : backend.eval e scope g g = .ok (.column c) := by
  obtain ⟨o, ho, hrel⟩ := (alike known).follows he h h hc
  cases o with
  | column d =>
    obtain rfl : c = d := hrel
    exact ho
  | frame v => exact hrel.elim
  | plot p => exact hrel.elim

/-- The groups of `by` are the same over alike frames. -/
theorem Alike.eval_by (h : Alike known f g) {args : List Expr} (hargs : ∀ token ∈ Expr.tokensOf args, known token)
    {scope : Scope} {o : Outcome Frame Column} (ho : backend.eval (.call "by" args) scope f f = .ok o) :
    backend.eval (.call "by" args) scope g g = .ok o := by
  obtain ⟨keys, reducers, u, hparts, hkeys, hu, rfl⟩ := Backend.eval_by_ok rfl ho
  obtain ⟨-, rfl⟩ := Backend.groupArguments_ok hparts
  obtain ⟨hknown, _, hparts', rfl⟩ := (alike known).holds_groupArguments h hargs hparts
  have hrespects : ∀ r ∈ (Backend.reductions args).map backend.reducer, Respects known r := by
    intro r hr
    obtain ⟨named, hnamed, rfl⟩ := List.mem_map.1 hr
    have htokens : ∀ token ∈ named.2.tokens, known token := fun token ht =>
      hargs token (Backend.tokens_reduction hnamed ht)
    refine ⟨htokens, fun v v' w w' c hv hw hc => ?_⟩
    obtain ⟨o, ho, hc⟩ := bind_eq_ok.1 hc
    obtain ⟨o', ho', hrel⟩ := (alike known).follows htokens hv hw ho
    obtain ⟨c', hc', rfl⟩ := Backend.Simulation.holds_asColumn hrel hc
    exact bind_eq_ok.2 ⟨o', ho', hc'⟩
  unfold Backend.eval
  refine bind_eq_ok.2 ⟨_, hparts', ?_⟩
  exact guard_eq_ok.2 ⟨hkeys, bind_eq_ok.2 ⟨u, h.group hknown hrespects hu, rfl⟩⟩

/-- A plot of two columns is the same over alike frames. -/
theorem Alike.eval_plot (h : Alike known f g) {args : List Expr} (hargs : ∀ token ∈ Expr.tokensOf args, known token)
    {scope : Scope} {o : Outcome Frame Column} (ho : backend.eval (.call "plot" args) scope f f = .ok o) :
    backend.eval (.call "plot" args) scope g g = .ok o := by
  obtain ⟨x, y, xc, yc, xs, ys, rfl, hx, hy, hxs, hys, rfl⟩ := Backend.eval_plot_ok rfl ho
  have hx' := h.eval_column (fun token ht => hargs token (List.mem_append_left _ ht)) hx
  have hy' := h.eval_column (fun token ht =>
    hargs token (List.mem_append_right _ (List.mem_append_left _ ht))) hy
  unfold Backend.eval
  refine bind_eq_ok.2 ⟨_, hx', bind_eq_ok.2 ⟨xc, rfl, bind_eq_ok.2 ⟨_, hy', bind_eq_ok.2 ⟨yc, rfl, ?_⟩⟩⟩⟩
  exact bind_eq_ok.2 ⟨xs, hxs, bind_eq_ok.2 ⟨ys, hys, rfl⟩⟩

/-- What a tree gives is the same over alike frames, unless it sorts them. -/
theorem Alike.eval (h : Alike known f g) {e : Expr} (he : ∀ token ∈ e.tokens, known token)
    (hsort : ∀ args, e ≠ .call "sort" args) {scope : Scope} {o : Outcome Frame Column}
    (ho : backend.eval e scope f f = .ok o) : backend.eval e scope g g = .ok o := by
  rcases Backend.eval_cases ho with ⟨c, rfl⟩ | ⟨args, rfl⟩ | ⟨args, rfl⟩ | ⟨args, rfl⟩
  · exact h.eval_column he ho
  · exact h.eval_by he ho
  · exact absurd rfl (hsort args)
  · exact h.eval_plot he ho

/-- Frames with the same names find the same ones. -/
theorem column?_eq_none_of_names (hf : f.Valid) (hg : g.Valid)
    (hnames : g.columns.map Column.name = f.columns.map Column.name) {name : String} (h : f.column? name = none) :
    g.column? name = none := by
  by_contra hne
  obtain ⟨d, hd⟩ := Option.ne_none_iff_exists'.1 hne
  obtain ⟨hmem, rfl⟩ := hg.mem_of_column? hd
  have hname : d.name ∈ f.columns.map Column.name := hnames ▸ List.mem_map_of_mem hmem
  obtain ⟨c, hc, heq⟩ := List.mem_map.1 hname
  have hfound : f.column? d.name = some c := hf.indexed.column?_eq_some_iff.2 ⟨hc, heq⟩
  rw [h] at hfound
  cases hfound

/-- Stored columns of one name are the same if their types, cells and categories are. -/
theorem column?_eq_of_content (hf : f.Valid) (hg : g.Valid) {name : String} (hfound : (f.column? name).isSome = true)
    (h : (g.column? name).map (fun c => (c.dataType, c.data, c.categories)) =
      (f.column? name).map fun c => (c.dataType, c.data, c.categories)) : g.column? name = f.column? name := by
  obtain ⟨c, hc⟩ := Option.isSome_iff_exists.1 hfound
  rw [hc, Option.map_some, Option.map_eq_some_iff] at h
  obtain ⟨d, hd, hcontent⟩ := h
  obtain ⟨hmemc, hnamec⟩ := hf.mem_of_column? hc
  obtain ⟨hmemd, hnamed⟩ := hg.mem_of_column? hd
  have hconstantc := hf.constants c hmemc
  have hconstantd := hg.constants d hmemd
  rw [hc, hd]
  cases c
  cases d
  simp_all

/-- Evaluating a formula over a frame in memory reads nothing but the dependencies that are reported with the result:
    over any frame of the same shape with the same columns of these names, the result is the same, and so are the
    dependencies. Only what `sort` gives contains the other columns too. -/
theorem evaluate_eq_of_dependencies (hf : f.Reached) (hg : g.Reached)
    (hnames : g.columns.map Column.name = f.columns.map Column.name) (hrows : g.rows = f.rows)
    (hoptions : g.options = f.options) {text : String} {r : Evaluated Frame Column} (h : f.evaluate text = .ok r)
    (hsort : ∀ formula args, Formula.ofText text = .ok formula → formula.expr ≠ .call "sort" args)
    (hsame : ∀ name ∈ r.dependencies, (g.column? name).map (fun c => (c.dataType, c.data, c.categories)) =
      (f.column? name).map fun c => (c.dataType, c.data, c.categories)) :
    g.evaluate text = .ok r := by
  unfold Frame.evaluate Backend.evaluate at h ⊢
  obtain ⟨formula, hformula, h⟩ := bind_eq_ok.1 h
  obtain ⟨result, hresult, h⟩ := bind_eq_ok.1 h
  obtain rfl := Except.ok.inj h
  obtain ⟨o, ho, hresult⟩ := bind_eq_ok.1 hresult
  obtain rfl := Except.ok.inj hresult
  have hsort : ∀ args, formula.expr ≠ .call "sort" args := fun args => hsort formula args hformula
  have hreads : formula.expr.reads = formula.expr.tokens := Backend.reads_eq_tokens ho hsort
  have halike : Alike (· ∈ formula.expr.tokens) f g := by
    refine ⟨hf.valid, hg.valid, hnames, hrows, hoptions, fun name hname => ?_⟩
    cases hc : f.column? name with
    | none => exact column?_eq_none_of_names hf.valid hg.valid hnames hc
    | some c =>
      have hfound : (f.column? name).isSome = true := by rw [hc, Option.isSome_some]
      have hmem : name ∈ formula.expr.dependencies fun name => (f.column? name).isSome :=
        Expr.mem_dependencies.2 ⟨hreads ▸ hname, hfound⟩
      rw [← hc]
      exact column?_eq_of_content hf.valid hg.valid hfound (hsame name hmem)
  have hdependencies : formula.expr.dependencies (fun name => (g.column? name).isSome) =
      formula.expr.dependencies fun name => (f.column? name).isSome :=
    Expr.dependencies_congr fun token ht => by rw [halike.column? token ht]
  have hg := halike.eval (fun _ ht => ht) hsort ho
  refine bind_eq_ok.2 ⟨formula, hformula, bind_eq_ok.2 ⟨_, bind_eq_ok.2 ⟨o, hg, ?_⟩, rfl⟩⟩
  exact congrArg (fun names => Except.ok (Evaluated.mk o names)) hdependencies

/-- Groups of one column with its sums do not depend on the other column, not even on its type. -/
theorem evaluate_eq_of_dependencies_groups :
    let other (data : Series) := (empty .default).run
      [(.append (.ofSeries "n" (.integers [4, 2, 4])), false), (.append (.ofSeries "m" data), false)]
    let e := Expr.call "by" [.leaf "n", .assign "total" (.call "sum" [.leaf "n"])]
    let f := other (.integers [1, 2, 3])
    let g := other (.strings ["x", "y", "z"])
    ∃ r, f.evaluate e.text = .ok r ∧ g.evaluate e.text = .ok r := by
  intro other e f g
  have hreached : ∀ data, (other data).Reached := by
    intro data
    refine Reached.run (.empty _) fun c returned hc => ?_
    have hmade : c = .ofSeries "n" (.integers [4, 2, 4]) ∨ c = .ofSeries "m" data := by
      simp only [List.mem_cons, Prod.mk.injEq, Request.append.injEq, List.not_mem_nil, or_false] at hc
      exact hc.imp And.left And.left
    rcases hmade with rfl | rfl
    · exact .ofSeries _ _
    · exact .ofSeries _ _
  have htext : Formula.ofText e.text = .ok ⟨none, e⟩ :=
    Formula.ofText_text (by decide +kernel) (by unfold Expr.Unassigning; decide)
  have hrun : (backend.eval e .rows f f).toOption.isSome = true := by decide +kernel
  obtain ⟨o, ho⟩ := Option.isSome_iff_exists.1 hrun
  have hr : f.evaluate e.text = .ok _ :=
    bind_eq_ok.2 ⟨_, htext, bind_eq_ok.2 ⟨_, bind_eq_ok.2 ⟨o, toOption_eq_some.1 ho, rfl⟩, rfl⟩⟩
  refine ⟨_, hr, evaluate_eq_of_dependencies (hreached (.integers [1, 2, 3])) (hreached (.strings ["x", "y", "z"]))
    rfl rfl rfl hr ?_ ?_⟩
  · intro formula args h heq
    obtain rfl := Except.ok.inj (htext.symm.trans h)
    simp [e] at heq
  · intro name hname
    have hread : name ∈ ["n", "n"] := (Expr.mem_dependencies.1 hname).1
    obtain rfl : name = "n" := by simpa using hread
    rfl

end Tabular.Memory.Frame
