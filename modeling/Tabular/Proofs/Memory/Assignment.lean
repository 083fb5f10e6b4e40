-- SUMMARY: An assignment in place adds one column and keeps all else, or it leaves the frame as it was.
import Tabular.Proofs.Formula.Reread
import Tabular.Proofs.Memory.Reached

/-!
# Assignments in place

A caller holds one frame and changes it in place: an update that fails keeps what it changed before it failed. An
assignment reads its text, evaluates the formula and looks at the outcome before it touches the frame, and to add a
column is to check its name and to fit its cells before the index and the columns are changed. So no failure finds the
frame half changed, and the update does what `Frame.assign` gives as a new frame. What it gains is one column at the
end, and taking that column out again leads back to the columns and the index there were.
-/

namespace Tabular.Memory.Frame

variable {f g : Frame}

/-! ## In place -/

/-- A computation that changes a frame in place. If it fails, the frame is as far changed as it got. -/
abbrev Update := ExceptT Failure (StateM Frame)

namespace Update

/-- How an update ends over a frame, and the frame that is left. -/
def on {α : Type} (u : Update α) (f : Frame) : Except Failure α × Frame := Id.run (StateT.run (ExceptT.run u) f)

/-- Let a name lead to the place behind the last column. -/
def enter (name : String) : Update Unit :=
  modify fun f =>
    { f with set.positions := (name, f.set.columns.length) :: ColumnSet.forget f.set.positions name }

/-- Put a column behind the last one. -/
def place (c : Column) : Update Unit := modify fun f => { f with set.columns := f.set.columns ++ [c] }

/-- Add a column at the end. -/
def append (c : Column) : Update Unit := do
  let f ← get
  if f.set.contains c.name then throw (.duplicateColumn c.name)
  let data ← liftM (f.fit c)
  enter c.name
  place { c with data, constant := none }

/-- Evaluate a formula, and add the value of one with a target to the frame. -/
def assign (text : String) : Update (Option (Evaluated Frame Column)) := do
  let formula ← liftM (Formula.ofText text)
  let result ← liftM (backend.run (← get) formula.expr)
  match formula.target with
  | none => return some result
  | some name =>
    match result.outcome with
    | .column column =>
      append (column.rename name)
      return none
    | _ => throw (.notAssignable name)

/-! ## All or nothing -/

/-- The update gives all of a result, the frame and the value, or it fails with the failure and has changed nothing. -/
def Gives {α : Type} (u : Update α) (f : Frame) (result : Except Failure (Frame × α)) : Prop :=
  u.on f = match result with
    | .ok (g, a) => (.ok a, g)
    | .error failure => (.error failure, f)

theorem gives_pure {α : Type} (a : α) (f : Frame) : (pure a : Update α).Gives f (.ok (f, a)) := rfl

theorem gives_throw {α : Type} (failure : Failure) (f : Frame) :
    (throw failure : Update α).Gives f (.error failure) := rfl

theorem Gives.get {α : Type} {k : Frame → Update α} {f : Frame} {result : Except Failure (Frame × α)}
    (h : (k f).Gives f result) : (MonadState.get >>= k).Gives f result := h

/-- What only looks at the frame may fail first. -/
theorem Gives.lift {α β : Type} {x : Except Failure α} {k : α → Update β} {f : Frame}
    {rest : α → Except Failure (Frame × β)} (h : ∀ a, x = .ok a → (k a).Gives f (rest a)) :
    (liftM x >>= k).Gives f (x >>= rest) := by
  cases x with
  | error failure => rfl
  | ok a => exact h a rfl

/-- What comes after an update must not fail. -/
theorem Gives.map {α β : Type} {u : Update α} {f : Frame} {result : Except Failure (Frame × α)}
    (h : u.Gives f result) (b : β) :
    (u >>= fun _ => pure b).Gives f (result >>= fun (g, _) => .ok (g, b)) := by
  have hrun : (u >>= fun _ => pure b).on f = ((u.on f).1.map fun _ => b, (u.on f).2) := by
    simp only [on, ExceptT.run_bind, StateT.run_bind, Id.run_bind]
    rcases Id.run ((ExceptT.run u).run f) with ⟨_ | _, g⟩ <;> rfl
  unfold Gives at h ⊢
  rw [hrun, h]
  rcases result with _ | ⟨g, a⟩ <;> rfl

/-- Adding a column enters its name and puts it in place once nothing can fail any more. -/
theorem gives_append (c : Column) (f : Frame) :
    (append c).Gives f (f.append c >>= fun g => .ok (g, ())) := by
  unfold Frame.append append
  refine .get ?_
  split
  · exact gives_throw _ f
  · rw [bind_assoc]
    refine .lift fun data _ => ?_
    rfl

/-- An assignment in place gives what `Frame.assign` gives. -/
theorem gives_assign (text : String) (f : Frame) : (assign text).Gives f (f.assign text) := by
  unfold assign Frame.assign Backend.assign
  refine .lift fun formula _ => .get (.lift fun result _ => ?_)
  cases formula.target with
  | none => exact gives_pure _ f
  | some name =>
    cases result.outcome with
    | column c =>
      have h := (gives_append (c.rename name) f).map (none : Option (Evaluated Frame Column))
      rw [bind_assoc] at h
      exact h
    | frame g => exact gives_throw _ f
    | plot plot => exact gives_throw _ f

end Update

/-! ## The column that is gained -/

/-- The cells of a column that is added: one cell stands on every row there is. -/
theorem values_fit {c : Column} {data : Series} (h : f.fit c = .ok data) :
    data.values =
      if f.columns ≠ [] ∧ c.length = 1 then (List.replicate f.rows c.data.values).flatten else c.data.values := by
  unfold fit at h
  split at h
  · rename_i hfits
    obtain rfl := Except.ok.inj h
    split
    · rename_i hone
      have hrows : f.rows = 1 := by
        rcases hfits with hempty | hfits
        · exact absurd (List.isEmpty_iff.1 hempty) hone.1
        · exact hfits.symm.trans hone.2
      simp [hrows]
    · rfl
  · rename_i hfits
    split at h
    · rename_i hone
      rw [if_pos ⟨fun hempty => hfits (.inl (List.isEmpty_iff.2 hempty)), hone⟩]
      exact Series.values_broadcastTo hone (liftM_series_eq_ok.1 h)
    · cases h

/-- `g` is `f` with one more column. -/
structure Gains (f : Frame) (c : Column) (g : Frame) : Prop where
  /-- No column had the name. -/
  fresh : c.name ∉ f.columns.map Column.name
  /-- The columns there were stay in order, and the new one is last. It has the cells it came with, and a single cell
      is repeated to the rows there are. -/
  columns : ∃ data, g.columns = f.columns ++ [{ c with data, constant := none }] ∧
    data.dataType = c.data.dataType ∧ data.values =
      if f.columns ≠ [] ∧ c.length = 1 then (List.replicate f.rows c.data.values).flatten else c.data.values
  /-- Each name leads where it led, and the new one to the new column. -/
  positions : ∀ name, g.set.position? name = if name = c.name then some f.columns.length else f.set.position? name
  options : g.options = f.options
  rows : f.columns ≠ [] → g.rows = f.rows
  /-- Taking the column out leads back to the columns and the index there were. -/
  restored : ∃ d h, g.drop c.name = .ok (d, h) ∧ g.columns.getLast? = some d ∧ h.columns = f.columns ∧
    (∀ name, h.set.position? name = f.set.position? name) ∧ h.options = f.options

theorem Valid.gains_append (hf : f.Valid) {c : Column} (h : f.append c = .ok g) : f.Gains c g := by
  obtain ⟨hnew, data, hdata, rfl⟩ := append_ok h
  have hfresh : c.name ∉ f.set.names Column.name := by
    rw [← hf.indexed.contains_iff, hnew]
    exact Bool.false_ne_true
  refine ⟨hfresh, ⟨data, rfl, (fit_ok hdata).1, values_fit hdata⟩, ?_, rfl, ?_, ?_⟩
  · exact fun name => ColumnSet.position?_push f.set c.name name _
  · intro hsome
    obtain ⟨d, rest, hcolumns⟩ := List.exists_cons_of_ne_nil hsome
    have hcolumns : f.set.columns = d :: rest := hcolumns
    simp [rows, columns, ColumnSet.push, hcolumns]
  · obtain ⟨rest, hremove, hcolumns, hpositions⟩ :=
      hf.indexed.sound.remove?_push hnew { c with data, constant := none }
    refine ⟨{ c with data, constant := none }, { f with set := rest }, ?_, ?_, hcolumns, hpositions, rfl⟩
    · rw [Frame.drop, hremove]
    · simp [columns, ColumnSet.push]

/-- What an assignment is: the value of a formula without a target, or the column of one with a target, added under its
    name. -/
theorem assign_cases {text : String} {result : Option (Evaluated Frame Column)}
    (h : f.assign text = .ok (g, result)) :
    ∃ formula, Formula.ofText text = .ok formula ∧
      ((∃ value, formula.target = none ∧ backend.run f formula.expr = .ok value ∧ g = f ∧ result = some value) ∨
        ∃ name c, formula.target = some name ∧ backend.eval formula.expr .rows f f = .ok (.column c) ∧
          f.append (c.rename name) = .ok g ∧ result = none) := by
  obtain ⟨formula, hformula, h⟩ := bind_eq_ok.1 h
  obtain ⟨value, hvalue, h⟩ := bind_eq_ok.1 h
  refine ⟨formula, hformula, ?_⟩
  cases htarget : formula.target with
  | none =>
    rw [htarget] at h
    obtain ⟨rfl, rfl⟩ := Prod.mk.inj (Except.ok.inj h)
    exact .inl ⟨value, rfl, hvalue, rfl, rfl⟩
  | some name =>
    rw [htarget] at h
    obtain ⟨outcome, houtcome, hvalue⟩ := bind_eq_ok.1 hvalue
    obtain rfl := Except.ok.inj hvalue
    cases outcome with
    | column c =>
      obtain ⟨g', hg, h⟩ := bind_eq_ok.1 h
      obtain ⟨rfl, rfl⟩ := Prod.mk.inj (Except.ok.inj h)
      exact .inr ⟨name, c, rfl, houtcome, hg, rfl⟩
    | frame _ => cases h
    | plot _ => cases h

/-- Without a target, evaluating is all there is to do. -/
theorem evaluate_of_run {text : String} {formula : Formula} {value : Evaluated Frame Column}
    (hformula : Formula.ofText text = .ok formula) (htarget : formula.target = none)
    (hrun : backend.run f formula.expr = .ok value) : f.evaluate text = .ok value := by
  refine bind_eq_ok.2 ⟨formula, hformula, bind_eq_ok.2 ⟨value, hrun, ?_⟩⟩
  rw [htarget]
  obtain ⟨outcome, dependencies⟩ := value
  cases outcome <;> rfl

/-- An assignment in place fails and leaves the frame, or gives what the formula evaluates to and leaves the frame, or
    adds the column of the formula under the name of the target and changes nothing else. -/
theorem assign_all_or_nothing (hf : f.Reached) {text : String}
    {result : Except Failure (Option (Evaluated Frame Column))} (h : (Update.assign text).on f = (result, g)) :
    match result with
    | .error _ => g = f
    | .ok (some value) => g = f ∧ f.evaluate text = .ok value
    | .ok none => ∃ formula name c, Formula.ofText text = .ok formula ∧ formula.target = some name ∧
        backend.eval formula.expr .rows f f = .ok (.column c) ∧ f.Gains (c.rename name) g := by
  have hgives := Update.gives_assign text f
  unfold Update.Gives at hgives
  rw [h] at hgives
  cases hassign : f.assign text with
  | error failure =>
    rw [hassign] at hgives
    obtain ⟨rfl, rfl⟩ := Prod.mk.inj hgives
    rfl
  | ok given =>
    obtain ⟨g', given⟩ := given
    rw [hassign] at hgives
    obtain ⟨rfl, rfl⟩ := Prod.mk.inj hgives
    obtain ⟨formula, hformula, ⟨value, htarget, hrun, hg, rfl⟩ | ⟨name, c, htarget, heval, happend, rfl⟩⟩ :=
      assign_cases hassign
    · exact ⟨hg, evaluate_of_run hformula htarget hrun⟩
    · exact ⟨formula, name, c, hformula, htarget, heval, hf.valid.gains_append happend⟩

/-- The sum of a column is added on both of its rows. -/
theorem assign_all_or_nothing_sum :
    let f := (empty .default).run [(.append (.ofSeries "x" (.integers [1, 2])), false)]
    let text := Formula.text ⟨some "m", .call "sum" [.leaf "x"]⟩
    ∃ g formula name c, (Update.assign text).on f = (.ok none, g) ∧ Formula.ofText text = .ok formula ∧
      formula.target = some name ∧ backend.eval formula.expr .rows f f = .ok (.column c) ∧ f.Gains (c.rename name) g ∧
      g.columns.map Column.data = [.integers [1, 2], .integers [3, 3]] := by
  intro f text
  have hf : f.Reached := (Reached.empty .default).run fun c returned hc => by
    obtain ⟨rfl, -⟩ : c = .ofSeries "x" (.integers [1, 2]) ∧ returned = false := by simpa using hc
    exact .ofSeries ..
  have htext : Formula.ofText text = .ok ⟨some "m", .call "sum" [.leaf "x"]⟩ :=
    Formula.ofText_text_target (by decide) (by decide +kernel) (by unfold Expr.Unassigning; decide)
  obtain ⟨g, hassign, hdata⟩ : ∃ g, (Update.assign text).on f = (.ok none, g) ∧
      g.columns.map Column.data = [.integers [1, 2], .integers [3, 3]] := by
    unfold Update.assign
    rw [htext]
    exact ⟨_, rfl, rfl⟩
  obtain ⟨formula, name, c, hformula, htarget, heval, hgains⟩ := assign_all_or_nothing hf hassign
  exact ⟨g, formula, name, c, hassign, hformula, htarget, heval, hgains, hdata⟩

end Tabular.Memory.Frame
