-- SUMMARY: Every formula has the same schema over both backends exactly if the SQL frame finds its columns.
import Tabular.Proofs.Formula.Token
import Tabular.Proofs.Memory.Reached
import Tabular.Proofs.Sql.Agreement
import Tabular.Proofs.Sql.Store

/-!
# The same schema

A frame in memory and an SQL frame with the same columns give a formula the same kind of result, with the same names,
types and dependencies, and what is refused over SQL alone is refused late. This needs that the SQL frame finds its
columns by their names, as far as formulas can name them. A frame in memory always does; an SQL frame does not after
`by` with a repeated key, when one of the two columns is dropped. Sorting by the name of such a column tells the
frames apart.
-/

namespace Tabular

/-! ## Sorting by a token -/

namespace Backend

variable {m : Type → Type} [Monad m] [MonadLiftT (Except Failure) m] {F C : Type}

theorem ascending_asc : (ascending (.leaf "asc") : m Bool) = pure true := rfl

theorem key_leaf (B : Backend m F C) (f : F) (form name : String) :
    B.key f form (.leaf name) = if (B.column? f name).isSome then pure name else fail (.unknownColumn name) := rfl

/-- Sorting by a token looks the token up and sorts. -/
theorem evaluate_sort [LawfulMonad m] [LawfulMonadLiftT (Except Failure) m] (B : Backend m F C) (f : F)
    {token : String} (htoken : isToken token.toList = true) :
    ∃ dependencies, B.evaluate f ("sort(asc,(" ++ token ++ "))") = do
      let key ← B.key f "sort" (.leaf token)
      return ⟨.frame (← B.sort f true [key]), dependencies⟩ := by
  have hlift (formula : Formula) : (liftM (Except.ok formula : Except Failure Formula) : m Formula) = pure formula :=
    monadLift_pure formula
  refine ⟨(Expr.call "sort" [.leaf "asc", .leaf token]).dependencies fun name => (B.column? f name).isSome, ?_⟩
  unfold evaluate run
  rw [Formula.ofText_sort htoken, hlift, pure_bind, eval]
  simp [SpecialForm.named?, ascending_asc, renameOutcome]

end Backend

namespace Sql.Frame

variable {δ : Type} {f : Memory.Frame} {s : Frame}

/-! ## Schemas -/

/-- The outcomes are of one kind and have the same names and types in order. -/
def SameSchema : Outcome Memory.Frame Memory.Column → Outcome Frame Column → Prop
  | .frame g, .frame g' => g'.labels = g.labels
  | .column c, .column c' => c'.label = c.label
  | .plot p, .plot p' => p'.xLabel = p.xLabel ∧ p'.yLabel = p.yLabel ∧ p'.x.dataType = p.x.dataType ∧
      p'.y.dataType = p.y.dataType
  | _, _ => False

/-- A formula that succeeds in memory has the same schema and dependencies over SQL, or else fails late there. -/
def Follows : Except Failure (Evaluated Memory.Frame Memory.Column) → Except Failure (Evaluated Frame Column) → Prop
  | .ok r, .ok r' => SameSchema r.outcome r'.outcome ∧ r'.dependencies = r.dependencies
  | .ok _, .error failure => failure.IsLate
  | .error _, _ => True

variable [Database δ]

theorem sameSchema_of_rel {hdatabase : Database.Faithful δ} {known : String → Prop}
    {o : Outcome Memory.Frame Memory.Column} {o' : Outcome Frame Column}
    (h : (simulation hdatabase known).OutcomeRel o o') : SameSchema o o' := by
  cases o with
  | frame g =>
    cases o' with
    | frame g' => exact Agrees.labels h
    | _ => exact h.elim
  | column c =>
    cases o' with
    | column c' => exact Matches.label h
    | _ => exact h.elim
  | plot p =>
    cases o' with
    | plot p' => exact h
    | _ => exact h.elim

/-- Over frames that agree on tokens, formulas have the same schema. -/
theorem follows_evaluate (hdatabase : Database.Faithful δ) (h : Agrees (fun name => isToken name.toList = true) f s)
    (text : String) (session : Session δ) : Follows (f.evaluate text) (s.evaluate text session).1 := by
  cases hresult : f.evaluate text with
  | error failure => trivial
  | ok r =>
    have hholds := (simulation hdatabase _).holds_evaluate h (fun _ => Formula.isToken_of_ofText) hresult session
    unfold Frame.evaluate
    cases hother : (backend.evaluate s text session).1 with
    | ok r' =>
      rw [hother] at hholds
      exact ⟨sameSchema_of_rel hholds.1, hholds.2⟩
    | error failure =>
      rw [hother] at hholds
      exact hholds

/-! ## Columns that are not found -/

theorem Sound.isSome_column? (hs : s.Sound) (name : String) : (s.column? name).isSome = s.set.contains name := by
  unfold column? ColumnSet.column? ColumnSet.contains
  cases hposition : s.set.position? name with
  | none => rfl
  | some i =>
    have hname := hs.index name i hposition
    rw [ColumnSet.names, List.getElem?_map, Option.map_eq_some_iff] at hname
    obtain ⟨c, hc, -⟩ := hname
    simp [hc]

/-- A frame in memory can be sorted by a column that it finds. -/
theorem evaluate_sort_found {token : String} (htoken : isToken token.toList = true) {c : Memory.Column}
    (hc : f.column? token = some c) : ∃ r, f.evaluate ("sort(asc,(" ++ token ++ "))") = .ok r := by
  obtain ⟨dependencies, heq⟩ := Memory.Frame.backend.evaluate_sort f htoken
  have hfind : (Memory.Frame.backend.column? f token).isSome = true := congrArg Option.isSome hc
  have hsort : f.sort true [token] = .ok (f.permute (Memory.sortedOrder true [c.data] f.rows)) := by
    simp [Memory.Frame.sort, Memory.Frame.column, hc, pure, Except.pure, bind, Except.bind]
  rw [Backend.key_leaf, if_pos hfind, pure_bind] at heq
  exact ⟨_, heq.trans (bind_eq_ok.2 ⟨_, hsort, rfl⟩)⟩

/-- An SQL frame cannot be sorted by a column that it does not find. -/
theorem evaluate_sort_missing {token : String} (htoken : isToken token.toList = true)
    (hmissing : s.column? token = none) (session : Session δ) :
    (s.evaluate ("sort(asc,(" ++ token ++ "))") session).1 = .error (.unknownColumn token) := by
  obtain ⟨dependencies, heq⟩ := (backend : Backend (Work δ) Frame Column).evaluate_sort s htoken
  have hfind : ¬((backend : Backend (Work δ) Frame Column).column? s token).isSome = true := by
    change ¬(s.column? token).isSome = true
    simp [hmissing]
  rw [Backend.key_leaf, if_neg hfind] at heq
  unfold Frame.evaluate
  rw [heq]
  rfl

/-- Sorting by a column that the SQL frame does not find tells it from the frame in memory. -/
theorem not_follows_evaluate (hf : f.Valid) (hlabels : s.labels = f.labels) {c : Column} (hc : c ∈ s.columns)
    (htoken : isToken c.name.toList = true) (hmissing : s.column? c.name = none) (session : Session δ) :
    ¬Follows (f.evaluate ("sort(asc,(" ++ c.name ++ "))"))
      (s.evaluate ("sort(asc,(" ++ c.name ++ "))") session).1 := by
  have hname : c.name ∈ f.set.names Memory.Column.name := by
    rw [← names_eq_of_labels hlabels]
    exact List.mem_map_of_mem hc
  obtain ⟨d, hd, hname⟩ := List.mem_map.1 hname
  obtain ⟨r, hr⟩ := evaluate_sort_found htoken (hf.indexed.column?_eq_some_iff.2 ⟨hd, hname⟩)
  rw [hr, evaluate_sort_missing htoken hmissing session]
  exact Bool.false_ne_true

/-! ## The same schema -/

/-- A frame in memory and an SQL frame with the same columns and options give every formula the same schema, exactly
    if the SQL frame finds each of its columns that a formula can name. -/
theorem evaluate_follows_iff (hdatabase : Database.Faithful δ) (hf : f.Reached) (hs : s.Reached δ)
    (hlabels : s.labels = f.labels) (hoptions : s.source.options = f.options) (session : Session δ) :
    (∀ text, Follows (f.evaluate text) (s.evaluate text session).1) ↔
      ∀ c ∈ s.columns, isToken c.name.toList = true → (s.column? c.name).isSome = true := by
  have hvalid := hf.valid
  have hsound := hs.sound
  constructor
  · intro h c hc htoken
    -- A column that is not found cannot be sorted by, while in memory it can.
    cases hmissing : s.column? c.name with
    | some d => rfl
    | none => exact absurd (h _) (not_follows_evaluate hvalid hlabels hc htoken hmissing session)
  · intro h text
    refine follows_evaluate hdatabase ⟨hvalid, hsound, hlabels, hoptions, fun name htoken hfound => ?_⟩ text session
    rw [hvalid.indexed.contains_iff, ← names_eq_of_labels hlabels] at hfound
    obtain ⟨c, hc, rfl⟩ := List.mem_map.1 hfound
    rw [← hsound.isSome_column?]
    exact h c hc htoken

/-- Formulas over a table have the schema that they have over a frame in memory with its column. -/
theorem evaluate_follows_iff_table :
    let store : Store := ⟨[⟨"t", [⟨"k", "INTEGER"⟩], [[.integer 1]]⟩]⟩
    let f := (Memory.Frame.empty .default).run [(.append (.ofSeries "k" (.integers [1])), false)]
    ∃ s, (Frame.ofTable .sqlite "t" .default ⟨store, 0⟩).1 = .ok s ∧
      ∀ text, Follows (f.evaluate text) (s.evaluate text ⟨store, 1⟩).1 := by
  intro store f
  have hf : f.Reached := by
    refine Memory.Frame.Reached.run (.empty _) fun c returned hc => ?_
    obtain ⟨rfl, -⟩ : c = .ofSeries "k" (.integers [1]) ∧ returned = false := by simpa using hc
    exact .ofSeries _ _
  have hs : ((Frame.ofTable .sqlite "t" .default ⟨store, 0⟩).1 : Except Failure Frame) =
      .ok (ofOutputs ⟨0, .sqlite, .table "t", 0, none, .default⟩ [⟨"k", .integer, none⟩]) := rfl
  refine ⟨_, hs, (evaluate_follows_iff Store.faithful hf (.ofQuery hs) rfl rfl _).2 fun c hc _ => ?_⟩
  obtain rfl := List.mem_singleton.1 hc
  rfl

/-- Grouped by a column twice, an SQL frame has two columns of one name. Once the name is dropped, one of them is
    left, and formulas over a frame in memory with the same column are not followed. -/
theorem exists_not_follows :
    ∃ (f : Memory.Frame) (s : Frame), f.Reached ∧ s.Reached Store ∧ s.labels = f.labels ∧
      s.source.options = f.options ∧
      ∀ session : Session Store, ∃ text, ¬Follows (f.evaluate text) (s.evaluate text session).1 := by
  let f := (Memory.Frame.empty .default).advance (.append (.ofSeries "k" (.integers [1]))) false
  let store : Store := ⟨[⟨"t", [⟨"k", "INTEGER"⟩], [[.integer 1]]⟩]⟩
  let table := ofOutputs ⟨0, .sqlite, .table "t", 0, none, .default⟩ [⟨"k", .integer, none⟩]
  have hf : f.Reached := by
    refine .advance (.empty _) (fun c hc => ?_) _
    obtain rfl := Memory.Request.append.inj hc
    exact .ofSeries _ _
  have htable : (Frame.ofTable .sqlite "t" .default ⟨store, 0⟩ : Except Failure Frame × _).1 = .ok table := rfl
  -- The index forgets the name with the first of the two columns, and the second is still there.
  obtain ⟨g, hg, c, s, hs, hlabels, hoptions, hmissing⟩ :
      ∃ g, (table.group ["k", "k"] (List.map backend.reducer []) ⟨store, 1⟩).1 = .ok g ∧
        ∃ c s, g.drop "k" = .ok (c, s) ∧ s.labels = [("k", .integer)] ∧ s.source.options = .default ∧
          s.column? "k" = none :=
    ⟨_, rfl, _, _, rfl, rfl, rfl, rfl⟩
  have hagrees : s.labels = f.labels := hlabels
  have hlabel : ("k", DataType.integer) ∈ s.labels := hlabels ▸ List.mem_singleton_self _
  obtain ⟨d, hd, hlabel⟩ := List.mem_map.1 hlabel
  have hname : d.name = "k" := congrArg Prod.fst hlabel
  have htoken : isToken d.name.toList = true := by
    rw [hname]
    decide +kernel
  exact ⟨f, s, hf, .drop (.group (.ofQuery htable) hg) hs, hagrees, hoptions, fun session =>
    ⟨_, not_follows_evaluate hf.valid hagrees hd htoken (hname ▸ hmissing) session⟩⟩

end Sql.Frame

end Tabular
