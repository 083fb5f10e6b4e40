-- SUMMARY: Every frame in memory that callers can reach is valid, and formulas over it have their static types.
import Tabular.Proofs.Evaluation.Parts
import Tabular.Proofs.Memory.Evaluate

/-!
# Reached frames

A caller asks for requests, one after another, and goes on with the frame at hand or with a frame that it was given.
A request that is refused leaves the frame as it was. Columns come from the constructors, from operations, from
frames and from formulas. All frames that are reached like this are valid, and so a formula over them, or over the
rows of a group of them, gives typed columns of its static type.
-/

namespace Tabular.Memory

/-! ## Requests -/

inductive Request where
  | append (c : Column)
  | drop (name : String)
  | parse (formula : String)
  | take (rows : List Nat)
  | sort (ascending : Bool) (keys : List String)
  | sortInPlace (ascending : Bool) (keys : List String)
  | setOptions (options : Options)
  /-- Group by keys and reduce named formulas. -/
  | group (keys : List String) (formulas : List (String × Expr))

namespace Frame

/-- The frame that an outcome is. -/
def returned? : Outcome Frame Column → Option Frame
  | .frame g => some g
  | _ => none

/-- The frame after a request, and the frame that the request returns. A refused request changes nothing. -/
def handle (f : Frame) : Request → Frame × Option Frame
  | .append c =>
    match f.append c with
    | .ok g => (g, none)
    | .error _ => (f, none)
  | .drop name =>
    match f.drop name with
    | .ok (_, g) => (g, none)
    | .error _ => (f, none)
  | .parse formula =>
    match f.assign formula with
    | .ok (g, result) => (g, result.bind fun r => returned? r.outcome)
    | .error _ => (f, none)
  | .take rows => (f, (f.take rows).toOption)
  | .sort ascending keys => (f, (f.sort ascending keys).toOption)
  | .sortInPlace ascending keys => ((f.sort ascending keys).toOption.getD f, none)
  | .setOptions options => ({ f with options }, none)
  | .group keys formulas => (f, (f.group keys (formulas.map backend.reducer)).toOption)

/-- Handle a request, and go on with the frame it returns if that is wanted. -/
def advance (f : Frame) (r : Request) (returned : Bool) : Frame :=
  if returned then (f.handle r).2.getD (f.handle r).1 else (f.handle r).1

/-- Handle requests in order. -/
def run (f : Frame) (requests : List (Request × Bool)) : Frame :=
  requests.foldl (fun f (r, returned) => f.advance r returned) f

end Frame

mutual

/-- Frames that are reached from an empty one. -/
inductive Frame.Reached : Frame → Prop
  | empty (options : Options) : Frame.Reached (.empty options)
  | advance {f : Frame} {r : Request} (hf : Frame.Reached f) (hr : ∀ c, r = .append c → Column.Obtained c)
      (returned : Bool) : Frame.Reached (f.advance r returned)

/-- Columns that are made, computed, or found in a reached frame. -/
inductive Column.Obtained : Column → Prop
  | ofSeries (name : String) (data : Series) : Column.Obtained (.ofSeries name data)
  | ofCodes {name : String} {codes : Series} {map : CategoryMap} {c : Column}
      (h : Column.ofCodes name codes map = .ok c) : Column.Obtained c
  | literal {v : Value} {c : Column} (h : Column.literal v = .ok c) : Column.Obtained c
  | rename {c : Column} (h : Column.Obtained c) (name : String) : Column.Obtained (c.rename name)
  | executed {options : Options} {rows : Nat} {op : Resolved} {args : List Column} {c : Column}
      (h : execute options rows op args = .ok c) : Column.Obtained c
  | stored {f : Frame} {c : Column} (hf : Frame.Reached f) (h : c ∈ f.columns) : Column.Obtained c
  | evaluated {f : Frame} {text : String} {result : Evaluated Frame Column} {c : Column} (hf : Frame.Reached f)
      (h : f.evaluate text = .ok result) (hc : result.outcome = .column c) : Column.Obtained c

end

/-! ## Validity -/

namespace Frame

theorem toOption_eq_some {α : Type} {x : Except Failure α} {a : α} : x.toOption = some a ↔ x = .ok a := by
  cases x <;> simp [Except.toOption]

/-- A request keeps a frame valid and returns a valid one. -/
theorem Valid.handle {f : Frame} (hf : f.Valid) {r : Request} (hr : ∀ c, r = .append c → c.Typed) :
    (f.handle r).1.Valid ∧ ∀ g, (f.handle r).2 = some g → g.Valid := by
  cases r with
  | append c =>
    unfold Frame.handle
    dsimp only
    split
    · rename_i g hg
      exact ⟨hf.append (hr c rfl) hg, by simp⟩
    · exact ⟨hf, by simp⟩
  | drop name =>
    unfold Frame.handle
    dsimp only
    split
    · rename_i c g hg
      exact ⟨(hf.drop hg).2, by simp⟩
    · exact ⟨hf, by simp⟩
  | parse formula =>
    unfold Frame.handle
    dsimp only
    split
    · rename_i g result hg
      obtain ⟨hvalid, hresult⟩ := invariant.holds_assign hf formula _ hg
      -- A formula returns a frame if it sorts or groups; columns and plots are not returned as frames.
      refine ⟨hvalid, fun h hgiven => ?_⟩
      obtain ⟨r, hr, houtcome⟩ := Option.bind_eq_some_iff.1 hgiven
      have hgood : invariant.GoodOutcome r.outcome := hresult r hr
      cases hkind : r.outcome with
      | frame h' =>
        rw [hkind] at hgood houtcome
        obtain rfl : h' = h := by simpa [returned?] using houtcome
        exact hgood
      | column c => simp [hkind, returned?] at houtcome
      | plot plot => simp [hkind, returned?] at houtcome
    · exact ⟨hf, by simp⟩
  | take rows => exact ⟨hf, fun g hg => hf.take (toOption_eq_some.1 hg)⟩
  | sort ascending keys => exact ⟨hf, fun g hg => hf.sort (toOption_eq_some.1 hg)⟩
  | sortInPlace ascending keys =>
    refine ⟨?_, by simp [Frame.handle]⟩
    cases hsorted : f.sort ascending keys with
    | ok g => simpa [Frame.handle, hsorted, Except.toOption] using hf.sort hsorted
    | error failure => simpa [Frame.handle, hsorted, Except.toOption] using hf
  | setOptions options => exact ⟨hf.setOptions options, by simp [Frame.handle]⟩
  | group keys formulas => exact ⟨hf, fun g hg => hf.group (toOption_eq_some.1 hg)⟩

theorem Valid.advance {f : Frame} (hf : f.Valid) {r : Request} (hr : ∀ c, r = .append c → c.Typed) (returned : Bool) :
    (f.advance r returned).Valid := by
  obtain ⟨hleft, hgiven⟩ := hf.handle hr
  unfold Frame.advance
  split
  · cases hreturned : (f.handle r).2 with
    | none => simpa using hleft
    | some g => simpa using hgiven g hreturned
  · exact hleft

end Frame

mutual

/-- Reached frames are valid. -/
theorem Frame.Reached.valid : ∀ {f : Frame}, f.Reached → f.Valid
  | _, .empty options => Frame.valid_empty options
  | _, .advance hf hr returned => hf.valid.advance (fun c hc => (hr c hc).typed) returned

/-- Obtained columns are typed. -/
theorem Column.Obtained.typed : ∀ {c : Column}, c.Obtained → c.Typed
  | _, .ofSeries name data => (Column.made_ofSeries name data).typed
  | _, .ofCodes h => (Column.ofCodes_ok h).1.typed
  | _, .literal h => (Column.literal_ok h).1
  | _, .rename h _ => h.typed
  | _, .executed h => (made_execute h).typed
  | _, .stored hf h => hf.valid.typed _ h
  | _, .evaluated hf h hc => by
    have hgood : Frame.invariant.GoodOutcome _ := Frame.invariant.holds_evaluate hf.valid _ _ h
    rwa [hc] at hgood

end

namespace Frame

theorem Reached.run {f : Frame} (hf : f.Reached) {requests : List (Request × Bool)}
    (hcolumns : ∀ c returned, (.append c, returned) ∈ requests → c.Obtained) : (f.run requests).Reached := by
  induction requests generalizing f with
  | nil => exact hf
  | cons request requests ih =>
    refine ih (hf.advance (fun c hc => hcolumns c request.2 ?_) request.2) fun c returned hmem =>
      hcolumns c returned (List.mem_cons_of_mem _ hmem)
    rw [← hc]
    exact List.mem_cons_self

/-- After any requests from an empty frame, refused ones included, the columns have one length and distinct names,
    the index leads exactly from their names to their positions, their cells have the storage of their types, and
    none of them is a constant. -/
theorem valid_run (options : Options) (requests : List (Request × Bool))
    (hcolumns : ∀ c returned, (.append c, returned) ∈ requests → c.Obtained) :
    ((empty options).run requests).Valid ∧ (((empty options).run requests).columns.map Column.name).Nodup := by
  have hvalid := ((Reached.empty options).run hcolumns).valid
  exact ⟨hvalid, hvalid.distinct⟩

/-- A second column of the name is refused, and the run goes on with the groups of the first. -/
theorem valid_run_groups :
    let f := (empty .default).run [(.append (.ofSeries "n" (.integers [4, 2, 4])), false),
      (.append (.ofSeries "n" (.integers [1])), false), (.group ["n"] [("rows", .call "sum" [.leaf "n"])], true)]
    f.Valid ∧ (f.columns.map Column.name).Nodup ∧ f.columns.map Column.name = ["n", "rows"] := by
  intro f
  obtain ⟨hvalid, hdistinct⟩ := valid_run .default [(.append (.ofSeries "n" (.integers [4, 2, 4])), false),
      (.append (.ofSeries "n" (.integers [1])), false), (.group ["n"] [("rows", .call "sum" [.leaf "n"])], true)]
    (fun c returned hc => by
      simp only [List.mem_cons, Prod.mk.injEq, Request.append.injEq, reduceCtorEq, false_and,
        List.not_mem_nil, or_false] at hc
      rcases hc with ⟨rfl, -⟩ | ⟨rfl, -⟩
      · exact .ofSeries ..
      · exact .ofSeries ..)
  exact ⟨hvalid, hdistinct, by decide +kernel⟩

/-! ## Types -/

theorem Valid.describes {f : Frame} (hf : f.Valid) (tokens : List String) :
    typing.Describes f f.options.datePatterns f.schema tokens :=
  ⟨rfl, fun _ _ => rfl, fun _ _ _ hc => hf.typed _ (hf.mem_of_column? hc).1⟩

/-- A formula over a reached frame, or over some of its rows with the whole frame at hand, gives a column whose cells
    have the storage of its type, and its type is the static one if there is one. -/
theorem dataType_eval {f g : Frame} (hf : f.Reached) (hg : g = f ∨ ∃ rows, f.take rows = .ok g) {e : Expr}
    {scope : Scope} {c : Column} (h : (do Backend.asColumn e (← backend.eval e scope g f)) = Except.ok c) :
    c.data.dataType = c.dataType.storage ∧
      ∀ type, e.staticType g.options.datePatterns g.schema = .ok type → type = c.dataType := by
  have hvalid : g.Valid := by
    rcases hg with rfl | ⟨rows, hg⟩
    · exact hf.valid
    · exact hf.valid.take hg
  -- The rows of a group have the schema of the whole frame, so one schema describes both.
  have hdescribes : typing.Describes f g.options.datePatterns g.schema e.tokens := by
    rcases hg with rfl | ⟨rows, hg⟩
    · exact hf.valid.describes e.tokens
    · rw [(schema_take hg).1, (schema_take hg).2]
      exact hf.valid.describes e.tokens
  obtain ⟨o, ho, hc⟩ := bind_eq_ok.1 h
  obtain rfl : o = .column c := by
    cases o with
    | column d => simpa [Backend.asColumn, Pure.pure, Except.pure] using hc
    | frame g => simp [Backend.asColumn, Backend.fail] at hc
    | plot plot => simp [Backend.asColumn, Backend.fail] at hc
  refine ⟨invariant.holds_eval hvalid hf.valid e scope _ ho, fun type htype => ?_⟩
  obtain ⟨d, hd, -, rfl⟩ := typing.holds_eval (hvalid.describes e.tokens) hdescribes htype scope _ ho
  exact congrArg Column.dataType (Outcome.column.inj hd).symm

/-- The sum of a column over the first row of a frame. -/
theorem dataType_eval_sum :
    let f := (empty .default).run [(.append (.ofSeries "n" (.integers [4, 2])), false)]
    let g := (empty .default).run [(.append (.ofSeries "n" (.integers [4])), false)]
    let e := Expr.call "sum" [.leaf "n"]
    ∃ c, f.take [0] = .ok g ∧ (do Backend.asColumn e (← backend.eval e .groups g f)) = .ok c ∧
      c.data.dataType = c.dataType.storage ∧ DataType.integer = c.dataType := by
  intro f g e
  have hf : f.Reached := (Reached.empty .default).run fun c returned hc => by
    obtain ⟨rfl, -⟩ : c = .ofSeries "n" (.integers [4, 2]) ∧ returned = false := by simpa using hc
    exact .ofSeries ..
  have hg : f.take [0] = .ok g := rfl
  have hc : (do Backend.asColumn e (← backend.eval e .groups g f)) = Except.ok (.ofSeries "sum(n)" (.integers [4])) :=
    rfl
  obtain ⟨hdata, htype⟩ := dataType_eval hf (.inr ⟨[0], hg⟩) hc
  exact ⟨_, hg, hc, hdata, htype _ rfl⟩

end Frame

end Tabular.Memory
