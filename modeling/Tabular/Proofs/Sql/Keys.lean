-- SUMMARY: When the terms that an SQL frame groups by are keys: on the level of rows, and no bare integers.
import Tabular.Proofs.Evaluation.Uniform
import Tabular.Proofs.Formula.Reread
import Tabular.Proofs.Sql.Index
import Tabular.Proofs.Sql.Level
import Tabular.Proofs.Sql.Order

/-!
# Keys of groups

Grouping writes the terms of its key columns into `GROUP BY`. A database can group by a term only if it is on the level of
rows, and takes a bare integer for the place of an output column. The columns of a source are keys in this sense, but a
column that was assigned need not be: an aggregate is stored as a window, and a literal as itself. What becomes of a
formula is told by its form, except that only the cells tell whether a category map has codes of its own.
-/

namespace Tabular.Sql

/-- The term can be a key of groups: it is not written as a bare integer, and it is on the level of rows. -/
structure Term.IsKey (d : Dialect) (t : Term) : Prop where
  notInteger : Spelling.isInteger (t.text d) = false
  rowLevel : t.isRowLevel = true

/-! ## Certainty -/

/-- What is known of a question: the answer, or nothing. -/
inductive Certainty where
  | no
  | maybe
  | yes
  deriving DecidableEq, Repr

namespace Certainty

/-- The answer is not ruled out. -/
def Allows : Certainty → Bool → Prop
  | no, answer => answer = false
  | maybe, _ => True
  | yes, answer => answer = true

/-- What is left of the certainty where a yes may be lost. -/
def weaken : Certainty → Certainty
  | no => no
  | _ => maybe

/-- Whether one of two is so. -/
def or : Certainty → Certainty → Certainty
  | yes, _ => yes
  | _, yes => yes
  | no, no => no
  | _, _ => maybe

/-- Whether one of several is so. -/
def any (certainties : List Certainty) : Certainty := certainties.foldr or no

theorem Allows.weaken {x : Certainty} {a b : Bool} (h : x.Allows a) (hlost : b = true → a = true) :
    x.weaken.Allows b := by
  cases x with
  | no => exact Bool.eq_false_iff.2 fun hb => Bool.eq_false_iff.1 h (hlost hb)
  | maybe => trivial
  | yes => trivial

theorem Allows.or {x y : Certainty} {a b : Bool} (hx : x.Allows a) (hy : y.Allows b) : (x.or y).Allows (a || b) := by
  cases x <;> cases y <;> simp_all [Allows, Certainty.or]

theorem allows_any {certainties : List Certainty} {answers : List Bool}
    (h : List.Forall₂ Allows certainties answers) : (any certainties).Allows (answers.any id) := by
  induction h with
  | nil => rfl
  | cons hfirst _ ih => exact hfirst.or ih

end Certainty

/-! ## Standings -/

/-- What is known of a column as a key. -/
structure Standing where
  /-- Whether it is written as a bare integer. -/
  number : Certainty
  /-- Whether it needs the rows around it. -/
  wide : Certainty
  /-- Whether it is a constant of a formula. -/
  constant : Bool
  /-- The text of a quoted constant. -/
  text : Option String
  deriving DecidableEq, Repr

namespace Standing

/-- A column that was composed or stored. -/
def composed (number wide : Certainty) : Standing := ⟨number, wide, false, none⟩

/-- A column of a source. -/
def plain : Standing := composed .no .no

/-- A bare constant. -/
def ofConstant (v : Value) : Standing := ⟨if v.dataType = .integer then .yes else .no, .no, true, none⟩

/-- A quoted constant. -/
def ofQuoted (content : String) : Standing := ⟨.no, .no, true, some content⟩

/-- Whether the column is the target of a cast to integers. -/
def targetsIntegers (x : Standing) : Bool := x.text.bind DataType.ofName? == some .integer

/-- The result of an operation. Aggregates and the numbering of rows look at other rows. A cast to integers leaves an
    integer as it is written, and a category map without codes of its own gives the same code on every row. -/
def ofCall (name : String) (operands : List Standing) : Standing :=
  let first := operands.headD plain
  match name with
  | "cast" => composed (if operands[1]?.any targetsIntegers then first.number else .no) first.wide
  | "cat" | "applyCat" => composed .maybe first.wide.weaken
  | "row_number" => composed .no .yes
  | name => composed .no (if Operation.isScalarName name then .yes else .any (operands.map wide))

/-- What `global` gives: a subquery, except of a constant. -/
def ofGlobal : List Standing → Standing
  | [x] => if x.constant then x else plain
  | _ => plain

def scheme : Scheme Standing where
  quoted := ofQuoted
  call := ofCall
  global := ofGlobal
  other := plain

/-- What a token stands for over columns of known standings, or else as a constant. -/
def ofToken (patterns : List String) (known : String → Option Standing) (name : String) : Standing :=
  match known name with
  | some x => x
  | none => (Value.ofToken? patterns name).elim plain ofConstant

/-- The standing of a formula once it is stored: a stored column is no constant any more. -/
def ofStored (patterns : List String) (known : String → Option Standing) (e : Expr) : Standing :=
  let x := e.mark scheme (ofToken patterns known) (ofToken patterns known)
  composed x.number x.wide

/-- The term is what the standing says. -/
structure Describes (x : Standing) (t : Term) : Prop where
  number : x.number.Allows t.isNumber
  wide : x.wide.Allows t.isWide

/-- Bare integers are of a type that is stored as integers. -/
def Stores (t : Term) (type : DataType) : Prop := t.isNumber = true → type.storage = .integer

/-- The column is what the standing says. -/
structure Fits (x : Standing) (c : Column) : Prop where
  term : x.Describes c.term
  stores : Stores c.term c.dataType
  constant : c.constant.isSome = x.constant
  text : ∀ content, c.constant = some (.string content) → x.text = some content

theorem describes_column (name : String) : plain.Describes (.column name) := ⟨rfl, rfl⟩

/-- What is neither a bare integer nor wide is a key. -/
theorem Describes.isKey {x : Standing} {t : Term} (h : x.Describes t) (hnumber : x.number = .no) (hwide : x.wide = .no)
    (d : Dialect) : t.IsKey d where
  notInteger := by
    rw [Term.isInteger_text]
    exact (hnumber ▸ h.number : Certainty.no.Allows t.isNumber)
  rowLevel := by
    have hwide : t.isWide = false := (hwide ▸ h.wide : Certainty.no.Allows t.isWide)
    rw [Term.isRowLevel_eq, hwide]
    rfl

/-- Of a key it is not known that it is one of them. -/
theorem Describes.of_isKey {x : Standing} {t : Term} (h : x.Describes t) {d : Dialect} (hkey : t.IsKey d) :
    x.number ≠ .yes ∧ x.wide ≠ .yes := by
  refine ⟨fun hnumber => ?_, fun hwide => ?_⟩
  · have hnumber : t.isNumber = true := (hnumber ▸ h.number : Certainty.yes.Allows t.isNumber)
    rw [← Term.isInteger_text d, hkey.notInteger] at hnumber
    cases hnumber
  · have hwide : t.isWide = true := (hwide ▸ h.wide : Certainty.yes.Allows t.isWide)
    have hlevel := hkey.rowLevel
    rw [Term.isRowLevel_eq, hwide] at hlevel
    cases hlevel

theorem ofCall_of_isScalar {name : String} (h : Operation.isScalarName name = true) (operands : List Standing) :
    ofCall name operands = composed .no .yes := by
  unfold ofCall
  dsimp only
  split
  case h_5 => rw [if_pos h]
  all_goals exact absurd h (by decide)

theorem ofCall_eq_composed (name : String) (operands : List Standing) :
    ofCall name operands = composed (ofCall name operands).number (ofCall name operands).wide := by
  unfold ofCall
  dsimp only
  split <;> rfl

/-- A column without a constant fits if its term is described. -/
theorem fits_composed {number wide : Certainty} {c : Column} (hterm : (composed number wide).Describes c.term)
    (hstores : Stores c.term c.dataType) (hconstant : c.constant = none) : (composed number wide).Fits c where
  term := hterm
  stores := hstores
  constant := congrArg Option.isSome hconstant
  text content h := by
    rw [hconstant] at h
    cases h

end Standing

/-! ## Operations -/

/-- What is composed has the standing, and bare integers are of a type that is stored as integers. -/
structure Composed.Fits (x : Standing) (composed : Composed) : Prop where
  term : x.Describes composed.term
  stores : Standing.Stores composed.term composed.dataType

namespace Compose

variable {δ : Type} {op : Resolved} {args : List Column} {standings : List Standing}
  (hargs : List.Forall₂ Standing.Fits standings args)

/-- Columns as operands, each with its own term. -/
abbrev operands (args : List Column) : List Operand := args.map fun c => (c, c.term)

theorem operand_ok {name : String} {index : Nat} {o : Operand} (h : operand name (operands args) index = .ok o) :
    ∃ c, args[index]? = some c ∧ o = (c, c.term) := by
  unfold operand at h
  rw [List.getElem?_map] at h
  split at h
  · rename_i found hfound
    obtain ⟨c, hc, rfl⟩ := Option.map_eq_some_iff.1 hfound
    exact ⟨c, hc, (Except.ok.inj h).symm⟩
  · cases h

/-- The target of a cast is read from the text of its constant. -/
theorem targetsIntegers_iff {x : Standing} {c : Column} {type : DataType} (h : x.Fits c)
    (htype : Parameter.castTarget c.constant = .ok type) : x.targetsIntegers = (type.storage == .integer) := by
  unfold Parameter.castTarget at htype
  split at htype
  · cases htype
  · rename_i name hname
    obtain ⟨v, hv, hname⟩ := Option.bind_eq_some_iff.1 hname
    obtain rfl : v = .string name := by
      cases v <;> simp_all [Value.string?]
    obtain ⟨found, hfound, htype⟩ := bind_eq_ok.1 htype
    split at htype
    · rename_i hconcrete
      obtain rfl := Except.ok.inj htype
      have hfound : DataType.ofName? name = some found := by
        have hfound := liftM_series_eq_ok.1 hfound
        unfold DataType.ofName at hfound
        split at hfound
        · rename_i t ht
          exact ht.trans (congrArg some (Except.ok.inj hfound))
        · cases hfound
      unfold Standing.targetsIntegers
      rw [h.text name hv, Option.bind_some, hfound]
      revert hconcrete
      cases found <;> decide
    · simp [throw, throwThe, MonadExceptOf.throw] at htype

include hargs

theorem fits_getElem {index : Nat} {c : Column} (h : args[index]? = some c) :
    ∃ x, standings[index]? = some x ∧ x.Fits c := by
  induction hargs generalizing index with
  | nil => cases h
  | cons hfirst _ ih =>
    cases index with
    | zero =>
      obtain rfl := Option.some.inj h
      exact ⟨_, rfl, hfirst⟩
    | succ index => exact ih h

theorem fits_first {c : Column} (h : args[0]? = some c) : (standings.headD .plain).Fits c := by
  cases hargs with
  | nil => cases h
  | cons hfirst _ =>
    obtain rfl := Option.some.inj h
    exact hfirst

theorem fits_cast {d : Dialect} {composed : Composed} (h : cast d (operands args) = .ok composed) :
    composed.Fits (.ofCall "cast" standings) := by
  obtain ⟨target, htarget, h⟩ := bind_eq_ok.1 h
  obtain ⟨type, htype, h⟩ := bind_eq_ok.1 h
  obtain ⟨value, hvalue, h⟩ := bind_eq_ok.1 h
  obtain ⟨term, hterm, h⟩ := bind_eq_ok.1 h
  obtain rfl := Except.ok.inj h
  obtain ⟨c, hc, rfl⟩ := operand_ok hvalue
  obtain ⟨t, ht, rfl⟩ := operand_ok htarget
  have hfirst := fits_first hargs hc
  obtain ⟨x, hx, hsecond⟩ := fits_getElem hargs ht
  have htarget := targetsIntegers_iff hsecond htype
  have hnumber := isNumber_of_convert hterm hfirst.stores
  refine ⟨⟨?_, ?_⟩, fun hinteger => ?_⟩
  · change Certainty.Allows (if standings[1]?.any Standing.targetsIntegers then _ else _) term.isNumber
    rw [hx, Option.any_some, htarget, hnumber]
    cases hinteger : type.storage == .integer with
    | true =>
      rw [Bool.and_true]
      exact hfirst.term.number
    | false => exact Bool.and_false _
  · change Certainty.Allows _ term.isWide
    rw [isWide_of_convert hterm]
    exact hfirst.term.wide
  · have hinteger : term.isNumber = true := hinteger
    rw [hnumber, Bool.and_eq_true] at hinteger
    exact of_decide_eq_true hinteger.2

omit hargs in
/-- The codes of what is encoded by a map. -/
theorem fits_encode {x : Standing} {raw : Term} (h : x.Describes raw) (map : CategoryMap) (default : Int64) :
    Composed.Fits (.composed .maybe x.wide.weaken) ⟨encode raw map default, .categorical, some map⟩ :=
  ⟨⟨trivial, h.wide.weaken isWide_encode⟩, fun _ => rfl⟩

theorem fits_applyCategories {composed : Composed} (h : applyCategories (operands args) = .ok composed) :
    composed.Fits (.ofCall "applyCat" standings) := by
  obtain ⟨raw, hraw, h⟩ := bind_eq_ok.1 h
  obtain ⟨c, hc, rfl⟩ := operand_ok hraw
  have hfirst := fits_first hargs hc
  obtain ⟨categorical, -, h⟩ := bind_eq_ok.1 h
  dsimp only at h
  split at h
  · simp [throw, throwThe, MonadExceptOf.throw] at h
  · obtain ⟨-, h⟩ := guard_eq_ok.1 h
    obtain ⟨_, -, h⟩ := bind_eq_ok.1 h
    split at h
    · simp [throw, throwThe, MonadExceptOf.throw] at h
    · obtain ⟨code, -, h⟩ := bind_eq_ok.1 h
      obtain rfl := Except.ok.inj h
      exact fits_encode hfirst.term _ code

/-- What needs nothing but the terms of its operands is wide if one of them is. -/
theorem fits_plain {s : Source} {types : List DataType} (happlies : op.Applies types)
    (hlength : types.length = args.length) (hrow : op.isScalar = false) (hname : op.name ≠ "row_number") {term : Term}
    (h : plain s op (operands args) = .ok term) :
    Composed.Fits (.composed .no (.any (standings.map Standing.wide))) ⟨term, op.output, none⟩ := by
  obtain ⟨hnumber, hwide⟩ := level_plain happlies (by rwa [List.length_map]) hrow hname h
  have hall : List.Forall₂ Certainty.Allows (standings.map Standing.wide) (args.map fun c => c.term.isWide) := by
    rw [List.forall₂_map_left_iff, List.forall₂_map_right_iff]
    exact hargs.imp fun _ _ h => h.term.wide
  have hany := Certainty.allows_any hall
  refine ⟨⟨hnumber, ?_⟩, fun hinteger => ?_⟩
  · change Certainty.Allows _ term.isWide
    rw [hwide, List.any_map]
    rwa [List.any_map] at hany
  · exact absurd hinteger (Bool.eq_false_iff.1 hnumber)

/-- An operation that is no aggregate has the standing that its name and its operands tell. -/
theorem holds_fits [Database δ] (s : Source) {types : List DataType} (happlies : op.Applies types)
    (hlength : types.length = args.length) (hrow : op.isScalar = false) :
    Work.partialResult.Holds (operation s op (operands args) : Work δ Composed)
      (Composed.Fits (.ofCall op.name standings)) := by
  unfold operation
  split
  · rename_i hname
    rw [hname]
    exact Work.partialResult_lift fun _ h => fits_cast hargs h
  · rename_i hname
    rw [hname]
    cases args with
    | nil => exact Work.partialResult_throw
    | cons raw more =>
      have hfirst := fits_first hargs (c := raw) rfl
      refine Work.partialResult.bind (Work.partialResult_any _) fun _ _ => ?_
      refine Work.partialResult.bind (Work.partialResult_any _) fun _ _ => ?_
      refine Work.partialResult.bind (Work.partialResult_any _) fun built _ => Work.partialResult.pure ?_
      exact fits_encode hfirst.term built.1 _
  · rename_i hname
    rw [hname]
    exact Work.partialResult_lift fun _ h => fits_applyCategories hargs h
  · refine Work.partialResult.bind (Work.partialResult_lift fun _ h => h) fun term hterm => Work.partialResult.pure ?_
    unfold Standing.ofCall
    dsimp only
    split
    case h_4 hname =>
      unfold plain at hterm
      rw [hname] at hterm
      obtain rfl := Except.ok.inj hterm
      exact ⟨⟨rfl, rfl⟩, fun h => by cases h⟩
    case h_5 hrank =>
      have hscalar := Resolved.isScalarName happlies.builtIn
      rw [if_neg (by rw [hscalar, hrow]; exact Bool.false_ne_true)]
      exact fits_plain hargs happlies hlength hrow hrank hterm
    all_goals contradiction

end Compose

namespace Frame

variable {δ : Type} {f g : Frame}

/-! ## Columns of formulas -/

/-- What is known of each column that is found, and of no other name. -/
def Knows (known : String → Option Standing) (f : Frame) : Prop :=
  ∀ name, Option.Rel Standing.Fits (known name) (f.column? name)

section Formulas

variable [Database δ] {known : String → Option Standing}

omit [Database δ] in
theorem fits_constant {v : Value} {c : Column} (hv : ∀ content, v ≠ .string content) (h : f.literal v = .ok c) :
    (Standing.ofConstant v).Fits c := by
  obtain rfl := literal_ok h
  refine ⟨⟨?_, rfl⟩, fun hnumber => ?_, rfl, fun content hcontent => ?_⟩
  · cases v <;> rfl
  · cases v <;> first | rfl | cases hnumber
  · exact absurd (Option.some.inj hcontent) (hv content)

omit [Database δ] in
theorem fits_quoted {v : Value} {content : String} {c : Column} (hv : v = .string content ∨ v.dataType = .date)
    (h : f.literal v = .ok c) : (Standing.ofQuoted content).Fits c := by
  obtain rfl := literal_ok h
  have hnumber : (Term.literal v).isNumber = false := by
    rcases hv with rfl | hv
    · rfl
    · cases v <;> first | rfl | cases hv
  refine ⟨⟨hnumber, rfl⟩, fun hinteger => absurd hinteger (Bool.eq_false_iff.1 hnumber), rfl, fun text htext => ?_⟩
  obtain rfl := Option.some.inj htext
  rcases hv with hv | hv
  · exact congrArg some (Value.string.inj hv).symm
  · cases hv

omit [Database δ] in
theorem fits_globalize {x : Standing} {c e : Column} (hc : x.Fits c) (h : f.globalize c = .ok e) :
    (Standing.ofGlobal [x]).Fits e := by
  unfold Standing.ofGlobal
  dsimp only
  rw [← hc.constant]
  obtain ⟨-, ⟨hsome, rfl⟩ | ⟨hnone, rfl⟩⟩ := globalize_ok h
  · rwa [if_pos hsome]
  · rw [hnone]
    exact Standing.fits_composed ⟨rfl, rfl⟩ (fun hnumber => by cases hnumber) rfl

/-- An operation over columns of known standings. -/
theorem fits_execute {r : Resolved} {types : List DataType} {standings : List Standing} {args : List Column} (f : Frame)
    (scope : Scope) (happlies : r.Applies types) (hlength : types.length = args.length)
    (hargs : List.Forall₂ Standing.Fits standings args) :
    Work.partialResult.Holds (f.execute r args scope : Work δ Column) (Standing.ofCall r.name standings).Fits := by
  unfold execute
  refine Work.partialResult.bind (Work.partialResult_any _) fun _ _ => ?_
  split
  · rename_i hscalar
    rw [Standing.ofCall_of_isScalar ((Resolved.isScalarName happlies.builtIn).trans hscalar)]
    unfold executeScalar
    split
    · exact Work.partialResult_throw
    · rename_i terms hterms
      refine Work.partialResult.bind (Compose.holds_aggregate f.source happlies hscalar) fun composed hcomposed => ?_
      refine Work.partialResult.pure ?_
      cases scope with
      | rows => exact Standing.fits_composed ⟨rfl, rfl⟩ (fun hnumber => by cases hnumber) rfl
      | groups =>
        have hnumber := Term.isNumber_of_isAggregate hcomposed
        refine Standing.fits_composed ⟨hnumber, Term.isWide_of_isAggregate hcomposed⟩ (fun hinteger => ?_) rfl
        exact absurd hinteger (Bool.eq_false_iff.1 hnumber)
  · rename_i hrow
    have hcomposed := Compose.holds_fits (δ := δ) hargs f.source happlies hlength (Bool.eq_false_iff.2 hrow)
    rw [Standing.ofCall_eq_composed] at hcomposed ⊢
    unfold executeRows
    refine Work.partialResult.bind hcomposed fun composed hcomposed => ?_
    have hfits {c : Column} (hterm : c.term = composed.term) (htype : c.dataType = composed.dataType)
        (hconstant : c.constant = none) : Standing.Fits (.composed _ _) c :=
      Standing.fits_composed (hterm ▸ hcomposed.term) (hterm ▸ htype ▸ hcomposed.stores) hconstant
    split
    · exact Work.partialResult.pure (hfits rfl rfl rfl)
    · split
      · exact Work.partialResult.pure (hfits rfl rfl rfl)
      · exact Work.partialResult.bind (Work.partialResult_any _) fun _ _ => Work.partialResult.pure (hfits rfl rfl rfl)

/-- Formulas over frames with these standings and date patterns. -/
def keying (patterns : List String) (known : String → Option Standing) :
    (backend : Backend (Work δ) Frame Column).Marking Work.partialResult Standing where
  scheme := Standing.scheme
  Good f := f.source.options.datePatterns = patterns ∧ f.Knows known
  token _ := Standing.ofToken patterns known
  Marked _ := Standing.Fits
  accepts _ := trivial
  column? := by
    intro f name c hf hc
    have hc : f.column? name = some c := hc
    have hrel := hf.2 name
    rw [hc] at hrel
    unfold Standing.ofToken
    generalize known name = found at hrel
    cases hrel with
    | some hfits => exact hfits
  constant := by
    intro f name v hf hname hv
    have hname : f.column? name = none := hname
    have hv : Value.ofToken? f.source.options.datePatterns name = some v := hv
    have hrel := hf.2 name
    rw [hname] at hrel
    unfold Standing.ofToken
    generalize known name = found at hrel
    cases hrel
    rw [← hf.1, hv]
    refine Work.partialResult_lift fun _ hc => fits_constant (fun content hcontent => ?_) hc
    exact Value.ofToken?_ne_string (hcontent ▸ hv)
  quoted _ hv := Work.partialResult_lift fun _ hc => fits_quoted hv hc
  rename _ h := ⟨h.term, h.stores, h.constant, h.text⟩
  execute scope _ happlies hlength hargs := fits_execute _ scope happlies hlength hargs
  globalize _ _ hc := Work.partialResult_lift fun _ h => fits_globalize hc h

/-- A columnar formula gives a column of the standing that its form tells. -/
theorem fits_eval (hf : f.Knows known) (e : Expr) (scope : Scope) :
    Work.partialResult.Holds (backend.eval e scope f f : Work δ (Outcome Frame Column)) fun o => ∀ c, o = .column c →
      (e.mark Standing.scheme (.ofToken f.source.options.datePatterns known)
        (.ofToken f.source.options.datePatterns known)).Fits c := by
  rw [Work.partialResult_iff]
  rintro session o ho c rfl
  have hcolumnar := Backend.holds_columnar (E := Work.partialResult) (B := (backend : Backend (Work δ) Frame Column))
    (fun _ => trivial) Work.partialResult_any e scope f f
  have he := Work.partialResult_iff.1 hcolumnar session _ ho c rfl
  have hmarks := Backend.Marking.marks (K := keying (δ := δ) f.source.options.datePatterns known) he scope (f := f)
    (w := f) ⟨rfl, hf⟩ ⟨rfl, hf⟩
  obtain ⟨d, heq, hd⟩ := Work.partialResult_iff.1 hmarks session _ ho
  obtain rfl := Outcome.column.inj heq
  exact hd

end Formulas

/-! ## New frames -/

/-- The columns of the frame are those of a source of its own. -/
structure Plain (f : Frame) : Prop where
  sound : f.Sound
  columns : ∀ c ∈ f.columns, c.term.isColumn = true

theorem plain_ofOutputs (source : Source) (outputs : List Output) : (ofOutputs source outputs).Plain where
  sound := sound_ofOutputs source outputs
  columns := by
    rw [columns_ofOutputs, List.forall_mem_map]
    exact fun _ _ => rfl

theorem Plain.withCategories (hf : f.Plain) (c : Memory.Column) : (f.withCategories c).Plain := by
  refine ⟨hf.sound.withCategories c, ?_⟩
  have hterms : (f.withCategories c).columns.map (fun c => c.term.isColumn) = f.columns.map fun c => c.term.isColumn :=
    map_withCategories (fun _ _ => rfl) f c
  have hall : ∀ isColumn ∈ f.columns.map fun c => c.term.isColumn, isColumn = true := by
    rw [List.forall_mem_map]
    exact hf.columns
  rw [← hterms, List.forall_mem_map] at hall
  exact hall

/-- What is known of the columns of a source: all of them are plain. -/
def plainStandings (f : Frame) (name : String) : Option Standing := (f.column? name).map fun _ => .plain

theorem Plain.knows (hf : f.Plain) : f.Knows f.plainStandings := by
  intro name
  unfold plainStandings
  cases hc : f.column? name with
  | none => exact .none
  | some c =>
    have hmem := (hf.sound.index.mem_of_column? hc).1
    have hterm := hf.columns c hmem
    unfold Term.isColumn at hterm
    split at hterm
    · rename_i column heq
      refine .some (Standing.fits_composed ?_ (fun hnumber => ?_) (hf.sound.constants c hmem))
      · rw [heq]
        exact Standing.describes_column column
      · rw [heq] at hnumber
        cases hnumber
    · cases hterm

variable [Database δ]

theorem Start.plain (h : Start δ f) : f.Plain := by
  cases h with
  | ofStatement h => exact Work.partialResult_iff.1 (holds_ofQuery plain_ofOutputs _ _ _) _ _ h
  | ofTable h => exact Work.partialResult_iff.1 (holds_ofQuery plain_ofOutputs _ _ _) _ _ h
  | load h =>
    exact Work.partialResult_iff.1 (holds_load plain_ofOutputs (fun _ c hf => hf.withCategories c) _ _ _) _ _ h

/-! ## Runs -/

variable (δ) in
/-- Frames over a statement, a table or loaded cells, and what assigning, dropping, sorting, grouping and formulas make of
    them, with what is known of their columns. -/
inductive Known : (String → Option Standing) → Frame → Prop
  | start {f : Frame} (h : Start δ f) : Known f.plainStandings f
  | assign {known : String → Option Standing} {f g : Frame} {text target : String} {formula : Formula}
      {session : Session δ} (hf : Known known f) (htext : Formula.ofText text = .ok formula)
      (htarget : formula.target = some target) (h : (f.assign text session).1 = .ok (g, none)) :
      Known (Function.update known target (some (.ofStored f.source.options.datePatterns known formula.expr))) g
  | drop {known : String → Option Standing} {f g : Frame} {name : String} {c : Column} (hf : Known known f)
      (h : f.drop name = .ok (c, g)) : Known (Function.update known name none) g
  | sort {known : String → Option Standing} {f g : Frame} {ascending : Bool} {keys : List String}
      {session : Session δ} (hf : Known known f) (h : (f.sort ascending keys session).1 = .ok g) :
      Known g.plainStandings g
  | group {known : String → Option Standing} {f g : Frame} {keys : List String} {formulas : List (String × Expr)}
      {session : Session δ} (hf : Known known f) (h : (f.group keys (formulas.map backend.reducer) session).1 = .ok g) :
      Known g.plainStandings g
  | formula {known : String → Option Standing} {f g : Frame} {text : String} {formula : Formula}
      {session after : Session δ} {result : Evaluated Frame Column} (hf : Known known f)
      (htext : Formula.ofText text = .ok formula) (h : f.Gives text session result after)
      (hg : result.outcome = .frame g) : Known g.plainStandings g

/-- The frame is sound, and the standings of its columns are known. -/
structure Keyed (known : String → Option Standing) (f : Frame) : Prop where
  sound : f.Sound
  knows : f.Knows known

section Steps

variable {known : String → Option Standing}

omit [Database δ] in
theorem Plain.keyed (hf : f.Plain) : f.Keyed f.plainStandings := ⟨hf.sound, hf.knows⟩

omit [Database δ] in
/-- A column that is added is found under its name, and is no constant any more. -/
theorem Keyed.append (hf : f.Keyed known) {x : Standing} {c : Column} (hc : x.Fits c) (h : f.append c = .ok g) :
    g.Keyed (Function.update known c.name (some (.composed x.number x.wide))) := by
  refine ⟨hf.sound.append h, fun name => ?_⟩
  obtain ⟨-, rfl⟩ := append_ok h
  change Option.Rel _ _ ((f.set.push c.name { c with constant := none }).column? name)
  rw [hf.sound.index.column?_push]
  by_cases hname : name = c.name
  · rw [hname, Function.update_self, if_pos rfl]
    exact .some (Standing.fits_composed ⟨hc.term.number, hc.term.wide⟩ hc.stores rfl)
  · rw [Function.update_of_ne hname, if_neg hname]
    exact hf.knows name

omit [Database δ] in
theorem Keyed.drop (hf : f.Keyed known) {name : String} {c : Column} (h : f.drop name = .ok (c, g)) :
    g.Keyed (Function.update known name none) := by
  refine ⟨hf.sound.drop h, fun other => ?_⟩
  obtain ⟨set, hremove, rfl⟩ := drop_ok h
  change Option.Rel _ _ (set.column? other)
  rw [hf.sound.index.column?_remove hremove]
  by_cases hother : other = name
  · rw [hother, Function.update_self, if_pos rfl]
    exact .none
  · rw [Function.update_of_ne hother, if_neg hother]
    exact hf.knows other

theorem Keyed.assign (hf : f.Keyed known) {text target : String} {formula : Formula} {session : Session δ}
    (htext : Formula.ofText text = .ok formula) (htarget : formula.target = some target)
    (h : (f.assign text session).1 = .ok (g, none)) :
    g.Keyed (Function.update known target (some (.ofStored f.source.options.datePatterns known formula.expr))) := by
  have hassigned := Backend.holds_assigned (E := Work.partialResult) (B := (backend : Backend (Work δ) Frame Column))
    (R := fun c g => f.append c = .ok g) (fun _ => trivial) (fun e => fits_eval hf.knows e .rows)
    (fun _ => Work.partialResult_lift fun _ h => h) text
  obtain ⟨formula', target', c, htext', htarget', hc, happend⟩ := Work.partialResult_iff.1 hassigned _ _ h rfl
  obtain rfl := Except.ok.inj (htext.symm.trans htext')
  obtain rfl := Option.some.inj (htarget.symm.trans htarget')
  exact hf.append (c := c.rename target) ⟨hc.term, hc.stores, hc.constant, hc.text⟩ happend

end Steps

/-- Along a run the columns are what is known of them. -/
theorem Known.keyed {known : String → Option Standing} (h : Known δ known f) : f.Keyed known := by
  induction h with
  | start h => exact h.plain.keyed
  | assign _ htext htarget h ih => exact ih.assign htext htarget h
  | drop _ h ih => exact ih.drop h
  | sort _ h => exact (Work.partialResult_iff.1 (holds_sort plain_ofOutputs _ _ _) _ _ h).keyed
  | group _ h => exact (Work.partialResult_iff.1 (holds_group plain_ofOutputs _ _ _) _ _ h).keyed
  | formula _ htext h hg =>
    exact (h.frame (P := fun _ => Plain) (holds_sort plain_ofOutputs _) (fun _ _ => holds_group plain_ofOutputs _ _ _)
      htext hg).keyed

/-! ## Grouping -/

/-- The frame is over groups of the terms that the other one has for the keys. -/
def GroupedBy (f : Frame) (keys : List String) (g : Frame) : Prop :=
  ∃ fields groupBy, g.source.query = f.source.select fields groupBy ∧
    List.Forall₂ (fun key t => ∃ c, f.column? key = some c ∧ c.term = t) keys groupBy

omit [Database δ] in
theorem holds_group_groupedBy (f : Frame) (keys : List String) (reducers : List (Reducer (Work δ) Frame Column)) :
    Work.partialResult.Holds (f.group keys reducers) (f.GroupedBy keys) := by
  refine Work.partialResult.mono (holds_group_keyed keys f reducers) fun g hg => ?_
  obtain ⟨keyed, reduced, ⟨mark, order, outputs, rfl⟩, hkeyed⟩ := hg
  refine ⟨keyed ++ reduced, keyed.map Field.term, rfl, List.forall₂_map_right_iff.2 (hkeyed.imp fun key field h => ?_)⟩
  obtain ⟨c, hc, rfl⟩ := h
  exact ⟨c, hc, rfl⟩

omit [Database δ] in
theorem groupedBy_none (ascending : Bool) (keys : List String) :
    Work.partialResult.Holds (f.sort ascending keys : Work δ Frame) fun g =>
      ∀ keys ∈ (none : Option (List String)), f.GroupedBy keys g :=
  Work.partialResult.mono (Work.partialResult_any _) fun _ _ _ hnone => by cases hnone

/-- Whichever way a frame is grouped, its source is the statement of the groups. -/
theorem Step.groupedBy {keys : List String} (h : Step δ f (some keys) g) : f.GroupedBy keys g := by
  generalize hkeys : some keys = keys? at h
  cases h with
  | group h =>
    obtain rfl := Option.some.inj hkeys
    exact Work.partialResult_iff.1 (holds_group_groupedBy f _ _) _ _ h
  | formula htext h hg =>
    have hgroup : ∀ keys (formulas : List (String × Expr)), Work.partialResult.Holds
        (f.group keys (formulas.map backend.reducer) : Work δ Frame) fun g => ∀ found ∈ some keys, f.GroupedBy found g :=
      fun keys formulas => Work.partialResult.mono (holds_group_groupedBy f keys _) fun g hg found hfound =>
        Option.mem_some_iff.1 hfound ▸ hg
    exact h.frame (P := fun keys? g => ∀ keys ∈ keys?, f.GroupedBy keys g) groupedBy_none hgroup htext hg keys hkeys.symm
  | _ => cases hkeys

/-- Along every run of assigning, dropping, sorting, grouping and formulas from a statement, a table or loaded cells: a
    call of `by` that is accepted groups by one term for each key, which is what is known of the column of the key. So all
    of them can be keys of groups if the forms of the formulas behind them leave no doubt, and not if they tell of one
    that it is written as a bare integer or that it needs the rows around it. -/
theorem Known.group_terms_isKey {known : String → Option Standing} (h : Known δ known f) {keys : List String}
    (hg : Step δ f (some keys) g) :
    ∃ fields groupBy, g.source.query = f.source.select fields groupBy ∧
      List.Forall₂ (fun key t => ∃ x, known key = some x ∧ x.Describes t) keys groupBy ∧
      ∀ d, ((∀ key ∈ keys, ∀ x ∈ known key, x.number = .no ∧ x.wide = .no) → ∀ t ∈ groupBy, t.IsKey d) ∧
        ((∀ t ∈ groupBy, t.IsKey d) → ∀ key ∈ keys, ∀ x ∈ known key, x.number ≠ .yes ∧ x.wide ≠ .yes) := by
  obtain ⟨fields, groupBy, hquery, hterms⟩ := hg.groupedBy
  have hdescribed : List.Forall₂ (fun key t => ∃ x, known key = some x ∧ x.Describes t) keys groupBy := by
    refine hterms.imp fun key t ht => ?_
    obtain ⟨c, hc, rfl⟩ := ht
    have hrel := h.keyed.knows key
    rw [hc] at hrel
    generalize known key = found at hrel
    cases hrel with
    | some hfits => exact ⟨_, rfl, hfits.term⟩
  refine ⟨fields, groupBy, hquery, hdescribed, fun d => ⟨fun hclean t ht => ?_, fun hkeys key hkey x hx => ?_⟩⟩
  · obtain ⟨key, hkey, x, hx, hdescribes⟩ := exists_of_mem_forall₂ hdescribed ht
    obtain ⟨hnumber, hwide⟩ := hclean key hkey x hx
    exact hdescribes.isKey hnumber hwide d
  · obtain ⟨t, ht, x', hx', hdescribes⟩ := exists_of_mem_forall₂ hdescribed.flip hkey
    obtain rfl := Option.some.inj (hx'.symm.trans hx)
    exact hdescribes.of_isKey (hkeys t ht)

/-- A zero that was assigned to a column is written into `GROUP BY` as it is. -/
theorem Known.group_terms_isKey_zero :
    let text := Formula.text ⟨some "z", .leaf "0"⟩
    let session : Session Store := ⟨⟨[⟨"t", [⟨"x", "INTEGER"⟩], [[.integer 1], [.integer 2], [.integer 3]]⟩]⟩, 0⟩
    ∃ (table f g : Frame) (known : String → Option Standing), Start Store table ∧
      (table.assign text session).1 = .ok (f, none) ∧ Known Store known f ∧ known "z" = some (.composed .yes .no) ∧
      (f.group ["z"] ([("n", .call "count" [.leaf "x"])].map backend.reducer) session).1 = .ok g ∧
      g.source.query.text .sqlite = "WITH _src0 AS (SELECT * FROM \"t\") " ++
        "SELECT 0 AS \"z\", count(\"x\") AS \"n\" FROM _src0 GROUP BY 0" ∧
      ∃ fields groupBy, g.source.query = f.source.select fields groupBy ∧ ¬∀ t ∈ groupBy, t.IsKey .sqlite := by
  intro text session
  let table := ofOutputs ⟨0, .sqlite, .table "t", 0, none, .default⟩ [⟨"x", .integer, none⟩]
  have htable : Start Store table := .ofTable (show (Frame.ofTable .sqlite "t" .default session).1 = .ok table from rfl)
  have htext : Formula.ofText text = .ok ⟨some "z", .leaf "0"⟩ :=
    Formula.ofText_text_target (by decide) (by decide +kernel) (by unfold Expr.Unassigning; decide)
  obtain ⟨f, g, hf, hg, hquery⟩ : ∃ f g, (table.assign text session).1 = .ok (f, none) ∧
      (f.group ["z"] ([("n", .call "count" [.leaf "x"])].map backend.reducer) session).1 = .ok g ∧
      g.source.query.text .sqlite = "WITH _src0 AS (SELECT * FROM \"t\") " ++
        "SELECT 0 AS \"z\", count(\"x\") AS \"n\" FROM _src0 GROUP BY 0" := by
    unfold Frame.assign Backend.assign
    rw [htext]
    exact ⟨_, _, rfl, rfl, by decide +kernel⟩
  have hknown : Known Store _ f := .assign (.start htable) htext rfl hf
  have hz : Standing.ofStored Options.default.datePatterns table.plainStandings (.leaf "0") = .composed .yes .no := by
    decide +kernel
  obtain ⟨fields, groupBy, hgroups, -, hkeys⟩ := hknown.group_terms_isKey (.group hg)
  refine ⟨table, f, g, _, htable, hf, hknown, ?_, hg, hquery, fields, groupBy, hgroups, fun hall => ?_⟩
  · exact (Function.update_self ..).trans (congrArg some hz)
  · have hnumber := ((hkeys .sqlite).2 hall "z" List.mem_cons_self _ (Function.update_self ..)).1
    exact hnumber (congrArg Standing.number hz)

end Frame

end Tabular.Sql
