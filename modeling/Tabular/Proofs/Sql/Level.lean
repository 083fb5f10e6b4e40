-- SUMMARY: What terms need of the rows around them, and which of them are written as bare integers.
import Tabular.Proofs.Sql.Literal
import Tabular.Proofs.Sql.Nesting
import Tabular.Sql.Level

/-!
# Levels of composed terms

A key of `GROUP BY` has to be on the level of rows, and a bare integer is no key: a database takes it for the place of an
output column. Of a composed term both are told by the operation and by the terms of its operands. Only a conversion that
leaves its operand as it is, and a choice among no categories, are written as integers without being literals.
-/

namespace Tabular

/-! ## Integers -/

namespace Decimal

theorem isDigit_of_natural? {s : List Char} {n : Nat} (h : natural? s = some n) : ∀ c ∈ s, c.isDigit = true := by
  unfold natural? at h
  split at h
  · cases h
  · rename_i hdigits
    rw [Bool.or_eq_true, not_or, Bool.not_eq_true'] at hdigits
    simpa using hdigits.2

/-- A whole number is written with digits and signs alone. -/
theorem chars_of_wholeNumber? {s : List Char} {n : Int} (h : wholeNumber? s = some n) :
    ∀ c ∈ s, c.isDigit = true ∨ c = '-' ∨ c = '+' := by
  obtain ⟨_, hdigits, -⟩ := Option.map_eq_some_iff.1 h
  obtain ⟨digits, hdigits, -⟩ := Option.bind_eq_some_iff.1 hdigits
  have hdigit := isDigit_of_natural? hdigits
  intro c hc
  split at hdigit
  · rcases List.mem_cons.1 hc with rfl | hc
    · exact .inr (.inl rfl)
    · exact .inl (hdigit c hc)
  · rcases List.mem_cons.1 hc with rfl | hc
    · exact .inr (.inr rfl)
    · exact .inl (hdigit c hc)
  · exact .inl (hdigit c hc)

end Decimal

namespace Sql

/-- Whether a fragment is a bare integer. -/
def Spelling.isInteger (a : Fragment) : Bool := (Decimal.wholeNumber? a.toList).isSome

/-- Whether a fragment has other characters than digits and signs. -/
def Spelling.isForeign (a : Fragment) : Bool := a.toList.any fun c => !(c.isDigit || c == '-' || c == '+')

theorem Spelling.isForeign_append (a b : Fragment) : isForeign (a ++ b) = (isForeign a || isForeign b) := by
  rw [isForeign, String.toList_append, List.any_append]
  rfl

theorem Spelling.isInteger_of_isForeign {a : Fragment} (h : isForeign a = true) : isInteger a = false := by
  unfold isInteger
  rw [Option.isSome_eq_false_iff, Option.isNone_iff_eq_none]
  by_contra hsome
  obtain ⟨n, hn⟩ := Option.ne_none_iff_exists'.1 hsome
  obtain ⟨c, hc, hforeign⟩ := List.any_eq_true.1 h
  have hchar := Decimal.chars_of_wholeNumber? hn c hc
  simp only [Bool.not_eq_true', Bool.or_eq_false_iff, beq_eq_false_iff_ne] at hforeign
  obtain ⟨⟨hdigit, hminus⟩, hplus⟩ := hforeign
  rcases hchar with hc | hc | hc
  · simp [hdigit] at hc
  · exact hminus hc
  · exact hplus hc

/-- What ends with a parenthesis or a word is no integer. -/
theorem Spelling.isInteger_append (a : Fragment) {b : Fragment} (h : isForeign b = true) :
    isInteger (a ++ b) = false :=
  isInteger_of_isForeign (by rw [isForeign_append, h, Bool.or_true])

theorem Spelling.isInteger_quoted {q : Char} (s : String) (h : isForeign (String.singleton q) = true) :
    isInteger (Text.quoted q s) = false := by
  refine isInteger_of_isForeign ?_
  have hq : (!(q.isDigit || q == '-' || q == '+')) = true := by simpa [isForeign] using h
  rw [isForeign, Text.quoted, String.toList_ofList, List.cons_append, List.any_cons, hq, Bool.true_or]

theorem Spelling.isInteger_integer (n : Int64) : isInteger (literal (.integer n)) = true := by
  rw [isInteger, literal, Value.text, Decimal.wholeNumber?_text]
  rfl

/-- A float shows by a point, by an exponent or by being a word that it is no integer. -/
theorem Spelling.isInteger_float (x : Float) : isInteger (literal (.float x)) = false := by
  have hmagnitude : '.' ∈ Decimal.Layout.tagged.magnitude x ∨ 'e' ∈ Decimal.Layout.tagged.magnitude x := by
    unfold Decimal.Layout.magnitude
    dsimp only
    split
    · exact .inl (by decide)
    · split
      · refine .inr ?_
        unfold Decimal.Layout.scientificText
        exact List.mem_append_right _ List.mem_cons_self
      · refine .inl ?_
        unfold Decimal.Layout.positional
        split
        · exact List.mem_append_right _ (by decide)
        · dsimp only
          split <;> simp
  refine isInteger_of_isForeign ?_
  change isForeign (Decimal.Layout.tagged.text x) = true
  unfold Decimal.Layout.text
  split
  · decide
  · have hsize : ∃ c ∈ if x.isInf then ['i', 'n', 'f'] else Decimal.Layout.tagged.magnitude x,
        (!(c.isDigit || c == '-' || c == '+')) = true := by
      split
      · exact ⟨'i', by decide, by decide⟩
      · rcases hmagnitude with h | h
        · exact ⟨'.', h, by decide⟩
        · exact ⟨'e', h, by decide⟩
    obtain ⟨c, hc, hforeign⟩ := hsize
    rw [isForeign, String.toList_ofList]
    refine List.any_eq_true.2 ⟨c, ?_, hforeign⟩
    split
    · exact List.mem_cons_of_mem _ hc
    · exact hc

namespace Term

/-- Whether the term is written as a bare integer. -/
def isNumber : Term → Bool
  | .literal (.integer _) => true
  | .convert .same operand => operand.isNumber
  | .case [] _ otherwise => otherwise.isNumber
  | _ => false

theorem isInteger_text (d : Dialect) (t : Term) : Spelling.isInteger (t.text d) = t.isNumber := by
  cases t with
  | column name => exact Spelling.isInteger_quoted name (by decide)
  | literal value =>
    cases value with
    | null => exact Spelling.isInteger_of_isForeign (a := "NULL") (by decide)
    | integer n => exact Spelling.isInteger_integer n
    | float x => exact Spelling.isInteger_float x
    | string s => exact Spelling.isInteger_quoted s (by decide)
    | date date =>
      rw [text, literal_date]
      exact Spelling.isInteger_quoted _ (by decide)
  | convert how operand =>
    cases how with
    | same => exact isInteger_text d operand
    | _ => exact Spelling.isInteger_append _ (by decide)
  | compare how left right => exact Spelling.isInteger_append _ (by decide)
  | case conditions values otherwise =>
    cases conditions with
    | nil => exact isInteger_text d otherwise
    | cons condition more => exact Spelling.isInteger_append _ (by decide)
  | call function args =>
    rw [text]
    cases function <;> exact Spelling.isInteger_append _ (by decide)
  | rowNumber order =>
    rw [text]
    cases order with
    | none => exact Spelling.isInteger_of_isForeign (a := "(ROW_NUMBER() OVER () - 1)") (by decide)
    | some order => exact Spelling.isInteger_append _ (by decide)
  | quantile operand level =>
    rw [text]
    exact Spelling.isInteger_append _ (by decide)
  | broadcast aggregate =>
    rw [text]
    exact Spelling.isInteger_append _ (by decide)
  | overSource aggregate source =>
    rw [text]
    exact Spelling.isInteger_append _ (by decide)
  | overGroup aggregate source keys =>
    rw [text]
    exact Spelling.isInteger_append _ (by decide)

/-- Whether the term needs the rows around it: there is an aggregate or a window function in it, outside of subqueries. -/
def isWide (t : Term) : Bool := t.any fun part => part.isAggregate || part.isWindow

theorem isRowLevel_eq (t : Term) : t.isRowLevel = !t.isWide := rfl

theorem anyOf_eq_any (test : Term → Bool) (terms : List Term) : anyOf test terms = terms.any (any test) := by
  induction terms with
  | nil => rfl
  | cons t more ih => rw [anyOf, ih, List.any_cons]

@[simp] theorem isWide_convert (how : Conversion) (t : Term) : (convert how t).isWide = t.isWide := rfl

@[simp] theorem isWide_compare (how : Comparison) (left right : Term) :
    (compare how left right).isWide = (left.isWide || right.isWide) := rfl

@[simp] theorem isWide_case (conditions values : List Term) (otherwise : Term) :
    (case conditions values otherwise).isWide =
      (conditions.any isWide || values.any isWide || otherwise.isWide) := by
  rw [isWide, any, anyOf_eq_any, anyOf_eq_any]
  rfl

@[simp] theorem isWide_call (f : Function) (args : List Term) :
    (call f args).isWide = (f.isAggregate || args.any isWide) := by
  rw [isWide, any, anyOf_eq_any]
  exact congrArg (· || args.any isWide) (Bool.or_false _)

theorem isWide_of_isAggregate {t : Term} (h : t.isAggregate = true) : t.isWide = true := by
  cases t with
  | call f args =>
    rw [isWide_call]
    exact Bool.or_eq_true_iff.2 (.inl h)
  | quantile operand level => rfl
  | _ => cases h

theorem isNumber_of_isAggregate {t : Term} (h : t.isAggregate = true) : t.isNumber = false := by
  cases t with
  | call f args => rfl
  | quantile operand level => rfl
  | _ => cases h

end Term

/-! ## Operations -/

theorem Function.isAggregate_of_mem {name : String} {arity : Nat} {f : Function} (h : named? name arity = some f)
    (hname : name ∈ aggregateNames) : f.isAggregate = true := by
  unfold named? at h
  split at h
  all_goals first | (obtain rfl := Option.some.inj h; revert hname; decide) | cases h

theorem mem_aggregateNames_of_isScalar {op : Resolved} (hbuiltIn : op.operation ∈ Operation.builtIn)
    (h : op.isScalar = true) : op.name ∈ aggregateNames := by
  have hname : ∀ operation ∈ Operation.builtIn, operation.scalar = true → operation.name ∈ aggregateNames := by
    decide
  exact hname _ hbuiltIn h

end Sql

/-- How many operands comparisons and choices have. -/
theorem Operation.arity_builtIn :
    ∀ operation ∈ builtIn, ∀ signature ∈ operation.signatures,
      ((Sql.Comparison.named? operation.name).isSome = true → operation.variadic = none ∧ signature.inputs.length = 2) ∧
        (operation.name = "if" → operation.variadic = none ∧ signature.inputs.length = 3) := by
  decide

/-- Without a slot for more there are as many operands as the signature has slots. -/
theorem Resolved.Applies.length_eq {r : Resolved} {types : List DataType} (h : r.Applies types)
    (hvariadic : r.operation.variadic = none) : types.length = r.signature.inputs.length := by
  have haccepts := h.accepts
  simp only [Signature.accepts, hvariadic, Bool.and_eq_true, decide_eq_true_eq, List.isEmpty_iff,
    List.drop_eq_nil_iff] at haccepts
  exact Nat.le_antisymm haccepts.2 haccepts.1.1

namespace Sql

/-- What is stored as integers stays as it is only if it is converted to what is stored so too. -/
theorem Dialect.conversion_same {d : Dialect} {source target : DataType} {how : Conversion}
    (h : d.conversion source target = .ok how) (hsource : source.storage = .integer) :
    how = .same ↔ target.storage = .integer := by
  unfold conversion at h
  rw [hsource] at h
  split at h
  · rename_i hstorage
    exact iff_of_true (Except.ok.inj h).symm hstorage.symm
  · rename_i hstorage
    refine iff_of_false ?_ (Ne.symm hstorage)
    rintro rfl
    split at h
    · obtain ⟨type, -, h⟩ := map_eq_ok.1 h
      cases h
    · split at h
      all_goals first | contradiction | cases h

namespace Compose

variable {d : Dialect} {s : Source} {op : Resolved} {operands : List Operand} {term : Term}

/-- A conversion is as wide as its operand. -/
theorem isWide_of_convert {raw : Term} {source target : DataType} (h : convert d raw source target = .ok term) :
    term.isWide = raw.isWide := by
  obtain ⟨how, -, h⟩ := bind_eq_ok.1 h
  split at h
  · rw [Except.ok.inj h]
  · obtain rfl := Except.ok.inj h
    exact Term.isWide_convert how raw

/-- A conversion gives no integer but one that stays as it is. -/
theorem isNumber_of_convert {raw : Term} {source target : DataType} (h : convert d raw source target = .ok term)
    (hraw : raw.isNumber = true → source.storage = .integer) :
    term.isNumber = (raw.isNumber && target.storage == .integer) := by
  obtain ⟨how, hhow, h⟩ := bind_eq_ok.1 h
  cases hnumber : raw.isNumber with
  | false =>
    split at h
    · exact Except.ok.inj h ▸ hnumber
    · obtain rfl := Except.ok.inj h
      cases how with
      | same => contradiction
      | _ => rfl
  | true =>
    have hsame := Dialect.conversion_same hhow (hraw hnumber)
    split at h
    · rw [hsame.1 rfl]
      exact Except.ok.inj h ▸ hnumber
    · rename_i hother
      obtain rfl := Except.ok.inj h
      have hstorage : target.storage ≠ .integer := fun hstorage => hother (hsame.2 hstorage)
      rw [beq_eq_false_iff_ne.2 hstorage]
      cases how with
      | same => contradiction
      | _ => rfl

theorem call_ok {name : String} {terms : List Term} (h : call d name terms = .ok term) :
    ∃ f, Function.named? name terms.length = some f ∧ term = .call f terms := by
  obtain ⟨f, hf, h⟩ := bind_eq_ok.1 h
  unfold Dialect.function at hf
  split at hf
  · rename_i found hfound
    obtain rfl := Except.ok.inj hf
    exact ⟨found, hfound, (Except.ok.inj h).symm⟩
  · cases hf

/-- A choice among the codes of categories is as wide as what is encoded, if there are any. -/
theorem isWide_encode {raw : Term} {map : CategoryMap} {default : Int64}
    (h : (encode raw map default).isWide = true) : raw.isWide = true := by
  rw [encode, Term.isWide_case] at h
  simp only [Bool.or_eq_true, List.any_map, List.any_eq_true] at h
  rcases h with (⟨_, -, h⟩ | ⟨_, -, h⟩) | h
  · exact (Bool.or_false _).symm.trans h
  · cases h
  · cases h

theorem isWide_floats {terms : List Term} (h : floats d operands = .ok terms) :
    terms.any Term.isWide = operands.any (·.2.isWide) := by
  have hwide : terms.map Term.isWide = operands.map (·.2.isWide) :=
    map_of_mapM h fun _ _ _ hconvert => isWide_of_convert hconvert
  have hany := congrArg (List.any · id) hwide
  simpa only [List.any_map, Function.id_comp] using hany

section Plain

variable {types : List DataType} (happlies : op.Applies types) (hlength : types.length = operands.length)

include happlies

/-- An aggregate is composed of a call of one. -/
theorem isAggregate_plain (hscalar : op.isScalar = true) (h : plain s op operands = .ok term) :
    term.isAggregate = true := by
  have hname := mem_aggregateNames_of_isScalar happlies.builtIn hscalar
  have hcall : ∀ {name terms}, name ∈ aggregateNames → call s.dialect name terms = .ok term → term.isAggregate = true := by
    intro name terms hname h
    obtain ⟨f, hf, rfl⟩ := call_ok h
    exact Function.isAggregate_of_mem hf hname
  unfold plain at h
  split at h
  case h_6 =>
    obtain ⟨_, -, h⟩ := bind_eq_ok.1 h
    obtain ⟨_, -, h⟩ := bind_eq_ok.1 h
    obtain ⟨_, -, h⟩ := bind_eq_ok.1 h
    obtain ⟨_, -, h⟩ := bind_eq_ok.1 h
    exact Except.ok.inj h ▸ rfl
  case h_7 =>
    split at h
    · rename_i hcomparison
      have hnone : ∀ name ∈ aggregateNames, (Comparison.named? name).isSome = false := by decide
      rw [hnone _ hname] at hcomparison
      cases hcomparison
    · exact hcall hname h
  all_goals
    rename_i heq
    rw [heq] at hname
    exact absurd hname (by decide)

include hlength

/-- What is no aggregate and no numbering is no integer, and as wide as its operands are. -/
theorem level_plain (hrow : op.isScalar = false) (hname : op.name ≠ "row_number") (h : plain s op operands = .ok term) :
    term.isNumber = false ∧ term.isWide = operands.any (·.2.isWide) := by
  obtain ⟨hcomparison, hchoice⟩ := Operation.arity_builtIn _ happlies.builtIn _ happlies.signature
  have hcall : ∀ {name terms}, (name ∈ aggregateNames → op.isScalar = true) → call s.dialect name terms = .ok term →
      term.isNumber = false ∧ term.isWide = terms.any Term.isWide := by
    intro name terms hname h
    obtain ⟨f, hf, rfl⟩ := call_ok h
    refine ⟨rfl, ?_⟩
    have hplain : f.isAggregate = false :=
      Bool.eq_false_iff.2 fun hf' => Bool.false_ne_true (hrow.symm.trans (hname (Function.mem_aggregateNames hf hf')))
    rw [Term.isWide_call, hplain, Bool.false_or]
  have hother : ∀ {name}, name ∉ aggregateNames → name ∈ aggregateNames → op.isScalar = true :=
    fun hnot hname => absurd hname hnot
  have hop := isScalar_of_mem_aggregateNames happlies.builtIn
  unfold plain at h
  split at h
  · rename_i heq
    exact absurd heq hname
  · obtain ⟨terms, hfloats, h⟩ := bind_eq_ok.1 h
    rw [← isWide_floats hfloats]
    exact hcall (hother (by decide)) h
  · obtain ⟨terms, hfloats, h⟩ := bind_eq_ok.1 h
    rw [← isWide_floats hfloats]
    exact hcall (hother (by decide)) h
  · have h := hcall (hother (by split <;> decide)) h
    rwa [List.any_map] at h
  · rename_i heq
    obtain ⟨hvariadic, hinputs⟩ := hchoice heq
    obtain ⟨condition, consequence, alternative, rfl⟩ :=
      List.length_eq_three.1 (hlength.symm.trans ((happlies.length_eq hvariadic).trans hinputs))
    obtain rfl := Except.ok.inj h
    refine ⟨rfl, ?_⟩
    have hzero : (integer 0).isWide = false := rfl
    simp [hzero, Bool.or_assoc]
  · rename_i heq
    rw [hop (by rw [heq]; decide)] at hrow
    cases hrow
  · split at h
    · rename_i hsome
      obtain ⟨hvariadic, hinputs⟩ := hcomparison hsome
      obtain ⟨left, right, rfl⟩ :=
        List.length_eq_two.1 (hlength.symm.trans ((happlies.length_eq hvariadic).trans hinputs))
      have h : (s.dialect.comparison op.name >>= fun how => pure (.compare how left.2 right.2)) = .ok term := h
      obtain ⟨how, -, h⟩ := bind_eq_ok.1 h
      obtain rfl := Except.ok.inj h
      refine ⟨rfl, ?_⟩
      simp
    · have h := hcall hop h
      rwa [List.any_map] at h

end Plain

/-- An aggregate is composed as a call of one. -/
theorem holds_aggregate {δ : Type} [Database δ] (s : Source) {types : List DataType} (happlies : op.Applies types)
    (hscalar : op.isScalar = true) :
    Work.partialResult.Holds (operation s op operands : Work δ Composed) fun composed =>
      composed.term.isAggregate = true := by
  have hname := mem_aggregateNames_of_isScalar happlies.builtIn hscalar
  unfold operation
  split
  case h_4 =>
    refine Work.partialResult.bind (Work.partialResult_lift fun _ h => h) fun term hterm => Work.partialResult.pure ?_
    exact isAggregate_plain happlies hscalar hterm
  all_goals
    rename_i heq
    rw [heq] at hname
    exact absurd hname (by decide)

end Compose

end Sql

end Tabular
