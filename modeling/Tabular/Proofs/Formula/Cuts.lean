-- SUMMARY: Cutting a text: the operands between its operators, and the operand behind its signs.
import Tabular.Proofs.Formula.Precedence
import Tabular.Proofs.Formula.Segments

/-!
# Cuts

A text with operators is cut at those of one level that do not lead, the loosest that occurs; a sign that does not lead
is always cut at, since no level is looser than that of sums (`Chain.loosest?_of_sign`). Each operand is put together of
what stands between two cuts. Where all operators lead nothing is cut at, and they are the signs of what stands behind
them, however many of them are taken off at once (`Expr.toOption_parse_leading`).
-/

namespace Tabular

namespace Chain

/-! ## Cutting at one level -/

/-- The operator is one that a text is cut at. -/
def CutsAt (level : Nat) (o : Occurrence) (op : BinaryOp) : Prop :=
  o.symbol = .binary op ∧ o.leads = false ∧ op.level = level

theorem cut_cons {level : Nat} {o : Occurrence} {op : BinaryOp} (h : CutsAt level o op) (last : List Char)
    (more : List Occurrence) : cut level last (o :: more) =
      ⟨o.before, (op, (cut level last more).first) :: (cut level last more).links⟩ := by
  obtain ⟨hsymbol, hleads, hlevel⟩ := h
  simp [cut, hsymbol, hleads, hlevel]

theorem cut_cons_of_not {level : Nat} {o : Occurrence} (h : ∀ op, ¬CutsAt level o op) (last : List Char)
    (more : List Occurrence) : cut level last (o :: more) =
      ⟨o.chars ++ (cut level last more).first, (cut level last more).links⟩ := by
  cases hsymbol : o.symbol with
  | bang => simp [cut, hsymbol]
  | binary op =>
    have hnot : (!o.leads && op.level == level) = false := by
      apply Bool.eq_false_iff.2
      intro hcut
      simp only [Bool.and_eq_true, Bool.not_eq_true', beq_iff_eq] at hcut
      exact h op ⟨hsymbol, hcut⟩
    simp [cut, hsymbol, hnot]

theorem cutsAt_or_not (level : Nat) (o : Occurrence) : (∃ op, CutsAt level o op) ∨ ∀ op, ¬CutsAt level o op :=
  (Classical.em _).imp_right not_exists.1

/-- A cut falls into what is in front of an operator that is cut at, and what is behind it. -/
theorem cut_append {level : Nat} {o : Occurrence} {op : BinaryOp} (h : CutsAt level o op) (last : List Char)
    (pre post : List Occurrence) : cut level last (pre ++ o :: post) =
      ⟨(cut level o.before pre).first, (cut level o.before pre).links ++
        (op, (cut level last post).first) :: (cut level last post).links⟩ := by
  induction pre with
  | nil => simp [cut_cons h, cut]
  | cons p pre ih =>
    rcases cutsAt_or_not level p with ⟨op', hp⟩ | hp
    · rw [List.cons_append, cut_cons hp, cut_cons hp, ih, List.cons_append]
    · rw [List.cons_append, cut_cons_of_not hp, cut_cons_of_not hp, ih]

/-- The last operand holds the last operators and what is behind them. -/
theorem cut_last (level : Nat) (last : List Char) (found : List Occurrence) :
    (cut level last found).links = [] ∨
      ∃ pre seg op, found = pre ++ seg ∧ (op, joined seg last) ∈ (cut level last found).links := by
  induction found with
  | nil => exact .inl rfl
  | cons o more ih =>
    have hchars := chars_cut level last more
    rcases cutsAt_or_not level o with ⟨op, ho⟩ | ho
    · rw [cut_cons ho]
      refine .inr ?_
      rcases ih with hnil | ⟨pre, seg, op', rfl, hmem⟩
      · -- No operator is cut at behind this one, so its operand is all that follows.
        refine ⟨[o], more, op, rfl, List.mem_cons.2 (.inl ?_)⟩
        simp only [chars, hnil, List.flatMap_nil, List.append_nil] at hchars
        rw [hchars]
      · exact ⟨o :: pre, seg, op', rfl, List.mem_cons_of_mem _ hmem⟩
    · rw [cut_cons_of_not ho]
      rcases ih with hnil | ⟨pre, seg, op', rfl, hmem⟩
      · exact .inl hnil
      · exact .inr ⟨o :: pre, seg, op', rfl, hmem⟩

/-- An operand behind an operator is the beginning of what stands behind it. -/
theorem exists_behind_of_link {level : Nat} {last text : List Char} {found : List Occurrence} {op : BinaryOp}
    (h : (op, text) ∈ (cut level last found).links) :
    ∃ pre post after, found = pre ++ post ∧ joined post last = text ++ after := by
  induction found with
  | nil => simp [cut] at h
  | cons o more ih =>
    rcases cutsAt_or_not level o with ⟨op', ho⟩ | ho
    · rw [cut_cons ho] at h
      rcases List.mem_cons.1 h with heq | h
      · obtain ⟨rfl, rfl⟩ := Prod.mk.inj heq
        exact ⟨[o], more, _, rfl, (chars_cut level last more).symm⟩
      · obtain ⟨pre, post, after, rfl, hafter⟩ := ih h
        exact ⟨o :: pre, post, after, rfl, hafter⟩
    · rw [cut_cons_of_not ho] at h
      obtain ⟨pre, post, after, rfl, hafter⟩ := ih h
      exact ⟨o :: pre, post, after, rfl, hafter⟩

/-! ## The loosest level -/

theorem exists_level_of_loosest? {found : List Occurrence} {last : List Char} {chain : Chain}
    (h : loosest? found last = some chain) : ∃ level, chain = cut level last found ∧ chain.links ≠ [] := by
  obtain ⟨level, -, hlevel⟩ := List.exists_of_findSome?_eq_some h
  dsimp only at hlevel
  split at hlevel
  · simp at hlevel
  · rename_i hlinks
    obtain rfl := Option.some.inj hlevel
    exact ⟨level, rfl, by simpa using hlinks⟩

/-- Nothing is cut at exactly if all operators lead. -/
theorem loosest?_eq_none_iff {found : List Occurrence} {last : List Char} :
    loosest? found last = none ↔ ∀ o ∈ found, ∀ op, o.symbol = .binary op → o.leads = true := by
  constructor
  · intro h o ho op hop
    cases hleads : o.leads with
    | true => rfl
    | false =>
      obtain ⟨pre, post, rfl⟩ := List.append_of_mem ho
      have hcut : CutsAt op.level o op := ⟨hop, hleads, rfl⟩
      have hlevel := List.findSome?_eq_none_iff.1 h op.level (by cases op <;> simp [BinaryOp.level, BinaryOp.levels])
      simp [cut_append hcut] at hlevel
  · intro h
    refine List.findSome?_eq_none_iff.2 fun level _ => ?_
    have hlinks : (cut level last found).links = [] := by
      induction found with
      | nil => rfl
      | cons o more ih =>
        obtain ⟨ho, h⟩ := List.forall_mem_cons.1 h
        rw [cut_cons_of_not fun op hcut => absurd (ho op hcut.1) (by simp [hcut.2.1])]
        exact ih h
    simp [hlinks]

/-- A sign that does not lead is cut at, before any other operator. -/
theorem cutsAt_of_isSign {o : Occurrence} (hsign : o.symbol.isSign = true) (hleads : o.leads = false) :
    ∃ op, CutsAt 0 o op := by
  cases hsymbol : o.symbol with
  | bang => simp [hsymbol, Symbol.isSign] at hsign
  | binary op =>
    refine ⟨op, hsymbol, hleads, ?_⟩
    rw [hsymbol] at hsign
    cases op <;> simp_all [Symbol.isSign, BinaryOp.level]

theorem loosest?_of_sign {found : List Occurrence} {o : Occurrence} (ho : o ∈ found)
    (hsign : o.symbol.isSign = true) (hleads : o.leads = false) (last : List Char) :
    loosest? found last = some (cut 0 last found) := by
  obtain ⟨op, hop⟩ := cutsAt_of_isSign hsign hleads
  obtain ⟨pre, post, rfl⟩ := List.append_of_mem ho
  have hlinks : (cut 0 last (pre ++ o :: post)).links ≠ [] := by simp [cut_append hop]
  rw [← hop.2.2] at hlinks ⊢
  exact Grouping.loosest?_of_cut op (by simp [hop.2.2]) hlinks

theorem checked_eq_ok {chain c : Chain} : chain.checked = .ok c ↔
    missingOperand? chain.first chain.links.reverse = none ∧
      c = { chain with links := chain.links.map fun (op, operand) => (op, Text.trimEnd operand) } := by
  unfold checked
  split
  · rename_i h
    simp [h]
  · rename_i h
    simp [h, eq_comm]

end Chain

/-! ## Shapes of texts with operators -/

theorem Shape.ofText_eq_ok {isFunction : String → Bool} {input : List Char} {shape : Shape} :
    ofText isFunction input = .ok shape ↔ Balanced input ∧ stripParens (Text.trim input) ≠ [] ∧
      ofStripped isFunction (stripParens (Text.trim input)) = .ok shape := by
  constructor
  · intro h
    obtain ⟨_, hbalance, h⟩ := bind_eq_ok.1 h
    refine ⟨checkBalance_eq_ok.1 hbalance, ?_⟩
    dsimp only at h
    split at h
    · simp at h
    · rename_i hne
      exact ⟨by simpa using hne, h⟩
  · rintro ⟨hbalanced, hne, h⟩
    rw [ofText_eq hbalanced rfl hne, h]

theorem Expr.parse_eq_ok {isFunction : String → Bool} {input : List Char} {e : Expr} :
    parse isFunction input = .ok e ↔
      ∃ shape, Shape.ofText isFunction input = .ok shape ∧ shape.read (parse isFunction) = .ok e := by
  rw [parse_eq, bind_eq_ok]

theorem stripParens_trim_of_operators {text : List Char} (h : (operators (Text.trim text)).1 ≠ []) :
    stripParens (Text.trim text) = Text.trim text :=
  stripParens_eq_self (enclosed?_eq_none_of_operators h)

/-- The shape of a text with operators. -/
theorem Shape.ofStripped_operators {isFunction : String → Bool} {text : List Char} {shape : Shape}
    (h : ofStripped isFunction text = .ok shape) (hfound : (operators text).1 ≠ []) :
    (∃ chain c, Chain.loosest? (operators text).1 (operators text).2 = some chain ∧ chain.checked = .ok c ∧
      shape = .binary c) ∨
    Chain.loosest? (operators text).1 (operators text).2 = none ∧
      ∃ o more, (operators text).1 = o :: more ∧ ofSigns text o (o :: more) (operators text).2 = .ok shape := by
  unfold ofStripped at h
  dsimp only at h
  split at h
  · rename_i chain hchain
    cases hchecked : chain.checked with
    | error fault => simp [hchecked, Except.map] at h
    | ok c =>
      obtain rfl := by simpa [hchecked, Except.map] using h
      exact .inl ⟨chain, c, hchain, hchecked, rfl⟩
  · rename_i hnone
    split at h
    · rename_i o more hcons
      exact .inr ⟨hnone, o, more, hcons, hcons ▸ h⟩
    · rename_i hnil
      exact absurd hnil hfound

/-! ## Signs -/

theorem leading_append {signs : List Occurrence} (h : ∀ o ∈ signs, o.leads = true) (more : List Occurrence)
    (last : List Char) :
    leading (signs ++ more) last = (signs.map (·.symbol) ++ (leading more last).1, (leading more last).2) := by
  simp [leading, List.takeWhile_append_of_pos h, List.dropWhile_append_of_pos h]

theorem leading_cons {o : Occurrence} (ho : o.leads = true) (more : List Occurrence) (last : List Char) :
    leading (o :: more) last = (o.symbol :: (leading more last).1, (leading more last).2) :=
  @leading_append [o] (by simpa using ho) more last

namespace Expr

theorem toOption_parse_of_trim {isFunction : String → Bool} {text input : List Char}
    (h : Text.trim input = Text.trim text) :
    (parse isFunction input).toOption = (parse isFunction text).toOption := by
  apply Option.ext
  intro e
  rw [toOption_eq_some, toOption_eq_some]
  exact ⟨fun hparse => parse_congr_trim hparse h.symm, fun hparse => parse_congr_trim hparse h⟩

/-- The shape of a text in which all operators lead. -/
theorem ofText_leading {isFunction : String → Bool} {text : List Char} {o : Occurrence} {more : List Occurrence}
    (hbalanced : Balanced text) (hfound : (operators (Text.trim text)).1 = o :: more) (ho : o.leads = true)
    (hleads : ∀ o ∈ more, ∀ op, o.symbol = .binary op → o.leads = true) :
    Shape.ofText isFunction text = .ok (.signs (leading (o :: more) (operators (Text.trim text)).2).1
      (leading (o :: more) (operators (Text.trim text)).2).2) := by
  have hne : (operators (Text.trim text)).1 ≠ [] := by simp [hfound]
  have hbefore : o.before = [] := by
    have hall := (@of_mem_operators _ o (by rw [hfound]; exact List.mem_cons_self)).2
    rw [ho, eq_comm, Bool.and_eq_true] at hall
    exact before_eq_nil hfound (Text.allBlank_of_all_isAsciiBlank hall.2)
  have hloosest : Chain.loosest? (o :: more) (operators (Text.trim text)).2 = none :=
    Chain.loosest?_eq_none_iff.2 fun p hp op hop => by
      rcases List.mem_cons.1 hp with rfl | hp
      · exact ho
      · exact hleads p hp op hop
  refine Shape.ofText_eq_ok.2 ⟨hbalanced, ?_, ?_⟩
  · rw [stripParens_trim_of_operators hne]
    intro hnil
    simp [hnil, operators, operatorsFrom] at hfound
  · rw [stripParens_trim_of_operators hne]
    simp [Shape.ofStripped, hfound, hloosest, Shape.ofSigns, hbefore, ho]

/-- Where all operators lead, they are the signs of the operand behind them. -/
theorem toOption_parse_leading {isFunction : String → Bool} {text last : List Char} {found : List Occurrence}
    (hfound : operators text = (found, last)) (hbalanced : Balanced text)
    (hleads : ∀ o ∈ found, ∀ op, o.symbol = .binary op → o.leads = true) :
    (parse isFunction text).toOption =
      (parse isFunction (leading found last).2).toOption.map ((leading found last).1.foldr Symbol.applyTo ·) := by
  have hjoined := joined_operators text
  rw [hfound] at hjoined
  by_cases hsigns : found.takeWhile (·.leads) = []
  · have hrest : found.dropWhile (·.leads) = found := by
      have := @List.takeWhile_append_dropWhile _ (fun o : Occurrence => o.leads) found
      rwa [hsigns, List.nil_append] at this
    simp [leading, hsigns, hrest, hjoined]
  · obtain ⟨front, back, -, hback, -, htrim⟩ := exists_operators_trim text
    cases htrimmed : (operators (Text.trim text)).1 with
    | nil =>
      rw [hfound, htrimmed] at htrim
      obtain ⟨rfl, -⟩ := Prod.mk.inj htrim
      exact absurd rfl hsigns
    | cons o more =>
      rw [hfound, htrimmed] at htrim
      obtain ⟨rfl, rfl⟩ := Prod.mk.inj htrim
      obtain ⟨hleadso, hleads⟩ := List.forall_mem_cons.1 hleads
      have hfront : (o.behind front).leads = true := by
        cases ho : (o.behind front).leads with
        | true => rfl
        | false => simp [ho] at hsigns
      have ho : o.leads = true := by
        simp only [Occurrence.behind, Bool.and_eq_true] at hfront
        exact hfront.1
      have hshape := @ofText_leading isFunction text o more hbalanced htrimmed ho hleads
      have hrest : (leading more ((operators (Text.trim text)).2 ++ back)).2 =
          (leading more (operators (Text.trim text)).2).2 ++ back := by simp [leading, joined]
      have hparse := @toOption_parse_of_trim isFunction _ _
        (Text.trim_append_blanks hback (leading more (operators (Text.trim text)).2).2)
      rw [parse_of_ofText hshape, leading_cons hfront, leading_cons ho, hrest, hparse]
      exact toOption_map _ _

end Expr

end Tabular
