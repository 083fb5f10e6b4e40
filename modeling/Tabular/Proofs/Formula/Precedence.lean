-- SUMMARY: Operands with operators between them are read as precedence and grouping to the left demand.
import Tabular.Proofs.Formula.Operand

/-!
# Precedence

`Grouping.Grouped` says which trees over a row of operands and operators are right: an operator's left operand binds at
least as tightly as the operator, its right operand more tightly. Every row has such a grouping. Reading cuts
a text at all operators of the loosest level at once. These are the operators along the left edge of the
grouping (`Grouping.rungs`), and what stands between them are the texts of groupings of tighter levels, so
reading follows the grouping down to the operands (`Expr.parse_row`).
-/

namespace Tabular

/-! ## Levels -/

/-- The operators from the loosest level to the tightest. -/
def BinaryOp.precedence : List (List BinaryOp) :=
  [[.add, .subtract], [.multiply, .divide], [.pow], [.or], [.and], [.eq, .ne, .ge, .gt, .le, .lt]]

/-- How tightly an operator binds. -/
def BinaryOp.tightness (op : BinaryOp) : Nat := precedence.findIdx (·.contains op)

theorem BinaryOp.level_eq_tightness (op : BinaryOp) : op.level = op.tightness := by cases op <;> rfl

theorem BinaryOp.exists_levels (op : BinaryOp) :
    ∃ looser tighter, levels = looser ++ op.level :: tighter ∧ ∀ level ∈ looser, level < op.level := by
  refine ⟨List.range op.level, levels.drop (op.level + 1), ?_, fun level => List.mem_range.1⟩
  cases op <;> rfl

/-! ## Rows -/

section

variable {isFunction : String → Bool}

/-- The text of a first operand and further ones, each with the operator in front of it between blanks. -/
def rowChars (a : Operand isFunction) : List (BinaryOp × Operand isFunction) → List Char
  | [] => a.chars
  | (op, b) :: more => a.chars ++ ' ' :: (op.spelling ++ ' ' :: rowChars b more)

theorem rowChars_append (a b : Operand isFunction) (op : BinaryOp)
    (links more : List (BinaryOp × Operand isFunction)) :
    rowChars a (links ++ (op, b) :: more) = rowChars a links ++ ' ' :: (op.spelling ++ ' ' :: rowChars b more) := by
  induction links generalizing a with
  | nil => rfl
  | cons link links ih => simp [rowChars, ih]

/-! ## Operators of a row -/

/-- What the scan finds in a row behind `lead`. -/
def rowFound (lead : List Char) (a : Operand isFunction) : List (BinaryOp × Operand isFunction) → List Occurrence
  | [] => signsFound lead a.signs
  | (op, b) :: more =>
    signsFound lead a.signs ++ ⟨leadAfter lead a.signs ++ a.text ++ [' '], .binary op, false⟩ :: rowFound [' '] b more

/-- The text behind the last operator of a row. -/
def rowLast (lead : List Char) (a : Operand isFunction) : List (BinaryOp × Operand isFunction) → List Char
  | [] => leadAfter lead a.signs ++ a.text
  | (_, b) :: more => rowLast [' '] b more

theorem operatorsFrom_row {lead : List Char} (hmark : SameMark [] lead.reverse) (a : Operand isFunction)
    (links : List (BinaryOp × Operand isFunction)) :
    operatorsFrom Scan.start true lead.reverse (rowChars a links) = (rowFound lead a links, rowLast lead a links) := by
  induction links generalizing lead a with
  | nil =>
    have h := a.operatorsFrom_append hmark endsSymbol_nil
    simp only [List.append_nil, operatorsFrom, List.reverse_reverse] at h
    exact h
  | cons link more ih =>
    obtain ⟨op, b⟩ := link
    have hrest := @ih [' '] (sameMark_space []) b
    simp only [List.reverse_singleton] at hrest
    rw [rowChars, a.operatorsFrom_append hmark (endsSymbol_space _), operatorsFrom_space, operatorsFrom_spelling,
      operatorsFrom_space, hrest]
    simp [rowFound, rowLast]

theorem rowFound_ne_nil {links : List (BinaryOp × Operand isFunction)} (h : links ≠ []) (lead : List Char)
    (a : Operand isFunction) : rowFound lead a links ≠ [] := by
  cases links with
  | nil => exact absurd rfl h
  | cons link more => simp [rowFound]

/-! ## Cutting a row -/

/-- A row cut at the operators of a level. -/
def rowCut (level : Nat) (lead : List Char) (a : Operand isFunction) : List (BinaryOp × Operand isFunction) → Chain
  | [] => ⟨lead ++ a.chars, []⟩
  | (op, b) :: more =>
    let chain := rowCut level [' '] b more
    if op.level = level then ⟨lead ++ (a.chars ++ [' ']), (op, chain.first) :: chain.links⟩
    else ⟨lead ++ (a.chars ++ ' ' :: (op.spelling ++ chain.first)), chain.links⟩

theorem cut_row (level : Nat) (lead : List Char) (a : Operand isFunction)
    (links : List (BinaryOp × Operand isFunction)) :
    Chain.cut level (rowLast lead a links) (rowFound lead a links) = rowCut level lead a links := by
  -- The text in front of the first operator is put together from the signs and the atom behind them.
  have hjoined : ∀ (lead rest : List Char) (a : Operand isFunction),
      joined (signsFound lead a.signs) (leadAfter lead a.signs ++ (a.text ++ rest)) = lead ++ (a.chars ++ rest) := by
    intro lead rest a
    rw [joined_signsFound, Operand.chars, List.append_assoc]
  induction links generalizing lead a with
  | nil =>
    have hcut := Chain.cut_signsFound level (rowLast lead a []) lead a.signs []
    have hfirst := hjoined lead [] a
    rw [List.append_nil, List.append_nil] at hfirst
    rw [List.append_nil] at hcut
    rw [rowFound, hcut, Chain.cut, rowLast, hfirst, rowCut]
  | cons link more ih =>
    obtain ⟨op, b⟩ := link
    rw [rowFound, Chain.cut_signsFound, rowLast, Chain.cut, ih, rowCut]
    simp only [Bool.not_false, Bool.true_and, beq_iff_eq]
    split
    · simp only [List.append_assoc, hjoined]
    · simp only [Occurrence.chars, Symbol.spelling, List.append_assoc, hjoined, List.cons_append,
        List.nil_append]

/-- A row without operators of the level stays whole. -/
theorem rowCut_of_ne {level : Nat} {links : List (BinaryOp × Operand isFunction)}
    (h : ∀ link ∈ links, link.1.level ≠ level) (lead : List Char) (a : Operand isFunction) :
    rowCut level lead a links = ⟨lead ++ rowChars a links, []⟩ := by
  induction links generalizing lead a with
  | nil => rfl
  | cons link more ih =>
    obtain ⟨op, b⟩ := link
    rw [List.forall_mem_cons] at h
    rw [rowCut, if_neg h.1, ih h.2, rowChars]
    rfl

/-- The first cut is behind the operators of other levels. -/
theorem rowCut_append {level : Nat} {links more : List (BinaryOp × Operand isFunction)}
    (h : ∀ link ∈ links, link.1.level ≠ level) {op : BinaryOp} (hop : op.level = level) (lead : List Char)
    (a b : Operand isFunction) :
    rowCut level lead a (links ++ (op, b) :: more) =
      ⟨lead ++ (rowChars a links ++ [' ']),
        (op, (rowCut level [' '] b more).first) :: (rowCut level [' '] b more).links⟩ := by
  induction links generalizing lead a with
  | nil => rw [List.nil_append, rowCut, if_pos hop, rowChars]
  | cons link links ih =>
    obtain ⟨other, c⟩ := link
    rw [List.forall_mem_cons] at h
    rw [List.cons_append, rowCut, if_neg h.1, ih h.2, rowChars]
    simp

end

/-! ## Groupings -/

/-- A tree over operands. -/
inductive Grouping (isFunction : String → Bool) where
  | operand (a : Operand isFunction)
  | node (op : BinaryOp) (left right : Grouping isFunction)

namespace Grouping

variable {isFunction : String → Bool}

/-- The tree that a grouping stands for. -/
def expr : Grouping isFunction → Expr
  | operand a => a.expr
  | node op left right => .binary op left.expr right.expr

/-- The first operand of the row that is grouped. -/
def first : Grouping isFunction → Operand isFunction
  | operand a => a
  | node _ left _ => left.first

/-- The further operands of the row that is grouped. -/
def links : Grouping isFunction → List (BinaryOp × Operand isFunction)
  | operand _ => []
  | node op left right => left.links ++ (op, right.first) :: right.links

/-- No operator outside binds tighter than one inside, and none as tight stands to the right of another: all
    operators bind at least as tightly as `least`, those to the right of an operator more tightly than it. -/
def Grouped (least : Nat) : Grouping isFunction → Prop
  | operand _ => True
  | node op left right => least ≤ op.tightness ∧ left.Grouped op.tightness ∧ right.Grouped (op.tightness + 1)

theorem Grouped.le_level {least : Nat} {g : Grouping isFunction} (h : g.Grouped least) :
    ∀ link ∈ g.links, least ≤ link.1.level := by
  induction g generalizing least with
  | operand a => simp [links]
  | node op left right ihleft ihright =>
    obtain ⟨hop, hleft, hright⟩ := h
    intro link hmem
    rcases List.mem_append.1 hmem with hmem | hmem
    · exact Nat.le_trans hop (ihleft hleft link hmem)
    · rcases List.mem_cons.1 hmem with rfl | hmem
      · rwa [BinaryOp.level_eq_tightness]
      · have := ihright hright link hmem
        omega

/-! ## Every row has a grouping -/

/-- Put another operand behind a row: it becomes the right operand of its operator, and the left one is all that
    binds at least as tightly. -/
def extend (op : BinaryOp) (a : Operand isFunction) : Grouping isFunction → Grouping isFunction
  | operand b => node op (operand b) (operand a)
  | node other left right =>
    if op.tightness ≤ other.tightness then node op (node other left right) (operand a)
    else node other left (right.extend op a)

theorem first_extend (op : BinaryOp) (a : Operand isFunction) (g : Grouping isFunction) :
    (g.extend op a).first = g.first := by
  cases g with
  | operand b => rfl
  | node other left right =>
    rw [extend]
    split <;> rfl

theorem links_extend (op : BinaryOp) (a : Operand isFunction) (g : Grouping isFunction) :
    (g.extend op a).links = g.links ++ [(op, a)] := by
  induction g with
  | operand b => rfl
  | node other left right _ ih =>
    rw [extend]
    split
    · rfl
    · simp [links, first_extend, ih]

theorem Grouped.extend {least : Nat} {op : BinaryOp} {g : Grouping isFunction} (h : g.Grouped least)
    (hop : least ≤ op.tightness) (a : Operand isFunction) : (g.extend op a).Grouped least := by
  induction g generalizing least with
  | operand b => exact ⟨hop, trivial, trivial⟩
  | node other left right _ ih =>
    obtain ⟨hother, hleft, hright⟩ := h
    rw [Grouping.extend]
    split
    · rename_i hle
      exact ⟨hop, ⟨hle, hleft, hright⟩, trivial⟩
    · exact ⟨hother, hleft, ih hright (by omega)⟩

/-- A row that is grouped can be continued. -/
theorem exists_grouped_append {g : Grouping isFunction} (h : g.Grouped 0)
    (more : List (BinaryOp × Operand isFunction)) :
    ∃ g' : Grouping isFunction, g'.Grouped 0 ∧ g'.first = g.first ∧ g'.links = g.links ++ more := by
  induction more generalizing g with
  | nil => exact ⟨g, h, rfl, (List.append_nil _).symm⟩
  | cons link more ih =>
    obtain ⟨g', hg', hfirst, hlinks⟩ := ih (h.extend (Nat.zero_le link.1.tightness) link.2)
    refine ⟨g', hg', ?_, ?_⟩
    · rw [hfirst, first_extend]
    · rw [hlinks, links_extend, List.append_assoc]
      rfl

theorem exists_grouped (a : Operand isFunction) (links : List (BinaryOp × Operand isFunction)) :
    ∃ g : Grouping isFunction, g.Grouped 0 ∧ g.first = a ∧ g.links = links :=
  exists_grouped_append (show (operand a).Grouped 0 from trivial) links

/-! ## The text of a grouping -/

def chars (g : Grouping isFunction) : List Char := rowChars g.first g.links

theorem chars_node (op : BinaryOp) (left right : Grouping isFunction) :
    (node op left right).chars = left.chars ++ ' ' :: (op.spelling ++ ' ' :: right.chars) :=
  rowChars_append left.first right.first op left.links right.links

theorem tight (g : Grouping isFunction) : Text.Tight g.chars := by
  induction g with
  | operand a => exact a.tight
  | node op left right ihleft ihright =>
    have h := ihleft.append ihright (' ' :: (op.spelling ++ [' ']))
    rw [chars_node]
    simpa using h

theorem balanced (g : Grouping isFunction) : Balanced g.chars := by
  have hspace : Balanced [' '] := balanced_of_allBlank (by decide)
  induction g with
  | operand a => exact a.balanced
  | node op left right ihleft ihright =>
    rw [chars_node]
    exact ihleft.append (hspace.append ((balanced_spelling op).append (hspace.append ihright)))

/-! ## The left edge -/

/-- The grouping in front of the operators of a level along the left edge. -/
def base (level : Nat) : Grouping isFunction → Grouping isFunction
  | operand a => operand a
  | node op left right => if op.level = level then left.base level else node op left right

/-- The operators of a level along the left edge, each with its right operand. -/
def rungs (level : Nat) : Grouping isFunction → List (BinaryOp × Grouping isFunction)
  | operand _ => []
  | node op left right => if op.level = level then left.rungs level ++ [(op, right)] else []

/-- The row behind a grouping, given by its rungs. -/
def linksOf (rungs : List (BinaryOp × Grouping isFunction)) : List (BinaryOp × Operand isFunction) :=
  rungs.flatMap fun (op, right) => (op, right.first) :: right.links

theorem first_base (level : Nat) (g : Grouping isFunction) : (g.base level).first = g.first := by
  induction g with
  | operand a => rfl
  | node op left right ih _ =>
    rw [base]
    split
    · exact ih
    · rfl

theorem links_base_append (level : Nat) (g : Grouping isFunction) :
    (g.base level).links ++ linksOf (g.rungs level) = g.links := by
  induction g with
  | operand a => rfl
  | node op left right ih _ =>
    rw [base, rungs]
    split
    · rw [links, ← ih]
      simp [linksOf]
    · simp [linksOf]

/-- Operators along the left edge group to the left. -/
theorem expr_eq_foldl (level : Nat) (g : Grouping isFunction) :
    g.expr = (g.rungs level).foldl (fun left (op, right) => .binary op left right.expr) (g.base level).expr := by
  induction g with
  | operand a => rfl
  | node op left right ih _ =>
    rw [base, rungs]
    split
    · rw [List.foldl_append, ← ih]
      rfl
    · rfl

theorem Grouped.base {level : Nat} {g : Grouping isFunction} (h : g.Grouped level) :
    (g.base level).Grouped (level + 1) := by
  induction g with
  | operand a => trivial
  | node op left right ih _ =>
    obtain ⟨hop, hleft, hright⟩ := h
    rw [Grouping.base]
    rw [← BinaryOp.level_eq_tightness] at hop hleft hright
    split
    · rename_i heq
      exact ih (heq ▸ hleft)
    · rename_i hne
      refine ⟨?_, ?_, ?_⟩
      · rw [← BinaryOp.level_eq_tightness]
        omega
      · rwa [← BinaryOp.level_eq_tightness]
      · rwa [← BinaryOp.level_eq_tightness]

theorem Grouped.rungs {level : Nat} {g : Grouping isFunction} (h : g.Grouped level) :
    ∀ rung ∈ g.rungs level, rung.1.level = level ∧ rung.2.Grouped (level + 1) := by
  induction g with
  | operand a => simp [Grouping.rungs]
  | node op left right ih _ =>
    obtain ⟨hop, hleft, hright⟩ := h
    rw [← BinaryOp.level_eq_tightness] at hleft hright
    rw [Grouping.rungs]
    split
    · rename_i heq
      subst heq
      rw [List.forall_mem_append, List.forall_mem_singleton]
      exact ⟨ih hleft, rfl, hright⟩
    · simp

/-- What holds of operands, and of a tree if it holds of all between the operators of its level on its left edge,
    holds of every tree. -/
theorem induction_on_edge {P : Grouping isFunction → Prop} (hoperand : ∀ a, P (operand a))
    (hnode : ∀ op left right, P ((node op left right).base op.level) →
      (∀ rung ∈ (node op left right).rungs op.level, P rung.2) → P (node op left right))
    (g : Grouping isFunction) : P g := by
  have hall : P g ∧ ∀ level, P (g.base level) ∧ ∀ rung ∈ g.rungs level, P rung.2 := by
    induction g with
    | operand a => exact ⟨hoperand a, fun level => ⟨hoperand a, by simp [rungs]⟩⟩
    | node op left right ihleft ihright =>
      have hedge : P ((node op left right).base op.level) ∧
          ∀ rung ∈ (node op left right).rungs op.level, P rung.2 := by
        rw [base, rungs, if_pos rfl, if_pos rfl, List.forall_mem_append, List.forall_mem_singleton]
        exact ⟨(ihleft.2 op.level).1, (ihleft.2 op.level).2, ihright.1⟩
      have hself := hnode op left right hedge.1 hedge.2
      refine ⟨hself, fun level => ?_⟩
      by_cases heq : op.level = level
      · exact heq ▸ hedge
      · rw [base, rungs, if_neg heq, if_neg heq]
        exact ⟨hself, by simp⟩
  exact hall.1

/-! ## Reading a grouping -/

/-- The text is `inner` with blanks around it. -/
def Surrounds (text inner : List Char) : Prop :=
  ∃ pre post, Text.allBlank pre = true ∧ Text.allBlank post = true ∧ text = pre ++ (inner ++ post)

theorem Surrounds.trim {text : List Char} {g : Grouping isFunction} (h : Surrounds text g.chars) :
    Text.trim text = g.chars := by
  obtain ⟨pre, post, hpre, hpost, rfl⟩ := h
  exact Text.trim_between hpre hpost g.tight

theorem Surrounds.allBlank {text : List Char} {g : Grouping isFunction} (h : Surrounds text g.chars) :
    Text.allBlank text = false := by
  obtain ⟨pre, post, -, -, rfl⟩ := h
  rw [Text.allBlank_append, Text.allBlank_append, g.tight.allBlank_eq_false, Bool.false_and, Bool.and_false]

theorem Surrounds.trimEnd {text : List Char} {g : Grouping isFunction} (h : Surrounds text g.chars) :
    Surrounds (Text.trimEnd text) g.chars := by
  obtain ⟨pre, post, hpre, hpost, rfl⟩ := h
  obtain ⟨-, c, hc, hblank⟩ := g.tight
  have hlast : (pre ++ g.chars).getLast? = some c := by rw [List.getLast?_append, hc, Option.some_or]
  refine ⟨pre, [], hpre, rfl, ?_⟩
  rw [← List.append_assoc, Text.trimEnd_append hpost, Text.trimEnd_eq_self hlast hblank, List.append_nil]

/-- A link is read as a rung: the operator is the same, and the text is that of the right operand. -/
def Shows (link : BinaryOp × List Char) (rung : BinaryOp × Grouping isFunction) : Prop :=
  link.1 = rung.1 ∧ Surrounds link.2 rung.2.chars

/-- A row is cut at the rungs of its grouping. -/
theorem rowCut_rungs {level : Nat} {lead : List Char} (hlead : Text.allBlank lead = true) {base : Grouping isFunction}
    (hbase : base.Grouped (level + 1)) {rungs : List (BinaryOp × Grouping isFunction)}
    (hrungs : ∀ rung ∈ rungs, rung.1.level = level ∧ rung.2.Grouped (level + 1)) :
    Surrounds (rowCut level lead base.first (base.links ++ linksOf rungs)).first base.chars ∧
      List.Forall₂ Shows (rowCut level lead base.first (base.links ++ linksOf rungs)).links rungs := by
  have hne : ∀ link ∈ base.links, link.1.level ≠ level := by
    intro link hmem
    have := hbase.le_level link hmem
    omega
  induction rungs generalizing lead base with
  | nil =>
    rw [linksOf, List.flatMap_nil, List.append_nil, rowCut_of_ne hne]
    exact ⟨⟨lead, [], hlead, rfl, by rw [List.append_nil]; rfl⟩, .nil⟩
  | cons rung more ih =>
    obtain ⟨op, right⟩ := rung
    rw [List.forall_mem_cons] at hrungs
    obtain ⟨⟨hop, hright⟩, hmore⟩ := hrungs
    have hspace : Text.allBlank [' '] = true := by decide
    have hneRight : ∀ link ∈ right.links, link.1.level ≠ level := by
      intro link hmem
      have := hright.le_level link hmem
      omega
    obtain ⟨hfirst, hlinks⟩ := ih hspace hright hmore hneRight
    have hcons : linksOf ((op, right) :: more) = (op, right.first) :: (right.links ++ linksOf more) := rfl
    rw [hcons, rowCut_append hne hop]
    exact ⟨⟨lead, [' '], hlead, hspace, rfl⟩, .cons ⟨rfl, hfirst⟩ hlinks⟩

/-- The loosest level that occurs is that of the operator at the root. -/
theorem loosest?_of_cut {found : List Occurrence} {last : List Char} (op : BinaryOp)
    (hlooser : ∀ level < op.level, (Chain.cut level last found).links = [])
    (hlinks : (Chain.cut op.level last found).links ≠ []) :
    Chain.loosest? found last = some (Chain.cut op.level last found) := by
  obtain ⟨looser, tighter, hlevels, hlt⟩ := op.exists_levels
  let cutAt (level : Nat) : Option Chain :=
    if (Chain.cut level last found).links.isEmpty then none else some (Chain.cut level last found)
  have hnone : looser.findSome? cutAt = none := by
    rw [List.findSome?_eq_none_iff]
    intro level hmem
    simp [cutAt, hlooser level (hlt level hmem)]
  have hhere : cutAt op.level = some (Chain.cut op.level last found) := by simp [cutAt, hlinks]
  change BinaryOp.levels.findSome? cutAt = _
  rw [hlevels, List.findSome?_append, hnone, Option.none_or, List.findSome?_cons, hhere]

theorem missingOperand?_eq_none {first : List Char} (hfirst : Text.allBlank first = false)
    {links : List (BinaryOp × List Char)} (h : ∀ link ∈ links, Text.allBlank link.2 = false) :
    Chain.missingOperand? first links = none := by
  induction links with
  | nil => rfl
  | cons link earlier ih =>
    rw [List.forall_mem_cons] at h
    simp [Chain.missingOperand?, hfirst, h.1, ih h.2]

theorem visible_of_shows {links : List (BinaryOp × List Char)} {rungs : List (BinaryOp × Grouping isFunction)}
    (h : List.Forall₂ Shows links rungs) : ∀ link ∈ links, Text.allBlank link.2 = false := by
  induction h with
  | nil => simp
  | cons hshows _ ih =>
    rw [List.forall_mem_cons]
    exact ⟨hshows.2.allBlank, ih⟩

/-- A chain that shows a left edge lacks no operand. -/
theorem checked_of_shows {chain : Chain} {base : Grouping isFunction} {rungs : List (BinaryOp × Grouping isFunction)}
    (hbase : Surrounds chain.first base.chars) (hrungs : List.Forall₂ Shows chain.links rungs) :
    ∃ c, chain.checked = .ok c ∧ Surrounds c.first base.chars ∧ List.Forall₂ Shows c.links rungs := by
  have hvisible := visible_of_shows hrungs
  have hnone : Chain.missingOperand? chain.first chain.links.reverse = none := by
    apply missingOperand?_eq_none hbase.allBlank
    intro link hmem
    exact hvisible link (List.mem_reverse.1 hmem)
  refine ⟨{ chain with links := chain.links.map fun link => (link.1, Text.trimEnd link.2) }, ?_, hbase, ?_⟩
  · simp [Chain.checked, hnone]
  · rw [List.forall₂_map_left_iff]
    exact hrungs.imp fun _ _ hshows => ⟨hshows.1, hshows.2.trimEnd⟩

/-- A chain that shows a left edge is read as its tree. -/
theorem read_of_shows {read : List Char → Except FormulaFault Expr} {chain : Chain} {base : Grouping isFunction}
    {rungs : List (BinaryOp × Grouping isFunction)} (hbase : Surrounds chain.first base.chars)
    (hrungs : List.Forall₂ Shows chain.links rungs)
    (hreadBase : ∀ input, Text.trim input = base.chars → read input = .ok base.expr)
    (hread : ∀ rung ∈ rungs, ∀ input, Text.trim input = rung.2.chars → read input = .ok rung.2.expr) :
    Shape.read read (.binary chain) =
      .ok (rungs.foldl (fun left (op, right) => .binary op left right.expr) base.expr) := by
  have hlinks : (chain.links.mapM fun link => do return (link.1, ← read link.2)) =
      .ok (rungs.map fun rung => (rung.1, rung.2.expr)) := by
    rw [mapM_eq_ok, List.forall₂_map_right_iff]
    generalize chain.links = links at hrungs
    induction hrungs with
    | nil => exact .nil
    | @cons link rung _ _ hshows _ ih =>
      rw [List.forall_mem_cons] at hread
      refine .cons ?_ (ih hread.2)
      rw [hread.1 link.2 hshows.2.trim, hshows.1]
      rfl
  rw [Shape.read, hreadBase _ hbase.trim, hlinks]
  exact congrArg Except.ok List.foldl_map

theorem operators_chars (g : Grouping isFunction) :
    operators g.chars = (rowFound [] g.first g.links, rowLast [] g.first g.links) :=
  @operatorsFrom_row _ [] (SameMark.refl []) g.first g.links

/-- The shape of a grouping that is right is its left edge. -/
theorem ofStripped_of_grouped {op : BinaryOp} {g : Grouping isFunction} (h : g.Grouped op.level)
    (hne : g.rungs op.level ≠ []) :
    ∃ c, Shape.ofStripped isFunction g.chars = .ok (.binary c) ∧ Surrounds c.first (g.base op.level).chars ∧
      List.Forall₂ Shows c.links (g.rungs op.level) := by
  have hblank : Text.allBlank [] = true := rfl
  have hedge := rowCut_rungs hblank h.base h.rungs
  rw [first_base, links_base_append, ← cut_row] at hedge
  obtain ⟨hfirst, hlinks⟩ := hedge
  have hlooser : ∀ level < op.level,
      (Chain.cut level (rowLast [] g.first g.links) (rowFound [] g.first g.links)).links = [] := by
    intro level hlt
    rw [cut_row, rowCut_of_ne]
    intro link hmem
    have := h.le_level link hmem
    omega
  have hcut : (Chain.cut op.level (rowLast [] g.first g.links) (rowFound [] g.first g.links)).links ≠ [] := by
    intro hnil
    rw [hnil, List.forall₂_nil_left_iff] at hlinks
    exact hne hlinks
  obtain ⟨c, hchecked, hshows⟩ := checked_of_shows hfirst hlinks
  refine ⟨c, ?_, hshows⟩
  unfold Shape.ofStripped
  rw [operators_chars]
  simp only [loosest?_of_cut op hlooser hcut, hchecked, Except.map]

/-- The text of a grouping that is right is read as its tree, with blanks around it or without. -/
theorem parse_of_trim {least : Nat} {g : Grouping isFunction} (h : g.Grouped least) {input : List Char}
    (hinput : Text.trim input = g.chars) : Expr.parse isFunction input = .ok g.expr := by
  induction g using induction_on_edge generalizing least input with
  | hoperand a => exact a.parse_of_trim hinput
  | hnode op left right ihbase ihrungs =>
    have hlevel : (node op left right).Grouped op.level := by
      obtain ⟨-, hleft, hright⟩ := h
      exact ⟨Nat.le_of_eq op.level_eq_tightness, hleft, hright⟩
    obtain ⟨c, hstripped, hfirst, hlinks⟩ := ofStripped_of_grouped hlevel (by simp [rungs])
    have hnone : enclosed? (node op left right).chars = none := by
      apply enclosed?_eq_none_of_operators
      rw [operators_chars]
      exact rowFound_ne_nil (by simp [links]) _ _
    have hbalanced : Balanced input := by
      rw [← balanced_trim, hinput]
      exact balanced _
    have hstrip : stripParens (Text.trim input) = (node op left right).chars := by
      rw [hinput, stripParens_eq_self hnone]
    have hshape := (Shape.ofText_eq hbalanced hstrip (tight _).ne_nil).trans hstripped
    rw [Expr.parse_of_ofText hshape, expr_eq_foldl op.level]
    exact read_of_shows hfirst hlinks (fun _ => ihbase hlevel.base) fun rung hmem _ =>
      ihrungs rung hmem (hlevel.rungs rung hmem).2

end Grouping

namespace Expr

variable {isFunction : String → Bool}

/-- A row of operands with operators between them is read as the tree that the levels and grouping to the left
    demand: there is such a tree, and reading gives it. -/
theorem parse_row (first : Operand isFunction) (links : List (BinaryOp × Operand isFunction)) :
    (∃ g : Grouping isFunction, g.Grouped 0 ∧ g.first = first ∧ g.links = links) ∧
    ∀ g : Grouping isFunction, g.Grouped 0 → g.first = first → g.links = links →
      parse isFunction (rowChars first links) = .ok g.expr := by
  refine ⟨Grouping.exists_grouped first links, ?_⟩
  rintro g hg rfl rfl
  exact Grouping.parse_of_trim hg (Text.trim_eq_self g.tight)

/-- Differences group to the left, powers bind tighter, and signs bind tightest; the sign inside a number is none. -/
theorem parse_row_signs :
    parse Operation.isFunction "a - b - -!c ^ 1e-5".toList =
      .ok (.binary .subtract (.binary .subtract (.leaf "a") (.leaf "b"))
        (.binary .pow (.call "negate" [.call "not" [.leaf "c"]]) (.leaf "1e-5"))) := by
  let a : Operand Operation.isFunction := .ofName [] "a" (by decide)
  let b : Operand Operation.isFunction := .ofName [] "b" (by decide)
  let c : Operand Operation.isFunction := .ofName [.minus, .bang] "c" (by decide)
  let d : Operand Operation.isFunction := .ofNumber [] "1e-5" ⟨rfl, by decide +kernel⟩
  have hgrouped : (Grouping.node .subtract (.node .subtract (.operand a) (.operand b))
      (.node .pow (.operand c) (.operand d))).Grouped 0 := by
    simp only [Grouping.Grouped]
    decide
  exact (parse_row a [(.subtract, b), (.subtract, c), (.pow, d)]).2 _ hgrouped rfl rfl

end Expr

end Tabular
