-- SUMMARY: Reading a formula does not depend on which blanks stand in it, except between an operator and a sign.
import Tabular.Proofs.Formula.Parts
import Tabular.Proofs.Formula.Spaced
import Tabular.Proofs.Formula.Token

/-!
# Blanks in formulas

A text and its spaced text are read as the same tree, unless a sign is misplaced in the text
(`Expr.toOption_parse_spaced`): the scan for operators lets a sign lead only behind ASCII blanks, and in a spaced text
all blanks are. Two texts that differ in their blanks have the same spaced text. So where one is read, the other is read
as the same formula, or a sign is misplaced in it and it is not read at all.
-/

namespace Tabular

/-! ## Chains of a spaced text -/

/-- The operator leads in the text if it does in the spaced text. -/
def Occurrence.Settled (o : Occurrence) : Prop := ∀ op, o.symbol = .binary op → o.leads = o.spaced.leads

/-- What leads in the text leads in the spaced text. -/
theorem leads_spaced {text : List Char} {o : Occurrence} (ho : o ∈ (operators text).1) (h : o.leads = true) :
    o.spaced.leads = true := by
  rw [(of_mem_operators ho).2, Bool.and_eq_true] at h
  rw [Occurrence.spaced, h.1, Bool.true_and]
  exact Text.allBlank_of_all_isAsciiBlank h.2

/-- Only a misplaced sign changes its part when the text is spaced. -/
theorem settled_of_mem_operators {text : List Char} {o : Occurrence} (ho : o ∈ (operators text).1)
    (h : ¬o.Misplaced) : o.Settled := by
  obtain ⟨-, hleads⟩ := of_mem_operators ho
  intro op hop
  cases hsign : o.symbol.isSign with
  | false =>
    have hmay : o.symbol.mayLead = false := by
      rw [hop] at hsign ⊢
      cases op <;> simp_all [Symbol.isSign, Symbol.mayLead]
    rw [hleads, Occurrence.spaced, hmay, Bool.false_and, Bool.false_and]
  | true =>
    simp only [hleads, Occurrence.spaced, Symbol.mayLead_of_isSign hsign, Bool.true_and]
    cases hascii : o.before.all Text.isAsciiBlank with
    | true => exact (Text.allBlank_of_all_isAsciiBlank hascii).symm
    | false =>
      refine (Bool.eq_false_iff.2 fun hblank => h ⟨hsign, ?_, hblank⟩).symm
      rw [hleads, hascii, Bool.and_false]

namespace Chain

/-- The chain of the spaced operands. -/
def spaced (chain : Chain) : Chain :=
  ⟨Tabular.spaced chain.first, chain.links.map fun (op, operand) => (op, Tabular.spaced operand)⟩

theorem cutsAt_spaced {level : Nat} {o : Occurrence} (h : o.Settled) (op : BinaryOp) :
    CutsAt level o.spaced op ↔ CutsAt level o op := by
  unfold CutsAt
  refine and_congr_right fun hop => ?_
  rw [h op hop]

theorem cut_spaced {found : List Occurrence} (hrun : ∀ o ∈ found, Scan.start.run o.before = Scan.start)
    (h : ∀ o ∈ found, o.Settled) (level : Nat) (last : List Char) :
    cut level (Tabular.spaced last) (found.map Occurrence.spaced) = (cut level last found).spaced := by
  induction found with
  | nil => rfl
  | cons o more ih =>
    obtain ⟨hruno, hrun⟩ := List.forall_mem_cons.1 hrun
    obtain ⟨ho, h⟩ := List.forall_mem_cons.1 h
    have hrest := ih hrun h
    rw [List.map_cons]
    rcases cutsAt_or_not level o with ⟨op, hcut⟩ | hcut
    · rw [cut_cons ((cutsAt_spaced ho op).2 hcut), cut_cons hcut, hrest]
      rfl
    · have hchars : Scan.start.run o.chars = Scan.start := by
        rw [Occurrence.chars, Scan.run_append, hruno, o.symbol.run_spelling]
      have hspaced : Tabular.spaced o.chars = o.spaced.chars := by
        rw [Occurrence.chars, Tabular.spaced, spacedFrom_append, spacedFrom_spelling]
        rfl
      rw [cut_cons_of_not fun op => (cutsAt_spaced ho op).not.2 (hcut op), cut_cons_of_not hcut, hrest]
      simp only [spaced, spaced_append hchars, hspaced]

theorem loosest?_spaced {found : List Occurrence} (hrun : ∀ o ∈ found, Scan.start.run o.before = Scan.start)
    (h : ∀ o ∈ found, o.Settled) (last : List Char) :
    loosest? (found.map Occurrence.spaced) (Tabular.spaced last) = (loosest? found last).map spaced := by
  unfold loosest?
  rw [List.map_findSome?]
  congr 1
  funext level
  simp only [cut_spaced hrun h, spaced, List.isEmpty_map, Function.comp_apply]
  split <;> rfl

theorem missingOperand?_spaced (first : List Char) (links : List (BinaryOp × List Char)) :
    missingOperand? (Tabular.spaced first) (links.map fun (op, operand) => (op, Tabular.spaced operand)) = none ↔
      missingOperand? first links = none := by
  induction links with
  | nil => exact iff_of_true rfl rfl
  | cons link earlier ih =>
    obtain ⟨op, operand⟩ := link
    simp only [List.map_cons, missingOperand?, List.isEmpty_map, Tabular.spaced, allBlank_spacedFrom]
    split
    · simp
    · split
      · simp
      · exact ih

/-- A chain lacks an operand when it is spaced if it lacks one. -/
theorem checked_spaced (chain : Chain) : chain.spaced.checked.toOption = chain.checked.toOption.map spaced := by
  have hmissing := missingOperand?_spaced chain.first chain.links.reverse
  rw [List.map_reverse] at hmissing
  by_cases h : missingOperand? chain.first chain.links.reverse = none
  · rw [checked_eq_ok.2 ⟨h, rfl⟩, checked_eq_ok.2 ⟨hmissing.2 h, rfl⟩]
    have htrim : ∀ operand, Text.trimEnd (Tabular.spaced operand) = Tabular.spaced (Text.trimEnd operand) :=
      trimEnd_spacedFrom Scan.start
    simp [Except.toOption, spaced, htrim]
  · have hfail : chain.checked.toOption = none := toOption_eq_none.2 fun c hc => h (checked_eq_ok.1 hc).1
    rw [hfail]
    exact toOption_eq_none.2 fun c hc => h (hmissing.1 (checked_eq_ok.1 hc).1)

end Chain

/-! ## Reading a spaced text -/

namespace Shape

theorem argument_spaced (text text' arg : List Char) :
    (argument text' (Tabular.spaced arg)).toOption = (argument text arg).toOption.map (Prod.map id Tabular.spaced) := by
  simp only [argument, Tabular.spaced, allBlank_spacedFrom]
  split
  · rfl
  · exact Assignable.ofText_spaced arg

theorem toOption_read_binary_spaced {read : List Char → Except FormulaFault Expr} {chain : Chain}
    (h : ∀ text, (binary chain).Inside text → (read (Tabular.spaced text)).toOption = (read text).toOption) :
    (Shape.read read (.binary chain.spaced)).toOption = (Shape.read read (.binary chain)).toOption := by
  have hlink : ∀ link ∈ chain.links, (read (Tabular.spaced link.2)).toOption = (read link.2).toOption :=
    fun link hmem => h link.2 (.inr ⟨link.1, hmem⟩)
  refine toOption_bind_congr (h _ (.inl rfl)) fun first _ => ?_
  simp only [Chain.spaced, List.mapM_map]
  refine toOption_bind_congr (toOption_mapM_congr fun link hmem => ?_) fun links _ => rfl
  exact toOption_bind_congr (hlink link hmem) fun _ _ => rfl

/-- The operands of a chain are read as they are in the spaced text. -/
theorem toOption_read_checked_spaced {read : List Char → Except FormulaFault Expr} {chain : Chain}
    (h : ∀ c text, chain.checked = .ok c → (binary c).Inside text →
      (read (Tabular.spaced text)).toOption = (read text).toOption) :
    (chain.spaced.checked.map binary >>= Shape.read read).toOption =
      (chain.checked.map binary >>= Shape.read read).toOption := by
  have hchecked := chain.checked_spaced
  cases hc : chain.checked with
  | error fault =>
    rw [hc] at hchecked
    cases hs : chain.spaced.checked with
    | error fault => rfl
    | ok c => simp [hs, Except.toOption] at hchecked
  | ok c =>
    rw [hc] at hchecked
    rw [toOption_eq_some.1 hchecked]
    exact toOption_read_binary_spaced (h c · hc)

/-- The arguments of a call are read as they are in the spaced text. -/
theorem toOption_read_call_spaced {isFunction : String → Bool} {read : List Char → Except FormulaFault Expr}
    {text text' name inner : List Char}
    (h : ∀ shape piece, ofCall isFunction text name inner = .ok shape → shape.Inside piece →
      (read (Tabular.spaced piece)).toOption = (read piece).toOption) :
    (ofCall isFunction text' name (Tabular.spaced inner) >>= Shape.read read).toOption =
      (ofCall isFunction text name inner >>= Shape.read read).toOption := by
  have hargs : (if Text.allBlank (Tabular.spaced inner) then [] else splitTop ',' Scan.start (Tabular.spaced inner)) =
      (if Text.allBlank inner then [] else splitTop ',' Scan.start inner).map Tabular.spaced := by
    rw [splitTop_spaced, Tabular.spaced, allBlank_spacedFrom]
    split <;> rfl
  unfold ofCall at h ⊢
  split
  · rename_i hfunction
    simp only [hfunction, if_true, hargs] at h ⊢
    change (Shape.read read (.call _ _)).toOption = (Shape.read read (.call _ _)).toOption
    refine toOption_bind_congr ?_ fun trees _ => rfl
    simp only [List.mapM_map]
    refine toOption_mapM_congr fun arg hmem => ?_
    refine toOption_bind_partner (Prod.map id Tabular.spaced) (argument_spaced text text' arg) ?_
    rintro ⟨target, body⟩ harg
    exact toOption_bind_congr (h _ body rfl ⟨target, List.mem_map.2 ⟨arg, hmem, harg⟩⟩) fun value _ => rfl
  · rfl

theorem toOption_read_signs (read : List Char → Except FormulaFault Expr) (symbols : List Symbol)
    (operand : List Char) : (Shape.read read (.signs symbols operand)).toOption =
      (read operand).toOption.map (symbols.foldr Symbol.applyTo ·) :=
  toOption_map _ _

/-- The signs in front of an operand are read as they are in the spaced text, where more symbols may lead. -/
theorem toOption_read_leading_spaced {isFunction : String → Bool} {text last : List Char} {found : List Occurrence}
    (hfound : operators text = (found, last)) (hbalanced : Balanced text)
    (hleads : ∀ o ∈ found, ∀ op, o.symbol = .binary op → o.leads = true) (hsettled : ∀ o ∈ found, o.Settled)
    (h : (Expr.parse isFunction (Tabular.spaced (leading found last).2)).toOption =
      (Expr.parse isFunction (leading found last).2).toOption) :
    (Shape.read (Expr.parse isFunction) (.signs (leading (found.map Occurrence.spaced) (Tabular.spaced last)).1
        (leading (found.map Occurrence.spaced) (Tabular.spaced last)).2)).toOption =
      (Shape.read (Expr.parse isFunction) (.signs (leading found last).1 (leading found last).2)).toOption := by
  -- The symbols that lead in the text lead in the spaced text; behind them more may follow there.
  let signs := found.takeWhile (·.leads)
  let more := found.dropWhile (·.leads)
  have hsplit : found = signs ++ more := List.takeWhile_append_dropWhile.symm
  have hsigns : ∀ o ∈ signs.map Occurrence.spaced, o.leads = true := by
    intro o ho
    obtain ⟨p, hp, rfl⟩ := List.mem_map.1 ho
    have hmem : p ∈ (operators text).1 := by rw [hfound, hsplit]; exact List.mem_append_left _ hp
    exact leads_spaced hmem (List.mem_takeWhile_imp hp)
  have hmore : ∀ o ∈ more.map Occurrence.spaced, ∀ op, o.symbol = .binary op → o.leads = true := by
    intro o ho op hop
    obtain ⟨p, hp, rfl⟩ := List.mem_map.1 ho
    have hmem : p ∈ found := hsplit ▸ List.mem_append_right _ hp
    rw [← hsettled p hmem op hop]
    exact hleads p hmem op hop
  have hsplit' : operators text = (signs ++ more, last) := by rw [hfound, ← hsplit]
  have hrest : operators (Tabular.spaced (joined more last)) = (more.map Occurrence.spaced, Tabular.spaced last) := by
    rw [operators_spaced, operators_drop hsplit']
  have hread := @Expr.toOption_parse_leading isFunction _ _ _ hrest
    (balanced_spaced.2 (balanced_drop hsplit' hbalanced)) hmore
  have hleading : leading (found.map Occurrence.spaced) (Tabular.spaced last) =
      (signs.map (·.symbol) ++ (leading (more.map Occurrence.spaced) (Tabular.spaced last)).1,
        (leading (more.map Occurrence.spaced) (Tabular.spaced last)).2) := by
    rw [hsplit, List.map_append, leading_append hsigns, List.map_map]
    rfl
  rw [hleading, toOption_read_signs, toOption_read_signs, ← h]
  change _ = (Expr.parse isFunction (Tabular.spaced (joined more last))).toOption.map _
  rw [hread, Option.map_map]
  simp only [List.foldr_append]
  rfl

theorem toOption_read_signs_spaced {isFunction : String → Bool} {text : List Char} {o : Occurrence}
    {more : List Occurrence} (hfound : (operators text).1 = o :: more) (hbalanced : Balanced text)
    (hsettled : ∀ o ∈ (operators text).1, o.Settled)
    (hloosest : Chain.loosest? (operators text).1 (operators text).2 = none)
    (h : ∀ shape piece, ofSigns text o (operators text).1 (operators text).2 = .ok shape → shape.Inside piece →
      (Expr.parse isFunction (Tabular.spaced piece)).toOption = (Expr.parse isFunction piece).toOption) :
    (ofSigns (Tabular.spaced text) o.spaced (operators (Tabular.spaced text)).1
        (operators (Tabular.spaced text)).2 >>= Shape.read (Expr.parse isFunction)).toOption =
      (ofSigns text o (operators text).1 (operators text).2 >>= Shape.read (Expr.parse isFunction)).toOption := by
  have hguard : (o.spaced.before.isEmpty && o.spaced.leads) = (o.before.isEmpty && o.leads) := by
    obtain ⟨-, hleads⟩ := @of_mem_operators text o (by rw [hfound]; exact List.mem_cons_self)
    rw [hleads, Occurrence.spaced]
    cases o.before with
    | nil => rfl
    | cons c rest => rfl
  unfold ofSigns at h ⊢
  rw [hguard]
  split
  · rename_i hok
    rw [if_pos hok] at h
    rw [operators_spaced]
    exact toOption_read_leading_spaced rfl hbalanced (Chain.loosest?_eq_none_iff.1 hloosest) hsettled (h _ _ rfl rfl)
  · rfl

/-- A text is read by its shape as its spaced text is, if no sign is misplaced in it and the texts inside are read so. -/
theorem toOption_read_ofStripped_spaced {isFunction : String → Bool} {text : List Char} (hbalanced : Balanced text)
    (hplaced : ∀ o ∈ (operators text).1, ¬o.Misplaced)
    (h : ∀ shape piece, ofStripped isFunction text = .ok shape → shape.Inside piece →
      (Expr.parse isFunction (Tabular.spaced piece)).toOption = (Expr.parse isFunction piece).toOption) :
    (ofStripped isFunction (Tabular.spaced text) >>= Shape.read (Expr.parse isFunction)).toOption =
      (ofStripped isFunction text >>= Shape.read (Expr.parse isFunction)).toOption := by
  have hsettled : ∀ o ∈ (operators text).1, o.Settled := fun o ho => settled_of_mem_operators ho (hplaced o ho)
  have hloosest := Chain.loosest?_spaced (fun o ho => (of_mem_operators ho).1) hsettled (operators text).2
  unfold ofStripped at h ⊢
  simp only [operators_spaced, hloosest]
  cases hchain : Chain.loosest? (operators text).1 (operators text).2 with
  | some chain =>
    simp only [hchain] at h
    refine toOption_read_checked_spaced fun c piece hc hpiece => h (.binary c) piece ?_ hpiece
    rw [hc]
    rfl
  | none =>
    simp only [hchain] at h
    cases hfound : (operators text).1 with
    | cons o more =>
      simp only [hfound] at h
      have := @toOption_read_signs_spaced isFunction text o more hfound hbalanced hsettled hchain (by rwa [hfound])
      rw [operators_spaced, hfound] at this
      exact this
    | nil =>
      simp only [hfound] at h
      simp only [Option.map_none, List.map_nil, callParts?_spaced]
      cases hcall : callParts? text with
      | some parts =>
        obtain ⟨name, inner⟩ := parts
        simp only [hcall] at h
        exact toOption_read_call_spaced h
      | none => exact toOption_bind_congr (ofAtom_spaced text) fun _ _ => rfl

end Shape

namespace Expr

variable {isFunction : String → Bool}

/-- A text is read as its spaced text, if no sign is misplaced anywhere in it. -/
theorem toOption_parse_spaced {input : List Char} (h : ¬Misplacing isFunction input) :
    (parse isFunction (spaced input)).toOption = (parse isFunction input).toOption := by
  induction hn : input.length using Nat.strongRecOn generalizing input with
  | ind n ih =>
    have hstrip : stripParens (Text.trim (spaced input)) = spaced (stripParens (Text.trim input)) := by
      rw [trim_spaced, stripParens_spaced]
    by_cases hinput : Balanced input ∧ stripParens (Text.trim input) ≠ []
    · obtain ⟨hbalanced, hne⟩ := hinput
      have htext := @Shape.ofText_eq isFunction _ _ hbalanced rfl hne
      have hspaced := @Shape.ofText_eq isFunction _ _ (balanced_spaced.2 hbalanced) hstrip (by simpa [spaced] using hne)
      rw [parse_eq, parse_eq, htext, hspaced]
      refine Shape.toOption_read_ofStripped_spaced (balanced_stripParens (balanced_trim.2 hbalanced))
        (fun o ho hmisplaced => h (.here ho hmisplaced)) fun shape piece hshape hinside => ?_
      rw [← htext] at hshape
      exact ih piece.length (hn ▸ (Shape.within_ofText hshape).length_lt hinside)
        (fun hpiece => h (.inside hshape hinside hpiece)) rfl
    · have hnone : (parse isFunction input).toOption = none := toOption_eq_none.2 fun e he => by
        obtain ⟨shape, hshape, -⟩ := parse_eq_ok.1 he
        obtain ⟨hbalanced, hne, -⟩ := Shape.ofText_eq_ok.1 hshape
        exact hinput ⟨hbalanced, hne⟩
      rw [hnone]
      refine toOption_eq_none.2 fun e he => ?_
      obtain ⟨shape, hshape, -⟩ := parse_eq_ok.1 he
      obtain ⟨hbalanced, hne, -⟩ := Shape.ofText_eq_ok.1 hshape
      exact hinput ⟨balanced_spaced.1 hbalanced, fun hnil => hne (by rw [hstrip, hnil]; rfl)⟩

end Expr

/-! ## Texts that differ in their blanks -/

/-- The texts differ at most in which blanks stand outside of quotes, when they are scanned from state `s`. -/
inductive AlikeFrom : Scan → List Char → List Char → Prop
  | nil (s : Scan) : AlikeFrom s [] []
  | same {s : Scan} {c : Char} {text text' : List Char} : AlikeFrom (s.step c) text text' →
      AlikeFrom s (c :: text) (c :: text')
  | blank {s : Scan} {c c' : Char} {text text' : List Char} : s.quoted = false → Text.isBlank c = true →
      Text.isBlank c' = true → AlikeFrom s text text' → AlikeFrom s (c :: text) (c' :: text')

/-- Each blank outside of quotes is replaced by some blank. -/
def Alike (text text' : List Char) : Prop := AlikeFrom Scan.start text text'

theorem AlikeFrom.spacedFrom_eq {s : Scan} {text text' : List Char} (h : AlikeFrom s text text') :
    spacedFrom s text = spacedFrom s text' := by
  induction h with
  | nil => rfl
  | same _ ih => rw [spacedFrom, spacedFrom, ih]
  | @blank s c c' _ _ hquoted hc hc' _ ih =>
    have hspaced : s.spaced c = s.spaced c' := by simp [Scan.spaced, hquoted, hc, hc']
    rw [spacedFrom, spacedFrom, hspaced, Scan.step_eq_self_of_isBlank hc, Scan.step_eq_self_of_isBlank hc', ih]

theorem Alike.spaced_eq {text text' : List Char} (h : Alike text text') : spaced text = spaced text' :=
  h.spacedFrom_eq

theorem Alike.balanced_iff {text text' : List Char} (h : Alike text text') : Balanced text ↔ Balanced text' := by
  rw [← balanced_spaced, h.spaced_eq, balanced_spaced]

/-- Texts that are alike assign to the same target, and the values are alike. -/
theorem Alike.exists_ofText {text text' body : List Char} {target : Option String} (h : Alike text text')
    (hbody : Assignable.ofText text = .ok (target, body)) :
    ∃ body', Assignable.ofText text' = .ok (target, body') ∧ spaced body' = spaced body := by
  have hspaced := Assignable.ofText_spaced text
  rw [h.spaced_eq, Assignable.ofText_spaced, hbody] at hspaced
  obtain ⟨⟨target', body'⟩, hbody', heq⟩ := Option.map_eq_some_iff.1 hspaced
  obtain ⟨rfl, hbodies⟩ : target' = target ∧ spaced body' = spaced body := by simpa using heq
  exact ⟨body', toOption_eq_some.1 hbody', hbodies⟩

namespace Formula

/-- A sign is misplaced in the value of the formula, or in a text inside it. -/
def Misplaces (isFunction : String → Bool) (text : String) : Prop :=
  ∃ target body, Assignable.ofText text.toList = .ok (target, body) ∧ Misplacing isFunction body

variable {isFunction : String → Bool}

theorem Misplaces.signBehindBlanks {text : String} (h : Misplaces isFunction text) :
    SignBehindBlanks text.toList := by
  obtain ⟨target, body, hbody, hmisplacing⟩ := h
  exact hmisplacing.signBehindBlanks.of_part (Part.ofText hbody)

theorem Misplaces.exists_fault {text : String} (h : Misplaces isFunction text) :
    ∃ fault, parse isFunction text = .error fault := by
  obtain ⟨target, body, hbody, hmisplacing⟩ := h
  cases hparse : parse isFunction text with
  | error fault => exact ⟨fault, rfl⟩
  | ok f =>
    obtain ⟨-, body', hbody', he⟩ := parse_eq_ok.1 hparse
    obtain ⟨-, rfl⟩ := Prod.mk.inj (Except.ok.inj (hbody.symm.trans hbody'))
    exact absurd he (Expr.parse_ne_ok_of_misplacing hmisplacing _)

theorem parse_of_alike {text text' : String} (h : Alike text.toList text'.toList) {f : Formula}
    (hparse : parse isFunction text = .ok f) (hplaced : ¬Misplaces isFunction text') :
    parse isFunction text' = .ok f := by
  obtain ⟨hbalance, body, hbody, he⟩ := parse_eq_ok.1 hparse
  obtain ⟨body', hbody', hspaced⟩ := h.exists_ofText hbody
  refine parse_eq_ok.2 ⟨?_, body', hbody', ?_⟩
  · rwa [Shape.checkBalance_eq_ok, ← h.balanced_iff, ← Shape.checkBalance_eq_ok]
  · have hplacedBody : ¬Misplacing isFunction body := fun hm => Expr.parse_ne_ok_of_misplacing hm _ he
    rw [← toOption_eq_some, ← Expr.toOption_parse_spaced fun hm => hplaced ⟨_, body', hbody', hm⟩, hspaced,
      Expr.toOption_parse_spaced hplacedBody, toOption_eq_some]
    exact he

/-- Which blanks stand outside of quotes matters to reading at one place only: blanks between an operator and a sign
    that are not all ASCII blanks keep the sign from leading, and then the text is not read. -/
theorem parse_alike (isFunction : String → Bool) {text text' : String} (h : Alike text.toList text'.toList) :
    (∀ f, parse isFunction text = .ok f →
      (parse isFunction text' = .ok f ↔ ¬Misplaces isFunction text')) ∧
    (Misplaces isFunction text' →
      (∃ fault, parse isFunction text' = .error fault) ∧ SignBehindBlanks text'.toList) := by
  refine ⟨fun f hparse => ⟨fun hparse' hmisplaces => ?_, parse_of_alike h hparse⟩,
    fun hmisplaces => ⟨hmisplaces.exists_fault, hmisplaces.signBehindBlanks⟩⟩
  obtain ⟨fault, hfault⟩ := hmisplaces.exists_fault
  simp [hparse'] at hfault

/-- A tab between the operator and the sign is as good as a space, and a vertical tab is not. -/
theorem parse_alike_tab :
    parse Operation.isFunction "a *\t-b" =
      .ok ⟨none, .binary .multiply (.leaf "a") (.call "negate" [.leaf "b"])⟩ ∧
    ∃ fault, parse Operation.isFunction "a *\x0b-b" = .error fault := by
  have halike : ∀ c, Text.isBlank c = true → Alike ['a', ' ', '*', ' ', '-', 'b'] ['a', ' ', '*', c, '-', 'b'] := by
    intro c hc
    have hsign : AlikeFrom Scan.start ['-', 'b'] ['-', 'b'] := .same (.same (.nil _))
    exact .same (.same (.same (.blank rfl (by decide) hc hsign)))
  have hparse : parse Operation.isFunction "a * -b" =
      .ok ⟨none, .binary .multiply (.leaf "a") (.call "negate" [.leaf "b"])⟩ := by
    let a : Operand Operation.isFunction := .ofName [] "a" (by decide)
    let b : Operand Operation.isFunction := .ofName [.minus] "b" (by decide)
    have hgrouped : (Grouping.node .multiply (.operand a) (.operand b)).Grouped 0 := by
      simp only [Grouping.Grouped]
      decide
    exact parse_eq_ok.2 ⟨rfl, _, rfl, Grouping.parse_of_trim hgrouped rfl⟩
  constructor
  · have hlaw := @parse_alike Operation.isFunction "a * -b" "a *\t-b" (halike '\t' (by decide))
    refine (hlaw.1 _ hparse).2 fun hmisplaces => ?_
    exact not_signBehindBlanks (by decide) hmisplaces.signBehindBlanks
  · have hlaw := @parse_alike Operation.isFunction "a * -b" "a *\x0b-b" (halike '\x0b' (by decide))
    have hmisplaces : Misplaces Operation.isFunction "a *\x0b-b" := by
      have ho : ⟨['\x0b'], .binary .subtract, false⟩ ∈
          (operators (stripParens (Text.trim ['a', ' ', '*', '\x0b', '-', 'b']))).1 := by decide +kernel
      exact ⟨none, _, rfl, .here ho ⟨rfl, rfl, by decide⟩⟩
    exact (hlaw.2 hmisplaces).1

end Formula

end Tabular
