-- SUMMARY: Dependencies and static types only depend on the tokens of a formula.
import Tabular.Evaluation.StaticType
import Tabular.Formula.Dependency

/-!
# Dependencies

The tokens that an evaluation looks up are among all bare tokens of the tree, so two frames that agree on these give
a formula the same dependencies, and the same static type if they give these tokens the same types.
-/

namespace Tabular.Expr

mutual

theorem reads_subset (e : Expr) : e.reads ⊆ e.tokens := by
  cases e with
  | quoted content => exact List.Subset.refl _
  | leaf token => exact List.Subset.refl _
  | binary op left right =>
    rw [reads, tokens]
    exact List.append_subset.2 ⟨List.subset_append_of_subset_left _ (reads_subset left),
      List.subset_append_of_subset_right _ (reads_subset right)⟩
  | call name args =>
    have htail : tokensOf args.tail ⊆ tokensOf args := by
      cases args with
      | nil => exact List.Subset.refl _
      | cons arg more => exact List.subset_append_right _ _
    unfold reads
    split
    · exact List.Subset.refl _
    · exact htail
    · exact readsOf_subset args
  | assign name value => exact reads_subset value

theorem readsOf_subset (args : List Expr) : readsOf args ⊆ tokensOf args := by
  match args with
  | [] => exact List.Subset.refl _
  | arg :: more =>
    rw [readsOf, tokensOf]
    exact List.append_subset.2 ⟨List.subset_append_of_subset_left _ (reads_subset arg),
      List.subset_append_of_subset_right _ (readsOf_subset more)⟩

end

theorem tokens_subset_tokensOf {arg : Expr} {args : List Expr} (h : arg ∈ args) : arg.tokens ⊆ tokensOf args := by
  induction args with
  | nil => simp at h
  | cons first more ih =>
    rcases List.mem_cons.1 h with rfl | h
    · exact List.subset_append_left _ _
    · exact List.subset_append_of_subset_right _ (ih h)

/-- Dependencies only ask which of the tokens are columns. -/
theorem dependencies_congr {e : Expr} {p q : String → Bool} (h : ∀ token ∈ e.tokens, p token = q token) :
    e.dependencies p = e.dependencies q := by
  unfold dependencies
  rw [List.filter_congr fun token ht => h token (e.reads_subset ht)]

/-- A dependency is a token that is read and is a column. -/
theorem mem_dependencies {isColumn : String → Bool} {e : Expr} {name : String} :
    name ∈ e.dependencies isColumn ↔ name ∈ e.reads ∧ isColumn name = true := by
  unfold dependencies
  rw [List.mem_eraseDups, List.mem_mergeSort, List.mem_filter]

/-! ## Types -/

mutual

/-- The static type only asks for the types of the tokens. -/
theorem staticType_congr {patterns : List String} {schema schema' : String → Option DataType} {e : Expr}
    (h : ∀ token ∈ e.tokens, schema' token = schema token) :
    e.staticType patterns schema' = e.staticType patterns schema := by
  cases e with
  | quoted content => rfl
  | leaf token => rw [staticType, staticType, h token List.mem_cons_self]
  | binary op left right =>
    have hleft : left.staticType patterns schema' = left.staticType patterns schema :=
      staticType_congr fun token ht => h token (List.mem_append_left _ ht)
    have hright : right.staticType patterns schema' = right.staticType patterns schema :=
      staticType_congr fun token ht => h token (List.mem_append_right _ ht)
    rw [staticType, staticType, hleft, hright]
  | call name args =>
    have hargs : staticTypes patterns schema' args = staticTypes patterns schema args := staticTypes_congr h
    unfold staticType
    split
    · split
      · rename_i inner
        exact staticType_congr fun token ht => h token (List.mem_append_left _ ht)
      · rfl
    · rfl
    · rw [hargs]
  | assign name value => rfl

theorem staticTypes_congr {patterns : List String} {schema schema' : String → Option DataType} {args : List Expr}
    (h : ∀ token ∈ tokensOf args, schema' token = schema token) :
    staticTypes patterns schema' args = staticTypes patterns schema args := by
  match args with
  | [] => rfl
  | arg :: more =>
    have hfirst : arg.staticType patterns schema' = arg.staticType patterns schema :=
      staticType_congr fun token ht => h token (List.mem_append_left _ ht)
    have hmore : staticTypes patterns schema' more = staticTypes patterns schema more :=
      staticTypes_congr fun token ht => h token (List.mem_append_right _ ht)
    rw [staticTypes, staticTypes, hfirst, hmore]

end

end Tabular.Expr
