-- SUMMARY: Scanning formula text: quotes, nesting, splitting at the top level, and names.
import Tabular.Text.Blank
import Tabular.Text.Letter

/-!
# Scanning

Everything that is found in a formula text is found at the top level: outside quotes and outside
parentheses. One small state, the nesting depth and whether a quote is open, is carried over the
characters by `Scan.step`; the scanners differ in what they look for where the state is at the top.
-/

namespace Tabular

/-! ## The state -/

structure Scan where
  depth : Int
  quoted : Bool
  deriving DecidableEq, Repr

namespace Scan

/-- The state before a text. -/
def start : Scan := ⟨0, false⟩

/-- Pass one character. -/
def step (s : Scan) (c : Char) : Scan :=
  if c = '\'' then { s with quoted := !s.quoted }
  else if s.quoted then s
  else if c = '(' then { s with depth := s.depth + 1 }
  else if c = ')' then { s with depth := s.depth - 1 }
  else s

/-- Pass a text. -/
def run (s : Scan) (text : List Char) : Scan := text.foldl step s

/-- Outside quotes and parentheses. -/
def isTop (s : Scan) : Bool := !s.quoted && s.depth == 0

end Scan

/-! ## Balance -/

inductive Imbalance where
  | parentheses
  | quote
  deriving DecidableEq, Repr

/-- What is wrong with the nesting of a text scanned from state `s`. A parenthesis that closes nothing
    comes before all else; a quote that stays open comes before parentheses that stay open. -/
def imbalanceFrom? (s : Scan) : List Char → Option Imbalance
  | [] =>
    if s.quoted then some .quote
    else if s.depth ≠ 0 then some .parentheses
    else none
  | c :: rest =>
    if (s.step c).depth < 0 then some .parentheses else imbalanceFrom? (s.step c) rest

def imbalance? (text : List Char) : Option Imbalance := imbalanceFrom? Scan.start text

/-! ## Parentheses -/

/-- Split at the parenthesis that closes the innermost one open in state `s`. -/
def closing? (s : Scan) : List Char → Option (List Char × List Char)
  | [] => none
  | c :: rest =>
    if c = ')' ∧ s.quoted = false ∧ s.depth = 1 then some ([], rest)
    else (closing? (s.step c) rest).map fun (inner, after) => (c :: inner, after)

/-- The inside of a text that one pair of parentheses encloses. -/
def enclosed? : List Char → Option (List Char)
  | '(' :: rest =>
    match closing? ⟨1, false⟩ rest with
    | some (inner, []) => some inner
    | _ => none
  | _ => none

theorem length_closing? {s : Scan} {text inner after : List Char}
    (h : closing? s text = some (inner, after)) : inner.length + after.length < text.length := by
  induction text generalizing s inner after with
  | nil => simp [closing?] at h
  | cons c rest ih =>
    simp only [closing?] at h
    split at h
    · obtain ⟨rfl, rfl⟩ := by simpa using h
      simp
    · obtain ⟨⟨inner', after'⟩, hrest, heq⟩ := Option.map_eq_some_iff.1 h
      obtain ⟨rfl, rfl⟩ := by simpa using heq
      have := ih hrest
      simp only [List.length_cons]
      omega

theorem length_enclosed? {text inner : List Char} (h : enclosed? text = some inner) :
    inner.length < text.length := by
  unfold enclosed? at h
  split at h
  · split at h
    · rename_i hclosing
      have := length_closing? hclosing
      simp_all
      omega
    · simp at h
  · simp at h

/-- Drop the parentheses that enclose the whole text, and the blanks inside them, as often as there are
    any. -/
def stripParens (text : List Char) : List Char :=
  match _h : enclosed? text with
  | some inner => stripParens (Text.trim inner)
  | none => text
termination_by text.length
decreasing_by
  have := length_enclosed? _h
  have := Text.length_trim_le inner
  omega

theorem length_stripParens_le (text : List Char) : (stripParens text).length ≤ text.length := by
  induction text using stripParens.induct with
  | case1 text inner hinner ih =>
    rw [stripParens]
    split
    · rename_i inner' h'
      obtain rfl : inner = inner' := by simpa [hinner] using h'
      have := length_enclosed? hinner
      have := Text.length_trim_le inner
      omega
    · exact Nat.le_refl _
  | case2 text h =>
    rw [stripParens]
    split
    · simp_all
    · exact Nat.le_refl _

/-! ## Splitting -/

/-- Split wherever `separator` stands at the top level. -/
def splitTop (separator : Char) (s : Scan) : List Char → List (List Char)
  | [] => [[]]
  | c :: rest =>
    if c = separator ∧ s.isTop then [] :: splitTop separator s rest
    else
      match splitTop separator (s.step c) rest with
      | [] => [[c]]
      | part :: parts => (c :: part) :: parts

theorem length_splitTop {separator : Char} {s : Scan} {text part : List Char}
    (h : part ∈ splitTop separator s text) : part.length ≤ text.length := by
  induction text generalizing s part with
  | nil => simp_all [splitTop]
  | cons c rest ih =>
    simp only [splitTop] at h
    split at h
    · rcases List.mem_cons.1 h with rfl | h
      · simp
      · have := ih h
        simp only [List.length_cons]
        omega
    · split at h
      · simp_all
      · rename_i first parts heq
        rcases List.mem_cons.1 h with rfl | h
        · have := ih (show first ∈ _ from heq ▸ List.mem_cons_self)
          simpa using this
        · have := ih (heq ▸ List.mem_cons_of_mem _ h)
          simp only [List.length_cons]
          omega

/-- Split at the first `:=` at the top level. -/
def splitAssignment? (s : Scan) : List Char → Option (List Char × List Char)
  | [] => none
  | c :: rest =>
    if c = ':' ∧ s.isTop ∧ rest.head? = some '=' then some ([], rest.tail)
    else (splitAssignment? (s.step c) rest).map fun (name, body) => (c :: name, body)

theorem length_splitAssignment? {s : Scan} {text name body : List Char}
    (h : splitAssignment? s text = some (name, body)) : body.length < text.length := by
  induction text generalizing s name body with
  | nil => simp [splitAssignment?] at h
  | cons c rest ih =>
    simp only [splitAssignment?] at h
    split at h
    · obtain ⟨rfl, rfl⟩ := by simpa using h
      simp only [List.length_tail, List.length_cons]
      omega
    · obtain ⟨⟨name', body'⟩, hrest, heq⟩ := Option.map_eq_some_iff.1 h
      obtain ⟨rfl, rfl⟩ := by simpa using heq
      have := ih hrest
      simp only [List.length_cons]
      omega

/-! ## Names -/

def isNameStart (c : Char) : Bool := Text.isLetter c || c == '_'

def isNamePart (c : Char) : Bool := Text.isLetterOrNumeral c || c == '_' || c == '.'

/-- Split off the name that a text begins with; it is empty if there is none. -/
def splitName : List Char → List Char × List Char
  | [] => ([], [])
  | c :: rest =>
    if isNameStart c then (c :: rest.takeWhile isNamePart, rest.dropWhile isNamePart)
    else ([], c :: rest)

/-- Whether the whole text is one name. -/
def isName (text : List Char) : Bool :=
  match text with
  | [] => false
  | c :: rest => isNameStart c && rest.all isNamePart

theorem length_splitName (text : List Char) :
    (splitName text).1.length + (splitName text).2.length = text.length := by
  cases text with
  | nil => rfl
  | cons c rest =>
    simp only [splitName]
    split
    · have := congrArg List.length (@List.takeWhile_append_dropWhile _ isNamePart rest)
      simp only [List.length_append] at this
      simp only [List.length_cons]
      omega
    · simp

end Tabular
