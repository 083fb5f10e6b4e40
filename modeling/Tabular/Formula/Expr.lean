-- SUMMARY: Formulas as trees, and the text of a tree.
import Tabular.Formula.Symbol
import Tabular.Text.Quoted

/-!
# Formula trees

A formula is a tree of operator applications and calls over quoted texts and bare tokens, with an
optional name that its value is assigned to. An assignment inside a tree only occurs as an argument of a
call. The text of a tree puts every binary operator between parentheses, so that it can be read back.
-/

namespace Tabular

inductive Expr where
  /-- A quoted text. A text that a date pattern fits stands for that date where an operation takes it. -/
  | quoted (content : String)
  /-- A bare token: a column or a constant. -/
  | leaf (token : String)
  | binary (op : BinaryOp) (left right : Expr)
  | call (name : String) (args : List Expr)
  /-- `name := value`, as an argument of `by`. -/
  | assign (name : String) (value : Expr)

/-- A tree and the name that its value is given. -/
structure Formula where
  target : Option String
  expr : Expr

/-! ## Text -/

mutual

/-- The characters of a tree. -/
def Expr.chars : Expr → List Char
  | .quoted content => '\'' :: Text.double '\'' content.toList ++ ['\'']
  | .leaf token => token.toList
  | .binary op left right => '(' :: left.chars ++ ' ' :: op.spelling ++ ' ' :: right.chars ++ [')']
  | .call name args => name.toList ++ '(' :: Expr.argumentChars args ++ [')']
  | .assign name value => name.toList ++ ' ' :: ':' :: '=' :: ' ' :: value.chars

/-- The characters of arguments, with commas between them. -/
def Expr.argumentChars : List Expr → List Char
  | [] => []
  | [arg] => arg.chars
  | arg :: more => arg.chars ++ ',' :: ' ' :: Expr.argumentChars more

end

mutual

/-- The characters of a tree with a text behind them. No character is passed on from level to level, so the
    time is that of the text's length however the tree leans. -/
def Expr.charsThen : Expr → List Char → List Char
  | .quoted content, rest => '\'' :: Text.double '\'' content.toList ++ '\'' :: rest
  | .leaf token, rest => token.toList ++ rest
  | .binary op left right, rest =>
    '(' :: left.charsThen (' ' :: op.spelling ++ ' ' :: right.charsThen (')' :: rest))
  | .call name args, rest => name.toList ++ '(' :: Expr.argumentCharsThen args (')' :: rest)
  | .assign name value, rest => name.toList ++ ' ' :: ':' :: '=' :: ' ' :: value.charsThen rest

/-- The characters of arguments with a text behind them. -/
def Expr.argumentCharsThen : List Expr → List Char → List Char
  | [], rest => rest
  | [arg], rest => arg.charsThen rest
  | arg :: more, rest => arg.charsThen (',' :: ' ' :: Expr.argumentCharsThen more rest)

end

mutual

theorem Expr.charsThen_eq (e : Expr) (rest : List Char) : e.charsThen rest = e.chars ++ rest := by
  cases e with
  | quoted content => simp [Expr.charsThen, Expr.chars]
  | leaf token => simp [Expr.charsThen, Expr.chars]
  | binary op left right =>
    simp [Expr.charsThen, Expr.chars, Expr.charsThen_eq left, Expr.charsThen_eq right]
  | call name args => simp [Expr.charsThen, Expr.chars, Expr.argumentCharsThen_eq args]
  | assign name value => simp [Expr.charsThen, Expr.chars, Expr.charsThen_eq value]

theorem Expr.argumentCharsThen_eq (args : List Expr) (rest : List Char) :
    Expr.argumentCharsThen args rest = Expr.argumentChars args ++ rest := by
  match args with
  | [] => simp [Expr.argumentCharsThen, Expr.argumentChars]
  | [arg] => simp [Expr.argumentCharsThen, Expr.argumentChars, Expr.charsThen_eq arg]
  | arg :: next :: more =>
    simp [Expr.argumentCharsThen, Expr.argumentChars, Expr.charsThen_eq arg,
      Expr.argumentCharsThen_eq (next :: more)]

end

def Expr.text (e : Expr) : String := String.ofList (e.charsThen [])

theorem Expr.text_eq (e : Expr) : e.text = String.ofList e.chars := by
  simp [Expr.text, Expr.charsThen_eq]

/-- The characters of a formula. -/
def Formula.chars (f : Formula) : List Char :=
  match f.target with
  | none => f.expr.chars
  | some name => name.toList ++ ' ' :: ':' :: '=' :: ' ' :: f.expr.chars

def Formula.text (f : Formula) : String :=
  match f.target with
  | none => f.expr.text
  | some name => name ++ " := " ++ f.expr.text

theorem Formula.text_eq (f : Formula) : f.text = String.ofList f.chars := by
  unfold Formula.text Formula.chars
  split
  · exact Expr.text_eq _
  · apply String.ext
    simp [Expr.text_eq]

end Tabular
