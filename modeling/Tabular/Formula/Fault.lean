-- SUMMARY: What can be wrong with the text of a formula.
import Tabular.Text.Escaped

/-!
# Faults of formula text

The causes for which a text is no formula. Each holds the piece of text that it was found in.
-/

namespace Tabular

inductive FormulaFault where
  | unbalanced (text : String)
  | unterminated (text : String)
  | empty (input : String)
  | missingLeft (symbol text : String)
  | missingRight (symbol text : String)
  | misplaced (symbol text : String)
  | emptyArgument (text : String)
  | malformedLiteral (text : String)
  | unreadable (text : String)
  | invalidTarget (name : String)
  | unknownFunction (name : String)
  deriving DecidableEq, Repr

namespace FormulaFault

/-- The text of a fault. An unknown function is named by whoever reports it. -/
def message : FormulaFault → String
  | unbalanced text => s!"unbalanced parentheses in {Text.escaped text}"
  | unterminated text => s!"unterminated string in {Text.escaped text}"
  | empty input => s!"empty expression in {Text.escaped input}"
  | missingLeft symbol text => s!"invalid leading operator {Text.escaped symbol} in {Text.escaped text}"
  | missingRight symbol text => s!"missing right operand of {Text.escaped symbol} in {Text.escaped text}"
  | misplaced symbol text => s!"unexpected operator {Text.escaped symbol} in {Text.escaped text}"
  | emptyArgument text => s!"empty argument in {Text.escaped text}"
  | malformedLiteral text => s!"malformed string literal {Text.escaped text}"
  | unreadable text => s!"cannot parse {Text.escaped text}"
  | invalidTarget name => s!"invalid assignment target {Text.escaped name}"
  | unknownFunction name => name

end FormulaFault

end Tabular
