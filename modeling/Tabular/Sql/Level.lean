-- SUMMARY: Which terms have a value on a row alone, and which need the rows around it.
import Tabular.Sql.Query

/-!
# Levels of terms

A term is on the level of rows if the cells of one row decide its value: it holds no aggregate and no
window function, except inside of a subquery. The operands of aggregates and the keys of groups have to be
on this level. A call of an aggregate takes a statement to the level of groups unless it is broadcast.
-/

namespace Tabular.Sql

/-! ## Parts of terms -/

mutual

/-- Whether a term or a part of it passes a test. Subqueries and broadcast aggregates are parts as a whole:
    what is inside of them is not looked at. -/
def Term.any (test : Term → Bool) : Term → Bool
  | .column name => test (.column name)
  | .literal value => test (.literal value)
  | .convert how operand => test (.convert how operand) || operand.any test
  | .compare how left right => test (.compare how left right) || left.any test || right.any test
  | .case conditions values otherwise =>
    test (.case conditions values otherwise) || Term.anyOf test conditions || Term.anyOf test values
      || otherwise.any test
  | .call function args => test (.call function args) || Term.anyOf test args
  | .rowNumber order => test (.rowNumber order)
  | .quantile operand level => test (.quantile operand level) || operand.any test
  | .broadcast aggregate => test (.broadcast aggregate)
  | .overSource aggregate source => test (.overSource aggregate source)
  | .overGroup aggregate source keys => test (.overGroup aggregate source keys)

def Term.anyOf (test : Term → Bool) : List Term → Bool
  | [] => false
  | term :: more => term.any test || Term.anyOf test more

end

/-! ## Levels -/

namespace Term

/-- A call of an aggregate itself. -/
def isAggregate : Term → Bool
  | .call function _ => function.isAggregate
  | .quantile _ _ => true
  | _ => false

/-- A window function itself. -/
def isWindow : Term → Bool
  | .rowNumber _ => true
  | .broadcast _ => true
  | _ => false

def isColumn : Term → Bool
  | .column _ => true
  | _ => false

/-- A subquery that looks at the row around it. -/
def isCorrelated : Term → Bool
  | .overGroup _ _ _ => true
  | _ => false

/-- Whether the cells of one row decide the value. -/
def isRowLevel (t : Term) : Bool := !t.any fun part => part.isAggregate || part.isWindow

def areRowLevel (terms : List Term) : Bool := terms.all isRowLevel

/-- Whether the term takes its statement to the level of groups. -/
def isGroupLevel (t : Term) : Bool := t.any isAggregate

end Term

end Tabular.Sql
