-- SUMMARY: Terms and queries: composed SQL as trees, and their text.
import Tabular.Sql.Spelling

/-!
# Terms and queries

A term stands for one value of a row or of a group; a query stands for rows. Statements are composed as
trees, and every tree has a text in a given dialect. A term refers to a column of the source it is
evaluated on by name. Subqueries go back to the named source that the surrounding query selects from.
-/

namespace Tabular.Sql

/-- Sort keys, all in one direction. -/
structure SortOrder where
  keys : List String
  ascending : Bool
  deriving DecidableEq, Repr

inductive Term where
  | column (name : String)
  | literal (value : Value)
  | convert (how : Conversion) (operand : Term)
  | compare (how : Comparison) (left right : Term)
  | case (conditions values : List Term) (otherwise : Term)
  | call (function : Function) (args : List Term)
  /-- The number of the row in the order of the source. -/
  | rowNumber (order : Option SortOrder)
  | quantile (operand : Term) (level : Float)
  /-- The value of an aggregate on every row. -/
  | broadcast (aggregate : Term)
  /-- An aggregate over all rows of the source. -/
  | overSource (aggregate : Term) (source : String)
  /-- An aggregate over the rows of the source that share the keys of the current row. -/
  | overGroup (aggregate : Term) (source : String) (keys : List String)

/-- A term and the name of the output column that holds it. -/
structure Field where
  term : Term
  name : String

inductive Query where
  /-- A statement given as text. -/
  | statement (text : String)
  /-- All columns of a table. -/
  | table (name : String)
  /-- Fields over the rows of `source`, which is given the name `name`. -/
  | select (name : String) (source : Query) (fields : List Field) (groupBy : List Term)
      (order : Option SortOrder)
  /-- Rows of literals. -/
  | literals (rows : List (List Field))

/-! ## Text -/

def SortOrder.text (o : SortOrder) : Fragment := Spelling.orderBy (o.keys.map Spelling.ident) o.ascending

mutual

def Term.text (d : Dialect) : Term → Fragment
  | .column name => Spelling.ident name
  | .literal value => Spelling.literal value
  | .convert how operand => Spelling.convert d (operand.text d) how
  | .compare how left right => Spelling.compare how (left.text d) (right.text d)
  | .case conditions values otherwise =>
    Spelling.case (Term.texts d conditions) (Term.texts d values) (otherwise.text d)
  | .call function args => Spelling.call function (Term.texts d args)
  | .rowNumber order => Spelling.rowNumber (order.map SortOrder.text)
  | .quantile operand level => Spelling.quantile (operand.text d) level
  | .broadcast aggregate => Spelling.broadcast (aggregate.text d)
  | .overSource aggregate source => Spelling.scalarSubquery (aggregate.text d) source
  | .overGroup aggregate source keys =>
    Spelling.groupSubquery d (aggregate.text d) source (keys.map Spelling.ident)

def Term.texts (d : Dialect) : List Term → List Fragment
  | [] => []
  | term :: more => term.text d :: Term.texts d more

end

def Field.text (d : Dialect) (f : Field) : Fragment := Spelling.field (f.term.text d) f.name

def Query.text (d : Dialect) : Query → String
  | .statement text => text
  | .table name => Spelling.table name
  | .select name source fields groupBy order =>
    Spelling.select name (source.text d) (fields.map (Field.text d)) (groupBy.map (Term.text d))
      (order.map SortOrder.text)
  | .literals rows => Spelling.unionAll (rows.map fun fields => Spelling.row (fields.map (Field.text d)))

end Tabular.Sql
