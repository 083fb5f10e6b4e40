-- SUMMARY: The spelling of SQL: what fragments and statements look like, given the fragments inside them.
import Tabular.Sql.Dialect

/-!
# Spelling

A fragment is a piece of SQL text that stands for one value. The functions below put fragments together.
Names stand between double quotes and texts between single quotes; a quote inside is written twice, so
that neither can end early. Composed operators carry their own parentheses.
-/

namespace Tabular.Sql

/-- SQL text for one value. -/
abbrev Fragment := String

namespace Spelling

/-! ## Names and literals -/

/-- A name of a table or column. -/
def ident (name : String) : Fragment := Text.quoted '"' name

/-- A value. Dates are written as text. -/
def literal : Value → Fragment
  | .null => "NULL"
  | .integer n => (Value.integer n).text
  | .float x => (Value.float x).text
  | .string s => Text.quoted '\'' s
  | .date d => "'" ++ d.text ++ "'"

/-! ## Operations -/

/-- A value of another type. -/
def convert (d : Dialect) (expr : Fragment) : Conversion → Fragment
  | .same => expr
  | .cast target => "CAST(" ++ expr ++ " AS " ++ d.typeName target ++ ")"
  | .parseDate => "date(" ++ expr ++ ")"
  | .dateCode target => "CAST(strftime('%Y%m%d', " ++ expr ++ ") AS " ++ d.typeName target ++ ")"
  | .fromDateCode =>
    let code := "CAST(" ++ expr ++ " AS " ++ d.typeName .integer ++ ")"
    "printf('%04d-%02d-%02d', " ++ code ++ " / 10000, (" ++ code ++ " / 100) % 100, " ++ code ++ " % 100)"

/-- The condition of each branch and its value. -/
def branches : List (Fragment × Fragment) → String
  | [] => ""
  | (condition, value) :: more => " WHEN " ++ condition ++ " THEN " ++ value ++ branches more

/-- The value of the first branch whose condition holds. Without conditions it is the last value alone. -/
def case (conditions values : List Fragment) (otherwise : Fragment) : Fragment :=
  if conditions.isEmpty then otherwise
  else "CASE" ++ branches (conditions.zip values) ++ " ELSE " ++ otherwise ++ " END"

def compare (c : Comparison) (left right : Fragment) : Fragment :=
  "(" ++ left ++ " " ++ c.symbol ++ " " ++ right ++ ")"

/-- Operands with an operator between them. -/
def infixed (operator : String) (args : List Fragment) : Fragment :=
  "(" ++ (" " ++ operator ++ " ").intercalate args ++ ")"

/-- Operands after the name of a function. -/
def applied (name : String) (args : List Fragment) : Fragment :=
  name ++ "(" ++ ", ".intercalate args ++ ")"

def call (f : Function) (args : List Fragment) : Fragment :=
  match f with
  | .add => infixed "+" args
  | .subtract => infixed "-" args
  | .multiply => infixed "*" args
  | .divide => infixed "/" args
  | .concat => infixed "||" args
  | .and => infixed "AND" args
  | .or => infixed "OR" args
  | .not => "(NOT " ++ ", ".intercalate args ++ ")"
  | .negate => "(- " ++ ", ".intercalate args ++ ")"
  | .log => applied "ln" args
  | .abs => applied "abs" args
  | .exp => applied "exp" args
  | .sqrt => applied "sqrt" args
  | .pow => applied "pow" args
  | .sum => applied "sum" args
  | .mean => applied "avg" args
  | .count => applied "count" args
  | .min => applied "min" args
  | .max => applied "max" args

/-- The number of the row, from zero. -/
def rowNumber : Option Fragment → Fragment
  | some order => "(ROW_NUMBER() OVER (ORDER BY " ++ order ++ ") - 1)"
  | none => "(ROW_NUMBER() OVER () - 1)"

def quantile (expr : Fragment) (level : Float) : Fragment :=
  "percentile_cont(" ++ (Value.float level).text ++ ") WITHIN GROUP (ORDER BY " ++ expr ++ ")"

/-! ## Aggregates elsewhere -/

/-- The value of an aggregate on every row. -/
def broadcast (aggregate : Fragment) : Fragment := aggregate ++ " OVER ()"

/-- An aggregate over every row of a source. -/
def scalarSubquery (aggregate : Fragment) (source : String) : Fragment :=
  "(SELECT " ++ aggregate ++ " FROM " ++ source ++ ")"

/-- Equality that also holds between nulls. -/
def same (d : Dialect) (left right : Fragment) : Fragment :=
  match d with
  | .sqlite => "(" ++ left ++ " IS " ++ right ++ ")"
  | .ansi => "(" ++ left ++ " IS NOT DISTINCT FROM " ++ right ++ ")"

/-- The name of a source inside a subquery over one of its groups. -/
def groupAlias (source : String) : String := source ++ "_g"

/-- An aggregate over the rows of a source that share the keys of the current row. -/
def groupSubquery (d : Dialect) (aggregate : Fragment) (source : String) (keys : List Fragment) : Fragment :=
  let inner := groupAlias source
  let condition := " AND ".intercalate
    (keys.map fun key => same d (inner ++ "." ++ key) (source ++ "." ++ key))
  "(SELECT " ++ aggregate ++ " FROM " ++ source ++ " AS " ++ inner ++ " WHERE " ++ condition ++ ")"

/-! ## Statements -/

/-- An output column. -/
def field (expr : Fragment) (name : String) : Fragment := expr ++ " AS " ++ ident name

/-- Sort keys, all in one direction. -/
def orderBy (keys : List Fragment) (ascending : Bool) : Fragment :=
  let direction := if ascending then " ASC" else " DESC"
  ", ".intercalate (keys.map (· ++ direction))

def groupClause (keys : List Fragment) : String :=
  if keys.isEmpty then "" else " GROUP BY " ++ ", ".intercalate keys

def orderClause : Option Fragment → String
  | none => ""
  | some order => " ORDER BY " ++ order

/-- Output columns over a source that has been given a name. Without columns, all of them. -/
def select (name source : String) (fields groupBy : List Fragment) (order : Option Fragment) : String :=
  let listed := if fields.isEmpty then "*" else ", ".intercalate fields
  "WITH " ++ name ++ " AS (" ++ source ++ ") SELECT " ++ listed ++ " FROM " ++ name ++
    groupClause groupBy ++ orderClause order

/-- All columns of a table. -/
def table (name : String) : String := "SELECT * FROM " ++ ident name

/-- One row. -/
def row (fields : List Fragment) : String := "SELECT " ++ ", ".intercalate fields

/-- Rows one after another. -/
def unionAll (rows : List String) : String := " UNION ALL ".intercalate rows

end Spelling

end Tabular.Sql
