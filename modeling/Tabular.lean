import Tabular.CategoryMap
import Tabular.Date.Pattern
import Tabular.Decimal.Layout
import Tabular.Decimal.Reading
import Tabular.Formula.Parse
import Tabular.Memory.Frame
import Tabular.Operation.Registry
import Tabular.Options
import Tabular.Proofs.CategoryMap
import Tabular.Proofs.CategoryMap.Codes
import Tabular.Proofs.ColumnSet
import Tabular.Proofs.Evaluation.Calls
import Tabular.Proofs.Evaluation.Contract
import Tabular.Proofs.Evaluation.Ending
import Tabular.Proofs.Evaluation.Grouping
import Tabular.Proofs.Evaluation.Invariant
import Tabular.Proofs.Evaluation.Marks
import Tabular.Proofs.Evaluation.Progress
import Tabular.Proofs.Evaluation.Simulation
import Tabular.Proofs.Evaluation.StaticType
import Tabular.Proofs.Evaluation.Table
import Tabular.Proofs.Evaluation.Uniform
import Tabular.Proofs.Failure
import Tabular.Proofs.Formula.Characters
import Tabular.Proofs.Formula.Nesting
import Tabular.Proofs.Formula.Operand
import Tabular.Proofs.Formula.Operators
import Tabular.Proofs.Formula.Precedence
import Tabular.Proofs.Formula.Printing
import Tabular.Proofs.Formula.Reread
import Tabular.Proofs.Formula.RoundTrip
import Tabular.Proofs.Formula.Token
import Tabular.Proofs.Formula.Trim
import Tabular.Proofs.Formula.WellFormed
import Tabular.Proofs.Memory.Assignment
import Tabular.Proofs.Memory.Calls
import Tabular.Proofs.Memory.Categories
import Tabular.Proofs.Memory.Classes
import Tabular.Proofs.Memory.Decoding
import Tabular.Proofs.Memory.Dependency
import Tabular.Proofs.Memory.Empty
import Tabular.Proofs.Memory.Evaluate
import Tabular.Proofs.Memory.Exact
import Tabular.Proofs.Memory.Frame
import Tabular.Proofs.Memory.Grouping
import Tabular.Proofs.Memory.Kernel
import Tabular.Proofs.Memory.Legitimate
import Tabular.Proofs.Memory.Provenance
import Tabular.Proofs.Memory.Reached
import Tabular.Proofs.Memory.Rearrange
import Tabular.Proofs.Memory.Selection
import Tabular.Proofs.Memory.Sorting
import Tabular.Proofs.Memory.Spanning
import Tabular.Proofs.Memory.Total
import Tabular.Proofs.Memory.Uniform
import Tabular.Proofs.Results
import Tabular.Proofs.Series
import Tabular.Proofs.Sql.Agreement
import Tabular.Proofs.Sql.Brackets
import Tabular.Proofs.Sql.Choice
import Tabular.Proofs.Sql.Compose
import Tabular.Proofs.Sql.Derive
import Tabular.Proofs.Sql.Evaluate
import Tabular.Proofs.Sql.Frame
import Tabular.Proofs.Sql.Froms
import Tabular.Proofs.Sql.Grouped
import Tabular.Proofs.Sql.Index
import Tabular.Proofs.Sql.Journal
import Tabular.Proofs.Sql.Keys
import Tabular.Proofs.Sql.Layers
import Tabular.Proofs.Sql.Level
import Tabular.Proofs.Sql.Lexical
import Tabular.Proofs.Sql.Lineage
import Tabular.Proofs.Sql.Literal
import Tabular.Proofs.Sql.Load
import Tabular.Proofs.Sql.Nesting
import Tabular.Proofs.Sql.Order
import Tabular.Proofs.Sql.Record
import Tabular.Proofs.Sql.Rows
import Tabular.Proofs.Sql.SameSchema
import Tabular.Proofs.Sql.Sources
import Tabular.Proofs.Sql.Spelling
import Tabular.Proofs.Sql.Store
import Tabular.Proofs.Sql.Store.View
import Tabular.Proofs.Sql.Uses
import Tabular.Proofs.Sql.Vocabulary
import Tabular.Proofs.Sql.Work
import Tabular.Proofs.Value.Cast
import Tabular.Proofs.Value.Text
import Tabular.Sql.Load
import Tabular.Sql.Script
import Tabular.Sql.Store
import Tabular.Text.Blank
import Tabular.Text.Escaped
import Tabular.Text.Letter
import Tabular.Text.Quoted
import Tabular.Proofs.Formula.Sign
import Tabular.Proofs.Value.Code
import Tabular.Proofs.Formula.Dangling
import Tabular.Proofs.Formula.Blanks
import Tabular.Proofs.Formula.Parts
import Tabular.Proofs.Formula.Balance
import Tabular.Proofs.Memory.Broadcast
import Tabular.Proofs.Memory.InPlace
