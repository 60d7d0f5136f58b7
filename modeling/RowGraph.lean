import RowGraph.DataType.Json
import RowGraph.Text.Utf8
import RowGraph.Value.Text
import RowGraph.Filter.Basic
import RowGraph.Draw
import RowGraph.Row
import RowGraph.Sql.Statement
import RowGraph.Filter.Compile
import RowGraph.Schema.Registry
import RowGraph.Find.Plan
import RowGraph.Write
import RowGraph.Record.Fold
import RowGraph.Config.Load
import RowGraph.Session.Basic
import RowGraph.Proofs.Draw
import RowGraph.Proofs.Sql.Section
import RowGraph.Proofs.Sql.Spacing
import RowGraph.Proofs.Filter.Checked
import RowGraph.Proofs.Filter.WellFormed
import RowGraph.Proofs.Filter.Visits
import RowGraph.Proofs.Filter.Refusal
import RowGraph.Proofs.Filter.Placed
import RowGraph.Proofs.Filter.Child
import RowGraph.Proofs.Sql.Lexeme
import RowGraph.Proofs.Sql.Numbering
import RowGraph.Proofs.Filter.Bound
import RowGraph.Proofs.Schema.Reached
import RowGraph.Proofs.Find.Inclusion
import RowGraph.Proofs.Find.Compiled
import RowGraph.Proofs.Parameters
import RowGraph.Proofs.Sql.Condition
import RowGraph.Proofs.Filter.Reading
import RowGraph.Proofs.Filter.Meaning
import RowGraph.Proofs.Find.Tables
import RowGraph.Proofs.Json
import RowGraph.Proofs.Row
import RowGraph.Proofs.Find.Labels
import RowGraph.Proofs.Find.Rows
import RowGraph.Proofs.Find.Query
import RowGraph.Proofs.Find.Sections
import RowGraph.Proofs.Find.Valid
import RowGraph.Proofs.Find.Where
import RowGraph.Proofs.Find.Optional
import RowGraph.Proofs.Record.Gathered
import RowGraph.Proofs.Record.Keys
import RowGraph.Proofs.Record.Graph
import RowGraph.Proofs.Record.Reference
import RowGraph.Proofs.Record.InPlace
import RowGraph.Proofs.Schema.Run
import RowGraph.Proofs.Schema.Order
import RowGraph.Proofs.Find.Association
import RowGraph.Proofs.Uniform
import RowGraph.Proofs.Scoped
import RowGraph.Proofs.Counting
import RowGraph.Proofs.Alike
import RowGraph.Proofs.Session
import RowGraph.Proofs.Session.First
import RowGraph.Proofs.Session.Keyed
import RowGraph.Proofs.Requirement
import RowGraph.Proofs.Schema.Wiring
import RowGraph.Proofs.Sql.Parts
import RowGraph.Proofs.Write.Insert
import RowGraph.Proofs.Write.Change
import RowGraph.Proofs.Find.Aliases
import RowGraph.Proofs.Value.Json
import RowGraph.Proofs.Filter.Document
import RowGraph.Proofs.Find.Projection
import RowGraph.Proofs.Record.Rendering
import RowGraph.Proofs.Session.Count
import RowGraph.Proofs.Text.Utf8
import RowGraph.Proofs.Session.Sync
import RowGraph.Proofs.Config
import RowGraph.Proofs.Row.Made
import RowGraph.Proofs.Value.Type
import RowGraph.Proofs.Value.Hash
import RowGraph.Proofs.Record.Hashed
