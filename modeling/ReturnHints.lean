import ReturnHints.Decimal.Layout
import ReturnHints.Decimal.Scaled
import ReturnHints.Decimal.Shortest
import ReturnHints.Hint.Basic
import ReturnHints.Hint.Plan
import ReturnHints.Hint.Signature
import ReturnHints.Json.Fault
import ReturnHints.Json.Record
import ReturnHints.Json.Scalar
import ReturnHints.Json.Value
import ReturnHints.Json.Write
import ReturnHints.LineMap
import ReturnHints.Log.Event
import ReturnHints.Log.Filter
import ReturnHints.Log.Level
import ReturnHints.Log.Setup
import ReturnHints.Log.Traced
import ReturnHints.Log.Walk
import ReturnHints.Options
import ReturnHints.Oracle
import ReturnHints.Position
import ReturnHints.Report
import ReturnHints.Text.Blank
import ReturnHints.Text.Hidden
import ReturnHints.Text.Quoted
import ReturnHints.Text.Units
import ReturnHints.Tree.Arena
import ReturnHints.Tree.File
import ReturnHints.Tree.Kind
import ReturnHints.Tree.Session
import ReturnHints.Tree.Walk
import ReturnHints.Wire.Hint
import ReturnHints.Wire.Node
import ReturnHints.Wire.Options
import ReturnHints.Wire.Report
import ReturnHints.Proofs.Text.Boundary
import ReturnHints.Proofs.Text.Search
import ReturnHints.Proofs.Text.Word
import ReturnHints.Proofs.Tree.Forest
import ReturnHints.Proofs.Tree.Climb
import ReturnHints.Proofs.Tree.Preorder
import ReturnHints.Proofs.Session.Turn
import ReturnHints.Proofs.Tree.Numbered
import ReturnHints.Proofs.Session.Growth
import ReturnHints.Proofs.Session.Record
import ReturnHints.Proofs.Hint.Plan
import ReturnHints.Proofs.Hint.Children
import ReturnHints.Proofs.Hint.History
import ReturnHints.Proofs.LineMap
import ReturnHints.Proofs.Session.Lexeme
import ReturnHints.Proofs.Session.Search
import ReturnHints.Proofs.Hint.Insertion
import ReturnHints.Proofs.Report
import ReturnHints.Proofs.Hint.Signature
import ReturnHints.Proofs.Session.Outline
import ReturnHints.Proofs.Session.Failure
import ReturnHints.Proofs.Session.Nesting
import ReturnHints.Proofs.Report.Isolation
import ReturnHints.Proofs.Report.Selection
import ReturnHints.Proofs.LineMap.Scan
import ReturnHints.Proofs.LineMap.Step
import ReturnHints.Proofs.LineMap.Order
import ReturnHints.Proofs.LineMap.Lines
import ReturnHints.Proofs.LineMap.Edit
import ReturnHints.Proofs.Json.Grammar
import ReturnHints.Proofs.Json.Object
import ReturnHints.Proofs.Json.Number
import ReturnHints.Proofs.Json.Strict
import ReturnHints.Proofs.Wire.Switch
import ReturnHints.Proofs.Wire.Options
import ReturnHints.Proofs.Json.Skip
import ReturnHints.Proofs.Json.AnyOrder
import ReturnHints.Proofs.Json.Written
import ReturnHints.Proofs.Wire.AnyOrder
import ReturnHints.Proofs.Wire.Hint
import ReturnHints.Proofs.Session.Naming
