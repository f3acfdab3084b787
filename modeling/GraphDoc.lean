import GraphDoc.CommandLine.Run
import GraphDoc.Input.Preparation
import GraphDoc.Main
import GraphDoc.Naming.Asked
import GraphDoc.Proofs.Selection.Walk
import GraphDoc.Selection.Choice
import GraphDoc.Service
import GraphDoc.Proofs.Selection.Typing
import GraphDoc.Proofs.Schema.Consistency
import GraphDoc.Proofs.Selection.Descent
import GraphDoc.Proofs.Document.Shape
import GraphDoc.Proofs.Document.Independence
import GraphDoc.Proofs.Document.Names
import GraphDoc.Proofs.Document.Named
import GraphDoc.Proofs.Document.Lexeme
import GraphDoc.Proofs.Document.Spelling
import GraphDoc.Proofs.Document.Reading
import GraphDoc.Proofs.Document.Variables
import GraphDoc.Proofs.Document.Siblings
import GraphDoc.Proofs.Selection.Default
import GraphDoc.Proofs.Selection.OtherTables
import GraphDoc.Proofs.Selection.RoundTrip
import GraphDoc.Proofs.Service.Status
import GraphDoc.Proofs.Selection.Checked
import GraphDoc.Proofs.Expansion.Growth
import GraphDoc.Proofs.Service.FrontEnds
import GraphDoc.Proofs.Schema.Columns
import GraphDoc.Proofs.Selection.Presets
import GraphDoc.Proofs.Input.Touched
import GraphDoc.Proofs.Input.Overlay
import GraphDoc.Proofs.Input.Listed
import GraphDoc.Proofs.Input.Unchanged
import GraphDoc.Proofs.Input.Pruned
import GraphDoc.Proofs.Input.Tracking
import GraphDoc.Proofs.Selection.Culprit
import GraphDoc.Proofs.Selection.Grammar
import GraphDoc.Proofs.Schema.Report
import GraphDoc.Proofs.Options.Spellings
import GraphDoc.Proofs.Options.Order
import GraphDoc.Proofs.Selection.Fetched
import GraphDoc.Proofs.Schema.Groups
import GraphDoc.Proofs.Naming.Wire
