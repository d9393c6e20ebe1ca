import LadderLogic.Color.Basic
import LadderLogic.Color.Named
import LadderLogic.Color.Reader
import LadderLogic.Command.Arguments
import LadderLogic.Command.Files
import LadderLogic.Command.Log
import LadderLogic.Command.Run
import LadderLogic.Datum
import LadderLogic.Diagnostic
import LadderLogic.Diagram
import LadderLogic.Element
import LadderLogic.Failure
import LadderLogic.Json.Export
import LadderLogic.Json.Value
import LadderLogic.Layout
import LadderLogic.Main
import LadderLogic.Markup.Character
import LadderLogic.Markup.Cursor
import LadderLogic.Markup.Document
import LadderLogic.Markup.Error
import LadderLogic.Markup.Name
import LadderLogic.Markup.Node
import LadderLogic.Markup.Reference
import LadderLogic.Markup.Tag
import LadderLogic.Number.Digit
import LadderLogic.Number.Literal
import LadderLogic.Number.Numeral
import LadderLogic.Number.Scalar
import LadderLogic.Number.Shortest
import LadderLogic.Proofs.PowerFlow
import LadderLogic.Proofs.Tracing
import LadderLogic.Reading
import LadderLogic.Render
import LadderLogic.Rung
import LadderLogic.Settings.Basic
import LadderLogic.Settings.Check
import LadderLogic.Settings.Decode
import LadderLogic.Svg.Drawing
import LadderLogic.Svg.Node
import LadderLogic.Text.Blank
import LadderLogic.Text.Printable
import LadderLogic.Text.Span
import LadderLogic.Toml.Document
import LadderLogic.Toml.Parsed
import LadderLogic.Toml.Plain
import LadderLogic.Toml.Quoted
import LadderLogic.Toml.Table
import LadderLogic.Proofs.ChainView
import LadderLogic.Proofs.PrimaryChain
import LadderLogic.Proofs.Continuity
import LadderLogic.Proofs.BodyReading
import LadderLogic.Proofs.Declarations
import LadderLogic.Proofs.Warnings
import LadderLogic.Proofs.LayoutShape
import LadderLogic.Proofs.StrictAndLenient
import LadderLogic.Proofs.RunOutcome
import LadderLogic.Proofs.NumberText
import LadderLogic.Proofs.JsonText
import LadderLogic.Proofs.LabelText
import LadderLogic.Proofs.Rounding
import LadderLogic.Proofs.Binary32
import LadderLogic.Proofs.FinitePage
import LadderLogic.Proofs.SourcePositions
import LadderLogic.Proofs.PageTiling
import LadderLogic.Proofs.SourceLabels
import LadderLogic.Proofs.AppendedRungs
import LadderLogic.Proofs.TraceComposition
import LadderLogic.Proofs.ReadingVerdict
import LadderLogic.Proofs.DrawingTree
import LadderLogic.Proofs.DrawnParts
import LadderLogic.Proofs.SymbolEdges
import LadderLogic.Proofs.CoilArcs
import LadderLogic.Proofs.RenderFaults
import LadderLogic.Proofs.SettingsSource
