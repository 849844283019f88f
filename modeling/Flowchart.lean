import Flowchart.Config.Json
import Flowchart.Main
import Flowchart.Proofs.Layout.Rank
import Flowchart.Proofs.Scene.Dump
import Flowchart.Proofs.Script.Literal
import Flowchart.Proofs.Source.Cascade
import Flowchart.Proofs.Command.Blocks
import Flowchart.Proofs.Diagram.Directive
import Flowchart.Proofs.Source.Aside
import Flowchart.Proofs.Source.Continuation
import Flowchart.Proofs.Source.Semicolon
import Flowchart.Proofs.Source.Malformed
import Flowchart.Proofs.Source.WellFormed
import Flowchart.Proofs.Scene.Transpose
import Flowchart.Proofs.Scene.Colour
import Flowchart.Proofs.Svg.Legal
import Flowchart.Proofs.Diagram.Canvas
import Flowchart.Proofs.Source.Mask
import Flowchart.Proofs.Source.Cut
import Flowchart.Proofs.Source.Subgraph
import Flowchart.Proofs.Script.Label
import Flowchart.Proofs.Source.Shown
import Flowchart.Proofs.Script.Wrapped
import Flowchart.Proofs.Layout.Slots
import Flowchart.Proofs.Layout.Release
import Flowchart.Proofs.Source.History
import Flowchart.Proofs.Scene.Fault
import Flowchart.Proofs.Scene.Frame
import Flowchart.Proofs.Config.Override
import Flowchart.Proofs.Diagram.Unreadable
import Flowchart.Proofs.Markdown.Fence
import Flowchart.Proofs.Text.Lines
import Flowchart.Proofs.Markdown.Extraction
import Flowchart.Proofs.Color.Hex
import Flowchart.Proofs.Source.Slice
import Flowchart.Proofs.Svg.Entity
import Flowchart.Proofs.Label.Lines
import Flowchart.Proofs.Source.Reorder
import Flowchart.Proofs.Source.Offset
