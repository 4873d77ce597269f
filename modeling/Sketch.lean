import Sketch.Catalog
import Sketch.Code.Command
import Sketch.Code.Document
import Sketch.Code.Options
import Sketch.Code.Printer
import Sketch.Color
import Sketch.Color.Css
import Sketch.Color.Named
import Sketch.Config
import Sketch.Config.File
import Sketch.Config.Toml
import Sketch.Diagnostic
import Sketch.Element
import Sketch.Expr
import Sketch.Expr.Curve
import Sketch.Expr.Formula
import Sketch.Expr.Parser
import Sketch.Expr.Token
import Sketch.Geometry
import Sketch.Main
import Sketch.Number.Binary
import Sketch.Number.Decimal
import Sketch.Number.Fraction
import Sketch.Number.Notation
import Sketch.Number.Rounding
import Sketch.Preview
import Sketch.Problem
import Sketch.Proofs.Code.Command
import Sketch.Proofs.Code.Document
import Sketch.Proofs.Code.Entry
import Sketch.Proofs.Code.Line
import Sketch.Proofs.Code.Options
import Sketch.Proofs.Code.Reader
import Sketch.Proofs.Code.Recognized
import Sketch.Proofs.Code.Scene
import Sketch.Proofs.Containment
import Sketch.Proofs.Element
import Sketch.Proofs.FixedPoint
import Sketch.Proofs.Number.Bits
import Sketch.Proofs.Number.Notation
import Sketch.Proofs.Number.Value
import Sketch.Proofs.RoundTrip
import Sketch.Proofs.Session
import Sketch.Proofs.Text.Braces
import Sketch.Proofs.Text.Lines
import Sketch.Rendering
import Sketch.Run
import Sketch.Run.Disk
import Sketch.Scene
import Sketch.Session
import Sketch.Span
import Sketch.Style
import Sketch.Svg.Node
import Sketch.Svg.Picture
import Sketch.Text.Blank
import Sketch.Text.Braces
import Sketch.Text.Lines
import Sketch.Proofs.Session.Deferral
import Sketch.Proofs.Session.Reflection
import Sketch.Proofs.Session.LastText
import Sketch.Proofs.Scene
import Sketch.Proofs.Session.Identity
import Sketch.Proofs.Session.Removal
import Sketch.Proofs.Expr.Grammar
import Sketch.Proofs.Expr.Parser
import Sketch.Proofs.Code.Drawing
import Sketch.Proofs.Code.Diagnostic
import Sketch.Proofs.Expr.Piece
import Sketch.Proofs.Expr.Fault
import Sketch.Proofs.Expr.Rejection
import Sketch.Proofs.Expr.Bounds
import Sketch.Proofs.Code.Locality
import Sketch.Proofs.Session.Insertion
import Sketch.Proofs.Svg.Node
import Sketch.Proofs.Svg.Picture
import Sketch.Proofs.Svg.Label
import Sketch.Proofs.Svg.Marker
import Sketch.Proofs.Number.Nearest
import Sketch.Proofs.Number.Arithmetic
import Sketch.Proofs.Number.Rounds
import Sketch.Proofs.Number.Whole
import Sketch.Proofs.Number.Overflow
import Sketch.Proofs.Preview.Steps
import Sketch.Proofs.Preview.Extent
import Sketch.Proofs.Preview.Grid
import Sketch.Proofs.Code.LineWidth
import Sketch.Proofs.Code.Figure
import Sketch.Proofs.Code.Style
import Sketch.Proofs.Code.Finite
import Sketch.Proofs.Code.Splitting
import Sketch.Proofs.Code.Unread
import Sketch.Proofs.Code.Comment
import Sketch.Proofs.Code.Pattern
import Sketch.Proofs.Code.Repair
import Sketch.Proofs.Code.Malformed
import Sketch.Proofs.Session.Placement
import Sketch.Proofs.Text.Escape
import Sketch.Proofs.Code.Grammar
import Sketch.Proofs.Text.Group
import Sketch.Proofs.Code.Acceptance
import Sketch.Proofs.Code.Verbatim
import Sketch.Proofs.Code.Layout
import Sketch.Proofs.Equivalence
import Sketch.Proofs.Expr.Curve
import Sketch.Proofs.Expr.Lexer
import Sketch.Proofs.Code.Omission
import Sketch.Proofs.Preview.Account
import Sketch.Proofs.Preview.Endless
import Sketch.Proofs.Failure
import Sketch.Proofs.Readers
import Sketch.Proofs.Config
import Sketch.Proofs.Rendering
import Sketch.Proofs.Run
