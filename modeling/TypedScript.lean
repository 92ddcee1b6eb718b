import TypedScript.Diagnostic.Terminal
import TypedScript.Lexer.Lexeme
import TypedScript.Proofs.Diagnostic.Dedup
import TypedScript.Proofs.Lexer.Readers
import TypedScript.Syntax.Equality
import TypedScript.Syntax.Stmt
import TypedScript.Text.LineBreak
import TypedScript.Token.Name
import TypedScript.Proofs.Lexer.Tiles
import TypedScript.Proofs.Lexer.Scanning
import TypedScript.Proofs.Lexer.Advance
import TypedScript.Proofs.Lexer.Tiling
import TypedScript.Proofs.Lexer.Progress
import TypedScript.Proofs.Lexer.Replay
import TypedScript.Proofs.Lexer.Lookahead
import TypedScript.Proofs.Diagnostic.Distinct
import TypedScript.Proofs.Lexer.Bounds
import TypedScript.Proofs.Lexer.Session
import TypedScript.Proofs.Lexer.Integer
import TypedScript.Proofs.Lexer.Interpolation
import TypedScript.Proofs.Lexer.Stream
import TypedScript.Proofs.Path.Segments
import TypedScript.Proofs.Path.Relative
import TypedScript.Proofs.Syntax.Identity
import TypedScript.Proofs.Numeral.Written
import TypedScript.Proofs.Lexer.Escapes
import TypedScript.Proofs.Lexer.StringLiteral
import TypedScript.Proofs.Lexer.Glance
import TypedScript.Proofs.Lexer.Maximal
import TypedScript.Proofs.Lexer.Skip
import TypedScript.Proofs.Lexer.Place
import TypedScript.Proofs.Lexer.Course
import TypedScript.Proofs.Lexer.Comments
import TypedScript.Proofs.Lexer.Word
import TypedScript.Proofs.Lexer.Bracket
import TypedScript.Proofs.Text.Break
import TypedScript.Proofs.Lexer.NewLine
import TypedScript.Proofs.Lexer.Extent
import TypedScript.Proofs.Lexer.DigitRun
import TypedScript.Proofs.Lexer.EscapeForm
import TypedScript.Proofs.Lexer.Tagged
import TypedScript.Proofs.Lexer.NumberExtent
import TypedScript.Proofs.Lexer.NumberEnd
import TypedScript.Proofs.Lexer.Overflow
import TypedScript.Proofs.Lexer.FloatLiteral
import TypedScript.Proofs.Lexer.FloatFault
import TypedScript.Proofs.Lexer.RegexpLiteral
import TypedScript.Proofs.Lexer.LineComment
import TypedScript.Proofs.Source.Lines
import TypedScript.Proofs.Diagnostic.Template
import TypedScript.Proofs.Diagnostic.Layout
import TypedScript.Proofs.Path.Walk
import TypedScript.Proofs.Path.Normal
import TypedScript.Proofs.Path.Location
import TypedScript.Proofs.Syntax.Library
import TypedScript.Proofs.Diagnostic.Line
import TypedScript.Proofs.Text.LineBreak
import TypedScript.Proofs.Syntax.Arguments
import TypedScript.Proofs.Syntax.Reference
import TypedScript.Proofs.Lexer.Separator
