import PullLexer.Builder.Basic
import PullLexer.Builder.Catalogue
import PullLexer.Failure
import PullLexer.Failure.Report
import PullLexer.Journal
import PullLexer.Lexeme
import PullLexer.Lexeme.Lookup
import PullLexer.Lexer.Arguments
import PullLexer.Lexer.Condition
import PullLexer.Lexer.Consumption
import PullLexer.Lexer.Operation
import PullLexer.Lexer.Production
import PullLexer.Lexer.Queue
import PullLexer.Lexer.Registration
import PullLexer.Lexer.Scan
import PullLexer.Lexer.State
import PullLexer.Lexer.Trial
import PullLexer.Manifest
import PullLexer.Numeral
import PullLexer.Pattern.Anchor
import PullLexer.Pattern.Basic
import PullLexer.Pattern.Expr
import PullLexer.Pattern.Fault
import PullLexer.Pattern.Matching
import PullLexer.Pattern.Reading
import PullLexer.Pattern.Reading.Basic
import PullLexer.Pattern.Reading.Escape
import PullLexer.Pattern.Reading.Group
import PullLexer.Pattern.Reading.Piece
import PullLexer.Pattern.Width
import PullLexer.Rule.Spec
import PullLexer.Rule.Table
import PullLexer.Settings.Basic
import PullLexer.Settings.Scope
import PullLexer.Text.Basic
import PullLexer.Text.CharClass
import PullLexer.Text.Excerpt
import PullLexer.Text.Quoted
import PullLexer.Token
import PullLexer.Value.Basic
import PullLexer.Value.Bound
import PullLexer.Value.Literal
import PullLexer.Value.Order
import PullLexer.Proofs.Trial
import PullLexer.Proofs.Production
import PullLexer.Proofs.Scanning
import PullLexer.Proofs.Run
import PullLexer.Proofs.Cursor
import PullLexer.Proofs.Alignment
import PullLexer.Proofs.Transparency
import PullLexer.Proofs.Tiling
import PullLexer.Proofs.Failing
import PullLexer.Proofs.Precedence
import PullLexer.Proofs.Building
import PullLexer.Proofs.Simulation
import PullLexer.Proofs.Lockstep
import PullLexer.Proofs.Displacement
import PullLexer.Proofs.Resumption
import PullLexer.Proofs.Termination
import PullLexer.Proofs.Registration
import PullLexer.Proofs.Reentry
import PullLexer.Proofs.Returning
import PullLexer.Proofs.Diagnosis
import PullLexer.Proofs.Exhaustion
import PullLexer.Proofs.Advance
import PullLexer.Proofs.Ascent
import PullLexer.Proofs.Foresight
import PullLexer.Proofs.Passing
import PullLexer.Proofs.Selection
import PullLexer.Proofs.Refilling
import PullLexer.Proofs.Sorting
import PullLexer.Proofs.Spelling
import PullLexer.Proofs.Matching
import PullLexer.Proofs.Consuming
import PullLexer.Proofs.Routes
import PullLexer.Proofs.Annotation
import PullLexer.Proofs.Captures
import PullLexer.Proofs.Scoping
import PullLexer.Proofs.Openings
import PullLexer.Proofs.Anchoring
import PullLexer.Proofs.Forgetting
