import StackLisp.Text.CharRange
import StackLisp.Text.Blank
import StackLisp.Text.Printable
import StackLisp.Text.Quoted
import StackLisp.Text.Spacing
import StackLisp.Numeral.Digit
import StackLisp.Numeral.Error
import StackLisp.Numeral.Integer
import StackLisp.Numeral.Binary64
import StackLisp.Numeral.Shortest
import StackLisp.Numeral.Fraction
import StackLisp.Foreign
import StackLisp.Pattern.Basic
import StackLisp.Pattern.Reading
import StackLisp.Token.Basic
import StackLisp.Token.Table
import StackLisp.Token.Scan
import StackLisp.SourceError
import StackLisp.Node.Basic
import StackLisp.Node.Error
import StackLisp.Node.Display
import StackLisp.Node.Render
import StackLisp.Reader.Failure
import StackLisp.Reader.Atom
import StackLisp.Reader.State
import StackLisp.Reader.Forms
import StackLisp.Reader.Cursor
import StackLisp.Parse
import StackLisp.Code
import StackLisp.Report
import StackLisp.Version
import StackLisp.Proofs.Grammar.Basic
import StackLisp.Proofs.Grammar.Completeness
import StackLisp.Proofs.Grammar.Soundness
import StackLisp.Proofs.Grammar.Acceptance
import StackLisp.Proofs.Grammar.ViablePrefix
import StackLisp.Proofs.Grammar.Licensed
import StackLisp.Proofs.Grammar.Window
import StackLisp.Proofs.Grammar.Quotation
import StackLisp.Proofs.Grammar.Unplaced
import StackLisp.Proofs.Lexical.Greedy
import StackLisp.Proofs.Lexical.Layout
import StackLisp.Proofs.Lexical.Run
import StackLisp.Proofs.Lexical.Partition
import StackLisp.Proofs.Lexical.Place
import StackLisp.Proofs.Lexical.Boundary
import StackLisp.Proofs.Lexical.Joined
import StackLisp.Proofs.Lexical.Longest
import StackLisp.Proofs.Lexical.Precedence
import StackLisp.Proofs.Numeral.Plain
import StackLisp.Proofs.Numeral.Scientific
import StackLisp.Proofs.Numeral.Exact
import StackLisp.Proofs.Numeral.Oversized
import StackLisp.Proofs.Printing.Code
import StackLisp.Proofs.Printing.Data
import StackLisp.Proofs.Printing.RoundTrip
import StackLisp.Proofs.Printing.Fraction
import StackLisp.Proofs.Printing.Respacing
import StackLisp.Proofs.Printing.Quoted
import StackLisp.Proofs.Printing.Normal
import StackLisp.Proofs.Reader.Progress
import StackLisp.Proofs.Reader.Nesting
import StackLisp.Proofs.Reader.Parts
import StackLisp.Proofs.Reader.Stopping
import StackLisp.Proofs.Stages.Sound
import StackLisp.Proofs.Stages.Total
import StackLisp.Proofs.Stages.Encoding
import StackLisp.Proofs.Stages.Execution
import StackLisp.Proofs.Stages.Resolution
import StackLisp.Proofs.Stages.Foreign
import StackLisp.Proofs.Stages.Unlowered
import StackLisp.Proofs.Stages.Report
import StackLisp.Proofs.Source.Composition
import StackLisp.Proofs.Text.NormalForm
