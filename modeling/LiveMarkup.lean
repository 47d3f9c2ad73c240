import LiveMarkup.Live.Session
import LiveMarkup.Main
import LiveMarkup.Playground.Handler
import LiveMarkup.Proofs.Document.Bindings
import LiveMarkup.Proofs.Tree.SourceOrder
import LiveMarkup.Tree.Linked
import LiveMarkup.Proofs.Document.Marks
import LiveMarkup.Proofs.Document.Pieces
import LiveMarkup.Proofs.Document.Numbering
import LiveMarkup.Proofs.Document.Rendering
import LiveMarkup.Proofs.Source.Words
import LiveMarkup.Proofs.Tree.Spelling
import LiveMarkup.Proofs.Document.Hosting
import LiveMarkup.Proofs.Document.Tags
import LiveMarkup.Proofs.Statement
import LiveMarkup.Proofs.Tree.Declarations
import LiveMarkup.Proofs.Document.ScriptLines
import LiveMarkup.Proofs.Text.Quoted
import LiveMarkup.Proofs.Text.Blank
import LiveMarkup.Proofs.Text.Nesting
import LiveMarkup.Proofs.Tree.Printing
import LiveMarkup.Proofs.Tree.RoundTrip
import LiveMarkup.Proofs.Live.Events
import LiveMarkup.Proofs.Tree.Inert
import LiveMarkup.Proofs.Live.Dispatch
import LiveMarkup.Proofs.Live.Debounce
import LiveMarkup.Proofs.Live.Session
import LiveMarkup.Proofs.Playground.Limits
import LiveMarkup.Proofs.Tree.Regular
import LiveMarkup.Proofs.Tree.Composition
import LiveMarkup.Proofs.Command.Report
import LiveMarkup.Proofs.Document.WellFormed
import LiveMarkup.Proofs.Source.Grammar
import LiveMarkup.Proofs.Literal
import LiveMarkup.Proofs.StatementForms
import LiveMarkup.Proofs.Document.Keys
import LiveMarkup.Proofs.Style.ReadBack
import LiveMarkup.Proofs.Source.Window
import LiveMarkup.Proofs.Tree.Linked
import LiveMarkup.Proofs.Playground.Page
import LiveMarkup.Proofs.Source.Significant
import LiveMarkup.Proofs.Text.Splitting
import LiveMarkup.Proofs.Text.Quotations
import LiveMarkup.Proofs.Document.ScriptEscaping
