import HandlerSplit.Main
import HandlerSplit.Proofs.Handler.Frame
import HandlerSplit.Proofs.Parse.Layout.File
import HandlerSplit.Proofs.Parse.Marks.File
import HandlerSplit.Proofs.Parse.Regular.File
import HandlerSplit.Proofs.Parse.Words.File
import HandlerSplit.Proofs.Print.Labels
import HandlerSplit.Proofs.Print.Lexed
import HandlerSplit.Proofs.Print.Tree
import HandlerSplit.Proofs.Tree.Names
import HandlerSplit.Tree.Same
import HandlerSplit.Proofs.Print.Source
import HandlerSplit.Proofs.Handler.Failure
import HandlerSplit.Proofs.Run.Outputs
import HandlerSplit.Proofs.Run.Verification
import HandlerSplit.Proofs.Lexer.Semicolons
import HandlerSplit.Proofs.Tree.Skipping
import HandlerSplit.Proofs.Parse.Nesting.File
import HandlerSplit.Proofs.Tree.Renaming
import HandlerSplit.Proofs.Handler.Derivation
import HandlerSplit.Proofs.Handler.Selections
import HandlerSplit.Proofs.Handler.Wrapping
import HandlerSplit.Proofs.Handler.Anchors
import HandlerSplit.Proofs.Handler.Schema
import HandlerSplit.Proofs.Print.RoundTrip
import HandlerSplit.Proofs.Print.Headers
import HandlerSplit.Proofs.Print.Spread
import HandlerSplit.Proofs.Parse.Pointing.Source
import HandlerSplit.Proofs.Lexer.Respelling
import HandlerSplit.Proofs.Print.Flow.Tree
import HandlerSplit.Proofs.Print.Spacing
import HandlerSplit.Proofs.Run.Overriding
import HandlerSplit.Proofs.Parse.Restoring
import HandlerSplit.Proofs.Parse.Progress.File
import HandlerSplit.Proofs.Print.Layout.File
import HandlerSplit.Proofs.Print.Alignment
