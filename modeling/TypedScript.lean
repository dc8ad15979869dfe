import TypedScript.CommandLine
import TypedScript.Context
import TypedScript.Decimal.Binary64
import TypedScript.Decimal.Shortest
import TypedScript.Decimal.Text
import TypedScript.Diagnostic
import TypedScript.Diagnostic.Render
import TypedScript.Dict
import TypedScript.Eval.Basic
import TypedScript.Eval.Operation
import TypedScript.Eval.Walk
import TypedScript.Expr.Basic
import TypedScript.Expr.Operator
import TypedScript.Expr.Parser
import TypedScript.Main
import TypedScript.Parsing.Cursor
import TypedScript.Parsing.Power
import TypedScript.Parsing.Reply
import TypedScript.Program.Basic
import TypedScript.Program.Run
import TypedScript.Source.Line
import TypedScript.Source.Position
import TypedScript.Stmt.Basic
import TypedScript.Stmt.Parser
import TypedScript.Store.Basic
import TypedScript.Store.Reclaim
import TypedScript.Store.Reference
import TypedScript.Text.Blank
import TypedScript.Text.Hidden
import TypedScript.Text.Quoted
import TypedScript.Token
import TypedScript.Token.Escape
import TypedScript.Token.Pattern
import TypedScript.Token.Scan
import TypedScript.Ty.Basic
import TypedScript.Ty.Parser
import TypedScript.Value.Basic
import TypedScript.Value.Operation
import TypedScript.Proofs.Decimal.Nearest
import TypedScript.Proofs.Diagnostic.Caret
import TypedScript.Proofs.Diagnostic.Located
import TypedScript.Proofs.Dict
import TypedScript.Proofs.Eval.Agreement
import TypedScript.Proofs.Eval.Arity
import TypedScript.Proofs.Eval.Balance
import TypedScript.Proofs.Eval.Blame
import TypedScript.Proofs.Eval.Effect
import TypedScript.Proofs.Eval.Freshness
import TypedScript.Proofs.Eval.Functionless
import TypedScript.Proofs.Eval.Grounded
import TypedScript.Proofs.Eval.Guarded
import TypedScript.Proofs.Eval.Identity
import TypedScript.Proofs.Eval.InParts
import TypedScript.Proofs.Eval.Logged
import TypedScript.Proofs.Eval.Modular
import TypedScript.Proofs.Eval.Observer
import TypedScript.Proofs.Eval.Preservation
import TypedScript.Proofs.Eval.Provenance
import TypedScript.Proofs.Eval.Reclamation
import TypedScript.Proofs.Eval.Recorded
import TypedScript.Proofs.Eval.Relocate
import TypedScript.Proofs.Eval.Remains
import TypedScript.Proofs.Eval.Returns
import TypedScript.Proofs.Eval.Scoping
import TypedScript.Proofs.Eval.Simulation
import TypedScript.Proofs.Eval.Trace
import TypedScript.Proofs.Eval.Typed
import TypedScript.Proofs.Eval.Watched
import TypedScript.Proofs.Grammar.Expr
import TypedScript.Proofs.Grammar.ExprCompleteness
import TypedScript.Proofs.Grammar.ExprSoundness
import TypedScript.Proofs.Grammar.Recounts
import TypedScript.Proofs.Grammar.Spells
import TypedScript.Proofs.Grammar.Stmt
import TypedScript.Proofs.Grammar.StmtSoundness
import TypedScript.Proofs.Grammar.TyCompleteness
import TypedScript.Proofs.Layout.Faithful
import TypedScript.Proofs.Layout.Mimics
import TypedScript.Proofs.Layout.ReadExpr
import TypedScript.Proofs.Layout.ReadStmt
import TypedScript.Proofs.Layout.Relocate
import TypedScript.Proofs.Layout.Scan
import TypedScript.Proofs.Layout.Shown
import TypedScript.Proofs.Layout.Split
import TypedScript.Proofs.Layout.Tandem
import TypedScript.Proofs.Parsing.Boundary
import TypedScript.Proofs.Parsing.Braces
import TypedScript.Proofs.Parsing.Containment
import TypedScript.Proofs.Parsing.Passage
import TypedScript.Proofs.Parsing.Progress
import TypedScript.Proofs.Parsing.Termination
import TypedScript.Proofs.Source.Line
import TypedScript.Proofs.Spans.Lays
import TypedScript.Proofs.Spans.Nesting
import TypedScript.Proofs.Spans.Phrase
import TypedScript.Proofs.Spans.ReadExpr
import TypedScript.Proofs.Spans.ReadStmt
import TypedScript.Proofs.Static.Check
import TypedScript.Proofs.Static.Definitions
import TypedScript.Proofs.Static.Literals
import TypedScript.Proofs.Static.Outside
import TypedScript.Proofs.Static.ReadExpr
import TypedScript.Proofs.Static.ReadStmt
import TypedScript.Proofs.Static.Retype
import TypedScript.Proofs.Static.Uses
import TypedScript.Proofs.Store.Activity
import TypedScript.Proofs.Store.Arena
import TypedScript.Proofs.Store.Assignment
import TypedScript.Proofs.Store.Bounded
import TypedScript.Proofs.Store.Census
import TypedScript.Proofs.Store.Chain
import TypedScript.Proofs.Store.Collect
import TypedScript.Proofs.Store.Contents
import TypedScript.Proofs.Store.History
import TypedScript.Proofs.Store.Intact
import TypedScript.Proofs.Store.Keep
import TypedScript.Proofs.Store.Mirror
import TypedScript.Proofs.Store.Prune
import TypedScript.Proofs.Store.Reach
import TypedScript.Proofs.Store.Relocate
import TypedScript.Proofs.Store.Renaming
import TypedScript.Proofs.Store.Scoping
import TypedScript.Proofs.Store.Slots
import TypedScript.Proofs.Store.Tidy
import TypedScript.Proofs.Store.Typing
import TypedScript.Proofs.Token.Cuts
import TypedScript.Proofs.Token.Match
import TypedScript.Proofs.Token.Munch
import TypedScript.Proofs.Token.Order
import TypedScript.Proofs.Token.Partition
import TypedScript.Proofs.Token.Written
import TypedScript.Proofs.Ty.Text
import TypedScript.Proofs.Value.Cells
import TypedScript.Proofs.Value.Defined
import TypedScript.Proofs.Value.Operator
import TypedScript.Proofs.Value.Relocate
import TypedScript.Proofs.Value.Rename
import TypedScript.Proofs.Value.Typing
