import Lox.Main
import Lox.Token.Display
import Lox.Proofs.Scope.Place
import Lox.Proofs.Scope.Visits
import Lox.Proofs.Scope.Reports
import Lox.Proofs.Evaluation.Access
import Lox.Proofs.Grammar.Reading
import Lox.Proofs.Grammar.Trees
import Lox.Proofs.Heap.Frames
import Lox.Proofs.Lexical.Evaluate
import Lox.Proofs.Lexical.Refinement
import Lox.Proofs.Session.Methods
import Lox.Proofs.Session.Variables
import Lox.Proofs.Grammar.Upcoming
import Lox.Proofs.Matching.Parsing
import Lox.Proofs.Matching.Resolution
import Lox.Proofs.Session.Rejection
import Lox.Proofs.Grammar.Acceptance
import Lox.Proofs.Grammar.Productions
import Lox.Proofs.Grammar.Completeness
import Lox.Proofs.Grammar.Findings
import Lox.Proofs.Grammar.Shapes
import Lox.Proofs.Grammar.DerivedExpressions
import Lox.Proofs.Grammar.DerivedPrograms
import Lox.Proofs.Grammar.Unambiguity
import Lox.Proofs.Grammar.Language
import Lox.Proofs.Grammar.CorrectPrefix
import Lox.Proofs.Grammar.Concatenation
import Lox.Proofs.Text.Concatenation
import Lox.Proofs.Text.LongestMatch
import Lox.Proofs.Matching.Machines
import Lox.Proofs.Matching.Evaluation
import Lox.Proofs.Session.Clean
import Lox.Proofs.Session.Pieces
import Lox.Proofs.Returns.Episodes
import Lox.Proofs.Returns.Permitted
import Lox.Proofs.Returns.Receivers
import Lox.Proofs.Returns.Steps
import Lox.Proofs.Returns.Calls
import Lox.Proofs.Returns.Evaluation
import Lox.Proofs.Session.Returns
import Lox.Proofs.Desugaring.ForStatements
import Lox.Proofs.Session.Restoration
import Lox.Proofs.Text.Layout
import Lox.Proofs.Text.Lines
import Lox.Proofs.Cursor.Recovery
import Lox.Proofs.Cursor.Bounds
import Lox.Proofs.Cursor.Productions
import Lox.Proofs.Session.WellFormed
import Lox.Proofs.Scope.Positions
import Lox.Proofs.Session.Distances
import Lox.Proofs.Calls.Accounts
import Lox.Proofs.Calls.Parameters
import Lox.Proofs.Session.Calls
import Lox.Proofs.Heap.Nearest
import Lox.Proofs.Session.Inheritance
import Lox.Proofs.Number.Scanning
import Lox.Proofs.Shell.Arguments
import Lox.Proofs.Heap.Growth
import Lox.Proofs.Session.Growth
import Lox.Proofs.Text.OneLine
import Lox.Proofs.Session.Diagnostics
