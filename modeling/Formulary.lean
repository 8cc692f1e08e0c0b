import Formulary.Random.Family
import Formulary.Host.Calculator
import Formulary.Host.Command
import Formulary.Proofs.Grammar.Derivation
import Formulary.Proofs.Grammar.Names
import Formulary.Proofs.Grammar.Tables
import Formulary.Proofs.Grammar.Cursor
import Formulary.Proofs.Grammar.Expression
import Formulary.Proofs.Grammar.Statement
import Formulary.Proofs.Grammar.Following
import Formulary.Proofs.Grammar.Program
import Formulary.Proofs.Tree.Basic
import Formulary.Proofs.Tree.Mentions
import Formulary.Proofs.Tree.Providers
import Formulary.Proofs.Evaluation.Footprint
import Formulary.Proofs.Evaluation.Bindings
import Formulary.Proofs.Evaluation.DefiniteAssignment
import Formulary.Proofs.Grammar.Binding
import Formulary.Proofs.Grammar.Joining
import Formulary.Proofs.Concatenation
import Formulary.Proofs.Grammar.Levels
import Formulary.Proofs.Printing.Syntax
import Formulary.Proofs.Printing.RoundTrip
import Formulary.Proofs.Grammar.Depth
import Formulary.Proofs.OrderedMap
import Formulary.Proofs.Host.Editing
import Formulary.Proofs.Host.Running
import Formulary.Proofs.Host.Caching
import Formulary.Proofs.Text.Utf8
import Formulary.Proofs.Json.RoundTrip
import Formulary.Proofs.Json.Steps
import Formulary.Proofs.Compression.Codes
import Formulary.Proofs.Compression.Container
import Formulary.Proofs.Library.Documents
import Formulary.Proofs.Host.Exchange
import Formulary.Proofs.Token.FirstLexeme
import Formulary.Proofs.Token.Segmentation
import Formulary.Proofs.Evaluation.Simulation
import Formulary.Proofs.Evaluation.Locality
import Formulary.Proofs.Evaluation.Sequencing
import Formulary.Proofs.Evaluation.Substitution
import Formulary.Proofs.Host.Contents
import Formulary.Proofs.Inputs
import Formulary.Proofs.Evaluation.Purity
import Formulary.Proofs.Source.LineEndings
import Formulary.Proofs.LineEndings
import Formulary.Proofs.Tree.Height
import Formulary.Proofs.Grammar.Nesting
import Formulary.Proofs.Evaluation.Recursion
import Formulary.Proofs.Random.Accounting
import Formulary.Proofs.Grammar.Course
import Formulary.Proofs.Grammar.Guard
import Formulary.Proofs.Grammar.Refusal
import Formulary.Proofs.Layout
import Formulary.Proofs.Grouping
import Formulary.Proofs.Host.Entries
import Formulary.Proofs.Library.Schema
import Formulary.Proofs.Host.Importing
import Formulary.Proofs.Tree.Paths
import Formulary.Proofs.Evaluation.Turns
import Formulary.Proofs.Evaluation.Draws
import Formulary.Proofs.Host.Batches
import Formulary.Proofs.Evaluation.CompoundAssignment
import Formulary.Proofs.Source.Locating
import Formulary.Proofs.Number.Rounding
import Formulary.Proofs.Random.Range
import Formulary.Proofs.Evaluation.Transport
import Formulary.Proofs.Number.Integers
import Formulary.Proofs.Random.Period
import Formulary.Proofs.Library.Violations
import Formulary.Proofs.Grammar.Progress
import Formulary.Proofs.Grammar.Loops
