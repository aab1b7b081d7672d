import Netlist.CommandLine.Outcome
import Netlist.CommandLine.Request
import Netlist.CommandLine.Usage
import Netlist.Configuration
import Netlist.Decimal.Binary
import Netlist.Decimal.Digits
import Netlist.Decimal.Notation
import Netlist.Decimal.Reading
import Netlist.Expression.Builtin
import Netlist.Expression.Dialect
import Netlist.Expression.Error
import Netlist.Expression.Evaluation
import Netlist.Expression.FreeNames
import Netlist.Expression.Function
import Netlist.Expression.Host
import Netlist.Expression.Machine
import Netlist.Expression.Operator
import Netlist.Expression.Program
import Netlist.Expression.Refresh
import Netlist.Expression.Scope
import Netlist.Failure
import Netlist.Lexer.Balance
import Netlist.Lexer.Cache
import Netlist.Lexer.Definition
import Netlist.Lexer.Recipe
import Netlist.Lexer.Rule
import Netlist.Lexer.Run
import Netlist.Lexer.Selection
import Netlist.Lexer.State
import Netlist.Lexer.Token
import Netlist.Library.Choice
import Netlist.Library.Polynomial
import Netlist.Library.Power
import Netlist.Library.Scalar
import Netlist.Library.Standard
import Netlist.Library.Statistics
import Netlist.Library.Table
import Netlist.Line.Continuation
import Netlist.Line.Logical
import Netlist.Line.Physical
import Netlist.Line.Window
import Netlist.Main
import Netlist.Number.Literal
import Netlist.Pattern.Basic
import Netlist.Pattern.Build
import Netlist.Pattern.CharSet
import Netlist.Pattern.Reader
import Netlist.Pattern.Reference
import Netlist.Pattern.Search
import Netlist.Proofs.Expression.Computation
import Netlist.Proofs.Expression.Grammar
import Netlist.Proofs.Expression.Progress
import Netlist.Proofs.Expression.Reading
import Netlist.Proofs.Expression.Reduction
import Netlist.Proofs.Expression.Steps
import Netlist.Random.Generator
import Netlist.Real.Elementary
import Netlist.Real.Order
import Netlist.Real.Rounding
import Netlist.Spice.Grammar
import Netlist.Spice.Kind
import Netlist.Spice.Patterns
import Netlist.Spice.Value
import Netlist.Text.Basic
import Netlist.Text.Blank
import Netlist.Text.CaseFold
import Netlist.Text.Quoted
import Netlist.Text.Word
import Netlist.Toml.Document
import Netlist.Toml.Reader
import Netlist.Toml.Scalar
import Netlist.Toml.Value
import Netlist.Proofs.Expression.Complete
import Netlist.Proofs.Expression.Sound
import Netlist.Proofs.Expression.Nesting
import Netlist.Proofs.Expression.Reference
import Netlist.Proofs.Expression.Parametric
import Netlist.Proofs.Expression.Visibility
import Netlist.Proofs.Expression.Lockstep
import Netlist.Proofs.Expression.Permitted
import Netlist.Proofs.Expression.Recording
import Netlist.Proofs.Expression.Locality
import Netlist.Proofs.Expression.FreeNames
import Netlist.Proofs.Expression.Steady
import Netlist.Proofs.Expression.Refresh
import Netlist.Proofs.Expression.Consistency
import Netlist.Proofs.Lexer.Extent
import Netlist.Proofs.Lexer.Tiling
import Netlist.Proofs.Line.Seam
import Netlist.Proofs.Line.Slice
import Netlist.Proofs.Lexer.Trace
import Netlist.Proofs.Lexer.Winner
import Netlist.Proofs.Lexer.Place
import Netlist.Proofs.Lexer.Suppression
import Netlist.Proofs.Lexer.ByLine
import Netlist.Proofs.Pattern.Greedy
import Netlist.Proofs.Pattern.Reads
import Netlist.Proofs.Pattern.Sets
import Netlist.Proofs.Spice.Rules
import Netlist.Proofs.Spice.Markers
import Netlist.Proofs.Spice.State
import Netlist.Proofs.Line.Terminators
import Netlist.Proofs.Spice.Statements
import Netlist.Proofs.Spice.Comments
import Netlist.Proofs.Spice.Keywords
import Netlist.Proofs.Spice.Numerals
import Netlist.Proofs.Spice.Blocks
import Netlist.Proofs.Spice.BlockEnds
import Netlist.Proofs.Expression.Course
import Netlist.Proofs.Spice.Values
import Netlist.Proofs.Spice.Lexemes
import Netlist.Proofs.Spice.References
import Netlist.Proofs.Expression.Redefinition
import Netlist.Proofs.Line.Partition
import Netlist.Proofs.Lexer.Caching
import Netlist.Spice.Shared
import Netlist.Proofs.Spice.Sharing
import Netlist.Proofs.Pattern.Replacement
import Netlist.Proofs.Spice.Continuations
import Netlist.Proofs.Spice.Splicing
import Netlist.Proofs.Library.Bounds
import Netlist.Proofs.Expression.Confinement
import Netlist.Proofs.Library.Returning
import Netlist.Proofs.Library.Safety
import Netlist.Proofs.Lexer.Precedence
import Netlist.Proofs.Expression.Atomicity
import Netlist.Proofs.Spice.Remnants
import Netlist.Proofs.Expression.Resemblance
import Netlist.Proofs.Expression.Containment
import Netlist.Proofs.Expression.Descendants
import Netlist.Proofs.Expression.Boundary
import Netlist.Proofs.Expression.Ordering
import Netlist.Proofs.Pattern.Expansion
import Netlist.Proofs.Real.Unit
import Netlist.Proofs.Spice.Operands
import Netlist.Proofs.Expression.Agreement
import Netlist.Proofs.Expression.Brackets
import Netlist.Proofs.Expression.Capture
import Netlist.Proofs.Library.Monomials
import Netlist.Proofs.Library.Derivatives
import Netlist.Proofs.Lexer.Balance
import Netlist.Proofs.Spice.Groups
import Netlist.Proofs.Expression.Respelling
import Netlist.Proofs.CommandLine.Overrides
import Netlist.Proofs.Real.Sign
import Netlist.Proofs.Decimal.Positional
import Netlist.Proofs.Library.Rendering
import Netlist.Proofs.Library.Interpolation
import Netlist.Proofs.Library.Extension
import Netlist.Proofs.Library.Alignment
import Netlist.Proofs.Spice.Title
import Netlist.Proofs.Expression.Moments
import Netlist.Proofs.Expression.Complaints
import Netlist.Proofs.Expression.Stacks
import Netlist.Proofs.Expression.Failures
import Netlist.Proofs.Expression.Underflow
import Netlist.Proofs.Library.Telling
import Netlist.Proofs.Expression.Places
