import Grammatic.Factories
import Grammatic.Main
import Grammatic.Proofs.Evaluation.Budget
import Grammatic.Proofs.Evaluation.Position
import Grammatic.Proofs.Evaluation.Steps
import Grammatic.Proofs.Evaluation.Simulation
import Grammatic.Proofs.Evaluation.Segment
import Grammatic.Proofs.Evaluation.Entering
import Grammatic.Proofs.Evaluation.Settling
import Grammatic.Proofs.Evaluation.Termination
import Grammatic.Proofs.Evaluation.Folding
import Grammatic.Proofs.Evaluation.Faults
import Grammatic.Proofs.Evaluation.Leading
import Grammatic.Proofs.Evaluation.Conveying
import Grammatic.Proofs.Evaluation.Rearranging
import Grammatic.Proofs.Evaluation.Units
import Grammatic.Proofs.Evaluation.Mirroring
import Grammatic.Proofs.Evaluation.Repetition
import Grammatic.Proofs.Evaluation.Failures
import Grammatic.Proofs.Evaluation.Values
import Grammatic.Proofs.Expression.Grouping
import Grammatic.Proofs.Expression.Climbing
import Grammatic.Proofs.Grammar.Building
import Grammatic.Proofs.Grammar.Reachability
import Grammatic.Proofs.Grammar.DepthFirst
import Grammatic.Proofs.Grammar.Freezing
import Grammatic.Proofs.Grammar.History
import Grammatic.Proofs.Grammar.Declarations
import Grammatic.Proofs.Grammar.Compilation
import Grammatic.Proofs.Grammar.ReservedWords
import Grammatic.Proofs.Grammar.Validation
import Grammatic.Proofs.Grammar.EndMark
import Grammatic.Proofs.Grammar.Reordering
import Grammatic.Proofs.Token.Spans
import Grammatic.Proofs.Source.Newlines
import Grammatic.Proofs.Source.Recording
import Grammatic.Proofs.Pattern.Matching
import Grammatic.Proofs.Pattern.Preference
import Grammatic.Proofs.Pattern.Readers
import Grammatic.Proofs.Pattern.Reading
import Grammatic.Proofs.Pattern.Searching
import Grammatic.Proofs.Pattern.Lengths
import Grammatic.Proofs.Pattern.Spans
import Grammatic.Proofs.Number.Reading
import Grammatic.Proofs.Lexer.Definition
import Grammatic.Proofs.Lexer.Joining
import Grammatic.Proofs.Lexer.Scanning
import Grammatic.Proofs.Lexer.Tiling
import Grammatic.Proofs.Lexer.Parts
import Grammatic.Proofs.Lexer.Unmatched
import Grammatic.Proofs.Language.Form
import Grammatic.Proofs.Language.Realization
import Grammatic.Proofs.Language.Recognition
import Grammatic.Proofs.Language.Series
import Grammatic.Proofs.Script.Syntax
import Grammatic.Proofs.Script.Shape
import Grammatic.Proofs.Script.Marks
import Grammatic.Proofs.Script.Lexing
import Grammatic.Proofs.Script.Quoted
import Grammatic.Proofs.Script.Table
import Grammatic.Proofs.Script.Setup
import Grammatic.Proofs.Script.Acceptance
import Grammatic.Proofs.Script.Reading
import Grammatic.Proofs.Script.Completion
import Grammatic.Proofs.Script.Errors
import Grammatic.Proofs.Script.Shaping
import Grammatic.Proofs.Script.Orders
import Grammatic.Proofs.Script.Respacing
import Grammatic.Proofs.Script.Quoting
import Grammatic.Proofs.Pattern.GroupNames
import Grammatic.Proofs.Lexer.Refusals
import Grammatic.Proofs.Pattern.Greedy
import Grammatic.Proofs.Script.LongestMatch
import Grammatic.Proofs.Script.Keywords
import Grammatic.Proofs.Pattern.Writing
import Grammatic.Proofs.Script.SpelledTable
import Grammatic.Proofs.Script.SpelledLexer
import Grammatic.Proofs.Script.SpelledNames
import Grammatic.Proofs.Script.SpelledOrder
import Grammatic.Proofs.Evaluation.Blame
import Grammatic.Proofs.Grammar.Failures
import Grammatic.Proofs.Evaluation.Assembly
import Grammatic.Proofs.Script.Blocks
import Grammatic.Proofs.Evaluation.SideBySide
import Grammatic.Proofs.Script.Vocabularies
import Grammatic.Proofs.Script.Skeletons
import Grammatic.Proofs.Source.Lines
import Grammatic.Proofs.Source.Diagnostics
import Grammatic.Proofs.Token.Histories
import Grammatic.Proofs.Script.Showing
