import Symbolrt.Lib.Text
import Symbolrt.Lib.Substitution
import Symbolrt.Lib.Formula
import Symbolrt.Lib.Loops
import Symbolrt.Lib.InStep
import Symbolrt.Lib.LastEntry
import Symbolrt.Lib.Precedence
import Symbolrt.Lib.Regrouping
import Symbolrt.Lib.Expressions
import Symbolrt.Lib.Junction
import Symbolrt.Lib.Reading
import Symbolrt.Lib.KeyedSearch
import Symbolrt.Lib.Unfolding
import Symbolrt.Lib.Assignments
import Symbolrt.Lib.Layout
import Symbolrt.Lib.Separated
import Symbolrt.Lib.Numbering
import Symbolrt.Lib.Differences
import Symbolrt.Base.Action
import Symbolrt.Base.ClockGuard
import Symbolrt.Base.TIOSTS
import Symbolrt.Base.WellFormed
import Symbolrt.Base.Assembly
import Symbolrt.Base.Clone
import Symbolrt.Algorithms.SynchronousProduct
import Symbolrt.Algorithms.ProductMoves
import Symbolrt.Algorithms.ProductRuns
import Symbolrt.Algorithms.ProductLabels
import Symbolrt.Algorithms.ProductCorrectness
import Symbolrt.Algorithms.ProductTermination
import Symbolrt.Algorithms.ProductClocks
import Symbolrt.Algorithms.ProductCompatibility
import Symbolrt.Algorithms.Completion
import Symbolrt.Algorithms.CompletionCoverage
import Symbolrt.Algorithms.CompletionProduct
import Symbolrt.SymbolicExecution.Tree
import Symbolrt.SymbolicExecution.Execution
import Symbolrt.SymbolicExecution.Branches
import Symbolrt.SymbolicExecution.ExecutionTree
import Symbolrt.SymbolicExecution.ExecutionRuns
import Symbolrt.SymbolicExecution.ExecutionFailures
import Symbolrt.SymbolicExecution.BoundedRuns
import Symbolrt.SymbolicExecution.SymbolicValues
import Symbolrt.SymbolicExecution.Executability
import Symbolrt.SymbolicExecution.RootPaths
import Symbolrt.SymbolicExecution.AcceptStates
import Symbolrt.Lib.MarkedSearch
import Symbolrt.Base.Creation
import Symbolrt.Base.Copies
import Symbolrt.Compositions.Composition
import Symbolrt.Compositions.SequentialComposition
import Symbolrt.Compositions.SequentialResult
import Symbolrt.Compositions.SequentialCorrectness
import Symbolrt.Compositions.SequentialJunction
import Symbolrt.Compositions.InputCompletion
import Symbolrt.Compositions.InputEnabledness
import Symbolrt.Compositions.ParallelComposition
import Symbolrt.Compositions.ParallelMoves
import Symbolrt.Compositions.ParallelResult
import Symbolrt.Compositions.ParallelRuns
import Symbolrt.Compositions.ParallelLegality
import Symbolrt.Compositions.ParallelInterleaving
import Symbolrt.Compositions.ParallelTermination
import Symbolrt.Compositions.ParallelHistory
import Symbolrt.Compositions.ParallelLookups
import Symbolrt.Compositions.InterruptionComposition
import Symbolrt.Compositions.InterruptionResult
import Symbolrt.Compositions.InterruptionCorrectness
import Symbolrt.Lib.Items
import Symbolrt.Lib.Pieces
import Symbolrt.Lib.Glue
import Symbolrt.Compositions.Initialisation
import Symbolrt.Compositions.InitialisationSurvival
import Symbolrt.Compositions.DeclaredActions
import Symbolrt.Compositions.ComposedClocks
import Symbolrt.SymbolicExecution.ParameterBinding
import Symbolrt.Compositions.SynchronisedParameters
import Symbolrt.Base.Views
import Symbolrt.Base.GuardCopies
import Symbolrt.Base.DBMFormat
import Symbolrt.Base.FaithfulCopies
import Symbolrt.Base.Equality
import Symbolrt.Compositions.ParallelRepetition
import Symbolrt.Compositions.CompletionConservation
import Symbolrt.Compositions.UnsupportedGuards
import Symbolrt.Compositions.Relabelling
import Symbolrt.Compositions.HidingOperator
import Symbolrt.Compositions.RenamingOperator
import Symbolrt.SymbolicExecution.ExpressionUpdates
import Symbolrt.SymbolicExecution.ReachedMappings
import Symbolrt.SymbolicExecution.ExpressionValues
import Symbolrt.SymbolicExecution.PathConditions
import Symbolrt.Compiler.Token
import Symbolrt.Compiler.TransitionRule
import Symbolrt.Compiler.SystemRule
import Symbolrt.Compiler.SyncClauses
import Symbolrt.Compiler.ParameterTable
import Symbolrt.Compiler.SystemTotality
import Symbolrt.Compiler.SynthesisUnit
import Symbolrt.Compiler.ActionParameters
import Symbolrt.Compiler.RecordedTokens
import Symbolrt.Compiler.Clauses
import Symbolrt.Compiler.Declaration
import Symbolrt.Compiler.Builder
import Symbolrt.Compiler.WrittenGuards
import Symbolrt.Compiler.SynthesisTotality
import Symbolrt.Compiler.PrintedExpressions
import Symbolrt.Compiler.CompiledAssignments
import Symbolrt.SymbolicExecution.AssignmentOrder
import Symbolrt.SymbolicExecution.FreshParameters
import Symbolrt.SymbolicExecution.TypeLookups
import Symbolrt.SymbolicExecution.TestCaseSelection
import Symbolrt.SymbolicExecution.TestTrees
import Symbolrt.SymbolicExecution.SingleWords
import Symbolrt.SymbolicExecution.ConcreteRuns
import Symbolrt.SymbolicExecution.ConcreteSimulation
import Symbolrt.SymbolicExecution.SelectedTestCases
import Symbolrt.Compiler.Lexer
import Symbolrt.Lib.Folding
import Symbolrt.SymbolicExecution.TestTreeTransformation
import Symbolrt.SymbolicExecution.TranslatedTestTrees
import Symbolrt.SymbolicExecution.TestCasePaths
import Symbolrt.Lib.BreadthFirst
import Symbolrt.SymbolicExecution.ExecutionOrder
import Symbolrt.SymbolicExecution.TestSuite
import Symbolrt.Lib.Simulation
import Symbolrt.Lib.Grammar
import Symbolrt.Compiler.ExpressionTexts
import Symbolrt.Compiler.TransitionTexts
import Symbolrt.Compiler.SystemTexts
import Symbolrt.Compiler.Scanner
import Symbolrt.Compiler.WrittenTexts
import Symbolrt.Compiler.ProcessTexts
import Symbolrt.Compiler.CompiledTexts
import Symbolrt.Algorithms.CompletedTransitions
import Symbolrt.Algorithms.KeyedGuards
import Symbolrt.SymbolicExecution.WrittenModels
import Symbolrt.Facade.TestCaseGeneration
import Symbolrt.Facade.TestCaseRefinement
import Symbolrt.Facade.GeneratedSuite
import Symbolrt.Facade.GenerationReturns
import Symbolrt.Compiler.PrintedTexts
import Symbolrt.Facade.TestableTexts
import Symbolrt.Compositions.ParallelModels
import Symbolrt.Lib.Interleaving
import Symbolrt.Compositions.ParallelWalks
import Symbolrt.Facade.ComposedSpecification
import Symbolrt.Compositions.ParallelSessions
import Symbolrt.Lib.Bridge
import Symbolrt.Compositions.SequentialWalks
import Symbolrt.Lib.Relays
import Symbolrt.Compositions.InterruptionWalks
