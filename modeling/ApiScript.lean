import ApiScript.CommandLine
import ApiScript.Console
import ApiScript.Fault
import ApiScript.Instruction
import ApiScript.Instruction.Reading
import ApiScript.Machine
import ApiScript.Machine.Assembling
import ApiScript.Machine.Builtin
import ApiScript.Machine.Execution
import ApiScript.Main
import ApiScript.Number
import ApiScript.Number.Decimal
import ApiScript.Number.Numeral
import ApiScript.Number.Shortest
import ApiScript.Number.Whole
import ApiScript.Program
import ApiScript.Program.Assembly
import ApiScript.Proofs.AssembledProgram
import ApiScript.Proofs.AssemblyGrammar
import ApiScript.Proofs.Begun
import ApiScript.Proofs.BlockGrammar
import ApiScript.Proofs.BlockScope
import ApiScript.Proofs.CallBalance
import ApiScript.Proofs.CallerBlindness
import ApiScript.Proofs.ChainedBranch
import ApiScript.Proofs.Changes
import ApiScript.Proofs.DefensiveFaults
import ApiScript.Proofs.Derivations
import ApiScript.Proofs.FailureReport
import ApiScript.Proofs.Feeding
import ApiScript.Proofs.Following
import ApiScript.Proofs.FormReading
import ApiScript.Proofs.FrameWrites
import ApiScript.Proofs.Fuel
import ApiScript.Proofs.FullerFrames
import ApiScript.Proofs.Histories
import ApiScript.Proofs.HostedFrame
import ApiScript.Proofs.InstructionForms
import ApiScript.Proofs.Kept
import ApiScript.Proofs.Ledger
import ApiScript.Proofs.Lexemes
import ApiScript.Proofs.LocalChanges
import ApiScript.Proofs.LoopFree
import ApiScript.Proofs.MissingFetches
import ApiScript.Proofs.Missteps
import ApiScript.Proofs.NumericText
import ApiScript.Proofs.NumericValues
import ApiScript.Proofs.OfferedLines
import ApiScript.Proofs.OpenBlocks
import ApiScript.Proofs.OpenStack
import ApiScript.Proofs.Overheard
import ApiScript.Proofs.Pairing
import ApiScript.Proofs.PlainStore
import ApiScript.Proofs.Preorder
import ApiScript.Proofs.PurgeMode
import ApiScript.Proofs.Reachability
import ApiScript.Proofs.ReadInstructions
import ApiScript.Proofs.Relocation
import ApiScript.Proofs.Rendering
import ApiScript.Proofs.ScopeRecords
import ApiScript.Proofs.Settling
import ApiScript.Proofs.Slips
import ApiScript.Proofs.SoundRuns
import ApiScript.Proofs.TokenSpelling
import ApiScript.Proofs.Twins
import ApiScript.Proofs.Unreachable
import ApiScript.Proofs.WarningsMode
import ApiScript.SourcePath
import ApiScript.SourceTree
import ApiScript.Store
import ApiScript.Table
import ApiScript.Text.Blank
import ApiScript.Text.Figure
import ApiScript.Text.Letter
import ApiScript.Text.Lines
import ApiScript.Text.Part
import ApiScript.Text.Ranges
import ApiScript.Token
import ApiScript.Token.Scan
import ApiScript.Value
import ApiScript.Value.Comparison
import ApiScript.Warning
import ApiScript.Proofs.CallResult
import ApiScript.Proofs.Layout
import ApiScript.Proofs.Constants
import ApiScript.Proofs.FetchLog
import ApiScript.Proofs.LatestWrites
import ApiScript.Proofs.RequestBooks
import ApiScript.Proofs.DefinitionParts
import ApiScript.Proofs.DefinitionOrder
import ApiScript.Proofs.Acceptance
import ApiScript.Proofs.Deletion
import ApiScript.Proofs.ReturnKinds
import ApiScript.Proofs.StatusMemory
import ApiScript.Proofs.RefusedLines
import ApiScript.Proofs.FilledLines
import ApiScript.Proofs.Losslessness
import ApiScript.Proofs.Rescanning
import ApiScript.Proofs.TextOrder
import ApiScript.Proofs.ComparisonLaws
import ApiScript.Proofs.TokenRoles
import ApiScript.Proofs.QuotedTokens
import ApiScript.Proofs.WholeNumbers
import ApiScript.Proofs.CountingLoops
import ApiScript.Proofs.CanonicalDump
