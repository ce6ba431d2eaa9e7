import TexSource.Buffer
import TexSource.FileSystem.Snapshot
import TexSource.Main
import TexSource.Proofs.CommandLine.Inputs
import TexSource.Proofs.Dependency
import TexSource.Proofs.Document.Braces
import TexSource.Proofs.Document.FormulaRuns
import TexSource.Proofs.Document.Nesting
import TexSource.Proofs.Document.StrayEndings
import TexSource.Proofs.Document.VerbatimBodies
import TexSource.Proofs.Document.WellFormed
import TexSource.Proofs.Expansion.BraceMark
import TexSource.Proofs.Expansion.Cutoffs
import TexSource.Proofs.Expansion.Doubling
import TexSource.Proofs.Expansion.GivingUp
import TexSource.Proofs.Expansion.Inclusions
import TexSource.Proofs.Expansion.Limits
import TexSource.Proofs.Expansion.Marks
import TexSource.Proofs.Expansion.OpenCalls
import TexSource.Proofs.Expansion.Origins
import TexSource.Proofs.Expansion.Printed
import TexSource.Proofs.Expansion.Replacement
import TexSource.Proofs.Expansion.Spelling
import TexSource.Proofs.Expansion.Verbatim
import TexSource.Proofs.FileTable.Operations
import TexSource.Proofs.Frames
import TexSource.Proofs.Highlight
import TexSource.Proofs.Highlight.Precedence
import TexSource.Proofs.Layout.Canonical
import TexSource.Proofs.Layout.Idempotence
import TexSource.Proofs.Layout.Inlining
import TexSource.Proofs.Layout.VerbatimLines
import TexSource.Proofs.Lexer.Groups
import TexSource.Proofs.Lexer.Neighbors
import TexSource.Proofs.Ranges
import TexSource.Proofs.Spans
