import TexSource.Source.Span
import TexSource.Text.Digit

/-!
# Diagnostics

A diagnostic is a problem that was recovered from, attached to a span and, where
there is one, to a node of the tree. `Problem` lists the causes; the kind and the
wording of each are fixed here and nowhere else.
-/

namespace TexSource

/-- The number of a node, counted from zero as nodes are created. -/
abbrev NodeId := Nat

/-- How grave a diagnostic is. -/
inductive Severity where
  | error
  | warning
deriving DecidableEq, Repr, Inhabited

/-- The name of a severity. -/
def Severity.name : Severity → String
  | error => "error"
  | warning => "warning"

namespace Diagnostic

/-- The kinds of diagnostics. -/
inductive Kind where
  | unterminatedGroup
  | mismatchedEnvironment
  | macroArityMismatch
  | unbalancedDelimitedScan
  | cyclicInclude
  | fileNotFound
  | maxExpansionDepthExceeded
  | maxInclusionDepthExceeded
  | ioError
  | invalidCharacter
deriving DecidableEq, Repr, Inhabited

namespace Kind

/-- All kinds. -/
def all : List Kind :=
  [unterminatedGroup, mismatchedEnvironment, macroArityMismatch, unbalancedDelimitedScan,
    cyclicInclude, fileNotFound, maxExpansionDepthExceeded, maxInclusionDepthExceeded, ioError,
    invalidCharacter]

/-- The name of a kind. -/
def name : Kind → String
  | unterminatedGroup => "UnterminatedGroup"
  | mismatchedEnvironment => "MismatchedEnvironment"
  | macroArityMismatch => "MacroArityMismatch"
  | unbalancedDelimitedScan => "UnbalancedDelimitedScan"
  | cyclicInclude => "CyclicInclude"
  | fileNotFound => "FileNotFound"
  | maxExpansionDepthExceeded => "MaxExpansionDepthExceeded"
  | maxInclusionDepthExceeded => "MaxInclusionDepthExceeded"
  | ioError => "IoError"
  | invalidCharacter => "InvalidCharacter"

/-- The severity of a kind where none is stated. -/
def severity : Kind → Severity
  | macroArityMismatch => .warning
  | unbalancedDelimitedScan => .warning
  | _ => .error

end Kind

end Diagnostic

/-- A recovered problem, attached to a span and optionally to a node. -/
structure Diagnostic where
  kind : Diagnostic.Kind
  message : Text
  span : Span
  severity : Severity
  node : Option NodeId
deriving DecidableEq, Repr, Inhabited

/-- The causes of diagnostics. -/
inductive Problem where
  | undecodableByte (value : Nat)
  | invalidCharacter (code : Nat)
  | nestingTooDeep (limit : Nat)
  | unexpectedGroupEnd
  | unterminatedGroup
  | unterminatedOptional
  | unterminatedMath (display : Bool) (closer : Text)
  | unmatchedEnd (name : Text)
  | environmentNeverClosed (name : Text)
  | environmentEndedBy (name endName : Text)
  | missingArgument (position : Nat) (command : Text)
  | unterminatedReplacement (name : Text)
  | stepLimitReached (limit : Int) (name : Text)
  | callLimitExceeded (limit : Int) (innermost : List Text)
  | useDoesNotMatch (name : Text)
  | argumentsMissing (name : Text) (expected found : Nat)
  | delimiterNotFound (name : Text)
  | extraGroupEnd (name : Text)
  | inclusionLimitExceeded (limit : Int) (name : Text)
  | includedFileNotFound (name : Text)
  | cyclicInclusion (names : List Text)
  | includedFileUnreadable (name reason : Text)
  | fileUnreadable (path reason : Text)
  | dependencyNotFound (command name : Text)

namespace Problem

/-- The kind of a problem. -/
def kind : Problem → Diagnostic.Kind
  | undecodableByte _ => .invalidCharacter
  | invalidCharacter _ => .invalidCharacter
  | nestingTooDeep _ => .unterminatedGroup
  | unexpectedGroupEnd => .unterminatedGroup
  | unterminatedGroup => .unterminatedGroup
  | unterminatedOptional => .unterminatedGroup
  | unterminatedMath _ _ => .unterminatedGroup
  | unmatchedEnd _ => .mismatchedEnvironment
  | environmentNeverClosed _ => .mismatchedEnvironment
  | environmentEndedBy _ _ => .mismatchedEnvironment
  | missingArgument _ _ => .macroArityMismatch
  | unterminatedReplacement _ => .unterminatedGroup
  | stepLimitReached _ _ => .maxExpansionDepthExceeded
  | callLimitExceeded _ _ => .maxExpansionDepthExceeded
  | useDoesNotMatch _ => .macroArityMismatch
  | argumentsMissing _ _ _ => .macroArityMismatch
  | delimiterNotFound _ => .unbalancedDelimitedScan
  | extraGroupEnd _ => .unbalancedDelimitedScan
  | inclusionLimitExceeded _ _ => .maxInclusionDepthExceeded
  | includedFileNotFound _ => .fileNotFound
  | cyclicInclusion _ => .cyclicInclude
  | includedFileUnreadable _ _ => .ioError
  | fileUnreadable _ _ => .ioError
  | dependencyNotFound _ _ => .fileNotFound

/-- The severity of a problem. A file that only a dependency list misses is no
error of the document. -/
def severity : Problem → Severity
  | dependencyNotFound _ _ => .warning
  | problem => problem.kind.severity

/-- A control sequence as it is named in messages. -/
def control (name : Text) : Text :=
  .char '\\' :: name

/-- A text in braces. -/
def braced (content : Text) : Text :=
  .char '\x7b' :: content ++ [.char '\x7d']

/-- A text in quotes, as messages show pieces of source. -/
def ticked (content : Text) : Text :=
  .char '\x27' :: content ++ [.char '\x27']

/-- The message that describes a problem. -/
def message : Problem → Text
  | undecodableByte value => "undecodable byte 0x" ++ Text.hexadecimal 2 value
  | invalidCharacter code =>
    "invalid character U+" ++ (Text.hexadecimal 4 code).map Glyph.toUpper
  | nestingTooDeep limit =>
    "nesting deeper than " ++ Text.ofNat limit ++ " levels is kept as plain text"
  | unexpectedGroupEnd => "unexpected '\x7d' with no open group"
  | unterminatedGroup => "unterminated group: missing '\x7d'"
  | unterminatedOptional => "unterminated optional argument: missing ']'"
  | unterminatedMath display closer =>
    "unterminated " ++ (if display then "display" else "inline" : Text) ++ " math: missing " ++
      ticked closer
  | unmatchedEnd name => control "end" ++ braced name ++ " without matching \\begin"
  | environmentNeverClosed name => "environment " ++ ticked name ++ " is never closed"
  | environmentEndedBy name endName =>
    control "begin" ++ braced name ++ " ended by " ++ control "end" ++ braced endName
  | missingArgument position command =>
    "missing argument " ++ Text.ofNat position ++ " of " ++ control command
  | unterminatedReplacement name => "unterminated replacement text of " ++ control name
  | stepLimitReached limit name =>
    "expansion step limit (" ++ Text.ofInt limit ++ ") reached at " ++ control name
  | callLimitExceeded limit innermost =>
    "macro nesting limit (" ++ Text.ofInt limit ++ ") exceeded (... " ++
      Text.join " -> " (innermost.map control) ++ ")"
  | useDoesNotMatch name => "use of " ++ control name ++ " does not match its definition"
  | argumentsMissing name expected found =>
    control name ++ " expects " ++ Text.ofNat expected ++ " argument(s), found " ++
      Text.ofNat found
  | delimiterNotFound name => "delimiter of an argument of " ++ control name ++ " not found"
  | extraGroupEnd name => "extra '\x7d' while scanning an argument of " ++ control name
  | inclusionLimitExceeded limit name =>
    "inclusion depth limit (" ++ Text.ofInt limit ++ ") exceeded at " ++ ticked name
  | includedFileNotFound name => "cannot find included file " ++ ticked name
  | cyclicInclusion names => "cyclic inclusion: " ++ Text.join " -> " names
  | includedFileUnreadable name reason =>
    "cannot read included file " ++ ticked name ++ ": " ++ reason
  | fileUnreadable path reason => "cannot read " ++ path ++ ": " ++ reason
  | dependencyNotFound command name => control command ++ ": cannot find " ++ ticked name

/-- The diagnostic that reports a problem at a span. -/
def reportAt (problem : Problem) (span : Span) (node : Option NodeId := none) : Diagnostic where
  kind := problem.kind
  message := problem.message
  span := span
  severity := problem.severity
  node := node

end Problem

namespace Diagnostic

/-- Whether a diagnostic is an error, and no warning. -/
def isError (diagnostic : Diagnostic) : Bool :=
  diagnostic.severity = .error

end Diagnostic

end TexSource
