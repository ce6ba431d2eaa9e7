import TexSource.Diagnostic
import TexSource.Text.Blank
import TexSource.Text.Line

/-!
# Code frames

A diagnostic as it is shown to a reader: the message, the place, and the line of the
source with carets under the reported part.
-/

namespace TexSource

namespace Diagnostic

/-- The text of a line without its line end. Lines are counted from one. -/
def excerpt (source : Text) (line : Nat) : Text :=
  match line with
  | 0 => []
  | index + 1 =>
    ((source.lines[index]?.getD []).dropWhileEnd (· = .char '\n')).dropWhileEnd (· = .char '\r')

/-- The number of carets: the width of the span on one line, and the rest of the line
for a span that goes on. -/
def caretCount (span : Span) (line : Text) : Nat :=
  if span.stop.line = span.start.line then max 1 (span.stop.column - span.start.column)
  else max 1 (line.length + 1 - span.start.column)

/-- A character a number of times. -/
def run (count : Nat) (character : Char) : Text :=
  List.replicate count (.char character)

/-- A diagnostic with the line that it points to, and carets below what it covers. -/
def frame (diagnostic : Diagnostic) (source fileName : Text) : Text :=
  let start := diagnostic.span.start
  let line := excerpt source start.line
  let number := Text.ofNat start.line
  let gutter := run (number.length + 1) ' '
  Text.join "\n" [
    diagnostic.severity.name ++ "[" ++ diagnostic.kind.name ++ "]: " ++ diagnostic.message,
    gutter ++ "--> " ++ fileName ++ ":" ++ number ++ ":" ++ Text.ofNat start.column,
    gutter ++ "|",
    number ++ " | " ++ line,
    gutter ++ "| " ++ run (start.column - 1) ' ' ++ run (caretCount diagnostic.span line) '^']

end Diagnostic

end TexSource
