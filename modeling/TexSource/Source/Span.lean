import TexSource.Text.Glyph

/-!
# Positions and spans

A position is a line and a column, both counted from one, and a byte offset,
counted from zero. A line ends at a line feed, at a carriage return, or at the
pair of both, which counts once.
-/

namespace TexSource

/-- The number of a source file in one run; zero is the anonymous input. -/
abbrev FileId := Nat

/-- A place between two glyphs of a source text. -/
structure Position where
  line : Nat
  column : Nat
  offset : Nat
deriving DecidableEq, Repr, Inhabited

namespace Position

/-- The position in front of a text. -/
def start : Position := ⟨1, 1, 0⟩

/-- The position behind a glyph, given the glyph that follows it. A carriage
return before a line feed does not yet end the line. -/
def advance (position : Position) (glyph : Glyph) (next : Option Glyph) : Position :=
  let offset := position.offset + glyph.byteWidth
  if glyph = .char '\n' || (glyph = .char '\r' && next ≠ some (.char '\n')) then
    ⟨position.line + 1, 1, offset⟩
  else
    ⟨position.line, position.column + 1, offset⟩

end Position

/-- The part of a source file from one position to another. -/
structure Span where
  start : Position
  stop : Position
  fileId : FileId
deriving DecidableEq, Repr, Inhabited

namespace Span

/-- A span without extent. -/
def emptyAt (position : Position) (fileId : FileId) : Span :=
  ⟨position, position, fileId⟩

/-- The number of bytes from start to stop, negative when they are reversed. -/
def length (span : Span) : Int :=
  (span.stop.offset : Int) - span.start.offset

end Span

end TexSource
