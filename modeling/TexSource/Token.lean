import TexSource.Catcode
import TexSource.Source.Span

/-!
# Tokens

A token is a stretch of source text with its meaning. Its kind carries the value
that the meaning depends on; its raw text and its span say where it came from.
Tokens that macro replacement wrote are marked as expanded.
-/

namespace TexSource

namespace Token

/-- What a token is, with the value that goes with it. -/
inductive Kind where
  /-- An escape character and letters; blanks behind the letters belong to it. -/
  | controlWord (name : Text)
  /-- An escape character and one other glyph, or none before a line end. -/
  | controlSymbol (glyph : Option Glyph)
  | beginGroup (glyph : Glyph)
  | endGroup (glyph : Glyph)
  | mathShift (doubled : Bool)
  | parameter (glyph : Glyph)
  | superscript (glyph : Glyph)
  | subscript (glyph : Glyph)
  | character (glyph : Glyph) (catcode : Catcode)
  /-- A comment without its comment character and its line end. -/
  | comment (content : Text)
  | space
  | endOfLine
  | endOfInput
deriving DecidableEq, Repr, Inhabited

namespace Kind

/-- The text of a kind: the name of a control sequence, the glyph of a character. -/
def value : Kind → Text
  | controlWord name => name
  | controlSymbol glyph => glyph.toList
  | beginGroup glyph => [glyph]
  | endGroup glyph => [glyph]
  | mathShift false => "$"
  | mathShift true => "$$"
  | parameter glyph => [glyph]
  | superscript glyph => [glyph]
  | subscript glyph => [glyph]
  | character glyph _ => [glyph]
  | comment content => content
  | space => " "
  | endOfLine => "\n"
  | endOfInput => ""

/-- The name under which tokens of the kind are listed. -/
def label : Kind → String
  | controlWord _ => "CONTROL_WORD"
  | controlSymbol _ => "CONTROL_SYMBOL"
  | beginGroup _ => "BEGIN_GROUP"
  | endGroup _ => "END_GROUP"
  | mathShift _ => "MATH_SHIFT"
  | parameter _ => "PARAMETER"
  | superscript _ => "SUPERSCRIPT"
  | subscript _ => "SUBSCRIPT"
  | character _ _ => "CHARACTER"
  | comment _ => "COMMENT"
  | space => "SPACE"
  | endOfLine => "END_OF_LINE"
  | endOfInput => "EOF"

/-- Whether a kind is that of spaces or line ends. -/
def isBlank : Kind → Bool
  | space => true
  | endOfLine => true
  | _ => false

/-- Whether two kinds match as delimiters of macro arguments. A line end reads as
a space, and the category code of a character does not matter. -/
def sameAs : Kind → Kind → Bool
  | character glyph _, character other _ => glyph = other
  | space, endOfLine => true
  | endOfLine, space => true
  | kind, other => kind = other

end Kind

end Token

/-- A piece of source text with its meaning. -/
structure Token where
  kind : Token.Kind
  raw : Text
  span : Span
  /-- Whether the token was written by macro replacement. -/
  expanded : Bool := false
  /-- The inclusion that the token announces in the output of its branch. -/
  ticket : Option Nat := none
deriving DecidableEq, Repr, Inhabited

namespace Token

/-- The token without extent that ends an input at a position. -/
def endOfInputAt (position : Position) (fileId : FileId) : Token :=
  { kind := .endOfInput, raw := [], span := Span.emptyAt position fileId }

/-- The value of a token is that of its kind. -/
def value (token : Token) : Text :=
  token.kind.value

/-- Whether a token is a space or a line end. -/
def isBlank (token : Token) : Bool :=
  token.kind.isBlank

/-- Whether two tokens match as delimiters of macro arguments. -/
def sameAs (token other : Token) : Bool :=
  token.kind.sameAs other.kind

/-- The source text of a control sequence without the blanks that belong to it. -/
def controlText (token : Token) : Text :=
  match token.kind with
  | .controlWord name => token.raw.take (1 + name.length)
  | _ => token.raw

/-- Whether a token is the control word with a name. -/
def isControlWord (token : Token) (name : Text) : Bool :=
  match token.kind with
  | .controlWord word => word = name
  | _ => false

/-- Whether a token is a control word or a control symbol. -/
def isControlSequence (token : Token) : Bool :=
  match token.kind with
  | .controlWord _ => true
  | .controlSymbol _ => true
  | _ => false

/-- Whether a token is the given character, of whatever category. -/
def isCharacter (token : Token) (character : Char) : Bool :=
  match token.kind with
  | .character glyph _ => glyph = .char character
  | _ => false

/-- Whether a token is a run of spaces. -/
def isSpace (token : Token) : Bool := token.kind = .space

/-- Whether a token is a line end. -/
def isEndOfLine (token : Token) : Bool := token.kind = .endOfLine

/-- Whether a token is the end of the input. -/
def isEndOfInput (token : Token) : Bool := token.kind = .endOfInput

/-- Whether a token is a comment. -/
def isComment (token : Token) : Bool :=
  match token.kind with
  | .comment _ => true
  | _ => false

/-- Whether a token opens a group. -/
def isBeginGroup (token : Token) : Bool :=
  match token.kind with
  | .beginGroup _ => true
  | _ => false

/-- Whether a token closes a group. -/
def isEndGroup (token : Token) : Bool :=
  match token.kind with
  | .endGroup _ => true
  | _ => false

/-- Whether a token is a parameter character. -/
def isParameter (token : Token) : Bool :=
  match token.kind with
  | .parameter _ => true
  | _ => false

/-- Whether a token is a math shift, doubled or not. -/
def isMathShift (token : Token) : Bool :=
  match token.kind with
  | .mathShift _ => true
  | _ => false

/-- The texts of tokens, one behind another. -/
def rawText (tokens : List Token) : Text :=
  tokens.flatMap Token.raw

@[simp] theorem rawText_nil : rawText [] = [] := rfl

@[simp] theorem rawText_cons (token : Token) (rest : List Token) :
    rawText (token :: rest) = token.raw ++ rawText rest := rfl

/-- The text of tokens one behind another. -/
@[simp] theorem rawText_append (tokens others : List Token) :
    rawText (tokens ++ others) = rawText tokens ++ rawText others :=
  List.flatMap_append

end Token

end TexSource
