import TexSource.Text.Glyph

/-!
# Category codes

The category code of a character decides what the character does when a source
text is cut into tokens.
-/

namespace TexSource

/-- The sixteen category codes, in the order of their numbers. -/
inductive Catcode where
  | escape
  | beginGroup
  | endGroup
  | mathShift
  | alignTab
  | endOfLine
  | parameter
  | superscript
  | subscript
  | ignored
  | space
  | letter
  | other
  | active
  | comment
  | invalid
deriving DecidableEq, Repr, Inhabited

namespace Catcode

/-- All category codes in the order of their numbers. -/
def all : List Catcode :=
  [escape, beginGroup, endGroup, mathShift, alignTab, endOfLine, parameter, superscript,
    subscript, ignored, space, letter, other, active, comment, invalid]

/-- The number of a category. -/
def toNat : Catcode → Nat
  | escape => 0
  | beginGroup => 1
  | endGroup => 2
  | mathShift => 3
  | alignTab => 4
  | endOfLine => 5
  | parameter => 6
  | superscript => 7
  | subscript => 8
  | ignored => 9
  | space => 10
  | letter => 11
  | other => 12
  | active => 13
  | comment => 14
  | invalid => 15

/-- The category with a number, if there is one. -/
def ofNat? (number : Nat) : Option Catcode :=
  all[number]?

/-- The category code of a glyph to which none was assigned. -/
def initial : Glyph → Catcode
  | .byte _ => invalid
  | .char character =>
    match character with
    | '\\' => escape
    | '\x7b' => beginGroup
    | '\x7d' => endGroup
    | '$' => mathShift
    | '&' => alignTab
    | '\n' => endOfLine
    | '\r' => endOfLine
    | '#' => parameter
    | '^' => superscript
    | '_' => subscript
    | '\x00' => ignored
    | ' ' => space
    | '\t' => space
    | '~' => active
    | '%' => comment
    | '\x7f' => invalid
    | _ => if character.isAlpha then letter else other

end Catcode

end TexSource
