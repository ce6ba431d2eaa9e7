import TexSource.Text.Blank
import TexSource.Text.Digit

/-!
# Integers in texts

An integer is written with an optional sign and decimal digits of any script, between
which single underscores may stand, and white space may surround it.
-/

namespace TexSource

namespace Text

/-- Whether a glyph is white space around an integer. The information separators are
not. -/
def isBlankAround (glyph : Glyph) : Bool :=
  glyph.isBlank && !(0x1C ≤ glyph.code && glyph.code ≤ 0x1F)

/-- The digits of a text in which single underscores may stand before digits. -/
def separatedDigits? : Text → Option (List Nat)
  | [] => some []
  | .char '_' :: glyph :: rest => do
    return (← glyph.decimalValue?) :: (← separatedDigits? rest)
  | glyph :: rest => do
    return (← glyph.decimalValue?) :: (← separatedDigits? rest)

/-- The natural number that a text without a sign spells. -/
def natural? (text : Text) : Option Nat := do
  let digits ← text.separatedDigits?
  if text = [] || text.head? = some (.char '_') || maxNumberDigits < digits.length then none
  else some (decimalNumber digits)

/-- The integer that a text spells, if it spells one. -/
def integer? (text : Text) : Option Int :=
  match dropWhileEnd isBlankAround (text.dropWhile isBlankAround) with
  | .char '-' :: rest => (natural? rest).map fun number => -(number : Int)
  | .char '+' :: rest => (natural? rest).map Int.ofNat
  | unsigned => (natural? unsigned).map Int.ofNat

end Text

end TexSource
