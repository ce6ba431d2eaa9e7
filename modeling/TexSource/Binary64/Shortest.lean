import TexSource.Binary64
import TexSource.Text.Glyph

/-!
# The shortest decimal of a number

A finite number is written with the fewest digits that stand for it. The reals that
round to a number form an interval, whose ends belong to it when the significand is
even. On the decimal grids from coarse to fine, the first that has a point in the
interval next to the number gives the digits; of two such points the nearer one is
taken, and the one with the even last digit when they are equally near.
-/

namespace TexSource

namespace Binary64

/-- The interval of the reals that round to a positive number, and the number itself,
in quarters of a unit in its last place. -/
structure Interval where
  low : Nat
  value : Nat
  high : Nat
  closed : Bool

/-- The interval around a significand. Below the least significand of an exponent the
numbers lie twice as close, unless the exponent is the least. -/
def intervalOf (significand : Nat) (exponent : Int) : Interval where
  low :=
    if significand = leastNormal && leastExponent < exponent then 4 * significand - 1
    else 4 * significand - 2
  value := 4 * significand
  high := 4 * significand + 2
  closed := significand % 2 = 0

/-- Whether a point lies in an interval, both multiplied by the given scales. -/
def Interval.contains (interval : Interval) (quarterScale point : Nat) : Bool :=
  if interval.closed then
    interval.low * quarterScale ≤ point && point ≤ interval.high * quarterScale
  else interval.low * quarterScale < point && point < interval.high * quarterScale

/-- The power of ten at the first digit of a positive number. -/
def leadingPower (significand : Nat) (exponent : Int) : Int :=
  let numerator := significand * Nat.pow 2 exponent.toNat
  let denominator := Nat.pow 2 (-exponent).toNat
  if denominator ≤ numerator then (Nat.toDigits 10 (numerator / denominator)).length - 1
  else -(Nat.toDigits 10 (denominator / numerator)).length

/-- The multiple of `10 ^ power` that stands for a positive number and is nearest to
it, if one does. -/
def onGrid? (significand : Nat) (exponent power : Int) : Option Nat :=
  let interval := intervalOf significand exponent
  let quarterScale := Nat.pow 2 (exponent - 2).toNat * Nat.pow 10 (-power).toNat
  let gridScale := Nat.pow 10 power.toNat * Nat.pow 2 (2 - exponent).toNat
  let value := interval.value * quarterScale
  let below := value / gridScale
  let above := below + 1
  let toBelow := value - below * gridScale
  let toAbove := above * gridScale - value
  match interval.contains quarterScale (below * gridScale),
      interval.contains quarterScale (above * gridScale) with
  | true, true =>
    some (if toBelow < toAbove || (toBelow = toAbove && below % 2 = 0) then below else above)
  | true, false => some below
  | false, true => some above
  | false, false => none

/-- No number needs more digits than these to be told from its neighbours. -/
def maxDigits : Nat := 17

/-- The shortest decimal of a positive number: its digits as a number, and the power of
ten of the last digit. -/
def shortest (significand : Nat) (exponent : Int) : Nat × Int :=
  let leading := leadingPower significand exponent
  let grids := (List.range maxDigits).map fun (more : Nat) => leading - (more : Int)
  let found := grids.findSome? fun power =>
    (onGrid? significand exponent power).map fun digits => (digits, power)
  found.getD (significand, exponent)

/-- A decimal with its digits on either side of a point, at least one on each. -/
def positional (digits : List Char) (pointAfter : Int) : List Char :=
  let whole := pointAfter.toNat
  let padded := List.replicate (-pointAfter).toNat '0' ++ digits ++
    List.replicate (whole - digits.length) '0'
  let before := padded.take whole
  let after := padded.drop whole
  (if before = [] then ['0'] else before) ++ '.' :: (if after = [] then ['0'] else after)

/-- A decimal with one digit before the point and a power of ten, whose exponent has a
sign and at least two digits. -/
def scientific (digits : List Char) (power : Int) : List Char :=
  let exponent := Nat.toDigits 10 power.natAbs
  let fraction := digits.drop 1
  digits.take 1 ++ (if fraction = [] then [] else '.' :: fraction) ++
    'e' :: (if power < 0 then '-' else '+') ::
      (List.replicate (2 - exponent.length) '0' ++ exponent)

/-- The decimal notation of a magnitude: positional from `10 ^ -4` and below
`10 ^ 16`. -/
def magnitudeText (significand : Nat) (exponent : Int) : List Char :=
  if significand = 0 then positional ['0'] 1
  else
    let (number, power) := shortest significand exponent
    let written := Nat.toDigits 10 number
    let leading : Int := power + written.length - 1
    let digits := (written.reverse.dropWhile (· = '0')).reverse
    if -4 ≤ leading && leading < 16 then positional digits (leading + 1)
    else scientific digits leading

/-- The shortest text that stands for a number. -/
def text : Binary64 → Text
  | finite negative significand exponent =>
    (if negative then "-" else [] : Text) ++
      (magnitudeText significand exponent).map Glyph.char
  | infinite negative => if negative then "-inf" else "inf"
  | notANumber => "nan"

end Binary64

end TexSource
