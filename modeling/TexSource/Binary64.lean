/-!
# Binary floating-point numbers

The numbers of the 64-bit binary format, held exactly: a finite number is a
significand times a power of two. A number written in decimal stands for the nearest
number of the format, and for the one with the even significand when two are equally
near.
-/

namespace TexSource

/-- A number of the 64-bit binary format. The magnitude of a finite one is
`significand * 2 ^ exponent`. -/
inductive Binary64 where
  | finite (negative : Bool) (significand : Nat) (exponent : Int)
  | infinite (negative : Bool)
  | notANumber
deriving DecidableEq, Repr, Inhabited

namespace Binary64

/-- The least significand of a normal number. -/
def leastNormal : Nat := Nat.pow 2 52

/-- The exponent of subnormal numbers. -/
def leastExponent : Int := -1074

/-- The exponent of the greatest numbers. -/
def greatestExponent : Int := 971

/-- A quotient rounded to the nearest number, a half to the even one. -/
def roundedQuotient (numerator denominator : Nat) : Nat :=
  let quotient := numerator / denominator
  let twice := 2 * (numerator % denominator)
  if twice < denominator || (twice = denominator && quotient % 2 = 0) then quotient
  else quotient + 1

/-- The quotient of two numbers in units of a power of two, as two numbers whose
quotient it is. -/
def inUnits (numerator denominator : Nat) (exponent : Int) : Nat × Nat :=
  (numerator * Nat.pow 2 (-exponent).toNat, denominator * Nat.pow 2 exponent.toNat)

/-- The exponent of the numbers of the format around a quotient. The estimate from
the lengths is right or one too small. -/
def exponentAround (numerator denominator : Nat) : Int :=
  let estimate : Int := (numerator.log2 : Int) - denominator.log2 - 53
  let (scaled, unit) := inUnits numerator denominator estimate
  max leastExponent (if scaled / unit < 2 * leastNormal then estimate else estimate + 1)

/-- The number nearest to a quotient. -/
def ofQuotient (negative : Bool) (numerator denominator : Nat) : Binary64 :=
  if numerator = 0 then .finite negative 0 leastExponent
  else
    let exponent := exponentAround numerator denominator
    let (scaled, unit) := inUnits numerator denominator exponent
    let significand := roundedQuotient scaled unit
    let (significand, exponent) :=
      if significand = 2 * leastNormal then (leastNormal, exponent + 1)
      else (significand, exponent)
    if greatestExponent < exponent then .infinite negative
    else .finite negative significand exponent

/-- The number nearest to `digits * 10 ^ exponent`. A magnitude of `10 ^ 310` or more
is infinite and one below `10 ^ -330` is zero, whatever the digits are. -/
def ofDecimal (negative : Bool) (digits : Nat) (exponent : Int) : Binary64 :=
  let size : Int := (Nat.toDigits 10 digits).length + exponent
  if digits = 0 || size < -330 then .finite negative 0 leastExponent
  else if 310 < size then .infinite negative
  else
    ofQuotient negative (digits * Nat.pow 10 exponent.toNat) (Nat.pow 10 (-exponent).toNat)

end Binary64

end TexSource
