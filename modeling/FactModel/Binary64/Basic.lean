set_option autoImplicit false

/-!
# Binary floating point numbers of 64 bits

A finite number is a whole number of units, the least positive number of the format. Its
significand has at most 53 bits, so from `2 ^ 53` units on only multiples of a power of two are
numbers of the format. All arithmetic is exact and is rounded once, to the nearest number and from
the middle between two to the one with the even significand.

## Main definitions

* `FactModel.Binary64` — a number of the format.
* `FactModel.Binary64.Magnitude` — how many units a number has.
* `FactModel.Binary64.roundDiv` — a quotient rounded to a whole number.
* `FactModel.Binary64.Magnitude.ofRatio?` — the number nearest to a ratio.
* `FactModel.Binary64.ofDecimal` — the number nearest to a decimal number.
-/

namespace FactModel

namespace Binary64

/-- A number without its sign. The unit is the least positive number, `2 ^ (-1074)`. -/
structure Magnitude where
  units : Nat
deriving DecidableEq

end Binary64

/-- A number of the format. Zero has a sign too. -/
inductive Binary64 where
  | finite (negative : Bool) (magnitude : Binary64.Magnitude)
  | infinite (negative : Bool)
  | notANumber
deriving DecidableEq

namespace Binary64

/-- Whether a number is zero, of either sign. -/
def isZero : Binary64 → Bool
  | .finite _ magnitude => magnitude.units == 0
  | _ => false

/-- A quotient rounded to the nearest whole number, and to the even one of two that are equally
near. -/
def roundDiv (num den : Nat) : Nat :=
  let quotient := num / den
  let rest := 2 * (num % den)
  if rest < den then quotient
  else if den < rest then quotient + 1
  else quotient + quotient % 2

namespace Magnitude

/-- How many units one has. -/
def unitsOfOne : Nat :=
  1 <<< 1074

/-- How many units are too many: those of the least power of two beyond the format. -/
def unitLimit : Nat :=
  1 <<< 2098

/-- The exponent of the power of two that a number with so many units is a multiple of: the number
of bits behind the first 53. -/
def shift (units : Nat) : Nat :=
  units.log2 - 52

/-- The number nearest to so many units, given as a ratio. There is none if it is too large. -/
def ofUnits? (num den : Nat) : Option Magnitude :=
  let exponent := shift (num / den)
  let units := roundDiv num (den <<< exponent) <<< exponent
  if units < unitLimit then some ⟨units⟩ else none

/-- The number nearest to a ratio, unless it is too large. -/
def ofRatio? (num den : Nat) : Option Magnitude :=
  ofUnits? (num * unitsOfOne) den

/-- The rounded product of two numbers, unless it is too large. -/
def mul? (a b : Magnitude) : Option Magnitude :=
  ofUnits? (a.units * b.units) unitsOfOne

/-- The rounded quotient of two numbers, unless it is too large. -/
def div? (a b : Magnitude) : Option Magnitude :=
  ofUnits? (a.units * unitsOfOne) b.units

/-- The number nearest to a power of ten, unless it is too large. -/
def powerOfTen? (exponent : Nat) : Option Magnitude :=
  ofRatio? (Nat.pow 10 exponent) 1

end Magnitude

/-- The number of decimal digits of a natural number. -/
def digitCount (n : Nat) : Nat :=
  (Nat.toDigits 10 n).length

/-- Decimal numbers from this power of ten on are infinite. -/
def infiniteFrom : Int :=
  310

/-- Decimal numbers below this power of ten are zero. -/
def zeroBelow : Int :=
  -330

/-- The number nearest to `significand * 10 ^ exponent`. What is too large is infinite. -/
def ofDecimal (negative : Bool) (significand : Nat) (exponent : Int) : Binary64 :=
  let size := digitCount significand + exponent
  if significand = 0 ∨ size < zeroBelow then .finite negative ⟨0⟩
  else if infiniteFrom < size then .infinite negative
  else
    let rounded :=
      if 0 ≤ exponent then Magnitude.ofRatio? (significand * Nat.pow 10 exponent.toNat) 1
      else Magnitude.ofRatio? significand (Nat.pow 10 (-exponent).toNat)
    match rounded with
    | some magnitude => .finite negative magnitude
    | none => .infinite negative

end Binary64

end FactModel
