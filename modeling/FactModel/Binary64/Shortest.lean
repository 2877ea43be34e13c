import FactModel.Binary64.Basic
set_option autoImplicit false

/-!
# Writing floating point numbers

A number is written with the fewest digits that read back as that number. Of two such texts with
equally many digits the nearer one is written, and the larger one if both are equally near. The
text is positional, however many zeros that takes.

## Main definitions

* `FactModel.Binary64.Decimal` — a decimal number.
* `FactModel.Binary64.Magnitude.readsBack` — whether a decimal number is read as this one.
* `FactModel.Binary64.Magnitude.shortest` — the decimal number that is written.
* `FactModel.Binary64.written` — the text of a number.
-/

namespace FactModel.Binary64

/-- The decimal number `digits * 10 ^ exponent`. -/
structure Decimal where
  digits : Nat
  exponent : Int
deriving DecidableEq

namespace Decimal

/-- A power of ten as a ratio of natural numbers. -/
def power (exponent : Int) : Nat × Nat :=
  (Nat.pow 10 exponent.toNat, Nat.pow 10 (-exponent).toNat)

/-- A decimal number without an exponent. Zeros at the end of its fraction are left out. -/
def positional (d : Decimal) : String :=
  let digits := Nat.toDigits 10 d.digits
  if 0 ≤ d.exponent then String.ofList (digits ++ List.replicate d.exponent.toNat '0')
  else
    let places := (-d.exponent).toNat
    let padded := List.replicate (places + 1 - digits.length) '0' ++ digits
    let whole := padded.take (padded.length - places)
    let fraction := ((padded.drop (padded.length - places)).reverse.dropWhile (· == '0')).reverse
    String.ofList (if fraction.isEmpty then whole else whole ++ '.' :: fraction)

end Decimal

namespace Magnitude

/-- Whether a decimal number is read as this number: whether it lies between the middles to its
neighbours, or on one of them if the significand is even. The distance to the neighbour below a
power of two is half of the distance to the one above. All is counted in quarters of a unit. -/
def readsBack (a : Magnitude) (d : Decimal) : Bool :=
  let gap := 1 <<< shift a.units
  let significand := a.units / gap
  let above := 4 * a.units + 2 * gap
  let below :=
    4 * a.units - (if significand = 4503599627370496 ∧ 1 < gap then gap else 2 * gap)
  let (num, den) := Decimal.power d.exponent
  let value := 4 * unitsOfOne * d.digits * num
  if significand % 2 = 0 then below * den ≤ value && value ≤ above * den
  else below * den < value && value < above * den

/-- The nearer one of the two neighbours of this number among the multiples of a power of ten that
are read as this number. -/
def nearest? (a : Magnitude) (exponent : Int) : Option Decimal :=
  let (num, den) := Decimal.power exponent
  let quotient := a.units * den / (unitsOfOne * num)
  let rest := 2 * (a.units * den % (unitsOfOne * num))
  let low : Decimal := ⟨quotient, exponent⟩
  let high : Decimal := ⟨quotient + 1, exponent⟩
  if a.readsBack low && (rest < unitsOfOne * num || !a.readsBack high) then some low
  else if a.readsBack high then some high
  else none

/-- The exponent of the least power of ten above this number, which is not zero. -/
def size (a : Magnitude) : Int :=
  digitCount (a.units * Nat.pow 10 330 / unitsOfOne) - 330

/-- This number with all its digits. -/
def exact (a : Magnitude) : Decimal :=
  ⟨a.units * Nat.pow 5 1074, -1074⟩

/-- The decimal number with the fewest digits that is read as this number, which is not zero.
Seventeen digits are enough. -/
def shortest (a : Magnitude) : Decimal :=
  ((List.range 17).findSome? fun n => a.nearest? (a.size - (n + 1 : Nat))).getD a.exact

end Magnitude

/-- The text of a number. Zero keeps its sign. -/
def written : Binary64 → String
  | .finite negative magnitude =>
    (if negative then "-" else "") ++
      (if magnitude.units = 0 then "0" else magnitude.shortest.positional)
  | .infinite negative => (if negative then "-" else "") ++ "inf"
  | .notANumber => "NaN"

end FactModel.Binary64
