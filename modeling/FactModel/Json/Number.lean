import FactModel.Number
set_option autoImplicit false

/-!
# Numbers of JSON documents

A whole number is kept as it is if it fits into 64 bits, with a sign or without. The digits of any
other number are gathered into a significand as long as that fits into 64 bits. The significand is
rounded, then multiplied or divided by a power of ten, and the result is rounded again. A number
that is too large even then is refused.

## Main definitions

* `FactModel.Json.numberOf?` — the number that a text stands for.
-/

namespace FactModel.Json

open Binary64 (Magnitude)
open Text (Numeral)

/-- What a significand stays below: the numbers of 64 bits without a sign. -/
def significandLimit : Nat :=
  18446744073709551616

/-- What a negative whole number does not go beyond, less its sign. -/
def negativeLimit : Nat :=
  9223372036854775808

/-- Takes digits into a significand as long as it stays below the limit, and returns the digits
that are left. -/
def gather (significand : Nat) : List Char → Nat × List Char
  | [] => (significand, [])
  | c :: cs =>
    let next := 10 * significand + Text.digitValue c
    if next < significandLimit then gather next cs else (significand, c :: cs)

/-- The largest power of ten that is a factor by itself. -/
def largestPower : Nat :=
  308

/-- A number divided by another several times, each quotient rounded. -/
def dividedBy? (divisor : Magnitude) : Nat → Magnitude → Option Magnitude
  | 0, a => some a
  | times + 1, a => if a.units = 0 then some a else (a.div? divisor).bind (dividedBy? divisor times)

/-- A number multiplied or divided by a power of ten. A very large divisor is taken in parts. -/
def scaled? (a : Magnitude) (exponent : Int) : Option Magnitude :=
  if a.units = 0 then some a
  else if largestPower < exponent then none
  else if 0 ≤ exponent then (Magnitude.powerOfTen? exponent.toNat).bind a.mul?
  else do
    let places := (-exponent).toNat
    let parts := (places - 1) / largestPower
    let quotient ← dividedBy? (← Magnitude.powerOfTen? largestPower) parts a
    quotient.div? (← Magnitude.powerOfTen? (places - parts * largestPower))

/-- The number that a numeral stands for. Zero with a minus sign is not whole. -/
def numberOfNumeral? (n : Numeral) : Option Number :=
  let (significand, left) := gather 0 n.whole
  if n.isWhole && left.isEmpty && (!n.negative || (0 < significand && significand ≤ negativeLimit))
  then some (.integer n.toInt)
  else do
    let fraction := n.fraction.getD []
    let (significand, dropped) := gather significand fraction
    let rounded ← Magnitude.ofRatio? significand 1
    let exponent := n.scale + left.length + dropped.length
    let magnitude ← scaled? rounded exponent
    some (.float (.finite n.negative magnitude))

/-- The number that a text stands for, unless it is too large. -/
def numberOf? (cs : List Char) : Option Number :=
  (Numeral.ofChars? cs).bind numberOfNumeral?

end FactModel.Json
