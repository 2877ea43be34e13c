import FactModel.Text.Digits
set_option autoImplicit false

/-!
# Decimal numerals

A decimal numeral has digits, perhaps with a point before, between or behind them, perhaps with a
sign in front and perhaps with an exponent of ten at its end.

## Main definitions

* `FactModel.Text.Numeral` — the parts of a decimal numeral.
* `FactModel.Text.Numeral.ofChars?` — the parts of a text that is a decimal numeral.
-/

namespace FactModel.Text

/-- The parts of a decimal numeral. -/
structure Numeral where
  negative : Bool
  /-- The digits before the point. -/
  whole : List Char
  /-- The digits behind the point, if there is a point. -/
  fraction : Option (List Char)
  /-- The exponent of ten, if there is one. -/
  exponent : Option Int
deriving DecidableEq

namespace Numeral

/-- Takes a sign off a text, and tells whether it is a minus. -/
def splitSign : List Char → Bool × List Char
  | '-' :: rest => (true, rest)
  | '+' :: rest => (false, rest)
  | cs => (false, cs)

/-- The number of an exponent, which has digits and perhaps a sign. -/
def exponentOf? (cs : List Char) : Option Int :=
  let (negative, digits) := splitSign cs
  if digits.isEmpty || !digits.all Char.isDigit then none
  else some (if negative then -(digitsValue digits : Int) else digitsValue digits)

/-- The exponent that a text is, if it is not empty. The outer value is missing when the text is
not an exponent. -/
def splitExponent? : List Char → Option (Option Int)
  | [] => some none
  | c :: cs => if c = 'e' ∨ c = 'E' then (exponentOf? cs).map some else none

/-- The digits behind a point at the beginning of a text, if there is a point, and what follows. -/
def splitFraction : List Char → Option (List Char) × List Char
  | '.' :: cs => (some (cs.takeWhile Char.isDigit), cs.dropWhile Char.isDigit)
  | cs => (none, cs)

/-- The parts of a text that is a decimal numeral. It has a digit besides those of the exponent. -/
def ofChars? (cs : List Char) : Option Numeral := do
  let (negative, unsigned) := splitSign cs
  let whole := unsigned.takeWhile Char.isDigit
  let (fraction, rest) := splitFraction (unsigned.dropWhile Char.isDigit)
  let exponent ← splitExponent? rest
  if whole.isEmpty && (fraction.getD []).isEmpty then none
  else some { negative, whole, fraction, exponent }

/-- Whether a numeral has neither a point nor an exponent. -/
def isWhole (n : Numeral) : Bool :=
  n.fraction.isNone && n.exponent.isNone

/-- All digits of a numeral but those of the exponent. -/
def digits (n : Numeral) : List Char :=
  n.whole ++ n.fraction.getD []

/-- The exponent of ten that belongs to the last digit of a numeral. -/
def scale (n : Numeral) : Int :=
  n.exponent.getD 0 - (n.fraction.getD []).length

/-- The whole number of a numeral without a point and an exponent. -/
def toInt (n : Numeral) : Int :=
  if n.negative then -(digitsValue n.whole : Int) else digitsValue n.whole

end Numeral

end FactModel.Text
