set_option autoImplicit false

/-!
# Digits

## Main definitions

* `FactModel.Text.digitsValue` — the number that decimal digits stand for.
* `FactModel.Text.hexDigitsValue` — the number that hexadecimal digits stand for.
* `FactModel.Text.charOfHexDigits?` — the character of a code in hexadecimal digits.
-/

namespace FactModel.Text

/-- The value of a decimal digit. -/
def digitValue (c : Char) : Nat :=
  c.toNat - '0'.toNat

/-- The number that decimal digits stand for when the digits before them stand for `n`. -/
def digitsValueFrom (n : Nat) : List Char → Nat
  | [] => n
  | c :: cs => digitsValueFrom (10 * n + digitValue c) cs

/-- The number that decimal digits stand for. -/
def digitsValue (digits : List Char) : Nat :=
  digitsValueFrom 0 digits

/-- Whether the character is a hexadecimal digit. -/
def isHexDigit (c : Char) : Bool :=
  c.isDigit || ('a' ≤ c.toLower && c.toLower ≤ 'f')

/-- The value of a hexadecimal digit. -/
def hexDigitValue (c : Char) : Nat :=
  if c.isDigit then digitValue c else c.toLower.toNat - 'a'.toNat + 10

/-- The number that hexadecimal digits stand for. -/
def hexDigitsValue (digits : List Char) : Nat :=
  digits.foldl (fun n c => 16 * n + hexDigitValue c) 0

/-- The character of a code, if there is one. -/
def charOfCode? (code : Nat) : Option Char :=
  if code.isValidChar then some (Char.ofNat code) else none

/-- The character of a code in hexadecimal digits, if there is one. -/
def charOfHexDigits? (digits : List Char) : Option Char :=
  charOfCode? (hexDigitsValue digits)

end FactModel.Text
