import FactModel.Binary64.Shortest
import FactModel.Text.Numeral
set_option autoImplicit false

/-!
# Numbers of settings

## Main definitions

* `FactModel.Number` — a whole number, or one of limited precision.
* `FactModel.Number.written` — the text of a number.
* `FactModel.Number.ofText?` — the number that a text is.
-/

namespace FactModel

open Text (Numeral)

/-- A whole number, or one of limited precision. -/
inductive Number where
  | integer (value : Int)
  | float (value : Binary64)
deriving DecidableEq

namespace Number

/-- The text of a number. -/
def written : Number → String
  | .integer value => toString value
  | .float value => value.written

/-- Whether a number is zero. -/
def isZero : Number → Bool
  | .integer value => value == 0
  | .float value => value.isZero

/-- Whether a whole number fits into 64 bits with a sign. -/
def fitsWord (value : Int) : Bool :=
  -9223372036854775808 ≤ value && value ≤ 9223372036854775807

/-- The number of limited precision that a numeral stands for. -/
def rounded (n : Numeral) : Binary64 :=
  .ofDecimal n.negative (Text.digitsValue n.digits) n.scale

/-- The number of limited precision that has a name of its own, in letters of either case. -/
def named? (cs : List Char) : Option Binary64 :=
  let (negative, name) := Numeral.splitSign cs
  match String.ofList (name.map Char.toLower) with
  | "inf" | "infinity" => some (.infinite negative)
  | "nan" => some .notANumber
  | _ => none

/-- The number that a text is. It is whole if it has neither a point nor an exponent and fits into
64 bits. -/
def ofText? (s : String) : Option Number :=
  match Numeral.ofChars? s.toList with
  | some n =>
    if n.isWhole && fitsWord n.toInt then some (.integer n.toInt) else some (.float (rounded n))
  | none => (named? s.toList).map .float

end Number

end FactModel
