import FactModel.Json.Basic
import FactModel.Json.Number
import FactModel.Peg.Run
import FactModel.Text.Digits
set_option autoImplicit false

/-!
# Reading JSON

The grammar of JSON as a parsing expression. It names no rules, because a document that is not JSON
is refused without further words.

## Main definitions

* `FactModel.Json.valueForm` — the grammar of a value.
* `FactModel.Json.parse?` — the document that a text is.
-/

namespace FactModel.Json

open Peg Peg.Expr

/-- A parsing expression without names of rules. -/
abbrev Form : Type → Type 1 :=
  Expr Unit Unit Json

/-- An expression without blanks inside. -/
def tight {α : Type} (inner : Form α) : Form α :=
  .rule () .atomic inner

/-! ## Texts -/

/-- Four hexadecimal digits. -/
def fourHexDigits : Form Unit :=
  let digit : Form Unit := .satisfy Text.isHexDigit
  digit *> digit *> digit *> digit

/-- The code of the character that a pair of surrogate codes stands for. -/
def pairedCode (high low : Nat) : Nat :=
  0x10000 + (high - 0xD800) * 0x400 + (low - 0xDC00)

/-- The character of a code in `\u` notation, given without the first `\u`. A code of the first
half of a pair must be followed by one of the second half. -/
def charOfUnicode? : List Char → Option Char
  | [a, b, c, d, _, _, e, f, g, h] =>
    let high := Text.hexDigitsValue [a, b, c, d]
    let low := Text.hexDigitsValue [e, f, g, h]
    if 0xD800 ≤ high ∧ high < 0xDC00 ∧ 0xDC00 ≤ low ∧ low < 0xE000 then
      Text.charOfCode? (pairedCode high low)
    else none
  | digits => Text.charOfHexDigits? digits

/-- The code of the first half of a pair: a `d` and then a digit from `8` to `b`. -/
def highSurrogate : Form Unit :=
  .satisfy (·.toLower == 'd') *> .satisfy (fun c => "89abAB".toList.contains c) *>
    .satisfy Text.isHexDigit *> .satisfy Text.isHexDigit

/-- A character given by its code. -/
def unicodeEscape : Form Char :=
  the "u" *> reading charOfUnicode?
    ((highSurrogate *> the "\\u" *> fourHexDigits) <|> fourHexDigits)

/-- A character behind a backslash. -/
def escape : Form Char :=
  standingFor '"' "\"" <|> standingFor '\\' "\\" <|> standingFor '/' "/" <|>
    standingFor (Char.ofNat 8) "b" <|> standingFor (Char.ofNat 12) "f" <|>
    standingFor '\n' "n" <|> standingFor '\r' "r" <|> standingFor '\t' "t" <|> unicodeEscape

/-- A text in quotation marks. -/
def quotedForm : Form String :=
  tight (String.ofList <$>
    (the "\"" *>
      .many ((the "\\" *> escape) <|> character fun c => c ≠ '"' && c ≠ '\\' && 32 ≤ c.toNat) <*
      the "\""))

/-! ## Values -/

/-- A number. -/
def numberForm : Form Json :=
  Json.number <$> tight (reading numberOf?
    (.optional (the "-") *> (the "0" <|> digits) *> .optional (the "." *> digits) *>
      void (.optional ((the "e" <|> the "E") *> .optional (the "+" <|> the "-") *> digits))))

/-- Items in brackets with commas between them. -/
def bracketedForm {α : Type} (opening closing : String) (item : Form α) : Form (List α) :=
  (·.getD []) <$> (the opening *> .optional (separatedBy item (the ",")) <* the closing)

/-- A value. -/
def valueForm : Form Json :=
  Json.object <$> bracketedForm "\x7b" "\x7d" (.pair (quotedForm <* the ":") .recur) <|>
    Json.array <$> bracketedForm "[" "]" .recur <|>
    Json.text <$> quotedForm <|>
    numberForm <|>
    (fun _ => Json.bool true) <$> the "true" <|>
    (fun _ => Json.bool false) <$> the "false" <|>
    (fun _ => Json.null) <$> the "null"

/-- The blank characters of JSON. -/
def isSpacing (c : Char) : Bool :=
  c == ' ' || c == '\t' || c == '\r' || c == '\n'

/-- Passes over blank characters. -/
def blanks (c : Cursor) : Cursor :=
  c.advance (c.rest.takeWhile isSpacing).length

/-- How deep arrays and objects may be nested. -/
def deepestNesting : Nat :=
  127

/-- The document that a text is. -/
def parse? (source : String) : Option Json :=
  (valueOf? blanks valueForm (the "" *> valueForm <* .endOfInput) source).filter
    (nestsWithin deepestNesting)

end FactModel.Json
