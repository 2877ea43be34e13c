import FactModel.Text.Digits
import FactModel.Text.Words
set_option autoImplicit false

/-!
# Templates of readings

A reading is kept as a text of words and placeholders, such as `{0} has {1}`. A placeholder is
a number in braces and stands for a role of the reading's role sequence.

## Main definitions

* `FactModel.Template.Token` — a word or a placeholder.
* `FactModel.Template.tokens` — the tokens of a template.
* `FactModel.Template.render` — a template of the given tokens.
-/

namespace FactModel.Template

/-- A part of a template. -/
inductive Token where
  | word (text : String)
  | place (ordinal : Nat)
deriving DecidableEq

/-- The least number that is too large for a placeholder, which has sixty-four bits. -/
def placeLimit : Nat :=
  0x10000000000000000

/-- The number of a placeholder, if the characters are one. -/
def place? (part : List Char) : Option Nat :=
  match part with
  | '\x7b' :: rest =>
    let digits := rest.dropLast
    if rest.getLast? = some '\x7d' ∧ digits ≠ [] ∧ digits.all Char.isDigit ∧
        Text.digitsValue digits < placeLimit then
      some (Text.digitsValue digits)
    else none
  | _ => none

/-- What one word of a template stands for. -/
def Token.ofWord (part : String) : Token :=
  match place? part.toList with
  | some ordinal => .place ordinal
  | none => .word part

/-- The tokens of a template, in order. -/
def tokens (template : String) : List Token :=
  (Text.words template).map Token.ofWord

/-- A placeholder as it is written. -/
def writtenPlace (ordinal : Nat) : String :=
  "\x7b" ++ toString ordinal ++ "\x7d"

/-- A token as it is written. -/
def Token.written : Token → String
  | .word text => text
  | .place ordinal => writtenPlace ordinal

/-- The template of the given tokens. -/
def render (ts : List Token) : String :=
  Text.unwords (ts.map Token.written)

end FactModel.Template
