import FactModel.Peg.Expr
import FactModel.Text.Digits
import FactModel.Toml.Basic
set_option autoImplicit false

/-!
# Grammar of TOML

Blanks are part of the grammar, because the end of a line means something outside of brackets and
nothing inside of them. Dates and times are not values here.

## Main definitions

* `FactModel.Toml.valueForm` — a value, the one nonterminal that may refer to itself.
* `FactModel.Toml.document` — the lines of a document.
-/

namespace FactModel.Toml

open Peg Peg.Expr

/-- A parsing expression of TOML. -/
abbrev Form : Type → Type 1 :=
  Expr Unit Unit Value

/-! ## Blanks -/

/-- Whether a character may stand in a comment and, apart from quotation marks and backslashes, in
a text: a tab, or any character but the other control characters. -/
def isPlain (c : Char) : Bool :=
  c == '\t' || (32 ≤ c.toNat && c.toNat ≠ 127)

/-- Blanks inside a line. -/
def spacing : Form Unit :=
  void (.many (the " " <|> the "\t"))

/-- The end of a line. -/
def newline : Form Unit :=
  the "\n" <|> the "\r\n"

/-- A comment, up to the end of its line. -/
def comment : Form Unit :=
  the "#" <* .many (.satisfy isPlain)

/-- Blanks inside brackets: ends of lines and comments too. -/
def filler : Form Unit :=
  void (.many (the " " <|> the "\t" <|> newline <|> comment))

/-! ## Texts -/

/-- So many hexadecimal digits. -/
def hexDigits : Nat → Form Unit
  | 0 => the ""
  | n + 1 => .satisfy Text.isHexDigit *> hexDigits n

/-- A character given by its code, which has so many digits behind a letter. -/
def codeEscape (letter : String) (count : Nat) : Form Char :=
  the letter *> reading Text.charOfHexDigits? (hexDigits count)

/-- A character behind a backslash. -/
def escape : Form Char :=
  standingFor '"' "\"" <|> standingFor '\\' "\\" <|> standingFor (Char.ofNat 8) "b" <|>
    standingFor '\t' "t" <|> standingFor '\n' "n" <|> standingFor (Char.ofNat 12) "f" <|>
    standingFor '\r' "r" <|> standingFor (Char.ofNat 27) "e" <|> codeEscape "x" 2 <|>
    codeEscape "u" 4 <|> codeEscape "U" 8

/-- A text in one line with escapes. -/
def basicText : Form String :=
  String.ofList <$>
    (the "\"" *>
      .many ((the "\\" *> escape) <|> character fun c => isPlain c && c ≠ '"' && c ≠ '\\') <*
      the "\"")

/-- A text in one line without escapes. -/
def literalText : Form String :=
  String.ofList <$> (the "'" *> .many (character fun c => isPlain c && c ≠ '\'') <* the "'")

/-- Three of a mark, which may stand once or twice more in front of them as part of a text. -/
def closing (mark : Char) : Form (List Char) :=
  let marks (n : Nat) : Form Unit := .text (List.replicate n mark)
  (fun _ => [mark, mark]) <$> marks 5 <|> (fun _ => [mark]) <$> marks 4 <|>
    (fun _ => []) <$> marks 3

/-- A text over several lines between three marks each. An end of line behind the opening marks is
not part of it. -/
def linesText (mark : Char) (piece : Form (List Char)) : Form String :=
  let marks : Form Unit := .text (List.replicate 3 mark)
  let single : Form (List Char) :=
    (fun c => [c]) <$> (.notFollowedBy marks *> character (· == mark))
  (fun (pieces, extra) => String.ofList (pieces.flatten ++ extra)) <$>
    (marks *> .optional newline *> .pair (.many (single <|> piece)) (closing mark))

/-- An end of line as part of a text, which keeps it as it is written. -/
def lineBreak : Form (List Char) :=
  String.toList <$> lexeme newline

/-- A backslash at the end of a line, with all blanks up to the text that goes on behind it. -/
def joint : Form (List Char) :=
  (fun _ => []) <$> (the "\\" *> spacing *> newline *> .many (the " " <|> the "\t" <|> newline))

/-- A text over several lines with escapes. -/
def basicLinesText : Form String :=
  linesText '"'
    (joint <|> (fun c => [c]) <$> (the "\\" *> escape) <|> lineBreak <|>
      (fun c => [c]) <$> character fun c => isPlain c && c ≠ '"' && c ≠ '\\')

/-- A text over several lines without escapes. -/
def literalLinesText : Form String :=
  linesText '\'' (lineBreak <|> (fun c => [c]) <$> character fun c => isPlain c && c ≠ '\'')

/-- A text. -/
def textForm : Form String :=
  basicLinesText <|> basicText <|> literalLinesText <|> literalText

/-! ## Numbers -/

/-- Characters of a class, at least one, with single underscores between them. -/
def grouped (belongs : Char → Bool) : Form Unit :=
  void (.pair (.satisfy belongs) (.many (.optional (the "_") *> .satisfy belongs)))

/-- A sign. -/
def sign : Form Unit :=
  the "+" <|> the "-"

/-- A number that fits into 64 bits. -/
def fitting? (value : Int) : Option Number :=
  if Number.fitsWord value then some (.integer value) else none

/-- A number that is not infinite. -/
def bounded? : Binary64 → Option Number
  | .infinite _ => none
  | value => some (.float value)

/-- The number of a decimal numeral. -/
def decimalOf? (cs : List Char) : Option Number := do
  let numeral ← Text.Numeral.ofChars? (cs.filter (· ≠ '_'))
  if numeral.isWhole then fitting? numeral.toInt else bounded? (Number.rounded numeral)

/-- A decimal number. Its whole part has no needless zeros in front. -/
def decimal : Form Number :=
  reading decimalOf?
    (.optional sign *>
      (the "0" <|> void (.pair (.notFollowedBy (the "0")) (grouped Char.isDigit))) *>
      .optional (the "." *> grouped Char.isDigit) *>
      void (.optional ((the "e" <|> the "E") *> .optional sign *> grouped Char.isDigit)))

/-- A number without a sign in another base than ten, which a letter behind a zero tells. -/
def based (mark : String) (base : Nat) (belongs : Char → Bool) : Form Number :=
  let value (cs : List Char) : Nat :=
    (cs.filter (· ≠ '_')).foldl (fun n c => base * n + Text.hexDigitValue c) 0
  the mark *> reading (fun cs => fitting? (value cs)) (grouped belongs)

/-- Infinity, or what is not a number. -/
def named : Form Number :=
  Number.float <$> reading Number.named? (.optional sign *> (the "inf" <|> the "nan"))

/-- A number. -/
def numberForm : Form Number :=
  based "0x" 16 Text.isHexDigit <|> based "0o" 8 (fun c => c.isDigit && c.toNat ≤ '7'.toNat) <|>
    based "0b" 2 (fun c => c == '0' || c == '1') <|> named <|> decimal

/-! ## Values -/

/-- A key, or the part of a key between two points. -/
def keyPart : Form String :=
  lexeme (void (atLeastOnce (.satisfy fun c => c.isAlphanum || c == '_' || c == '-'))) <|>
    basicText <|> literalText

/-- A key. -/
def key : Form Key :=
  Key.ofParts <$> separatedBy keyPart (spacing *> the "." <* spacing)

/-- A key with its value. -/
def entryOf (value : Form Value) : Form (Key × Value) :=
  .pair (key <* spacing <* the "=" <* spacing) value

/-- Items in brackets with commas between them and perhaps one behind them. -/
def bracketed {α : Type} (opening closing : String) (item : Form α) : Form (List α) :=
  (·.getD []) <$>
    (the opening *> filler *>
      .optional (separatedBy (item <* filler) (the "," <* filler) <*
        .optional (the "," <* filler)) <*
      the closing)

/-- A value. -/
def valueForm : Form Value :=
  Value.text <$> textForm <|>
    (fun _ => Value.bool true) <$> the "true" <|>
    (fun _ => Value.bool false) <$> the "false" <|>
    Value.number <$> numberForm <|>
    Value.array <$> bracketed "[" "]" .recur <|>
    Value.table <$> bracketed "\x7b" "\x7d" (entryOf .recur)

/-! ## Lines -/

/-- A line, perhaps with a comment at its end. -/
def line : Form Line :=
  spacing *>
    (Line.rowHeader <$> (the "[[" *> spacing *> key <* spacing <* the "]]") <|>
      Line.header <$> (the "[" *> spacing *> key <* spacing <* the "]") <|>
      (fun (k, v) => Line.entry k v) <$> entryOf valueForm <|>
      (fun _ => Line.nothing) <$> the "") <*
    spacing <* .optional comment

/-- The lines of a document, perhaps behind a byte order mark. -/
def document : Form (List Line) :=
  .optional (the "\ufeff") *> separatedBy line newline <* .endOfInput

end FactModel.Toml
