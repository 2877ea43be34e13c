import FactModel.Peg.Expr
import FactModel.Script.Rule
import FactModel.Script.Tree
import FactModel.Text.Digits
import FactModel.Text.Words
set_option autoImplicit false

/-!
# Grammar of the notation

Declarations end with a semicolon, except queries, which end with a question mark:

```text
entity type Person;
value type Name;
Employee is a kind of Person;
Person has at most one given- Name;
Directorship is where Person directs Company;
Person(1) is parent of Person(2) and is happy?
```

## Main definitions

* `FactModel.Script.clauseList` — clauses joined by conjunctions, the one nonterminal that may
  refer to itself.
* `FactModel.Script.script` — a whole script.
* `FactModel.Script.Misread` — a number that is too large.
-/

namespace FactModel.Script

open Peg Peg.Expr

/-- A piece of the script that stands where a number is wanted but is too large for one. -/
structure Misread where
  wanted : String
  lexeme : Lexeme
deriving DecidableEq

/-- A parsing expression of the notation. -/
abbrev Form : Type → Type 1 :=
  Expr Rule Misread (List Clause)

/-! ## Characters -/

/-- Letters, digits and the underscore may stand inside a word. -/
def isWordChar (c : Char) : Bool :=
  c.isAlphanum || c == '_'

/-- Characters that would continue a keyword. -/
def isIdentChar (c : Char) : Bool :=
  isWordChar c || c == '-'

/-- A keyword, and nothing that would continue it. -/
def whole (keyword : Form Unit) : Form Unit :=
  keyword <* .notFollowedBy (.satisfy isIdentChar)

/-- The largest number that a count or a subscript may have: all of thirty-two bits set. -/
def largestNumber : Nat :=
  0xFFFFFFFF

/-- The number written in digits, unless it is too large. -/
def readNumber (wanted : String) (l : Lexeme) : Except Misread Nat :=
  let n := Text.digitsValue l.text.toList
  if n ≤ largestNumber then .ok n else .error ⟨wanted, l⟩

/-! ## Words and terms -/

/-- Words that join clauses or qualify them, and so are no words of a reading. -/
def keyword : Form Unit :=
  .rule .keyword .atomic
    (whole (the "and" <|> the "or" <|> the "where" <|> the "that" <|> the "who" <|> the "maybe"))

/-- A small letter, then letters, digits, underscores and single hyphens inside. -/
def wordBody : Form String :=
  .word .wordBody
    (.satisfy Char.isLower <*
      .many (.satisfy isWordChar <|> (the "-" *> .satisfy Char.isAlphanum)))

/-- A word of a reading. -/
def word : Form String :=
  .rule .word .atomic (.notFollowedBy keyword *> wordBody)

/-- A word that begins with a capital. -/
def capWord : Form Unit :=
  .rule .capWord .atomic (.satisfy Char.isUpper <* .many (.satisfy isWordChar))

/-- A term: capitalised words with one space between each two. -/
def term : Form String :=
  .word .term (capWord <* .many (the " " *> capWord))

/-- The first word of a leading adjective; its hyphen is not part of it. -/
def leadWord : Form String :=
  .rule .leadWord .atomic (wordBody <* the "-")

/-- A leading adjective, as in `first- middle Name`: every word up to the term belongs to it. -/
def leadingAdjective : Form String :=
  .rule .leadingAdjective .plain
    ((fun (first, more) => Text.unwords (first :: more)) <$>
      .pair leadWord (.many (word <* .followedBy (.pair (.many word) term))))

/-- The last word of a trailing adjective; its hyphen is not part of it. -/
def trailWord : Form String :=
  .rule .trailWord .atomic (the "-" *> wordBody)

/-- A trailing adjective, as in `Name middle -last`. -/
def trailingAdjective : Form String :=
  .rule .trailingAdjective .plain
    ((fun (words, last) => Text.unwords (words ++ [last])) <$>
      .pair (.many (word <* .followedBy (.pair (.many word) trailWord))) trailWord)

/-! ## Marks of a mention -/

/-- A number in parentheses or a name declared with `as`. -/
def roleSpec : Form RoleName :=
  .rule .roleSpec .plain
    (the "(" *>
      (RoleName.subscript <$>
          .rule .subscript .atomic (.token (readNumber "a subscript") digits) <|>
        RoleName.named <$> .rule .roleNameDecl .plain (the "as" *> term)) <*
      the ")")

/-- A number of occurrences, in digits or as the word `one`. -/
def count : Form Nat :=
  .rule .count .atomic
    ((fun _ => 1) <$> whole (the "one") <|> .token (readNumber "a count") digits)

/-- What is to be done when a constraint is violated. -/
def enforcement : Form Enforcement :=
  .rule .enforcement .plain
    ((fun (action, agent) => ⟨action, agent⟩) <$>
      (the "(" *> the "otherwise" *> .pair word (.optional term) <* the ")"))

/-- A quantifier that is one word. -/
def quantifierWord (rule : Rule) (written : String) (meaning : Quantifier) : Form Quantifier :=
  .rule rule .atomic ((fun _ => meaning) <$> whole (the written))

/-- The bounds of a quantifier. -/
def bounds : Form Quantifier :=
  .rule .exactly .plain
    ((fun n => { min := some n, max := some n }) <$> (the "exactly" *> count)) <|>
  .rule .atMost .plain ((fun n => { max := some n }) <$> (the "at" *> the "most" *> count)) <|>
  .rule .atLeast .plain ((fun n => { min := some n }) <$> (the "at" *> the "least" *> count)) <|>
  .rule .fromTo .plain
    ((fun (low, high) => { min := some low, max := some high }) <$>
      (the "from" *> .pair count (the "to" *> count))) <|>
  quantifierWord .eachOf "each" {} <|>
  quantifierWord .someOf "some" {} <|>
  quantifierWord .noneOf "no" { max := some 0 } <|>
  quantifierWord .oneOf "one" { min := some 1, max := some 1 }

/-- How often something may occur, and what to do otherwise. -/
def quantifier : Form Quantifier :=
  .rule .quantifier .plain
    ((fun (q, enforcement) => { q with enforcement }) <$> .pair bounds (.optional enforcement))

/-- A text in single quotation marks, none of them inside. -/
def quotedText : Form Literal :=
  .rule .quotedText .compound
    (Literal.text <$>
      (the "'" *> .word .quotedInner (void (.many (.satisfy (· ≠ '\'')))) <* the "'"))

/-- A number, perhaps negative, perhaps with decimals. -/
def number : Form Literal :=
  Literal.number <$>
    .word .number (.optional (the "-") *> digits <* .optional (the "." *> digits))

/-- Clauses under a mention. -/
def nested : Form (List Clause) :=
  .rule .nested .plain
    (the "(" *> (the "where" <|> the "in" *> the "which") *> .recur <* the ")")

/-- A mention from its parts. -/
def mentionOf (quantifier : Option Quantifier) (leading : Option String) (term : String)
    (trailing : Option String) (roleName : Option RoleName) (literal : Option Literal)
    (nested : Option (List Clause)) : Mention :=
  { quantifier, leading, term, trailing, roleName, literal, nested := nested.getD [] }

/-- A term with its marks. -/
def reference : Form Mention :=
  .rule .reference .plain
    ((fun (q, l, t, tr, r, lit, n) => mentionOf q l t tr r lit n) <$>
      .pair (.optional quantifier) (.pair (.optional leadingAdjective) (.pair term
        (.pair (.optional trailingAdjective) (.pair (.optional roleSpec)
          (.pair (.optional (quotedText <|> number)) (.optional nested)))))))

/-! ## Clauses -/

/-- A side of a comparison. -/
def operand : Form Operand :=
  Operand.mention <$> reference <|> Operand.literal <$> (quotedText <|> number)

/-- The sign of a comparison. -/
def comparator : Form String :=
  .word .comparator
    (the "<=" <|> the ">=" <|> the "<>" <|> the "!=" <|> the "=" <|> the "<" <|> the ">")

/-- A comparison of two operands. -/
def comparison : Form Phrase :=
  .rule .comparison .plain
    ((fun (left, operator, right) => .comparison operator left right) <$>
      .pair operand (.pair comparator operand))

/-- Words and mentions. -/
def phrases : Form (List Phrase) :=
  .rule .phrases .plain (atLeastOnce (Phrase.mention <$> reference <|> Phrase.word <$> word))

/-- Qualifiers in brackets, in small letters whatever the case they are written in. -/
def qualifiers : Form (List String) :=
  .rule .qualifiers .plain
    (the "[" *>
      separatedBy (String.toLower <$> .word .qualifier (void (atLeastOnce (.satisfy Char.isAlpha))))
        (the ",") <*
      the "]")

/-- How a clause is asserted, where it says so. -/
def certainty : Form Certainty :=
  (fun _ => .maybe) <$> .rule .maybe .atomic (whole (the "maybe")) <|>
  (fun _ => .negated) <$>
    .rule .negation .plain
      (the "it" *> the "is" *> the "not" *> the "the" *> the "case" *> the "that")

/-- A clause, not yet joined to the one before it. -/
def clause : Form Clause :=
  .rule .clause .plain
    ((fun (certainty, phrases, qualifiers) =>
        { phrases, qualifiers := qualifiers.getD [], certainty := certainty.getD .definite }) <$>
      .pair (.optional certainty)
        (.pair ((fun p => [p]) <$> comparison <|> phrases) (.optional qualifiers)))

/-- A conjunction that is a word. -/
def conjunctionWord (rule : Rule) (written : Form Unit) (meaning : Conjunction) :
    Form Conjunction :=
  .rule rule .atomic ((fun _ => meaning) <$> whole written)

/-- What joins a clause to the one before it. -/
def conjunction : Form Conjunction :=
  conjunctionWord .conjAnd (the "and") .and <|>
  conjunctionWord .conjOr (the "or") .or <|>
  conjunctionWord .conjWhere (the "where") .where <|>
  conjunctionWord .conjThat (the "that" <|> the "who") .that <|>
  .rule .conjComma .plain ((fun _ => .comma) <$> the ",")

/-- A clause joined to the one before it. -/
def joinedClause : Form Clause :=
  (fun (conjunction, next) => { next with conjunction := some conjunction }) <$>
    .pair conjunction clause

/-- Clauses, each joined to the one before it. -/
def clauseList : Form (List Clause) :=
  .rule .clauseList .plain
    ((fun (first, more) => first :: more) <$> .pair clause (.many joinedClause))

/-! ## Declarations -/

/-- A declaration with its closing mark. -/
def declaration : Form Declaration :=
  .rule .entityType .plain
    (Declaration.entityType <$> (the "entity" *> the "type" *> term <* the ";")) <|>
  .rule .valueType .plain
    (Declaration.valueType <$> (the "value" *> the "type" *> term <* the ";")) <|>
  .rule .subtype .plain
    ((fun (subtype, supertypes) => .subtype subtype supertypes) <$>
      .pair (term <* the "is" <* the "a" <* the "kind" <* the "of")
        (separatedBy term (the ",") <* the ";")) <|>
  .rule .objectification .plain
    ((fun (term, clauses) => .objectification term clauses) <$>
      .pair (term <* the "is" <* the "where") (clauseList <* the ";")) <|>
  .rule .query .plain (Declaration.query <$> (clauseList <* the "?")) <|>
  .rule .factType .plain (Declaration.factType <$> (clauseList <* the ";"))

/-- A whole script. Blanks may stand in front of its first declaration. -/
def script : Form (List Declaration) :=
  .rule .file .plain
    (the "" *> .many declaration <* .rule .endOfInput .plain .endOfInput)

end FactModel.Script
