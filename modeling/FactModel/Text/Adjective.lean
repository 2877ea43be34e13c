import FactModel.Text.Words
set_option autoImplicit false

/-!
# Adjectives

An adjective stands in front of a term (a leading adjective) or behind it (a trailing one). It
is kept as one text of words; an absent adjective differs from an empty one, though both have no
words.

## Main definitions

* `FactModel.Adjective.words`, `FactModel.Adjective.ofWords` — between an adjective and its words.
* `FactModel.Adjective.join` — the adjective of two runs of words.
* `FactModel.Adjective.written` — a term with its adjectives, as it is declared.
-/

namespace FactModel.Adjective

open FactModel.Text

/-- The words of an adjective; none when it is absent. -/
def words : Option String → List String
  | none => []
  | some adjective => Text.words adjective

/-- The adjective of the given words; absent when there are none. -/
def ofWords (ws : List String) : Option String :=
  if ws.isEmpty then none else some (unwords ws)

/-- The adjective of two runs of words, one behind the other. -/
def join (first second : List String) : Option String :=
  ofWords (first ++ second)

/-- The words of a leading adjective as they are declared: a hyphen follows the first. -/
def leadingWords : List String → List String
  | [] => []
  | first :: more => (first ++ "-") :: more

/-- The words of a trailing adjective as they are declared: a hyphen precedes the last. -/
def trailingWords : List String → List String
  | [] => []
  | [last] => ["-" ++ last]
  | word :: more => word :: trailingWords more

/-- A term with its adjectives, the way they are declared: the hyphen follows the first word of
a leading adjective and precedes the last word of a trailing one. -/
def written (leading : Option String) (term : String) (trailing : Option String) : String :=
  unwords (leadingWords (words leading) ++ term :: trailingWords (words trailing))

end FactModel.Adjective
