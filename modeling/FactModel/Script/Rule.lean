set_option autoImplicit false

/-!
# Rules of the notation

The named rules of the grammar. When a script cannot be read, the rules that were expected at the
farthest place are listed in the order in which they are defined here.

## Main definitions

* `FactModel.Script.Rule` — the rules.
* `FactModel.Script.Rule.name` — the name of a rule in messages.
* `FactModel.Script.Rule.inOrder` — a set of rules as the names that a message lists.
-/

namespace FactModel.Script

/-- The named rules of the notation. -/
inductive Rule where
  | endOfInput
  | file
  | entityType
  | valueType
  | subtype
  | objectification
  | query
  | factType
  | clauseList
  | conjAnd
  | conjOr
  | conjWhere
  | conjThat
  | conjComma
  | clause
  | maybe
  | negation
  | qualifiers
  | qualifier
  | comparison
  | comparator
  | phrases
  | reference
  | leadingAdjective
  | leadWord
  | trailingAdjective
  | trailWord
  | roleSpec
  | subscript
  | roleNameDecl
  | nested
  | quantifier
  | exactly
  | atMost
  | atLeast
  | fromTo
  | eachOf
  | someOf
  | noneOf
  | oneOf
  | count
  | enforcement
  | quotedText
  | quotedInner
  | number
  | term
  | capWord
  | word
  | wordBody
  | keyword
deriving DecidableEq

namespace Rule

/-- Every rule, in the order of messages. -/
def all : List Rule :=
  [.endOfInput, .file, .entityType, .valueType, .subtype, .objectification, .query, .factType,
    .clauseList, .conjAnd, .conjOr, .conjWhere, .conjThat, .conjComma, .clause, .maybe, .negation,
    .qualifiers, .qualifier, .comparison, .comparator, .phrases, .reference, .leadingAdjective,
    .leadWord, .trailingAdjective, .trailWord, .roleSpec, .subscript, .roleNameDecl, .nested,
    .quantifier, .exactly, .atMost, .atLeast, .fromTo, .eachOf, .someOf, .noneOf, .oneOf, .count,
    .enforcement, .quotedText, .quotedInner, .number, .term, .capWord, .word, .wordBody, .keyword]

/-- The name of a rule in messages. -/
def name : Rule → String
  | .endOfInput => "EOI"
  | .file => "file"
  | .entityType => "entity_type"
  | .valueType => "value_type"
  | .subtype => "subtype"
  | .objectification => "objectification"
  | .query => "query"
  | .factType => "fact_type"
  | .clauseList => "clause_list"
  | .conjAnd => "conj_and"
  | .conjOr => "conj_or"
  | .conjWhere => "conj_where"
  | .conjThat => "conj_that"
  | .conjComma => "conj_comma"
  | .clause => "clause"
  | .maybe => "maybe"
  | .negation => "negation"
  | .qualifiers => "qualifiers"
  | .qualifier => "qualifier"
  | .comparison => "comparison"
  | .comparator => "comparator"
  | .phrases => "phrases"
  | .reference => "reference"
  | .leadingAdjective => "leading_adjective"
  | .leadWord => "lead_word"
  | .trailingAdjective => "trailing_adjective"
  | .trailWord => "trail_word"
  | .roleSpec => "role_spec"
  | .subscript => "subscript"
  | .roleNameDecl => "role_name_decl"
  | .nested => "nested"
  | .quantifier => "quantifier"
  | .exactly => "q_exactly"
  | .atMost => "q_at_most"
  | .atLeast => "q_at_least"
  | .fromTo => "q_range"
  | .eachOf => "q_each"
  | .someOf => "q_some"
  | .noneOf => "q_no"
  | .oneOf => "q_one"
  | .count => "count"
  | .enforcement => "enforcement"
  | .quotedText => "string"
  | .quotedInner => "string_inner"
  | .number => "number"
  | .term => "term"
  | .capWord => "cap_word"
  | .word => "word"
  | .wordBody => "word_body"
  | .keyword => "keyword"

/-- The names of the given rules, each once, in the order of messages. -/
def inOrder (rules : List Rule) : List String :=
  (all.filter (rules.contains ·)).map name

/-- No rule is left out of messages. -/
theorem mem_all (r : Rule) : r ∈ all := by
  cases r <;> decide

end Rule

end FactModel.Script
