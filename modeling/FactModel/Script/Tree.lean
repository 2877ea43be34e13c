import FactModel.Sentence.Part
set_option autoImplicit false

/-!
# Syntax trees of declarations

What a script says, before any of its terms is looked up. A clause is a list of phrases: words,
mentions of terms and comparisons. A mention may carry nested clauses, so clauses and mentions
are defined together.

## Main definitions

* `FactModel.Script.Clause`, `FactModel.Script.Phrase`, `FactModel.Script.Mention`,
  `FactModel.Script.Operand` — clauses and their parts.
* `FactModel.Script.Declaration` — a declaration.
-/

namespace FactModel.Script

mutual

/-- A term with the marks it is mentioned with. -/
structure Mention where
  term : String
  leading : Option String := none
  trailing : Option String := none
  roleName : Option RoleName := none
  quantifier : Option Quantifier := none
  literal : Option Literal := none
  nested : List Clause := []

/-- A side of a comparison. -/
inductive Operand where
  | mention (mention : Mention)
  | literal (value : Literal)

/-- A part of a clause. -/
inductive Phrase where
  | word (text : String)
  | mention (mention : Mention)
  | comparison (operator : String) (left right : Operand)

/-- A clause, with the conjunction that joins it to the clause before it. -/
structure Clause where
  phrases : List Phrase
  qualifiers : List String := []
  certainty : Certainty := .definite
  conjunction : Option Conjunction := none

end

instance : Inhabited Mention :=
  ⟨{ term := "" }⟩

instance : Inhabited Operand :=
  ⟨.mention default⟩

instance : Inhabited Phrase :=
  ⟨.word ""⟩

instance : Inhabited Clause :=
  ⟨{ phrases := [] }⟩

/-- A declaration of a script. -/
inductive Declaration where
  | entityType (name : String)
  | valueType (name : String)
  | subtype (subtype : String) (supertypes : List String)
  /-- Readings of one fact type, possibly derived from the clauses behind a `where`. -/
  | factType (clauses : List Clause)
  /-- Readings of a fact type that the term objectifies. -/
  | objectification (term : String) (clauses : List Clause)
  | query (clauses : List Clause)

end FactModel.Script
