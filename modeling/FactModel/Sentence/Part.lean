set_option autoImplicit false

/-!
# Parts of sentences

The marks that a sentence of the notation puts on its clauses and on the terms mentioned in them.

## Main definitions

* `FactModel.RoleName` — a name or a subscript that tells mentions of one term apart.
* `FactModel.Literal` — a value written in a sentence.
* `FactModel.Quantifier` — how often something may occur.
* `FactModel.Certainty`, `FactModel.Conjunction` — how a clause is asserted and joined.
-/

namespace FactModel

/-- A mark that tells mentions of one term apart: a name of their own or a number. -/
inductive RoleName where
  | named (name : String)
  | subscript (number : Nat)
deriving DecidableEq

/-- A value written in a sentence. A number keeps its written form, so two ways to write one
number are two values. -/
inductive Literal where
  | number (written : String)
  | text (value : String)
deriving DecidableEq

/-- What is to be done when a constraint is violated, and by whom. -/
structure Enforcement where
  action : String
  agent : Option String
deriving DecidableEq

/-- How often something may occur at least and at most. -/
structure Quantifier where
  min : Option Nat := none
  max : Option Nat := none
  enforcement : Option Enforcement := none
deriving DecidableEq

/-- How a clause is asserted. -/
inductive Certainty where
  | definite
  | negated
  | maybe
deriving DecidableEq

/-- How a clause is joined to the one before it. -/
inductive Conjunction where
  | and
  | or
  | comma
  | where
  | that
deriving DecidableEq

namespace RoleName

/-- A role name as it is written behind a term. -/
def written : RoleName → String
  | named name => "(as " ++ name ++ ")"
  | subscript number => "(" ++ toString number ++ ")"

/-- The name or number alone. -/
def bare : RoleName → String
  | named name => name
  | subscript number => toString number

end RoleName

/-- A literal as it is written. -/
def Literal.written : Literal → String
  | number written => written
  | text value => "'" ++ value ++ "'"

/-- Whether a quantifier says nothing about frequency, as `each` and `some` do. -/
def Quantifier.isUnconstrained (q : Quantifier) : Bool :=
  q.min.isNone && q.max.isNone

/-- The certainty of a clause under an implicit negation. -/
def Certainty.negate : Certainty → Certainty
  | negated => definite
  | definite | maybe => negated

end FactModel
