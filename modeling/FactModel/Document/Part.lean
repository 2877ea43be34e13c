import FactModel.Json.Basic
import FactModel.Sentence.Part
import FactModel.Vocabulary.Id
set_option autoImplicit false

/-!
# Parts of sentences as documents

An alternative without content is written as its name, one with content as an object whose only
member has its name. An absent value is `null`.
-/

namespace FactModel.Document

/-- An alternative with content. -/
def variant (name : String) (content : Json) : Json :=
  .object [(name, content)]

/-- A text that may be absent. -/
def optionalText (text : Option String) : Json :=
  .ofOption .text text

/-- A number that may be absent. -/
def optionalNat (n : Option Nat) : Json :=
  .ofOption .nat n

/-- A role name. -/
def ofRoleName : RoleName → Json
  | .named name => variant "Named" (.text name)
  | .subscript number => variant "Subscript" (.nat number)

/-- A literal. -/
def ofLiteral : Literal → Json
  | .number written => variant "Number" (.text written)
  | .text value => variant "Text" (.text value)

/-- What is to be done when a constraint is violated. -/
def ofEnforcement (e : Enforcement) : Json :=
  .object [("action", .text e.action), ("agent", optionalText e.agent)]

/-- A quantifier. -/
def ofQuantifier (q : Quantifier) : Json :=
  .object [("min", optionalNat q.min), ("max", optionalNat q.max),
    ("enforcement", .ofOption ofEnforcement q.enforcement)]

/-- How a clause is asserted. -/
def ofCertainty : Certainty → Json
  | .definite => .text "Definite"
  | .negated => .text "Negated"
  | .maybe => .text "Maybe"

/-- How a clause is joined to the one before it. -/
def ofConjunction : Conjunction → Json
  | .and => .text "And"
  | .or => .text "Or"
  | .comma => .text "Comma"
  | .where => .text "Where"
  | .that => .text "That"

/-! ## Identifiers -/

/-- The place of an object type. -/
def ofObjectTypeId (t : ObjectTypeId) : Json := .nat t.index

/-- The place of a fact type. -/
def ofFactTypeId (f : FactTypeId) : Json := .nat f.index

/-- The place of a role. -/
def ofRoleId (r : RoleId) : Json := .nat r.index

/-- The place of a role sequence. -/
def ofRoleSequenceId (s : RoleSequenceId) : Json := .nat s.index

/-- The place of a reading. -/
def ofReadingId (r : ReadingId) : Json := .nat r.index

/-- The place of a presence constraint. -/
def ofPresenceConstraintId (c : PresenceConstraintId) : Json := .nat c.index

/-- The place of a ring constraint. -/
def ofRingConstraintId (c : RingConstraintId) : Json := .nat c.index

/-- The place of a join graph. -/
def ofQueryId (q : QueryId) : Json := .nat q.index

/-- The place of a variable. -/
def ofVariableId (v : VariableId) : Json := .nat v.index

/-- The place of a play. -/
def ofPlayId (p : PlayId) : Json := .nat p.index

/-- The place of a step. -/
def ofStepId (s : StepId) : Json := .nat s.index

end FactModel.Document
