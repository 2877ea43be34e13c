import FactModel.Text.Adjective
import FactModel.Vocabulary.Basic
set_option autoImplicit false

/-!
# Constructs in words

## Main definitions

* `FactModel.Vocabulary.expandReading` — a reading with its players in place of placeholders.
* `FactModel.Vocabulary.describeFactType`, `FactModel.Vocabulary.describeRoleSequence`.
-/

namespace FactModel.Vocabulary

open Text

/-- The player of a role with the adjectives it bears. -/
def describeRoleRef (v : Vocabulary) (ref : RoleRef) : String :=
  Adjective.written ref.leading (v.nameOf (v.playerOf ref.role)) ref.trailing

/-- A token of a reading over the given role references. A placeholder beyond them is left as
it is. -/
def expandToken (v : Vocabulary) (refs : List RoleRef) : Template.Token → String
  | .word text => text
  | .place ordinal =>
    match refs[ordinal]? with
    | some ref => v.describeRoleRef ref
    | none => Template.writtenPlace ordinal

/-- A reading with its players in place of the placeholders. -/
def expandReading (v : Vocabulary) (r : ReadingId) : String :=
  unwords ((v.reading r).tokens.map (v.expandToken (v.readingRefs r)))

/-- A fact type by its first reading, or by its players while it has no reading. -/
def describeFactType (v : Vocabulary) (f : FactTypeId) : String :=
  match (v.factType f).readings with
  | reading :: _ => v.expandReading reading
  | [] => " / ".intercalate ((v.factType f).roles.map fun r => v.nameOf (v.playerOf r))

/-- The players of a role sequence with their adjectives. -/
def describeRoleSequence (v : Vocabulary) (s : RoleSequenceId) : String :=
  commaSeparated ((v.roleSequence s).refs.map v.describeRoleRef)

end FactModel.Vocabulary
