import FactModel.Document.JoinGraph
import FactModel.Vocabulary.Basic
set_option autoImplicit false

/-!
# Vocabularies as documents

## Main definitions

* `FactModel.Document.sections` — the constructs of a vocabulary by kind, in order.
* `FactModel.Document.ofVocabulary` — a vocabulary.
-/

namespace FactModel.Document

/-- The kind of an object type. -/
def ofObjectTypeKind : ObjectTypeKind → Json
  | .entity => .text "Entity"
  | .value => .text "Value"

/-- An object type. -/
def ofObjectType (t : ObjectType) : Json :=
  .object [("id", ofObjectTypeId t.id), ("name", .text t.name), ("kind", ofObjectTypeKind t.kind),
    ("supertypes", .ofList ofObjectTypeId t.supertypes),
    ("fact_type", .ofOption ofFactTypeId t.factType), ("forward", .bool t.isForward)]

/-- The kind of a fact type. -/
def ofFactTypeKind : FactTypeKind → Json
  | .plain => .text "Plain"
  | .typeInheritance subtype supertype =>
    variant "TypeInheritance" (.object
      [("subtype", ofObjectTypeId subtype), ("supertype", ofObjectTypeId supertype)])
  | .link objectification mirrored =>
    variant "Link" (.object
      [("objectification", ofObjectTypeId objectification), ("mirrored", ofRoleId mirrored)])
  | .comparison operator => variant "Comparison" (.object [("operator", .text operator)])

/-- A fact type. -/
def ofFactType (f : FactType) : Json :=
  .object [("id", ofFactTypeId f.id), ("kind", ofFactTypeKind f.kind),
    ("roles", .ofList ofRoleId f.roles), ("readings", .ofList ofReadingId f.readings),
    ("entity_type", .ofOption ofObjectTypeId f.entityType),
    ("derivation", .ofOption ofQueryId f.derivation)]

/-- A role. -/
def ofRole (r : Role) : Json :=
  .object [("id", ofRoleId r.id), ("fact_type", ofFactTypeId r.factType),
    ("ordinal", .nat r.ordinal), ("object_type", ofObjectTypeId r.player),
    ("role_name", optionalText r.name)]

/-- A role with its adjectives. -/
def ofRoleRef (r : RoleRef) : Json :=
  .object [("role", ofRoleId r.role), ("leading_adjective", optionalText r.leading),
    ("trailing_adjective", optionalText r.trailing)]

/-- A role sequence. -/
def ofRoleSequence (s : RoleSequence) : Json :=
  .object [("id", ofRoleSequenceId s.id), ("role_refs", .ofList ofRoleRef s.refs)]

/-- A reading. -/
def ofReading (r : Reading) : Json :=
  .object [("id", ofReadingId r.id), ("fact_type", ofFactTypeId r.factType),
    ("ordinal", .nat r.ordinal), ("role_sequence", ofRoleSequenceId r.roleSequence),
    ("text", .text r.text), ("is_negative", .bool r.isNegative)]

/-- A presence constraint. -/
def ofPresenceConstraint (c : PresenceConstraint) : Json :=
  .object [("id", ofPresenceConstraintId c.id), ("role_sequence", ofRoleSequenceId c.roleSequence),
    ("min_frequency", optionalNat c.min), ("max_frequency", optionalNat c.max),
    ("is_mandatory", .bool c.isMandatory), ("enforcement", .ofOption ofEnforcement c.enforcement)]

/-- The name of a ring kind. -/
def ringKindName : RingKind → String
  | .irreflexive => "Irreflexive"
  | .asymmetric => "Asymmetric"
  | .antisymmetric => "Antisymmetric"
  | .symmetric => "Symmetric"
  | .intransitive => "Intransitive"
  | .stronglyIntransitive => "StronglyIntransitive"
  | .transitive => "Transitive"
  | .acyclic => "Acyclic"
  | .reflexive => "Reflexive"

/-- A ring kind. -/
def ofRingKind (k : RingKind) : Json :=
  .text (ringKindName k)

/-- A ring constraint. -/
def ofRingConstraint (c : RingConstraint) : Json :=
  .object [("id", ofRingConstraintId c.id), ("role", ofRoleId c.role),
    ("other_role", ofRoleId c.otherRole),
    ("kinds", .ofList ofRingKind c.kinds)]

/-- The constructs of a list, in order. -/
def listed {α : Type} (item : α → Json) (as : Array α) : List Json :=
  as.toList.map item

/-- The constructs of a vocabulary by kind, in the order of a document. -/
def sections (v : Vocabulary) : List (String × List Json) :=
  [("object_types", listed ofObjectType v.objectTypes),
    ("fact_types", listed ofFactType v.factTypes),
    ("roles", listed ofRole v.roles),
    ("role_sequences", listed ofRoleSequence v.roleSequences),
    ("readings", listed ofReading v.readings),
    ("presence_constraints", listed ofPresenceConstraint v.presenceConstraints),
    ("ring_constraints", listed ofRingConstraint v.ringConstraints),
    ("queries", listed ofJoinGraph v.queries)]

/-- A vocabulary. -/
def ofVocabulary (v : Vocabulary) : Json :=
  .object (("name", .text v.name) ::
    (sections v).map fun (name, constructs) => (name, .array constructs))

end FactModel.Document
