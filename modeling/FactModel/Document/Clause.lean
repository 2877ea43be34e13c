import FactModel.Context.Binding
import FactModel.Document.Vocabulary
import FactModel.Session
set_option autoImplicit false

/-!
# Clauses, mentions and outcomes as documents

## Main definitions

* `FactModel.Document.ofClause` — resolved clauses.
* `FactModel.Document.ofBinding` — bindings.
* `FactModel.Document.ofOutcome` — what a declaration came to.
-/

namespace FactModel.Document

/-- The place of a mention. -/
def ofMentionId (m : MentionId) : Json := .nat m.index

/-- The place of a binding. -/
def ofBindingId (b : BindingId) : Json := .nat b.index

/-- The side on which a clause was completed. -/
def ofContraction : Contraction → Json
  | .left => .text "Left"
  | .right => .text "Right"

/-- How a mention takes a role of a reading. -/
def ofPlacement (p : Placement) : Json :=
  .object [("reference", ofMentionId p.mention), ("role", ofRoleId p.role),
    ("role_ref", .nat p.roleRef), ("absorbed_precursors", .ofList .nat p.absorbedPrecursors),
    ("absorbed_followers", .ofList .nat p.absorbedFollowers),
    ("common_supertype", .ofOption ofObjectTypeId p.commonSupertype),
    ("residual_leading", optionalText p.residualLeading),
    ("residual_trailing", optionalText p.residualTrailing)]

/-- The members of an alignment. -/
def alignmentMembers (a : Alignment) : List (String × Json) :=
  [("fact_type", ofFactTypeId a.factType), ("reading", ofReadingId a.reading),
    ("role_sequence", ofRoleSequenceId a.roleSequence),
    ("effects", .ofList ofPlacement a.placements), ("negation", optionalNat a.negation)]

/-- How a clause invokes a reading. -/
def ofAlignment (a : Alignment) : Json :=
  .object (alignmentMembers a)

/-- A phrase. -/
def ofPhrase : Phrase → Json
  | .word text => variant "Word" (.text text)
  | .slot s => variant "Reference" (ofMentionId s.mention)
  | .comparison operator left right =>
    variant "Comparison" (.object [("operator", .text operator),
      ("lhs", ofMentionId left.mention), ("rhs", ofMentionId right.mention)])

/-- A clause. -/
def ofClause (c : Clause) : Json :=
  .object [("phrases", .ofList ofPhrase c.phrases), ("qualifiers", .ofList .text c.qualifiers),
    ("certainty", ofCertainty c.certainty), ("conjunction", .ofOption ofConjunction c.conjunction),
    ("fact_type", .ofOption ofFactTypeId c.factType),
    ("reading", .ofOption ofReadingId c.reading),
    ("role_sequence", .ofOption ofRoleSequenceId c.roleSequence),
    ("side_effects", .ofOption ofAlignment c.alignment),
    ("contracted", .ofOption ofContraction c.contraction)]

/-- A place in a role sequence. -/
def ofRolePlace (place : RoleSequenceId × Nat) : Json :=
  .array [ofRoleSequenceId place.1, .nat place.2]

/-- The members of a mention with the clauses nested under it. -/
def mentionMembers (m : Mention) (nested : List Clause) : List (String × Json) :=
  [("term", .text m.term), ("leading_adjective", optionalText m.leading),
    ("trailing_adjective", optionalText m.trailing),
    ("role_name", .ofOption ofRoleName m.roleName),
    ("quantifier", .ofOption ofQuantifier m.quantifier),
    ("literal", .ofOption ofLiteral m.literal), ("nested_clauses", .ofList ofClause nested),
    ("player", .ofOption ofObjectTypeId m.player),
    ("player_by_role_name", .bool m.playerByRoleName),
    ("binding", .ofOption ofBindingId m.binding), ("role", .ofOption ofRoleId m.role),
    ("role_ref", .ofOption ofRolePlace m.roleRef),
    ("residual_leading", optionalText m.residualLeading),
    ("residual_trailing", optionalText m.residualTrailing),
    ("embedded_presence_constraint", .ofOption ofPresenceConstraintId m.presenceConstraint)]

/-- A binding key. -/
def ofBindingKey : BindingKey → Json
  | .role term roleName literal =>
    variant "Role" (.object [("term", .text term), ("role_name", ofRoleName roleName),
      ("literal", .ofOption ofLiteral literal)])
  | .adjectival leading term trailing literal =>
    variant "Adjectival" (.object [("leading", optionalText leading), ("term", .text term),
      ("trailing", optionalText trailing), ("literal", .ofOption ofLiteral literal)])

/-- The binding at a place. -/
def ofBinding (place : BindingId) (b : Binding) : Json :=
  .object [("id", ofBindingId place), ("key", ofBindingKey b.key),
    ("player", ofObjectTypeId b.player), ("role_name", .ofOption ofRoleName b.roleName),
    ("literal", .ofOption ofLiteral b.literal), ("refs", .ofList ofMentionId b.mentions),
    ("rebound_to", .ofOption ofBindingId b.reboundTo)]

/-- How one clause of a declaration was resolved. -/
def ofReport (r : ClauseReport) : Json :=
  .object [("clause", .text r.clause), ("fact_type", .ofOption ofFactTypeId r.factType),
    ("reading", .ofOption ofReadingId r.reading), ("cost", .nat r.cost),
    ("contraction", .ofOption ofContraction r.contraction)]

/-- What a declaration came to. -/
def ofOutcome : Outcome → Json
  | .objectType t => variant "ObjectType" (.object [("object_type", ofObjectTypeId t)])
  | .subtype t factTypes =>
    variant "Subtype" (.object
      [("subtype", ofObjectTypeId t), ("fact_types", .ofList ofFactTypeId factTypes)])
  | .factType f created reports =>
    variant "FactType" (.object [("fact_type", ofFactTypeId f), ("created", .bool created),
      ("matches", .ofList ofReport reports)])
  | .query q reports =>
    variant "Query" (.object [("query", ofQueryId q), ("matches", .ofList ofReport reports)])

end FactModel.Document
