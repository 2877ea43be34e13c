import FactModel.Fault
import FactModel.JoinGraph.Basic
import FactModel.Vocabulary.Template
set_option autoImplicit false

/-!
# Vocabularies

A vocabulary holds what the declarations of a model have introduced: object types, fact types with
their roles and readings, constraints over sequences of roles, and the join graphs of queries and
derivations. Each kind of construct has a list that only grows at its end, and constructs refer to
each other by their places in these lists.

## Main definitions

* `FactModel.ObjectType`, `FactModel.FactType`, `FactModel.Role`, `FactModel.RoleSequence`,
  `FactModel.Reading`, `FactModel.PresenceConstraint`, `FactModel.RingConstraint` — constructs.
* `FactModel.Vocabulary` — a vocabulary.
* `FactModel.Vocabulary.findObjectType?` — the object type of a name.
* `FactModel.Vocabulary.rolesPlayedBy` — the roles that an object type plays.

## Design

Looking up an identifier that is out of range yields an empty construct, so that lookups are
total. No vocabulary that declarations build holds such an identifier.

Beside the constructs a vocabulary keeps indexes: types by name, the subtypes and the roles of each
type, links and comparisons by what they relate. Whatever adds a construct brings them up to date.
-/

namespace FactModel

/-- Whether instances of an object type are things or values. -/
inductive ObjectTypeKind where
  | entity
  | value
deriving DecidableEq, Inhabited

/-- A type of things or values. -/
structure ObjectType where
  id : ObjectTypeId
  name : String
  kind : ObjectTypeKind
  /-- The direct supertypes, in the order in which they were declared. -/
  supertypes : List ObjectTypeId := []
  /-- The direct subtypes, in the order in which they were declared. -/
  subtypes : List ObjectTypeId := []
  /-- The roles that the object type plays, in order. -/
  playedRoles : List RoleId := []
  /-- The fact type that the object type objectifies. -/
  factType : Option FactTypeId := none
  /-- Whether the name was used before it was declared, and has not been declared since. -/
  isForward : Bool := false
deriving DecidableEq, Inhabited

/-- What a fact type is for. -/
inductive FactTypeKind where
  | plain
  | typeInheritance (subtype supertype : ObjectTypeId)
  /-- Ties an objectifying entity type to the player of a role of what it objectifies. -/
  | link (objectification : ObjectTypeId) (mirrored : RoleId)
  | comparison (operator : String)
deriving DecidableEq, Inhabited

/-- A type of facts. -/
structure FactType where
  id : FactTypeId
  kind : FactTypeKind
  roles : List RoleId := []
  readings : List ReadingId := []
  /-- The entity type that objectifies the fact type. -/
  entityType : Option ObjectTypeId := none
  derivation : Option QueryId := none
deriving DecidableEq, Inhabited

/-- The part of one player in a fact type. -/
structure Role where
  id : RoleId
  factType : FactTypeId
  ordinal : Nat
  player : ObjectTypeId
  name : Option String := none
deriving DecidableEq, Inhabited

/-- A role with the adjectives that its player bears in a reading. -/
structure RoleRef where
  role : RoleId
  leading : Option String := none
  trailing : Option String := none
deriving DecidableEq, Inhabited

/-- Roles in an order. -/
structure RoleSequence where
  id : RoleSequenceId
  refs : List RoleRef
deriving DecidableEq, Inhabited

/-- A way to state facts of a type. Placeholder `n` of the template stands for the role of that
number in the role sequence. -/
structure Reading where
  id : ReadingId
  factType : FactTypeId
  ordinal : Nat
  roleSequence : RoleSequenceId
  text : String
  isNegative : Bool := false
  /-- The words and placeholders of the template. -/
  tokens : List Template.Token
deriving DecidableEq, Inhabited

/-- A bound on how often a combination of players may occur. -/
structure PresenceConstraint where
  id : PresenceConstraintId
  roleSequence : RoleSequenceId
  min : Option Nat
  max : Option Nat
  isMandatory : Bool
  enforcement : Option Enforcement
deriving DecidableEq, Inhabited

/-- The ways in which a relation of a type to itself may be restricted. -/
inductive RingKind where
  | irreflexive
  | asymmetric
  | antisymmetric
  | symmetric
  | intransitive
  | stronglyIntransitive
  | transitive
  | acyclic
  | reflexive
deriving DecidableEq, Inhabited

/-- A restriction of the relation between two roles with related players. -/
structure RingConstraint where
  id : RingConstraintId
  role : RoleId
  otherRole : RoleId
  kinds : List RingKind
deriving DecidableEq, Inhabited

/-- The roles of a role sequence, in order. -/
def RoleSequence.roles (s : RoleSequence) : List RoleId :=
  s.refs.map (·.role)

/-- The number of roles of a fact type. -/
def FactType.arity (f : FactType) : Nat :=
  f.roles.length

/-- Whether the fact type says that one type is a kind of another. -/
def FactType.isTypeInheritance (f : FactType) : Bool :=
  match f.kind with
  | .typeInheritance _ _ => true
  | _ => false

/-- Whether clauses may state facts of the type. Facts of links and comparisons are only made by
nested clauses and by comparisons. -/
def FactType.isStated (f : FactType) : Bool :=
  match f.kind with
  | .plain | .typeInheritance _ _ => true
  | .link _ _ | .comparison _ => false

/-- The restriction that a qualifier names, whatever the case it is written in. -/
def RingKind.ofName? (name : String) : Option RingKind :=
  match name.toLower with
  | "irreflexive" => some irreflexive
  | "asymmetric" => some asymmetric
  | "antisymmetric" => some antisymmetric
  | "symmetric" => some symmetric
  | "intransitive" => some intransitive
  | "stronglyintransitive" => some stronglyIntransitive
  | "transitive" => some transitive
  | "acyclic" => some acyclic
  | "reflexive" => some reflexive
  | _ => none

/-- The restriction that a qualifier names, or the complaint that there is none of that name. -/
def RingKind.ofName (name : String) : Except Fault RingKind :=
  match RingKind.ofName? name with
  | some kind => .ok kind
  | none => .error (.invalidQualifier name)

/-- Everything that the declarations of a model have introduced. -/
structure Vocabulary where
  name : String
  objectTypes : Array ObjectType := #[]
  factTypes : Array FactType := #[]
  roles : Array Role := #[]
  roleSequences : Array RoleSequence := #[]
  readings : Array Reading := #[]
  presenceConstraints : Array PresenceConstraint := #[]
  ringConstraints : Array RingConstraint := #[]
  queries : Array JoinGraph := #[]
  /-- The object type of each name. -/
  objectTypesByName : List (String × ObjectTypeId) := []
  /-- The fact type of each link, by the objectifying type and the mirrored role. -/
  links : List ((ObjectTypeId × RoleId) × FactTypeId) := []
  /-- The fact type of each comparison, by its operator and its two players. -/
  comparisons : List ((String × ObjectTypeId × ObjectTypeId) × FactTypeId) := []
deriving Inhabited

namespace Vocabulary

/-! ## Lookup -/

/-- The object type at a place. -/
def objectType (v : Vocabulary) (t : ObjectTypeId) : ObjectType :=
  v.objectTypes[t.index]?.getD default

/-- The fact type at a place. -/
def factType (v : Vocabulary) (f : FactTypeId) : FactType :=
  v.factTypes[f.index]?.getD default

/-- The role at a place. -/
def role (v : Vocabulary) (r : RoleId) : Role :=
  v.roles[r.index]?.getD default

/-- The role sequence at a place. -/
def roleSequence (v : Vocabulary) (s : RoleSequenceId) : RoleSequence :=
  v.roleSequences[s.index]?.getD default

/-- The reading at a place. -/
def reading (v : Vocabulary) (r : ReadingId) : Reading :=
  v.readings[r.index]?.getD default

/-- The presence constraint at a place. -/
def presenceConstraint (v : Vocabulary) (c : PresenceConstraintId) : PresenceConstraint :=
  v.presenceConstraints[c.index]?.getD default

/-- The ring constraint at a place. -/
def ringConstraint (v : Vocabulary) (c : RingConstraintId) : RingConstraint :=
  v.ringConstraints[c.index]?.getD default

/-- The places of all object types, in order. -/
def objectTypeIds (v : Vocabulary) : List ObjectTypeId :=
  (List.range v.objectTypes.size).map .mk

/-- The places of all fact types, in order. -/
def factTypeIds (v : Vocabulary) : List FactTypeId :=
  (List.range v.factTypes.size).map .mk

/-- The places of all roles, in order. -/
def roleIds (v : Vocabulary) : List RoleId :=
  (List.range v.roles.size).map .mk

/-- The places of all role sequences, in order. -/
def roleSequenceIds (v : Vocabulary) : List RoleSequenceId :=
  (List.range v.roleSequences.size).map .mk

/-- The places of all readings, in order. -/
def readingIds (v : Vocabulary) : List ReadingId :=
  (List.range v.readings.size).map .mk

/-- The places of all presence constraints, in order. -/
def presenceConstraintIds (v : Vocabulary) : List PresenceConstraintId :=
  (List.range v.presenceConstraints.size).map .mk

/-- The places of all ring constraints, in order. -/
def ringConstraintIds (v : Vocabulary) : List RingConstraintId :=
  (List.range v.ringConstraints.size).map .mk

/-- The places of all join graphs, in order. -/
def queryIds (v : Vocabulary) : List QueryId :=
  (List.range v.queries.size).map .mk

/-- The object type of a name. -/
def findObjectType? (v : Vocabulary) (name : String) : Option ObjectTypeId :=
  v.objectTypesByName.lookup name

/-- The name of an object type. -/
def nameOf (v : Vocabulary) (t : ObjectTypeId) : String :=
  (v.objectType t).name

/-- The player of a role. -/
def playerOf (v : Vocabulary) (r : RoleId) : ObjectTypeId :=
  (v.role r).player

/-- The roles that an object type plays, in order. -/
def rolesPlayedBy (v : Vocabulary) (t : ObjectTypeId) : List RoleId :=
  (v.objectType t).playedRoles

/-- The role references of a reading, in the order of its placeholders. -/
def readingRefs (v : Vocabulary) (r : ReadingId) : List RoleRef :=
  (v.roleSequence (v.reading r).roleSequence).refs

/-- Two lists of roles of one length, each role of the first occurring in the second. -/
def sameRoles (rs ss : List RoleId) : Bool :=
  rs.length == ss.length && rs.all ss.contains

/-- The first presence constraint over exactly these roles, in any order. -/
def presenceConstraintOver? (v : Vocabulary) (roles : List RoleId) :
    Option PresenceConstraintId :=
  (v.presenceConstraints.toList.find? fun c =>
    sameRoles (v.roleSequence c.roleSequence).roles roles).map (·.id)

/-- The first ring constraint over these two roles, in either order. -/
def ringConstraintOver? (v : Vocabulary) (role other : RoleId) : Option RingConstraintId :=
  (v.ringConstraints.toList.find? fun c =>
    sameRoles [c.role, c.otherRole] [role, other]).map (·.id)

/-- The first fact type that makes one type a kind of another. -/
def typeInheritance? (v : Vocabulary) (subtype supertype : ObjectTypeId) : Option FactTypeId :=
  (v.factTypes.toList.find? fun f => f.kind = .typeInheritance subtype supertype).map (·.id)

end Vocabulary

end FactModel
