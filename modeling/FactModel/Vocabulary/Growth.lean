import FactModel.Attempt
import FactModel.Vocabulary.Inheritance
import FactModel.Vocabulary.Wording
set_option autoImplicit false

/-!
# How a vocabulary grows

Constructs are added at the ends of their lists. Constructs that are there already change only by
gaining what they lack.

## Main definitions

* `FactModel.Vocabulary.Edit` — a change of a vocabulary that may fail.
* `addEntityType`, `addValueType`, `addForwardEntityType`, `addSubtype`, `objectify` — object types.
* `newFactType`, `addRole`, `nameRole`, `addRoleSequence`, `addReading` — fact types.
* `linkFactType`, `comparisonFactType` — the fact types that clauses imply.
* `addPresenceConstraint`, `restrictPresenceConstraint`, `addRingConstraint` — constraints.
-/

namespace FactModel.Vocabulary

/-- A change of a vocabulary that may fail. -/
abbrev Edit (α : Type) : Type :=
  Attempt Vocabulary α

/-! ## Changes that cannot fail -/

/-- The items with another one at the end, unless it is among them. -/
def withItem {α : Type} [DecidableEq α] (as : List α) (a : α) : List α :=
  if a ∈ as then as else as ++ [a]

/-- The vocabulary with another object type. -/
def pushObjectType (v : Vocabulary) (name : String) (kind : ObjectTypeKind) (isForward : Bool) :
    Vocabulary :=
  let id : ObjectTypeId := ⟨v.objectTypes.size⟩
  { v with
    objectTypes := v.objectTypes.push { id, name, kind, isForward }
    objectTypesByName := (name, id) :: v.objectTypesByName }

/-- The vocabulary with an object type changed. -/
def modifyObjectType (v : Vocabulary) (t : ObjectTypeId) (change : ObjectType → ObjectType) :
    Vocabulary :=
  { v with objectTypes := v.objectTypes.modify t.index change }

/-- The vocabulary with another fact type, which has no roles yet. -/
def pushFactType (v : Vocabulary) (kind : FactTypeKind) : Vocabulary :=
  { v with factTypes := v.factTypes.push { id := ⟨v.factTypes.size⟩, kind } }

/-- The vocabulary with a fact type changed. -/
def modifyFactType (v : Vocabulary) (f : FactTypeId) (change : FactType → FactType) :
    Vocabulary :=
  { v with factTypes := v.factTypes.modify f.index change }

/-- The vocabulary with another role of a fact type, the last one of it. -/
def pushRole (v : Vocabulary) (f : FactTypeId) (player : ObjectTypeId) (name : Option String) :
    Vocabulary :=
  let id : RoleId := ⟨v.roles.size⟩
  let ordinal := (v.factType f).arity
  { v with roles := v.roles.push { id, factType := f, ordinal, player, name } }
    |>.modifyFactType f (fun t => { t with roles := t.roles ++ [id] })
    |>.modifyObjectType player fun t => { t with playedRoles := withItem t.playedRoles id }

/-- The vocabulary with another role sequence. -/
def pushRoleSequence (v : Vocabulary) (refs : List RoleRef) : Vocabulary :=
  { v with roleSequences := v.roleSequences.push { id := ⟨v.roleSequences.size⟩, refs } }

/-- The vocabulary with another reading of a fact type, the last one of it. -/
def pushReading (v : Vocabulary) (f : FactTypeId) (s : RoleSequenceId) (text : String)
    (isNegative : Bool) : Vocabulary :=
  let id : ReadingId := ⟨v.readings.size⟩
  { v with
    readings := v.readings.push
      { id, factType := f, ordinal := (v.factType f).readings.length, roleSequence := s, text,
        isNegative, tokens := Template.tokens text } }
    |>.modifyFactType f fun t => { t with readings := t.readings ++ [id] }

/-- The vocabulary with one type made a direct subtype of another. -/
def linkSubtype (v : Vocabulary) (subtype supertype : ObjectTypeId) : Vocabulary :=
  (v.modifyObjectType subtype fun t => { t with supertypes := t.supertypes ++ [supertype] })
    |>.modifyObjectType supertype fun t => { t with subtypes := withItem t.subtypes subtype }

/-- The vocabulary with an entity type made to objectify a fact type. -/
def linkObjectification (v : Vocabulary) (entityType : ObjectTypeId) (f : FactTypeId) :
    Vocabulary :=
  (v.modifyObjectType entityType ({ · with factType := some f, isForward := false }))
    |>.modifyFactType f ({ · with entityType := some entityType })

/-! ## Fact types and their parts -/

/-- Adds a fact type. -/
def newFactType (kind : FactTypeKind) : Edit FactTypeId :=
  .extend (fun v => ⟨v.factTypes.size⟩) (·.pushFactType kind)

/-- Adds a role to a fact type. -/
def addRole (f : FactTypeId) (player : ObjectTypeId) (name : Option String) : Edit RoleId :=
  .extend (fun v => ⟨v.roles.size⟩) (·.pushRole f player name)

/-- Adds a role sequence. -/
def addRoleSequence (refs : List RoleRef) : Edit RoleSequenceId :=
  .extend (fun v => ⟨v.roleSequences.size⟩) (·.pushRoleSequence refs)

/-- Adds a reading, whether or not the fact type has one like it. -/
def appendReading (f : FactTypeId) (s : RoleSequenceId) (text : String) (isNegative : Bool) :
    Edit ReadingId :=
  .extend (fun v => ⟨v.readings.size⟩) (·.pushReading f s text isNegative)

/-- What tells readings of one text apart: the players of a role sequence with their
adjectives. -/
def wordedPlayers (v : Vocabulary) (s : RoleSequenceId) :
    List (ObjectTypeId × Option String × Option String) :=
  (v.roleSequence s).refs.map fun ref => (v.playerOf ref.role, ref.leading, ref.trailing)

/-- The reading of a fact type that says the same in the same words. -/
def sameReading? (v : Vocabulary) (f : FactTypeId) (s : RoleSequenceId) (text : String)
    (isNegative : Bool) : Option ReadingId :=
  (((v.factType f).readings.map v.reading).find? fun r =>
    r.text = text ∧ r.isNegative = isNegative ∧
      v.wordedPlayers r.roleSequence = v.wordedPlayers s).map (·.id)

/-- Adds a reading to a fact type that has none like it. -/
def addReading (f : FactTypeId) (s : RoleSequenceId) (text : String) (isNegative : Bool) :
    Edit ReadingId := do
  let v ← get
  match v.sameReading? f s text isNegative with
  | some duplicate => throw (.duplicateReading (v.expandReading duplicate))
  | none => appendReading f s text isNegative

/-- Gives a role a name. A role that has a name keeps it, and a different one is refused. -/
def nameRole (r : RoleId) (name : String) : Edit Unit := do
  let v ← get
  match (v.role r).name with
  | none => set { v with roles := v.roles.modify r.index ({ · with name := some name }) }
  | some existing =>
    if existing = name then pure ()
    else throw (.conflictingRoleName (v.nameOf (v.playerOf r)) existing name)

/-- Records the join graph from which a fact type is derived. -/
def setDerivation (f : FactTypeId) (query : QueryId) : Edit Unit :=
  modify (·.modifyFactType f ({ · with derivation := some query }))

/-- Adds a join graph. -/
def addQuery (query : JoinGraph) : Edit QueryId :=
  .extend (fun v => ⟨v.queries.size⟩) fun v => { v with queries := v.queries.push query }

/-! ## Object types -/

/-- Adds an object type. A declaration of an entity type may take the place of one whose name was
used before; any other second declaration of a name is refused. -/
def declareObjectType (name : String) (kind : ObjectTypeKind) (isForward : Bool) :
    Edit ObjectTypeId := do
  let v ← get
  match v.findObjectType? name with
  | none => .extend (fun v => ⟨v.objectTypes.size⟩) (·.pushObjectType name kind isForward)
  | some existing =>
    if (v.objectType existing).isForward ∧ kind = .entity then
      set (v.modifyObjectType existing ({ · with isForward }))
      pure existing
    else throw (.duplicateObjectType name)

/-- Adds an entity type. -/
def addEntityType (name : String) : Edit ObjectTypeId :=
  declareObjectType name .entity false

/-- Adds a value type. -/
def addValueType (name : String) : Edit ObjectTypeId :=
  declareObjectType name .value false

/-- The object type of a name that is used before its declaration, added if it is missing. -/
def addForwardEntityType (name : String) : Edit ObjectTypeId := do
  match (← get).findObjectType? name with
  | some existing => pure existing
  | none => declareObjectType name .entity true

/-- The readings of every fact type that makes one type a kind of another. -/
def inheritanceReadings : List String :=
  ["\x7b0\x7d is a kind of \x7b1\x7d", "\x7b0\x7d is a subtype of \x7b1\x7d",
    "\x7b1\x7d is a supertype of \x7b0\x7d"]

/-- Makes one type a kind of another, with the fact type that says so. A type that has such a fact
type keeps it, and a type may not become a kind of itself. -/
def addSubtype (subtype supertype : ObjectTypeId) : Edit FactTypeId := do
  let v ← get
  match v.typeInheritance? subtype supertype with
  | some existing => pure existing
  | none =>
    if subtype = supertype ∨ v.isSubtypeOf supertype subtype then
      throw (.circularSubtype (v.nameOf subtype) (v.nameOf supertype))
    set (v.linkSubtype subtype supertype)
    let factType ← newFactType (.typeInheritance subtype supertype)
    let subtypeRole ← addRole factType subtype none
    let supertypeRole ← addRole factType supertype none
    let sequence ← addRoleSequence [{ role := subtypeRole }, { role := supertypeRole }]
    inheritanceReadings.forM fun text => do
      let _ ← addReading factType sequence text false
    pure factType

/-- The entity type of a name that may objectify a fact type, added if it is missing. -/
def objectifyingType (name : String) (f : FactTypeId) : Edit ObjectTypeId := do
  let v ← get
  match v.findObjectType? name with
  | none => addEntityType name
  | some existing =>
    let t := v.objectType existing
    if t.kind = .entity ∧ (t.factType = none ∨ t.factType = some f) then pure existing
    else throw (.duplicateObjectType name)

/-- Makes the entity type of a name objectify a fact type that no other one objectifies. -/
def objectify (name : String) (f : FactTypeId) : Edit ObjectTypeId := do
  let entityType ← objectifyingType name f
  let v ← get
  match (v.factType f).entityType with
  | some other =>
    if other ≠ entityType then
      throw (.objectifiedAlready name (v.describeFactType f) (v.nameOf other))
  | none => pure ()
  set (v.linkObjectification entityType f)
  pure entityType

/-! ## Implied fact types -/

/-- Adds a fact type of two roles with one reading. -/
def addBinary (kind : FactTypeKind) (first second : ObjectTypeId) (text : String) :
    Edit FactTypeId := do
  let factType ← newFactType kind
  let firstRole ← addRole factType first none
  let secondRole ← addRole factType second none
  let sequence ← addRoleSequence [{ role := firstRole }, { role := secondRole }]
  let _ ← appendReading factType sequence text false
  pure factType

/-- The fact type that ties an objectifying type to the player of a role of what it objectifies.
There is one for each such pair. -/
def linkFactType (objectification : ObjectTypeId) (mirrored : RoleId) : Edit FactTypeId := do
  let v ← get
  match v.links.lookup (objectification, mirrored) with
  | some existing => pure existing
  | none =>
    let factType ← addBinary (.link objectification mirrored) objectification
      (v.playerOf mirrored) "\x7b0\x7d involves \x7b1\x7d"
    modify fun v => { v with links := ((objectification, mirrored), factType) :: v.links }
    pure factType

/-- The fact type of a comparison between two players. There is one for each operator and pair. -/
def comparisonFactType (operator : String) (left right : ObjectTypeId) : Edit FactTypeId := do
  let v ← get
  match v.comparisons.lookup (operator, left, right) with
  | some existing => pure existing
  | none =>
    let factType ← addBinary (.comparison operator) left right
      ("\x7b0\x7d " ++ operator ++ " \x7b1\x7d")
    modify fun v => { v with comparisons := ((operator, left, right), factType) :: v.comparisons }
    pure factType

/-! ## Constraints -/

/-- Whether a minimum makes a constraint mandatory. -/
def isMandatory (min : Option Nat) : Bool :=
  min.any (0 < ·)

/-- Adds a presence constraint over a role sequence. -/
def addPresenceConstraint (s : RoleSequenceId) (min max : Option Nat)
    (enforcement : Option Enforcement) : Edit PresenceConstraintId :=
  .extend (fun v => ⟨v.presenceConstraints.size⟩) fun v =>
    { v with
      presenceConstraints := v.presenceConstraints.push
        { id := ⟨v.presenceConstraints.size⟩, roleSequence := s, min, max
          isMandatory := isMandatory min, enforcement } }

/-- Whether two bounds are stated and differ. -/
def conflicting (existing requested : Option Nat) : Bool :=
  existing.isSome && requested.isSome && existing != requested

/-- Fills in the bounds that a presence constraint leaves open. A bound that is set must agree with
the one given. -/
def restrictPresenceConstraint (c : PresenceConstraintId) (min max : Option Nat) : Edit Unit := do
  let v ← get
  let constraint := v.presenceConstraint c
  let roles := v.describeRoleSequence constraint.roleSequence
  if conflicting constraint.max max then throw (.conflictingFrequency .maximum roles)
  if conflicting constraint.min min then throw (.conflictingFrequency .minimum roles)
  set { v with
    presenceConstraints := v.presenceConstraints.modify c.index fun constraint =>
      { constraint with
        min := constraint.min <|> min, max := constraint.max <|> max
        isMandatory := isMandatory (constraint.min <|> min) } }

/-- Adds a ring constraint over two roles. -/
def addRingConstraint (role otherRole : RoleId) (kinds : List RingKind) :
    Edit RingConstraintId :=
  .extend (fun v => ⟨v.ringConstraints.size⟩) fun v =>
    { v with
      ringConstraints := v.ringConstraints.push
        { id := ⟨v.ringConstraints.size⟩, role, otherRole, kinds } }

end FactModel.Vocabulary
