import FactModel.Context.Basic
set_option autoImplicit false

/-!
# Constraints stated by clauses

A quantifier on one mention bounds how often each combination of the other players may occur:
`Person has at most one Name` limits every person to one name. Qualifiers such as
`[acyclic, intransitive]` restrict the relation between two roles of related players.

## Main definitions

* `FactModel.Compile.embedPresenceConstraints` — the presence constraints of a clause.
* `FactModel.Compile.embedRingConstraint` — the ring constraint of a clause.
-/

namespace FactModel

/-- The first pair of roles, in order, whose players have a type above both. -/
def Vocabulary.relatedPair? (v : Vocabulary) : List RoleId → Option (RoleId × RoleId)
  | [] => none
  | role :: others =>
    match others.find? fun o => (v.commonSupertype? (v.playerOf role) (v.playerOf o)).isSome with
    | some other => some (role, other)
    | none => v.relatedPair? others

namespace Compile

/-- Bounds how often the players of the given roles may occur together, by the constraint that is
there already or by a new one. -/
def boundPlayers (refs : List RoleRef) (q : Quantifier) : Compile PresenceConstraintId := do
  match (← get).vocabulary.presenceConstraintOver? (refs.map (·.role)) with
  | some existing =>
    edit (Vocabulary.restrictPresenceConstraint existing q.min q.max)
    pure existing
  | none =>
    let spanning ← edit (Vocabulary.addRoleSequence refs)
    edit (Vocabulary.addPresenceConstraint spanning q.min q.max q.enforcement)

/-- Embeds the constraint that the quantifier of a mention states about the other roles of its
clause. `each` and `some` state none. -/
def embedPresenceConstraint (refs : List RoleRef) (m : MentionId) :
    Compile (Option PresenceConstraintId) := do
  let mention := (← get).mention m
  match mention.quantifier, mention.role with
  | some quantifier, some role =>
    if quantifier.isUnconstrained then pure none
    else
      let constraint ← boundPlayers (refs.filter (·.role ≠ role)) quantifier
      modifyMention m ({ · with presenceConstraint := some constraint })
      pure (some constraint)
  | _, _ => pure none

/-- Embeds the constraints that the quantifiers of some mentions state, in order. -/
def embedEach (refs : List RoleRef) : List MentionId → Compile (List PresenceConstraintId)
  | [] => pure []
  | m :: ms => do
    let constraint? ← embedPresenceConstraint refs m
    let constraints ← embedEach refs ms
    pure (constraint?.toList ++ constraints)

/-- Embeds the constraints that the quantifiers of a clause state. A clause about one player has no
other roles to bound. -/
def embedPresenceConstraints (c : Clause) : Compile (List PresenceConstraintId) := do
  match c.roleSequence with
  | none => pure []
  | some s =>
    if c.mentions.length < 2 then pure []
    else embedEach ((← get).vocabulary.roleSequence s).refs c.mentions

/-- Embeds the ring constraint that the qualifiers of a clause state, over the first two roles with
related players. One over these roles that is there already is kept as it is. -/
def embedRingConstraint (c : Clause) : Compile (Option RingConstraintId) := do
  if c.qualifiers.isEmpty then pure none
  else
    let kinds ← MonadExcept.ofExcept (c.qualifiers.mapM RingKind.ofName)
    match c.roleSequence with
    | none => pure none
    | some s =>
      let x ← get
      let v := x.vocabulary
      match v.relatedPair? (v.roleSequence s).roles with
      | none => throw (.noRingRoles c.qualifiers (x.describeClause c))
      | some (role, other) =>
        match v.ringConstraintOver? role other with
        | some existing => pure (some existing)
        | none => some <$> edit (Vocabulary.addRingConstraint role other kinds)

end Compile

end FactModel
