set_option autoImplicit false

/-!
# Identifiers

A construct is referred to by its place in the list that holds it. The lists only grow at their
ends, so an identifier keeps its meaning. Each kind of construct has a type of identifiers of its
own.
-/

namespace FactModel

/-- The place of an object type in its vocabulary. -/
structure ObjectTypeId where
  index : Nat
deriving DecidableEq, Inhabited

/-- The place of a fact type in its vocabulary. -/
structure FactTypeId where
  index : Nat
deriving DecidableEq, Inhabited

/-- The place of a role in its vocabulary. -/
structure RoleId where
  index : Nat
deriving DecidableEq, Inhabited

/-- The place of a role sequence in its vocabulary. -/
structure RoleSequenceId where
  index : Nat
deriving DecidableEq, Inhabited

/-- The place of a reading in its vocabulary. -/
structure ReadingId where
  index : Nat
deriving DecidableEq, Inhabited

/-- The place of a presence constraint in its vocabulary. -/
structure PresenceConstraintId where
  index : Nat
deriving DecidableEq, Inhabited

/-- The place of a ring constraint in its vocabulary. -/
structure RingConstraintId where
  index : Nat
deriving DecidableEq, Inhabited

/-- The place of a join graph in its vocabulary. -/
structure QueryId where
  index : Nat
deriving DecidableEq, Inhabited

/-- The place of a variable in its join graph. -/
structure VariableId where
  index : Nat
deriving DecidableEq, Inhabited

/-- The place of a play in its join graph. -/
structure PlayId where
  index : Nat
deriving DecidableEq, Inhabited

/-- The place of a step in its join graph. -/
structure StepId where
  index : Nat
deriving DecidableEq, Inhabited

end FactModel
