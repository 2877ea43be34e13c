set_option autoImplicit false

/-!
# Assigning players to roles

Each player is compatible with some types and each role with others; a player fits a role if they
have a type in common. The search gives every player a role of its own.

## Main definitions

* `FactModel.Assignment.assign` — the search, with marks on the roles already taken.
* `FactModel.Assignment.isPossible` — whether every player can have a role of its own.
-/

namespace FactModel.Assignment

variable {α : Type} [DecidableEq α]

/-- Whether a player of the first types fits a role of the second. -/
def fits (player role : List α) : Bool :=
  player.any role.contains

/-- Whether the role of that number may still be taken. A number without a mark is no role. -/
def isFree (used : List Bool) (j : Nat) : Bool :=
  used[j]? == some false

/-- Tries the roles of the given numbers in turn for one player: takes a free one that the player
fits, attempts the rest, and gives the role back if that fails. Yields whether it succeeded and the
marks afterwards. -/
def tryRoles (roleFits : Nat → Bool) (attempt : List Bool → Bool × List Bool) :
    List Nat → List Bool → Bool × List Bool
  | [], used => (false, used)
  | j :: js, used =>
    if isFree used j && roleFits j then
      match attempt (used.set j true) with
      | (true, used) => (true, used)
      | (false, used) => tryRoles roleFits attempt js (used.set j false)
    else tryRoles roleFits attempt js used

/-- Gives every player a free role of its own, trying roles in order and going back where it gets
stuck. Yields whether it succeeded and the marks afterwards. -/
def assign (roles : List (List α)) : List (List α) → List Bool → Bool × List Bool
  | [], used => (true, used)
  | player :: players, used =>
    tryRoles (fun j => roles[j]?.any (fits player)) (assign roles players)
      (List.range roles.length) used

/-- Whether every player can have a role of its own. -/
def isPossible (players roles : List (List α)) : Bool :=
  (assign roles players (roles.map fun _ => false)).1

end FactModel.Assignment
