import FactModel.Context.Basic
import FactModel.Matching.Assignment
set_option autoImplicit false

/-!
# Fact types that a clause may invoke

## Main definitions

* `FactModel.MatchOptions` — how freely clauses match.
* `FactModel.Context.candidates` — the fact types whose readings are tried for a clause.
-/

namespace FactModel

/-- How freely clauses match. -/
structure MatchOptions where
  /-- Whether every player must be exactly the player of its role. -/
  exactTypes : Bool := false
deriving DecidableEq

/-- The types that count as an object type: only itself, or also all types above and below it. -/
def Vocabulary.acceptable (v : Vocabulary) (exact : Bool) (t : ObjectTypeId) : List ObjectTypeId :=
  if exact then [t] else v.relatedTypes t

/-- Whether the players of a clause can fill the roles of a fact type. -/
def Vocabulary.isEligible (v : Vocabulary) (exact : Bool) (players : List ObjectTypeId)
    (f : FactTypeId) : Bool :=
  (v.factType f).isStated && (v.factType f).arity == players.length &&
    Assignment.isPossible (players.map (v.acceptable exact))
      ((v.factType f).roles.map fun r => v.acceptable exact (v.playerOf r))

/-- The fact types in which one of the given types plays a role, each once, in the order of the
types and of their roles. -/
def Vocabulary.factTypesOf (v : Vocabulary) (types : List ObjectTypeId) : List FactTypeId :=
  ((types.flatMap v.rolesPlayedBy).map fun r => (v.role r).factType).eraseDups

/-- The fact types whose readings are tried for a clause with these slots: those that the first
player, or a type related to it, plays a role in, and whose roles the players can fill. A player
with nested clauses stands only for itself. -/
def Context.candidates (x : Context) (options : MatchOptions) (slots : List Slot) :
    List FactTypeId :=
  match slots, slots.mapM fun s => (x.mention s.mention).player with
  | first :: _, some (player :: players) =>
    let types := x.vocabulary.acceptable (options.exactTypes || first.isObjectified) player
    (x.vocabulary.factTypesOf types).filter
      (x.vocabulary.isEligible options.exactTypes (player :: players))
  | _, _ => []

end FactModel
