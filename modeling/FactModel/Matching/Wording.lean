import FactModel.Context.Basic
set_option autoImplicit false

/-!
# Alignments in words

## Main definitions

* `FactModel.Context.describeAlignment` — what a clause has that its reading does not.
-/

namespace FactModel.Context

/-- What stands around a mention that its role does not call for. -/
def describePlacement (x : Context) (p : Placement) : String :=
  (x.mention p.mention).term ++
    (if p.absorbedPrecursors.isEmpty then ""
      else " absorbs " ++ toString p.absorbedPrecursors.length ++ " precursor(s)") ++
    (if p.absorbedFollowers.isEmpty then ""
      else " absorbs " ++ toString p.absorbedFollowers.length ++ " follower(s)") ++
    (match p.commonSupertype with
      | some supertype => " steps via " ++ x.vocabulary.nameOf supertype
      | none => "") ++
    (if p.hasResidue then " keeps residual adjectives" else "")

/-- What a clause has that the reading it invokes does not. -/
def describeAlignment (x : Context) (a : Alignment) : String :=
  Text.commaSeparated
    ((a.placements.filter fun p => 0 < p.cost || p.hasResidue).map x.describePlacement ++
      if a.negation.isSome then ["implicitly negated"] else [])

end FactModel.Context
