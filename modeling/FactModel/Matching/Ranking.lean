import FactModel.Matching.Walk
set_option autoImplicit false

/-!
# Ranking and selecting readings

## Main definitions

* `FactModel.Ranking` — the readings that a clause may invoke, cheapest first.
* `FactModel.Context.rank` — the ranking of a clause.
* `FactModel.Context.select` — the reading that the clause invokes.
-/

namespace FactModel

/-- The readings that a clause may invoke. -/
structure Ranking where
  /-- The ways to invoke a reading, cheapest first, ties in the order in which they were tried. -/
  alignments : List Alignment := []
  /-- The readings that fail only on the direction or the number of steps between types. -/
  directionConflicts : List ReadingId := []

/-- Puts an alignment in front of the first one that costs no less. -/
def insertByCost (a : Alignment) : List Alignment → List Alignment
  | [] => [a]
  | b :: rest => if a.cost ≤ b.cost then a :: b :: rest else b :: insertByCost a rest

/-- The alignments by their cost, those of one cost in the given order. -/
def sortByCost (as : List Alignment) : List Alignment :=
  as.foldr insertByCost []

/-- Whether a reading fails only on the direction or the number of steps between types. -/
def Mismatch.isDirectionConflict : Mismatch → Bool
  | .subtypeDirection | .tooManySubtypeSteps => true
  | _ => false

namespace Context

/-- The readings that are tried for a clause, in order. A clause without mentions invokes none, and
neither does a comparison. -/
def triedReadings (x : Context) (options : MatchOptions) (c : Clause) : List ReadingId :=
  if c.comparison?.isSome then []
  else (x.candidates options c.slots).flatMap fun f => (x.vocabulary.factType f).readings

/-- Every reading that a clause may invoke, cheapest first. -/
def rank (x : Context) (options : MatchOptions) (c : Clause) : Ranking :=
  let walks := (x.triedReadings options c).map fun r => (r, x.align options c r)
  { alignments := sortByCost (walks.filterMap fun (_, walk) => walk.toOption)
    directionConflicts := (walks.filter fun (_, walk) =>
      match walk with
      | .ok _ => false
      | .error mismatch => mismatch.isDirectionConflict).map (·.1) }

/-- The alignments that cost no more than the first. -/
def cheapest : List Alignment → List Alignment
  | [] => []
  | a :: as => a :: as.takeWhile (·.cost == a.cost)

/-- Whether a choice between alignments does not matter: they invoke one fact type, or each of
them says that one type is a kind of another. -/
def agree (x : Context) (as : List Alignment) : Bool :=
  as.all (fun a => as.all fun b => a.factType = b.factType) ||
    as.all fun a => (x.vocabulary.factType a.factType).isTypeInheritance

/-- The cheapest way to invoke a reading, if there is one. Ways of equal cost that disagree are
ambiguous, and if there is none, a step against the inheritance is pointed out. -/
def select (x : Context) (c : Clause) (ranking : Ranking) : Except Fault (Option Alignment) :=
  match ranking.alignments, ranking.directionConflicts with
  | [], [] => .ok none
  | [], reading :: _ =>
    .error (.subtypeStepDirection (x.describeClause c)
      (x.vocabulary.describeFactType (x.vocabulary.reading reading).factType))
  | best :: others, _ =>
    let tied := cheapest (best :: others)
    if x.agree tied then .ok (some best)
    else
      .error (.ambiguousMatch (x.describeClause c)
        (tied.map fun a => (x.vocabulary.expandReading a.reading, a.cost)))

end Context

end FactModel
