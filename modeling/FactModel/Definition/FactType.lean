import FactModel.Definition.Constraint
import FactModel.Definition.Reading
import FactModel.Matching.Completion
set_option autoImplicit false

/-!
# Declaring a fact type

The clauses of a declaration state readings of one fact type. Those that invoke a reading tell which
fact type it is, or else it is a new one; the others become its readings.

## Main definitions

* `FactModel.Compile.defineFactType` — declares a fact type by its clauses.
* `FactModel.Compile.resolveAll` — resolves the clauses of a query.
-/

namespace FactModel.Compile

/-- A resolution as a change: the item comes with the outcome, and a fault discards it. -/
def ofResolved {α β : Type} (resolution : StateM Context (Resolved α β)) : Compile (α × β) :=
  fun x =>
    let ((a, outcome), x) := resolution x
    (outcome.map (a, ·), x)

/-- Resolves a clause that states a reading, and so has words. -/
def resolveStated (c : Clause) : Compile Clause := do
  if c.phrases.all (·.word?.isNone) then
    throw (.noFactTypeMatch ((← get).describeClause c))
  let (c, _) ← ofResolved (resolve { exactTypes := true } c)
  pure c

/-- Resolves clauses that state readings, in order. -/
def resolveAllStated : List Clause → Compile (List Clause)
  | [] => pure []
  | c :: cs => do
    let c ← resolveStated c
    let cs ← resolveAllStated cs
    pure (c :: cs)

/-- The fact type that clauses state readings of, and whether it is new. Clauses that invoke
readings of different fact types are refused. -/
def statedFactType (clauses : List Clause) : Compile (FactTypeId × Bool × List Clause) := do
  match (clauses.filterMap (·.factType)).eraseDups, clauses with
  | [existing], _ => pure (existing, false, clauses)
  | [], first :: others => do
    let (factType, first) ← makeFactType first
    pure (factType, true, first :: others)
  | [], [] => throw (.noFactTypeMatch "")
  | different, _ =>
    throw (.conflictingFactTypes (different.map (← get).vocabulary.describeFactType))

/-- Makes every clause a statement of a reading: one that invokes a reading is adjusted to it, any
other becomes a reading. -/
def stateReadings (f : FactTypeId) : List Clause → Compile (List Clause)
  | [] => pure []
  | c :: cs => do
    let c ← if c.reading.isSome then adjust c else (·.2) <$> makeReading c f
    let cs ← stateReadings f cs
    pure (c :: cs)

/-- Declares a fact type by clauses that state its readings. Yields the fact type, whether it is
new, and the clauses as they were resolved. -/
def defineFactType (clauses : List Clause) : Compile (FactTypeId × Bool × List Clause) := do
  let clauses ← resolveAllStated clauses
  let (factType, created, clauses) ← statedFactType clauses
  let clauses ← stateReadings factType clauses
  clauses.forM fun c => do
    let _ ← embedPresenceConstraints c
    let _ ← embedRingConstraint c
  pure (factType, created, clauses)

/-! ## Queries -/

/-- Resolves a clause of a query, if need be by completing it from the clause before. -/
def resolveAsked (contraction : Bool) (previous : Option Clause) (c : Clause) :
    Compile Clause := do
  let (c, matched) ← ofResolved (resolve {} c)
  if matched then pure c
  else
    match contraction, previous with
    | true, some previous => (·.1) <$> ofResolved (complete {} previous c)
    | _, _ => throw (.noFactTypeMatch ((← get).describeClause c))

/-- Resolves the clauses of a query in order, behind the clause before them. All must match. -/
def resolveAll (contraction : Bool) (previous : Option Clause) :
    List Clause → Compile (List Clause)
  | [] => pure []
  | c :: cs => do
    let c ← resolveAsked contraction previous c
    let cs ← resolveAll contraction (some c) cs
    pure (c :: cs)

end FactModel.Compile
