import FactModel.Context.Binding
import FactModel.Matching.Ranking
set_option autoImplicit false

/-!
# Resolving a clause

A clause is resolved after the clauses nested in it. A comparison gets a fact type of its own; any
other clause invokes the reading that its ranking selects, and is then put into the words of that
reading.

## Main definitions

* `FactModel.Compile.applyAlignment` — puts a clause into the words of a reading.
* `FactModel.resolve` — resolves a clause and those nested in it.

## Design

A failure leaves the clauses before it resolved, and nested ones are part of the clause that failed.
So `resolve` yields the clause in every case, as far as it was resolved, beside the outcome.
-/

namespace FactModel

/-! ## Putting a clause into the words of a reading -/

/-- The positions of the words that an alignment takes out of its clause, with the placements gone
through from the last one on. -/
def Alignment.spliced (a : Alignment) : List Nat :=
  a.placements.reverse.flatMap (·.absorbed) ++ a.negation.toList

/-- The phrases without those at the given positions. They are removed from the last one on, so that
each is still at its position when its turn comes. -/
def splice (positions : List Nat) (phrases : List Phrase) : List Phrase :=
  positions.mergeSort.reverse.foldl List.eraseIdx phrases

/-- The clause after an alignment: without the words taken, and negated if one of them was a `not`
that is no word of the reading. -/
def Clause.aligned (c : Clause) (a : Alignment) : Clause :=
  { c with
    phrases := splice a.spliced c.phrases
    certainty := if a.negation.isSome then c.certainty.negate else c.certainty
    factType := some a.factType
    reading := some a.reading
    roleSequence := some a.roleSequence
    alignment := some a }

namespace Compile

/-- Gives a mention its role. Its adjectives become those left over, and it is bound anew if that
changes its key. -/
def applyPlacement (s : RoleSequenceId) (p : Placement) : Compile Unit := do
  let before := (← get).bindingKey p.mention
  modifyMention p.mention fun m =>
    { m with
      role := some p.role, roleRef := some (s, p.roleRef)
      leading := p.residualLeading, trailing := p.residualTrailing
      residualLeading := p.residualLeading, residualTrailing := p.residualTrailing }
  let after := (← get).bindingKey p.mention
  if after ≠ before then
    let _ ← rebind p.mention

/-- Puts a clause into the words of a reading, the last mention first. -/
def applyAlignment (c : Clause) (a : Alignment) : Compile Clause := do
  a.placements.reverse.forM (applyPlacement a.roleSequence)
  pure (c.aligned a)

/-- Gives a comparison the fact type of its operator and players. -/
def resolveComparison (c : Clause) (operator : String) (left right : Slot) : Compile Clause := do
  let leftPlayer ← playerOf left.mention
  let rightPlayer ← playerOf right.mention
  let factType ← edit (Vocabulary.comparisonFactType operator leftPlayer rightPlayer)
  let v := (← get).vocabulary
  let reading := (v.factType factType).readings.headD default
  let s := (v.reading reading).roleSequence
  ([left.mention, right.mention].zip (v.roleSequence s).roles).zipIdx.forM
    fun ((m, role), ordinal) =>
      modifyMention m ({ · with role := some role, roleRef := some (s, ordinal) })
  pure { c with factType := some factType, reading := some reading, roleSequence := some s }

/-- Checks that the player of a mention objectifies the fact type of a clause nested under it. -/
def checkObjectified (m : MentionId) (c : Clause) : Compile Unit := do
  match c.factType with
  | none => pure ()
  | some factType =>
    let x ← get
    let objectified := (x.mention m).player.bind fun t => (x.vocabulary.objectType t).factType
    if objectified ≠ some factType then
      throw (.objectificationMismatch (x.mention m).term (x.vocabulary.describeFactType factType))

end Compile

/-- Whether the clause only names an individual, without a literal. -/
def Context.isExistential (x : Context) (c : Clause) : Bool :=
  match c.phrases with
  | [.slot s] => (x.mention s.mention).literal.isNone
  | _ => false

/-- Invokes the reading that the ranking of a clause selects. Yields no clause if there is none. -/
def Compile.invokeReading (options : MatchOptions) (c : Clause) : Compile (Option Clause) := do
  let x ← get
  match ← MonadExcept.ofExcept (x.select c (x.rank options c)) with
  | some a => some <$> applyAlignment c a
  | none => pure none

/-- Resolves a clause whose nested clauses are resolved. Yields no clause if no reading matches. -/
def Compile.resolveFlat (options : MatchOptions) (c : Clause) : Compile (Option Clause) := do
  match c.comparison? with
  | some (operator, left, right) => some <$> resolveComparison c operator left right
  | none =>
    if (← get).isExistential c then pure (some c)
    else invokeReading options c

/-! ## Resolving nested clauses -/

/-- Something as far as it was resolved, and how the resolution ended. -/
abbrev Resolved (α β : Type) : Type :=
  α × Except Fault β

/-- Goes on after a resolution that succeeded; a fault ends it. -/
def Resolved.andThen {α β γ : Type} (item : α) (outcome : Except Fault β)
    (next : β → StateM Context (Resolved α γ)) : StateM Context (Resolved α γ) :=
  match outcome with
  | .ok b => next b
  | .error fault => pure (item, .error fault)

/-- Resolves the clause itself, after its nested clauses, and tells whether anything matched. -/
def resolveItself (options : MatchOptions) (c : Clause) :
    StateM Context (Resolved Clause Bool) := do
  match ← (Compile.resolveFlat options c).run with
  | .ok (some resolved) => pure (resolved, .ok true)
  | .ok none => pure (c, .ok false)
  | .error fault => pure (c, .error fault)

/-- Checks a clause nested under a mention after it was resolved: it must have matched, and the
mention must objectify what it matched. -/
def checkNested (m : MentionId) (c : Clause) (matched : Bool) :
    StateM Context (Except Fault Unit) := do
  let x ← get
  if matched then (Compile.checkObjectified m c).run
  else pure (.error (.noFactTypeMatch (x.describeClause c)))

mutual

/-- Resolves the clauses nested under a slot. -/
def resolveSlot (options : MatchOptions) : Slot → StateM Context (Resolved Slot Unit)
  | ⟨mention, nested⟩ => do
    let (nested, outcome) ← resolveNested options mention nested
    pure (⟨mention, nested⟩, outcome)

/-- Resolves the clauses nested in a phrase. -/
def resolvePhrase (options : MatchOptions) : Phrase → StateM Context (Resolved Phrase Unit)
  | .word text => pure (.word text, .ok ())
  | .slot s => do
    let (s, outcome) ← resolveSlot options s
    pure (.slot s, outcome)
  | .comparison operator left right => do
    let (left, outcome) ← resolveSlot options left
    Resolved.andThen (.comparison operator left right) outcome fun _ => do
      let (right, outcome) ← resolveSlot options right
      pure (.comparison operator left right, outcome)

/-- Resolves the clauses nested in phrases, in order, up to the first fault. -/
def resolvePhrases (options : MatchOptions) :
    List Phrase → StateM Context (Resolved (List Phrase) Unit)
  | [] => pure ([], .ok ())
  | p :: ps => do
    let (p, outcome) ← resolvePhrase options p
    Resolved.andThen (p :: ps) outcome fun _ => do
      let (ps, outcome) ← resolvePhrases options ps
      pure (p :: ps, outcome)

/-- Resolves a clause after the clauses nested in it. Yields the clause as far as it was resolved,
and whether anything matched. A clause that nothing matches is left as it is. -/
def resolve (options : MatchOptions) : Clause → StateM Context (Resolved Clause Bool)
  | ⟨phrases, qualifiers, certainty, conjunction, factType, reading, roleSequence, alignment,
      contraction⟩ => do
    let (phrases, outcome) ← resolvePhrases options phrases
    let c : Clause := ⟨phrases, qualifiers, certainty, conjunction, factType, reading,
      roleSequence, alignment, contraction⟩
    Resolved.andThen c outcome fun _ => resolveItself options c

/-- Resolves the clauses nested under a mention, in order, up to the first fault. Those that are
resolved already are only checked. -/
def resolveNested (options : MatchOptions) (mention : MentionId) :
    List Clause → StateM Context (Resolved (List Clause) Unit)
  | [] => pure ([], .ok ())
  | c :: cs => do
    let (c, outcome) ← if c.isMatched then pure (c, .ok true) else resolve options c
    Resolved.andThen (c :: cs) outcome fun matched => do
      let outcome ← checkNested mention c matched
      Resolved.andThen (c :: cs) outcome fun _ => do
        let (cs, outcome) ← resolveNested options mention cs
        pure (c :: cs, outcome)

end

end FactModel
