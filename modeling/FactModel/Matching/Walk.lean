import FactModel.Context.Basic
import FactModel.Matching.Candidates
set_option autoImplicit false

/-!
# Walking a reading along a clause

A reading matches a clause if its template can be laid along the phrases: each word on an equal
word, each placeholder on a slot. Plain words around a slot may belong to the adjectives that the
role bears in the reading, and one `not` may be passed over, which negates the clause.

## Main definitions

* `FactModel.Mismatch` — why a reading does not match.
* `FactModel.Context.align` — how a clause invokes a reading, or why it does not.
-/

namespace FactModel

/-- Why a reading does not match a clause. -/
inductive Mismatch where
  | word (expected : String) (found : Option String)
  | player (mention : MentionId)
  | adjective (mention : MentionId)
  /-- Adjectives would be left over that do not tell the mention from another. -/
  | residue (mention : MentionId)
  | extraWords (position : Nat)
  | missingPlayer
  | tooManySubtypeSteps
  | subtypeDirection
  | certainty
deriving DecidableEq

/-- A place in the phrases of a clause: the number of phrases before it and the phrases behind
it. -/
structure ClausePlace where
  position : Nat
  rest : List Phrase

/-! ## Words -/

/-- The words at the beginning of phrases, and the phrases behind them. -/
def spanWords : List Phrase → List String × List Phrase
  | .word text :: rest => ((text :: (spanWords rest).1), (spanWords rest).2)
  | rest => ([], rest)

/-- What stands where a word was expected. -/
def foundText : List Phrase → Option String
  | [] => none
  | .word text :: _ => some text
  | _ :: _ => some "a role player"

/-- The words between the hyphens of each word. -/
def splitHyphens (ws : List String) : List String :=
  ws.flatMap (Text.fields (· == '-'))

/-- Passes over a word of the reading. One `not` before it may be passed over too, if that is still
allowed; its position is then yielded. -/
def walkWord (expected : String) (mayNegate : Bool) (place : ClausePlace) :
    Except Mismatch (ClausePlace × Option Nat) :=
  match place.rest with
  | .word text :: rest =>
    if text = expected then .ok (⟨place.position + 1, rest⟩, none)
    else if text = "not" ∧ mayNegate then
      match rest with
      | .word next :: more =>
        if next = expected then .ok (⟨place.position + 2, more⟩, some place.position)
        else .error (.word expected (some next))
      | _ => .error (.word expected (foundText rest))
    else .error (.word expected (some text))
  | rest => .error (.word expected (foundText rest))

/-! ## Adjectives -/

/-- The leading adjective of a role laid on the words before a slot and the adjective of its
mention. Yields the adjective left over and the positions of the words taken. -/
def walkLeading (m : MentionId) (wanted explicit : List String) (position : Nat)
    (intervening : List String) : Except Mismatch (Option String × List Nat) :=
  if intervening.isEmpty then
    if wanted.isSuffixOf explicit then
      .ok (Adjective.ofWords (explicit.take (explicit.length - wanted.length)), [])
    else .error (.adjective m)
  else
    let absorbed :=
      if intervening.isPrefixOf wanted then intervening else splitHyphens intervening
    if absorbed.isPrefixOf wanted ∧ explicit = wanted.drop absorbed.length then
      .ok (none, List.range' position intervening.length)
    else .error (.adjective m)

/-- The trailing adjective of a role laid on the adjective of a mention and the words behind its
slot. Yields the adjective left over and the number of words taken. -/
def walkTrailing (m : MentionId) (wanted explicit : List String) (rest : List Phrase) :
    Except Mismatch (Option String × Nat) :=
  if wanted.length ≤ explicit.length then
    if wanted.isPrefixOf explicit then .ok (Adjective.ofWords (explicit.drop wanted.length), 0)
    else .error (.adjective m)
  else
    let missing := wanted.drop explicit.length
    if explicit.isPrefixOf wanted ∧
        missing.isPrefixOf ((rest.take missing.length).filterMap Phrase.word?) then
      .ok (none, missing.length)
    else .error (.adjective m)

namespace Context

/-- The type above a player and the player of its role, where they differ. -/
def walkPlayer (x : Context) (options : MatchOptions) (s : Slot) (rolePlayer : ObjectTypeId) :
    Except Mismatch (Option ObjectTypeId) :=
  match (x.mention s.mention).player with
  | none => .error .missingPlayer
  | some player =>
    if player = rolePlayer then .ok none
    else if options.exactTypes || s.isObjectified then .error (.player s.mention)
    else
      match x.vocabulary.commonSupertype? player rolePlayer with
      | some supertype => .ok (some supertype)
      | none => .error (.player s.mention)

/-- The number of mentions that share the binding of a mention, itself among them. -/
def shareCount (x : Context) (m : MentionId) : Nat :=
  (((x.mention m).binding.bind x.binding?).map (·.mentions.length)).getD 0

/-- Lays a placeholder on a slot, between the words before it and the phrases behind it. Yields the
placement and the place behind it. -/
def walkRole (x : Context) (options : MatchOptions) (ref : RoleRef) (ordinal position : Nat)
    (intervening : List String) (s : Slot) (rest : List Phrase) :
    Except Mismatch (Placement × ClausePlace) := do
  let m := s.mention
  let mention := x.mention m
  let commonSupertype ← x.walkPlayer options s (x.vocabulary.playerOf ref.role)
  let (residualLeading, absorbedPrecursors) ← walkLeading m (Adjective.words ref.leading)
    (Adjective.words mention.leading) position intervening
  let (residualTrailing, taken) ← walkTrailing m (Adjective.words ref.trailing)
    (Adjective.words mention.trailing) rest
  let behind := position + intervening.length + 1
  let placement : Placement :=
    { mention := m, role := ref.role, roleRef := ordinal, absorbedPrecursors
      absorbedFollowers := List.range' behind taken, commonSupertype
      residualLeading, residualTrailing }
  if placement.hasResidue ∧ x.shareCount m ≤ 1 then .error (.residue m)
  else .ok (placement, ⟨behind + taken, rest.drop taken⟩)

/-- Lays the tokens of a reading along the phrases behind a place, all of them. Yields the
placements and the position of a `not` passed over. -/
def walkTokens (x : Context) (options : MatchOptions) (refs : List RoleRef) :
    List Template.Token → (mayNegate : Bool) → ClausePlace →
      Except Mismatch (List Placement × Option Nat)
  | [], _, place =>
    if place.rest.isEmpty then .ok ([], none) else .error (.extraWords place.position)
  | .word expected :: tokens, mayNegate, place => do
    let (place, negation) ← walkWord expected mayNegate place
    let (placements, later) ←
      walkTokens x options refs tokens (mayNegate && negation.isNone) place
    pure (placements, negation <|> later)
  | .place ordinal :: tokens, mayNegate, place =>
    match refs[ordinal]?, spanWords place.rest with
    | some ref, (intervening, .slot s :: rest) => do
      let (placement, place) ←
        x.walkRole options ref ordinal place.position intervening s rest
      let (placements, later) ← walkTokens x options refs tokens mayNegate place
      pure (placement :: placements, later)
    | _, _ => .error .missingPlayer

/-- Whether the step between the types of a placement runs along the inheritance: the player of the
first role may be a type below, the player of the second a type above. -/
def stepsAlong (x : Context) (p : Placement) : Bool :=
  match (x.mention p.mention).player with
  | none => false
  | some player =>
    let rolePlayer := x.vocabulary.playerOf p.role
    if (x.vocabulary.role p.role).ordinal = 0 then x.vocabulary.isSubtypeOf player rolePlayer
    else x.vocabulary.isSubtypeOf rolePlayer player

/-- A clause about type inheritance may take one step between types, along the inheritance. -/
def checkSubtypeSteps (x : Context) (f : FactTypeId) (placements : List Placement) :
    Except Mismatch Unit :=
  let steps := placements.filter (·.commonSupertype.isSome)
  if !(x.vocabulary.factType f).isTypeInheritance then .ok ()
  else if 1 < steps.length then .error .tooManySubtypeSteps
  else if steps.all x.stepsAlong then .ok ()
  else .error .subtypeDirection

/-- How a clause invokes a reading, or why it does not. A negative reading serves only clauses that
are negated themselves, and no `not` is passed over in it. -/
def align (x : Context) (options : MatchOptions) (c : Clause) (r : ReadingId) :
    Except Mismatch Alignment := do
  let reading := x.vocabulary.reading r
  if reading.isNegative ∧ c.certainty ≠ .negated then .error .certainty
  else
    let (placements, negation) ← x.walkTokens options (x.vocabulary.readingRefs r) reading.tokens
      (!reading.isNegative) ⟨0, c.phrases⟩
    x.checkSubtypeSteps reading.factType placements
    pure { factType := reading.factType, reading := r, roleSequence := reading.roleSequence,
           placements, negation }

end Context

end FactModel
