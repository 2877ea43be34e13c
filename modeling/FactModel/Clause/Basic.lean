import FactModel.Sentence.Part
import FactModel.Vocabulary.Id
set_option autoImplicit false

/-!
# Clauses

A clause of a declaration while it is being resolved against a vocabulary. Its phrases are words,
slots and comparisons. A slot holds the place of a mention, whose marks are kept apart from the
clause because several parts of the resolution change them, and the clauses nested under it.

## Main definitions

* `FactModel.MentionId`, `FactModel.BindingId` — places of mentions and bindings.
* `FactModel.Placement`, `FactModel.Alignment` — how a clause invokes a reading.
* `FactModel.Slot`, `FactModel.Phrase`, `FactModel.Clause` — clauses.
* `FactModel.Clause.slots`, `FactModel.allSlots` — the slots of a clause, without and with those of
  nested clauses.
-/

namespace FactModel

/-- The place of a mention in its context. -/
structure MentionId where
  index : Nat
deriving DecidableEq, Inhabited

/-- The place of a binding in its context. -/
structure BindingId where
  index : Nat
deriving DecidableEq, Inhabited

/-- On which side a clause was completed with a mention of the clause before it. -/
inductive Contraction where
  /-- The last mention of the clause before was put in front. -/
  | left
  /-- The first mention of the clause before was put behind. -/
  | right
deriving DecidableEq

/-! ## How a clause invokes a reading -/

/-- How one mention of a clause takes a role of a reading. Positions count the phrases of the
clause. -/
structure Placement where
  mention : MentionId
  role : RoleId
  /-- The place of the role in the role sequence of the reading. -/
  roleRef : Nat
  /-- The positions of plain words taken for the leading adjective. -/
  absorbedPrecursors : List Nat
  /-- The positions of plain words taken for the trailing adjective. -/
  absorbedFollowers : List Nat
  /-- The type above both players, if they differ. -/
  commonSupertype : Option ObjectTypeId
  /-- What the mention's leading adjective has beyond that of the role. -/
  residualLeading : Option String
  /-- What the mention's trailing adjective has beyond that of the role. -/
  residualTrailing : Option String
deriving DecidableEq

/-- How a clause invokes a reading. -/
structure Alignment where
  factType : FactTypeId
  reading : ReadingId
  roleSequence : RoleSequenceId
  /-- One for each mention, in the order of the clause. -/
  placements : List Placement
  /-- The position of a `not` that is no word of the reading. -/
  negation : Option Nat
deriving DecidableEq

namespace Placement

/-- Whether the mention has adjectives that the role does not account for. -/
def hasResidue (p : Placement) : Bool :=
  p.residualLeading.isSome || p.residualTrailing.isSome

/-- The positions of all words absorbed. -/
def absorbed (p : Placement) : List Nat :=
  p.absorbedPrecursors ++ p.absorbedFollowers

/-- One for each absorbed word, and one for a step between types. -/
def cost (p : Placement) : Nat :=
  p.absorbedPrecursors.length + p.absorbedFollowers.length + p.commonSupertype.toList.length

end Placement

namespace Alignment

/-- Whether some mention has adjectives that its role does not account for. -/
def hasResidue (a : Alignment) : Bool :=
  a.placements.any (·.hasResidue)

/-- What placements cost together. -/
def placementCost : List Placement → Nat
  | [] => 0
  | p :: ps => p.cost + placementCost ps

/-- How far the clause is from the reading: what the placements cost, one more if adjectives are
left over, and two more for an implicit negation. -/
def cost (a : Alignment) : Nat :=
  placementCost a.placements + a.hasResidue.toNat + if a.negation.isSome then 2 else 0

/-- The number of steps between types. -/
def subtypeSteps (a : Alignment) : Nat :=
  (a.placements.filter (·.commonSupertype.isSome)).length

end Alignment

/-! ## Clauses and their parts -/

mutual

/-- A place of a clause that a mention takes, with the clauses nested under the mention. -/
structure Slot where
  mention : MentionId
  nested : List Clause

/-- A part of a clause. -/
inductive Phrase where
  | word (text : String)
  | slot (slot : Slot)
  | comparison (operator : String) (left right : Slot)

/-- A clause with what is known about the reading it invokes. -/
structure Clause where
  phrases : List Phrase
  qualifiers : List String := []
  certainty : Certainty := .definite
  conjunction : Option Conjunction := none
  factType : Option FactTypeId := none
  reading : Option ReadingId := none
  roleSequence : Option RoleSequenceId := none
  alignment : Option Alignment := none
  contraction : Option Contraction := none

end

instance : Inhabited Clause :=
  ⟨{ phrases := [] }⟩

/-- Whether clauses are nested under the slot. -/
def Slot.isObjectified (s : Slot) : Bool :=
  !s.nested.isEmpty

/-- The word that a phrase is. -/
def Phrase.word? : Phrase → Option String
  | .word text => some text
  | _ => none

/-- The slots of a phrase. -/
def Phrase.slots : Phrase → List Slot
  | .word _ => []
  | .slot s => [s]
  | .comparison _ left right => [left, right]

namespace Clause

/-- The slots of a clause in order, without those of nested clauses. -/
def slots (c : Clause) : List Slot :=
  c.phrases.flatMap Phrase.slots

/-- The mentions of a clause in order, without those of nested clauses. -/
def mentions (c : Clause) : List MentionId :=
  c.slots.map (·.mention)

/-- The comparison that the clause consists of. -/
def comparison? (c : Clause) : Option (String × Slot × Slot) :=
  match c.phrases with
  | [.comparison operator left right] => some (operator, left, right)
  | _ => none

/-- Whether the clause has been given a fact type. -/
def isMatched (c : Clause) : Bool :=
  c.factType.isSome

end Clause

/-! ## Slots at any depth -/

mutual

/-- A slot and the slots nested under it. -/
def Slot.all : Slot → List Slot
  | ⟨mention, nested⟩ => ⟨mention, nested⟩ :: allSlots nested

/-- The slots of a phrase and those nested under them. -/
def Phrase.allSlots : Phrase → List Slot
  | .word _ => []
  | .slot s => s.all
  | .comparison _ left right => left.all ++ right.all

/-- The slots of phrases and those nested under them. -/
def phrasesAllSlots : List Phrase → List Slot
  | [] => []
  | p :: ps => p.allSlots ++ phrasesAllSlots ps

/-- The slots of a clause and those nested under them. -/
def Clause.allSlots : Clause → List Slot
  | ⟨phrases, _, _, _, _, _, _, _, _⟩ => phrasesAllSlots phrases

/-- The slots of clauses, each followed by those nested under it. -/
def allSlots : List Clause → List Slot
  | [] => []
  | c :: cs => c.allSlots ++ allSlots cs

end

/-- The mentions of clauses, each followed by those of the clauses nested under it. -/
def allMentions (cs : List Clause) : List MentionId :=
  (allSlots cs).map (·.mention)

end FactModel
