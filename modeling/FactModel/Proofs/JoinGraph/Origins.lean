import FactModel.Clause.Basic
import Mathlib.Tactic.Lemma
import Mathlib.Tactic.Ring
set_option autoImplicit false

/-!
# Where the steps of a join graph come from

Every matched clause makes a step, after those of the clauses nested in it. A matched nested clause
makes another one, the link to what it is nested under.

## Main definitions

* `FactModel.StepOrigin` — what makes a step.
* `FactModel.Clause.origins` — what makes the steps of a clause, in their order.
* `FactModel.nestedClauses` — the clauses nested in clauses, at all depths.

## Main results

* `FactModel.length_origins` — the steps of clauses are as many as the matched clauses, at all
  depths, and the matched nested clauses together.
-/

namespace FactModel

/-- What makes a step of a join graph. -/
inductive StepOrigin where
  /-- A matched clause. -/
  | clause (c : Clause)
  /-- The link between a mention and a matched clause nested under it. -/
  | link (outer : MentionId) (inner : Clause)

/-- What a clause makes itself, if it is matched. -/
def Clause.ownOrigins (c : Clause) : List StepOrigin :=
  if c.isMatched then [.clause c] else []

/-- The link of a nested clause, if the clause is matched. -/
def Clause.linkOrigins (outer : MentionId) (c : Clause) : List StepOrigin :=
  if c.isMatched then [.link outer c] else []

mutual

/-- What makes the steps of the clauses nested under a slot. -/
def Slot.origins : Slot → List StepOrigin
  | ⟨mention, nested⟩ => nestedOrigins mention nested

/-- What makes the steps of the clauses nested in a phrase. -/
def Phrase.origins : Phrase → List StepOrigin
  | .word _ => []
  | .slot s => s.origins
  | .comparison _ left right => left.origins ++ right.origins

/-- What makes the steps of the clauses nested in phrases. -/
def phrasesOrigins : List Phrase → List StepOrigin
  | [] => []
  | p :: ps => p.origins ++ phrasesOrigins ps

/-- What makes the steps of a clause: first those of the clauses nested in it. -/
def Clause.origins : Clause → List StepOrigin
  | ⟨phrases, qualifiers, certainty, conjunction, factType, reading, roleSequence, alignment,
      contraction⟩ =>
    phrasesOrigins phrases ++ Clause.ownOrigins ⟨phrases, qualifiers, certainty, conjunction,
      factType, reading, roleSequence, alignment, contraction⟩

/-- What makes the steps of clauses nested under a mention, each followed by its link. -/
def nestedOrigins (outer : MentionId) : List Clause → List StepOrigin
  | [] => []
  | c :: cs => c.origins ++ c.linkOrigins outer ++ nestedOrigins outer cs

end

/-- The clauses nested in clauses, at all depths. -/
def nestedClauses (cs : List Clause) : List Clause :=
  (allSlots cs).flatMap (·.nested)

/-! ## Counting -/

/-- How many clauses nested under slots are matched. -/
def countMatched (ss : List Slot) : Nat :=
  (ss.flatMap (·.nested)).countP Clause.isMatched

/-- The matched clauses under slots put together are those under both. -/
lemma countMatched_append (ss ts : List Slot) :
    countMatched (ss ++ ts) = countMatched ss + countMatched ts := by
  rw [countMatched, List.flatMap_append, List.countP_append, countMatched, countMatched]

/-- A clause makes one step itself if it is matched. -/
lemma Clause.length_ownOrigins (c : Clause) :
    c.ownOrigins.length = if c.isMatched then 1 else 0 := by
  unfold ownOrigins
  split <;> rfl

/-- A nested clause makes one link if it is matched. -/
lemma Clause.length_linkOrigins (outer : MentionId) (c : Clause) :
    (c.linkOrigins outer).length = if c.isMatched then 1 else 0 := by
  unfold linkOrigins
  split <;> rfl

mutual

/-- The clauses nested under a slot make two steps for each that is matched. -/
lemma Slot.length_origins : ∀ s : Slot, s.origins.length = 2 * countMatched s.all
  | ⟨m, nested⟩ => by
    have hall : countMatched (Slot.all ⟨m, nested⟩) =
        nested.countP Clause.isMatched + countMatched (allSlots nested) := by
      rw [Slot.all, countMatched, List.flatMap_cons, List.countP_append, countMatched]
    rw [Slot.origins, length_nestedOrigins m nested, hall]

/-- The clauses nested in a phrase make two steps for each that is matched. -/
lemma Phrase.length_origins : ∀ p : Phrase, p.origins.length = 2 * countMatched p.allSlots
  | .word _ => rfl
  | .slot s => by rw [Phrase.origins, Phrase.allSlots, s.length_origins]
  | .comparison _ left right => by
    rw [Phrase.origins, Phrase.allSlots, List.length_append, left.length_origins,
      right.length_origins, countMatched_append, Nat.mul_add]

/-- The clauses nested in phrases make two steps for each that is matched. -/
lemma length_phrasesOrigins : ∀ ps : List Phrase,
    (phrasesOrigins ps).length = 2 * countMatched (phrasesAllSlots ps)
  | [] => rfl
  | p :: ps => by
    rw [phrasesOrigins, phrasesAllSlots, List.length_append, p.length_origins,
      length_phrasesOrigins ps, countMatched_append, Nat.mul_add]

/-- A clause makes one step, if it is matched, and two for each nested clause that is. -/
lemma Clause.length_origins : ∀ c : Clause,
    c.origins.length = (if c.isMatched then 1 else 0) + 2 * countMatched c.allSlots
  | ⟨phrases, _, _, _, _, _, _, _, _⟩ => by
    rw [Clause.origins, Clause.allSlots, List.length_append, length_phrasesOrigins phrases,
      Clause.length_ownOrigins, Nat.add_comm]

/-- The clauses nested under a mention make two steps for each that is matched, at any depth. -/
lemma length_nestedOrigins (outer : MentionId) : ∀ cs : List Clause,
    (nestedOrigins outer cs).length =
      2 * (cs.countP Clause.isMatched + countMatched (allSlots cs))
  | [] => rfl
  | c :: cs => by
    rw [nestedOrigins, allSlots, List.length_append, List.length_append, c.length_origins,
      c.length_linkOrigins outer, length_nestedOrigins outer cs, countMatched_append,
      List.countP_cons]
    ring

end

/-- **The steps of clauses** are as many as the matched clauses at all depths, and one more for each
matched clause that is nested in another one.

**Proof sketch.** By induction on the clauses: a matched clause makes one step, and a matched nested
clause makes two. -/
theorem length_origins (cs : List Clause) :
    (cs.flatMap Clause.origins).length =
      (cs ++ nestedClauses cs).countP Clause.isMatched +
        (nestedClauses cs).countP Clause.isMatched := by
  have hcount : (cs.flatMap Clause.origins).length =
      cs.countP Clause.isMatched + 2 * countMatched (allSlots cs) := by
    induction cs with
    | nil => rfl
    | cons c cs ih =>
      rw [List.flatMap_cons, List.length_append, c.length_origins, ih, allSlots,
        countMatched_append, List.countP_cons]
      ring
  rw [hcount, List.countP_append, nestedClauses, Nat.add_assoc, Nat.two_mul]
  rfl

end FactModel
