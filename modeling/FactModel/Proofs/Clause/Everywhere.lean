import Mathlib.Data.List.Basic
import Mathlib.Tactic.Lemma
import FactModel.Clause.Basic
set_option autoImplicit false

/-!
# Properties of clauses at every depth

## Main definitions

* `FactModel.Clause.Everywhere` — a property of a clause and of all clauses nested under its
  mentions, at any depth.
* `FactModel.Slot.Below` — a property of all clauses nested under a slot.
* `FactModel.Phrase.bare` — a phrase without its nested clauses.
-/

namespace FactModel

/-- A property that a clause has and so do the clauses nested under its mentions, at any depth. -/
inductive Clause.Everywhere (P : Clause → Prop) : Clause → Prop
  | intro {c : Clause} (here : P c) (below : ∀ s ∈ c.slots, ∀ d ∈ s.nested, Everywhere P d) :
    Everywhere P c

namespace Clause.Everywhere

variable {P Q : Clause → Prop} {c : Clause}

/-- What holds everywhere in a clause holds of the clause. -/
lemma here (h : c.Everywhere P) : P c := by
  cases h with
  | intro here _ => exact here

/-- It holds everywhere in the clauses nested in it. -/
lemma nested (h : c.Everywhere P) : ∀ s ∈ c.slots, ∀ d ∈ s.nested, d.Everywhere P := by
  cases h with
  | intro _ below => exact below

/-- What holds everywhere may be said more weakly. -/
lemma imp (h : c.Everywhere P) (hPQ : ∀ d, P d → Q d) : c.Everywhere Q := by
  induction h with
  | intro here _ ih => exact .intro (hPQ _ here) ih

end Clause.Everywhere

/-- Every clause nested under a slot has a property, and so has what is nested in it. -/
def Slot.Below (P : Clause → Prop) (s : Slot) : Prop :=
  ∀ d ∈ s.nested, d.Everywhere P

mutual

/-- What holds of all clauses holds of a clause and those nested in it. -/
lemma Clause.everywhere_of_forall {P : Clause → Prop} (h : ∀ c, P c) :
    ∀ c : Clause, c.Everywhere P
  | ⟨phrases, _, _, _, _, _, _, _, _⟩ => .intro (h _) (below_of_forall_phrases h phrases)

/-- What holds of every clause holds below the slots of phrases. -/
lemma below_of_forall_phrases {P : Clause → Prop} (h : ∀ c, P c) :
    ∀ ps : List Phrase, ∀ s ∈ ps.flatMap Phrase.slots, s.Below P
  | [] => fun _ hs => nomatch hs
  | p :: ps => fun s hs =>
    (List.mem_append.1 hs).elim (below_of_forall_phrase h p s) (below_of_forall_phrases h ps s)

/-- What holds of every clause holds below the slots of a phrase. -/
lemma below_of_forall_phrase {P : Clause → Prop} (h : ∀ c, P c) :
    ∀ p : Phrase, ∀ s ∈ p.slots, s.Below P
  | .word _ => fun _ hs => nomatch hs
  | .slot t => by
    intro s hs
    rw [List.mem_singleton.1 hs]
    exact below_of_forall_slot h t
  | .comparison _ left right => by
    have hleft := below_of_forall_slot h left
    have hright := below_of_forall_slot h right
    intro s hs
    rcases List.mem_pair.1 hs with rfl | rfl
    · exact hleft
    · exact hright

/-- What holds of every clause holds below a slot. -/
lemma below_of_forall_slot {P : Clause → Prop} (h : ∀ c, P c) : ∀ s : Slot, s.Below P
  | ⟨_, nested⟩ => everywhere_of_forall_clauses h nested

/-- What holds of every clause holds everywhere in clauses. -/
lemma everywhere_of_forall_clauses {P : Clause → Prop} (h : ∀ c, P c) :
    ∀ cs : List Clause, ∀ d ∈ cs, d.Everywhere P
  | [] => fun _ hd => nomatch hd
  | c :: cs => by
    have hc := c.everywhere_of_forall h
    have hcs := everywhere_of_forall_clauses h cs
    intro d hd
    rcases List.mem_cons.1 hd with rfl | hd
    · exact hc
    · exact hcs d hd

end

/-- A phrase without the clauses nested in it. -/
def Phrase.bare : Phrase → Phrase
  | .word text => .word text
  | .slot s => .slot ⟨s.mention, []⟩
  | .comparison operator left right =>
    .comparison operator ⟨left.mention, []⟩ ⟨right.mention, []⟩

/-- Phrases that differ at most in the clauses nested in them. -/
def SameBare (ps qs : List Phrase) : Prop :=
  ps.map Phrase.bare = qs.map Phrase.bare

/-- A phrase without its nested clauses has the same mentions. -/
lemma Phrase.map_mention_slots_bare (p : Phrase) :
    p.bare.slots.map (·.mention) = p.slots.map (·.mention) := by
  cases p <;> rfl

/-- The mentions of a clause do not depend on what is nested under them. -/
lemma SameBare.mentions_eq {ps qs : List Phrase} (h : SameBare ps qs) :
    (ps.flatMap Phrase.slots).map (·.mention) = (qs.flatMap Phrase.slots).map (·.mention) := by
  have hbare : ∀ rs : List Phrase, (rs.flatMap Phrase.slots).map (·.mention) =
      (rs.map Phrase.bare).flatMap fun p => p.slots.map (·.mention) := by
    intro rs
    simp [List.map_flatMap, List.flatMap_map, Phrase.map_mention_slots_bare]
  rw [hbare, hbare, h]

end FactModel
