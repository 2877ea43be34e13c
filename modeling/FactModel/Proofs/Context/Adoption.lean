import FactModel.Context.Adoption
import FactModel.Proofs.Clause.Everywhere
import FactModel.Proofs.Script.Words
set_option autoImplicit false

/-!
# What is adopted

Taking clauses into a context adds mentions behind those it has, and nothing is found out about them
nor about what the clauses invoke.

## Main definitions

* `FactModel.Context.Adopts` — a context with further mentions of which only the text is known.
* `FactModel.Clause.IsAdopted` — a clause of plain words of which only the text is known.

## Main results

* `FactModel.Context.adopts_adoptAll` — this is all that taking clauses into a context does to it.
* `FactModel.Context.isAdopted_adoptAll` — the clauses are adopted at every depth.
-/

namespace FactModel

/-- A mention with its text alone. -/
def Mention.unresolved (m : Mention) : Mention where
  term := m.term
  leading := m.leading
  trailing := m.trailing
  roleName := m.roleName
  quantifier := m.quantifier
  literal := m.literal

namespace Context

/-- The second context is the first one with further mentions, of which only the text is known. -/
inductive Adopts (x : Context) : Context → Prop
  | refl : Adopts x x
  | pushMention {y : Context} (h : Adopts x y) (m : Mention) :
    Adopts x (y.pushMention m.unresolved)

/-- Contexts that take in clauses one after the other take in all of them. -/
lemma Adopts.trans {x y z : Context} (h : x.Adopts y) (h' : y.Adopts z) : x.Adopts z := by
  induction h' with
  | refl => exact h
  | pushMention _ m ih => exact ih.pushMention m

mutual

/-- Taking in a mention, with what is nested in it, adds mentions only. -/
lemma adopts_adoptMention : ∀ (m : Script.Mention) (x : Context), x.Adopts (adoptMention m x).2
  | ⟨term, leading, trailing, roleName, quantifier, literal, nested⟩, x => by
    rw [adoptMention]
    exact (adopts_adoptAll nested x).pushMention
      { term, leading, trailing, roleName, quantifier, literal }

/-- Taking in a side of a comparison adds mentions only. -/
lemma adopts_adoptOperand (other : Script.Operand) :
    ∀ (operand : Script.Operand) (x : Context), x.Adopts (adoptOperand other operand x).2
  | .mention m, x => by
    rw [adoptOperand]
    exact adopts_adoptMention m x
  | .literal value, x => by
    rw [adoptOperand]
    exact Adopts.refl.pushMention { term := literalTerm value other, literal := some value }

/-- Taking in a phrase adds mentions only. -/
lemma adopts_adoptPhrase : ∀ (p : Script.Phrase) (x : Context), x.Adopts (adoptPhrase p x).2
  | .word text, x => by
    rw [adoptPhrase]
    exact .refl
  | .mention m, x => by
    rw [adoptPhrase]
    exact adopts_adoptMention m x
  | .comparison operator left right, x => by
    rw [adoptPhrase]
    exact (adopts_adoptOperand right left x).trans (adopts_adoptOperand left right _)

/-- Taking in phrases adds mentions only. -/
lemma adopts_adoptPhrases : ∀ (ps : List Script.Phrase) (x : Context),
    x.Adopts (adoptPhrases ps x).2
  | [], x => by
    rw [adoptPhrases]
    exact .refl
  | p :: ps, x => by
    rw [adoptPhrases]
    exact (adopts_adoptPhrase p x).trans (adopts_adoptPhrases ps _)

/-- Taking in a clause adds mentions only. -/
lemma adopts_adopt : ∀ (c : Script.Clause) (x : Context), x.Adopts (adopt c x).2
  | ⟨phrases, qualifiers, certainty, conjunction⟩, x => by
    rw [adopt]
    exact adopts_adoptPhrases phrases x

/-- Taking clauses into a context only adds mentions, of which nothing but the text is known. -/
theorem adopts_adoptAll : ∀ (cs : List Script.Clause) (x : Context), x.Adopts (adoptAll cs x).2
  | [], x => by
    rw [adoptAll]
    exact .refl
  | c :: cs, x => by
    rw [adoptAll]
    exact (adopts_adopt c x).trans (adopts_adoptAll cs _)

end

end Context

/-! ## The clauses -/

/-- The word or the operator that a phrase has is a word of templates. -/
def Phrase.IsPlain : Phrase → Prop
  | .word text => Template.IsWord text
  | .slot _ => True
  | .comparison operator _ _ => Template.IsWord operator

/-- A clause of plain words of which nothing but the text is known. -/
structure Clause.IsAdopted (c : Clause) : Prop where
  isPlain : ∀ p ∈ c.phrases, p.IsPlain
  factType_eq : c.factType = none
  reading_eq : c.reading = none
  roleSequence_eq : c.roleSequence = none

namespace Context

mutual

/-- Of the clauses nested in a mention only the text is known. -/
lemma isAdopted_adoptMention : ∀ (m : Script.Mention) (x : Context), m.IsPlain →
    (adoptMention m x).1.Below Clause.IsAdopted
  | ⟨_, _, _, _, _, _, nested⟩, x, h => by
    rw [adoptMention]
    rw [Script.Mention.IsPlain] at h
    exact isAdopted_adoptAll nested x h

/-- Of the clauses nested in a side of a comparison only the text is known. -/
lemma isAdopted_adoptOperand (other : Script.Operand) : ∀ (operand : Script.Operand) (x : Context),
    operand.IsPlain → (adoptOperand other operand x).1.Below Clause.IsAdopted
  | .mention m, x, h => by
    rw [adoptOperand]
    rw [Script.Operand.IsPlain] at h
    exact isAdopted_adoptMention m x h
  | .literal _, x, _ => by
    rw [adoptOperand]
    exact fun _ hd => nomatch hd

/-- Of the clauses nested in a phrase only the text is known. -/
lemma isAdopted_adoptPhrase : ∀ (p : Script.Phrase) (x : Context), p.IsPlain →
    (adoptPhrase p x).1.IsPlain ∧ ∀ s ∈ (adoptPhrase p x).1.slots, s.Below Clause.IsAdopted
  | .word _, x, h => by
    rw [adoptPhrase]
    rw [Script.Phrase.IsPlain] at h
    exact ⟨h, fun _ hs => nomatch hs⟩
  | .mention m, x, h => by
    rw [adoptPhrase]
    rw [Script.Phrase.IsPlain] at h
    have hm := isAdopted_adoptMention m x h
    refine ⟨trivial, fun s hs => ?_⟩
    rw [List.mem_singleton.1 hs]
    exact hm
  | .comparison _ left right, x, h => by
    rw [adoptPhrase]
    rw [Script.Phrase.IsPlain] at h
    have hleft := isAdopted_adoptOperand right left x h.2.1
    have hright := isAdopted_adoptOperand left right (adoptOperand right left x).2 h.2.2
    refine ⟨h.1, fun s hs => ?_⟩
    rcases List.mem_pair.1 hs with rfl | rfl
    · exact hleft
    · exact hright

/-- Of the clauses nested in phrases only the text is known. -/
lemma isAdopted_adoptPhrases : ∀ (ps : List Script.Phrase) (x : Context),
    Script.Phrase.ArePlain ps → (∀ p ∈ (adoptPhrases ps x).1, p.IsPlain) ∧
      ∀ s ∈ (adoptPhrases ps x).1.flatMap Phrase.slots, s.Below Clause.IsAdopted
  | [], x, _ => by
    rw [adoptPhrases]
    exact ⟨fun _ hp => (nomatch hp), fun _ hs => nomatch hs⟩
  | p :: ps, x, h => by
    rw [adoptPhrases]
    rw [Script.Phrase.ArePlain] at h
    have hp := isAdopted_adoptPhrase p x h.1
    have hps := isAdopted_adoptPhrases ps (adoptPhrase p x).2 h.2
    refine ⟨fun q hq => ?_, fun s hs => ?_⟩
    · rcases List.mem_cons.1 hq with rfl | hq
      · exact hp.1
      · exact hps.1 q hq
    · rcases List.mem_append.1 hs with hs | hs
      · exact hp.2 s hs
      · exact hps.2 s hs

/-- Of a clause that is taken in only the text is known, at every depth. -/
lemma isAdopted_adopt : ∀ (c : Script.Clause) (x : Context), c.IsPlain →
    (adopt c x).1.Everywhere Clause.IsAdopted
  | ⟨phrases, _, _, _⟩, x, h => by
    rw [adopt]
    rw [Script.Clause.IsPlain] at h
    have hphrases := isAdopted_adoptPhrases phrases x h
    exact .intro ⟨hphrases.1, rfl, rfl, rfl⟩ hphrases.2

/-- Of plain clauses that are taken into a context nothing but the text is known. -/
theorem isAdopted_adoptAll : ∀ (cs : List Script.Clause) (x : Context), Script.ArePlain cs →
    ∀ c ∈ (adoptAll cs x).1, c.Everywhere Clause.IsAdopted
  | [], x, _ => by
    rw [adoptAll]
    exact fun _ hc => nomatch hc
  | c :: cs, x, h => by
    rw [adoptAll]
    rw [Script.ArePlain] at h
    have hc := isAdopted_adopt c x h.1
    have hcs := isAdopted_adoptAll cs (adopt c x).2 h.2
    intro d hd
    rcases List.mem_cons.1 hd with rfl | hd
    · exact hc
    · exact hcs d hd

end

end Context

end FactModel
