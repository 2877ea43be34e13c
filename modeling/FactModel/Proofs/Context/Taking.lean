import Mathlib.Data.List.Forall2
import FactModel.Proofs.Context.Likeness
import FactModel.Proofs.Matching.Flat
set_option autoImplicit false

/-!
# Where clauses are taken

Clauses without nested clauses are taken into a context one behind the other: the mentions of each
have the next places. So a clause that is taken into two contexts is the same there but for the
places of its mentions.

## Main definitions

* `FactModel.Script.placeClauses` — clauses whose mentions have the places from a number on.
* `FactModel.Context.HasTaken` — a clause has been taken into a context at some place.

## Main results

* `FactModel.Context.adoptAll_flat` — flat clauses are taken one behind the other.
* `FactModel.Context.HasTaken.renames` — a clause at two places differs in its mentions only.
-/

namespace FactModel

open Context

/-! ## Taking clauses into a context -/

namespace Script

/-- A mention as it is taken into a context. -/
def Mention.record (m : Mention) : FactModel.Mention where
  term := m.term
  leading := m.leading
  trailing := m.trailing
  roleName := m.roleName
  quantifier := m.quantifier
  literal := m.literal

/-- A side of a comparison with another one as it is taken into a context. -/
def Operand.record (operand other : Operand) : FactModel.Mention :=
  match operand with
  | .mention m => m.record
  | .literal value => { term := literalTerm value other, literal := some value }

/-- The mentions of a phrase as they are taken into a context. -/
def Phrase.records : Phrase → List FactModel.Mention
  | .word _ => []
  | .mention m => [m.record]
  | .comparison _ left right => [left.record right, right.record left]

/-- The mentions of a clause as they are taken into a context. -/
def Clause.records (c : Clause) : List FactModel.Mention :=
  c.phrases.flatMap Phrase.records

/-- A phrase whose mentions have the places from a number on. -/
def Phrase.placed (k : Nat) : Phrase → FactModel.Phrase
  | .word text => .word text
  | .mention _ => .slot ⟨⟨k⟩, []⟩
  | .comparison operator _ _ => .comparison operator ⟨⟨k⟩, []⟩ ⟨⟨k + 1⟩, []⟩

/-- Phrases whose mentions have the places from a number on. -/
def placePhrases (k : Nat) : List Phrase → List FactModel.Phrase
  | [] => []
  | p :: ps => p.placed k :: placePhrases (k + p.records.length) ps

/-- A clause whose mentions have the places from a number on. -/
def Clause.placed (k : Nat) (c : Clause) : FactModel.Clause where
  phrases := placePhrases k c.phrases
  qualifiers := c.qualifiers
  certainty := c.certainty
  conjunction := c.conjunction

/-- Clauses whose mentions have the places from a number on. -/
def placeClauses (k : Nat) : List Clause → List FactModel.Clause
  | [] => []
  | c :: cs => c.placed k :: placeClauses (k + c.records.length) cs

/-- As many phrases are placed as there are. -/
lemma length_placePhrases (k : Nat) (ps : List Phrase) :
    (placePhrases k ps).length = ps.length := by
  induction ps generalizing k with
  | nil => rfl
  | cons p ps ih => rw [placePhrases, List.length_cons, ih, List.length_cons]

/-- A phrase that is placed has slots with the numbers from there on. -/
lemma Phrase.slots_placed (k : Nat) (p : Phrase) :
    (p.placed k).slots = (List.range' k p.records.length).map fun i => ⟨⟨i⟩, []⟩ := by
  cases p <;> rfl

/-- Phrases that are placed have slots with the numbers from there on. -/
lemma flatMap_slots_placePhrases (k : Nat) (ps : List Phrase) :
    (placePhrases k ps).flatMap FactModel.Phrase.slots =
      (List.range' k (ps.flatMap Phrase.records).length).map fun i => ⟨⟨i⟩, []⟩ := by
  induction ps generalizing k with
  | nil => rfl
  | cons p ps ih =>
    rw [placePhrases, List.flatMap_cons, List.flatMap_cons, Phrase.slots_placed,
      ih, ← List.map_append,
      List.range'_append_1, List.length_append]

/-- A clause that is placed has slots with the numbers from there on. -/
lemma Clause.slots_placed (k : Nat) (c : Clause) :
    (c.placed k).slots = (List.range' k c.records.length).map fun i => ⟨⟨i⟩, []⟩ :=
  flatMap_slots_placePhrases k c.phrases

/-- A clause that is placed has mentions with the numbers from there on. -/
lemma Clause.mentions_placed (k : Nat) (c : Clause) :
    (c.placed k).mentions = (List.range' k c.records.length).map MentionId.mk := by
  rw [FactModel.Clause.mentions, slots_placed, List.map_map]
  rfl

/-- A clause that is placed is flat. -/
lemma Clause.isFlat_placed (k : Nat) (c : Clause) : (c.placed k).IsFlat := by
  intro s hs
  rw [slots_placed] at hs
  obtain ⟨i, -, rfl⟩ := List.mem_map.1 hs
  rfl

/-- Clauses that are placed are flat. -/
lemma isFlat_of_mem_placeClauses {k : Nat} {cs : List Clause} :
    ∀ d ∈ placeClauses k cs, FactModel.Clause.IsFlat d := by
  induction cs generalizing k with
  | nil => exact fun _ hd => absurd hd List.not_mem_nil
  | cons c cs ih => exact List.forall_mem_cons.2 ⟨c.isFlat_placed k, ih⟩

/-- Clauses that are placed have mentions with the numbers from there on. -/
lemma flatMap_mentions_placeClauses (k : Nat) (cs : List Clause) :
    (placeClauses k cs).flatMap FactModel.Clause.mentions =
      (List.range' k (cs.flatMap Clause.records).length).map MentionId.mk := by
  induction cs generalizing k with
  | nil => rfl
  | cons c cs ih =>
    rw [placeClauses, List.flatMap_cons, List.flatMap_cons, Clause.mentions_placed,
      ih, ← List.map_append,
      List.range'_append_1, List.length_append]

/-- Phrases at two places differ in their mentions only. -/
lemma placePhrases_eq_map {f : MentionId → MentionId} {ps : List Phrase} {k k' : Nat}
    (hf : ∀ i < (ps.flatMap Phrase.records).length, f ⟨k + i⟩ = ⟨k' + i⟩) :
    placePhrases k' ps = (placePhrases k ps).map (FactModel.Phrase.renamed f) := by
  induction ps generalizing k k' with
  | nil => rfl
  | cons p ps ih =>
    rw [List.flatMap_cons, List.length_append] at hf
    rw [placePhrases, placePhrases, List.map_cons]
    congr 1
    · have hp : ∀ i < p.records.length, f ⟨k + i⟩ = ⟨k' + i⟩ := fun i hi => hf i (by omega)
      cases p with
      | word text => rfl
      | mention m =>
        have h₀ : f ⟨k⟩ = ⟨k'⟩ := hp 0 Nat.zero_lt_one
        simp only [Phrase.placed, FactModel.Phrase.renamed, Slot.renamed]
        rw [h₀]
      | comparison operator left right =>
        have h₀ : f ⟨k⟩ = ⟨k'⟩ := hp 0 Nat.zero_lt_two
        have h₁ := hp 1 Nat.one_lt_two
        simp only [Phrase.placed, FactModel.Phrase.renamed, Slot.renamed]
        rw [h₀, h₁]
    · refine ih fun i hi => ?_
      have hi' := hf (p.records.length + i) (by omega)
      rwa [← Nat.add_assoc, ← Nat.add_assoc] at hi'

end Script

namespace Context

variable {x y : Context}

/-- The context with further mentions. -/
def pushMentions (x : Context) (ms : List Mention) : Context :=
  { x with mentions := x.mentions ++ ms.toArray }

/-- Adding no mentions changes nothing. -/
lemma pushMentions_nil (x : Context) : x.pushMentions [] = x := by
  simp [pushMentions]

/-- Adding mentions in two goes is adding them in one. -/
lemma pushMentions_append (x : Context) (ms ns : List Mention) :
    x.pushMentions (ms ++ ns) = (x.pushMentions ms).pushMentions ns := by
  simp [pushMentions]

/-- Adding a list of one mention is adding that mention. -/
lemma pushMentions_singleton (x : Context) (m : Mention) :
    x.pushMentions [m] = x.pushMention m := by
  simp [pushMentions, pushMention]

/-- Adding mentions adds so many. -/
lemma size_pushMentions (x : Context) (ms : List Mention) :
    (x.pushMentions ms).mentions.size = x.mentions.size + ms.length := by
  simp [pushMentions]

/-- A mention with nothing nested in it is taken in as the next one. -/
lemma adoptMention_flat {m : Script.Mention} (hm : m.nested = []) (x : Context) :
    adoptMention m x = (⟨⟨x.mentions.size⟩, []⟩, x.pushMention m.record) := by
  obtain ⟨term, leading, trailing, roleName, quantifier, literal, nested⟩ := m
  obtain rfl : nested = [] := hm
  rw [adoptMention, adoptAll]
  rfl

/-- A flat side of a comparison is taken in as the next mention. -/
lemma adoptOperand_flat (other : Script.Operand) {operand : Script.Operand} (h : operand.IsFlat)
    (x : Context) :
    adoptOperand other operand x =
      (⟨⟨x.mentions.size⟩, []⟩, x.pushMention (operand.record other)) := by
  cases operand with
  | mention m =>
    rw [adoptOperand]
    exact adoptMention_flat h x
  | literal value =>
    rw [adoptOperand]
    rfl

/-- A flat phrase is taken in with its mentions placed from the next number on. -/
lemma adoptPhrase_flat {p : Script.Phrase} (hp : p.IsFlat) (x : Context) :
    adoptPhrase p x = (p.placed x.mentions.size, x.pushMentions p.records) := by
  cases p with
  | word text =>
    rw [adoptPhrase, Script.Phrase.records, pushMentions_nil]
    rfl
  | mention m =>
    rw [adoptPhrase, Script.Phrase.records, pushMentions_singleton]
    exact congrArg (fun r : Slot × Context => (Phrase.slot r.1, r.2)) (adoptMention_flat hp x)
  | comparison operator left right =>
    have hleft := adoptOperand_flat right hp.1 x
    have hright := adoptOperand_flat left hp.2 (x.pushMention (left.record right))
    have hsize : (x.pushMention (left.record right)).mentions.size = x.mentions.size + 1 :=
      Array.size_push ..
    rw [hsize] at hright
    rw [adoptPhrase, Script.Phrase.records, ← List.singleton_append, pushMentions_append,
      pushMentions_singleton, pushMentions_singleton]
    change (fun r : Slot × Context =>
      (fun r' : Slot × Context => (Phrase.comparison operator r.1 r'.1, r'.2))
        (adoptOperand left right r.2)) (adoptOperand right left x) = _
    rw [hleft]
    dsimp only
    rw [hright]
    rfl

/-- Flat phrases are taken in with their mentions placed from the next number on. -/
lemma adoptPhrases_flat {ps : List Script.Phrase} (hps : ∀ p ∈ ps, p.IsFlat) (x : Context) :
    adoptPhrases ps x =
      (Script.placePhrases x.mentions.size ps,
        x.pushMentions (ps.flatMap Script.Phrase.records)) := by
  induction ps generalizing x with
  | nil =>
    rw [adoptPhrases, List.flatMap_nil, pushMentions_nil]
    rfl
  | cons p ps ih =>
    have hfirst := adoptPhrase_flat (hps p List.mem_cons_self) x
    have hrest := ih (fun q hq => hps q (List.mem_cons_of_mem p hq)) (x.pushMentions p.records)
    rw [size_pushMentions] at hrest
    rw [adoptPhrases, List.flatMap_cons, pushMentions_append]
    change (fun r : Phrase × Context =>
      (fun r' : List Phrase × Context => (r.1 :: r'.1, r'.2)) (adoptPhrases ps r.2))
        (adoptPhrase p x) = _
    rw [hfirst]
    dsimp only
    rw [hrest]
    rfl

/-- A flat clause is taken in with its mentions placed from the next number on. -/
lemma adopt_flat {c : Script.Clause} (hc : c.IsFlat) (x : Context) :
    adopt c x = (c.placed x.mentions.size, x.pushMentions c.records) := by
  obtain ⟨phrases, qualifiers, certainty, conjunction⟩ := c
  rw [adopt]
  exact congrArg (fun r : List Phrase × Context =>
    (({ phrases := r.1, qualifiers, certainty, conjunction } : Clause), r.2))
      (adoptPhrases_flat hc x)

/-- Clauses without nested clauses are taken into a context one behind the other. -/
theorem adoptAll_flat {cs : List Script.Clause} (hcs : ∀ c ∈ cs, c.IsFlat) (x : Context) :
    adoptAll cs x =
      (Script.placeClauses x.mentions.size cs,
        x.pushMentions (cs.flatMap Script.Clause.records)) := by
  induction cs generalizing x with
  | nil =>
    rw [adoptAll, List.flatMap_nil, pushMentions_nil]
    rfl
  | cons c cs ih =>
    have hfirst := adopt_flat (hcs c List.mem_cons_self) x
    have hrest := ih (fun d hd => hcs d (List.mem_cons_of_mem c hd)) (x.pushMentions c.records)
    rw [size_pushMentions] at hrest
    rw [adoptAll, List.flatMap_cons, pushMentions_append]
    change (fun r : Clause × Context =>
      (fun r' : List Clause × Context => (r.1 :: r'.1, r'.2)) (adoptAll cs r.2)) (adopt c x) = _
    rw [hfirst]
    dsimp only
    rw [hrest]
    rfl

/-! ## The same clause at two places -/

/-- A clause has been taken into a context at some place, and nothing but its text is known. -/
structure HasTaken (x : Context) (c : Script.Clause) (d : Clause) : Prop where
  exists_place : ∃ k, d.phrases = (c.placed k).phrases
  certainty_eq : d.certainty = c.certainty
  contraction_eq : d.contraction = none
  records_eq : d.mentions.map x.mention = c.records

/-- The mentions in a stretch of numbers are those that stand there. -/
lemma map_mention_range' {front ms back : List Mention}
    (hx : x.mentions.toList = front ++ (ms ++ back)) :
    ((List.range' front.length ms.length).map MentionId.mk).map x.mention = ms := by
  rw [List.map_map]
  refine List.ext_getElem (by simp) fun i h₁ h₂ => ?_
  have hget : (ms ++ back)[i]? = some ms[i] := by
    rw [List.getElem?_append_left h₂, List.getElem?_eq_getElem h₂]
  simp [mention, ← Array.getElem?_toList, hx, List.getElem?_append_right, hget]

/-- Clauses that are placed from the end of the context on have been taken into it. -/
lemma hasTaken_placeClauses {front back : List Mention} {cs : List Script.Clause}
    (hx : x.mentions.toList = front ++ (cs.flatMap Script.Clause.records ++ back)) :
    List.Forall₂ x.HasTaken cs (Script.placeClauses front.length cs) := by
  induction cs generalizing front with
  | nil => exact .nil
  | cons c cs ih =>
    rw [List.flatMap_cons, List.append_assoc] at hx
    refine .cons ⟨⟨_, rfl⟩, rfl, rfl, ?_⟩ ?_
    · rw [Script.Clause.mentions_placed]
      exact map_mention_range' hx
    · have hrest :
        List.Forall₂ x.HasTaken cs (Script.placeClauses (front ++ c.records).length cs) :=
        ih (by rw [hx, List.append_assoc])
      rwa [List.length_append] at hrest

namespace HasTaken

variable {c c' : Script.Clause} {d e : Clause} (h : x.HasTaken c d)

include h

/-- A clause that has been taken in has as many mentions as its text. -/
lemma length_mentions : d.mentions.length = c.records.length := by
  rw [← h.records_eq, List.length_map]

/-- How a clause is joined to the one before it does not matter. -/
lemma of_phrases_eq (hphrases : c'.phrases = c.phrases) (hcertainty : c'.certainty = c.certainty) :
    x.HasTaken c' d where
  exists_place := by
    obtain ⟨k, hk⟩ := h.exists_place
    refine ⟨k, ?_⟩
    rw [hk, Script.Clause.placed, Script.Clause.placed, hphrases]
  certainty_eq := by rw [h.certainty_eq, hcertainty]
  contraction_eq := h.contraction_eq
  records_eq := by rw [h.records_eq, Script.Clause.records, Script.Clause.records, hphrases]

/-- A clause that has been taken in has its mentions placed from some number on. -/
lemma exists_mentions_eq : ∃ k, d.phrases = (c.placed k).phrases ∧
    d.mentions = (List.range' k c.records.length).map MentionId.mk := by
  obtain ⟨k, hk⟩ := h.exists_place
  exact ⟨k, hk, by rw [← c.mentions_placed, Clause.mentions, Clause.slots, hk]; rfl⟩

/-- **One clause at two places.** A clause that has been taken into two contexts differs there in
its mentions only, and these are written in the same way. -/
theorem renames (he : y.HasTaken c e) {f : MentionId → MentionId}
    (hmentions : e.mentions = d.mentions.map f) :
    d.Renames f e ∧ ∀ m ∈ d.mentions, y.mention (f m) = x.mention m := by
  obtain ⟨k, hk, hkd⟩ := h.exists_mentions_eq
  obtain ⟨k', hk', hke⟩ := he.exists_mentions_eq
  constructor
  · refine ⟨?_, he.certainty_eq.trans h.certainty_eq.symm⟩
    rw [hk', hk]
    refine Script.placePhrases_eq_map fun i hi => ?_
    rw [hkd, hke, List.map_map] at hmentions
    have hget := congrArg (fun ms : List MentionId => ms[i]?) hmentions
    have hi' : i < c.records.length := hi
    simpa [hi'] using hget.symm
  · have hrecords := he.records_eq
    rw [hmentions, ← h.records_eq, List.map_map] at hrecords
    exact List.map_inj_left.1 hrecords

end HasTaken

end Context

end FactModel
