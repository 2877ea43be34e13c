import FactModel.Proofs.Matching.Completion
import FactModel.Proofs.Matching.Validity
set_option autoImplicit false

/-!
# The mentions of resolved clauses

Resolving a clause takes words out of it but no mentions, at whatever depth. Completing it puts in
one mention, on one side.

## Main definitions

* `FactModel.Clause.allMentions` — the mentions of a clause and of the clauses nested in it.
* `FactModel.Clause.KeepsMentions` — a clause has become another one with the same mentions.

## Main results

* `FactModel.Compile.ends_resolve_keepsMentions` — resolving a clause keeps its mentions.
-/

namespace FactModel

open Attempt Compile

/-! ## Mentions at any depth -/

/-- The mentions of a clause and of the clauses nested in it. -/
def Clause.allMentions (c : Clause) : List MentionId :=
  c.allSlots.map (·.mention)

/-- The slots of phrases at all depths are those of each phrase. -/
lemma phrasesAllSlots_eq (ps : List Phrase) : phrasesAllSlots ps = ps.flatMap Phrase.allSlots := by
  induction ps with
  | nil => rfl
  | cons p ps ih => rw [phrasesAllSlots, ih, List.flatMap_cons]

/-- The slots of clauses at all depths are those of each clause. -/
lemma allSlots_eq (cs : List Clause) : allSlots cs = cs.flatMap Clause.allSlots := by
  induction cs with
  | nil => rfl
  | cons c cs ih => rw [allSlots, ih, List.flatMap_cons]

/-- The slots of a clause at all depths are those of its phrases. -/
lemma Clause.allSlots_eq (c : Clause) : c.allSlots = c.phrases.flatMap Phrase.allSlots := by
  obtain ⟨phrases, _, _, _, _, _, _, _, _⟩ := c
  rw [Clause.allSlots, phrasesAllSlots_eq]

/-- The mentions of a clause at all depths are those of its phrases. -/
lemma Clause.allMentions_eq (c : Clause) :
    c.allMentions = c.phrases.flatMap fun p => p.allSlots.map (·.mention) := by
  rw [allMentions, c.allSlots_eq, List.map_flatMap]

/-- The mentions of clauses at all depths are those of each clause. -/
lemma allMentions_eq (cs : List Clause) : allMentions cs = cs.flatMap Clause.allMentions := by
  rw [allMentions, FactModel.allSlots_eq, List.map_flatMap]
  rfl

/-- The mentions of clauses are those of the first one and then those of the others. -/
lemma allMentions_cons (c : Clause) (cs : List Clause) :
    allMentions (c :: cs) = c.allMentions ++ allMentions cs := by
  rw [allMentions_eq, allMentions_eq, List.flatMap_cons]

/-- The mentions of a slot are its own and those of what is nested in it. -/
lemma Slot.all_map_mention (s : Slot) :
    s.all.map (·.mention) = s.mention :: FactModel.allMentions s.nested := by
  obtain ⟨m, nested⟩ := s
  rw [Slot.all]
  rfl

/-- A phrase has become another one with the same mentions, at every depth. -/
structure Phrase.KeepsMentions (p q : Phrase) : Prop where
  bare_eq : q.bare = p.bare
  allMentions_eq : q.allSlots.map (·.mention) = p.allSlots.map (·.mention)

/-- A clause has become another one with the same mentions, at every depth, that is completed on the
same side. -/
structure Clause.KeepsMentions (c d : Clause) : Prop where
  mentions_eq : d.mentions = c.mentions
  allMentions_eq : d.allMentions = c.allMentions
  contraction_eq : d.contraction = c.contraction

/-- A clause keeps its mentions. -/
lemma Clause.KeepsMentions.refl (c : Clause) : c.KeepsMentions c :=
  ⟨rfl, rfl, rfl⟩

/-- Clauses that keep their mentions go on keeping them. -/
lemma Clause.KeepsMentions.trans {c d e : Clause} (h : c.KeepsMentions d)
    (h' : d.KeepsMentions e) : c.KeepsMentions e :=
  ⟨h'.mentions_eq.trans h.mentions_eq, h'.allMentions_eq.trans h.allMentions_eq,
    h'.contraction_eq.trans h.contraction_eq⟩

/-- Lists of clauses that keep their mentions go on keeping them. -/
lemma keepsMentions_trans {cs ds es : List Clause} (h : List.Forall₂ Clause.KeepsMentions cs ds)
    (h' : List.Forall₂ Clause.KeepsMentions ds es) : List.Forall₂ Clause.KeepsMentions cs es := by
  induction h generalizing es with
  | nil => exact h'
  | cons hkeeps _ ih =>
    cases h' with
    | cons hkeeps' hrest => exact .cons (hkeeps.trans hkeeps') (ih hrest)

/-- What stands in one of two lists that are related item by item is related to an item of the other
one. -/
lemma exists_of_forall₂ {α β : Type} {R : α → β → Prop} {as : List α} {bs : List β}
    (h : List.Forall₂ R as bs) {b : β} (hb : b ∈ bs) : ∃ a ∈ as, R a b := by
  obtain ⟨i, hi, rfl⟩ := List.getElem_of_mem hb
  obtain ⟨hlength, hrelated⟩ := List.forall₂_iff_get.1 h
  have hi' : i < as.length := hlength ▸ hi
  exact ⟨as[i], List.getElem_mem hi', hrelated i hi' hi⟩

/-- Clauses that keep their mentions have the same ones at every depth. -/
lemma allMentions_of_keepsMentions {cs ds : List Clause}
    (h : List.Forall₂ Clause.KeepsMentions cs ds) : allMentions ds = allMentions cs := by
  induction h with
  | nil => rfl
  | cons hkeeps _ ih => rw [allMentions_cons, allMentions_cons, hkeeps.allMentions_eq, ih]

/-- Phrases that keep their mentions differ only in what is nested in them. -/
lemma sameBare_of_keepsMentions {ps qs : List Phrase}
    (h : List.Forall₂ Phrase.KeepsMentions ps qs) : SameBare qs ps := by
  unfold SameBare
  induction h with
  | nil => rfl
  | cons h _ ih => rw [List.map_cons, List.map_cons, h.bare_eq, ih]

/-- Phrases may change in a clause if their mentions stay. -/
lemma Clause.keepsMentions_withPhrases {c : Clause} {ps : List Phrase}
    (h : List.Forall₂ Phrase.KeepsMentions c.phrases ps) :
    c.KeepsMentions { c with phrases := ps } := by
  refine ⟨(sameBare_of_keepsMentions h).mentions_eq, ?_, rfl⟩
  rw [Clause.allMentions_eq, Clause.allMentions_eq]
  dsimp only
  generalize c.phrases = qs at h
  induction h with
  | nil => rfl
  | cons h _ ih => rw [List.flatMap_cons, List.flatMap_cons, h.allMentions_eq, ih]

/-! ## Resolving -/

namespace Compile

variable {options : MatchOptions}

/-- Resolving a clause whose nested clauses are resolved only takes words out of it. -/
lemma ends_resolveFlat_keepsMentions (options : MatchOptions) (c : Clause) (x : Context) :
    (resolveFlat options c).Ends x (fun r _ => ∀ d ∈ r, c.KeepsMentions d) fun _ => True := by
  unfold resolveFlat
  split
  · refine ends_map.2 (ends_bind_of_forall fun _ _ => ends_bind_of_forall fun _ _ =>
      ends_bind_of_forall fun _ _ => ends_bind_of_forall fun _ _ =>
        ends_bind_of_forall fun _ _ => ?_)
    rintro d ⟨⟩
    exact ⟨rfl, by rw [Clause.allMentions_eq, Clause.allMentions_eq], rfl⟩
  · refine ends_bind.2 (ends_get.2 ?_)
    split
    · rintro d ⟨⟩
      exact .refl c
    · refine ends_bind.2 (ends_get.2 (ends_bind.2 (ends_ofExcept.2 ?_)))
      split
      · next r hselect =>
        cases r with
        | none => exact fun d hd => nomatch hd
        | some a =>
          refine ends_map.2 (ends_bind_of_forall fun _ _ => ?_)
          rintro d ⟨⟩
          have halign := (Context.mem_rank.1 (Context.mem_of_select hselect)).2
          refine ⟨?_, ?_, rfl⟩
          · rw [Clause.mentions, Clause.slots_aligned halign, Clause.mentions]
          · rw [Clause.allMentions_eq, c.flatMap_phrases_aligned _ (fun _ => rfl) halign,
              c.allMentions_eq]
      · trivial

/-- Resolving a clause keeps its mentions, and a clause that nothing matches is left as it is. -/
lemma ends_resolveItself_keepsMentions (options : MatchOptions) (c : Clause) (x : Context) :
    (ofResolved (resolveItself options c)).Ends x
      (fun r _ => c.KeepsMentions r.1 ∧ (r.2 = false → r.1 = c)) fun _ => True := by
  rw [ofResolved_resolveItself]
  refine ends_bind.2 ((ends_resolveFlat_keepsMentions options c x).imp (fun r y hr => ?_)
    fun _ => id)
  cases r with
  | none => exact ⟨.refl c, fun _ => rfl⟩
  | some d => exact ⟨hr d rfl, fun h => nomatch h⟩

mutual

/-- Resolving a slot keeps its mentions. -/
lemma ends_resolveSlot_keepsMentions (options : MatchOptions) : ∀ (s : Slot) (x : Context),
    (ofResolved (resolveSlot options s)).Ends x
      (fun r _ => r.1.mention = s.mention ∧
        FactModel.allMentions r.1.nested = FactModel.allMentions s.nested) fun _ => True
  | ⟨m, nested⟩, x => by
    rw [ofResolved_resolveSlot]
    refine ends_bind.2 ((ends_resolveNested_keepsMentions options m nested x).imp
      (fun r y hr => ?_) fun _ => id)
    exact ⟨rfl, hr⟩

/-- Resolving a phrase keeps its mentions. -/
lemma ends_resolvePhrase_keepsMentions (options : MatchOptions) : ∀ (p : Phrase) (x : Context),
    (ofResolved (resolvePhrase options p)).Ends x (fun r _ => p.KeepsMentions r.1) fun _ => True
  | .word text, x => ⟨rfl, rfl⟩
  | .slot s, x => by
    rw [ofResolved_resolvePhrase_slot]
    refine ends_bind.2 ((ends_resolveSlot_keepsMentions options s x).imp (fun r y hr => ?_)
      fun _ => id)
    refine ⟨by simp [Phrase.bare, hr.1], ?_⟩
    simp only [Phrase.allSlots, Slot.all_map_mention, hr.1, hr.2]
  | .comparison operator left right, x => by
    rw [ofResolved_resolvePhrase_comparison]
    refine ends_bind.2 ((ends_resolveSlot_keepsMentions options left x).imp (fun r y hr => ?_)
      fun _ => id)
    refine ends_bind.2 ((ends_resolveSlot_keepsMentions options right y).imp (fun q z hq => ?_)
      fun _ => id)
    refine ⟨by simp [Phrase.bare, hr.1, hq.1], ?_⟩
    simp only [Phrase.allSlots, List.map_append, Slot.all_map_mention, hr.1, hr.2, hq.1, hq.2]

/-- Resolving phrases keeps their mentions. -/
lemma ends_resolvePhrases_keepsMentions (options : MatchOptions) :
    ∀ (ps : List Phrase) (x : Context), (ofResolved (resolvePhrases options ps)).Ends x
      (fun r _ => List.Forall₂ Phrase.KeepsMentions ps r.1) fun _ => True
  | [], x => .nil
  | p :: ps, x => by
    rw [ofResolved_resolvePhrases_cons]
    refine ends_bind.2 ((ends_resolvePhrase_keepsMentions options p x).imp (fun r y hr => ?_)
      fun _ => id)
    refine ends_bind.2 ((ends_resolvePhrases_keepsMentions options ps y).imp (fun q z hq => ?_)
      fun _ => id)
    exact .cons hr hq

/-- Resolving a clause keeps its mentions, at every depth. -/
theorem ends_resolve_keepsMentions (options : MatchOptions) : ∀ (c : Clause) (x : Context),
    (ofResolved (resolve options c)).Ends x (fun r _ => c.KeepsMentions r.1) fun _ => True
  | ⟨phrases, _, _, _, _, _, _, _, _⟩, x => by
    rw [ofResolved_resolve]
    refine ends_bind.2 ((ends_resolvePhrases_keepsMentions options phrases x).imp
      (fun r y hr => ?_) fun _ => id)
    exact (ends_resolveItself_keepsMentions options _ y).imp
      (fun q z hq => (Clause.keepsMentions_withPhrases hr).trans hq.1) fun _ => id

/-- Resolving nested clauses keeps their mentions. -/
lemma ends_resolveNested_keepsMentions (options : MatchOptions) :
    ∀ (m : MentionId) (cs : List Clause) (x : Context),
      (ofResolved (resolveNested options m cs)).Ends x
        (fun r _ => FactModel.allMentions r.1 = FactModel.allMentions cs) fun _ => True
  | m, [], x => rfl
  | m, c :: cs, x => by
    rw [ofResolved_resolveNested_cons]
    have hfirst : (if c.isMatched then pure (c, true) else ofResolved (resolve options c) :
        Compile (Clause × Bool)).Ends x (fun r _ => c.KeepsMentions r.1) fun _ => True := by
      split
      · exact .refl c
      · exact ends_resolve_keepsMentions options c x
    refine ends_bind.2 (hfirst.imp (fun r y hr => ?_) fun _ => id)
    refine ends_bind_of_forall fun _ z => ?_
    refine ends_bind.2 ((ends_resolveNested_keepsMentions options m cs z).imp (fun q w hq => ?_)
      fun _ => id)
    change FactModel.allMentions (r.1 :: q.1) = FactModel.allMentions (c :: cs)
    rw [allMentions_cons, allMentions_cons, hr.allMentions_eq, hq]

end

end Compile

end FactModel
