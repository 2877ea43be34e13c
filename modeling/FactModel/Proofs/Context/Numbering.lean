import FactModel.Proofs.Matching.Slots
set_option autoImplicit false

/-!
# Every mention has a place of its own

Clauses are taken into a context mention by mention, those of nested clauses before the mention that
they are nested under. Each is placed behind all others, so that no two of them have one place.

## Main definitions

* `FactModel.Context.Places` — mentions have places of their own between two sizes of a context.

## Main results

* `FactModel.Context.places_adoptAll` — the mentions of adopted clauses have, at all depths.
-/

namespace FactModel.Context

/-- Mentions have places of their own, behind those of one context and within another one. -/
structure Places (x : Context) (ms : List MentionId) (y : Context) : Prop where
  le_size : x.mentions.size ≤ y.mentions.size
  nodup : ms.Nodup
  mem_range : ∀ m ∈ ms, x.mentions.size ≤ m.index ∧ m.index < y.mentions.size

variable {x y z : Context} {ms ns : List MentionId}

/-- No mentions need no places. -/
lemma places_nil (x : Context) : Places x [] x :=
  ⟨Nat.le_refl _, List.nodup_nil, fun _ hm => nomatch hm⟩

/-- Mentions may have places behind those of others. -/
lemma Places.append (h : Places x ms y) (h' : Places y ns z) : Places x (ms ++ ns) z where
  le_size := h.le_size.trans h'.le_size
  nodup := List.nodup_append.2 ⟨h.nodup, h'.nodup, by
    rintro m hm n hn rfl
    exact Nat.lt_irrefl _ ((h.mem_range m hm).2.trans_le (h'.mem_range m hn).1)⟩
  mem_range m hm := by
    rcases List.mem_append.1 hm with hm | hm
    · exact ⟨(h.mem_range m hm).1, (h.mem_range m hm).2.trans_le h'.le_size⟩
    · exact ⟨h.le_size.trans (h'.mem_range m hm).1, (h'.mem_range m hm).2⟩

/-- A further mention is placed behind those that come after it in the clause. -/
lemma Places.cons (h : Places x ms y) (m : Mention) :
    Places x (⟨y.mentions.size⟩ :: ms) (y.pushMention m) := by
  have hsize : (y.pushMention m).mentions.size = y.mentions.size + 1 := Array.size_push ..
  refine ⟨hsize ▸ h.le_size.trans (Nat.le_succ _), List.nodup_cons.2 ⟨fun hmem => ?_, h.nodup⟩,
    fun n hn => ?_⟩
  · exact Nat.lt_irrefl _ (h.mem_range _ hmem).2
  · rcases List.mem_cons.1 hn with rfl | hn
    · exact ⟨h.le_size, hsize ▸ Nat.lt_succ_self _⟩
    · exact ⟨(h.mem_range n hn).1, hsize ▸ Nat.lt_succ_of_lt (h.mem_range n hn).2⟩

mutual

/-- A mention that is taken in gets places of its own, with what is nested in it. -/
lemma places_adoptMention : ∀ (m : Script.Mention) (x : Context),
    Places x ((adoptMention m x).1.all.map (·.mention)) (adoptMention m x).2
  | ⟨term, leading, trailing, roleName, quantifier, literal, nested⟩, x => by
    rw [adoptMention, Slot.all_map_mention]
    exact (places_adoptAll nested x).cons _

/-- A side of a comparison that is taken in gets places of its own. -/
lemma places_adoptOperand (other : Script.Operand) : ∀ (operand : Script.Operand) (x : Context),
    Places x ((adoptOperand other operand x).1.all.map (·.mention))
      (adoptOperand other operand x).2
  | .mention m, x => by
    rw [adoptOperand]
    exact places_adoptMention m x
  | .literal value, x => by
    rw [adoptOperand, Slot.all_map_mention]
    exact (places_nil x).cons _

/-- A phrase that is taken in gets places of its own. -/
lemma places_adoptPhrase : ∀ (p : Script.Phrase) (x : Context),
    Places x ((adoptPhrase p x).1.allSlots.map (·.mention)) (adoptPhrase p x).2
  | .word text, x => by
    rw [adoptPhrase]
    exact places_nil x
  | .mention m, x => by
    rw [adoptPhrase]
    exact places_adoptMention m x
  | .comparison operator left right, x => by
    have hboth := (places_adoptOperand right left x).append (places_adoptOperand left right _)
    rw [← List.map_append] at hboth
    rw [adoptPhrase]
    exact hboth

/-- Phrases that are taken in get places of their own. -/
lemma places_adoptPhrases : ∀ (ps : List Script.Phrase) (x : Context),
    Places x ((adoptPhrases ps x).1.flatMap fun p => p.allSlots.map (·.mention))
      (adoptPhrases ps x).2
  | [], x => by
    rw [adoptPhrases]
    exact places_nil x
  | p :: ps, x => by
    rw [adoptPhrases]
    exact (places_adoptPhrase p x).append (places_adoptPhrases ps _)

/-- A clause that is taken in gets places of its own. -/
lemma places_adopt : ∀ (c : Script.Clause) (x : Context),
    Places x (adopt c x).1.allMentions (adopt c x).2
  | ⟨phrases, qualifiers, certainty, conjunction⟩, x => by
    rw [adopt, Clause.allMentions_eq]
    exact places_adoptPhrases phrases x

/-- **Every mention has a place of its own.** The mentions of clauses that are taken into a context,
those of nested clauses included, have places behind the mentions that are there, no two of them
one. -/
theorem places_adoptAll : ∀ (cs : List Script.Clause) (x : Context),
    Places x (allMentions (adoptAll cs x).1) (adoptAll cs x).2
  | [], x => by
    rw [adoptAll]
    exact places_nil x
  | c :: cs, x => by
    have hboth := (places_adopt c x).append (places_adoptAll cs (adopt c x).2)
    rw [allMentions_eq] at hboth
    rw [adoptAll, allMentions_eq]
    exact hboth

end

end FactModel.Context
