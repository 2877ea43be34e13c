import FactModel.Proofs.JoinGraph.Mirror
import FactModel.Proofs.Matching.Singly
set_option autoImplicit false

/-!
# Resolved clauses can make their steps

A step is refused if a variable may not have its role. That cannot happen to a flat clause that has
been resolved: its mentions got their roles from a reading that was laid on them, or from a
comparison of their own players.

## Main definitions

* `FactModel.Context.Seats` — the mentions of a clause have roles that their players may have.

## Main results

* `FactModel.Compile.ResolvesTo.seats` — those of a clause that has been resolved do.
* `FactModel.Compile.ResolvesEach.seats` — so do those of many clauses, when all have been resolved.
-/

namespace FactModel

open Attempt Compile Context

/-- Types are compatible just in case they are one or have a common supertype. -/
lemma Vocabulary.compatible_iff {v : Vocabulary} {t u : ObjectTypeId} :
    v.Compatible t u ↔ t = u ∨ (v.commonSupertype? t u).isSome := by
  refine or_congr_right ?_
  rw [commonSupertype?, List.find?_isSome]
  simp only [List.contains_iff_mem]

/-- The same types are compatible in vocabularies that match alike. -/
lemma Vocabulary.MatchesAs.compatible_iff {v w : Vocabulary} (h : v.MatchesAs w)
    {t u : ObjectTypeId} :
    w.Compatible t u ↔ v.Compatible t u := by
  rw [Vocabulary.compatible_iff, Vocabulary.compatible_iff, h.commonSupertype?_eq]

namespace Context

variable {v : Vocabulary} {x y : Context} {c d : Clause} {m : MentionId}

/-- A mention has a role that its player may have. -/
def HasSeat (x : Context) (m : MentionId) : Prop :=
  ∃ r t, (x.mention m).role = some r ∧ (x.mention m).player = some t ∧
    x.vocabulary.Compatible t (x.vocabulary.playerOf r)

/-- The mentions of a clause have roles that their players may have, if it is matched; if it is not,
it has one mention. -/
structure Seats (x : Context) (c : Clause) : Prop where
  hasSeat : c.isMatched = true → ∀ m ∈ c.mentions, x.HasSeat m
  exists_mention : c.isMatched = false → ∃ m, c.mentions = [m]

/-- A mention keeps its role while others are given theirs. -/
lemma HasSeat.later (h : x.HasSeat m) (hx : x.Valid) (hy : y.Midway x.vocabulary)
    (hm : y.mention m = x.mention m) : y.HasSeat m := by
  obtain ⟨r, t, hr, ht, hcompatible⟩ := h
  refine ⟨r, t, hm ▸ hr, hm ▸ ht, ?_⟩
  rw [hy.matchesAs.playerOf_eq r (hx.role_mem m r hr), hy.matchesAs.compatible_iff]
  exact hcompatible

/-- A clause keeps its seats as long as its mentions do not change. -/
lemma Seats.later (h : x.Seats c) (hx : x.Valid) (hy : y.Midway x.vocabulary)
    (hsame : ∀ m ∈ c.mentions, y.mention m = x.mention m) : y.Seats c where
  hasSeat hmatched m hm := (h.hasSeat hmatched m hm).later hx hy (hsame m hm)
  exists_mention := h.exists_mention

/-- A role that a slot takes is one that its player may have. -/
lemma Takes.compatible {options : MatchOptions} {refs : List RoleRef} {s : Slot} {p : Placement}
    (h : x.Takes options refs s p) : ∃ t, (x.mention p.mention).player = some t ∧
      x.vocabulary.Compatible t (x.vocabulary.playerOf p.role) := by
  have hplayer := h.player
  unfold walkPlayer at hplayer
  rw [← h.mention_eq] at hplayer
  split at hplayer
  · cases hplayer
  next t ht =>
  refine ⟨t, ht, Vocabulary.compatible_iff.2 ?_⟩
  split at hplayer
  · next heq => exact .inl heq
  split at hplayer
  · cases hplayer
  split at hplayer
  · next hcommon =>
    rw [hcommon]
    exact .inr rfl
  · cases hplayer

/-- Each mention gets the role that stands beside it. -/
lemma role_giveRoles {s : RoleSequenceId} {items : List ((MentionId × RoleId) × Nat)}
    (hnodup : (items.map (·.1.1)).Nodup) {item : (MentionId × RoleId) × Nat} (hitem : item ∈ items)
    (hlive : item.1.1.index < x.mentions.size) :
    ((x.giveRoles s items).mention item.1.1).role = some item.1.2 := by
  induction items generalizing x with
  | nil => cases hitem
  | cons first items ih =>
    obtain ⟨hnew, hnodup⟩ := List.nodup_cons.1 hnodup
    have hsize : (x.modifyMention first.1.1
        ({ · with role := some first.1.2, roleRef := some (s, first.2) })).mentions.size =
          x.mentions.size := Array.size_modify
    rcases List.mem_cons.1 hitem with rfl | hitem
    · exact (congrArg Mention.role (mention_giveRoles_of_not_mem _ s items hnew)).trans (by
        rw [mention_modifyMention, if_pos ⟨rfl, hlive⟩])
    · exact ih hnodup hitem (hsize ▸ hlive)

end Context

namespace Compile

variable {v : Vocabulary} {x y : Context} {c d : Clause} {cs ds : List Clause}

/-- The sides of a comparison get the roles of its fact type, which are those of their players. -/
lemma hasSeat_giveRoles {left right : Slot} {a b : ObjectTypeId} {f : FactTypeId} {w : Vocabulary}
    (hnodup : [left.mention, right.mention].Nodup)
    (hleft : (x.mention left.mention).player = some a)
    (hright : (x.mention right.mention).player = some b)
    (hlive : ∀ m ∈ [left.mention, right.mention], m.index < x.mentions.size)
    (hreads : w.ReadsInOrder f) (hplayers : (w.factType f).roles.map w.playerOf = [a, b]) :
    ∀ m ∈ [left.mention, right.mention], (({ x with vocabulary := w } : Context).giveRoles
      (w.reading (w.firstReading f)).roleSequence (comparedItems w f left right)).HasSeat m := by
  obtain ⟨r, rest, hreadings, -, -, hroles⟩ := hreads.head
  have hfirst : w.firstReading f = r := by rw [Vocabulary.firstReading, hreadings, List.headD_cons]
  obtain ⟨own, others, hsplit, rfl, hothers⟩ := List.map_eq_cons_iff.1 hplayers
  obtain ⟨other, more, rfl, rfl, hmore⟩ := List.map_eq_cons_iff.1 hothers
  obtain rfl := List.map_eq_nil_iff.1 hmore
  have hitems : comparedItems w f left right =
      [((left.mention, own), 0), ((right.mention, other), 1)] := by
    rw [comparedItems, hfirst, hroles, hsplit]
    rfl
  rw [hitems]
  generalize (w.reading (w.firstReading f)).roleSequence = s
  -- either side has the role of its own player
  have hseat : ∀ item ∈ [((left.mention, own), 0), ((right.mention, other), 1)],
      (x.mention item.1.1).player = some (w.playerOf item.1.2) →
        (({ x with vocabulary := w } : Context).giveRoles s
          [((left.mention, own), 0), ((right.mention, other), 1)]).HasSeat item.1.1 := by
    intro item hitem hplayer
    have hmem : item.1.1 ∈ [left.mention, right.mention] :=
      List.mem_map_of_mem (f := fun item : (MentionId × RoleId) × Nat => item.1.1) hitem
    refine ⟨item.1.2, w.playerOf item.1.2, ?_, ?_, ?_⟩
    · exact role_giveRoles (x := { x with vocabulary := w }) (s := s)
        (by exact hnodup) hitem (hlive _ hmem)
    · rw [mention_giveRoles_apply _ s _ Mention.player fun _ _ _ => rfl]
      exact hplayer
    · rw [vocabulary_giveRoles]
      exact .inl rfl
  intro m hm
  rcases List.mem_pair.1 hm with rfl | rfl
  · exact hseat ((left.mention, own), 0) List.mem_cons_self hleft
  · exact hseat ((right.mention, other), 1) (List.mem_cons_of_mem _ List.mem_cons_self) hright

/-- **What has been resolved can make its step.** The mentions of a flat clause that has been
resolved have roles that their players may have. -/
theorem ResolvesTo.seats (h : ResolvesTo x c d y) (hx : x.Midway v)
    (hreads : x.vocabulary.ComparisonsRead)
    (hc : c.IsFresh) (hnodup : c.mentions.Nodup)
    (hbound : ∀ m ∈ c.mentions, (x.mention m).binding.isSome) :
    y.Seats d ∧ y.vocabulary.ComparisonsRead := by
  cases h with
  | existential hcomparison hexistential =>
    refine ⟨⟨fun hmatched => ?_, fun _ => ?_⟩, hreads⟩
    · rw [Clause.isMatched, hc.factType_eq] at hmatched
      cases hmatched
    · unfold isExistential at hexistential
      split at hexistential
      · next s hs => exact ⟨s.mention, by simp [Clause.mentions, Clause.slots, hs, Phrase.slots]⟩
      · cases hexistential
  | @invokes a _ hcomparison hexistential hselect happly =>
    have hmentions := mentions_of_select hselect
    obtain ⟨_, happly', htakes, -⟩ := hx.matchable.exists_applyAlignment c (hmentions ▸ hnodup)
      fun p hp => hbound _ (hmentions ▸ List.mem_map_of_mem hp)
    rw [happly] at happly'
    cases happly'
    refine ⟨⟨fun _ m hm => ?_, fun hmatched => absurd hmatched.symm Bool.false_ne_true⟩,
      htakes.vocabulary_eq ▸ hreads⟩
    rw [Clause.mentions,
      Clause.slots_aligned (mem_rank.1 (mem_of_select hselect)).2, ← Clause.mentions,
      ← hmentions] at hm
    obtain ⟨p, hp, rfl⟩ := List.mem_map.1 hm
    obtain ⟨s, -, hslot⟩ :=
      (align_eq_ok_iff.1 (mem_rank.1 (mem_of_select hselect)).2).2.1.takes_of_mem hp
    obtain ⟨t, ht, hcompatible⟩ := hslot.compatible
    obtain ⟨b, -, hmention⟩ := htakes.mention_eq p hp
    refine ⟨p.role, t, by rw [hmention]; rfl, by rw [hmention]; exact ht, ?_⟩
    rw [htakes.vocabulary_eq]
    exact hcompatible
  | @compares operator left right a b f w hcomparison hleft hright hfactType =>
    have hsides : c.mentions = [left.mention, right.mention] := by
      simp [Clause.mentions, Clause.slots, Clause.phrases_of_comparison? hcomparison, Phrase.slots]
    have hcompares := (Vocabulary.compares_of_perform hx.valid.consistent hfactType).1
    have hevolves :=
      (Vocabulary.evolves_comparisonFactType x.vocabulary operator a b).of_perform hfactType
    have hreads' : w.ComparisonsRead := hevolves.1.comparisonsRead hreads
    refine ⟨⟨fun _ => ?_, fun hmatched => absurd hmatched.symm Bool.false_ne_true⟩, ?_⟩
    · have hmentions : (c.compared w f).mentions = [left.mention, right.mention] := hsides
      rw [hmentions]
      exact hasSeat_giveRoles (hsides ▸ hnodup) hleft hright
        (fun m hm => index_lt_of_binding (hbound m (hsides ▸ hm)))
        (hreads' f hcompares.mem operator hcompares.kind_eq) hcompares.players_eq
    · rw [vocabulary_giveRoles]
      exact hreads'

/-- **What has been resolved can make its steps.** When clauses have been resolved one by one, the
mentions of all of them have roles that their players may have. -/
theorem ResolvesEach.seats (h : ResolvesEach x cs ds y) (hx : x.Midway v)
    (hreads : x.vocabulary.ComparisonsRead) (hcs : ∀ c ∈ cs, c.IsFresh)
    (hnodup : (cs.flatMap Clause.mentions).Nodup)
    (hbound : ∀ m ∈ cs.flatMap Clause.mentions, (x.mention m).binding.isSome) :
    ∀ d ∈ ds, y.Seats d := by
  induction h with
  | nil => exact fun _ hd => absurd hd List.not_mem_nil
  | @cons x z y c d cs ds hfirst hrest ih =>
    obtain ⟨hc, hcs⟩ := List.forall_mem_cons.1 hcs
    rw [List.flatMap_cons] at hnodup hbound
    obtain ⟨hcnodup, hcsnodup, hdisjoint⟩ := List.nodup_append'.1 hnodup
    have hcbound := fun m hm => hbound m (List.mem_append_left _ hm)
    obtain ⟨hseats, hreads'⟩ := hfirst.seats hx hreads hc hcnodup hcbound
    obtain ⟨hz, -, hzbound⟩ := hfirst.midway hx (hc.valid _) hcnodup hcbound
    have hcsbound : ∀ m ∈ cs.flatMap Clause.mentions, (z.mention m).binding.isSome := fun m hm =>
      (hzbound m).2 (hbound m (List.mem_append_right _ hm))
    obtain ⟨hy, -, -, hsame⟩ := hrest.midway hz.self hcs hcsnodup hcsbound
    refine List.forall_mem_cons.2 ⟨hseats.later hz.valid hy fun m hm => hsame m fun hm' => ?_,
      ih hz hreads' hcs hcsnodup hcsbound⟩
    exact hdisjoint (hfirst.mentions_eq ▸ hm) hm'

end Compile

end FactModel
