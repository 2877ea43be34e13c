import FactModel.Proofs.Context.Replay
import FactModel.Proofs.Matching.Carrying
import FactModel.Proofs.Matching.Slots
set_option autoImplicit false

/-!
# Mentions that are borrowed

A clause that nothing matches may be completed with a copy of a mention of the clause before it. The
copy is bound like the mention it is a copy of, and both are carried along from there.

## Main definitions

* `FactModel.Contraction.borrowed?` — the mention that a completed clause has borrowed.
* `FactModel.Context.IsBound` — a mention has a player and a binding.
* `FactModel.Context.BoundAlike` — two mentions were bound with one key and have been carried along.

## Main results

* `FactModel.Compile.boundAlike_copyMention` — a copy is bound like its source.
* `FactModel.Compile.resolveAll_eq_ok` — the mentions of resolved clauses are all bound, and what a
  clause borrowed is bound like its source.
-/

namespace FactModel

open Attempt

/-- The mention that a clause completed on a side has borrowed. -/
def Contraction.borrowed? (side : Contraction) (c : Clause) : Option MentionId :=
  match side with
  | .left => c.mentions.head?
  | .right => c.mentions.getLast?

namespace Context

variable {x y z : Context} {n : Nat}

/-- A mention has a player and a binding. -/
structure IsBound (x : Context) (m : MentionId) : Prop where
  player : (x.mention m).player.isSome
  binding : (x.mention m).binding.isSome

/-- A bound mention is one of the context. -/
lemma IsBound.index_lt {m : MentionId} (h : x.IsBound m) : m.index < x.mentions.size :=
  index_lt_of_binding h.binding

/-- A bound mention that is carried along stays bound. -/
lemma Carries.isBound (h : x.Carries n y) {m : MentionId} (hm : m.index < n) (hx : x.IsBound m) :
    y.IsBound m where
  player := (h.continues m hm).player_eq ▸ hx.player
  binding := (h.continues m hm).isBound hx.player hx.binding

/-- Two mentions were bound with one key in the first context and carried along to the second. -/
structure BoundAlike (x y : Context) (m n : MentionId) : Prop where
  left : x.IsBound m
  right : x.IsBound n
  key_eq : x.bindingKey m = x.bindingKey n
  carries : x.Carries x.mentions.size y

namespace BoundAlike

variable {m k : MentionId}

/-- The first of two mentions that were bound alike is still bound. -/
lemma left_of_carries (h : x.BoundAlike y m k) : y.IsBound m :=
  h.carries.isBound h.left.index_lt h.left

/-- The second of two mentions that were bound alike is still bound. -/
lemma right_of_carries (h : x.BoundAlike y m k) : y.IsBound k :=
  h.carries.isBound h.right.index_lt h.right

/-- Mentions that were bound with one settled key still have that key. -/
lemma bindingKey_eq (h : x.BoundAlike y m k) (hkey : (x.bindingKey m).isSettled = true) :
    y.bindingKey m = y.bindingKey k := by
  rw [h.carries.bindingKey_eq h.left.index_lt hkey,
    h.carries.bindingKey_eq h.right.index_lt (h.key_eq ▸ hkey), h.key_eq]

/-- Mentions that were bound alike are carried along further. -/
lemma trans (h : x.BoundAlike y m k) (hyz : y.Carries y.mentions.size z) :
    x.BoundAlike z m k :=
  { h with carries := Trans.trans h.carries (hyz.mono h.carries.le_size) }

end BoundAlike

end Context

namespace Compile

open Context

variable {x y z : Context} {n : Nat} {options : MatchOptions}

/-! ## Copies -/

/-- A copy is bound like its source. -/
lemma boundAlike_copyMention {source copy : MentionId} (hx : x.Unmerged)
    (hsource : x.IsBound source)
    (h : (copyMention source).perform x = (.ok copy, y)) : y.BoundAlike y source copy := by
  have hcarries := ((leads_copyMention_carries (.refl (Nat.le_refl x.mentions.size) hx) source)
    |>.of_perform h).1
  unfold copyMention at h
  rw [perform_get_bind] at h
  obtain ⟨new, w, hnew, hrest⟩ := perform_bind_eq_ok.1 h
  obtain ⟨b, w', hbind, hpure⟩ := perform_bind_eq_ok.1 hrest
  cases hnew
  cases hpure
  obtain ⟨player, hplayer, hbind⟩ := perform_bind_mention_eq_ok.1 hbind
  have hsize := hsource.index_lt
  have hne : source ≠ ⟨x.mentions.size⟩ := by
    rintro rfl
    exact absurd hsize (Nat.lt_irrefl _)
  have hlt := lt_of_player hplayer
  have hmention := fun k => mention_bindAs hlt player k
  rw [hbind] at hmention
  have hcopied := hmention ⟨x.mentions.size⟩
  rw [if_pos rfl, mention_pushMention, if_pos rfl] at hcopied
  have hlender := hmention source
  rw [if_neg hne, mention_pushMention, if_neg hne] at hlender
  refine ⟨hcarries.isBound hsize hsource, ⟨?_, ?_⟩, ?_, .refl (Nat.le_refl _) hcarries.unmerged⟩
  · rw [hcopied]
    exact hsource.player
  · rw [hcopied]
    rfl
  · unfold bindingKey
    rw [hcopied, hlender]

/-! ## Completion -/

/-- A clause that nothing matches keeps its phrases but for the clauses nested in them. -/
lemma ends_resolve_unmatched (options : MatchOptions) (c : Clause) (x : Context) :
    (ofResolved (resolve options c)).Ends x (fun r _ => r.2 = false →
      ∃ ps, List.Forall₂ Phrase.KeepsMentions c.phrases ps ∧ r.1 = { c with phrases := ps })
      fun _ => True := by
  rw [ofResolved_resolve]
  refine ends_bind.2 ((ends_resolvePhrases_keepsMentions options c.phrases x).imp
    (fun r y hr => ?_) fun _ => id)
  exact (ends_resolveItself_keepsMentions options _ y).imp
    (fun q z hq hunmatched => ⟨r.1, hr, hq.2 hunmatched⟩) fun _ => id

/-- Whether a phrase is the slot of a mention does not depend on what is nested in it. -/
lemma isSlotOf_of_bare_eq {p q : Phrase} (h : q.bare = p.bare) (m : MentionId) :
    q.isSlotOf m = p.isSlotOf m := by
  cases p <;> cases q <;> simp_all [Phrase.bare, Phrase.isSlotOf]

/-- Phrases that keep their mentions do so without the slot of one. -/
lemma forall₂_filter_isSlotOf {ps qs : List Phrase} (h : List.Forall₂ Phrase.KeepsMentions ps qs)
    (m : MentionId) : List.Forall₂ Phrase.KeepsMentions (ps.filter (!·.isSlotOf m))
      (qs.filter (!·.isSlotOf m)) := by
  induction h with
  | nil => exact .nil
  | @cons p q ps qs h _ ih =>
    rw [List.filter_cons, List.filter_cons, isSlotOf_of_bare_eq h.bare_eq]
    split
    · exact .cons h ih
    · exact ih

/-- A mention that a clause does not have may be put in and taken out again. -/
lemma phrases_extended_filter {c : Clause} {m : MentionId} (hm : m ∉ c.mentions)
    (side : Contraction) : (c.extended side m).phrases.filter (!·.isSlotOf m) = c.phrases := by
  have hself : c.phrases.filter (!·.isSlotOf m) = c.phrases := by
    refine List.filter_eq_self.2 fun p hp => ?_
    cases p with
    | slot s =>
      have hs : s.mention ≠ m := by
        rintro rfl
        exact hm (List.mem_map.2 ⟨s, List.mem_flatMap.2 ⟨_, hp, List.mem_singleton.2 rfl⟩, rfl⟩)
      simpa [Phrase.isSlotOf] using hs
    | word text => rfl
    | comparison operator left right => rfl
  cases side with
  | left => simpa [Clause.extended, Phrase.isSlotOf] using hself
  | right => simpa [Clause.extended, Phrase.isSlotOf] using hself

/-- How the completion of a clause on one side ends: with the clause as it was, or with a clause
that has borrowed a mention of the clause before. -/
structure BorrowsFrom (previous c d : Clause) (x y : Context) (side : Contraction)
    (source copy : MentionId) (z : Context) : Prop where
  source_eq : side.source? previous = some source
  copyMention_eq : (copyMention source).perform x = (.ok copy, z)
  carries : z.Unmerged → z.Carries z.mentions.size y
  mentions_eq : d.mentions = (c.extended side copy).mentions
  allMentions_eq : d.allMentions = (c.extended side copy).allMentions
  contraction_eq : d.contraction = some side

/-- The mention that is borrowed is one of the clause before. -/
lemma BorrowsFrom.mem_mentions {previous c d : Clause} {side : Contraction}
    {source copy : MentionId} (h : BorrowsFrom previous c d x y side source copy z) :
    source ∈ previous.mentions := by
  have hsource := h.source_eq
  cases side with
  | left => exact List.mem_of_getLast? hsource
  | right => exact List.mem_of_head? hsource

/-- What completing a clause on one side comes to. -/
lemma completeOn_eq_ok {previous c d : Clause} {side : Contraction} {matched : Bool}
    (hx : x.Unmerged) (hc : ∀ m ∈ c.mentions, m.index < x.mentions.size)
    (h : (ofResolved (completeOn options previous side c)).perform x = (.ok (d, matched), y)) :
    if matched then ∃ source copy z, BorrowsFrom previous c d x y side source copy z
    else c.KeepsMentions d := by
  rw [ofResolved_completeOn] at h
  cases hsource : side.source? previous with
  | none =>
    rw [hsource] at h
    cases h
    exact .refl c
  | some source =>
    rw [hsource] at h
    obtain ⟨copy, z, hcopy, hrest⟩ := perform_bind_eq_ok.1 h
    obtain ⟨⟨e, found⟩, w, hresolve, hend⟩ := perform_bind_eq_ok.1 hrest
    dsimp only at hend
    cases found with
    | true =>
      cases hend
      have hkeeps := (ends_resolve_keepsMentions options _ z).of_perform hresolve
      refine ⟨source, copy, z, hsource, hcopy, fun hz => ?_, hkeeps.mentions_eq, ?_, rfl⟩
      · exact (((completes_carries options z.mentions.size none).leads_resolve _ (.refl
          (Nat.le_refl _) hz) (Clause.everywhere_of_forall (fun _ => trivial) _)).of_perform
            hresolve).1
      · rw [Clause.allMentions_eq]
        exact (Clause.allMentions_eq e).symm.trans hkeeps.allMentions_eq
    | false =>
      cases hend
      obtain ⟨ps, hps, heq⟩ := (ends_resolve_unmatched options _ z).of_perform hresolve rfl
      obtain rfl : e = _ := heq
      have hcopied : copy ∉ c.mentions := by
        intro hmem
        have hnew := ((leads_copyMention_carries (.refl (Nat.le_refl x.mentions.size) hx) source)
          |>.of_perform hcopy).2
        exact absurd (hc copy hmem) (Nat.not_lt.2 hnew)
      have hfilter := forall₂_filter_isSlotOf hps copy
      rw [phrases_extended_filter hcopied] at hfilter
      have hkeeps := Clause.keepsMentions_withPhrases hfilter
      cases side <;> exact hkeeps

/-- A completed clause has borrowed a mention of the clause before it, after nothing was found on
the other side or before it was tried. -/
lemma complete_eq_ok {previous c d : Clause} {side : Contraction} (hx : x.Unmerged)
    (hc : ∀ m ∈ c.mentions, m.index < x.mentions.size)
    (h : (ofResolved (complete options previous c)).perform x = (.ok (d, side), y)) :
    ∃ e w source copy z, c.KeepsMentions e ∧ (∀ n ≤ x.mentions.size, x.Carries n w) ∧
      BorrowsFrom previous e d w y side source copy z := by
  rw [ofResolved_complete] at h
  split at h
  · obtain ⟨⟨e, found⟩, w, hleft, hrest⟩ := perform_bind_eq_ok.1 h
    have hleft' := completeOn_eq_ok hx hc hleft
    have hcarries : ∀ n ≤ x.mentions.size, x.Carries n w := fun n hn =>
      (((completes_carries options n c.factType).leads_completeOn previous .left (.refl hn hx)
        (Clause.everywhere_of_forall (fun _ => trivial) c) rfl).of_perform hleft).1
    dsimp only at hrest
    cases found with
    | true =>
      cases hrest
      rw [if_pos rfl] at hleft'
      obtain ⟨source, copy, z, hborrows⟩ := hleft'
      exact ⟨c, x, source, copy, z, .refl c, fun n hn => .refl hn hx, hborrows⟩
    | false =>
      rw [if_neg Bool.false_ne_true] at hleft'
      have hw := (hcarries 0 (Nat.zero_le _)).unmerged
      have hsize := (hcarries _ (Nat.le_refl _)).le_size
      obtain ⟨⟨e', found⟩, w', hright, hend⟩ := perform_bind_eq_ok.1 hrest
      have hright' := completeOn_eq_ok hw (fun m hm => (hc m (hleft'.mentions_eq ▸ hm)).trans_le
        hsize) hright
      dsimp only at hend
      cases found with
      | true =>
        cases hend
        rw [if_pos rfl] at hright'
        obtain ⟨source, copy, z, hborrows⟩ := hright'
        exact ⟨e, w, source, copy, z, hleft', hcarries, hborrows⟩
      | false =>
        rw [if_neg Bool.false_ne_true, perform_get_bind] at hend
        cases hend
  · rw [perform_get_bind] at h
    cases h

/-! ## The clauses of a query -/

end Compile

/-- What a completed clause borrowed from the clause before it was bound like its source and has
been carried along. -/
def Context.Borrows (y : Context) (previous d : Clause) : Prop :=
  ∀ side, d.contraction = some side → ∃ source copy z, side.source? previous = some source ∧
    side.borrowed? d = some copy ∧ BoundAlike z y source copy

/-- What a clause borrowed it still has when its mentions are carried along. -/
lemma Context.Borrows.carries {y z : Context} {previous d : Clause} (h : y.Borrows previous d)
    (hyz : y.Carries y.mentions.size z) : z.Borrows previous d := by
  intro side hside
  obtain ⟨source, copy, w, hsource, hborrowed, halike⟩ := h side hside
  exact ⟨source, copy, w, hsource, hborrowed, halike.trans hyz⟩

/-- The mentions of a clause are among those at all depths. -/
lemma Clause.mentions_subset_allMentions (c : Clause) : c.mentions ⊆ c.allMentions := by
  intro m hm
  obtain ⟨s, hs, rfl⟩ := List.mem_map.1 hm
  obtain ⟨p, hp, hs⟩ := List.mem_flatMap.1 hs
  rw [c.allMentions_eq, List.mem_flatMap]
  refine ⟨p, hp, ?_⟩
  cases p with
  | word text => cases hs
  | slot t =>
    rw [List.mem_singleton.1 hs, Phrase.allSlots, Slot.all_map_mention]
    exact List.mem_cons_self
  | comparison operator left right =>
    rw [Phrase.allSlots, List.map_append, Slot.all_map_mention, Slot.all_map_mention]
    rcases List.mem_pair.1 hs with rfl | rfl
    · exact List.mem_append_left _ List.mem_cons_self
    · exact List.mem_append_right _ List.mem_cons_self

/-- The mentions of a completed clause are its own and the one put in. -/
lemma Clause.perm_allMentions_extended (c : Clause) (side : Contraction) (m : MentionId) :
    (c.extended side m).allMentions.Perm (m :: c.allMentions) := by
  have hslot : (Phrase.slot ⟨m, []⟩).allSlots.map (·.mention) = [m] := by
    rw [Phrase.allSlots, Slot.all_map_mention]
    rfl
  rw [Clause.allMentions_eq, c.allMentions_eq]
  cases side with
  | left =>
    rw [Clause.extended, List.flatMap_cons, hslot]
    rfl
  | right =>
    rw [Clause.extended, List.flatMap_append, List.flatMap_singleton, hslot]
    exact List.perm_append_singleton ..

/-- A clause extended by a mention has that mention besides its own. -/
lemma Clause.mem_allMentions_extended {c : Clause} {side : Contraction} {m n : MentionId} :
    n ∈ (c.extended side m).allMentions ↔ n = m ∨ n ∈ c.allMentions :=
  (c.perm_allMentions_extended side m).mem_iff.trans List.mem_cons

/-- What has been borrowed depends only on the mentions of the clause. -/
lemma Contraction.borrowed?_congr (side : Contraction) {c d : Clause}
    (h : d.mentions = c.mentions) : side.borrowed? d = side.borrowed? c := by
  cases side <;> simp only [borrowed?, h]

/-- A clause extended by a mention on a side has borrowed that mention on it. -/
lemma Clause.borrowed?_extended (c : Clause) (side : Contraction) (m : MentionId) :
    side.borrowed? (c.extended side m) = some m := by
  cases side with
  | left => rfl
  | right =>
    simp [Contraction.borrowed?, Clause.extended, Clause.mentions, Clause.slots, Phrase.slots]

namespace Compile

open Context

variable {x y : Context}

/-- Resolving a clause of a query leaves its mentions bound. If the clause had to be completed it
has borrowed a mention that is bound like its source. -/
theorem resolveAsked_eq_ok {contraction : Bool} {previous : Option Clause} {c d : Clause}
    (hx : x.Unmerged) (hc : ∀ m ∈ c.allMentions, x.IsBound m) (hnone : c.contraction = none)
    (hprevious : ∀ p ∈ previous, ∀ m ∈ p.mentions, x.IsBound m)
    (h : (resolveAsked contraction previous c).perform x = (.ok d, y)) :
    (∀ n ≤ x.mentions.size, x.Carries n y) ∧ c.allMentions ⊆ d.allMentions ∧
      (∀ m ∈ d.allMentions, y.IsBound m) ∧ ∀ p ∈ previous, y.Borrows p d := by
  obtain ⟨⟨e, matched⟩, w, hresolve, hrest⟩ := perform_bind_eq_ok.1 h
  have hkeeps := (ends_resolve_keepsMentions {} c x).of_perform hresolve
  have hcarries : ∀ n ≤ x.mentions.size, x.Carries n w := fun n hn =>
    (((completes_carries {} n none).leads_resolve c (.refl hn hx)
      (Clause.everywhere_of_forall (fun _ => trivial) c)).of_perform hresolve).1
  have hbound : ∀ m, x.IsBound m → w.IsBound m := fun m hm =>
    (hcarries _ (Nat.le_refl _)).isBound hm.index_lt hm
  dsimp only at hkeeps hrest
  split at hrest
  · cases hrest
    refine ⟨hcarries, hkeeps.allMentions_eq ▸ List.Subset.refl _, fun m hm => ?_,
      fun p _ side hside => ?_⟩
    · exact hbound m (hc m (hkeeps.allMentions_eq ▸ hm))
    · rw [hkeeps.contraction_eq, hnone] at hside
      cases hside
  split at hrest
  · next previous =>
    rw [← bind_pure_comp] at hrest
    obtain ⟨⟨d', side⟩, y', hcomplete, hpure⟩ := perform_bind_eq_ok.1 hrest
    cases hpure
    have hw := (hcarries 0 (Nat.zero_le _)).unmerged
    have he : ∀ m ∈ e.allMentions, w.IsBound m := fun m hm =>
      hbound m (hc m (hkeeps.allMentions_eq ▸ hm))
    obtain ⟨e', w', source, copy, z, hkeeps', hcarries', hborrows⟩ := complete_eq_ok hw
      (fun m hm => (he m (e.mentions_subset_allMentions hm)).index_lt) hcomplete
    have hsource : x.IsBound source := hprevious previous rfl source hborrows.mem_mentions
    have hxw' : ∀ n ≤ x.mentions.size, x.Carries n w' := fun n hn =>
      Trans.trans (hcarries n hn) (hcarries' n (hcarries n hn).le_size)
    have hsource' := (hxw' _ (Nat.le_refl _)).isBound hsource.index_lt hsource
    have hw' := (hxw' 0 (Nat.zero_le _)).unmerged
    have halike := boundAlike_copyMention hw' hsource' hborrows.copyMention_eq
    have hzy := hborrows.carries halike.carries.unmerged
    have hxy : ∀ n ≤ x.mentions.size, x.Carries n y := fun n hn => by
      have hwz := ((leads_copyMention_carries (.refl (hxw' n hn).le_size hw') source)
        |>.of_perform hborrows.copyMention_eq).1
      exact Trans.trans (Trans.trans (hxw' n hn) hwz : x.Carries n z) (hzy.mono hwz.le_size)
    have hmem : ∀ m, m ∈ d'.allMentions ↔ m = copy ∨ m ∈ c.allMentions := by
      intro m
      rw [hborrows.allMentions_eq, Clause.mem_allMentions_extended, hkeeps'.allMentions_eq,
        hkeeps.allMentions_eq]
    refine ⟨hxy, fun m hm => (hmem m).2 (.inr hm), fun m hm => ?_, ?_⟩
    · rcases (hmem m).1 hm with rfl | hm
      · exact (halike.trans hzy).right_of_carries
      · exact (hxy _ (Nat.le_refl _)).isBound (hc m hm).index_lt (hc m hm)
    · rintro p ⟨⟩ side' hside
      obtain rfl : side = side' := Option.some.inj (hborrows.contraction_eq.symm.trans hside)
      refine ⟨source, copy, z, hborrows.source_eq, ?_, halike.trans hzy⟩
      exact (side.borrowed?_congr hborrows.mentions_eq).trans (e'.borrowed?_extended side copy)
  · rw [perform_get_bind] at hrest
    cases hrest

/-- The clauses of a query are resolved with all their mentions bound, and those that had to be
completed have borrowed mentions that are bound like their sources.

**Proof sketch.** By induction on the clauses. What holds of a clause when it has been resolved is
carried along while the clauses behind it are. -/
theorem resolveAll_eq_ok {contraction : Bool} {previous : Option Clause} {cs ds : List Clause}
    (hx : x.Unmerged) (hcs : ∀ m ∈ allMentions cs, x.IsBound m)
    (hnone : ∀ c ∈ cs, c.contraction = none)
    (hprevious : ∀ p ∈ previous, ∀ m ∈ p.mentions, x.IsBound m)
    (h : (resolveAll contraction previous cs).perform x = (.ok ds, y)) :
    (∀ n ≤ x.mentions.size, x.Carries n y) ∧ allMentions cs ⊆ allMentions ds ∧
      (∀ m ∈ allMentions ds, y.IsBound m) ∧ (previous.toList ++ ds).IsChain y.Borrows := by
  induction cs generalizing previous x ds with
  | nil =>
    cases h
    refine ⟨fun n hn => .refl hn hx, List.Subset.refl _, hcs, ?_⟩
    cases previous <;> simp
  | cons c cs ih =>
    obtain ⟨d, z, hfirst, hrest⟩ := perform_bind_eq_ok.1 h
    obtain ⟨es, z', hothers, hpure⟩ := perform_bind_eq_ok.1 hrest
    cases hpure
    rw [allMentions_cons] at hcs ⊢
    rw [allMentions_cons]
    obtain ⟨hxz, hsubset, hbound, hborrows⟩ := resolveAsked_eq_ok hx
      (fun m hm => hcs m (List.mem_append_left _ hm)) (hnone c List.mem_cons_self) hprevious hfirst
    have hz := (hxz 0 (Nat.zero_le _)).unmerged
    have hstill : ∀ m, x.IsBound m → z.IsBound m := fun m hm =>
      (hxz _ (Nat.le_refl _)).isBound hm.index_lt hm
    obtain ⟨hzy, hsubset', hbound', hchain⟩ := ih hz
      (fun m hm => hstill m (hcs m (List.mem_append_right _ hm)))
      (fun e he => hnone e (List.mem_cons_of_mem c he))
      (fun p hp m hm => by
        cases hp
        exact hbound m (d.mentions_subset_allMentions hm)) hothers
    have hlast : ∀ m, z.IsBound m → y.IsBound m := fun m hm =>
      (hzy _ (Nat.le_refl _)).isBound hm.index_lt hm
    refine ⟨fun n hn => Trans.trans (hxz n hn) (hzy n (hxz n hn).le_size), fun m hm => ?_,
      fun m hm => ?_, ?_⟩
    · exact List.mem_append.2 ((List.mem_append.1 hm).imp (hsubset ·) (hsubset' ·))
    · rcases List.mem_append.1 hm with hm | hm
      · exact hlast m (hbound m hm)
      · exact hbound' m hm
    · cases previous with
      | none => exact hchain
      | some p =>
        refine List.isChain_cons_cons.2 ⟨(hborrows p rfl).carries (hzy _ (Nat.le_refl _)), hchain⟩

end Compile

end FactModel
