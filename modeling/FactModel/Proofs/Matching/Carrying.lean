import FactModel.Proofs.Context.Merging
import FactModel.Proofs.Matching.Operations
import FactModel.Proofs.Matching.Ranking
import FactModel.Proofs.Matching.Through
set_option autoImplicit false

/-!
# Mentions that are carried along

What a mention is about never changes once its player is known, and a bound mention stays bound. It
may lose adjectives but it gains none. So a mention without adjectives, or one whose key is made of
a role name, has the same key for ever.

## Main definitions

* `FactModel.Mention.Continues` — a mention has become another one about the same.
* `FactModel.Context.Carries` — the first so many mentions of a context have been carried along, and
  no bindings have been merged.
* `FactModel.BindingKey.isSettled` — a key that no adjectives are part of.

## Main results

* `FactModel.Context.Carries.bindingKey_eq` — settled keys stay.
* `FactModel.Compile.leads_bind_carries`, `FactModel.Compile.leads_rebind_carries` — binding a
  mention carries all others along, and itself.
-/

namespace FactModel

open Attempt

/-! ## Bindings of mentions -/

namespace Context

variable {x y z : Context}

/-- A mention that has a binding is one of the context. -/
lemma index_lt_of_binding {m : MentionId} (h : (x.mention m).binding.isSome) :
    m.index < x.mentions.size := by
  refine Decidable.of_not_not fun hm => ?_
  rw [mention_of_not_lt hm] at h
  cases h

/-- Binding a mention tells it its binding, and no other mention anything. -/
lemma mention_bindAs {m : MentionId} (hm : m.index < x.mentions.size) (player : ObjectTypeId)
    (n : MentionId) :
    (x.bindAs m player).2.mention n =
      if n = m then { x.mention m with binding := some (x.bindAs m player).1 }
      else x.mention n := by
  rw [bindAs]
  split
  · exact mention_enlist hm _ n
  · exact mention_enlist (x := x.pushBinding ..) hm _ n

/-- Binding a mention changes nothing of mentions but their bindings. -/
lemma mention_bindAs_apply {α : Type} (field : Mention → α)
    (h : ∀ mention binding, field { mention with binding } = field mention) (m : MentionId)
    (player : ObjectTypeId) (n : MentionId) :
    field ((x.bindAs m player).2.mention n) = field (x.mention n) := by
  rw [bindAs]
  split <;> exact mention_modifyMention_apply field m (fun mention => h mention _) n

/-- Taking a mention out of its binding tells no other mention anything. -/
lemma mention_unbind (m n : MentionId) :
    (x.unbind m).mention n = if n = m then { x.mention m with binding := none }
      else x.mention n := by
  have hnone : (x.mention m).binding = none → { x.mention m with binding := none } =
      x.mention m := fun h => by rw [← h]
  rw [unbind]
  split
  · next h =>
    rw [hnone h]
    split
    · next hn => rw [hn]
    · rfl
  · next b hb =>
    rw [mention_strike, mention_modifyMention]
    have hm := index_lt_of_binding (x := x) (m := m) (hb ▸ rfl)
    simp only [hm, and_true]

/-- Binding a mention adds no mention. -/
lemma size_bindAs (m : MentionId) (player : ObjectTypeId) :
    (x.bindAs m player).2.mentions.size = x.mentions.size := by
  rw [bindAs]
  split <;> exact Array.size_modify ..

/-- Taking a mention out of its binding adds no mention. -/
lemma size_unbind (m : MentionId) : (x.unbind m).mentions.size = x.mentions.size := by
  rw [unbind]
  split
  · rfl
  · rw [strike]
    split
    · exact Array.size_modify ..
    · dsimp only
      split <;> exact Array.size_modify ..

/-! ## Contexts without merges -/

/-- Nothing is merged if every binding is rebound to what one was rebound to before. -/
lemma Unmerged.of_binding? (h : x.Unmerged)
    (hbinding : ∀ b, ∀ B ∈ y.binding? b, B.reboundTo = none ∨ ∃ c, ∃ C ∈ x.binding? c,
      C.reboundTo = B.reboundTo) : y.Unmerged := by
  intro b B hB
  rcases hbinding b B hB with hnone | ⟨c, C, hC, heq⟩
  · exact hnone
  · rw [← heq, h c C hC]

/-- A change of a binding that does not rebind it merges nothing. -/
lemma Unmerged.modifyBinding (h : x.Unmerged) (b : BindingId) {change : Binding → Binding}
    (hchange : ∀ B, (change B).reboundTo = B.reboundTo) : (x.modifyBinding b change).Unmerged := by
  refine h.of_binding? fun c C hC => .inr ?_
  rw [binding?_modifyBinding] at hC
  split at hC
  · obtain ⟨B, hB, rfl⟩ := Option.map_eq_some_iff.1 hC
    exact ⟨b, B, hB, (hchange B).symm⟩
  · exact ⟨c, C, hC, rfl⟩

/-- Adding a mention to a binding merges nothing. -/
lemma Unmerged.enlist (h : x.Unmerged) (m : MentionId) (b : BindingId) :
    (x.enlist m b).Unmerged :=
  Unmerged.modifyBinding h b fun B => by split <;> rfl

/-- Binding a mention merges nothing. -/
lemma Unmerged.bindAs (h : x.Unmerged) (m : MentionId) (player : ObjectTypeId) :
    (x.bindAs m player).2.Unmerged := by
  rw [Context.bindAs]
  split
  · exact h.enlist m _
  · refine Unmerged.enlist (h.of_binding? fun c C hC => ?_) m _
    rw [binding?_pushBinding] at hC
    split at hC
    · cases hC
      exact .inl rfl
    · exact .inr ⟨c, C, hC, rfl⟩

/-- Taking a mention out of its binding merges nothing. -/
lemma Unmerged.unbind (h : x.Unmerged) (m : MentionId) : (x.unbind m).Unmerged := by
  rw [Context.unbind]
  split
  · exact h
  next b _ =>
  rw [strike]
  split
  · exact h
  dsimp only
  split
  · refine h.of_binding? fun c C hC => ?_
    rw [binding?_dropBinding] at hC
    split at hC
    · cases hC
    · exact .inr ⟨c, C, hC, rfl⟩
  · exact Unmerged.modifyBinding h b fun _ => rfl

end Context

/-! ## Mentions about the same -/

/-- A mention has become another one about the same: it has gained no adjectives, and it is still
bound if it was. -/
structure Mention.Continues (m n : Mention) : Prop where
  term_eq : n.term = m.term
  roleName_eq : n.roleName = m.roleName
  literal_eq : n.literal = m.literal
  player_eq : n.player = m.player
  playerByRoleName_eq : n.playerByRoleName = m.playerByRoleName
  quantifier_eq : n.quantifier = m.quantifier
  leading_eq_none : m.leading = none → n.leading = none
  trailing_eq_none : m.trailing = none → n.trailing = none
  isBound : m.player.isSome → m.binding.isSome → n.binding.isSome

namespace Mention.Continues

variable {m n k : Mention}

/-- A mention continues itself. -/
lemma refl (m : Mention) : m.Continues m :=
  ⟨rfl, rfl, rfl, rfl, rfl, rfl, id, id, fun _ => id⟩

/-- Continuing mentions go on continuing. -/
lemma trans (h : m.Continues n) (h' : n.Continues k) : m.Continues k where
  term_eq := h'.term_eq.trans h.term_eq
  roleName_eq := h'.roleName_eq.trans h.roleName_eq
  literal_eq := h'.literal_eq.trans h.literal_eq
  player_eq := h'.player_eq.trans h.player_eq
  playerByRoleName_eq := h'.playerByRoleName_eq.trans h.playerByRoleName_eq
  quantifier_eq := h'.quantifier_eq.trans h.quantifier_eq
  leading_eq_none hm := h'.leading_eq_none (h.leading_eq_none hm)
  trailing_eq_none hm := h'.trailing_eq_none (h.trailing_eq_none hm)
  isBound hplayer hm := h'.isBound (h.player_eq ▸ hplayer) (h.isBound hplayer hm)

end Mention.Continues

/-- Whether no adjectives are part of a key. -/
def BindingKey.isSettled : BindingKey → Bool
  | role .. => true
  | adjectival leading _ trailing _ => leading.isNone && trailing.isNone

namespace Context

variable {x y z : Context} {n : Nat}

/-- The first so many mentions of a context have been carried along. Types have kept their names,
and no bindings have been merged. -/
structure Carries (n : Nat) (x y : Context) : Prop where
  le_size : n ≤ y.mentions.size
  nameOf_eq : ∀ t, y.vocabulary.nameOf t = x.vocabulary.nameOf t
  continues : ∀ m : MentionId, m.index < n → (x.mention m).Continues (y.mention m)
  unmerged : y.Unmerged

instance : Trans (Carries n) (Carries n) (Carries n) where
  trans h h' := ⟨h'.le_size, fun t => (h'.nameOf_eq t).trans (h.nameOf_eq t),
    fun m hm => (h.continues m hm).trans (h'.continues m hm), h'.unmerged⟩

namespace Carries

/-- A context in which nothing is merged carries its mentions along to itself. -/
lemma refl (hsize : n ≤ x.mentions.size) (hx : x.Unmerged) : x.Carries n x :=
  ⟨hsize, fun _ => rfl, fun _ _ => .refl _, hx⟩

/-- What has been carried along is carried along further. -/
lemma refl_right (h : x.Carries n y) : y.Carries n y :=
  .refl h.le_size h.unmerged

/-- Where so many mentions are carried along, fewer are too. -/
lemma mono (h : x.Carries n y) {k : Nat} (hk : k ≤ n) : x.Carries k y where
  le_size := hk.trans h.le_size
  nameOf_eq := h.nameOf_eq
  continues m hm := h.continues m (hm.trans_le hk)
  unmerged := h.unmerged

/-- A key of which no adjectives are part stays. -/
theorem bindingKey_eq (h : x.Carries n y) {m : MentionId} (hm : m.index < n)
    (hkey : (x.bindingKey m).isSettled = true) : y.bindingKey m = x.bindingKey m := by
  have hc := h.continues m hm
  have hadjectives : (BindingKey.adjectival (x.mention m).leading (x.mention m).term
      (x.mention m).trailing (x.mention m).literal).isSettled = true →
      (y.mention m).leading = (x.mention m).leading ∧
        (y.mention m).trailing = (x.mention m).trailing := by
    intro hnone
    simp only [BindingKey.isSettled, Bool.and_eq_true, Option.isNone_iff_eq_none] at hnone
    rw [hc.leading_eq_none hnone.1, hc.trailing_eq_none hnone.2, hnone.1, hnone.2]
    exact ⟨rfl, rfl⟩
  unfold bindingKey at hkey ⊢
  dsimp only at hkey ⊢
  simp only [hc.term_eq, hc.roleName_eq, hc.literal_eq, hc.player_eq, hc.playerByRoleName_eq,
    h.nameOf_eq]
  split at hkey
  · rfl
  · rfl
  · rw [(hadjectives hkey).1, (hadjectives hkey).2]

end Carries

end Context

/-! ## Binding mentions -/

namespace Compile

open Context

variable {x y : Context} {n : Nat}

/-- Binding a mention fails just in case it has no player, and then it changes nothing. -/
lemma ends_bind_mention {m : MentionId} {ok : BindingId → Context → Prop}
    {failed : Context → Prop} :
    (Compile.bind m).Ends x ok failed ↔
      match (x.mention m).player with
      | some player => ok (x.bindAs m player).1 (x.bindAs m player).2
      | none => failed x := by
  rw [Compile.bind, ends_bind, playerOf, ends_bind, ends_get, ends_ofExcept, Context.playerOf]
  cases (x.mention m).player <;> rfl

/-- Binding a mention leaves it bound, if anything. -/
lemma leads_bind_carries (hx : x.Carries n x) (m : MentionId) :
    (Compile.bind m).Leads (Carries n) x fun _ y => (y.mention m).binding.isSome := by
  refine ends_bind_mention.2 ?_
  split
  · next player hplayer =>
    have hm := lt_of_player hplayer
    refine ⟨⟨(size_bindAs m player).symm ▸ hx.le_size, fun _ => ?_, fun k _ => ?_,
      hx.unmerged.bindAs m player⟩, ?_⟩
    · rw [vocabulary_bindAs]
    · rw [mention_bindAs hm]
      split
      · next hk =>
        rw [hk]
        exact ⟨rfl, rfl, rfl, rfl, rfl, rfl, id, id, fun _ _ => rfl⟩
      · exact .refl _
    · dsimp only
      rw [mention_bindAs hm, if_pos rfl]
      rfl
  · exact hx

/-- A mention that is bound anew is still bound, unless it has no player. -/
lemma leads_rebind_carries (hx : x.Carries n x) (m : MentionId) :
    (rebind m).Leads (Carries n) x fun _ y => y.Carries n y := by
  have hunbound : ∀ k : MentionId, ((x.unbind m).mention k).player = (x.mention k).player := by
    intro k
    rw [mention_unbind]
    split
    · next hk => rw [hk]
    · rfl
  have hsize := size_unbind (x := x) m
  have hunmerged := hx.unmerged.unbind m
  refine ends_bind.2 (ends_modify.2 (ends_bind_mention.2 ?_))
  rw [hunbound]
  split
  · next player hplayer =>
    have hm : m.index < (x.unbind m).mentions.size := hsize ▸ lt_of_player hplayer
    have hcarries : x.Carries n ((x.unbind m).bindAs m player).2 := by
      refine ⟨(size_bindAs m player).symm ▸ hsize.symm ▸ hx.le_size, fun _ => ?_, fun k _ => ?_,
        hunmerged.bindAs m player⟩
      · rw [vocabulary_bindAs, vocabulary_unbind]
      · rw [mention_bindAs hm, mention_unbind, mention_unbind, if_pos rfl]
        split
        · next hk =>
          rw [hk]
          exact ⟨rfl, rfl, rfl, rfl, rfl, rfl, id, id, fun _ _ => rfl⟩
        · exact .refl _
    exact ⟨hcarries, hcarries.refl_right⟩
  · next hplayer =>
    refine ⟨hsize.symm ▸ hx.le_size, fun _ => ?_, fun k _ => ?_, hunmerged⟩
    · rw [vocabulary_unbind]
    · rw [mention_unbind]
      split
      · next hk =>
        subst hk
        exact ⟨rfl, rfl, rfl, rfl, rfl, rfl, id, id, fun h => absurd h (by simp [hplayer])⟩
      · exact .refl _

end Compile

/-! ## Matching -/

/-- Where no leading adjective is explicit none is left over. -/
lemma walkLeading_nil {m : MentionId} {wanted : List String} {position : Nat}
    {intervening : List String} {residual : Option String} {absorbed : List Nat}
    (h : walkLeading m wanted [] position intervening = .ok (residual, absorbed)) :
    residual = none := by
  unfold walkLeading at h
  split at h
  · split at h
    · cases h
      simp [Adjective.ofWords]
    · cases h
  · dsimp only at h
    generalize (if intervening.isPrefixOf wanted then intervening else splitHyphens intervening) =
      words at h
    split at h
    · cases h
      rfl
    · cases h

/-- Where no trailing adjective is explicit none is left over. -/
lemma walkTrailing_nil {m : MentionId} {wanted : List String} {rest : List Phrase}
    {residual : Option String} {taken : Nat}
    (h : walkTrailing m wanted [] rest = .ok (residual, taken)) : residual = none := by
  unfold walkTrailing at h
  split at h
  · split at h
    · cases h
      simp [Adjective.ofWords]
    · cases h
  · dsimp only at h
    split at h
    · cases h
      rfl
    · cases h

namespace Context

variable {x y : Context} {n : Nat} {options : MatchOptions}

/-- Of a mention without adjectives none are left over. -/
lemma Walks.residual_eq_none {refs : List RoleRef} {tokens : List Template.Token}
    {mayNegate : Bool} {place : ClausePlace} {placements : List Placement} {negation : Option Nat}
    (h : Walks x options refs tokens mayNegate place placements negation) {p : Placement}
    (hp : p ∈ placements) :
    ((x.mention p.mention).leading = none → p.residualLeading = none) ∧
      ((x.mention p.mention).trailing = none → p.residualTrailing = none) := by
  induction h with
  | nil => cases hp
  | word _ ih => exact ih hp
  | negated _ _ ih => exact ih hp
  | place _ _ hrole _ ih =>
    rcases List.mem_cons.1 hp with rfl | hp
    · obtain ⟨_, _, _, _, -, hleading, htrailing, rfl, -⟩ := walkRole_eq_ok hrole
      refine ⟨fun hnone => ?_, fun hnone => ?_⟩
      · dsimp only at hnone
        rw [hnone] at hleading
        exact walkLeading_nil hleading
      · dsimp only at hnone
        rw [hnone] at htrailing
        exact walkTrailing_nil htrailing
    · exact ih hp

/-- The second context carries on a given one, whatever the first one is. -/
def CarriesOn (n : Nat) (x : Context) (_ y : Context) : Prop :=
  x.Carries n y

instance : Trans (CarriesOn n x) (CarriesOn n x) (CarriesOn n x) :=
  ⟨fun _ h => h⟩

/-- A mention may change if it continues what it was. -/
lemma Carries.modifyMention (h : x.Carries n y) (m : MentionId) {change : Mention → Mention}
    (hchange : m.index < n → (x.mention m).Continues (change (y.mention m))) :
    x.Carries n (y.modifyMention m change) where
  le_size := (Array.size_modify ..).symm ▸ h.le_size
  nameOf_eq := h.nameOf_eq
  continues k hk := by
    rw [mention_modifyMention]
    split
    · next hkm =>
      rw [hkm.1]
      exact hchange (hkm.1 ▸ hk)
    · exact h.continues k hk
  unmerged := h.unmerged

end Context

namespace Compile

open Context

variable {x y : Context} {n : Nat}

/-- Giving a mention its role carries it along, if of a mention without adjectives none are left
over. -/
lemma leads_applyPlacement_carries (h : x.Carries n y) (s : RoleSequenceId) {p : Placement}
    (hp : ((x.mention p.mention).leading = none → p.residualLeading = none) ∧
      ((x.mention p.mention).trailing = none → p.residualTrailing = none)) :
    (applyPlacement s p).Leads (CarriesOn n x) y fun _ z => x.Carries n z := by
  have hplaced : x.Carries n (y.modifyMention p.mention fun m =>
      { m with
        role := some p.role, roleRef := some (s, p.roleRef)
        leading := p.residualLeading, trailing := p.residualTrailing
        residualLeading := p.residualLeading, residualTrailing := p.residualTrailing }) :=
    h.modifyMention p.mention fun hm =>
      { h.continues p.mention hm with leading_eq_none := hp.1, trailing_eq_none := hp.2 }
  refine leads_get_bind (leads_modify_bind hplaced (leads_get_bind ?_))
  dsimp only
  split
  · refine Leads.bind ((leads_rebind_carries hplaced.refl_right p.mention).weaken
      fun z hz => (Trans.trans hplaced hz : x.Carries n z)) fun _ z hz _ => ?_
    exact leads_pure hz hz
  · exact leads_pure hplaced hplaced

/-- Resolving a clause whose nested clauses are resolved carries all mentions along. -/
lemma leads_resolveFlat_carries (hx : x.Carries n x) (options : MatchOptions) (c : Clause) :
    (resolveFlat options c).Leads (Carries n) x fun _ _ => True := by
  unfold resolveFlat
  split
  · next operator left right _ =>
    refine Leads.map ?_
    refine Leads.bind (leads_playerOf hx) fun leftPlayer y _ hy => ?_
    obtain ⟨rfl, -⟩ := hy
    refine Leads.bind (leads_playerOf hx) fun rightPlayer y _ hy => ?_
    obtain ⟨rfl, -⟩ := hy
    have hedit : (edit (Vocabulary.comparisonFactType operator leftPlayer rightPlayer)).Leads
        (Carries n) y fun _ _ => True :=
      Leads.within (Vocabulary.leads_comparisonFactType_nameOf operator leftPlayer rightPlayer _)
        (fun v hname => ⟨hx.le_size, hname, fun _ _ => .refl _, hx.unmerged⟩) fun _ _ _ _ => trivial
    refine Leads.bind hedit fun f z hz _ => leads_get_bind ?_
    refine Leads.bind (Leads.forM hz.refl_right fun item _ w hw => ?_) fun _ w hw _ =>
      leads_pure hw.refl_right trivial
    have hrole : ∀ role roleRef,
      w.Carries n (w.modifyMention item.1.1 ({ · with role, roleRef })) :=
      fun _ _ => hw.refl_right.modifyMention item.1.1 fun _ => { Mention.Continues.refl _ with }
    exact leads_modify (hrole _ _) (hrole _ _).refl_right
  · refine leads_get_bind ?_
    split
    · exact leads_pure hx trivial
    · refine leads_get_bind (leads_ofExcept_bind hx fun a hselect => ?_)
      cases a with
      | none => exact leads_pure hx trivial
      | some a =>
        have hwalks := (align_eq_ok_iff.1 (mem_rank.1 (mem_of_select hselect)).2).2.1
        have hplaced : (a.placements.reverse.forM (applyPlacement a.roleSequence)).Leads
            (CarriesOn n x) x fun _ _ => True :=
          Leads.forM hx fun p hp y hy => leads_applyPlacement_carries hy a.roleSequence
            (hwalks.residual_eq_none (List.mem_reverse.1 hp))
        refine Leads.map (Leads.bind (hplaced.weaken fun y hy => hy) fun _ y hy _ => ?_)
        exact leads_pure hy.refl_right trivial

/-- Copying a mention adds one behind those that are carried along. -/
lemma leads_copyMention_carries (hx : x.Carries n x) (source : MentionId) :
    (copyMention source).Leads (Carries n) x fun copy _ => n ≤ copy.index := by
  refine leads_get_bind ?_
  have hpush : ∀ mention : Mention, x.Carries n (x.pushMention mention) := fun mention => by
    refine ⟨hx.le_size.trans ?_, fun _ => rfl, fun m hm => ?_, hx.unmerged⟩
    · rw [pushMention, Array.size_push]
      exact Nat.le_succ _
    · rw [mention_pushMention, if_neg]
      · exact .refl _
      · rintro rfl
        exact absurd hm (Nat.not_lt.2 hx.le_size)
  exact leads_extend_bind (hpush _) (Leads.bind (leads_bind_carries (hpush _).refl_right _)
    fun _ y hy _ => leads_pure hy.refl_right hx.le_size)

/-- Taking a mention out of its binding carries along those before it. -/
lemma carries_unbind (hx : x.Carries n x) {m : MentionId} (hm : n ≤ m.index) :
    x.Carries n (x.unbind m) where
  le_size := size_unbind (x := x) m ▸ hx.le_size
  nameOf_eq _ := by rw [vocabulary_unbind]
  continues k hk := by
    rw [mention_unbind, if_neg]
    · exact .refl _
    · rintro rfl
      exact absurd hk (Nat.not_lt.2 hm)
  unmerged := hx.unmerged.unbind m

end Compile

open Compile in
/-- Resolution and completion carry along all mentions that were there before. -/
theorem completes_carries (options : MatchOptions) (n : Nat) (f : Option FactTypeId) :
    Completes options (Context.Carries n) (fun _ _ => True) f (n ≤ ·.index) where
  refl h := h.refl_right
  mono _ _ := trivial
  bare _ _ := trivial
  flat {_ c} h _ := (leads_resolveFlat_carries h options c).imp fun _ _ _ _ _ _ => trivial
  copy m h := leads_copyMention_carries h m
  unbind _ hm h := carries_unbind h hm
  extended _ _ _ := trivial
  without _ _ _ := trivial
  contraction _ _ := trivial

end FactModel
