import FactModel.Proofs.Definition.Following
import FactModel.Proofs.Matching.ExactTypes
import FactModel.Proofs.Session.Players
set_option autoImplicit false

/-!
# Mentions in roles of their players

A clause that states a reading is matched with exact types, so that its mentions get roles that
their own players play. The roles of a new fact type are made for the players of mentions, and a
mention that stands for a role of a mention it shares a binding with has the same player. So the
roles that a reading refers to are played by the players of the mentions in their places.

## Main definitions

* `FactModel.Context.PlaysOwn` — mentions have roles that their own players play.
* `FactModel.Context.GivesOwn` — only such roles have been given.
* `FactModel.Context.WellCast` — a context of mentions that agree about players and have such roles.

## Main results

* `FactModel.Context.WellCast.player_of_roleFor?` — the role that a mention stands for is played by
  its player.
* `FactModel.Compile.leads_resolveAllStated_givesOwn`, `FactModel.Compile.givesOwn_statedFactType`,
  `FactModel.Compile.givesOwn_makeReading`, `FactModel.Compile.givesOwn_adjust` — the steps of a
  definition give only such roles.
* `FactModel.Compile.voices_makeReading` — a clause that becomes a reading voices it.
-/

namespace FactModel

open Attempt

namespace Context

variable {x y z : Context} {f : FactTypeId} {m : MentionId}

/-! ## Roles that players play -/

/-- Wherever a mention has a role of a fact type that clauses state, its player plays the role. -/
def PlaysOwn (x : Context) : Prop :=
  ∀ m, ∀ r ∈ (x.mention m).role,
    (x.vocabulary.factType (x.vocabulary.role r).factType).isStated →
      (x.mention m).player = some (x.vocabulary.playerOf r)

/-- A context has become another one, in which mentions have the players that they had, and if
mentions had roles that their players play they still do. -/
structure GivesOwn (x y : Context) : Prop extends Extends x y where
  player_eq : ∀ m, (y.mention m).player = (x.mention m).player
  playsOwn : x.PlaysOwn → y.PlaysOwn

instance : Trans GivesOwn GivesOwn GivesOwn where
  trans h h' := ⟨Trans.trans h.toExtends h'.toExtends,
    fun m => (h'.player_eq m).trans (h.player_eq m), fun hx => h'.playsOwn (h.playsOwn hx)⟩

/-- A mention may be given a role that its player plays, if it is given any. -/
lemma Extends.givesOwn (h : x.Extends y) (hx : x.Valid)
    (hplayer : ∀ m, (y.mention m).player = (x.mention m).player)
    (hrole : ∀ m, (y.mention m).role = (x.mention m).role ∨ ∀ r ∈ (y.mention m).role,
      (y.vocabulary.factType (y.vocabulary.role r).factType).isStated →
        (x.mention m).player = some (y.vocabulary.playerOf r)) : x.GivesOwn y where
  toExtends := h
  player_eq := hplayer
  playsOwn hown m r hr hstated := by
    rw [hplayer]
    rcases hrole m with hsame | hgiven
    · rw [hsame] at hr
      have hmem := hx.role_mem m r hr
      have hfactType := hx.consistent.role_factType_mem hmem
      rw [(h.grows.role hmem).factType_eq, FactType.isStated, (h.grows.factType hfactType).kind_eq]
        at hstated
      rw [h.grows.playerOf_eq hmem]
      exact hown m r hr hstated
    · exact hgiven r hr hstated

/-- A valid context that does not change gives mentions only roles that their players play. -/
lemma Valid.givesOwn (h : x.Valid) : x.GivesOwn x :=
  h.extends.givesOwn h (fun _ => rfl) fun _ => .inl rfl

/-- A context that has been given such roles does so further. -/
lemma GivesOwn.refl_right (h : x.GivesOwn y) : y.GivesOwn y :=
  h.valid.givesOwn

/-- Mentions agree about their players as long as they are about the same. -/
lemma PlayersAgree.later (h : x.PlayersAgree)
    (hplayer : ∀ m, (y.mention m).player = (x.mention m).player)
    (hcarries : x.Carries x.mentions.size y) : y.PlayersAgree := by
  have htitle : ∀ m, ∀ t ∈ (x.mention m).player, (y.mention m).title = (x.mention m).title := by
    intro m t ht
    have hcontinues := hcarries.continues m (lt_of_player ht)
    unfold Mention.title Mention.declaredName?
    rw [hcontinues.term_eq, hcontinues.roleName_eq, hcontinues.playerByRoleName_eq]
  intro m n t ht u hu hsame
  rw [hplayer] at ht hu
  rw [htitle m t ht, htitle n u hu] at hsame
  exact h m n t ht u hu hsame

/-- A valid context without merged bindings, in which mentions called by the same have the same
player and have roles that their players play. -/
structure WellCast (x : Context) : Prop where
  valid : x.Valid
  bound : x.Bound
  unmerged : x.Unmerged
  agree : x.PlayersAgree
  playsOwn : x.PlaysOwn

/-- A well cast context sustains its mentions. -/
lemma WellCast.sustains (h : x.WellCast) : x.Sustains x.mentions.size x :=
  ⟨.refl (Nat.le_refl _) h.unmerged, h.bound⟩

/-- A well cast context stays so when mentions are given roles that their players play and are
sustained. -/
lemma WellCast.later (h : x.WellCast) (hgives : x.GivesOwn y)
    (hsustains : x.Sustains x.mentions.size y) : y.WellCast where
  valid := hgives.valid
  bound := hsustains.bound
  unmerged := hsustains.carries.unmerged
  agree := h.agree.later hgives.player_eq hsustains.carries
  playsOwn := hgives.playsOwn h.playsOwn

/-! ## Roles that mentions stand for -/

/-- **Mentions stand for roles of their players.** The role of a stated fact type that a bound
mention stands for is played by its player.

**Proof sketch.** The role is the mention's own, or that of a mention that it shares a binding with,
which has the same player; or else a reading gives it to the player. -/
theorem WellCast.player_of_roleFor? (hx : x.WellCast) (hstated : (x.vocabulary.factType f).isStated)
    (hm : x.IsBound m) {taken : List RoleId} {r : RoleId} (h : x.roleFor? m f taken = some r) :
    (x.mention m).player = some (x.vocabulary.playerOf r) := by
  have havailable : ∀ r, x.isAvailable f taken r →
      (x.vocabulary.factType (x.vocabulary.role r).factType).isStated := by
    intro r hr
    have hfactType : (x.vocabulary.role r).factType = f :=
      of_decide_eq_true (Bool.and_eq_true_iff.1 hr).1
    rw [hfactType]
    exact hstated
  rcases hrole : (x.mention m).role.filter (x.isAvailable f taken) with _ | q
  · rcases hbinding : x.roleByBinding? m (x.isAvailable f taken) with _ | q
    · have hreading : x.roleByReading? m f (x.isAvailable f taken) = some r := by
        rw [roleFor?, hrole, hbinding] at h
        exact h
      obtain ⟨ref, hfind, rfl⟩ := Option.map_eq_some_iff.1 hreading
      have hwanted := List.find?_some hfind
      simp only [Bool.and_eq_true, decide_eq_true_eq] at hwanted
      exact hwanted.1.1.2.symm
    · obtain rfl : q = r := by
        rw [roleFor?, hrole, hbinding] at h
        exact Option.some.inj h
      obtain ⟨B, hB, hfind⟩ := Option.bind_eq_some_iff.1 hbinding
      obtain ⟨b, hb, hB⟩ := Option.bind_eq_some_iff.1 hB
      obtain ⟨sibling, hsibling, hq⟩ := List.mem_filterMap.1 (List.mem_of_find?_eq_some hfind)
      have hplayer := hx.playsOwn sibling q hq (havailable q (List.find?_some hfind))
      obtain ⟨B', hB', hmem⟩ := (hx.bound.binding_iff m b).1 hb
      obtain rfl := Option.some.inj (hB.symm.trans hB')
      obtain ⟨t, ht⟩ := Option.isSome_iff_exists.1 hm.player
      have hkey := (hx.bound.bindingKey_eq hB hmem).trans (hx.bound.bindingKey_eq hB hsibling).symm
      rw [ht, hx.agree.eq_of_bindingKey_eq ht hplayer hkey]
  · obtain rfl : q = r := by
      rw [roleFor?, hrole] at h
      exact Option.some.inj h
    obtain ⟨hq, hwanted⟩ := Option.filter_eq_some_iff.1 hrole
    exact hx.playsOwn m q hq (havailable q hwanted)

end Context

open Context

/-- A comparison is no fact type that clauses state. -/
lemma Vocabulary.ends_comparisonFactType_isStated {v : Vocabulary} (hv : v.Consistent)
    (operator : String) (left right : ObjectTypeId) :
    (comparisonFactType operator left right).Ends v (fun f w => (w.factType f).isStated = false)
      fun _ => True := by
  refine ends_bind.2 (ends_get.2 ?_)
  split
  · next existing hlookup =>
    obtain ⟨-, hkind, -⟩ := (hv.comparisons_iff operator left right existing).1 hlookup
    rw [ends_pure, FactType.isStated, hkind]
  · refine ends_bind.2 ((ends_of_perform (perform_addBinary ..)).2 ?_)
    refine ends_bind.2 (ends_modify.2 ((ends_pure _).2 ?_))
    have hfactType := (v.factType_withBinary (.comparison operator) left right
      ("\x7b0\x7d " ++ operator ++ " \x7b1\x7d") ⟨v.factTypes.size⟩).trans (if_pos rfl)
    exact congrArg FactType.isStated hfactType

namespace Compile

variable {x y z : Context} {f : FactTypeId} {c d : Clause} {cs ds : List Clause}

/-! ## Resolving -/

/-- Binding a mention anew changes nothing of mentions but their bindings. -/
lemma leads_rebind_apply {α : Type} (field : Mention → α)
    (hfield : ∀ mention binding, field { mention with binding } = field mention) (m : MentionId)
    (x : Context) : (rebind m).Leads
      (fun x y => ∀ n, field (y.mention n) = field (x.mention n)) x fun _ _ => True := by
  have hunbind : ∀ n, field ((x.unbind m).mention n) = field (x.mention n) := by
    intro n
    rw [mention_unbind]
    split
    · next hn => rw [hn, hfield]
    · rfl
  refine ends_bind.2 (ends_modify.2 (ends_bind_mention.2 ?_))
  split
  · exact ⟨fun n => (mention_bindAs_apply field hfield m _ n).trans (hunbind n), trivial⟩
  · exact hunbind

/-- Binding a mention anew gives no role. -/
lemma leads_rebind_givesOwn (hx : x.Valid) (m : MentionId) :
    (rebind m).Leads GivesOwn x fun _ _ => True := by
  have hfields := (leads_rebind_apply Mention.player (fun _ _ => rfl) m x).both
    (leads_rebind_apply Mention.role (fun _ _ => rfl) m x)
  refine (((leads_rebind hx m).both hfields).weaken fun y hy => ?_).imp fun _ _ _ _ => trivial
  exact hy.1.givesOwn hx hy.2.1 fun n => .inl (hy.2.2 n)

/-- A mention may be told a role that its player plays. -/
lemma givesOwn_modifyMention (hx : x.Valid) (m : MentionId) (change : Mention → Mention)
    {r : RoleId}
    (hchange : ∀ k, (change k).player = k.player ∧ (change k).role = some r)
    (hr : r ∈ x.vocabulary.roleIds)
    (hplayer : (x.vocabulary.factType (x.vocabulary.role r).factType).isStated →
      (x.mention m).player = some (x.vocabulary.playerOf r)) :
    x.GivesOwn (x.modifyMention m change) := by
  refine (hx.modifyMention m change (fun t ht => ?_) fun q hq => ?_).givesOwn hx
    (mention_modifyMention_apply Mention.player m fun k => (hchange k).1) fun n => ?_
  · rw [(hchange _).1] at ht
    exact hx.player_mem m t ht
  · rw [(hchange _).2] at hq
    obtain rfl := Option.some.inj hq
    exact hr
  · rw [mention_modifyMention]
    split
    · next hn =>
      refine .inr fun q hq => ?_
      rw [(hchange _).2] at hq
      obtain rfl := Option.some.inj hq
      rw [hn.1]
      exact hplayer
    · exact .inl rfl

/-- Applying a placement gives a role that the player plays, if the player is that of the role. -/
lemma leads_applyPlacement_givesOwn (hx : x.Valid) (s : RoleSequenceId) {p : Placement}
    (hrole : p.role ∈ x.vocabulary.roleIds)
    (hplayer : (x.mention p.mention).player = some (x.vocabulary.playerOf p.role)) :
    (applyPlacement s p).Leads GivesOwn x fun _ _ => True := by
  have htake := givesOwn_modifyMention hx p.mention (·.take s p) (fun _ => ⟨rfl, rfl⟩) hrole
    fun _ => hplayer
  refine leads_get_bind (leads_modify_bind htake (leads_get_bind ?_))
  dsimp only
  split
  · exact Leads.bind (leads_rebind_givesOwn htake.valid p.mention) fun _ z hz _ =>
      leads_pure hz.refl_right trivial
  · exact leads_pure htake.refl_right trivial

/-- The mentions of a clause that is matched with exact types get roles that their players play. -/
lemma leads_applyAlignment_givesOwn (hx : x.Valid) {a : Alignment}
    (halign : x.align { exactTypes := true } c a.reading = .ok a) :
    (applyAlignment c a).Leads GivesOwn x fun _ _ => True := by
  have hplays : ∀ p ∈ a.placements, p.role ∈ x.vocabulary.roleIds ∧
      (x.mention p.mention).player = some (x.vocabulary.playerOf p.role) := by
    intro p hp
    obtain ⟨ref, href, hrole⟩ := role_of_mem_placements halign hp
    obtain ⟨s, -, htakes⟩ := (align_eq_ok_iff.1 halign).2.1.takes_of_mem hp
    refine ⟨hrole ▸ hx.consistent.ref_mem _ ref href, ?_⟩
    rw [htakes.mention_eq]
    exact (eq_of_walkPlayer_exactTypes htakes.player).2
  refine Leads.bind (Leads.forM hx.givesOwn fun p hp y hy => ?_) fun _ y hy _ =>
    leads_pure hy.refl_right trivial
  obtain ⟨hmem, hplayer⟩ := hplays p (List.mem_reverse.1 hp)
  refine (leads_applyPlacement_givesOwn hy.valid a.roleSequence (hy.grows.mem_roleIds hmem) ?_).imp
    fun _ z hz _ => hz.refl_right
  rw [hy.player_eq, hy.grows.playerOf_eq hmem]
  exact hplayer

/-- The mentions of a comparison get roles of a fact type that clauses do not state. -/
lemma leads_resolveComparison_givesOwn (hx : x.Valid) (hc : c.Valid x.vocabulary)
    {operator : String}
    {left right : Slot} (hcomparison : c.comparison? = some (operator, left, right)) :
    (resolveComparison c operator left right).Leads GivesOwn x fun _ _ => True := by
  have hoperator : Template.IsWord operator := hc.isPlain (.comparison operator left right) (by
    rw [Clause.phrases_of_comparison? hcomparison]
    exact List.mem_cons_self)
  refine Leads.bind (leads_playerOf hx.givesOwn) fun leftPlayer y _ hy => ?_
  obtain ⟨rfl, hleft⟩ := hy
  refine Leads.bind (leads_playerOf hx.givesOwn) fun rightPlayer y _ hy => ?_
  obtain ⟨rfl, hright⟩ := hy
  have hedit :
    (edit (Vocabulary.comparisonFactType operator leftPlayer rightPlayer)).Leads GivesOwn y
      fun f z => (z.vocabulary.factType f).readings ≠ [] ∧
      (z.vocabulary.factType f).isStated = false :=
    Leads.within (((Vocabulary.leads_comparisonFactType hx.consistent hoperator
      (hx.player_mem _ _ hleft) (hx.player_mem _ _ hright)).and
        (Vocabulary.ends_comparisonFactType_isStated hx.consistent ..)))
      (fun _ hv => (hx.withVocabulary hv).givesOwn hx (fun _ => rfl) fun _ => .inl rfl)
      fun _ _ _ h => ⟨h.1.2, h.2⟩
  refine Leads.bind hedit fun f z hz hf => leads_get_bind ?_
  obtain ⟨hreadings, hunstated⟩ := hf
  obtain ⟨r, more, hr⟩ := List.exists_cons_of_ne_nil hreadings
  dsimp only
  rw [hr, List.headD_cons]
  obtain ⟨hreading, hfactType⟩ := hz.valid.consistent.mem_readings.1 (hr ▸ List.mem_cons_self)
  refine Leads.bind (Leads.forM hz.refl_right fun item hitem w hw => ?_) fun _ w hw _ =>
    leads_pure hw.refl_right trivial
  obtain ⟨ref, href, hrole⟩ := List.mem_map.1 (List.of_mem_zip (List.fst_mem_of_mem_zipIdx hitem)).2
  have hmem : item.1.2 ∈ z.vocabulary.roleIds := hrole ▸ hz.valid.consistent.ref_mem _ ref href
  have hown : (z.vocabulary.role item.1.2).factType = f :=
    (hrole ▸ hz.valid.consistent.ref_factType r hreading ref href).trans hfactType
  have hf := hz.valid.consistent.role_factType_mem hmem
  have hgiven := givesOwn_modifyMention hw.valid item.1.1
    ({ · with role := some item.1.2,
              roleRef := some ((z.vocabulary.reading r).roleSequence, item.2) })
    (fun _ => ⟨rfl, rfl⟩) (hw.grows.mem_roleIds hmem) fun hstated => by
      rw [(hw.grows.role hmem).factType_eq, FactType.isStated, (hw.grows.factType hf).kind_eq, hown,
        ← FactType.isStated, hunstated] at hstated
      cases hstated
  exact leads_modify hgiven hgiven.refl_right

/-- Resolving a clause with exact types gives roles that the players play. -/
lemma leads_resolveFlat_givesOwn (hx : x.Valid) (hc : c.Valid x.vocabulary) :
    (resolveFlat { exactTypes := true } c).Leads GivesOwn x fun _ _ => True := by
  unfold resolveFlat
  split
  · next hcomparison => exact Leads.map (leads_resolveComparison_givesOwn hx hc hcomparison)
  · refine leads_get_bind ?_
    split
    · exact leads_pure hx.givesOwn trivial
    refine leads_get_bind (leads_ofExcept_bind hx.givesOwn fun r hselect => ?_)
    cases r with
    | none => exact leads_pure hx.givesOwn trivial
    | some a =>
      exact Leads.map (leads_applyAlignment_givesOwn hx (mem_rank.1 (mem_of_select hselect)).2)

/-- Resolving clauses that state readings gives mentions roles that their players play. -/
lemma resolves_givesOwn :
    Resolves { exactTypes := true } GivesOwn fun x c => c.Valid x.vocabulary where
  refl h := h.refl_right
  mono h hc := hc.grows h.grows
  bare := (completes_valid {}).bare
  flat h hc := ((leads_resolveFlat_givesOwn h.valid hc.here).and (Ends.imp
    (leads_resolveFlat h.valid hc.here _) (fun _ _ hd => hd.2) fun _ _ => trivial)).imp
      fun _ _ _ hd => hd.2

/-- Resolving a clause that states a reading gives roles that the players play. -/
lemma leads_resolveStated_givesOwn (hx : x.Valid) (hc : c.Everywhere (Clause.Valid x.vocabulary)) :
    (resolveStated c).Leads GivesOwn x fun _ _ => True := by
  unfold resolveStated
  split
  · exact leads_get_bind (leads_throw_bind hx.givesOwn)
  · exact Leads.bind (resolves_givesOwn.leads_resolve c hx.givesOwn hc) fun _ y hy _ =>
      leads_pure hy.refl_right trivial

/-- Resolving clauses that state readings gives roles that the players play. -/
lemma leads_resolveAllStated_givesOwn (hx : x.Valid)
    (hcs : ∀ c ∈ cs, c.Everywhere (Clause.Valid x.vocabulary)) :
    (resolveAllStated cs).Leads GivesOwn x fun _ _ => True := by
  induction cs generalizing x with
  | nil => exact leads_pure hx.givesOwn trivial
  | cons c cs ih =>
    refine Leads.bind (leads_resolveStated_givesOwn hx (hcs c List.mem_cons_self)) fun d y hy
      _ => ?_
    exact Leads.bind (ih hy.valid fun e he => (hcs e (List.mem_cons_of_mem c he)).imp fun _ hd =>
      hd.grows hy.grows) fun ds z hz _ => leads_pure hz.refl_right trivial

/-! ## The fact type -/

/-- The roles of a new fact type are made for the players of the mentions that get them. -/
lemma givesOwn_makeFactType (hx : x.Valid) (h : (makeFactType c).perform x = (.ok (f, d), y)) :
    x.GivesOwn y := by
  have hextends := ((leads_makeFactType hx c).of_perform h).1
  have hroles : x.RolesOnly (· ∈ c.mentions) y :=
    ((leads_makeFactType_rolesOnly (fun _ => id) x).of_perform h).1
  obtain ⟨-, -, hcasts, hsame, -⟩ := casts_makeFactType h
  have hplayer := hsame.sameButMarks.player_eq
  refine hextends.givesOwn hx hplayer fun m => ?_
  by_cases hm : m ∈ c.mentions
  · obtain ⟨r, hr, -, -, hplays⟩ := hcasts.role m hm
    refine .inr fun q hq _ => ?_
    obtain rfl := Option.some.inj (hr.symm.trans hq)
    rw [← hplayer, hplays]
  · exact .inl (hroles m hm)

/-- Finding or making the fact type of clauses gives roles that the players play. -/
lemma givesOwn_statedFactType {created : Bool} (hx : x.Valid)
    (h : (statedFactType cs).perform x = (.ok (f, created, ds), y)) : x.GivesOwn y := by
  unfold statedFactType at h
  split at h
  · cases h
    exact hx.givesOwn
  · obtain ⟨⟨g, first⟩, z, hmake, hpure⟩ := perform_bind_eq_ok.1 h
    cases hpure
    exact givesOwn_makeFactType hx hmake
  · cases h
  · rw [perform_get_bind] at h
    cases h

/-! ## Readings -/

/-- Adjusting a clause gives no roles. -/
lemma givesOwn_adjust (hx : x.Valid) (hc : c.InRange x.vocabulary)
    (h : (adjust c).perform x = (.ok d, y)) : x.GivesOwn y := by
  have hroles : x.RolesOnly (fun _ => False) y := ((leads_adjust_rolesOnly c x).of_perform h).1
  refine ((leads_adjust hx hc).of_perform h).1.givesOwn hx ?_ fun m => .inl (hroles m id)
  exact ((keeps_adjust_sameButMarks c (.refl x)).of_perform h).1.player_eq

/-- The references of a reading that a clause becomes: for each slot there is one for the role that
its mention stands for, in order, and the mentions come to play these roles. -/
lemma refers_makeReading {r : ReadingId} (hnodup : c.mentions.Nodup)
    (hsize : ∀ m ∈ c.mentions, m.index < x.mentions.size)
    (h : (makeReading c f).perform x = (.ok (r, d), y)) :
    ∃ refs, List.Forall₂ (x.Refers f) c.slots refs ∧ y.vocabulary.readingRefs r = refs ∧
      (y.vocabulary.reading r).factType = f ∧
      c.mentions.map (fun m => (y.mention m).role) = refs.map fun ref => some ref.role := by
  have hgiven := (ends_makeReading_role hnodup hsize f).of_perform h
  obtain ⟨tokens, refs, hparts, hr, -, hvocabulary⟩ := perform_makeReading_eq_ok h
  obtain ⟨own, hown, hrefers⟩ := (assigns_of_readingParts hparts).exists_eq_append
  rw [List.nil_append] at hown
  have hreading : y.vocabulary.reading r =
      { id := r, factType := f
        ordinal := ((x.vocabulary.pushRoleSequence refs).factType f).readings.length
        roleSequence := ⟨x.vocabulary.roleSequences.size⟩
        text := Template.render tokens, isNegative := c.certainty = .negated
        tokens := Template.tokens (Template.render tokens) } := by
    rw [hvocabulary, hr, Vocabulary.reading_pushReading]
    exact if_pos rfl
  refine ⟨refs, hown ▸ hrefers, ?_, by rw [hreading], hgiven tokens refs hparts⟩
  rw [Vocabulary.readingRefs, hreading, hvocabulary]
  change ((x.vocabulary.pushRoleSequence refs).roleSequence _).refs = _
  rw [Vocabulary.roleSequence_pushRoleSequence, if_pos rfl]

section MakeReading

variable {r : ReadingId} (hx : x.WellCast) (hplain : ∀ p ∈ c.phrases, p.IsPlain)
  (hf : f ∈ x.vocabulary.factTypeIds) (hnodup : c.mentions.Nodup)
  (hm : ∀ m ∈ c.mentions, x.IsBound m)
  (h : (makeReading c f).perform x = (.ok (r, d), y))

include hx hplain hf hnodup hm h

/-- The slots of a clause that becomes a reading of a stated fact type voice the references of the
reading. -/
theorem voices_makeReading (hstated : (x.vocabulary.factType f).isStated) :
    List.Forall₂ ((x.onto y.vocabulary).Voices · ·) c.slots (y.vocabulary.readingRefs r) := by
  have hgrows := ((leads_makeReading hx.valid hplain hf).of_perform h).1.grows
  obtain ⟨refs, hrefers, hrefs, -⟩ :=
    refers_makeReading hnodup (fun m hmem => (hm m hmem).index_lt) h
  rw [hrefs]
  have hslots := (List.forall₂_and_left c.slots refs).2
    ⟨fun s hs => hm s.mention (List.mem_map_of_mem hs), hrefers⟩
  refine hslots.imp fun s ref href => ?_
  obtain ⟨hs, ⟨taken, hrole⟩, href⟩ := href
  have hplayer := hx.player_of_roleFor? hstated hs hrole
  refine ⟨congrArg RoleRef.leading href, congrArg RoleRef.trailing href, hplayer.trans ?_⟩
  exact congrArg some (hgrows.playerOf_eq (roleFor?_spec hx.valid hrole).1).symm

/-- A clause that becomes a reading gives its mentions roles that their players play. -/
lemma givesOwn_makeReading : x.GivesOwn y := by
  have hextends := ((leads_makeReading hx.valid hplain hf).of_perform h).1
  have hroles : x.RolesOnly (· ∈ c.mentions) y :=
    ((leads_makeReading_rolesOnly (fun _ => id) f x).of_perform h).1
  refine hextends.givesOwn hx.valid
    ((keeps_makeReading_sameButMarks c f (.refl x)).of_perform h).1.player_eq
    fun m => ?_
  by_cases hmem : m ∈ c.mentions
  · refine .inr fun q hq hstated => ?_
    obtain ⟨refs, hrefers, -, -, hgiven⟩ :=
      refers_makeReading hnodup (fun m hmem => (hm m hmem).index_lt) h
    have hplays : List.Forall₂ (fun role ref => role = some ref.role)
        (c.mentions.map fun m => (y.mention m).role) refs :=
      List.forall₂_map_right_iff.1 (hgiven ▸ List.forall₂_same.2 fun _ _ => rfl)
    rw [Clause.mentions, List.map_map, List.forall₂_map_left_iff] at hplays
    obtain ⟨s, hs, rfl⟩ := List.mem_map.1 hmem
    obtain ⟨i, hi, rfl⟩ := List.getElem_of_mem hs
    have hi' : i < refs.length := hrefers.length_eq ▸ hi
    obtain ⟨⟨taken, hrole⟩, -⟩ := hrefers.get (i := i) hi hi'
    obtain rfl := Option.some.inj ((hplays.get (i := i) hi hi').symm.trans hq)
    obtain ⟨hmemq, hfactType, -⟩ := roleFor?_spec hx.valid hrole
    rw [(hextends.grows.role hmemq).factType_eq, hfactType, FactType.isStated,
      (hextends.grows.factType hf).kind_eq] at hstated
    rw [hextends.grows.playerOf_eq hmemq]
    exact hx.player_of_roleFor? hstated (hm _ hmem) hrole
  · exact .inl (hroles m hmem)

end MakeReading

end Compile

end FactModel
