import FactModel.Proofs.Context.Reentering
import FactModel.Proofs.Definition.Invoking
import FactModel.Proofs.Matching.Singly
set_option autoImplicit false

/-!
# Clauses resolved in different orders

While the clauses of a query are resolved, the mentions of those that have been resolved have the
keys that they will have in the end, and the others still have the keys with which they were
entered. So what a clause invokes depends on the order of the clauses in one way only: whether
mentions share their bindings.

## Main definitions

* `FactModel.Context.SharesAmong` — a mention shares its binding once certain mentions have been
  settled.
* `FactModel.Context.Stage` — a stage of the resolution of clauses, with mentions at other places.
* `FactModel.Context.Steady` — what a clause invokes does not depend on which clauses were resolved
  before.
* `FactModel.Context.ResolvedAlike` — one clause has been resolved in two contexts in the same way.

## Main results

* `FactModel.Context.Stage.one_lt_shareCount_iff` — who shares a binding is told by the settled
  mentions.
* `FactModel.Context.KeysStay.steady` — a clause is steady if no match changes with whom its
  mentions share.
* `FactModel.Context.Stage.exists_resolvesTo` — a steady clause is resolved at any stage in the same
  way.
* `FactModel.Context.Stage.exists_resolvesEach` — so are steady clauses, in any order.
-/

namespace FactModel

open Attempt Compile

namespace Context

variable {f g : MentionId → MentionId} {v : Vocabulary} {w x x' y z z' : Context}
  {ms settled settled' : List MentionId} {c c' d d' : Clause}

/-- A mention shares its binding with another one, once certain mentions have been settled: these
have the keys of the second context, and the others still those of the first. -/
def SharesAmong (y w : Context) (ms settled : List MentionId) (m : MentionId) : Prop :=
  ∃ n ∈ ms, n ≠ m ∧ (if n ∈ settled then w else y).bindingKey n = y.bindingKey m

/-- All mentions that keep adjectives share their bindings, once certain mentions have been
settled. -/
def KeepsAmong (y w : Context) (ms settled : List MentionId) (a : Alignment) : Prop :=
  ∀ p ∈ a.placements, p.hasResidue → y.SharesAmong w ms settled p.mention

/-- What a clause invokes is steady: of the ways to invoke a reading that cost no more, if all
mentions could keep adjectives, the same are open whichever of the other clauses have been resolved
before. -/
def Steady (y w : Context) (es : List Clause) (c d : Clause) : Prop :=
  ∀ a ∈ d.alignment, ∀ b ∈ (y.lenient.rank {} c).alignments, b.cost ≤ a.cost →
    ∀ before before' : List Clause, (∀ e ∈ before, e ∈ es ∧ e ≠ c) →
    (∀ e ∈ before', e ∈ es ∧ e ≠ c) →
      (y.KeepsAmong w (es.flatMap Clause.mentions) (before.flatMap Clause.mentions) b ↔
        y.KeepsAmong w (es.flatMap Clause.mentions) (before'.flatMap Clause.mentions) b)

/-- A stage in the resolution of clauses, of which the mentions are at other places: settled ones
are as they will be in the end, the others as they were when they were entered. -/
structure Stage (f g : MentionId → MentionId) (v : Vocabulary) (y w : Context)
    (ms settled : List MentionId) (z : Context) : Prop where
  midway : z.Midway v
  isBound : ∀ m ∈ ms, (z.mention (f m)).binding.isSome
  exists_isBound : ∀ n, (z.mention n).binding.isSome → ∃ m ∈ ms, f m = n
  back : ∀ m ∈ ms, g (f m) = m
  alike : ∀ m ∈ ms, (if m ∈ settled then w else y).Resembles z m (f m)

/-- A clause has been resolved in two contexts in the same way. -/
structure ResolvedAlike (f : MentionId → MentionId) (v : Vocabulary) (w z : Context)
    (d d' : Clause) :
    Prop where
  renames : d.Renames f d'
  alike : ∀ m ∈ d.mentions, w.Resembles z m (f m)
  alignment_eq : d'.alignment = d.alignment.map (Alignment.renamed f)
  invocation :
    SameInvocation v w.vocabulary z.vocabulary d.factType d.reading d'.factType d'.reading

/-! ## Sharing -/

namespace Stage

variable (h : Stage f g v y w ms settled z)

include h

/-- Who shares a binding is told by the settled mentions. -/
theorem one_lt_shareCount_iff {m : MentionId} (hm : m ∈ ms) (hpending : m ∉ settled) :
    1 < z.shareCount (f m) ↔ y.SharesAmong w ms settled m := by
  have hkey : ∀ n ∈ ms, z.bindingKey (f n) = (if n ∈ settled then w else y).bindingKey n :=
    fun n hn =>
    (h.alike n hn).bindingKey_eq
  have hkey' : z.bindingKey (f m) = y.bindingKey m := by rw [hkey m hm, if_neg hpending]
  rw [h.midway.matchable.bound.one_lt_shareCount_iff (h.isBound m hm)]
  constructor
  · rintro ⟨n, hne, hn, heq⟩
    obtain ⟨k, hk, rfl⟩ := h.exists_isBound n hn
    refine ⟨k, hk, fun hkm => hne (congrArg f hkm), ?_⟩
    rw [← hkey k hk, heq, hkey']
  · rintro ⟨k, hk, hne, heq⟩
    refine ⟨f k, fun hkm => hne ?_, h.isBound k hk, ?_⟩
    · rw [← h.back k hk, hkm, h.back m hm]
    · rw [hkey k hk, heq, hkey']

/-- Mentions that keep adjectives share their bindings at a stage exactly where they do among the
mentions that are settled by then. -/
lemma keepsShared_iff {a : Alignment} (hmem : ∀ p ∈ a.placements, p.mention ∈ ms)
    (hpending : ∀ p ∈ a.placements, p.mention ∉ settled) :
    z.KeepsShared (a.renamed f) ↔ y.KeepsAmong w ms settled a := by
  unfold KeepsShared
  rw [Alignment.renamed, List.forall_mem_map]
  refine forall₂_congr fun p hp => ?_
  exact imp_congr Iff.rfl (h.one_lt_shareCount_iff (hmem p hp) (hpending p hp))

end Stage

/-! ## Steadiness -/

/-- Wherever a clause could keep adjectives at no more cost, the mentions of other clauses that have
the key of the mention that keeps them are the same ones in both contexts. -/
def KeysStay (y w : Context) (es : List Clause) (c d : Clause) : Prop :=
  ∀ a ∈ d.alignment, ∀ b ∈ (y.lenient.rank {} c).alignments, b.cost ≤ a.cost → ∀ p ∈ b.placements,
    p.hasResidue → ∀ n ∈ es.flatMap Clause.mentions, n ∉ c.mentions →
      (w.bindingKey n = y.bindingKey p.mention ↔ y.bindingKey n = y.bindingKey p.mention)

instance (y w : Context) (es : List Clause) (c d : Clause) : Decidable (y.KeysStay w es c d) :=
  inferInstanceAs (Decidable (∀ a ∈ d.alignment, ∀ b ∈ (y.lenient.rank {} c).alignments, _))

/-- **A criterion for steadiness.** What a clause invokes is steady if the mentions that it could
share with are the same before and after the matches. -/
theorem KeysStay.steady {es : List Clause} (h : y.KeysStay w es c d) (hc : c ∈ es)
    (hnodup : (es.flatMap Clause.mentions).Nodup) : y.Steady w es c d := by
  intro a ha b hb hcost
  -- whichever clauses come before, it is as if none did
  have hnone : ∀ before : List Clause, (∀ e ∈ before, e ∈ es ∧ e ≠ c) →
      (y.KeepsAmong w (es.flatMap Clause.mentions) (before.flatMap Clause.mentions) b ↔
        y.KeepsAmong w (es.flatMap Clause.mentions) [] b) := by
    intro before hbefore
    refine forall₂_congr fun p hp => forall_congr' fun hresidue => exists_congr fun n => ?_
    refine and_congr_right fun hn => and_congr_right fun _ => ?_
    rw [if_neg List.not_mem_nil]
    by_cases hsettled : n ∈ before.flatMap Clause.mentions
    · rw [if_pos hsettled]
      obtain ⟨e, he, hne⟩ := List.mem_flatMap.1 hsettled
      obtain ⟨hes, hother⟩ := hbefore e he
      have : Std.Symm (Function.onFun List.Disjoint Clause.mentions) :=
        ⟨fun _ _ h _ hm hm' => h hm' hm⟩
      have hdisjoint := (List.nodup_flatMap.1 hnodup).2.forall hes hc hother
      exact h a ha b hb hcost p hp hresidue n hn fun hnc => hdisjoint hne hnc
    · rw [if_neg hsettled]
  exact fun before before' h h' => (hnone before h).trans (hnone before' h').symm

/-! ## Selecting -/

/-- What is ranked is of fact types that there are. -/
lemma factType_mem_of_mem_rank {options : MatchOptions} (hx : x.vocabulary.WellFormed)
    {a : Alignment}
    (ha : a ∈ (x.rank options c).alignments) : a.factType ∈ x.vocabulary.factTypeIds := by
  obtain ⟨htried, halign⟩ := mem_rank.1 ha
  obtain ⟨-, f, hf⟩ := mem_triedReadings htried
  obtain ⟨-, -, -, hfactType, -, -⟩ := align_eq_ok_iff.1 halign
  rw [hfactType]
  exact hx.reading_factType_mem (hx.mem_readings.1 hf).1

/-- What is selected is told by the vocabulary that rankings look up. -/
lemma Midway.select_onto (h : x.Midway v) (hv : v.WellFormed) {o : Option Alignment} :
    (x.onto v).select c ((x.onto v).rank {} c) = .ok o ↔ x.select c (x.rank {} c) = .ok o := by
  have hrank : x.rank {} c = (x.onto v).rank {} c := rank_onto (x := x.onto v) h.matchesAs hv {} c
  have hfactType : ∀ a ∈ ((x.onto v).rank {} c).alignments,
      x.vocabulary.factType a.factType = v.factType a.factType := fun a ha =>
    h.matchesAs.factType_eq _ (factType_mem_of_mem_rank (x := x.onto v) hv ha)
  rw [hrank]
  constructor
  · exact fun hselect => Compile.select_onto (x := x.onto v) hselect hfactType
  · exact fun hselect => Compile.select_onto hselect fun a ha => (hfactType a ha).symm

/-- A clause differs from itself in nothing. -/
lemma renames_id (c : Clause) : c.Renames id c where
  phrases_eq := by
    have hid : Phrase.renamed id = id := by
      funext p
      rcases p with _ | ⟨⟨_, _⟩⟩ | ⟨_, ⟨_, _⟩, ⟨_, _⟩⟩ <;> rfl
    rw [hid, List.map_id]
  certainty_eq := rfl

/-- A mention of a context that has become another one is alike if it has not changed. -/
lemma alike_of_mention_eq {m : MentionId} (hx : x.Valid) (hgrows : x.vocabulary.Grows y.vocabulary)
    (hplayer : (x.mention m).player.isSome) (heq : y.mention m = x.mention m) :
    x.Resembles y m m := by
  obtain ⟨t, ht⟩ := Option.isSome_iff_exists.1 hplayer
  have hmem := hx.player_mem m t ht
  exact ⟨by rw [heq], by rw [heq], by rw [heq], by rw [heq], by rw [heq], by rw [heq],
    ⟨t, hmem, t, hgrows.mem_objectTypeIds hmem, ht, by rw [heq, ht], hgrows.nameOf_eq hmem⟩⟩

namespace Stage

section Step

variable (hy : y.Midway v) (hx : Stage id id v y w ms settled x)
    (hz : Stage f g v y w ms settled' z)
  (hmem : ∀ m ∈ c.mentions, m ∈ ms) (hpending : ∀ m ∈ c.mentions, m ∉ settled)
  (hpending' : ∀ m ∈ c.mentions, m ∉ settled')

include hx hz hmem hpending hpending'

/-- At two stages the mentions of a clause that is still to be resolved are alike. -/
lemma alike_of_pending {m : MentionId} (hm : m ∈ c.mentions) : x.Resembles z m (f m) := by
  have hleft := hx.alike m (hmem m hm)
  have hright := hz.alike m (hmem m hm)
  rw [if_neg (hpending m hm)] at hleft
  rw [if_neg (hpending' m hm)] at hright
  exact hleft.symm.trans hright

include hy

/-- **A steady clause selects the same reading at any stage.** -/
theorem select_eq (hv : v.WellFormed) (hi : v.Inherits)
    (hybound : ∀ m ∈ ms, (y.mention m).binding.isSome)
    (hrenames : c.Renames f c') {a : Alignment}
    (hsteady : ∀ b ∈ (y.lenient.rank {} c).alignments, b.cost ≤ a.cost →
      (y.KeepsAmong w ms settled b ↔ y.KeepsAmong w ms settled' b))
    (hselect : x.select c (x.rank {} c) = .ok (some a)) :
    z.select c' (z.rank {} c') = .ok (some (a.renamed f)) := by
  let u := y.lenient.onto v
  have hlooks : ∀ {q : Context} {m n : MentionId}, q.Midway v → y.Resembles q m n →
      u.LooksLike (q.onto v) m n := fun hq halike =>
    have hlike := halike.looksLike hy.grows hy.valid.consistent.toWellFormed hq.grows
      hq.valid.consistent.toWellFormed
    ⟨hlike.player_iff, hlike.leading_eq, hlike.trailing_eq⟩
  have hleft : LooksAlike id id c c u (x.onto v) := by
    refine ⟨renames_id c, fun _ _ => rfl, rfl, fun m hm => hlooks hx.midway ?_⟩
    have halike := hx.alike m (hmem m hm)
    rwa [if_neg (hpending m hm)] at halike
  have hright : LooksAlike f g c c' u (z.onto v) := by
    refine ⟨hrenames, fun m hm => hz.back m (hmem m hm), rfl, fun m hm => hlooks hz.midway ?_⟩
    have halike := hz.alike m (hmem m hm)
    rwa [if_neg (hpending' m hm)] at halike
  have hshared : ∀ m ∈ c.mentions, 1 < u.shareCount m := fun m hm =>
    one_lt_shareCount_lenient hy.matchable.bound (hybound m (hmem m hm))
  refine (hz.midway.select_onto hv).1 (LooksAlike.select (y := u) hleft hright hv hi hshared ?_
    ((hx.midway.select_onto hv).2 hselect))
  intro b hb hcost
  have hranked : b ∈ (y.lenient.rank {} c).alignments := by
    have hrank : y.lenient.rank {} c = u.rank {} c := rank_onto (x := u) hy.matchesAs hv {} c
    rw [hrank]
    exact (perm_rank u {} c).symm.subset hb
  have hmentions : ∀ p ∈ b.placements, p.mention ∈ c.mentions := fun p hp => by
    obtain ⟨-, halign⟩ := mem_rank.1 hranked
    have heq : b.placements.map (·.mention) = c.mentions :=
      (align_eq_ok_iff.1 halign).2.1.mentions_eq
    exact heq ▸ List.mem_map_of_mem hp
  have hkeeps : (x.onto v).KeepsShared b ↔ y.KeepsAmong w ms settled b := by
    have hiff := hx.keepsShared_iff (fun p hp => hmem _ (hmentions p hp)) fun p hp =>
      hpending _ (hmentions p hp)
    rwa [Alignment.renamed_id] at hiff
  rw [hkeeps, hsteady b hranked hcost]
  exact (hz.keepsShared_iff (fun p hp => hmem _ (hmentions p hp)) fun p hp =>
    hpending' _ (hmentions p hp)).symm

end Step

end Stage

/-! ## Resolving one clause at two stages -/

/-- A clause that only names an individual does so with other mentions. -/
lemma isExistential_renames (hrenames : c.Renames f c')
    (hliteral : ∀ m ∈ c.mentions, (z.mention (f m)).literal = (x.mention m).literal) :
    z.isExistential c' = x.isExistential c := by
  unfold isExistential
  rw [hrenames.phrases_eq]
  unfold Clause.mentions Clause.slots at hliteral
  split
  · next s hs =>
    obtain ⟨p, ps, hps, hp, hnil⟩ := List.map_eq_cons_iff.1 hs
    obtain rfl := List.map_eq_nil_iff.1 hnil
    cases p with
    | word text => cases hp
    | comparison operator left right => cases hp
    | slot s' =>
      cases hp
      rw [hps]
      have hmem : s'.mention ∈ (c.phrases.flatMap Phrase.slots).map (·.mention) := by
        rw [hps]
        exact List.mem_singleton.2 rfl
      exact congrArg Option.isNone (hliteral s'.mention hmem)
  · next hne =>
    split
    · next s hs => exact absurd (by rw [hs]; rfl) (hne (s.renamed f))
    · rfl

/-- Mentions that take one role are alike if they were before. -/
lemma Resembles.take {m n : MentionId} (h : x.Resembles z m n) {s s' : RoleSequenceId}
    {p : Placement}
    (hx : x'.vocabulary = x.vocabulary) (hz : z'.vocabulary = z.vocabulary)
    (hm : ∃ binding, x'.mention m = { (x.mention m).take s p with binding })
    (hn : ∃ binding, z'.mention n = { (z.mention n).take s' (p.renamed f) with binding }) :
    x'.Resembles z' m n := by
  obtain ⟨b, hm⟩ := hm
  obtain ⟨b', hn⟩ := hn
  constructor
  case player =>
    rw [hm, hn, hx, hz]
    exact h.player
  case term_eq => rw [hm, hn]; exact h.term_eq
  case roleName_eq => rw [hm, hn]; exact h.roleName_eq
  case literal_eq => rw [hm, hn]; exact h.literal_eq
  case playerByRoleName_eq => rw [hm, hn]; exact h.playerByRoleName_eq
  all_goals
    rw [hm, hn]
    rfl

/-- Mentions that are given roles are alike if they were before, and types have kept their names. -/
lemma Resembles.giveRoles {m n : MentionId} (h : x.Resembles z m n) {u u' : Vocabulary}
    (hx : x.vocabulary.Grows u) (hz : z.vocabulary.Grows u') (s s' : RoleSequenceId)
    (items items' : List ((MentionId × RoleId) × Nat)) :
    (({ x with vocabulary := u } : Context).giveRoles s items).Resembles
      (({ z with vocabulary := u' } : Context).giveRoles s' items') m n := by
  have hm : ∀ {α : Type} (field : Mention → α),
      (∀ mention role roleRef, field { mention with role, roleRef } = field mention) →
        field ((({ x with vocabulary := u } : Context).giveRoles s items).mention m) =
          field (x.mention m) :=
    fun field hfield => mention_giveRoles_apply _ s items field hfield m
  have hn : ∀ {α : Type} (field : Mention → α),
      (∀ mention role roleRef, field { mention with role, roleRef } = field mention) →
        field ((({ z with vocabulary := u' } : Context).giveRoles s' items').mention n) =
          field (z.mention n) :=
    fun field hfield => mention_giveRoles_apply _ s' items' field hfield n
  constructor
  case player =>
    rw [hm Mention.player fun _ _ _ => rfl, hn Mention.player fun _ _ _ => rfl,
      vocabulary_giveRoles,
      vocabulary_giveRoles]
    obtain ⟨t, ht, t', ht', hplayer, hplayer', hname⟩ := h.player
    refine ⟨t, hx.mem_objectTypeIds ht, t', hz.mem_objectTypeIds ht', hplayer, hplayer', ?_⟩
    rw [hx.nameOf_eq ht, hz.nameOf_eq ht', hname]
  case term_eq =>
    rw [hm Mention.term fun _ _ _ => rfl, hn Mention.term fun _ _ _ => rfl, h.term_eq]
  case leading_eq =>
    rw [hm Mention.leading fun _ _ _ => rfl, hn Mention.leading fun _ _ _ => rfl, h.leading_eq]
  case trailing_eq =>
    rw [hm Mention.trailing fun _ _ _ => rfl, hn Mention.trailing fun _ _ _ => rfl, h.trailing_eq]
  case roleName_eq =>
    rw [hm Mention.roleName fun _ _ _ => rfl, hn Mention.roleName fun _ _ _ => rfl, h.roleName_eq]
  case literal_eq =>
    rw [hm Mention.literal fun _ _ _ => rfl, hn Mention.literal fun _ _ _ => rfl, h.literal_eq]
  case playerByRoleName_eq =>
    rw [hm Mention.playerByRoleName fun _ _ _ => rfl, hn Mention.playerByRoleName fun _ _ _ => rfl,
      h.playerByRoleName_eq]

namespace Stage

/-- Mentions that are exchanged stay apart. -/
lemma nodup_map (hz : Stage f g v y w ms settled z) (hmem : ∀ m ∈ c.mentions, m ∈ ms)
    (hnodup : c.mentions.Nodup) : (c.mentions.map f).Nodup :=
  (List.nodup_map_iff_inj_on hnodup).2 fun m hm n hn heq => by
    rw [← hz.back m (hmem m hm), heq, hz.back n (hmem n hn)]

/-- A stage lets further clauses be resolved after one has been. -/
lemma midway_resolvesTo (hz : Stage f g v y w ms settled z) (hmem : ∀ m ∈ c.mentions, m ∈ ms)
    (hnodup : c.mentions.Nodup) (hrenames : c.Renames f c') (hc' : c'.IsFresh)
    (h : ResolvesTo z c' d' z') :
    z'.Midway z.vocabulary ∧ ∀ n, (z'.mention n).binding.isSome ↔ (z.mention n).binding.isSome := by
  have hbound : ∀ n ∈ c'.mentions, (z.mention n).binding.isSome := by
    intro n hn
    rw [hrenames.mentions_eq] at hn
    obtain ⟨m, hm, rfl⟩ := List.mem_map.1 hn
    exact hz.isBound m (hmem m hm)
  have hnodup' : c'.mentions.Nodup := hrenames.mentions_eq ▸ hz.nodup_map hmem hnodup
  obtain ⟨hmidway, -, hiff⟩ := h.midway hz.midway.self (hc'.valid _) hnodup' hbound
  exact ⟨hmidway, hiff⟩

section Step

variable (hx : Stage id id v y w ms settled x) (hz : Stage f g v y w ms settled' z)
  (hmem : ∀ m ∈ c.mentions, m ∈ ms) (hpending : ∀ m ∈ c.mentions, m ∉ settled)
  (hpending' : ∀ m ∈ c.mentions, m ∉ settled') (hnodup : c.mentions.Nodup)

include hx hz hmem hpending hpending' hnodup

/-- A clause that has been put into the words of a reading is put into them at the other stage,
too. -/
lemma exists_applyAlignment (c' : Clause) {a : Alignment}
    (hmentions : a.placements.map (·.mention) = c.mentions)
    (happly : (applyAlignment c a).perform x = (.ok (c.aligned a), x')) :
    ∃ z', (applyAlignment c' (a.renamed f)).perform z = (.ok (c'.aligned (a.renamed f)), z') ∧
      ∀ m ∈ c.mentions, x'.Resembles z' m (f m) := by
  have hmentions' : (a.renamed f).placements.map (·.mention) = c.mentions.map f := by
    rw [← hmentions, Alignment.renamed, List.map_map, List.map_map]
    rfl
  have hnodup' : (c.mentions.map f).Nodup := hz.nodup_map hmem hnodup
  obtain ⟨_, hperform, hx', -⟩ := hx.midway.matchable.exists_applyAlignment c (hmentions ▸ hnodup)
    fun p hp => hx.isBound _ (hmem _ (hmentions ▸ List.mem_map_of_mem hp))
  rw [happly] at hperform
  cases hperform
  obtain ⟨z', hperform', hz', -⟩ := hz.midway.matchable.exists_applyAlignment c'
    (a := a.renamed f) (hmentions' ▸ hnodup') fun p hp => by
      have hp' : p.mention ∈ c.mentions.map f := hmentions' ▸ List.mem_map_of_mem hp
      obtain ⟨m, hm, heq⟩ := List.mem_map.1 hp'
      exact heq ▸ hz.isBound m (hmem m hm)
  refine ⟨z', hperform', fun m hm => ?_⟩
  obtain ⟨p, hp, rfl⟩ := List.mem_map.1 (hmentions ▸ hm)
  obtain ⟨b, -, hb⟩ := hx'.mention_eq p hp
  obtain ⟨b', -, hb'⟩ := hz'.mention_eq (p.renamed f) (List.mem_map_of_mem hp)
  exact (alike_of_pending hx hz hmem hpending hpending' hm).take hx'.vocabulary_eq hz'.vocabulary_eq
    ⟨b, hb⟩ ⟨b', hb'⟩

/-- Mentions that are compared are compared at the other stage, too. -/
lemma exists_compares (hv : v.WellFormed) (hrenames : c.Renames f c') (hc : c.IsFresh)
    (hc' : c'.IsFresh)
    {operator : String} {left right : Slot} {a b : ObjectTypeId} {k : FactTypeId} {u : Vocabulary}
    (hcomparison : c.comparison? = some (operator, left, right))
    (hleft : (x.mention left.mention).player = some a)
    (hright : (x.mention right.mention).player = some b)
    (hfactType : (Vocabulary.comparisonFactType operator a b).perform x.vocabulary = (.ok k, u)) :
    ∃ k' u' z', ResolvesTo z c' (c'.compared u' k') z' ∧
      (∀ m ∈ c.mentions, (({ x with vocabulary := u } : Context).giveRoles
        (u.reading (u.firstReading k)).roleSequence (comparedItems u k left right)).Resembles z' m
        (f m)) ∧
      z'.vocabulary = u' ∧
        SameInvocation v u u' (some k) (some (u.firstReading k)) (some k')
        (some (u'.firstReading k')) := by
  have hcomparison' : c'.comparison? = some (operator, left.renamed f, right.renamed f) := by
    rw [hrenames.comparison?_eq, hcomparison]
    rfl
  have hphrases := Clause.phrases_of_comparison? hcomparison
  have hsides : left.mention ∈ c.mentions ∧ right.mention ∈ c.mentions := by
    simp [Clause.mentions, Clause.slots, hphrases, Phrase.slots]
  have halike : ∀ m ∈ c.mentions, x.Resembles z m (f m) := fun m hm =>
    alike_of_pending hx hz hmem hpending hpending' hm
  obtain ⟨_, -, a', -, ha, ha', hna⟩ := (halike _ hsides.1).player
  obtain ⟨_, -, b', -, hb, hb', hnb⟩ := (halike _ hsides.2).player
  rw [hleft] at ha
  cases ha
  rw [hright] at hb
  cases hb
  obtain ⟨k', u', hfactType'⟩ :=
    Vocabulary.exists_comparisonFactType hz.midway.valid.consistent operator a' b'
  have hresolves := ResolvesTo.compares hcomparison hleft hright hfactType
  have hresolves' := ResolvesTo.compares hcomparison' ha' hb' hfactType'
  have hxmidway := (hx.midway_resolvesTo hmem hnodup (renames_id c) hc hresolves).1.trans hx.midway
  have hzmidway := (hz.midway_resolvesTo hmem hnodup hrenames hc' hresolves').1.trans hz.midway
  obtain ⟨hcompares, hname, hgrows⟩ :=
    Vocabulary.compares_of_perform hx.midway.valid.consistent hfactType
  obtain ⟨hcompares', hname', hgrows'⟩ :=
    Vocabulary.compares_of_perform hz.midway.valid.consistent hfactType'
  have hvocabulary := vocabulary_giveRoles ({ x with vocabulary := u } : Context)
    (u.reading (u.firstReading k)).roleSequence (comparedItems u k left right)
  have hvocabulary' := vocabulary_giveRoles ({ z with vocabulary := u' } : Context)
    (u'.reading (u'.firstReading k')).roleSequence
    (comparedItems u' k' (left.renamed f) (right.renamed f))
  refine ⟨k', u', _, hresolves', fun m hm => (halike m hm).giveRoles hgrows hgrows' _ _ _ _,
    hvocabulary', ?_⟩
  have hu := hxmidway.valid.consistent
  have hu' := hzmidway.valid.consistent
  have hvu := hxmidway.grows
  have hvu' := hzmidway.grows
  have hmatches := hxmidway.matchesAs
  have hmatches' := hzmidway.matchesAs
  rw [hvocabulary] at hu hvu hmatches
  rw [hvocabulary'] at hu' hvu' hmatches'
  refine sameInvocation_compared hcompares hcompares' hv hvu hmatches hu hvu' hmatches' hu' ?_ ?_
  · rw [hname', hname, hna]
  · rw [hname', hname, hnb]

/-- **A steady clause is resolved at any stage in the same way.** -/
theorem exists_resolvesTo (hv : v.Consistent) (hi : v.Inherits) (hy : y.Midway v)
    (hybound : ∀ m ∈ ms, (y.mention m).binding.isSome) (hrenames : c.Renames f c') (hc : c.IsFresh)
    (hc' : c'.IsFresh)
    (hsteady : ∀ a ∈ d.alignment, ∀ b ∈ (y.lenient.rank {} c).alignments, b.cost ≤ a.cost →
      (y.KeepsAmong w ms settled b ↔ y.KeepsAmong w ms settled' b))
    (h : ResolvesTo x c d x') :
    ∃ d' z', ResolvesTo z c' d' z' ∧ x'.ResolvedAlike f v z' d d' := by
  have halike : ∀ m ∈ c.mentions, x.Resembles z m (f m) := fun m hm =>
    alike_of_pending hx hz hmem hpending hpending' hm
  have hexistential := isExistential_renames hrenames fun m hm => (halike m hm).literal_eq
  have hnone : c.comparison? = none → c'.comparison? = none := fun hcomparison => by
    rw [hrenames.comparison?_eq, hcomparison]
    rfl
  cases h with
  | existential hcomparison h =>
    refine ⟨c', z, .existential (hnone hcomparison) (hexistential.trans h), hrenames, halike,
      ?_, ?_⟩
    · rw [hc.alignment_eq, hc'.alignment_eq]
      rfl
    · rw [hc.factType_eq, hc.reading_eq, hc'.factType_eq, hc'.reading_eq]
      exact .known fun _ hf => nomatch hf
  | @invokes a _ hcomparison h hselect happly =>
    have hselect' := select_eq hy hx hz hmem hpending hpending' hv.toWellFormed hi hybound hrenames
      (hsteady a rfl) hselect
    obtain ⟨z', happly', halike'⟩ := exists_applyAlignment hx hz hmem hpending hpending' hnodup c'
      (mentions_of_select hselect) happly
    refine ⟨_, z', .invokes (hnone hcomparison) (hexistential.trans h) hselect' happly',
      hrenames.aligned a,
      fun m hm => halike' m ?_, rfl, .known fun k hk => ?_⟩
    · rwa [Clause.mentions, Clause.slots_aligned (mem_rank.1 (mem_of_select hselect)).2] at hm
    · cases hk
      have hselect := (hx.midway.select_onto hv.toWellFormed).2 hselect
      exact factType_mem_of_mem_rank (x := x.onto v) hv.toWellFormed (mem_of_select hselect)
  | compares hcomparison hleft hright hfactType =>
    obtain ⟨k', u', z', hresolves, halike', hu', hinvocation⟩ :=
      exists_compares hx hz hmem hpending hpending'
      hnodup hv.toWellFormed hrenames hc hc' hcomparison hleft hright hfactType
    refine ⟨_, z', hresolves, ⟨hrenames.phrases_eq, hrenames.certainty_eq⟩, halike', ?_, ?_⟩
    · change c'.alignment = c.alignment.map _
      rw [hc.alignment_eq, hc'.alignment_eq]
      rfl
    · rw [hu', vocabulary_giveRoles]
      exact hinvocation

end Step

end Stage

/-! ## Resolving many clauses -/

/-- Clauses of which no two mention the same, seen from one of them. -/
structure Amid (before : List Clause) (c : Clause) (after : List Clause) : Prop where
  nodup : c.mentions.Nodup
  nodup_after : (after.flatMap Clause.mentions).Nodup
  notBefore : ∀ m ∈ c.mentions, m ∉ before.flatMap Clause.mentions
  notAfter : ∀ m ∈ c.mentions, m ∉ after.flatMap Clause.mentions
  apart : ∀ m ∈ before.flatMap Clause.mentions, m ∉ after.flatMap Clause.mentions

/-- Clauses of which no mention occurs twice can be seen from any one of them. -/
lemma amid_of_nodup {before after : List Clause}
    (h : ((before ++ c :: after).flatMap Clause.mentions).Nodup) : Amid before c after := by
  rw [List.flatMap_append, List.flatMap_cons] at h
  obtain ⟨-, h, hbefore⟩ := List.nodup_append'.1 h
  obtain ⟨hnodup, hafter, happart⟩ := List.nodup_append'.1 h
  exact ⟨hnodup, hafter, fun m hm hm' => hbefore hm' (List.mem_append_left _ hm),
    fun m hm hm' => happart hm hm', fun m hm hm' => hbefore hm (List.mem_append_right _ hm')⟩

/-- A clause that mentions something is none of those before it. -/
lemma Amid.ne {before after : List Clause} (h : Amid before c after) (hmentions : c.mentions ≠ []) :
    ∀ e ∈ before, e ≠ c := by
  rintro e he rfl
  obtain ⟨m, hm⟩ := List.exists_mem_of_ne_nil _ hmentions
  exact h.notBefore m hm (List.mem_flatMap.2 ⟨e, he, hm⟩)

/-- While clauses are resolved, the mentions of those that have been resolved will not change any
more, and the others have not changed yet. -/
lemma stage_of_mention_eq (hy : y.Midway v) (hx : x.Midway y.vocabulary)
    (hgrows : x.vocabulary.Grows w.vocabulary) (hybound : ∀ m ∈ ms, (y.mention m).binding.isSome)
    (hxbound : ∀ m, (x.mention m).binding.isSome ↔ m ∈ ms)
    (hsettled : ∀ m ∈ settled, w.mention m = x.mention m)
    (hpending : ∀ m ∈ ms, m ∉ settled → x.mention m = y.mention m) :
    Stage id id v y w ms settled x where
  midway := hx.trans hy
  isBound m hm := (hxbound m).2 hm
  exists_isBound n hn := ⟨n, (hxbound n).1 hn, rfl⟩
  back _ _ := rfl
  alike m hm := by
    by_cases hm' : m ∈ settled
    · rw [if_pos hm']
      exact (alike_of_mention_eq hx.valid hgrows (hx.player_isSome ((hxbound m).2 hm))
        (hsettled m hm')).symm
    · rw [if_neg hm']
      exact alike_of_mention_eq hy.valid hx.grows (hy.player_isSome (hybound m hm))
        (hpending m hm hm')

/-- A clause has been resolved in its turn, after some others, and its mentions have not changed
since. -/
structure Turn (v : Vocabulary) (y w : Context) (es : List Clause) (c d : Clause)
    (before : List Clause)
    (x x' : Context) : Prop where
  others : ∀ e ∈ before, e ∈ es ∧ e ≠ c
  pending : ∀ m ∈ c.mentions, m ∉ before.flatMap Clause.mentions
  stage : Stage id id v y w (es.flatMap Clause.mentions) (before.flatMap Clause.mentions) x
  resolves : ResolvesTo x c d x'
  midway : x'.Midway v
  later : w.Midway x'.vocabulary
  mention_eq : ∀ m ∈ c.mentions, w.mention m = x'.mention m

/-- **Each in its turn.** Clauses that are resolved one by one are resolved each in its turn. -/
theorem turns (before : List Clause) {cs ds : List Clause} (h : ResolvesEach x cs ds w)
    (hnodup : ((before ++ cs).flatMap Clause.mentions).Nodup) (hcs : ∀ c ∈ cs, c.IsFresh)
    (hy : y.Midway v)
    (hx : x.Midway y.vocabulary)
    (hybound : ∀ m ∈ (before ++ cs).flatMap Clause.mentions, (y.mention m).binding.isSome)
    (hxbound : ∀ m, (x.mention m).binding.isSome ↔ m ∈ (before ++ cs).flatMap Clause.mentions)
    (hpending : ∀ m ∈ cs.flatMap Clause.mentions, x.mention m = y.mention m) :
    List.Forall₂ (fun c d => ∃ before' x x', Turn v y w (before ++ cs) c d before' x x') cs ds := by
  induction h generalizing before with
  | nil x => exact .nil
  | @cons x x' w c d cs ds hfirst hrest ih =>
    have hsplit : (before ++ c :: cs).flatMap Clause.mentions =
        before.flatMap Clause.mentions ++ (c.mentions ++ cs.flatMap Clause.mentions) := by
      rw [List.flatMap_append, List.flatMap_cons]
    have hamid := amid_of_nodup hnodup
    obtain ⟨hc, hcs'⟩ := List.forall_mem_cons.1 hcs
    have hxbound' : ∀ m ∈ c.mentions ++ cs.flatMap Clause.mentions, (x.mention m).binding.isSome :=
      fun m hm => (hxbound m).2 (hsplit ▸ List.mem_append_right _ hm)
    obtain ⟨hx', -, hxbound''⟩ := hfirst.midway hx.self (hc.valid _) hamid.nodup fun m hm =>
      hxbound' m (List.mem_append_left _ hm)
    obtain ⟨hw', -, -, hsame'⟩ := hrest.midway hx'.self hcs' hamid.nodup_after fun m hm =>
      (hxbound'' m).2 (hxbound' m (List.mem_append_right _ hm))
    rw [List.flatMap_cons] at hpending
    have hstage : Stage id id v y w ((before ++ c :: cs).flatMap Clause.mentions)
        (before.flatMap Clause.mentions) x := by
      refine stage_of_mention_eq hy hx (hx'.grows.trans hw'.grows) hybound hxbound (fun m hm => ?_)
        fun m hm hm' => hpending m ((List.mem_append.1 (hsplit ▸ hm)).resolve_left hm')
      rw [hsame' m (hamid.apart m hm), hfirst.mention_eq_of_not_mem fun hm' =>
        hamid.notBefore m hm' hm]
    refine .cons ⟨before, x, x', fun e he => ⟨List.mem_append_left _ he, ?_⟩, hamid.notBefore,
      hstage, hfirst,
      (hx'.trans hx).trans hy, hw', fun m hm => hsame' m (hamid.notAfter m hm)⟩ ?_
    · exact hamid.ne hfirst.mentions_ne_nil e he
    · have happend : before ++ c :: cs = before ++ [c] ++ cs := List.append_cons ..
      rw [happend] at hnodup hybound hxbound ⊢
      refine ih (before ++ [c]) hnodup hcs' (hx'.trans hx) hybound
        (fun m => (hxbound'' m).trans (hxbound m))
        fun m hm => ?_
      rw [hfirst.mention_eq_of_not_mem fun hm' => hamid.notAfter m hm' hm]
      exact hpending m (List.mem_append_right _ hm)

/-- A mention that has not changed since is still alike. -/
lemma Resembles.later {m n : MentionId} (h : x'.Resembles z m n) (hx : x'.Valid)
    (hw : w.Midway x'.vocabulary)
    (hm : w.mention m = x'.mention m) (hz : z.Valid) (hz' : z'.Midway z.vocabulary)
    (hn : z'.mention n = z.mention n) : w.Resembles z' m n := by
  obtain ⟨t, -, u, -, ht, hu, -⟩ := h.player
  have hleft := alike_of_mention_eq hx hw.grows (by rw [ht]; rfl) hm
  have hright := alike_of_mention_eq hz hz'.grows (by rw [hu]; rfl) hn
  exact (hleft.symm.trans h).trans hright

/-- What has been resolved in the same way stays so while other clauses are resolved. -/
lemma ResolvedAlike.later (h : x'.ResolvedAlike f v z d d') (hx : x'.Valid)
    (hw : w.Midway x'.vocabulary)
    (hm : ∀ m ∈ d.mentions, w.mention m = x'.mention m) (hz : z.Valid)
    (hz' : z'.Midway z.vocabulary)
    (hn : ∀ m ∈ d.mentions, z'.mention (f m) = z.mention (f m)) : w.ResolvedAlike f v z' d d' where
  renames := h.renames
  alike m hmem := (h.alike m hmem).later hx hw (hm m hmem) hz hz' (hn m hmem)
  alignment_eq := h.alignment_eq
  invocation :=
    h.invocation.grows hx.consistent.toWellFormed hz.consistent.toWellFormed hw.grows hw.matchesAs
    hz'.grows hz'.matchesAs

/-- The mentions of a clause that has been resolved are settled. -/
lemma Stage.advance (hz : Stage f g v y w ms settled z) (hmem : ∀ m ∈ c.mentions, m ∈ ms)
    (hnodup : c.mentions.Nodup) (hrenames : c.Renames f c') (hc' : c'.IsFresh)
    (h : ResolvesTo z c' d' z')
    (halike : ∀ m ∈ c.mentions, w.Resembles z' m (f m)) :
    Stage f g v y w ms (settled ++ c.mentions) z' := by
  obtain ⟨hz', hbound⟩ := hz.midway_resolvesTo hmem hnodup hrenames hc' h
  refine ⟨hz'.trans hz.midway, fun m hm => (hbound _).2 (hz.isBound m hm),
    fun n hn => hz.exists_isBound n ((hbound n).1 hn), hz.back, fun m hm => ?_⟩
  by_cases hmc : m ∈ c.mentions
  · rw [if_pos (List.mem_append_right _ hmc)]
    exact halike m hmc
  · have hsame : z'.mention (f m) = z.mention (f m) := h.mention_eq_of_not_mem fun hfm => hmc (by
      obtain ⟨n, hn, heq⟩ := List.mem_map.1 (hrenames.mentions_eq ▸ hfm)
      rwa [← hz.back m hm, ← heq, hz.back n (hmem n hn)])
    have hkept := alike_of_mention_eq hz.midway.valid hz'.grows
      (hz.midway.player_isSome (hz.isBound m hm)) hsame
    have hiff : m ∈ settled ++ c.mentions ↔ m ∈ settled := by simp [hmc]
    simp only [hiff]
    exact (hz.alike m hm).trans hkept

/-- A stage lets further clauses be resolved after many have been, and these only change what they
mention. -/
lemma Stage.midway_resolvesEach {cs cs' ds' : List Clause} (hz : Stage f g v y w ms settled z)
    (hmem : ∀ m ∈ cs.flatMap Clause.mentions, m ∈ ms) (hnodup : (cs.flatMap Clause.mentions).Nodup)
    (hrenames : List.Forall₂ (Clause.Renames f) cs cs') (hcs' : ∀ c ∈ cs', c.IsFresh)
    (h : ResolvesEach z cs' ds' z') :
    z'.Midway z.vocabulary ∧ ∀ m ∈ ms, m ∉ cs.flatMap Clause.mentions →
      z'.mention (f m) = z.mention (f m) := by
  have hmentions : cs'.flatMap Clause.mentions = (cs.flatMap Clause.mentions).map f :=
    flatMap_mentions_eq (hrenames.imp fun _ _ h => h.mentions_eq)
  have hinj : ∀ m ∈ ms, ∀ n ∈ ms, f m = f n → m = n := fun m hm n hn heq => by
    rw [← hz.back m hm, heq, hz.back n hn]
  have hnodup' : (cs'.flatMap Clause.mentions).Nodup := by
    rw [hmentions]
    exact (List.nodup_map_iff_inj_on hnodup).2 fun m hm n hn => hinj m (hmem m hm) n (hmem n hn)
  have hbound : ∀ n ∈ cs'.flatMap Clause.mentions, (z.mention n).binding.isSome := by
    rw [hmentions, List.forall_mem_map]
    exact fun m hm => hz.isBound m (hmem m hm)
  obtain ⟨hz', -, -, hkept⟩ := h.midway hz.midway.self hcs' hnodup' hbound
  refine ⟨hz', fun m hm hnot => hkept (f m) fun hfm => hnot ?_⟩
  obtain ⟨n, hn, heq⟩ := List.mem_map.1 (hmentions ▸ hfm)
  exact hinj n (hmem n hn) m hm heq ▸ hn

/-- **Steady clauses are resolved in any order.** Let clauses have been resolved each in its turn.
If what they invoke is steady, they are resolved in every other order, and each in the same way. -/
theorem Stage.exists_resolvesEach (before : List Clause) {es cs ds cs' : List Clause}
    (hv : v.Consistent)
    (hi : v.Inherits)
    (hy : y.Midway v) (hybound : ∀ m ∈ es.flatMap Clause.mentions, (y.mention m).binding.isSome)
    (hnodup : (es.flatMap Clause.mentions).Nodup) (hperm : (before ++ cs).Perm es)
    (hturns : List.Forall₂ (fun c d => ∃ before' x x', Turn v y w es c d before' x x') cs ds)
    (hsteady : List.Forall₂ (y.Steady w es) cs ds)
    (hrenames : List.Forall₂ (Clause.Renames f) cs cs')
    (hcs : ∀ c ∈ cs, c.IsFresh) (hcs' : ∀ c ∈ cs', c.IsFresh)
    (hz : Stage f g v y w (es.flatMap Clause.mentions) (before.flatMap Clause.mentions) z) :
    ∃ ds' z', ResolvesEach z cs' ds' z' ∧
      Stage f g v y w (es.flatMap Clause.mentions) ((before ++ cs).flatMap Clause.mentions) z' ∧
      List.Forall₂ (w.ResolvedAlike f v z') ds ds' := by
  induction hturns generalizing before cs' z with
  | nil =>
    cases hrenames
    exact ⟨[], z, .nil z, by rwa [List.append_nil], .nil⟩
  | @cons c d cs ds hturn hrest ih =>
    obtain ⟨before', x, x', hturn⟩ := hturn
    cases hsteady with
    | cons hsteady hsteadies =>
    cases hrenames with
    | @cons _ c' _ cs' hrename hrenames =>
    obtain ⟨hc, hcs⟩ := List.forall_mem_cons.1 hcs
    obtain ⟨hc', hcs'⟩ := List.forall_mem_cons.1 hcs'
    have hmem : ∀ e ∈ before ++ c :: cs, e ∈ es := fun e he => hperm.subset he
    have hms : ∀ m ∈ c.mentions, m ∈ es.flatMap Clause.mentions := fun m hm =>
      List.mem_flatMap.2 ⟨c, hmem c (by simp), hm⟩
    have hamid : Amid before c cs :=
      amid_of_nodup ((hperm.flatMap_right Clause.mentions).nodup_iff.2 hnodup)
    have hothers : ∀ e ∈ before, e ∈ es ∧ e ≠ c := fun e he =>
      ⟨hmem e (List.mem_append_left _ he), hamid.ne hturn.resolves.mentions_ne_nil e he⟩
    -- the clause is resolved as it was in its turn
    obtain ⟨d', z₁, hresolves, hd⟩ :=
      exists_resolvesTo hturn.stage hz hms hturn.pending hamid.notBefore
      hamid.nodup hv hi hy hybound hrename hc hc' (fun a ha b hb hcost =>
        hsteady a ha b hb hcost before' before hturn.others hothers) hturn.resolves
    have hmentions := hturn.resolves.mentions_eq
    obtain ⟨hz₁, -⟩ := hz.midway_resolvesTo hms hamid.nodup hrename hc' hresolves
    have hadvance : Stage f g v y w (es.flatMap Clause.mentions)
        ((before ++ [c]).flatMap Clause.mentions) z₁ := by
      rw [List.flatMap_append, List.flatMap_singleton]
      refine hz.advance hms hamid.nodup hrename hc' hresolves fun m hm => ?_
      exact (hd.alike m (hmentions ▸ hm)).later hturn.midway.valid hturn.later
        (hturn.mention_eq m hm)
        hz₁.valid hz₁.self rfl
    have happend : before ++ c :: cs = before ++ [c] ++ cs := List.append_cons ..
    obtain ⟨ds', z', hrest', hstage, hds⟩ :=
      ih (before ++ [c]) (happend ▸ hperm) hsteadies hrenames hcs hcs' hadvance
    refine ⟨d' :: ds', z', .cons hresolves hrest', happend ▸ hstage, .cons ?_ hds⟩
    -- and stays as it is while the others are
    have hcsms : ∀ m ∈ cs.flatMap Clause.mentions, m ∈ es.flatMap Clause.mentions := fun m hm => by
      obtain ⟨e, he, hm⟩ := List.mem_flatMap.1 hm
      exact List.mem_flatMap.2 ⟨e, hmem e (by simp [he]), hm⟩
    obtain ⟨hz', hkept⟩ := hadvance.midway_resolvesEach hcsms hamid.nodup_after hrenames hcs' hrest'
    refine hd.later hturn.midway.valid hturn.later (fun m hm => hturn.mention_eq m (hmentions ▸ hm))
      hz₁.valid hz' fun m hm => ?_
    have hmc : m ∈ c.mentions := hmentions ▸ hm
    exact hkept m (hms m hmc) (hamid.notAfter m hmc)

end Context

end FactModel
