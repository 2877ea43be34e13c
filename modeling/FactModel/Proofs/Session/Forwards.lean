import FactModel.Proofs.Definition.Invoking
import FactModel.Proofs.Matching.ExactTypes
import FactModel.Proofs.Session.Adjectives
import FactModel.Proofs.Session.Constraints
import FactModel.Proofs.Vocabulary.Fullness
set_option autoImplicit false

/-!
# Terms used before their declaration

While clauses are entered, a term that is no object type yet may become one. A mention refers to it
then, and the new object type is the player of this mention. So clauses add nothing to the
vocabulary if all their players were there before, as it is if they invoke readings that were there
before.

## Main definitions

* `FactModel.Context.AddsPlayers` — a vocabulary is as it was, or a mention is played by something
  new.

## Main results

* `FactModel.Compile.vocabulary_of_enter` — clauses whose players were there before add nothing.
* `FactModel.Compile.Invokes.vocabulary_of_enter` — neither does a clause that invokes a reading.
-/

namespace FactModel

open Attempt Compile Context

namespace Context

variable {v : Vocabulary} {x z : Context} {m : MentionId} {ms : List MentionId}

/-- The vocabulary is the one given, or one of the mentions is played by an object type that was not
there, and its term names this type by now. -/
def AddsPlayers (v : Vocabulary) (ms : List MentionId) (x : Context) : Prop :=
  x.vocabulary = v ∨ ∃ m ∈ ms, ∃ t, (x.mention m).player = some t ∧
    x.vocabulary.findObjectType? (x.mention m).term = some t ∧ t ∉ v.objectTypeIds

/-- The player of a term is an object type that there is or a role name stands for, or else it is
added to the vocabulary. -/
lemma player_of_resolvePlayer {term : String} {player : ObjectTypeId × Bool}
    (h : (resolvePlayer term).perform x = (.ok player, z)) :
    x.vocabulary.findObjectType? term = some player.1 ∧ z = x ∨
      x.vocabulary.findObjectType? term = none ∧
      (z = x ∨ player.1 = ⟨x.vocabulary.objectTypes.size⟩ ∧
        z = x.onto (x.vocabulary.pushObjectType term .entity true)) := by
  unfold resolvePlayer at h
  rw [perform_get_bind] at h
  split at h
  · next hfind =>
    cases h
    exact .inl ⟨hfind, rfl⟩
  next hfind =>
  refine .inr ⟨hfind, ?_⟩
  split at h
  · cases h
    exact .inl rfl
  split at h
  · obtain ⟨t, z, hedit, hpure⟩ := perform_bind_eq_ok.1 h
    rw [edit, perform_within, perform_addForwardEntityType hfind] at hedit
    cases hedit
    cases hpure
    exact .inr ⟨rfl, rfl⟩
  · cases h

/-- Finding the player of one of the mentions adds nothing but its player.

**Proof sketch.** A mention that is played by something new could be the same one. But then its term
names this type already, and it gets the same player again. -/
lemma AddsPlayers.resolve (h : x.AddsPlayers v ms) (hm : m ∈ ms) (hsize : m.index < x.mentions.size)
    {player : ObjectTypeId × Bool}
    (hplayer : (resolvePlayer (x.mention m).term).perform x = (.ok player, z))
    {change : Mention → Mention} (names : List (String × ObjectTypeId))
    (hchange : ∀ mention, (change mention).player = some player.1 ∧
      (change mention).term = mention.term) :
    ({ z with roleNamePlayers := names }.modifyMention m change).AddsPlayers v ms := by
  have hmentions : z.mentions = x.mentions := by
    rcases player_of_resolvePlayer hplayer with ⟨-, rfl⟩ | ⟨-, rfl | ⟨-, rfl⟩⟩ <;> rfl
  have hsame : ∀ n, z.mention n = x.mention n := fun n => by
    rw [mention, hmentions, mention]
  have hmention : ∀ n, ({ z with roleNamePlayers := names }.modifyMention m change).mention n =
      if n = m then change (x.mention m) else x.mention n := fun n => by
    rw [mention_modifyMention]
    change (if n = m ∧ m.index < z.mentions.size then change (z.mention m) else z.mention n) = _
    simp only [hmentions, hsame, hsize, and_true]
  -- A mention with another term than this one keeps its player.
  have hother : ∀ n, (x.mention n).term ≠ (x.mention m).term →
      ({ z with roleNamePlayers := names }.modifyMention m change).mention n = x.mention n := by
    intro n hn
    rw [hmention, if_neg]
    rintro rfl
    exact hn rfl
  have hkept : x.vocabulary.findObjectType? (x.mention m).term = none → ∀ n t,
      x.vocabulary.findObjectType? (x.mention n).term = some t →
        (x.mention n).term ≠ (x.mention m).term := by
    intro hnone n t hterm heq
    rw [heq, hnone] at hterm
    cases hterm
  rcases player_of_resolvePlayer hplayer with ⟨hfind, rfl⟩ | ⟨hfind, rfl | ⟨hnew, rfl⟩⟩
  · refine h.imp_right ?_
    rintro ⟨n, hn, t, ht, hterm, hnot⟩
    by_cases heq : n = m
    · subst heq
      refine ⟨n, hn, t, ?_, ?_, hnot⟩ <;> rw [hmention, if_pos rfl]
      · rw [(hchange _).1, ← hterm, hfind]
      · rw [(hchange _).2]
        exact hterm
    · exact ⟨n, hn, t, by rw [hmention, if_neg heq, ht], by
        rw [hmention, if_neg heq]; exact hterm, hnot⟩
  · refine h.imp_right ?_
    rintro ⟨n, hn, t, ht, hterm, hnot⟩
    have hsame := hother n (hkept hfind n t hterm)
    exact ⟨n, hn, t, by rw [hsame, ht], by rw [hsame]; exact hterm, hnot⟩
  · right
    have hpush := x.vocabulary.findObjectType?_pushObjectType (x.mention m).term .entity true
    rcases h with hv | ⟨n, hn, t, ht, hterm, hnot⟩
    · refine ⟨m, hm, player.1, ?_, ?_, ?_⟩
      · rw [hmention, if_pos rfl]
        exact (hchange _).1
      · rw [hmention, if_pos rfl, (hchange _).2, hnew]
        exact (hpush _).trans (if_pos rfl)
      · rw [hnew, ← hv]
        exact Vocabulary.size_not_mem_objectTypeIds
    · have hne := hkept hfind n t hterm
      refine ⟨n, hn, t, by rw [hother n hne, ht], ?_, hnot⟩
      rw [hother n hne]
      exact ((hpush _).trans (if_neg hne)).trans hterm

end Context

namespace Compile

variable {v : Vocabulary} {x y : Context} {m : MentionId} {ms ns : List MentionId}

/-- Finding the object type of a term adds no mention. -/
lemma size_resolvePlayer {term : String} {player : ObjectTypeId × Bool}
    (h : (resolvePlayer term).perform x = (.ok player, y)) : y.mentions.size = x.mentions.size := by
  rcases player_of_resolvePlayer h with ⟨-, rfl⟩ | ⟨-, rfl | ⟨-, rfl⟩⟩ <;> rfl

/-- Finding the player of a mention, declared role name or not, adds nothing but its player. -/
lemma addsPlayers_identify (hx : x.AddsPlayers v ms) (hm : m ∈ ms)
    (hsize : m.index < x.mentions.size)
    {declared : Option String} {u : Unit}
    (h : (match declared with
      | some roleName => identifyDeclaring m roleName
      | none => identifyPlain m).perform x = (.ok u, y)) :
    y.AddsPlayers v ms ∧ y.mentions.size = x.mentions.size := by
  cases declared with
  | some roleName =>
    obtain ⟨-, player, z, hplayer, rfl⟩ := perform_identifyDeclaring_eq_ok.1 h
    refine ⟨hx.resolve hm hsize hplayer _ fun _ => ⟨rfl, rfl⟩, ?_⟩
    have hsame := size_resolvePlayer hplayer
    exact (Array.size_modify ..).trans hsame
  | none =>
    obtain ⟨player, z, hplayer, rfl⟩ := perform_identifyPlain_eq_ok.1 h
    refine ⟨hx.resolve hm hsize hplayer z.roleNamePlayers fun _ => ⟨rfl, rfl⟩, ?_⟩
    exact (Array.size_modify ..).trans (size_resolvePlayer hplayer)

/-- Finding the players of some of the mentions adds nothing but their players. -/
lemma addsPlayers_identifyEach (hx : x.AddsPlayers v ms) (hns : ∀ n ∈ ns, n ∈ ms)
    (hsize : ∀ n ∈ ns, n.index < x.mentions.size) {change : MentionId → Compile PUnit}
    (hchange : ∀ n, change n = pure ⟨⟩ ∨ ∃ declared : Option String, change n = match declared with
      | some roleName => identifyDeclaring n roleName
      | none => identifyPlain n) {u : PUnit} (h : (ns.forM change).perform x = (.ok u, y)) :
    y.AddsPlayers v ms ∧ y.mentions.size = x.mentions.size := by
  induction ns generalizing x with
  | nil =>
    cases h
    exact ⟨hx, rfl⟩
  | cons n ns ih =>
    rw [List.forM] at h
    obtain ⟨_, z, hfirst, hrest⟩ := perform_bind_eq_ok.1 h
    obtain ⟨hz, hsame⟩ : z.AddsPlayers v ms ∧ z.mentions.size = x.mentions.size := by
      rcases hchange n with hnone | ⟨declared, hsome⟩
      · rw [hnone] at hfirst
        cases hfirst
        exact ⟨hx, rfl⟩
      · rw [hsome] at hfirst
        exact addsPlayers_identify hx (hns n List.mem_cons_self) (hsize n List.mem_cons_self) hfirst
    obtain ⟨hy, hsame'⟩ := ih hz (fun k hk => hns k (List.mem_cons_of_mem n hk))
      (fun k hk => hsame ▸ hsize k (List.mem_cons_of_mem n hk)) hrest
    exact ⟨hy, hsame'.trans hsame⟩

/-- Finding the players of clauses adds nothing but these. -/
lemma addsPlayers_identifyPlayers {cs : List Clause}
    (hsize : ∀ m ∈ allMentions cs, m.index < x.mentions.size) {u : Unit}
    (h : (identifyPlayers cs).perform x = (.ok u, y)) :
    y.AddsPlayers x.vocabulary (allMentions cs) := by
  rw [identifyPlayers, perform_get_bind] at h
  obtain ⟨_, z, hdeclaring, hplain⟩ := perform_bind_eq_ok.1 h
  obtain ⟨hz, hsame⟩ := addsPlayers_identifyEach (.inl rfl) (fun _ => id) hsize (fun n => by
    cases (x.mention n).declaredName? with
    | some roleName => exact .inr ⟨some roleName, rfl⟩
    | none => exact .inl rfl) hdeclaring
  refine (addsPlayers_identifyEach hz (fun _ => id) (hsame.symm ▸ hsize) (fun n => ?_) hplain).1
  cases (x.mention n).declaredName? with
  | some roleName => exact .inl rfl
  | none => exact .inr ⟨none, rfl⟩

/-- **Entering adds nothing but players.** Clauses that are entered add nothing to the vocabulary if
all players of their mentions were there before. -/
theorem vocabulary_of_enter {forwardTerms : List String} {clauses : List Script.Clause}
    {cs : List Clause} (h : (enter clauses).perform { vocabulary := v, forwardTerms } = (.ok cs, y))
    (hplayers : ∀ m ∈ allMentions cs, ∀ t ∈ (y.mention m).player, t ∈ v.objectTypeIds) :
    y.vocabulary = v := by
  let x : Context := { vocabulary := v, forwardTerms }
  obtain ⟨_, z, hidentify, hrest⟩ := perform_bind_eq_ok.1
    (show (do
      identifyPlayers (adoptAll clauses x).1
      bindClauses (adoptAll clauses x).1
      pure (adoptAll clauses x).1 : Compile (List Clause)).perform (adoptAll clauses x).2 =
        (.ok cs, y)
      from h)
  obtain ⟨_, w, hbind, hpure⟩ := perform_bind_eq_ok.1 hrest
  cases hpure
  have hadopts := adopts_adoptAll clauses x
  have hplaces := places_adoptAll clauses x
  have hz := addsPlayers_identifyPlayers (fun m hm => (hplaces.mem_range m hm).2) hidentify
  rw [hadopts.vocabulary_eq] at hz
  have hbinds := bindsEach_of_bindEach (bindEach_of_bindClauses _ hbind)
  rw [hbinds.vocabulary_eq]
  refine hz.resolve_right ?_
  rintro ⟨m, hm, t, ht, -, hnot⟩
  refine hnot (hplayers m hm t ?_)
  rw [hbinds.mention_eq]
  exact ht

/-- The player of a mention of a clause that invokes a reading is that of a role of the reading. -/
lemma Invokes.exists_player {c : Clause} {a : Alignment} (h : Invokes x c a y)
    (hm : m ∈ allMentions [c]) :
    ∃ ref ∈ x.vocabulary.readingRefs a.reading,
      (x.mention m).player = some (x.vocabulary.playerOf ref.role) := by
  rw [allMentions_eq, List.flatMap_singleton, c.perm_allMentions.mem_iff, List.mem_append] at hm
  replace hm : m ∈ c.mentions := by
    refine hm.resolve_right fun hnested => ?_
    obtain ⟨s, hs, d, hd, -⟩ := mem_nestedMentions.1 hnested
    rw [h.flat s hs] at hd
    cases hd
  obtain ⟨-, halign⟩ := mem_rank.1 (mem_of_select h.select_eq)
  obtain ⟨-, hwalks, -⟩ := align_eq_ok_iff.1 halign
  have htakes := hwalks.takes
  change List.Forall₂ _ c.slots a.placements at htakes
  obtain ⟨s, hs, rfl⟩ := List.mem_map.1 hm
  obtain ⟨i, hi, rfl⟩ := List.mem_iff_getElem.1 hs
  obtain ⟨-, ⟨ref, href, hrole⟩, hplayer⟩ := htakes.get (i := i) hi (htakes.length_eq ▸ hi)
  exact ⟨ref, List.mem_of_getElem? href, hrole ▸ (eq_of_walkPlayer_exactTypes hplayer).2⟩

/-- **Invoking adds no types.** A clause that invokes a reading once it has been entered adds
nothing to the vocabulary when it is entered.

**Proof sketch.** Entering adds no readings, so that the reading was there before, and with it the
players of its roles. Since types are matched exactly, these are the players of the clause. -/
theorem Invokes.vocabulary_of_enter {s : Session} (hs : s.vocabulary.WellFormed)
    {clause : Script.Clause} {c : Clause} {a : Alignment} (h : Invokes x c a y)
    (henter : (enter [clause]).perform s.context = (.ok [c], x)) (hx : x.vocabulary.WellFormed) :
    x.vocabulary = s.vocabulary := by
  have hgrows := (Session.evolvesSparing_of_enter henter).evolves.retains.toGrows
  have hspares : x.vocabulary.readings = s.vocabulary.readings :=
    ((leads_enter_through (R := Vocabulary.SparesReadings)
      (fun _ => ⟨rfl, rfl⟩) Vocabulary.sparesReadings_addForwardEntityType [clause]
      s.context).of_perform henter).1.1
  have hreading : a.reading ∈ s.vocabulary.readingIds := by
    have hmem := h.reading_mem hx
    rwa [Vocabulary.mem_readingIds, hspares, ← Vocabulary.mem_readingIds] at hmem
  refine Compile.vocabulary_of_enter henter fun m hm t ht => ?_
  obtain ⟨ref, href, hplayer⟩ := h.exists_player hm
  rw [hs.readingRefs_eq hgrows hreading] at href
  have hrole := hs.ref_mem _ ref href
  obtain rfl := Option.some.inj (hplayer.symm.trans ht)
  rw [hgrows.playerOf_eq hrole]
  exact hs.role_player_mem hrole

end Compile

end FactModel
