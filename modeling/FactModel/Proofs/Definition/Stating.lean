import FactModel.Proofs.Definition.Bindings
import FactModel.Proofs.Definition.Creation
import FactModel.Proofs.Definition.FactType
import FactModel.Proofs.Definition.Roles
import FactModel.Proofs.Matching.Changing
set_option autoImplicit false

/-!
# Clauses that state readings

A clause of a declaration either invokes a reading, which gives its mentions different roles of one
fact type, or becomes a reading, for which such roles are found. In the end its role sequence has
the roles of its mentions, in their order.

## Main definitions

* `FactModel.Context.Ready` — clauses that have been entered and not yet resolved.
* `FactModel.Context.Fills` — mentions that have different roles of a fact type.
* `FactModel.Context.Told` — a clause invokes nothing, or it invokes a reading with such mentions.
* `FactModel.Context.States` — a clause states a reading with a role sequence.
* `FactModel.Context.Misses` — no reading matches a clause, which is left as it is.

## Main results

* `FactModel.Compile.told_resolveAllStated` — clauses that have been resolved invoke nothing, or
  what gives their mentions different roles.
* `FactModel.Compile.told_stated` — so do they once there is a fact type for all of them.
* `FactModel.Compile.states_stateReadings` — each of them then states a reading.
-/

namespace FactModel

open Attempt Compile

namespace Context

variable {x y z : Context} {f : FactTypeId} {c d : Clause} {cs ds : List Clause}
  {ms : List MentionId} {may : MentionId → Prop}

/-! ## Clauses that have been entered -/

/-- Clauses that are ready to be resolved: nothing has been resolved in them, no two of their
mentions are one, and all mentions are bound. -/
structure Ready (x : Context) (cs : List Clause) : Prop where
  valid : x.Valid
  bound : x.Bound
  unmerged : x.Unmerged
  fits : ∀ c ∈ cs, c.Everywhere x.Fits
  unmatched : ∀ c ∈ cs, c.factType = none ∧ c.contraction = none
  unread : ∀ c ∈ cs, c.reading = none
  nodup : (allMentions cs).Nodup
  isBound : ∀ m ∈ allMentions cs, x.IsBound m

/-- The mentions of clauses put together are those of both. -/
lemma allMentions_append (cs ds : List Clause) :
    allMentions (cs ++ ds) = allMentions cs ++ allMentions ds := by
  rw [allMentions_eq, allMentions_eq, allMentions_eq, List.flatMap_append]

/-- A mention of a clause is a mention of the clauses. -/
lemma mem_allMentions_of_mem {m : MentionId} (hc : c ∈ cs) (hm : m ∈ c.allMentions) :
    m ∈ allMentions cs :=
  allMentions_eq cs ▸ List.mem_flatMap.2 ⟨c, hc, hm⟩

namespace Ready

/-- The first of some clauses that are ready are ready. -/
lemma append_left (h : x.Ready (cs ++ ds)) : x.Ready cs where
  valid := h.valid
  bound := h.bound
  unmerged := h.unmerged
  fits c hc := h.fits c (List.mem_append_left ds hc)
  unmatched c hc := h.unmatched c (List.mem_append_left ds hc)
  unread c hc := h.unread c (List.mem_append_left ds hc)
  nodup := (List.nodup_append'.1 (allMentions_append cs ds ▸ h.nodup)).1
  isBound m hm := h.isBound m (allMentions_append cs ds ▸ List.mem_append_left _ hm)

/-- The last of some clauses that are ready are ready. -/
lemma append_right (h : x.Ready (cs ++ ds)) : x.Ready ds where
  valid := h.valid
  bound := h.bound
  unmerged := h.unmerged
  fits c hc := h.fits c (List.mem_append_right cs hc)
  unmatched c hc := h.unmatched c (List.mem_append_right cs hc)
  unread c hc := h.unread c (List.mem_append_right cs hc)
  nodup := (List.nodup_append'.1 (allMentions_append cs ds ▸ h.nodup)).2.1
  isBound m hm := h.isBound m (allMentions_append cs ds ▸ List.mem_append_right _ hm)

/-- A context in which clauses are ready sustains its mentions. -/
lemma sustains (h : x.Ready cs) : x.Sustains x.mentions.size x :=
  ⟨.refl (Nat.le_refl _) h.unmerged, h.bound⟩

/-- Clauses are still ready after roles have been given to other mentions. -/
lemma later (h : x.Ready cs) (hgives : x.GivesRoles may y)
    (hdisjoint : ∀ m ∈ allMentions cs, ¬may m) (hsustains : x.Sustains x.mentions.size y) :
    y.Ready cs where
  valid := hgives.valid
  bound := hsustains.bound
  unmerged := hsustains.carries.unmerged
  fits c hc := hgives.everywhere_fits h.valid (h.fits c hc) fun m hm =>
    hdisjoint m (mem_allMentions_of_mem hc hm)
  unmatched := h.unmatched
  unread := h.unread
  nodup := h.nodup
  isBound m hm := hsustains.carries.isBound (h.isBound m hm).index_lt (h.isBound m hm)

end Ready

/-! ## Different roles of a fact type -/

/-- The mentions have roles of a fact type, no two of them the same. -/
structure Fills (x : Context) (f : FactTypeId) (ms : List MentionId) : Prop where
  role : ∀ m ∈ ms, ∃ r ∈ (x.mention m).role, r ∈ (x.vocabulary.factType f).roles
  nodup : (ms.map fun m => (x.mention m).role).Nodup

/-- Mentions keep their roles while roles are given to others. -/
lemma Fills.gives (h : x.Fills f ms) (hf : f ∈ x.vocabulary.factTypeIds)
    (hgives : x.GivesRoles may y) (hdisjoint : ∀ m ∈ ms, ¬may m) : y.Fills f ms := by
  have hrole : ∀ m ∈ ms, (y.mention m).role = (x.mention m).role := fun m hm =>
    hgives.role_eq m (hdisjoint m hm)
  refine ⟨fun m hm => ?_, ?_⟩
  · obtain ⟨r, hr, hmem⟩ := h.role m hm
    refine ⟨r, ?_, (hgives.grows.factType hf).roles.subset hmem⟩
    rw [hrole m hm]
    exact hr
  · rw [List.map_congr_left hrole]
    exact h.nodup

/-- A clause invokes nothing, or it invokes a reading that gives its mentions different roles of its
fact type. -/
structure Told (x : Context) (c : Clause) : Prop where
  fills : c.reading.isSome → ∃ f ∈ c.factType, f ∈ x.vocabulary.factTypeIds ∧
    x.Fills f c.mentions ∧ c.roleSequence.isSome
  unread : c.factType = none → c.reading = none

/-- A clause still invokes a reading that gives its mentions their roles, if only other mentions are
given some. -/
lemma Told.gives (h : x.Told c) (hgives : x.GivesRoles may y)
    (hdisjoint : ∀ m ∈ c.mentions, ¬may m) : y.Told c where
  fills hc := by
    obtain ⟨f, hf, hmem, hfills, hs⟩ := h.fills hc
    exact ⟨f, hf, hgives.grows.mem_factTypeIds hmem, hfills.gives hmem hgives hdisjoint, hs⟩
  unread := h.unread

/-- A clause states a reading: its role sequence has the roles of its mentions in their order,
different roles of one fact type. -/
structure States (x : Context) (f : FactTypeId) (c : Clause) (s : RoleSequenceId) : Prop where
  factType_mem : f ∈ x.vocabulary.factTypeIds
  roleSequence_eq : c.roleSequence = some s
  roleSequence_mem : s ∈ x.vocabulary.roleSequenceIds
  roles_eq : c.mentions.map (fun m => (x.mention m).role) =
    (x.vocabulary.roleSequence s).roles.map some
  nodup : (x.vocabulary.roleSequence s).roles.Nodup
  mem : ∀ r ∈ (x.vocabulary.roleSequence s).roles, r ∈ (x.vocabulary.factType f).roles

/-- What a clause states stays stated while roles are given to other mentions. -/
lemma States.gives {s : RoleSequenceId} (h : x.States f c s) (hgives : x.GivesRoles may y)
    (hdisjoint : ∀ m ∈ c.mentions, ¬may m) : y.States f c s := by
  have hsequence := hgives.grows.roleSequence_eq h.roleSequence_mem
  refine ⟨hgives.grows.mem_factTypeIds h.factType_mem, h.roleSequence_eq,
    hgives.grows.mem_roleSequenceIds h.roleSequence_mem, ?_, hsequence ▸ h.nodup, fun r hr => ?_⟩
  · rw [hsequence, ← h.roles_eq]
    exact List.map_congr_left fun m hm => hgives.role_eq m (hdisjoint m hm)
  · rw [hsequence] at hr
    exact (hgives.grows.factType h.factType_mem).roles.subset (h.mem r hr)

/-- Mentions whose different roles are those of a role sequence state them. -/
lemma Fills.states {s : RoleSequenceId} (h : x.Fills f c.mentions)
    (hf : f ∈ x.vocabulary.factTypeIds) (hc : c.roleSequence = some s)
    (hs : s ∈ x.vocabulary.roleSequenceIds)
    (hroles : c.mentions.map (fun m => (x.mention m).role) =
      (x.vocabulary.roleSequence s).roles.map some) : x.States f c s := by
  refine ⟨hf, hc, hs, hroles, ?_, fun r hr => ?_⟩
  · exact List.Nodup.of_map some (hroles ▸ h.nodup)
  · obtain ⟨m, hm, hrole⟩ := List.mem_map.1 (hroles.symm ▸ List.mem_map_of_mem (f := some) hr)
    obtain ⟨r', hr', hmem⟩ := h.role m hm
    obtain rfl : r' = r := Option.some.inj ((Option.mem_def.1 hr').symm.trans hrole)
    exact hmem

/-- A clause that states a reading has its mentions in different roles of the fact type. -/
lemma States.fills {s : RoleSequenceId} (h : x.States f c s) : x.Fills f c.mentions := by
  refine ⟨fun m hm => ?_, ?_⟩
  · have hmem := List.mem_map_of_mem (f := fun m => (x.mention m).role) hm
    rw [h.roles_eq] at hmem
    obtain ⟨r, hr, hrole⟩ := List.mem_map.1 hmem
    exact ⟨r, Option.mem_def.2 hrole.symm, h.mem r hr⟩
  · rw [h.roles_eq]
    exact h.nodup.map fun _ _ => Option.some.inj

/-- No reading matches a clause. It is left as it is, and only what is nested in it has been
resolved. -/
structure Misses (x : Context) (options : MatchOptions) (c d : Clause) (y : Context) : Prop where
  phrases : ∃ phrases, SameBare c.phrases phrases ∧ d = { c with phrases }
  changes : x.ChangesOnly (· ∈ nestedMentions c.slots) y
  alignments : (y.rank options d).alignments = []

end Context

open Context

namespace Compile

variable {x y : Context} {f : FactTypeId} {c d : Clause} {cs ds : List Clause}

/-! ## Invoking readings -/

/-- Putting a clause into the words of a reading gives every mention the role of its placement. -/
lemma ends_applyAlignment_role {options : MatchOptions} {a : Alignment}
    (halign : x.align options c a.reading = .ok a) (hnodup : c.mentions.Nodup)
    (hsize : ∀ m ∈ c.mentions, m.index < x.mentions.size) :
    (applyAlignment c a).Ends x (fun d y => d = c.aligned a ∧ y.vocabulary = x.vocabulary ∧
      d.mentions.map (fun m => (y.mention m).role) = a.placements.map fun p => some p.role)
      fun _ => True := by
  have hmentions : a.placements.map (·.mention) = c.mentions :=
    (align_eq_ok_iff.1 halign).2.1.mentions_eq
  have hreverse : (a.placements.reverse.map (·.mention)).Nodup := by
    rw [List.map_reverse, List.nodup_reverse, hmentions]
    exact hnodup
  have hplaced := ends_applyPlacements_mention Mention.role (fun _ _ => rfl) a.roleSequence
    (fun p => some p.role) (fun _ _ => rfl) hreverse fun p hp =>
      hsize _ (hmentions ▸ List.mem_map_of_mem (List.mem_reverse.1 hp))
  have hvocabulary := leads_applyAlignment_givesEach (P := fun _ _ => True) (a := a)
    (fun _ _ => trivial) c x
  have hroles : (applyAlignment c a).Ends x
      (fun _ y => ∀ p ∈ a.placements, (y.mention p.mention).role = some p.role) fun _ => True := by
    refine ends_bind.2 (hplaced.imp (fun _ y hy => ?_) fun _ => id)
    exact fun p hp => hy p (List.mem_reverse.2 hp)
  refine (Ends.and hvocabulary hroles).imp ?_ fun _ _ => trivial
  rintro d y ⟨⟨hgives, rfl⟩, hy⟩
  refine ⟨rfl, hgives.vocabulary_eq, ?_⟩
  rw [Clause.mentions, Clause.slots_aligned halign, ← Clause.mentions, ← hmentions, List.map_map]
  exact List.map_congr_left hy

/-- The mentions of a clause that invokes a reading get different roles of the fact type. -/
lemma ends_invokeReading_told (options : MatchOptions) (h : x.Valid) (hnodup : c.mentions.Nodup)
    (hsize : ∀ m ∈ c.mentions, m.index < x.mentions.size) :
    (invokeReading options c).Ends x (fun r y => ∀ d ∈ r, y.Told d) fun _ => True := by
  refine ends_bind.2 (ends_get.2 (ends_bind.2 (ends_ofExcept.2 ?_)))
  split
  · next r hselect =>
    cases r with
    | none => exact fun _ hd => nomatch hd
    | some a =>
      obtain ⟨htried, halign⟩ := mem_rank.1 (mem_of_select hselect)
      obtain ⟨-, f, hf⟩ := mem_triedReadings htried
      have hreading := (h.consistent.mem_readings.1 hf).1
      obtain ⟨-, hwalks, -, hfactType, -, -⟩ := align_eq_ok_iff.1 halign
      refine ends_map.2 ((ends_applyAlignment_role halign hnodup hsize).imp ?_ fun _ => id)
      rintro d y ⟨rfl, hvocabulary, hroles⟩
      rintro d ⟨⟩
      refine ⟨fun _ => ⟨a.factType, rfl, ?_, ⟨fun m hm => ?_, ?_⟩, rfl⟩, fun hn => nomatch hn⟩
      · rw [hvocabulary, hfactType]
        exact h.consistent.reading_factType_mem hreading
      · obtain ⟨p, hp, hrole⟩ := List.mem_map.1
          (hroles ▸ List.mem_map_of_mem (f := fun m => (y.mention m).role) hm)
        obtain ⟨ref, href, hrefrole⟩ := role_of_mem_placements halign hp
        refine ⟨p.role, hrole.symm, ?_⟩
        rw [hrefrole, hfactType, hvocabulary]
        exact h.consistent.ref_mem_roles hreading href
      · rw [hroles]
        have hnodup' := (hwalks.roles_nodup (h.consistent.places_nodup _ hreading)
          (h.consistent.refs_nodup _ hreading)).map (fun _ _ => Option.some.inj)
        rwa [List.map_map] at hnodup'
  · trivial

/-- What is nested in phrases does not matter for their words. -/
lemma exists_word_of_sameBare {ps qs : List Phrase} (h : SameBare ps qs)
    (hps : ∃ p ∈ ps, p.word?.isSome) : ∃ q ∈ qs, q.word?.isSome := by
  have hbare : ∀ p : Phrase, p.bare.word? = p.word? := fun p => by cases p <;> rfl
  obtain ⟨p, hp, hword⟩ := hps
  obtain ⟨q, hq, heq⟩ := List.mem_map.1 (h ▸ List.mem_map_of_mem (f := Phrase.bare) hp)
  exact ⟨q, hq, by rw [← hbare, heq, hbare, hword]⟩

/-- If a clause invokes nothing, no reading matches it, and nothing changes. -/
lemma ends_invokeReading_none (options : MatchOptions) (c : Clause) (x : Context) :
    (invokeReading options c).Ends x (fun r y => r = none →
      y = x ∧ (x.rank options c).alignments = []) fun _ => True := by
  refine ends_bind.2 (ends_get.2 (ends_bind.2 (ends_ofExcept.2 ?_)))
  split
  · next r hselect =>
    cases r with
    | none => exact fun _ => ⟨rfl, alignments_eq_nil_of_select hselect⟩
    | some a => exact ends_map.2 (ends_bind_of_forall fun _ _ => fun h => absurd h (by simp))
  · trivial

/-- A clause with words is missed, or it comes to invoke a reading. -/
lemma ends_resolve_of_invokeReading (options : MatchOptions) {P : Clause → Context → Prop}
    (hinvoke : ∀ {y d}, y.Valid → d.mentions.Nodup →
      (∀ m ∈ d.mentions, m.index < y.mentions.size) →
        (invokeReading options d).Ends y (fun r z => ∀ e ∈ r, P e z) fun _ => True) {n : Nat}
    (hx : x.Valid) (hcarries : x.Carries n x) (hc : c.Everywhere x.Fits)
    (hnodup : c.allMentions.Nodup) (hsize : ∀ m ∈ c.mentions, m.index < n)
    (hwords : ∃ p ∈ c.phrases, p.word?.isSome) :
    (ofResolved (resolve options c)).Ends x
      (fun r y => P r.1 y ∨ x.Misses options c r.1 y) fun _ => True := by
  have hbelow : ∀ s ∈ c.phrases.flatMap Phrase.slots,
      s.Below fun d => ∀ m ∈ d.mentions, m ∈ nestedMentions c.slots := fun s hs d hd =>
    everywhere_mentions fun m hm => mem_nestedMentions.2 ⟨s, hs, d, hd, hm⟩
  have hnested := Ends.and (Ends.and (ends_resolvePhrases_fits options c.phrases hx hc.nested
    (Clause.nodup_nestedMentions hnodup)) ((completes_carries options n none).leads_resolvePhrases
      c.phrases hcarries fun s _ d _ => d.everywhere_of_forall fun _ => trivial))
    ((resolves_changesOnly options (· ∈ nestedMentions c.slots)).leads_resolvePhrases c.phrases
      (.refl x) hbelow)
  rw [ofResolved_resolve]
  refine ends_bind.2 (hnested.imp ?_ fun _ _ => trivial)
  rintro r y ⟨⟨⟨hgives, -⟩, hcarries, hbare, -⟩, hchanges, -⟩
  have hmentions : Clause.mentions { c with phrases := r.1 } = c.mentions := hbare.mentions_eq.symm
  have hwords' := exists_word_of_sameBare hbare hwords
  have hflat : (resolveFlat options { c with phrases := r.1 }).Ends y
      (fun q z => (∀ d ∈ q, P d z) ∧ (q = none →
        z = y ∧ (y.rank options { c with phrases := r.1 }).alignments = [])) fun _ => True := by
    unfold resolveFlat
    rw [comparison?_of_word hwords']
    refine ends_bind.2 (ends_get.2 ?_)
    rw [isExistential_of_word y hwords']
    refine (Ends.and (hinvoke hgives.valid ?_ fun m hm => ?_)
      (ends_invokeReading_none options _ y)).imp (fun _ _ => id) fun _ _ => trivial
    · rw [hmentions]
      exact (List.nodup_append'.1 (c.perm_allMentions.nodup_iff.1 hnodup)).1
    · exact Nat.lt_of_lt_of_le (hsize m (hmentions ▸ hm)) hcarries.le_size
  rw [ofResolved_resolveItself]
  refine ends_bind.2 (hflat.imp (fun q z hq => ?_) fun _ => id)
  cases q with
  | none =>
    obtain ⟨rfl, halignments⟩ := hq.2 rfl
    exact .inr ⟨⟨r.1, hbare, rfl⟩, hchanges, halignments⟩
  | some d => exact .inl (hq.1 d rfl)

/-- A clause that states a reading is missed, or it comes to invoke a reading. -/
lemma resolveStated_of_invokeReading {P : Clause → Context → Prop}
    (hinvoke : ∀ {y d}, y.Valid → d.mentions.Nodup →
      (∀ m ∈ d.mentions, m.index < y.mentions.size) →
        (invokeReading { exactTypes := true } d).Ends y (fun r z => ∀ e ∈ r, P e z) fun _ => True)
    (hx : x.Ready [c]) (h : (resolveStated c).perform x = (.ok d, y)) :
    P d y ∨ x.Misses { exactTypes := true } c d y := by
  have hmentions : allMentions [c] = c.allMentions := by
    rw [allMentions_eq, List.flatMap_singleton]
  unfold resolveStated at h
  split at h
  · obtain ⟨_, _, -, hthrow⟩ := perform_bind_eq_ok.1 h
    obtain ⟨_, _, hthrow, -⟩ := perform_bind_eq_ok.1 hthrow
    cases hthrow
  · next hwords =>
    obtain ⟨r, z, hresolve, hpure⟩ := perform_bind_eq_ok.1 h
    cases hpure
    refine (ends_resolve_of_invokeReading _ hinvoke hx.valid hx.sustains.carries
      (hx.fits c List.mem_cons_self) (hmentions ▸ hx.nodup) (fun m hm => ?_) ?_).of_perform hresolve
    · exact (hx.isBound m (hmentions ▸ c.mentions_subset_allMentions hm)).index_lt
    · simpa [Option.isSome_iff_ne_none] using hwords

/-- A clause that states a reading comes to invoke nothing or a reading that gives its mentions
different roles. -/
lemma told_resolveStated (hx : x.Ready [c]) (h : (resolveStated c).perform x = (.ok d, y)) :
    x.GivesRoles (· ∈ c.allMentions) y ∧ c.KeepsMentions d ∧ y.Told d := by
  have hmentions : allMentions [c] = c.allMentions := by
    rw [allMentions_eq, List.flatMap_singleton]
  obtain ⟨hgives, hd⟩ := (ends_resolveStated_rolesOnly hx.valid (hx.fits c List.mem_cons_self)
    (hx.unmatched c List.mem_cons_self).1 (hmentions ▸ hx.nodup)).of_perform h
  refine ⟨hgives, hd, ?_⟩
  rcases resolveStated_of_invokeReading (P := fun d y => y.Told d)
    (fun hy hnodup hsize => ends_invokeReading_told _ hy hnodup hsize) hx h
    with htold | ⟨⟨_, -, rfl⟩, -, -⟩
  · exact htold
  · have hunread : c.reading = none := hx.unread c List.mem_cons_self
    refine ⟨fun hread => ?_, fun _ => hunread⟩
    rw [hunread] at hread
    cases hread

/-- Clauses that state readings come to invoke nothing or readings that give their mentions
different roles.

**Proof sketch.** By induction on the clauses. What a clause invokes gives roles to its own mentions
only, so the clauses behind it are still ready and those before it keep their roles. -/
theorem told_resolveAllStated (hx : x.Ready cs)
    (h : (resolveAllStated cs).perform x = (.ok ds, y)) :
    x.GivesRoles (· ∈ allMentions cs) y ∧ List.Forall₂ Clause.KeepsMentions cs ds ∧
      ∀ d ∈ ds, y.Told d := by
  induction cs generalizing x ds with
  | nil =>
    cases h
    exact ⟨hx.valid.givesRoles _, .nil, List.forall_mem_nil _⟩
  | cons c cs ih =>
    obtain ⟨d, z, hfirst, hrest⟩ := perform_bind_eq_ok.1 h
    obtain ⟨es, z', hmore, hpure⟩ := perform_bind_eq_ok.1 hrest
    cases hpure
    rw [← List.singleton_append] at hx
    have htail : x.Ready cs := hx.append_right
    have hnodup := List.nodup_append'.1 (allMentions_cons c cs ▸ hx.nodup)
    have hsustains := ((defines_sustains x.mentions.size).resolveStated c hx.sustains).of_perform
      hfirst |>.1
    obtain ⟨hgives, hkeeps, htold⟩ := told_resolveStated hx.append_left hfirst
    have hready : z.Ready cs := htail.later hgives
      (fun m hm hmem => hnodup.2.2 hmem hm) hsustains
    obtain ⟨hgives', hkeeps', htold'⟩ := ih hready hmore
    rw [allMentions_cons]
    refine ⟨hgives.append hgives', .cons hkeeps hkeeps', List.forall_mem_cons.2 ⟨?_, htold'⟩⟩
    refine htold.gives hgives' fun m hm hmem => hnodup.2.2 ?_ hmem
    exact hkeeps.allMentions_eq ▸ d.mentions_subset_allMentions hm

/-! ## The fact type -/

/-- Finding the fact type keeps the mentions of clauses. -/
lemma keepsMentions_statedFactType {created : Bool} (hx : x.Valid)
    (h : (statedFactType cs).perform x = (.ok (f, created, ds), y)) :
    List.Forall₂ Clause.KeepsMentions cs ds := by
  unfold statedFactType at h
  split at h
  · cases h
    exact List.forall₂_same.2 fun c _ => .refl c
  · next first others _ =>
    obtain ⟨⟨g, first'⟩, z, hmake, hpure⟩ := perform_bind_eq_ok.1 h
    cases hpure
    obtain ⟨-, -, k, hfirst⟩ := (leads_makeFactType hx first).of_perform hmake
    refine .cons ?_ (List.forall₂_same.2 fun c _ => .refl c)
    rw [show first' = { first with factType := some k } from hfirst]
    exact ⟨rfl, by rw [Clause.allMentions_eq, first.allMentions_eq], rfl⟩
  · cases h
  · rw [perform_get_bind] at h
    cases h

/-- If a clause invokes a reading, its fact type is the one that is declared, and nothing
changes. -/
lemma statedFactType_of_reading {created : Bool} (hx : x.Valid) (htold : ∀ c ∈ cs, x.Told c)
    (h : (statedFactType cs).perform x = (.ok (f, created, ds), y)) (hd : d ∈ ds)
    (hread : d.reading.isSome) : ds = cs ∧ y = x ∧ d.factType = some f := by
  unfold statedFactType at h
  split at h
  · next existing hexisting =>
    cases h
    refine ⟨rfl, rfl, ?_⟩
    obtain ⟨g, hg, -⟩ := (htold d hd).fills hread
    have hmem : g ∈ (ds.filterMap (·.factType)).eraseDups :=
      List.mem_eraseDups.2 (List.mem_filterMap.2 ⟨d, hd, hg⟩)
    rw [hexisting] at hmem
    obtain rfl := List.mem_singleton.1 hmem
    exact hg
  · next first others hnone =>
    have hunread : ∀ c ∈ first :: others, c.reading = none := fun c hc =>
      (htold c hc).unread (factType_eq_none_of_eraseDups hnone c hc)
    obtain ⟨⟨g, first'⟩, z, hmake, hpure⟩ := perform_bind_eq_ok.1 h
    cases hpure
    obtain ⟨-, -, k, hfirst⟩ := (leads_makeFactType hx first).of_perform hmake
    have hsame : d.reading = none := by
      rcases List.mem_cons.1 hd with rfl | hd
      · rw [show d = { first with factType := some k } from hfirst]
        exact hunread first List.mem_cons_self
      · exact hunread d (List.mem_cons_of_mem first hd)
    rw [hsame] at hread
    cases hread
  · cases h
  · rw [perform_get_bind] at h
    cases h

/-- Clauses of which one fact type is declared either invoke readings of it or become such.

**Proof sketch.** If there is one fact type that clauses invoke, it is that of all that invoke
anything. Else no clause invokes anything, and the first one gets a new fact type. -/
theorem told_statedFactType {created : Bool} (hx : x.Valid)
    (hcs : ∀ c ∈ cs, c.Valid x.vocabulary) (htold : ∀ c ∈ cs, x.Told c)
    (h : (statedFactType cs).perform x = (.ok (f, created, ds), y)) :
    x.GivesRoles (· ∈ allMentions cs) y ∧ List.Forall₂ Clause.KeepsMentions cs ds ∧
      f ∈ y.vocabulary.factTypeIds ∧ ∀ d ∈ ds, d.InRange y.vocabulary ∧
        (d.reading.isSome → y.Fills f d.mentions ∧ d.roleSequence.isSome) := by
  obtain ⟨hextends, hf, hrange⟩ := (leads_statedFactType hx hcs).of_perform h
  have hroles : x.RolesOnly (· ∈ allMentions cs) y := (leads_statedFactType_rolesOnly
    (fun c hc m hm => mem_allMentions_of_mem hc (c.mentions_subset_allMentions hm)) x).of_perform
    h |>.1
  refine ⟨⟨hextends, hroles⟩, keepsMentions_statedFactType hx h, hf,
    fun d hd => ⟨hrange d hd, fun hread => ?_⟩⟩
  obtain ⟨rfl, rfl, hfactType⟩ := statedFactType_of_reading hx htold h hd hread
  obtain ⟨g, hg, -, hfills, hs⟩ := (htold d hd).fills hread
  obtain rfl : g = f := Option.some.inj ((Option.mem_def.1 hg).symm.trans hfactType)
  exact ⟨hfills, hs⟩

section Stated

variable {w : Context} {resolved : List Clause} {created : Bool} (hx : x.Ready cs)
  (hresolve : (resolveAllStated cs).perform x = (.ok resolved, w))

include hx hresolve

/-- Clauses that have been resolved are about what there is. -/
lemma valid_resolveAllStated : ∀ d ∈ resolved, d.Valid w.vocabulary := by
  have hcs : ∀ c ∈ cs, c.Everywhere (Clause.Valid x.vocabulary) := fun c hc =>
    (hx.fits c hc).imp fun _ hd => hd.valid
  have hvalid := ((leads_resolveAllStated hx.valid hcs).of_perform hresolve).2
  exact fun d hd => (hvalid d hd).here

variable (hstated : (statedFactType resolved).perform w = (.ok (f, created, ds), y))

include hstated

/-- If a clause invokes a reading, the fact type that is found for all clauses is its own, and they
stay as they have been resolved. -/
lemma stated_of_reading (hd : d ∈ ds) (hread : d.reading.isSome) :
    ds = resolved ∧ y = w ∧ d.factType = some f := by
  obtain ⟨hgives, -, htold⟩ := told_resolveAllStated hx hresolve
  exact statedFactType_of_reading hgives.valid htold hstated hd hread

/-- Once a fact type has been found or made for clauses it is there. They have kept their mentions,
and those that invoke readings give them different roles of the fact type. -/
theorem told_stated : y.Valid ∧ f ∈ y.vocabulary.factTypeIds ∧
    List.Forall₂ Clause.KeepsMentions cs ds ∧ ∀ d ∈ ds, d.InRange y.vocabulary ∧
      (d.reading.isSome → y.Fills f d.mentions ∧ d.roleSequence.isSome) := by
  obtain ⟨hgives, hkeeps, htold⟩ := told_resolveAllStated hx hresolve
  obtain ⟨hgives', hkeeps', hf, hfills⟩ :=
    told_statedFactType hgives.valid (valid_resolveAllStated hx hresolve) htold hstated
  exact ⟨hgives'.valid, hf, keepsMentions_trans hkeeps hkeeps', hfills⟩

/-- Once a fact type has been found or made for clauses it is there, and the clauses are about what
there is. -/
lemma inRange_stated : f ∈ y.vocabulary.factTypeIds ∧ ∀ d ∈ ds, d.InRange y.vocabulary := by
  obtain ⟨-, hf, -, hfills⟩ := told_stated hx hresolve hstated
  exact ⟨hf, fun d hd => (hfills d hd).1⟩

/-- Finding or making a fact type sustains the mentions of the clauses, which stay the same. -/
lemma isBound_stated : x.Sustains x.mentions.size y ∧ allMentions ds = allMentions cs ∧
    ∀ m ∈ allMentions ds, y.IsBound m := by
  have hmentions : allMentions ds = allMentions cs :=
    allMentions_of_keepsMentions (told_stated hx hresolve hstated).2.2.1
  have hresolved := ((defines_sustains _).resolveAllStated cs hx.sustains).of_perform hresolve |>.1
  have hsustains : x.Sustains x.mentions.size y := Trans.trans hresolved
    (((defines_sustains _).statedFactType resolved hresolved.refl_right).of_perform hstated |>.1)
  refine ⟨hsustains, hmentions, fun m hm => ?_⟩
  have hm' := hx.isBound m (hmentions ▸ hm)
  exact hsustains.carries.isBound hm'.index_lt hm'

end Stated

/-! ## Readings -/

/-- Mentions are given the roles of role references. -/
lemma ends_giveRoles {ms : List MentionId} {refs : List RoleRef} (hnodup : ms.Nodup)
    (hlength : refs.length = ms.length) (hsize : ∀ m ∈ ms, m.index < x.mentions.size) :
    (giveRoles ms refs).Ends x (fun _ y =>
      ms.map (fun m => (y.mention m).role) = refs.map (fun ref => some ref.role) ∧
        ∀ m, m ∉ ms → (y.mention m).role = (x.mention m).role) fun _ => True := by
  unfold giveRoles
  induction ms generalizing x refs with
  | nil =>
    obtain rfl := List.length_eq_zero_iff.1 hlength
    exact ⟨rfl, fun _ _ => rfl⟩
  | cons m ms ih =>
    cases refs with
    | nil => cases hlength
    | cons ref refs =>
      rw [List.nodup_cons] at hnodup
      refine ends_bind.2 (ends_modify.2 ?_)
      have hmention : ∀ n, ((x.modifyMention m ({ · with role := some ref.role })).mention n).role =
          if n = m then some ref.role else (x.mention n).role := fun n => by
        rw [mention_modifyMention]
        simp only [and_iff_left (hsize m List.mem_cons_self)]
        split <;> rfl
      have hsize' : ∀ n ∈ ms,
          n.index < (x.modifyMention m ({ · with role := some ref.role })).mentions.size :=
            fun n hn =>
        (Array.size_modify ..).symm ▸ hsize n (List.mem_cons_of_mem m hn)
      refine (ih hnodup.2 (Nat.succ.inj hlength) hsize').imp ?_ fun _ => id
      rintro _ y ⟨hgiven, hkept⟩
      refine ⟨?_, fun n hn => ?_⟩
      · rw [List.map_cons, List.map_cons, hgiven, hkept m hnodup.1, hmention, if_pos rfl]
      · rw [List.mem_cons, not_or] at hn
        rw [hkept n hn.2, hmention, if_neg hn.1]

/-- A clause that becomes a reading has its mentions in the roles that the reading refers to. -/
lemma ends_makeReading_role (hnodup : c.mentions.Nodup)
    (hsize : ∀ m ∈ c.mentions, m.index < x.mentions.size) (f : FactTypeId) :
    (makeReading c f).Ends x (fun _ y => ∀ tokens refs,
      x.readingParts c f c.phrases [] = .ok (tokens, refs) →
        c.mentions.map (fun m => (y.mention m).role) = refs.map fun ref => some ref.role)
      fun _ => True := by
  refine ends_bind.2 (ends_get.2 (ends_bind.2 (ends_ofExcept.2 ?_)))
  split
  · next parts hparts =>
    obtain ⟨tokens, refs⟩ := parts
    have hlength : refs.length = c.mentions.length := by
      have hslots := length_of_readingParts c hparts
      rw [Clause.mentions, List.length_map, Clause.slots, hslots]
      simp
    refine ends_bind.2 (ends_within.2 (ends_extend.2 (ends_bind.2 (ends_within.2 ?_))))
    refine Ends.imp (leads_true _ _) (fun r w _ => ?_) fun _ _ => trivial
    refine ends_bind.2 (Ends.imp (ends_giveRoles hnodup hlength hsize) ?_ fun _ => id)
    rintro _ y ⟨hgiven, -⟩
    have hplaced : (placeMentions ⟨x.vocabulary.roleSequences.size⟩ c.mentions).Leads
        (RolesOnly fun _ => False) y fun _ _ => True :=
      keeps_placeMentions_rolesOnly _ c.mentions (.refl y)
    refine ends_bind.2 (Ends.imp hplaced (fun _ z hz => ?_) fun _ _ => trivial)
    intro tokens' refs' hparts'
    cases hparts.symm.trans hparts'
    rw [← hgiven]
    exact List.map_congr_left fun m _ => hz.1 m id
  · trivial

/-- A clause that becomes a reading states it. -/
lemma states_makeReading {r : ReadingId} (hx : x.Valid) (hf : f ∈ x.vocabulary.factTypeIds)
    (hplain : ∀ p ∈ c.phrases, p.IsPlain) (hnodup : c.mentions.Nodup)
    (hsize : ∀ m ∈ c.mentions, m.index < x.mentions.size)
    (h : (makeReading c f).perform x = (.ok (r, d), y)) :
    x.GivesRoles (· ∈ c.mentions) y ∧ c.KeepsMentions d ∧ ∃ s, y.States f d s := by
  obtain ⟨hextends, hrange⟩ := (leads_makeReading hx hplain hf).of_perform h
  have hroles : x.RolesOnly (· ∈ c.mentions) y :=
    (leads_makeReading_rolesOnly (fun _ => id) f x).of_perform h |>.1
  have hgiven := (ends_makeReading_role hnodup hsize f).of_perform h
  obtain ⟨tokens, refs, hparts, -, hd, hvocabulary⟩ := perform_makeReading_eq_ok h
  have hspec := readingParts_of_eq_ok hx c hplain hparts
  have hmentions : d.mentions = c.mentions := hd ▸ rfl
  have hsequence : y.vocabulary.roleSequence ⟨x.vocabulary.roleSequences.size⟩ =
      { id := ⟨x.vocabulary.roleSequences.size⟩, refs } := by
    rw [hvocabulary]
    change (x.vocabulary.pushRoleSequence refs).roleSequence _ = _
    rw [Vocabulary.roleSequence_pushRoleSequence, if_pos rfl]
  have hs : d.roleSequence = some ⟨x.vocabulary.roleSequences.size⟩ := hd ▸ rfl
  refine ⟨⟨hextends, hroles⟩, ⟨hmentions, ?_, hd ▸ rfl⟩, ⟨x.vocabulary.roleSequences.size⟩,
    hextends.grows.mem_factTypeIds hf, hs, hrange.roleSequence_mem _ hs, ?_, ?_, fun q hq => ?_⟩
  · rw [hd, Clause.allMentions_eq, c.allMentions_eq]
  · rw [hmentions, hgiven tokens refs hparts, hsequence, RoleSequence.roles, List.map_map]
    rfl
  · rw [hsequence]
    exact hspec.roles_nodup List.nodup_nil
  · rw [hsequence] at hq
    obtain ⟨ref, href, rfl⟩ := List.mem_map.1 hq
    have hmem := hspec.role_mem (fun _ hn => nomatch hn) ref href
    have hfactType := hspec.role_factType (fun _ hn => nomatch hn) ref href
    refine (hextends.grows.factType hf).roles.subset ?_
    exact hx.consistent.mem_roles.2 ⟨hmem, hfactType⟩

/-- The role references of mentions are for the roles that they have. -/
lemma roles_of_residualRefs {ms : List MentionId} {refs : List RoleRef}
    (h : x.residualRefs c ms = .ok refs) :
    ms.map (fun m => (x.mention m).role) = refs.map fun ref => some ref.role := by
  induction ms generalizing refs with
  | nil =>
    cases h
    rfl
  | cons m ms ih =>
    rw [residualRefs] at h
    split at h
    · cases h
    next role hrole =>
    dsimp only [Bind.bind, Except.bind] at h
    split at h
    · cases h
    next rest hrest =>
    cases h
    rw [List.map_cons, List.map_cons, hrole, ih hrest]

/-- Recording the places of mentions does not touch the vocabulary. -/
lemma leads_placeMentions_same (s : RoleSequenceId) (ms : List MentionId) (x : Context) :
    (placeMentions s ms).Leads (Through Eq) x fun _ _ => True := by
  unfold placeMentions
  exact Leads.forM rfl fun _ _ _ _ => leads_modify rfl rfl

/-- A clause that invokes a reading states what it is adjusted to. -/
lemma states_adjust (hx : x.Valid) (hf : f ∈ x.vocabulary.factTypeIds)
    (hc : c.InRange x.vocabulary) (hfills : x.Fills f c.mentions) (hs : c.roleSequence.isSome)
    (h : (adjust c).perform x = (.ok d, y)) :
    x.GivesRoles (· ∈ c.mentions) y ∧ c.KeepsMentions d ∧ ∃ s, y.States f d s := by
  obtain ⟨hextends, hrange⟩ := (leads_adjust hx hc).of_perform h
  have hroles : x.RolesOnly (fun _ => False) y := ((leads_adjust_rolesOnly c x).of_perform h).1
  have hgives : x.GivesRoles (fun _ => False) y := ⟨hextends, hroles⟩
  have hf' := hextends.grows.mem_factTypeIds hf
  have hfills' : y.Fills f c.mentions := hfills.gives hf hgives fun _ _ => id
  refine ⟨hgives.weaken fun _ => False.elim, ?_⟩
  obtain ⟨s, hs⟩ := Option.isSome_iff_exists.1 hs
  unfold adjust at h
  rw [hs] at h
  obtain ⟨_, z, -, hrest⟩ := perform_bind_eq_ok.1 h
  rw [perform_get_bind] at hrest
  split at hrest
  · next hinOrder =>
    cases hrest
    refine ⟨.refl c, s, hfills'.states hf' hs (hrange.roleSequence_mem s hs) ?_⟩
    exact of_decide_eq_true (Bool.and_eq_true_iff.1 hinOrder).2
  · obtain ⟨refs, z', hresidual, hadjusted⟩ := perform_bind_eq_ok.1 hrest
    obtain ⟨hrefs, rfl⟩ := perform_ofExcept_eq_ok.1 hresidual
    obtain ⟨adjusted, w, hsequence, hplaced⟩ := perform_bind_eq_ok.1 hadjusted
    cases hsequence
    obtain ⟨_, u, hplaces, hpure⟩ := perform_bind_eq_ok.1 hplaced
    cases hpure
    have hvocabulary : z'.vocabulary.pushRoleSequence refs = y.vocabulary :=
      ((leads_placeMentions_same _ c.mentions _).of_perform hplaces).1
    have hkept : RolesOnly (fun _ => False) _ y :=
      (keeps_placeMentions_rolesOnly _ c.mentions (.refl _)).of_perform hplaces |>.1
    refine ⟨⟨rfl, by rw [Clause.allMentions_eq, c.allMentions_eq], rfl⟩, _,
      Fills.states (c := { c with roleSequence := some ⟨z'.vocabulary.roleSequences.size⟩ }) hfills'
        hf' rfl (hrange.roleSequence_mem _ rfl) ?_⟩
    rw [← hvocabulary, Vocabulary.roleSequence_pushRoleSequence, if_pos rfl, RoleSequence.roles,
      List.map_map]
    refine Eq.trans (List.map_congr_left fun m _ => hkept m id) ?_
    have hown := roles_of_residualRefs hrefs
    exact hown

/-- Every clause of a declaration comes to state a reading.

**Proof sketch.** By induction on the clauses. A clause is adjusted to what it invokes or becomes a
reading. Either gives roles to its own mentions at most, so that what the clauses before it state
stays stated. -/
theorem states_stateReadings {n : Nat} (hx : x.Valid) (hsustains : x.Sustains n x)
    (hf : f ∈ x.vocabulary.factTypeIds) (hcs : ∀ c ∈ cs, c.InRange x.vocabulary ∧
      (c.reading.isSome → x.Fills f c.mentions ∧ c.roleSequence.isSome))
    (hnodup : (allMentions cs).Nodup) (hsize : ∀ m ∈ allMentions cs, m.index < n)
    (h : (stateReadings f cs).perform x = (.ok ds, y)) :
    x.GivesRoles (· ∈ allMentions cs) y ∧ List.Forall₂ Clause.KeepsMentions cs ds ∧
      ∀ d ∈ ds, ∃ s, y.States f d s := by
  induction cs generalizing x ds with
  | nil =>
    cases h
    exact ⟨hx.givesRoles _, .nil, List.forall_mem_nil _⟩
  | cons c cs ih =>
    obtain ⟨hrange, hfills⟩ := hcs c List.mem_cons_self
    have hsplit := List.nodup_append'.1 (allMentions_cons c cs ▸ hnodup)
    have hown : ∀ m ∈ c.mentions, m ∈ c.allMentions := c.mentions_subset_allMentions
    have hstep : ∃ d z es, ((x.GivesRoles (· ∈ c.mentions) z ∧ c.KeepsMentions d ∧
        ∃ s, z.States f d s) ∧ x.Sustains n z) ∧
        (stateReadings f cs).perform z = (.ok es, y) ∧ ds = d :: es := by
      obtain ⟨d, z, es, rfl, hmore, ⟨hread, hadjust⟩ | ⟨-, r, hreads⟩⟩ := stateReadings_cons_eq_ok h
      · obtain ⟨hfilled, hs⟩ := hfills hread
        exact ⟨d, z, es, ⟨states_adjust hx hf hrange hfilled hs hadjust,
          ((defines_sustains n).adjust c hsustains).of_perform hadjust |>.1⟩, hmore, rfl⟩
      · refine ⟨d, z, es, ⟨states_makeReading hx hf hrange.isPlain ?_ (fun m hm => ?_) hreads,
          ((defines_sustains n).makeReading c f hsustains).of_perform hreads |>.1⟩, hmore, rfl⟩
        · exact (List.nodup_append'.1 (c.perm_allMentions.nodup_iff.1 hsplit.1)).1
        · refine Nat.lt_of_lt_of_le (hsize m ?_) hsustains.carries.le_size
          exact mem_allMentions_of_mem List.mem_cons_self (hown m hm)
    obtain ⟨d, z, es, ⟨⟨hgives, hkeeps, s, hstates⟩, hsustained⟩, hmore, rfl⟩ := hstep
    have hfree : ∀ e ∈ cs, ∀ m ∈ e.mentions, m ∉ c.mentions := fun e he m hm hmem =>
      hsplit.2.2 (hown m hmem) (mem_allMentions_of_mem he (e.mentions_subset_allMentions hm))
    obtain ⟨hgives', hkeeps', hstates'⟩ := ih hgives.valid hsustained.refl_right
      (hgives.grows.mem_factTypeIds hf) (fun e he => by
        obtain ⟨herange, hefills⟩ := hcs e (List.mem_cons_of_mem c he)
        refine ⟨herange.grows hgives.grows, fun hread => ?_⟩
        exact ⟨(hefills hread).1.gives hf hgives (hfree e he), (hefills hread).2⟩)
      hsplit.2.1 (fun m hm => hsize m (allMentions_cons c cs ▸ List.mem_append_right _ hm)) hmore
    rw [allMentions_cons]
    refine ⟨(hgives.weaken hown).append hgives', .cons hkeeps hkeeps',
      List.forall_mem_cons.2 ⟨⟨s, ?_⟩, hstates'⟩⟩
    refine hstates.gives hgives' fun m hm hmem => ?_
    exact hsplit.2.2 (hown m (hkeeps.mentions_eq ▸ hm)) hmem

end Compile

end FactModel
