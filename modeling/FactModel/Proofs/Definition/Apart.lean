import FactModel.Proofs.Definition.Casting
import FactModel.Proofs.Definition.Placing
import FactModel.Proofs.Matching.Echoing
set_option autoImplicit false

/-!
# Definitions keep readings apart

A clause of a declaration becomes a reading only if no reading matches it. So the readings in whose
words it is, and which clauses invoke, belong to the fact type that is declared, having been added
by the clauses before it, or they are negative while the clause is not negated. The reading that it
becomes is in its words, and therefore apart from all those before it.

## Main definitions

* `FactModel.Context.WordedAs` — the mentions of a clause have kept their adjectives and players.
* `FactModel.Context.MayState` — a clause is in no words of other fact types.
* `FactModel.Compile.StatesReading` — a clause comes to state a reading of a fact type.

## Main results

* `FactModel.Compile.mayState_resolveAllStated` — clauses that invoke nothing are in the words of no
  fact type.
* `FactModel.Compile.allApart_makeReading` — then they become readings that are apart.
* `FactModel.Compile.allApart_defineFactType` — so a definition keeps readings apart.
-/

namespace FactModel

open Attempt Compile

namespace Context

variable {x y z : Context} {c d : Clause} {f : FactTypeId} {r : ReadingId}

/-! ## Clauses in no other words -/

/-- The mentions of a clause have the adjectives and the players that they had. -/
def WordedAs (x : Context) (c : Clause) (y : Context) : Prop :=
  ∀ m ∈ c.mentions, (y.mention m).leading = (x.mention m).leading ∧
    (y.mention m).trailing = (x.mention m).trailing ∧ (y.mention m).player = (x.mention m).player

/-- A clause may state a reading of a fact type: the readings in whose words it is, and which
clauses invoke, belong to that fact type, or are negative while the clause is not negated. -/
def MayState (x : Context) (f : FactTypeId) (c : Clause) : Prop :=
  ∀ r ∈ x.vocabulary.readingIds, x.vocabulary.IsInvocable r → x.Echo c r →
    (x.vocabulary.reading r).factType = f ∨
      (x.vocabulary.reading r).isNegative ∧ c.certainty ≠ .negated

/-- A clause is in the words of a reading that was there just in case it was before. -/
lemma echo_iff_of_retains (hv : x.vocabulary.WellFormed)
    (hxy : x.vocabulary.Retains y.vocabulary) (hworded : x.WordedAs c y)
    (hr : r ∈ x.vocabulary.readingIds) : y.Echo c r ↔ x.Echo c r := by
  have hechoes : ∀ {ref s}, ref ∈ x.vocabulary.readingRefs r → s.mention ∈ c.mentions →
      (y.Echoes s ref ↔ x.Echoes s ref) := by
    intro ref s href hs
    obtain ⟨hleading, htrailing, hplayer⟩ := hworded s.mention hs
    have hplays := hxy.playerOf_eq (hv.ref_mem _ ref href)
    constructor
    · intro h
      exact ⟨hleading ▸ h.leading_eq, htrailing ▸ h.trailing_eq, by
        rw [← hplays, ← hplayer, h.player_eq]⟩
    · intro h
      exact ⟨hleading ▸ h.leading_eq, htrailing ▸ h.trailing_eq, by
        rw [hplays, hplayer, h.player_eq]⟩
  have htoken : ∀ t, ∀ p ∈ c.phrases, y.EchoesToken (x.vocabulary.readingRefs r) t p ↔
      x.EchoesToken (x.vocabulary.readingRefs r) t p := by
    intro t p hp
    have hm : ∀ s, p = .slot s → s.mention ∈ c.mentions := by
      rintro s rfl
      exact List.mem_map_of_mem (List.mem_flatMap.2 ⟨.slot s, hp, List.mem_singleton_self s⟩)
    constructor
    · rintro (⟨text⟩ | ⟨href, hs⟩)
      · exact .word text
      · exact .place href ((hechoes (List.mem_of_getElem? href) (hm _ rfl)).1 hs)
    · rintro (⟨text⟩ | ⟨href, hs⟩)
      · exact .word text
      · exact .place href ((hechoes (List.mem_of_getElem? href) (hm _ rfl)).2 hs)
  unfold Echo
  rw [hxy.reading_eq hr, hxy.readingRefs_eq hv hr]
  constructor <;> intro h <;>
    refine List.Forall₂.flip (((List.forall₂_and_left c.phrases _).2
      ⟨fun _ hp => hp, h.flip⟩).imp fun p t hpt => ?_)
  · exact (htoken t p hpt.1).1 hpt.2
  · exact (htoken t p hpt.1).2 hpt.2

/-- A clause that may state a reading still may after readings have been added that belong to the
fact type or are not invoked. -/
lemma MayState.later (h : x.MayState f c) (hv : x.vocabulary.WellFormed)
    (hxy : x.vocabulary.Retains y.vocabulary) (hworded : x.WordedAs c y)
    (hnew : ∀ r ∈ y.vocabulary.readingIds, r ∉ x.vocabulary.readingIds →
      y.vocabulary.IsInvocable r →
      (y.vocabulary.reading r).factType = f) : y.MayState f c := by
  intro r hr hinvocable hecho
  by_cases hold : r ∈ x.vocabulary.readingIds
  · rw [hxy.reading_eq hold]
    exact h r hold ((hxy.isInvocable_iff hv hold).1 hinvocable)
      ((echo_iff_of_retains hv hxy hworded hold).1 hecho)
  · exact .inl (hnew r hr hold hinvocable)

/-- A clause that no reading matches may state a reading of any fact type. -/
lemma mayState_of_rank {options : MatchOptions} (hv : x.vocabulary.WellFormed)
    (h : (x.rank options c).alignments = []) (f : FactTypeId) : x.MayState f c := by
  intro r hr hinvocable hecho
  by_contra hnot
  rw [not_or, not_and, not_not] at hnot
  obtain ⟨a, ha, -⟩ := exists_mem_rank_of_echo hv hr hinvocable hecho hnot.2 options
  rw [h] at ha
  cases ha

/-- What a clause may state depends on its words and its certainty. -/
lemma MayState.of_phrases_eq (h : x.MayState f c) (hphrases : d.phrases = c.phrases)
    (hcertainty : d.certainty = c.certainty) : x.MayState f d := by
  intro r hr hinvocable hecho
  unfold Echo at hecho
  rw [hphrases] at hecho
  rw [hcertainty]
  exact h r hr hinvocable hecho

/-- A clause is worded as before if none of its mentions change. -/
lemma ChangesOnly.wordedAs {may : MentionId → Prop} (h : x.ChangesOnly may y)
    (hdisjoint : ∀ m ∈ c.mentions, ¬may m) : x.WordedAs c y := by
  intro m hm
  rw [h m (hdisjoint m hm)]
  exact ⟨rfl, rfl, rfl⟩

/-- A clause is worded as before if only roles, places and constraints change. -/
lemma SameButMarks.wordedAs (h : x.SameButMarks y) : x.WordedAs c y := by
  intro m _
  obtain ⟨_, _, _, hm⟩ := h m
  rw [hm]
  exact ⟨rfl, rfl, rfl⟩

end Context

open Context

namespace Compile

variable {x y z : Context} {c d : Clause} {f : FactTypeId} {r : ReadingId} {cs ds : List Clause}

/-! ## Resolving -/

/-- A clause that comes to be invoked has a reading. -/
lemma ends_invokeReading_isSome (options : MatchOptions) (c : Clause) (x : Context) :
    (invokeReading options c).Ends x (fun r _ => ∀ d ∈ r, d.reading.isSome) fun _ => True := by
  refine ends_bind.2 (ends_get.2 (ends_bind.2 (ends_ofExcept.2 ?_)))
  split
  · next r hselect =>
    cases r with
    | none => exact fun _ hd => nomatch hd
    | some a =>
      refine ends_map.2 (Ends.imp (leads_applyAlignment_givesEach (P := fun _ _ => True) (a := a)
        (fun _ _ => trivial) c x) ?_ fun _ _ => trivial)
      rintro d y ⟨-, rfl⟩
      rintro d ⟨⟩
      rfl
  · trivial

/-- Resolving clauses adds comparisons at most. -/
lemma addsImplied_resolveAllStated (h : (resolveAllStated cs).perform x = (.ok ds, y)) :
    x.vocabulary.Retains y.vocabulary ∧ x.vocabulary.AddsImplied y.vocabulary := by
  have hadds : KeepsThrough Vocabulary.AddsImplied (resolveAllStated cs) :=
    (composes_through Vocabulary.AddsImplied.refl).resolveAllStated
      (fun hnext x => leads_get_bind (hnext x x)) (fun c x => leads_resolve_through
        Vocabulary.AddsImplied.refl (fun v operator left right =>
          (Vocabulary.leads_comparisonFactType_adds v operator left right).weaken fun _ hv =>
            hv.toAddsImplied) _ c x) cs
  exact ⟨((defines_evolving.resolveAllStated cs x).of_perform h).1.retains,
    ((hadds x).of_perform h).1⟩

/-- No clause invokes a reading that comes with a comparison. -/
lemma not_isInvocable_of_addsImplied {v w : Vocabulary} (h : v.AddsImplied w)
    (hr : r ∈ w.readingIds) (hnew : r ∉ v.readingIds) : ¬w.IsInvocable r := fun hinvocable => by
  have hunstated := h.factType_new _ (h.reading_new r hr hnew)
  rw [hinvocable.isStated] at hunstated
  cases hunstated

/-- Clauses that have been resolved and invoke no reading may state readings of any fact type.

**Proof sketch.** By induction on the clauses. No reading matches such a clause, and resolving the
clauses behind it adds readings of comparisons only. -/
theorem mayState_resolveAllStated (hx : x.Ready cs)
    (h : (resolveAllStated cs).perform x = (.ok ds, y)) :
    ∀ d ∈ ds, d.reading = none → ∀ f, y.MayState f d := by
  induction cs generalizing x ds with
  | nil =>
    cases h
    exact List.forall_mem_nil _
  | cons c cs ih =>
    obtain ⟨d, z, hfirst, hrest⟩ := perform_bind_eq_ok.1 h
    obtain ⟨es, z', hmore, hpure⟩ := perform_bind_eq_ok.1 hrest
    cases hpure
    rw [← List.singleton_append] at hx
    have hnodup := List.nodup_append'.1 (allMentions_cons c cs ▸ hx.nodup)
    have hsustains := ((defines_sustains x.mentions.size).resolveStated c hx.sustains).of_perform
      hfirst |>.1
    obtain ⟨hgives, hkeeps, -⟩ := told_resolveStated hx.append_left hfirst
    have hready : z.Ready cs := Ready.later hx.append_right hgives
      (fun m hm hmem => hnodup.2.2 hmem hm) hsustains
    refine List.forall_mem_cons.2 ⟨fun hread f => ?_, ih hready hmore⟩
    have hmissed : (z.rank { exactTypes := true } d).alignments = [] := by
      rcases resolveStated_of_invokeReading (P := fun d _ => d.reading.isSome)
        (fun _ _ _ => ends_invokeReading_isSome ..) hx.append_left hfirst with hsome | hmisses
      · rw [hread] at hsome
        cases hsome
      · exact hmisses.alignments
    obtain ⟨hretains, hadds⟩ := addsImplied_resolveAllStated hmore
    have hchanges := ((leads_resolveAllStated_changesOnly (fun _ => id) z).of_perform hmore).1
    refine (mayState_of_rank hready.valid.consistent.toWellFormed hmissed f).later
      hready.valid.consistent.toWellFormed hretains (hchanges.wordedAs fun m hm hmem => ?_)
        fun r hr hnew hinvocable => absurd hinvocable (not_isInvocable_of_addsImplied hadds hr hnew)
    exact hnodup.2.2 (hkeeps.allMentions_eq ▸ d.mentions_subset_allMentions hm) hmem

/-! ## The fact type -/

/-- A new fact type has no readings yet, and clauses keep theirs. -/
lemma spares_statedFactType {created : Bool}
    (h : (statedFactType cs).perform x = (.ok (f, created, ds), y)) :
    x.SameButMarks y ∧ x.vocabulary.Retains y.vocabulary ∧
      y.vocabulary.readings = x.vocabulary.readings ∧ List.Forall₂ (fun c d =>
        d.phrases = c.phrases ∧ d.certainty = c.certainty ∧ d.reading = c.reading) cs ds := by
  unfold statedFactType at h
  split at h
  · cases h
    exact ⟨.refl x, .refl _, rfl, List.forall₂_same.2 fun _ _ => ⟨rfl, rfl, rfl⟩⟩
  · next first others _ =>
    obtain ⟨⟨g, first'⟩, z, hmake, hpure⟩ := perform_bind_eq_ok.1 h
    cases hpure
    obtain ⟨-, hfirst, -, hsame, players, -, hvocabulary⟩ := casts_makeFactType hmake
    refine ⟨hsame.sameButMarks, ?_, ?_, .cons ?_ (List.forall₂_same.2 fun _ _ => ⟨rfl, rfl, rfl⟩)⟩
    · rw [hvocabulary]
      exact Vocabulary.retains_withFactType players
    · rw [hvocabulary, Vocabulary.readings_withFactType]
    · rw [hfirst]
      exact ⟨rfl, rfl, rfl⟩
  · cases h
  · rw [perform_get_bind] at h
    cases h

/-! ## Readings -/

/-- Adjusting a clause adds no types and no readings. -/
lemma sameReadings_adjust (h : (adjust c).perform x = (.ok d, y)) :
    x.vocabulary.Retains y.vocabulary ∧ SameReadings x.vocabulary y.vocabulary := by
  have hname : ∀ v r name, (Vocabulary.nameRole r name).Leads SameReadings v fun _ _ => True := by
    intro v r name
    refine leads_get_bind ?_
    split
    · exact leads_set ⟨rfl, rfl, rfl⟩ trivial
    · split
      · exact leads_pure (.refl v) trivial
      · exact leads_throw (.refl v)
  have hsame : KeepsThrough SameReadings (adjust c) :=
    (composes_through SameReadings.refl).adjust (fun hnext x => leads_get_bind (hnext x x))
      (fun _ _ => leads_edit_through (leads_extend ⟨rfl, rfl, rfl⟩ trivial))
      (fun _ _ _ _ => leads_modify (.refl _) trivial)
      (fun r name x => leads_edit_through (hname x.vocabulary r name)) c
  exact ⟨((defines_evolving.adjust c x).of_perform h).1.retains, ((hsame x).of_perform h).1⟩

/-- A clause becomes one new reading, of the fact type. -/
lemma reading_makeReading (h : (makeReading c f).perform x = (.ok (r, d), y)) :
    x.vocabulary.Retains y.vocabulary ∧
      (∀ q, q ∈ y.vocabulary.readingIds ↔ q = r ∨ q ∈ x.vocabulary.readingIds) ∧
      r.index = x.vocabulary.readings.size ∧ (y.vocabulary.reading r).factType = f ∧
      (y.vocabulary.reading r).isNegative = decide (c.certainty = .negated) ∧
      (y.vocabulary.reading r).tokens =
        Template.tokens (Template.render (spelledTokens c.phrases 0)) := by
  obtain ⟨tokens, refs, hparts, hr, -, hvocabulary⟩ := perform_makeReading_eq_ok h
  have htokens : tokens = spelledTokens c.phrases 0 := (assigns_of_readingParts hparts).tokens_eq
  have hreading : y.vocabulary.reading r =
      { id := r, factType := f
        ordinal := ((x.vocabulary.pushRoleSequence refs).factType f).readings.length
        roleSequence := ⟨x.vocabulary.roleSequences.size⟩
        text := Template.render tokens, isNegative := c.certainty = .negated
        tokens := Template.tokens (Template.render tokens) } := by
    rw [hvocabulary, hr, Vocabulary.reading_pushReading]
    exact if_pos rfl
  refine ⟨((defines_evolving.makeReading c f x).of_perform h).1.retains, fun q => ?_, hr ▸ rfl, ?_,
    ?_, ?_⟩
  · rw [hvocabulary, Vocabulary.mem_readingIds_pushReading, hr]
    exact Iff.rfl
  · rw [hreading]
  · rw [hreading]
  · rw [hreading, htokens]

/-- A reading that clauses invoke has no more places than placeholders. -/
lemma length_readingRefs_le {v : Vocabulary} (hv : v.WellFormed) (hr : r ∈ v.readingIds)
    (h : v.IsInvocable r) :
    (v.readingRefs r).length ≤ (Template.places (v.reading r).tokens).length := by
  rw [← h.arity_eq, FactType.arity, ← List.length_map (·.role)]
  refine (List.subperm_of_subset (hv.refs_nodup r hr) fun role hrole => ?_).length_le
  obtain ⟨ref, href, rfl⟩ := List.mem_map.1 hrole
  exact hv.ref_mem_roles hr href

section MakeReading

variable (hx : x.WellCast) (hplain : ∀ p ∈ c.phrases, p.IsPlain) (hf : f ∈ x.vocabulary.factTypeIds)
  (hnodup : c.mentions.Nodup) (hm : ∀ m ∈ c.mentions, x.IsBound m)
  (h : (makeReading c f).perform x = (.ok (r, d), y))

include hx hplain hf hnodup hm h

/-- A clause is in the words of the reading that it becomes, if clauses invoke the reading.

**Proof sketch.** The reading has a place for each mention of the clause. The placeholders for them
are all read back from the template, for otherwise there would be fewer than places. -/
lemma echo_makeReading (hinvocable : y.vocabulary.IsInvocable r) :
    (x.onto y.vocabulary).Echo c r := by
  have hy := ((leads_makeReading hx.valid hplain hf).of_perform h).1.valid.consistent.toWellFormed
  obtain ⟨hretains, hmem, -, hfactType, -, htokens⟩ := reading_makeReading h
  obtain ⟨tokens, refs, hparts, -⟩ := perform_makeReading_eq_ok h
  have hassigns := assigns_of_readingParts hparts
  have hstated : (x.vocabulary.factType f).isStated := by
    have hstated := hinvocable.isStated
    rwa [hfactType, FactType.isStated, (hretains.factType hf).kind_eq] at hstated
  have hvoices := voices_makeReading hx hplain hf hnodup hm h hstated
  have hplaces : Template.places (spelledTokens c.phrases 0) = List.range' 0 c.slots.length :=
    places_spelledTokens hassigns.isStated 0
  have hlimit : c.slots.length ≤ Template.placeLimit := by
    have hread := length_readingRefs_le hy ((hmem r).2 (.inl rfl)) hinvocable
    have hwritten : ∀ t ∈ spelledTokens c.phrases 0, t.IsWritten := by
      rw [← show tokens = spelledTokens c.phrases 0 from hassigns.tokens_eq]
      exact (readingParts_of_eq_ok hx.valid c hplain hparts).isWritten
    rw [← hvoices.length_eq, htokens, Template.places_tokens_render_eq hwritten, hplaces] at hread
    have hall : ((List.range' 0 c.slots.length).filter (· < Template.placeLimit)).length =
        (List.range' 0 c.slots.length).length := by
      refine Nat.le_antisymm (List.length_filter_le ..) ?_
      rwa [List.length_range']
    by_contra hlarge
    have hlast := List.length_filter_eq_length_iff.1 hall Template.placeLimit
      (List.mem_range'_1.2 (by omega))
    simp at hlast
  have hread : (y.vocabulary.reading r).tokens = spelledTokens c.phrases 0 := by
    rw [htokens]
    refine Template.tokens_render (isPlain_spelledTokens hplain ?_)
    rw [Nat.zero_add]
    exact hlimit
  change List.Forall₂ ((x.onto y.vocabulary).EchoesToken (y.vocabulary.readingRefs r))
    (y.vocabulary.reading r).tokens c.phrases
  rw [hread]
  exact echoes_spelledTokens hassigns.isStated hvoices

/-- A clause that may state a reading of a fact type becomes one that is apart from those before
it. -/
theorem allApart_makeReading (hapart : x.vocabulary.AllApart) (hmay : x.MayState f c) :
    y.vocabulary.AllApart := by
  have hv := hx.valid.consistent.toWellFormed
  obtain ⟨hretains, hmem, hindex, hfactType, hnegative, -⟩ := reading_makeReading h
  refine hapart.later hv hretains fun q hq hnew hinvocable => .inr ?_
  obtain rfl := ((hmem q).1 hq).resolve_right hnew
  intro r' hr' hlt hinvocable' hwords
  have hold : r' ∈ x.vocabulary.readingIds := by
    rw [Vocabulary.mem_readingIds, ← hindex]
    exact hlt
  have hecho := (echo_makeReading hx hplain hf hnodup hm h hinvocable).of_sameWords hwords
  have hecho' : x.Echo c r' := (echo_iff_of_retains (y := x.onto y.vocabulary) hv hretains
    (fun _ _ => ⟨rfl, rfl, rfl⟩) hold).1 hecho
  rw [hretains.reading_eq hold, hfactType, hnegative]
  refine (hmay r' hold ((hretains.isInvocable_iff hv hold).1 hinvocable') hecho').imp_right ?_
  exact fun hnegated => ⟨hnegated.1, by simpa using hnegated.2⟩

end MakeReading

/-- A clause comes to state a reading of a fact type: it is adjusted to the reading that it invokes,
or it becomes one. -/
def StatesReading (f : FactTypeId) (x : Context) (c d : Clause) (y : Context) : Prop :=
  c.reading.isSome ∧ (adjust c).perform x = (.ok d, y) ∨
    c.reading = none ∧ ∃ r, (makeReading c f).perform x = (.ok (r, d), y)

/-- A clause that comes to state a reading changes its own mentions only, and gives them roles that
their players play. It adds readings of the fact type at most. -/
lemma StatesReading.spares (h : StatesReading f x c d y) (hx : x.WellCast)
    (hf : f ∈ x.vocabulary.factTypeIds) (hc : c.InRange x.vocabulary) (hnodup : c.mentions.Nodup)
    (hm : ∀ m ∈ c.mentions, x.IsBound m) :
    (x.GivesOwn y ∧ x.Sustains x.mentions.size y ∧ x.ChangesOnly (· ∈ c.mentions) y) ∧
      x.vocabulary.Retains y.vocabulary ∧ ∀ r ∈ y.vocabulary.readingIds,
        r ∉ x.vocabulary.readingIds → (y.vocabulary.reading r).factType = f := by
  rcases h with ⟨-, hadjust⟩ | ⟨-, r, hmake⟩
  · obtain ⟨hretains, hsame⟩ := sameReadings_adjust hadjust
    refine ⟨⟨givesOwn_adjust hx.valid hc hadjust,
      ((defines_sustains _).adjust c hx.sustains).of_perform hadjust |>.1,
      ((leads_adjust_changesOnly (fun _ => id) x).of_perform hadjust).1⟩, hretains,
      fun r hr hnew => ?_⟩
    rw [Vocabulary.mem_readingIds, hsame.readings_eq, ← Vocabulary.mem_readingIds] at hr
    exact absurd hr hnew
  · obtain ⟨hretains, hmem, -, hfactType, -, -⟩ := reading_makeReading hmake
    refine ⟨⟨givesOwn_makeReading hx hc.isPlain hf hnodup hm hmake,
      ((defines_sustains _).makeReading c f hx.sustains).of_perform hmake |>.1,
      ((leads_makeReading_changesOnly (fun _ => id) f x).of_perform hmake).1⟩, hretains,
      fun q hq hnew => ?_⟩
    rw [((hmem q).1 hq).resolve_right hnew]
    exact hfactType

/-- Clauses that may state readings of a fact type come to state readings that are apart.

**Proof sketch.** By induction on the clauses. What a clause becomes belongs to the fact type, so
that the clauses behind it still may state readings of it. -/
theorem allApart_stateReadings (hx : x.WellCast) (hapart : x.vocabulary.AllApart)
    (hf : f ∈ x.vocabulary.factTypeIds) (hcs : ∀ c ∈ cs, c.InRange x.vocabulary)
    (hmay : ∀ c ∈ cs, c.reading = none → x.MayState f c) (hnodup : (allMentions cs).Nodup)
    (hm : ∀ m ∈ allMentions cs, x.IsBound m)
    (h : (stateReadings f cs).perform x = (.ok ds, y)) : y.vocabulary.AllApart := by
  induction cs generalizing x ds with
  | nil =>
    cases h
    exact hapart
  | cons c cs ih =>
    have hv := hx.valid.consistent.toWellFormed
    have hrange := hcs c List.mem_cons_self
    have hsplit := List.nodup_append'.1 (allMentions_cons c cs ▸ hnodup)
    have hown : c.mentions.Nodup :=
      (List.nodup_append'.1 (c.perm_allMentions.nodup_iff.1 hsplit.1)).1
    have hbound : ∀ m ∈ c.mentions, x.IsBound m := fun m hmem =>
      hm m (mem_allMentions_of_mem List.mem_cons_self (c.mentions_subset_allMentions hmem))
    obtain ⟨d, z, es, rfl, hmore, hfirst⟩ := stateReadings_cons_eq_ok h
    obtain ⟨⟨hgives, hsustains, hchanges⟩, hretains, hnew⟩ :=
      StatesReading.spares hfirst hx hf hrange hown hbound
    have hapart' : z.vocabulary.AllApart := by
      rcases hfirst with ⟨-, hadjust⟩ | ⟨hunread, r, hmake⟩
      · exact hapart.addsFixed hv
          (.of_readings_eq hretains (sameReadings_adjust hadjust).2.readings_eq)
      · exact allApart_makeReading hx hrange.isPlain hf hown hbound hmake hapart
          (hmay c List.mem_cons_self hunread)
    refine ih (hx.later hgives hsustains) hapart' (hgives.grows.mem_factTypeIds hf)
      (fun e he => (hcs e (List.mem_cons_of_mem c he)).grows hgives.grows) (fun e he hread => ?_)
      hsplit.2.1 (fun m hmem => ?_) hmore
    · refine (hmay e (List.mem_cons_of_mem c he) hread).later hv hretains
        (hchanges.wordedAs fun m hm hmem => ?_) fun r hr hr' _ => hnew r hr hr'
      exact hsplit.2.2 (c.mentions_subset_allMentions hmem)
        (mem_allMentions_of_mem he (e.mentions_subset_allMentions hm))
    · have hm' := hm m (allMentions_cons c cs ▸ List.mem_append_right _ hmem)
      exact hsustains.carries.isBound hm'.index_lt hm'

section Stated

variable {w : Context} {resolved : List Clause} {created : Bool} (hx : x.Ready cs)
  (hresolve : (resolveAllStated cs).perform x = (.ok resolved, w))
  (hstated : (statedFactType resolved).perform w = (.ok (f, created, ds), y))

include hx hresolve hstated

/-- Once a fact type has been found or made for clauses, those that invoke nothing may state
readings of it. -/
lemma mayState_stated : ∀ d ∈ ds, d.reading = none → y.MayState f d := by
  obtain ⟨hgives, -, -⟩ := told_resolveAllStated hx hresolve
  obtain ⟨hmarks, hretains, hreadings, hfrom⟩ := spares_statedFactType hstated
  intro d hd hunread
  obtain ⟨c, hc, hphrases, hcertainty, hsame⟩ := exists_of_forall₂ hfrom hd
  refine ((mayState_resolveAllStated hx hresolve c hc (hsame ▸ hunread) f).later
    hgives.valid.consistent.toWellFormed hretains hmarks.wordedAs
    fun r hr hnew _ => ?_).of_phrases_eq hphrases hcertainty
  rw [Vocabulary.mem_readingIds, hreadings, ← Vocabulary.mem_readingIds] at hr
  exact absurd hr hnew

/-- If mentions agree about their players and have no roles yet, then finding or making a fact type
gives them roles that their players play. -/
lemma wellCast_stated (hagree : x.PlayersAgree) (hunplayed : ∀ m, (x.mention m).role = none) :
    y.WellCast := by
  have hplayed : x.PlaysOwn := fun m r hr => by
    rw [hunplayed] at hr
    cases hr
  have hcast : x.WellCast := ⟨hx.valid, hx.bound, hx.unmerged, hagree, hplayed⟩
  have hcs : ∀ c ∈ cs, c.Everywhere (Clause.Valid x.vocabulary) := fun c hc =>
    (hx.fits c hc).imp fun _ hd => hd.valid
  have hgives := ((leads_resolveAllStated_givesOwn hx.valid hcs).of_perform hresolve).1
  exact hcast.later (Trans.trans hgives (givesOwn_statedFactType hgives.valid hstated))
    (isBound_stated hx hresolve hstated).1

end Stated

/-- **A definition keeps readings apart**, if the mentions of its clauses agree about their players
and have no roles yet.

**Proof sketch.** Once the clauses have been resolved, those that invoke nothing are in the words of
no fact type, and a new fact type has no readings. So they become readings that are apart. Embedding
constraints adds no readings. -/
theorem allApart_defineFactType {created : Bool} (hx : x.Ready cs) (hagree : x.PlayersAgree)
    (hunplayed : ∀ m, (x.mention m).role = none) (hapart : x.vocabulary.AllApart)
    (h : (defineFactType cs).perform x = (.ok (f, created, ds), y)) : y.vocabulary.AllApart := by
  obtain ⟨resolved, y₁, hresolve, hrest⟩ := perform_bind_eq_ok.1 h
  obtain ⟨⟨g, isNew, stated⟩, y₂, hstated, hrest⟩ := perform_bind_eq_ok.1 hrest
  obtain ⟨read, y₃, hread, hrest⟩ := perform_bind_eq_ok.1 hrest
  obtain ⟨_, y₄, hembed, hpure⟩ := perform_bind_eq_ok.1 hrest
  cases hpure
  -- Clauses are resolved, and a fact type is found or made.
  have hcast := wellCast_stated hx hresolve hstated hagree hunplayed
  obtain ⟨hf, hranges⟩ := inRange_stated hx hresolve hstated
  obtain ⟨-, hmentions, hbound⟩ := isBound_stated hx hresolve hstated
  obtain ⟨hretains₁, hadds⟩ := addsImplied_resolveAllStated hresolve
  obtain ⟨-, hretains₂, hreadings, -⟩ := spares_statedFactType hstated
  have hapart₁ :=
    hapart.addsFixed hx.valid.consistent.toWellFormed (.of_addsImplied hretains₁ hadds)
  have hapart₂ := hapart₁.addsFixed
    (told_resolveAllStated hx hresolve).1.valid.consistent.toWellFormed
    (.of_readings_eq hretains₂ hreadings)
  -- Readings are stated, and constraints embedded.
  have hapart₃ := allApart_stateReadings hcast hapart₂ hf hranges
    (mayState_stated hx hresolve hstated) (hmentions ▸ hx.nodup) hbound hread
  have hy₃ := ((leads_stateReadings hcast.valid hf hranges).of_perform hread).1
  exact hapart₃.addsFixed hy₃.valid.consistent.toWellFormed
    (.of_readings_eq ((defines_evolving.embed _ _).of_perform hembed).1.retains
      ((embeds_sameReadings.embed _ _).of_perform hembed).1.readings_eq)

end Compile

end FactModel
