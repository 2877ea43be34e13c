import FactModel.Proofs.Definition.Conforming
import FactModel.Proofs.Definition.Redefining
set_option autoImplicit false

/-!
# Defining a fact type twice by the same clauses

Clauses that have defined a fact type restate it. If all of them invoked readings they invoke the
same ones again. Otherwise some have become readings, and each clause, being in the words of one
reading of the fact type, invokes this one from then on.

## Main definitions

* `FactModel.Compile.Repeatable` — what lets clauses define a fact type twice.

## Main results

* `FactModel.Compile.exists_restates_of_readings_eq` — clauses that have invoked readings restate
  them.
* `FactModel.Compile.reads_defineFactType` — a definition puts clauses into the words of readings.
* `FactModel.Compile.exists_restates` — clauses restate what they have stated.
-/

namespace FactModel

open Attempt Compile Context

namespace Compile

variable {x y z : Context} {c d : Clause} {cs ds : List Clause} {a : Alignment} {f : FactTypeId}
  {r : ReadingId}

/-! ## Object types -/

/-- Clauses that come to state readings add no object types. -/
lemma objectTypeIds_stateReadings (h : (stateReadings f cs).perform x = (.ok ds, y)) :
    y.vocabulary.objectTypeIds = x.vocabulary.objectTypeIds := by
  induction cs generalizing x ds with
  | nil =>
    cases h
    rfl
  | cons c cs ih =>
    obtain ⟨d, z, es, rfl, hmore, hfirst⟩ := stateReadings_cons_eq_ok h
    refine (ih hmore).trans ?_
    rcases hfirst with ⟨-, hadjust⟩ | ⟨-, r, hmake⟩
    · rw [Vocabulary.objectTypeIds, (sameReadings_adjust hadjust).2.objectTypes_eq,
        Vocabulary.objectTypeIds]
    · obtain ⟨_, _, -, -, -, hvocabulary⟩ := perform_makeReading_eq_ok hmake
      rw [hvocabulary]
      rfl

/-- A definition by clauses without nested clauses adds no object types. -/
lemma objectTypeIds_defineFactType (hflat : ∀ c ∈ cs, c.IsFlat) {created : Bool}
    (h : (defineFactType cs).perform x = (.ok (f, created, ds), y)) :
    y.vocabulary.objectTypeIds = x.vocabulary.objectTypeIds := by
  obtain ⟨resolved, y₁, hresolve, hrest⟩ := perform_bind_eq_ok.1 h
  obtain ⟨⟨g, isNew, stated⟩, y₂, hstated, hrest⟩ := perform_bind_eq_ok.1 hrest
  obtain ⟨read, y₃, hread, hrest⟩ := perform_bind_eq_ok.1 hrest
  obtain ⟨_, y₄, hembed, hpure⟩ := perform_bind_eq_ok.1 hrest
  cases hpure
  obtain ⟨os, hfinds, -⟩ := (perform_resolveAllStated_eq_ok hflat).1 hresolve
  have hstated' : y₂.vocabulary.objectTypeIds = y₁.vocabulary.objectTypeIds := by
    unfold statedFactType at hstated
    split at hstated
    · cases hstated
      rfl
    · obtain ⟨⟨k, first⟩, z, hmake, hpure⟩ := perform_bind_eq_ok.1 hstated
      cases hpure
      obtain ⟨-, -, -, -, players, -, hvocabulary⟩ := casts_makeFactType hmake
      rw [hvocabulary, Vocabulary.objectTypeIds_withFactType]
    · cases hstated
    · rw [perform_get_bind] at hstated
      cases hstated
  have hembed' := ((embeds_sameReadings.embed ds y₃).of_perform hembed).1
  rw [Vocabulary.objectTypeIds, hembed'.objectTypes_eq, ← Vocabulary.objectTypeIds,
    objectTypeIds_stateReadings hread, hstated', hfinds.vocabulary_eq]

/-! ## Clauses that invoke readings -/

/-- Clauses that invoke readings come to state them without adding types or readings. -/
lemma sameReadings_stateReadings (hcs : ∀ c ∈ cs, c.reading.isSome)
    (h : (stateReadings f cs).perform x = (.ok ds, y)) :
    SameReadings x.vocabulary y.vocabulary := by
  induction cs generalizing x ds with
  | nil =>
    cases h
    exact .refl _
  | cons c cs ih =>
    obtain ⟨hread, hothers⟩ := List.forall_mem_cons.1 hcs
    obtain ⟨d, z, es, rfl, hmore, ⟨-, hadjust⟩ | ⟨hnone, -⟩⟩ := stateReadings_cons_eq_ok h
    · exact Trans.trans (sameReadings_adjust hadjust).2 (ih hothers hmore)
    · rw [hnone] at hread
      cases hread

/-- If clauses come to state readings without adding any, then all of them invoke readings. -/
lemma reading_isSome_of_readings_eq (h : (stateReadings f cs).perform x = (.ok ds, y))
    (hsame : y.vocabulary.readings = x.vocabulary.readings) : ∀ c ∈ cs, c.reading.isSome := by
  induction cs generalizing x ds with
  | nil => exact List.forall_mem_nil _
  | cons c cs ih =>
    obtain ⟨d, z, es, rfl, hmore, ⟨hread, hadjust⟩ | ⟨-, r, hmake⟩⟩ := stateReadings_cons_eq_ok h
    · have hsame' := (sameReadings_adjust hadjust).2.readings_eq
      exact List.forall_mem_cons.2 ⟨hread, ih hmore (hsame.trans hsame'.symm)⟩
    · -- The new reading would still be there.
      obtain ⟨-, hmem, hindex, -⟩ := reading_makeReading hmake
      have hgrows := ((defines_evolving.stateReadings f cs z).of_perform hmore).1.retains.toGrows
      have hlater := hgrows.mem_readingIds ((hmem r).2 (.inl rfl))
      rw [Vocabulary.mem_readingIds, hsame, hindex] at hlater
      exact absurd hlater (Nat.lt_irrefl _)

/-- Role names that are declared by clauses that invoke readings are there once the clauses have
come to state them. -/
lemma named_stateReadings (hcs : ∀ c ∈ cs, c.reading.isSome ∧ c.roleSequence.isSome ∧
      ∀ m ∈ c.mentions, ∀ r ∈ (x.mention m).role, r ∈ x.vocabulary.roleIds)
    (h : (stateReadings f cs).perform x = (.ok ds, y)) :
    ∀ c ∈ cs, ∀ m ∈ c.mentions, ∀ r name, x.Declares m r name →
      (y.vocabulary.role r).name = some name := by
  induction cs generalizing x ds with
  | nil => exact List.forall_mem_nil _
  | cons c cs ih =>
    obtain ⟨⟨hread, hs, hroles⟩, hothers⟩ := List.forall_mem_cons.1 hcs
    obtain ⟨d, z, es, rfl, hmore, ⟨-, hadjust⟩ | ⟨hnone, -⟩⟩ := stateReadings_cons_eq_ok h
    · have hmarks := ((keeps_adjust_sameButMarks c (.refl x)).of_perform hadjust).1
      have hkept : x.RolesOnly (fun _ => False) z :=
        ((leads_adjust_rolesOnly c x).of_perform hadjust).1
      have hgrows := ((defines_evolving.adjust c x).of_perform hadjust).1.retains.toGrows
      have hgrows' := ((defines_evolving.stateReadings f cs z).of_perform hmore).1.retains.toGrows
      refine List.forall_mem_cons.2 ⟨fun m hm r name hdeclares => ?_, fun e he m hm r name
        hdeclares => ?_⟩
      · have hmem := hgrows.mem_roleIds (hroles m hm r hdeclares.role_eq)
        exact (hgrows'.role hmem).name name ((names_adjust hs hroles hadjust).2.1 m hm r name
          hdeclares)
      · refine ih (fun e he => ?_) hmore e he m hm r name ?_
        · obtain ⟨hread', hs', hroles'⟩ := hothers e he
          refine ⟨hread', hs', fun n hn q hq => hgrows.mem_roleIds (hroles' n hn q ?_)⟩
          rwa [hkept n id] at hq
        · exact (hmarks.declares_iff (hkept m id)).2 hdeclares
    · rw [hnone] at hread
      cases hread

/-- Some clause states the fact type that is found or made. -/
lemma ne_nil_of_statedFactType {created : Bool}
    (h : (statedFactType cs).perform x = (.ok (f, created, ds), y)) : ds ≠ [] := by
  rintro rfl
  unfold statedFactType at h
  split at h
  · next existing hexisting =>
    cases h
    cases hexisting
  · obtain ⟨r, z, -, hpure⟩ := perform_bind_eq_ok.1 h
    cases hpure
  · cases h
  · rw [perform_get_bind] at h
    cases h

/-- A fact type is defined by some clause. -/
lemma ne_nil_of_defineFactType {created : Bool}
    (h : (defineFactType cs).perform x = (.ok (f, created, ds), y)) : cs ≠ [] := by
  rintro rfl
  cases h

/-- Clauses that invoke readings have found one each. -/
lemma Finds.exists_eq_map {os : List (Option Alignment)} (h : Finds x cs os y)
    (hunread : ∀ c ∈ cs, c.reading = none)
    (hread : ∀ d ∈ List.zipWith found cs os, d.reading.isSome) :
    ∃ as : List Alignment, os = as.map some ∧
      (List.zipWith found cs os).map (·.factType) = as.map fun a => some a.factType := by
  induction h with
  | nil => exact ⟨[], rfl, rfl⟩
  | misses =>
    have hsome := hread _ List.mem_cons_self
    rw [show (found _ none).reading = none from hunread _ List.mem_cons_self] at hsome
    cases hsome
  | invokes _ _ ih =>
    obtain ⟨as, rfl, hfactTypes⟩ := ih (fun c hc => hunread c (List.mem_cons_of_mem _ hc))
      fun d hd => hread d (List.mem_cons_of_mem _ hd)
    exact ⟨_ :: as, rfl, congrArg (_ :: ·) hfactTypes⟩

/-- **Clauses that have invoked readings restate them.** Let a definition add no readings. Over the
vocabulary that it leads to its clauses invoke the same readings again, and what they state is
there.

**Proof sketch.** Every clause has invoked a reading, for otherwise it would have become one. What
it invokes is settled by types and readings, and these have not changed. -/
theorem exists_restates_of_readings_eq (hx : x.Ready cs) (hi : x.vocabulary.Inherits)
    (hconstrained : x.vocabulary.Constrained) (hflat : ∀ c ∈ cs, c.IsFlat) {created : Bool}
    (hdefine : (defineFactType cs).perform x = (.ok (f, created, ds), z))
    (hreadings : z.vocabulary.readings = x.vocabulary.readings)
    (hagain : (x.onto z.vocabulary).Ready cs) :
    ∃ y, Restates (x.onto z.vocabulary) cs f y := by
  obtain ⟨resolved, y₁, hresolve, hrest⟩ := perform_bind_eq_ok.1 hdefine
  obtain ⟨⟨g, isNew, stated⟩, y₂, hstated, hrest⟩ := perform_bind_eq_ok.1 hrest
  obtain ⟨read, y₃, hread, hrest⟩ := perform_bind_eq_ok.1 hrest
  obtain ⟨_, y₄, hembed, hpure⟩ := perform_bind_eq_ok.1 hrest
  cases hpure
  obtain ⟨hgives, hkeeps, htold⟩ := told_resolveAllStated hx hresolve
  obtain ⟨os, hfinds, rfl⟩ := (perform_resolveAllStated_eq_ok hflat).1 hresolve
  have hembed' := ((embeds_sameReadings.embed ds y₃).of_perform hembed).1
  -- All clauses have invoked readings of the fact type.
  have hstated' : ∀ d ∈ stated, d.reading.isSome := by
    refine reading_isSome_of_readings_eq hread ?_
    rw [← hembed'.readings_eq, hreadings, (spares_statedFactType hstated).2.2.1]
    exact congrArg _ hfinds.vocabulary_eq.symm
  obtain ⟨first, hfirst⟩ := List.exists_mem_of_ne_nil _ (ne_nil_of_statedFactType hstated)
  obtain ⟨rfl, rfl, -⟩ := stated_of_reading hx hresolve hstated hfirst (hstated' _ hfirst)
  obtain ⟨as, rfl, hmap⟩ := hfinds.exists_eq_map hx.unread hstated'
  have hfactTypes : ∀ a ∈ as, a.factType = f := by
    intro a ha
    obtain ⟨d, hd, hfactType⟩ := List.mem_map.1 (hmap ▸ List.mem_map_of_mem ha)
    obtain ⟨-, -, hf⟩ := stated_of_reading hx hresolve hstated hd (hstated' d hd)
    exact Option.some.inj (hfactType.symm.trans hf)
  -- From then on neither the roles of mentions nor the readings change.
  have hmarks : y₂.SameButMarks z := Trans.trans
    ((keeps_stateReadings_sameButMarks f _ (.refl y₂)).of_perform hread).1
    ((embeds_sameButConstraints.embed ds (.refl y₃)).of_perform hembed).1.sameButMarks
  have hroles₁ := rolesOnly_stateReadings hstated' hread
  have hroles₂ : y₃.RolesOnly (fun _ => False) z :=
    ((embeds_rolesOnly.embed ds (.refl y₃)).of_perform hembed).1
  have hroles : y₂.RolesOnly (fun _ => False) z := Trans.trans hroles₁ hroles₂
  have hsame : SameReadings x.vocabulary z.vocabulary :=
    hfinds.vocabulary_eq ▸ Trans.trans (sameReadings_stateReadings hstated' hread) hembed'
  have hgrows : x.vocabulary.Grows z.vocabulary :=
    ((defines_evolving.defineFactType cs x).of_perform hdefine).1.retains.toGrows
  refine ⟨_, restates_of_roles hx hi hconstrained hflat hdefine hagain hfactTypes
    (hfinds.onto hx.valid.consistent.toWellFormed hgrows hsame) (fun c _ m _ => (hroles m id).symm)
    fun c hc m hm r name hdeclares => ?_⟩
  obtain ⟨e, he, hkept⟩ := exists_of_forall₂ hkeeps.flip hc
  have hranges : ∀ d ∈ List.zipWith found cs (as.map some), d.reading.isSome ∧
      d.roleSequence.isSome ∧ ∀ m ∈ d.mentions, ∀ r ∈ (y₂.mention m).role,
        r ∈ y₂.vocabulary.roleIds := by
    intro d hd
    obtain ⟨g, -, -, hfills, hs⟩ := (htold d hd).fills (hstated' d hd)
    refine ⟨hstated' d hd, hs, fun n hn q hq => ?_⟩
    exact hfills.mem_roleIds_of_rolesOf hgives.valid.consistent.toWellFormed q
      (List.mem_filterMap.2 ⟨n, hn, hq⟩)
  have hdeclared := (hmarks.declares_iff (hroles m id)).1 hdeclares
  have hgrows' := ((defines_evolving.embed ds y₃).of_perform hembed).1.retains.toGrows
  have hm' : m ∈ e.mentions := hkept.mentions_eq ▸ hm
  have hmem := ((defines_evolving.stateReadings f _ y₂).of_perform
    hread).1.retains.toGrows.mem_roleIds ((hranges e he).2.2 m hm' r hdeclared.role_eq)
  exact (hgrows'.role hmem).name name
    (named_stateReadings hranges hread e he m hm' r name hdeclared)

/-! ## Definitions by clauses that mention every player -/

/-- The constraints of clauses do not matter for the readings that the clauses are in the words
of. -/
lemma reads_embed (hx : x.vocabulary.WellFormed) {u : Unit} (h : z.Reads c f x)
    (hembed : (ds.forM fun d => do
      let _ ← embedPresenceConstraints d
      let _ ← embedRingConstraint d).perform x = (.ok u, y)) : z.Reads c f y := by
  have hroles : x.RolesOnly (fun _ => False) y :=
    ((embeds_rolesOnly.embed ds (.refl x)).of_perform hembed).1
  have hsame := ((embeds_sameReadings.embed ds x).of_perform hembed).1
  refine h.later hx ((defines_evolving.embed ds x).of_perform hembed).1.retains
    (fun m _ => hroles m id) fun q hq hnew => ?_
  rw [Vocabulary.mem_readingIds, hsame.readings_eq, ← Vocabulary.mem_readingIds] at hq
  exact absurd hq hnew

/-- If clauses and those nested in them have all mentions apart, so do the clauses by themselves. -/
lemma nodup_mentions (h : (allMentions cs).Nodup) : (cs.flatMap Clause.mentions).Nodup := by
  rw [allMentions_eq, List.nodup_flatMap] at h
  refine List.nodup_flatMap.2 ⟨fun c hc => ?_, h.2.imp fun hdisjoint m hm hm' => ?_⟩
  · exact (List.nodup_append'.1 (c.perm_allMentions.nodup_iff.1 (h.1 c hc))).1
  · exact hdisjoint (Clause.mentions_subset_allMentions _ hm)
      (Clause.mentions_subset_allMentions _ hm')

/-- Clauses that invoke readings keep their roles when readings are stated. -/
lemma roles_stateReadings (hnodup : (allMentions cs).Nodup)
    (h : (stateReadings f cs).perform x = (.ok ds, y)) :
    ∀ c ∈ cs, c.reading.isSome → ∀ m ∈ c.mentions, (y.mention m).role = (x.mention m).role := by
  rw [allMentions_eq, List.nodup_flatMap] at hnodup
  have hroles : x.RolesOnly (fun m => ∃ d ∈ cs, d.reading = none ∧ m ∈ d.mentions) y :=
    ((leads_stateReadings_rolesOnly (fun d hd hread m hm => ⟨d, hd, hread, hm⟩) f x).of_perform
      h).1
  intro c hc hread m hm
  refine hroles m ?_
  rintro ⟨d, hd, hunread, hm'⟩
  have hne : c ≠ d := by
    rintro rfl
    rw [hunread] at hread
    cases hread
  have : Std.Symm (Function.onFun List.Disjoint Clause.allMentions) :=
    ⟨fun _ _ h _ hm hm' => h hm' hm⟩
  exact hnodup.2.forall hc hd hne
    (c.mentions_subset_allMentions hm) (d.mentions_subset_allMentions hm')

/-- **A definition puts clauses into the words of readings**, if the mentions of the clauses agree
about their players and have no roles yet, clauses invoke readings at no cost, and those that invoke
none have a mention for each role.

**Proof sketch.** What clauses invoke gives roles to their mentions, and so does what they become.
The readings that are new belong to the fact type, so that the clauses stay in the words of their
own ones and in those of no other fact type. -/
theorem reads_defineFactType (hx : x.Ready cs) (hagree : x.PlayersAgree)
    (hunplayed : ∀ m, (x.mention m).role = none) (hflat : ∀ c ∈ cs, c.IsFlat) {created : Bool}
    (h : (defineFactType cs).perform x = (.ok (f, created, ds), z))
    (hall : ∀ c ∈ cs, z.MentionsAll f c) (hexact : ∀ d ∈ ds, ∀ a ∈ d.alignment, a.cost = 0)
    (hplain : (z.vocabulary.factType f).kind = .plain) : ∀ c ∈ cs, x.Reads c f z := by
  have hretains := ((defines_evolving.defineFactType cs x).of_perform h).1.retains
  obtain ⟨resolved, y₁, hresolve, hrest⟩ := perform_bind_eq_ok.1 h
  obtain ⟨⟨g, isNew, stated⟩, y₂, hstated, hrest⟩ := perform_bind_eq_ok.1 hrest
  obtain ⟨read, y₃, hread, hrest⟩ := perform_bind_eq_ok.1 hrest
  obtain ⟨_, y₄, hembed, hpure⟩ := perform_bind_eq_ok.1 hrest
  cases hpure
  have hcast := wellCast_stated hx hresolve hstated hagree hunplayed
  obtain ⟨hf, hranges⟩ := inRange_stated hx hresolve hstated
  obtain ⟨-, hmentions, hbound⟩ := isBound_stated hx hresolve hstated
  have hnodup : (allMentions stated).Nodup := hmentions ▸ hx.nodup
  obtain ⟨-, hkeeps, -⟩ := told_resolveAllStated hx hresolve
  obtain ⟨hmarks, -, -, hsame⟩ := spares_statedFactType hstated
  have hretains₃ := ((defines_evolving.embed ds y₃).of_perform hembed).1.retains
  have hretains₂ := ((defines_evolving.stateReadings f stated y₂).of_perform hread).1.retains
  have hplain₂ : (y₂.vocabulary.factType f).kind = .plain := by
    rw [← ((hretains₂.trans hretains₃).factType hf).kind_eq, hplain]
  -- Once a clause invokes a reading the fact type is that of the reading.
  have hfound : ∀ d ∈ resolved, d.reading.isSome →
      stated = resolved ∧ y₂ = y₁ ∧ d.factType = some f := by
    intro d hd hsome
    obtain ⟨e, he, -, -, hreading⟩ := exists_of_forall₂ hsame.flip hd
    obtain ⟨rfl, rfl, -⟩ := stated_of_reading hx hresolve hstated he (hreading ▸ hsome)
    exact stated_of_reading hx hresolve hstated hd hsome
  have halignments : ds.map (·.alignment) = resolved.map (·.alignment) := by
    rw [map_stateReadings (·.alignment) (fun _ _ _ _ => rfl) hread,
      map_statedFactType (·.alignment) (fun _ _ _ _ => rfl) hstated]
  have hresolved := reads_resolveAllStated hx.valid.consistent.toWellFormed hflat
    (nodup_mentions hx.nodup) (fun hmem => (hretains.factType hmem).kind_eq ▸ hplain)
    hresolve fun d hd hsome => ⟨(hfound d hd hsome).2.2, fun a ha => by
      obtain ⟨e, he, hsame⟩ := List.mem_map.1 (halignments ▸ List.mem_map_of_mem hd)
      exact hexact e he a (hsame ▸ ha)⟩
  -- The clauses that invoke none become readings.
  have hall₂ : ∀ d ∈ stated, d.reading = none → y₂.MentionsAll f d := by
    intro d hd hunread
    obtain ⟨e, he, hphrases, -, hreading⟩ := exists_of_forall₂ hsame hd
    obtain ⟨c, hc, ⟨hsome, -⟩ | ⟨rfl, -⟩⟩ := exists_of_forall₂ hresolved he
    · rw [← hreading, hunread] at hsome
      cases hsome
    · exact ((mentionsAll_iff_of_retains hf (hretains₂.trans hretains₃)).1
        (hall e hc)).of_phrases_eq hphrases
  obtain ⟨hnew, hreads⟩ := reads_stateReadings hcast hf (by rw [FactType.isStated, hplain₂]) hranges
    (mayState_stated hx hresolve hstated) hall₂ hnodup hbound hread
  have hy₃ := ((leads_stateReadings hcast.valid hf hranges).of_perform hread).1.valid
  intro c hc
  refine reads_embed hy₃.consistent.toWellFormed ?_ hembed
  obtain ⟨d, hd, hkept, ⟨hsome, hreadsc⟩ | ⟨rfl, hunchanged⟩⟩ := exists_of_forall₂
    (List.Forall₂.mp (fun _ _ hkept hcase => And.intro hkept hcase) hkeeps hresolved).flip hc
  · obtain ⟨rfl, rfl, -⟩ := hfound d hd hsome
    exact hreadsc.later hcast.valid.consistent.toWellFormed hretains₂ (fun m hm =>
      roles_stateReadings hnodup hread d hd hsome m (hkept.mentions_eq ▸ hm)) hnew
  · obtain ⟨e, he, hphrases, hcertainty, hreading⟩ := exists_of_forall₂ hsame.flip hd
    refine ((hreads e he (hreading.trans (hx.unread d hc))).of_phrases_eq hphrases.symm
      hcertainty.symm).reworded hy₃.consistent.toWellFormed fun m hm => ?_
    obtain ⟨hleading, htrailing, hplayer⟩ := hmarks.wordedAs (c := d) m hm
    rw [← hunchanged m hm]
    exact ⟨hleading.symm, htrailing.symm, hplayer.symm⟩

/-- Mentions that have roles of a fact type keep them when their clause becomes a reading. -/
lemma role_makeReading_of_casts (hcasts : x.Casts f c.mentions) (hnodup : c.mentions.Nodup)
    (hsize : ∀ m ∈ c.mentions, m.index < x.mentions.size)
    (h : (makeReading c f).perform x = (.ok (r, d), y)) :
    ∀ m ∈ c.mentions, (y.mention m).role = (x.mention m).role := by
  obtain ⟨tokens, refs, hparts, -⟩ := perform_makeReading_eq_ok h
  obtain ⟨-, -, hrefs⟩ := readingParts_of_casts [] hcasts hnodup hparts
  have hgiven := (ends_makeReading_role hnodup hsize f).of_perform h tokens refs hparts
  rw [show refs = c.mentions.map x.ownRef from hrefs, List.map_map, List.map_inj_left] at hgiven
  intro m hm
  obtain ⟨q, hq, -⟩ := hcasts.role m hm
  rw [hgiven m hm, Function.comp_apply, ownRef, hq]
  rfl

section Created

variable {others : List Clause} (hx : x.Ready (c :: others)) (hflat : ∀ e ∈ c :: others, e.IsFlat)
  (h : (defineFactType (c :: others)).perform x = (.ok (f, true, ds), z))

include hx hflat h

/-- Where clauses create a fact type it is made of the first one, and none of them changes before
they become readings. -/
lemma exists_created : ∃ d x₂ x₃,
    (resolveAllStated (c :: others)).perform x = (.ok (c :: others), x) ∧
    (statedFactType (c :: others)).perform x = (.ok (f, true, d :: others), x₂) ∧
    (makeFactType c).perform x = (.ok (f, d), x₂) ∧
    (stateReadings f (d :: others)).perform x₂ = (.ok ds, x₃) ∧
    (ds.forM fun e => do
      let _ ← embedPresenceConstraints e
      let _ ← embedRingConstraint e).perform x₃ = (.ok ⟨⟩, z) := by
  obtain ⟨resolved, x₁, hresolve, hrest⟩ := perform_bind_eq_ok.1 h
  obtain ⟨⟨g, isNew, stated⟩, x₂, hstated, hrest⟩ := perform_bind_eq_ok.1 hrest
  obtain ⟨read, x₃, hread, hrest⟩ := perform_bind_eq_ok.1 hrest
  obtain ⟨_, x₄, hembed, hpure⟩ := perform_bind_eq_ok.1 hrest
  cases hpure
  obtain ⟨os, hfinds, rfl⟩ := (perform_resolveAllStated_eq_ok hflat).1 hresolve
  obtain ⟨hnone, c', others', d, hsplit, rfl, hmake⟩ := statedFactType_created hstated
  obtain ⟨hsame, rfl⟩ := hfinds.eq_of_unmatched hnone
  rw [hsame] at hresolve hstated hsplit
  obtain ⟨rfl, rfl⟩ := List.cons.inj hsplit
  exact ⟨d, x₂, x₃, hresolve, hstated, hmake, hread, hembed⟩

/-- The roles of a new fact type have the names that the mentions of the first clause declare. -/
lemma named_created : ∀ m ∈ c.mentions, ∀ q name, z.Declares m q name →
    (z.vocabulary.role q).name = some name := by
  obtain ⟨d, x₂, x₃, -, -, hmake, hread, hembed⟩ := exists_created hx hflat h
  obtain ⟨-, hd, hcasts, -, -⟩ := casts_makeFactType hmake
  have hdmentions : d.mentions = c.mentions := hd ▸ rfl
  have hsplit := List.nodup_append'.1 (allMentions_cons c others ▸ hx.nodup)
  have hown : c.mentions.Nodup :=
    (List.nodup_append'.1 (c.perm_allMentions.nodup_iff.1 hsplit.1)).1
  have hmarks : x₂.SameButMarks z := Trans.trans
    ((keeps_stateReadings_sameButMarks f _ (.refl x₂)).of_perform hread).1
    ((embeds_sameButConstraints.embed ds (.refl x₃)).of_perform hembed).1.sameButMarks
  have hgrows : x₂.vocabulary.Grows z.vocabulary :=
    (((defines_evolving.stateReadings f _ x₂).of_perform hread).1.retains.trans
      ((defines_evolving.embed ds x₃).of_perform hembed).1.retains).toGrows
  have hembedded : x₃.RolesOnly (fun _ => False) z :=
    ((embeds_rolesOnly.embed ds (.refl x₃)).of_perform hembed).1
  obtain ⟨e, x', es, rfl, hmore, ⟨hsome, -⟩ | ⟨-, r, hmakes⟩⟩ := stateReadings_cons_eq_ok hread
  · rw [hd, hx.unread c List.mem_cons_self] at hsome
    cases hsome
  have hlater : x'.ChangesOnly (· ∈ allMentions others) x₃ :=
    ((leads_stateReadings_changesOnly (fun _ => id) f x').of_perform hmore).1
  have hsize : ∀ m ∈ d.mentions, m.index < x₂.mentions.size := by
    intro m hm
    obtain ⟨q, hq, -⟩ := hcasts.role m (hdmentions ▸ hm)
    by_contra hge
    rw [mention_of_not_lt hge] at hq
    cases hq
  intro m hm q name hdeclares
  -- The mention still has the role that was made for it.
  have hrole : (z.mention m).role = (x₂.mention m).role := by
    rw [hembedded m id, hlater m fun hm' => hsplit.2.2 (c.mentions_subset_allMentions hm) hm']
    exact role_makeReading_of_casts (hdmentions ▸ hcasts) (hdmentions ▸ hown) hsize hmakes m
      (hdmentions ▸ hm)
  have hdeclares' := (hmarks.declares_iff hrole).1 hdeclares
  obtain ⟨q', hq', hmem, -, -⟩ := hcasts.role m hm
  obtain rfl := Option.some.inj (hq'.symm.trans hdeclares'.role_eq)
  refine (hgrows.role hmem).name name ?_
  rw [names_makeFactType hmake m hm q' hq']
  exact hdeclares'.declaredName?_eq

end Created

/-- A lone clause that creates a fact type is in the words of its reading. -/
lemma reads_created (hx : x.Ready [c]) (hflat : c.IsFlat)
    (h : (defineFactType [c]).perform x = (.ok (f, true, ds), z)) (hall : z.MentionsAll f c) :
    x.Reads c f z := by
  obtain ⟨d, x₂, x₃, hresolve, hstated, hmake, hread, hembed⟩ :=
    exists_created hx (List.forall_mem_singleton.2 hflat) h
  obtain ⟨-, hd, hcasts, hsame, -⟩ := casts_makeFactType hmake
  have hmarks := hsame.sameButMarks
  obtain ⟨hf, hranges⟩ := inRange_stated hx hresolve hstated
  obtain ⟨-, hmentions, hbound⟩ := isBound_stated hx hresolve hstated
  have hown : c.mentions.Nodup := by
    have hnodup := nodup_mentions hx.nodup
    rwa [List.flatMap_singleton] at hnodup
  have hdmentions : d.mentions = c.mentions := hd ▸ rfl
  obtain ⟨e, x', es, rfl, hmore, ⟨hsome, -⟩ | ⟨hunread, r, hmakes⟩⟩ :=
    stateReadings_cons_eq_ok hread
  · rw [hd, hx.unread c List.mem_cons_self] at hsome
    cases hsome
  cases hmore
  have hcreates : Creates x c f r x₃.vocabulary := by
    obtain ⟨c', w, hfirst, hrest⟩ := perform_bind_eq_ok.1 hresolve
    obtain ⟨es, w', hnil, hpure⟩ := perform_bind_eq_ok.1 hrest
    cases hpure
    obtain ⟨-, -, hcomparison, hunmatched⟩ :=
      invokes_nothing hflat hfirst (hx.unmatched c List.mem_cons_self).1
    exact (creates_makeReading hcomparison hunmatched hown hmake hmakes).2
  have hretains : x₂.vocabulary.Retains x₃.vocabulary := (reading_makeReading hmakes).1
  have hretains' := ((defines_evolving.embed _ x₃).of_perform hembed).1.retains
  have hx₂ := ((leads_makeFactType hx.valid c).of_perform hmake).1.valid
  have hx₃ := ((leads_makeReading hx₂ (hranges d List.mem_cons_self).isPlain hf).of_perform
    hmakes).1.valid.consistent.toWellFormed
  have hreads : x₂.Reads d f x₃ := by
    refine reads_makeReading hx₂.consistent.toWellFormed (hranges d List.mem_cons_self).isPlain
      (hdmentions ▸ hown) (fun m hm => (hbound m (mem_allMentions_of_mem List.mem_cons_self
        (d.mentions_subset_allMentions hm))).index_lt) hf ?_ ?_
      (mayState_stated hx hresolve hstated d List.mem_cons_self hunread) hmakes ?_
    · rw [FactType.isStated, ← (hretains.factType hf).kind_eq, hcreates.kind_eq]
    · exact ((mentionsAll_iff_of_retains hf (hretains.trans hretains')).1 hall).of_phrases_eq
        (hd ▸ rfl)
    · rw [show d.slots = c.slots from hd ▸ rfl]
      refine hcreates.voices.imp fun s ref hvoices => ?_
      obtain ⟨role, hmention⟩ := hsame s.mention
      exact ⟨hvoices.leading_eq.trans (congrArg Mention.leading hmention).symm,
        hvoices.trailing_eq.trans (congrArg Mention.trailing hmention).symm,
        (congrArg Mention.player hmention).trans hvoices.player_eq⟩
  refine reads_embed hx₃ ((hreads.of_phrases_eq (hd ▸ rfl) (hd ▸ rfl)).reworded hx₃ fun m hm => ?_)
    hembed
  obtain ⟨hleading, htrailing, hplayer⟩ := hmarks.wordedAs (c := c) m hm
  exact ⟨hleading.symm, htrailing.symm, hplayer.symm⟩

/-- Clauses that are in the words of readings of a fact type, which are in different words, restate
what they have stated, if the role names that they declare are there. -/
lemma exists_restates_of_reads (hx : x.Ready cs) (hi : x.vocabulary.Inherits)
    (hconstrained : x.vocabulary.Constrained) (hflat : ∀ c ∈ cs, c.IsFlat) {created : Bool}
    (hdefine : (defineFactType cs).perform x = (.ok (f, created, ds), z))
    (hagain : (x.onto z.vocabulary).Ready cs)
    (hapart : ∀ q ∈ (z.vocabulary.factType f).readings, ∀ q' ∈ (z.vocabulary.factType f).readings,
      z.vocabulary.SameWords q q' → q = q') (hreads : ∀ c ∈ cs, x.Reads c f z)
    (hnamed : ∀ c ∈ cs, ∀ m ∈ c.mentions, ∀ q name, z.Declares m q name →
      (z.vocabulary.role q).name = some name) : ∃ y, Restates (x.onto z.vocabulary) cs f y := by
  have hwf :=
    (adequate_defineFactType hx hi hconstrained hdefine).1.valid.consistent.toWellFormed
  have hwords : ∀ c ∈ cs, c.phrases.all (·.word?.isNone) = false := by
    obtain ⟨resolved, y₁, hresolve, -⟩ := perform_bind_eq_ok.1 hdefine
    obtain ⟨os, hfinds, -⟩ := (perform_resolveAllStated_eq_ok hflat).1 hresolve
    exact hfinds.words
  obtain ⟨as, y, hfinds, hfactTypes, hroles⟩ := exists_finds (x := x.onto z.vocabulary) hwf hapart
    (nodup_mentions hx.nodup) fun c hc =>
      ⟨hflat c hc, hwords c hc, (hreads c hc).imp fun _ hr => hr.1⟩
  refine ⟨y, restates_of_roles hx hi hconstrained hflat hdefine hagain hfactTypes hfinds
    (fun c hc => ?_) hnamed⟩
  obtain ⟨r, hr, hplaced⟩ := hreads c hc
  exact List.map_inj_left.1 ((hroles c hc r hr).trans hplaced.symm)

/-- What lets clauses define a fact type twice: it is plain and its readings are in different words,
the clauses mention a player for each role and invoke readings at no cost, the mentions of several
clauses agree about their players, and only those of the first clause of a new fact type declare
role names. -/
structure Repeatable (x : Context) (cs ds : List Clause) (f : FactTypeId) (created : Bool)
    (z : Context) : Prop where
  kind_eq : (z.vocabulary.factType f).kind = .plain
  apart : ∀ q ∈ (z.vocabulary.factType f).readings, ∀ q' ∈ (z.vocabulary.factType f).readings,
    z.vocabulary.SameWords q q' → q = q'
  mentionsAll : ∀ c ∈ cs, z.MentionsAll f c
  cost_eq : ∀ d ∈ ds, ∀ a ∈ d.alignment, a.cost = 0
  playersAgree : 1 < cs.length → x.PlayersAgree
  unnamed : ∀ c ∈ if created then cs.tail else cs, ∀ m ∈ c.mentions,
    (x.mention m).declaredName? = none

/-- A definition that creates a fact type by one clause is repeatable. -/
lemma repeatable_of_created (hx : x.Ready [c]) (hflat : c.IsFlat) (hadopted : c.IsAdopted)
    (halignment : c.alignment = none) (hmentions : c.mentions ≠ [])
    (hsize : c.phrases.length ≤ Template.placeLimit)
    (h : (defineFactType [c]).perform x = (.ok (f, true, ds), z)) :
    Repeatable x [c] ds f true z := by
  have hown : c.mentions.Nodup := by
    have hnodup := nodup_mentions hx.nodup
    rwa [List.flatMap_singleton] at hnodup
  obtain ⟨r, hcreates, -⟩ := creates_defineFactType hx.valid hflat hown hadopted h
  have hz := ((leads_defineFactType hx.valid fun c hc =>
    (hx.fits c hc).imp fun _ h => h.valid).of_perform h).1.valid.consistent.toWellFormed
  have honly : ∀ q ∈ (z.vocabulary.factType f).readings, q = r := by
    intro q hq
    obtain ⟨hmem, hfactType⟩ := hz.mem_readings.1 hq
    refine (hcreates.reading_cases q hmem).resolve_right fun hold => hcreates.not_mem ?_
    rw [← hfactType, hcreates.retains.reading_eq hold]
    exact hx.valid.consistent.reading_factType_mem hold
  refine ⟨hcreates.kind_eq, fun q hq q' hq' _ => (honly q hq).trans (honly q' hq').symm,
    List.forall_mem_singleton.2 ⟨hmentions, hcreates.arity_eq.symm, hsize⟩, fun d hd a ha => ?_,
    fun hlong => absurd hlong (Nat.lt_irrefl 1), List.forall_mem_nil _⟩
  obtain ⟨e, x₂, x₃, -, -, hmake, hread, -⟩ :=
    exists_created hx (List.forall_mem_singleton.2 hflat) h
  have hkept := map_stateReadings Clause.alignment (fun _ _ _ _ => rfl) hread
  obtain ⟨-, rfl, -⟩ := casts_makeFactType hmake
  have hmem := hkept ▸ List.mem_map_of_mem (f := Clause.alignment) hd
  rw [List.map_singleton, List.mem_singleton, halignment] at hmem
  rw [hmem] at ha
  cases ha

/-- The role names that clauses of a repeatable definition declare are there. -/
lemma Repeatable.named {created : Bool} (h : Repeatable x cs ds f created z) (hx : x.Ready cs)
    (hflat : ∀ c ∈ cs, c.IsFlat)
    (hdefine : (defineFactType cs).perform x = (.ok (f, created, ds), z)) :
    ∀ c ∈ cs, ∀ m ∈ c.mentions, ∀ q name, z.Declares m q name →
      (z.vocabulary.role q).name = some name := by
  have hsustains := ((defines_sustains x.mentions.size).defineFactType cs hx.sustains).of_perform
    hdefine |>.1
  have hunnamed : ∀ c ∈ cs, (c ∈ if created then cs.tail else cs) → ∀ m ∈ c.mentions, ∀ q name,
      z.Declares m q name → (z.vocabulary.role q).name = some name := by
    intro c hc hc' m hm q name hdeclares
    have hname := hdeclares.declaredName?_eq
    rw [Mention.declaredName?, (hsustains.carries.continues m (hx.index_lt hc m hm)).roleName_eq,
      ← Mention.declaredName?, h.unnamed c hc' m hm] at hname
    cases hname
  cases created with
  | false => exact fun c hc => hunnamed c hc hc
  | true =>
    cases cs with
    | nil => exact List.forall_mem_nil _
    | cons c others =>
      exact List.forall_mem_cons.2 ⟨named_created hx hflat hdefine,
        fun e he => hunnamed e (List.mem_cons_of_mem c he) he⟩

/-- A definition by one clause that creates no fact type adds no readings. -/
lemma readings_of_invokes (hx : x.Ready [c]) (hi : x.vocabulary.Inherits)
    (hconstrained : x.vocabulary.Constrained) (hflat : c.IsFlat)
    (hdefine : (defineFactType [c]).perform x = (.ok (f, false, ds), z)) :
    z.vocabulary.readings = x.vocabulary.readings := by
  obtain ⟨y, hstate, hembed⟩ := perform_defineFactType_eq_ok.1 hdefine
  obtain ⟨a, y', hinvokes⟩ := exists_invokes hflat (hx.unmatched c List.mem_cons_self).1 hstate
  obtain ⟨rfl, -, d, -, hadjust⟩ := hinvokes.perform_stateAll_eq_ok.1 hstate
  rw [((embeds_sameReadings.embed ds y).of_perform hembed).1.readings_eq,
    (hinvokes.adjusted hx hi hconstrained hadjust).sameReadings.readings_eq]

/-- **Clauses restate what they have stated.** Over the vocabulary that a definition leads to, its
clauses invoke readings of the fact type, and what they state is there, if the definition has added
no readings or is repeatable. -/
theorem exists_restates (hx : x.Ready cs) (hi : x.vocabulary.Inherits)
    (hconstrained : x.vocabulary.Constrained) (hunplayed : ∀ m, (x.mention m).role = none)
    (hflat : ∀ c ∈ cs, c.IsFlat) {created : Bool}
    (hdefine : (defineFactType cs).perform x = (.ok (f, created, ds), z))
    (hagain : (x.onto z.vocabulary).Ready cs)
    (h : z.vocabulary.readings = x.vocabulary.readings ∨ Repeatable x cs ds f created z) :
    ∃ y, Restates (x.onto z.vocabulary) cs f y := by
  rcases h with hsame | hrepeatable
  · exact exists_restates_of_readings_eq hx hi hconstrained hflat hdefine hsame hagain
  have hnamed := hrepeatable.named hx hflat hdefine
  have hall := hrepeatable.mentionsAll
  by_cases hlong : 1 < cs.length
  · exact exists_restates_of_reads hx hi hconstrained hflat hdefine hagain hrepeatable.apart
      (reads_defineFactType hx (hrepeatable.playersAgree hlong) hunplayed hflat hdefine hall
        hrepeatable.cost_eq hrepeatable.kind_eq) hnamed
  · obtain ⟨c, others, rfl⟩ := List.exists_cons_of_ne_nil (ne_nil_of_defineFactType hdefine)
    obtain rfl : others = [] := by simpa using hlong
    have hc := List.forall_mem_singleton.1 hflat
    cases created with
    | true =>
      exact exists_restates_of_reads hx hi hconstrained hflat hdefine hagain hrepeatable.apart
        (List.forall_mem_singleton.2
          (reads_created hx hc hdefine (hall c List.mem_cons_self))) hnamed
    | false =>
      exact exists_restates_of_readings_eq hx hi hconstrained hflat hdefine
        (readings_of_invokes hx hi hconstrained hc hdefine) hagain

end Compile

end FactModel
