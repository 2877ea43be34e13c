import FactModel.Proofs.Graph.BreadthFirst
import FactModel.Proofs.Matching.Assignment
import FactModel.Proofs.Matching.Ranking
import FactModel.Proofs.Vocabulary.Inheritance
set_option autoImplicit false

/-!
# Readings that are tried

Before readings are laid along a clause, most fact types are put aside by their players alone. No
reading of a fact type that is put aside would match, unless it is put aside because the first
player does not reach it: a role may be played by a type that has only a type above in common with
this player.

## Main definitions

* `FactModel.Context.isReached` — whether the first player reaches a fact type.
* `FactModel.Context.statedReadings`, `FactModel.Context.reachedReadings` — the readings that may
  match a clause, and those of the fact types that its first player reaches.

## Main results

* `FactModel.Context.isPossible_of_align` — the players of a reading that matches can be assigned.
* `FactModel.Context.perm_rank_reachedReadings` — the ranking holds the alignments of the reached
  readings, each once.
-/

namespace FactModel

namespace Vocabulary

variable {v : Vocabulary}

/-- The fact types of some types are those in which one of them plays a role. -/
lemma mem_factTypesOf (hv : v.WellFormed) {types : List ObjectTypeId} {f : FactTypeId} :
    f ∈ v.factTypesOf types ↔ ∃ r ∈ (v.factType f).roles, v.playerOf r ∈ types := by
  simp only [factTypesOf, List.mem_eraseDups, List.mem_map, List.mem_flatMap,
    hv.mem_rolesPlayedBy, hv.mem_roles]
  constructor
  · rintro ⟨r, ⟨t, ht, hr, rfl⟩, rfl⟩
    exact ⟨r, ⟨hr, rfl⟩, ht⟩
  · rintro ⟨r, ⟨hr, rfl⟩, ht⟩
    exact ⟨r, ⟨_, ht, hr, rfl⟩, rfl⟩

/-- No reading has two ids. -/
lemma readingIds_nodup (v : Vocabulary) : v.readingIds.Nodup := by
  rw [readingIds]
  exact (List.nodup_range).map fun _ _ h => ReadingId.mk.inj h

end Vocabulary

namespace Context

variable {x : Context} {options : MatchOptions} {c : Clause}

/-- Whether the first player of a clause reaches a fact type: a role of it is played by this type or
by one above or below it. It is not asked for where the player stands only for itself. -/
def isReached (x : Context) (options : MatchOptions) (c : Clause) (f : FactTypeId) : Bool :=
  match c.slots with
  | [] => false
  | first :: _ =>
    options.exactTypes || first.isObjectified || (x.mention first.mention).player.any fun t =>
      (x.vocabulary.factType f).roles.any fun r =>
        (x.vocabulary.relatedTypes t).contains (x.vocabulary.playerOf r)

/-- The readings of the stated fact types that have a role for each mention of a clause. -/
def statedReadings (x : Context) (c : Clause) : List ReadingId :=
  x.vocabulary.readingIds.filter fun r =>
    let f := x.vocabulary.factType (x.vocabulary.reading r).factType
    f.isStated && f.arity == c.mentions.length

/-- Those of them whose fact type the first player reaches. -/
def reachedReadings (x : Context) (options : MatchOptions) (c : Clause) : List ReadingId :=
  (x.statedReadings c).filter fun r => x.isReached options c (x.vocabulary.reading r).factType

/-! ## Players of walks -/

/-- The player of a mention that takes a role fits the player of the role. -/
lemma fits_of_walkPlayer {s : Slot} {t : ObjectTypeId} {supertype : Option ObjectTypeId}
    (h : x.walkPlayer options s t = .ok supertype) :
    ∃ player, (x.mention s.mention).player = some player ∧
      ((options.exactTypes || s.isObjectified) → player = t) ∧
      Assignment.fits (x.vocabulary.acceptable options.exactTypes player)
        (x.vocabulary.acceptable options.exactTypes t) := by
  have hself : ∀ u, Assignment.fits (x.vocabulary.acceptable options.exactTypes u)
      (x.vocabulary.acceptable options.exactTypes u) := by
    intro u
    have hu : u ∈ x.vocabulary.acceptable options.exactTypes u := by
      unfold Vocabulary.acceptable
      split
      · exact List.mem_singleton_self u
      · exact Vocabulary.mem_relatedTypes_self _ u
    exact List.any_eq_true.2 ⟨u, hu, List.contains_iff_mem.2 hu⟩
  unfold walkPlayer at h
  split at h
  · cases h
  next player hplayer =>
  refine ⟨player, hplayer, ?_⟩
  split at h
  · next heq =>
    rw [heq]
    exact ⟨fun _ => rfl, hself t⟩
  split at h
  · cases h
  next hfree =>
  split at h
  · next s hs =>
    obtain ⟨hplayer, ht⟩ := Vocabulary.mem_supertypes_of_commonSupertype? hs
    refine ⟨fun hexact => absurd hexact hfree, ?_⟩
    have hexact : options.exactTypes = false := by simp_all
    rw [hexact]
    exact List.any_eq_true.2 ⟨s, Vocabulary.mem_relatedTypes_of_mem_supertypes hplayer,
      List.contains_iff_mem.2 (Vocabulary.mem_relatedTypes_of_mem_supertypes ht)⟩
  · cases h

/-- The mentions of slots that take roles have players, each of which fits the player of its
role. -/
lemma players_of_takes {refs : List RoleRef} {slots : List Slot} {placements : List Placement}
    (h : List.Forall₂ (Takes x options refs) slots placements) :
    ∃ players, (slots.mapM fun s => (x.mention s.mention).player) = some players ∧
      List.Forall₂ (fun player p =>
        Assignment.fits (x.vocabulary.acceptable options.exactTypes player)
          (x.vocabulary.acceptable options.exactTypes (x.vocabulary.playerOf p.role)))
        players placements := by
  induction h with
  | nil => exact ⟨[], rfl, .nil⟩
  | @cons s p slots placements htakes _ ih =>
    obtain ⟨player, hplayer, -, hfits⟩ := fits_of_walkPlayer htakes.player
    obtain ⟨players, hplayers, hall⟩ := ih
    refine ⟨player :: players, ?_, .cons hfits hall⟩
    rw [List.mapM_cons, hplayer, hplayers]
    rfl

/-- The players of a clause that a reading matches can all have roles of their own.

**Proof sketch.** The walk gives every mention the role of another placeholder, whose player is the
same or has a type above in common. -/
theorem isPossible_of_align (hv : x.vocabulary.WellFormed) {a : Alignment}
    (hr : a.reading ∈ x.vocabulary.readingIds) (h : x.align options c a.reading = .ok a) :
    ∃ players, (c.slots.mapM fun s => (x.mention s.mention).player) = some players ∧
      players.length = c.mentions.length ∧
      Assignment.isPossible (players.map (x.vocabulary.acceptable options.exactTypes))
        ((x.vocabulary.factType (x.vocabulary.reading a.reading).factType).roles.map fun r =>
          x.vocabulary.acceptable options.exactTypes (x.vocabulary.playerOf r)) := by
  have hwalks := (align_eq_ok_iff.1 h).2.1
  obtain ⟨players, hplayers, hfits⟩ := players_of_takes hwalks.takes
  refine ⟨players, hplayers, ?_, ?_⟩
  · rw [hfits.length_eq, ← hwalks.takes.length_eq, Clause.mentions, List.length_map]
    rfl
  have hordinal : ∀ p ∈ a.placements,
      (x.vocabulary.factType (x.vocabulary.reading a.reading).factType).roles[
        (x.vocabulary.role p.role).ordinal]? = some p.role := by
    intro p hp
    obtain ⟨ref, href, hrole⟩ := hwalks.role_eq hp
    have hmem := hv.mem_roles.1 (hv.ref_mem_roles hr (List.mem_of_getElem? href))
    exact (hv.roles_iff _ _ _).2 ⟨hrole ▸ hmem.1, hrole ▸ hmem.2, rfl⟩
  have hnodup : a.placements.Nodup :=
    List.Nodup.of_map (·.roleRef) (hwalks.roleRefs_eq ▸ hv.places_nodup _ hr)
  have hassigned : List.Forall₂ (fun (player : List ObjectTypeId) j =>
      ((x.vocabulary.factType (x.vocabulary.reading a.reading).factType).roles.map fun r =>
        x.vocabulary.acceptable options.exactTypes (x.vocabulary.playerOf r))[j]?.any
          (Assignment.fits player))
      (players.map (x.vocabulary.acceptable options.exactTypes))
      (a.placements.map fun p => (x.vocabulary.role p.role).ordinal) := by
    rw [List.forall₂_map_left_iff, List.forall₂_map_right_iff]
    have hboth := (List.forall₂_and_left a.placements players).2 ⟨hordinal, hfits.flip⟩
    refine List.Forall₂.flip (hboth.imp fun p player hp => ?_)
    rw [flip, List.getElem?_map, hp.1]
    exact hp.2
  refine Assignment.isPossible_of_forall₂ hassigned (hnodup.map_on fun p hp q hq heq => ?_)
    fun j hj => ?_
  · refine hwalks.eq_of_role_eq (hv.places_nodup _ hr) (hv.refs_nodup _ hr) hp hq ?_
    have hsame := (hordinal p hp).symm.trans (heq ▸ hordinal q hq)
    exact Option.some.inj hsame
  · obtain ⟨p, hp, rfl⟩ := List.mem_map.1 hj
    rw [List.length_map]
    exact (List.getElem?_eq_some_iff.1 (hordinal p hp)).1

/-! ## Rankings -/

/-- The first of the players of some slots is that of the first slot. -/
lemma player_of_mapM {first : Slot} {rest : List Slot} {player : ObjectTypeId}
    {players : List ObjectTypeId}
    (h : ((first :: rest).mapM fun s => (x.mention s.mention).player) = some (player :: players)) :
    (x.mention first.mention).player = some player := by
  rw [List.mapM_cons] at h
  obtain ⟨player', hfirst, hrest⟩ := Option.bind_eq_some_iff.1 h
  obtain ⟨players', -, heq⟩ := Option.bind_eq_some_iff.1 hrest
  cases heq
  exact hfirst

/-- What makes the fact types that are tried for a clause. -/
lemma mem_candidates_iff (hv : x.vocabulary.WellFormed) {slots : List Slot} {f : FactTypeId} :
    f ∈ x.candidates options slots ↔ ∃ first rest player players,
      slots = first :: rest ∧ (x.mention first.mention).player = some player ∧
      (slots.mapM fun s => (x.mention s.mention).player) = some (player :: players) ∧
      (∃ r ∈ (x.vocabulary.factType f).roles, x.vocabulary.playerOf r ∈
        x.vocabulary.acceptable (options.exactTypes || first.isObjectified) player) ∧
      x.vocabulary.isEligible options.exactTypes (player :: players) f := by
  unfold candidates
  split
  · next first rest player players hplayers =>
    have hfirst := player_of_mapM hplayers
    rw [List.mem_filter, Vocabulary.mem_factTypesOf hv]
    constructor
    · rintro ⟨hrole, heligible⟩
      exact ⟨first, rest, player, players, rfl, hfirst, hplayers, hrole, heligible⟩
    · rintro ⟨_, _, player', players', ⟨⟩, hfirst', hplayers', hrole, heligible⟩
      cases hplayers.symm.trans hplayers'
      exact ⟨hrole, heligible⟩
  · next hnone =>
    refine iff_of_false List.not_mem_nil ?_
    rintro ⟨first, rest, player, players, rfl, -, hplayers, -⟩
    exact hnone first rest player players rfl hplayers

/-- A fact type that is tried for a clause is reached by the first player. -/
lemma isReached_of_mem_candidates (hv : x.vocabulary.WellFormed) {f : FactTypeId}
    (h : f ∈ x.candidates options c.slots) : x.isReached options c f := by
  obtain ⟨first, rest, player, players, hslots, hplayer, -, ⟨r, hr, hrole⟩, -⟩ :=
    (mem_candidates_iff hv).1 h
  unfold isReached
  rw [hslots]
  dsimp only
  rw [hplayer]
  cases hexact : options.exactTypes || first.isObjectified with
  | true => rfl
  | false =>
    rw [hexact] at hrole
    exact List.any_eq_true.2 ⟨r, hr, List.contains_iff_mem.2 hrole⟩

/-- A fact type is tried for a clause that one of its readings matches, if the first player reaches
it. -/
lemma mem_candidates_of_align (hv : x.vocabulary.WellFormed) {a : Alignment}
    (hr : a.reading ∈ x.vocabulary.readingIds) (h : x.align options c a.reading = .ok a)
    (hstated : (x.vocabulary.factType (x.vocabulary.reading a.reading).factType).isStated)
    (harity : (x.vocabulary.factType (x.vocabulary.reading a.reading).factType).arity =
      c.mentions.length)
    (hreached : x.isReached options c (x.vocabulary.reading a.reading).factType) :
    (x.vocabulary.reading a.reading).factType ∈ x.candidates options c.slots := by
  obtain ⟨players, hplayers, hlength, hpossible⟩ := isPossible_of_align hv hr h
  have hwalks := (align_eq_ok_iff.1 h).2.1
  have htakes : List.Forall₂ _ c.slots a.placements := hwalks.takes
  unfold isReached at hreached
  cases hslots : c.slots with
  | nil =>
    rw [hslots] at hreached
    cases hreached
  | cons first rest =>
    rw [hslots] at hreached hplayers htakes
    obtain ⟨player, players', rfl⟩ : ∃ player players', players = player :: players' := by
      refine List.exists_cons_of_length_pos ?_
      rw [hlength, Clause.mentions, List.length_map, hslots]
      exact Nat.succ_pos _
    have hfirst := player_of_mapM hplayers
    refine (mem_candidates_iff hv).2
      ⟨first, rest, player, players', rfl, hfirst, hplayers, ?_, ?_⟩
    · cases hexact : options.exactTypes || first.isObjectified with
      | true =>
        -- A player that stands only for itself plays the role that it takes.
        obtain ⟨p, placements, htake, -, hplacements⟩ := List.forall₂_cons_left_iff.1 htakes
        obtain ⟨player', hplayer', hsame, -⟩ := fits_of_walkPlayer htake.player
        cases hfirst.symm.trans hplayer'
        obtain ⟨ref, href, hrole⟩ := hwalks.role_eq (hplacements ▸ List.mem_cons_self)
        refine ⟨p.role, hrole ▸ hv.ref_mem_roles hr (List.mem_of_getElem? href), ?_⟩
        rw [Vocabulary.acceptable, if_pos rfl, hsame hexact]
        exact List.mem_singleton_self _
      | false =>
        dsimp only at hreached
        rw [hexact, hfirst, Bool.false_or, Option.any_some] at hreached
        obtain ⟨r, hr, hrole⟩ := List.any_eq_true.1 hreached
        exact ⟨r, hr, List.contains_iff_mem.1 hrole⟩
    · rw [Vocabulary.isEligible, hstated, harity, hlength, hpossible]
      simp

/-- A reading that matches a clause is tried just in case it is reached. -/
lemma mem_triedReadings_iff (hv : x.vocabulary.WellFormed) (hcomparison : c.comparison? = none)
    {a : Alignment} (h : x.align options c a.reading = .ok a) :
    a.reading ∈ x.triedReadings options c ↔ a.reading ∈ x.reachedReadings options c := by
  rw [triedReadings, if_neg (by simp [hcomparison]), List.mem_flatMap, reachedReadings,
    statedReadings, List.mem_filter, List.mem_filter]
  simp only [Bool.and_eq_true, beq_iff_eq]
  constructor
  · rintro ⟨f, hf, hr⟩
    obtain ⟨hmem, rfl⟩ := hv.mem_readings.1 hr
    obtain ⟨players, hplayers, hlength, -⟩ := isPossible_of_align hv hmem h
    obtain ⟨first, rest, player, players', -, -, hplayers', -, heligible⟩ :=
      (mem_candidates_iff hv).1 hf
    cases hplayers.symm.trans hplayers'
    rw [Vocabulary.isEligible, Bool.and_eq_true, Bool.and_eq_true, beq_iff_eq, hlength] at heligible
    exact ⟨⟨hmem, heligible.1⟩, isReached_of_mem_candidates hv hf⟩
  · rintro ⟨⟨hr, hstated, harity⟩, hreached⟩
    exact ⟨_, mem_candidates_of_align hv hr h hstated harity hreached, hv.mem_readings.2 ⟨hr, rfl⟩⟩

/-- Where players stand only for themselves, every fact type counts as reached. -/
lemma reachedReadings_of_exactTypes (hexact : options.exactTypes) (hmentions : c.mentions ≠ []) :
    x.reachedReadings options c = x.statedReadings c := by
  refine List.filter_eq_self.2 fun r _ => ?_
  unfold isReached
  split
  · next hslots =>
    rw [Clause.mentions, hslots] at hmentions
    exact absurd rfl hmentions
  · rw [hexact]
    rfl

/-- No reading is tried twice. -/
lemma triedReadings_nodup (hv : x.vocabulary.WellFormed) :
    (x.triedReadings options c).Nodup := by
  unfold triedReadings
  split
  · exact List.nodup_nil
  refine List.nodup_flatMap.2 ⟨fun f _ => hv.readings_nodup f, ?_⟩
  have hcandidates : (x.candidates options c.slots).Nodup := by
    unfold candidates
    split
    · exact (nodup_eraseDups _).filter _
    · exact List.nodup_nil
  refine hcandidates.imp fun hne r hr hr' => hne ?_
  rw [← (hv.mem_readings.1 hr).2, (hv.mem_readings.1 hr').2]

/-- The ranking of a clause holds the alignments of the readings that it reaches, each once.

**Proof sketch.** A reading that does not match has no alignment on either side. One that matches
gives different roles to the players, so that its fact type is not put aside for them. -/
theorem perm_rank_reachedReadings (hv : x.vocabulary.WellFormed) (options : MatchOptions)
    (hcomparison : c.comparison? = none) :
    (x.rank options c).alignments.Perm
      ((x.reachedReadings options c).filterMap fun r => (x.align options c r).toOption) := by
  have hreading : ∀ r r' a, a ∈ (x.align options c r).toOption →
      a ∈ (x.align options c r').toOption → r = r' := by
    intro r r' a ha ha'
    rw [← reading_of_align (toOption_align_eq_some.1 ha), reading_of_align
      (toOption_align_eq_some.1 ha')]
  refine (perm_rank x options c).trans ((List.perm_ext_iff_of_nodup
    ((triedReadings_nodup hv).filterMap hreading)
    ((((Vocabulary.readingIds_nodup _).filter _).filter _).filterMap hreading)).2 fun a => ?_)
  simp only [List.mem_filterMap, toOption_align_eq_some]
  refine exists_congr fun r => and_congr_left fun h => ?_
  obtain rfl := reading_of_align h
  exact mem_triedReadings_iff hv hcomparison h

end Context

end FactModel
