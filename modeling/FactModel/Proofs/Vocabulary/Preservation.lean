import FactModel.Proofs.Vocabulary.WellFormed
set_option autoImplicit false

/-!
# Elementary changes keep vocabularies well-formed

For each elementary change there is one lemma: what it needs so that a well-formed vocabulary stays
well-formed. Only the fields that speak of a changed list need an argument; the others hold as they
did.

## Main results

* `FactModel.Vocabulary.wellFormed_pushObjectType` — a type of a new name.
* `FactModel.Vocabulary.wellFormed_pushRole` — a role of a fact type that exists.
* `FactModel.Vocabulary.wellFormed_pushReading` — a reading that says something new.
* `FactModel.Vocabulary.wellFormed_linkObjectification` — a type and a fact type that are free for
  each other.
-/

namespace FactModel.Vocabulary

variable {v : Vocabulary}

/-! ## What growth keeps of a well-formed vocabulary -/

namespace WellFormed

variable (hv : v.WellFormed) {w : Vocabulary} (hvw : v.Grows w)

include hv hvw

/-- A reading that was there lists the same roles as before. -/
lemma readingRefs_eq {r : ReadingId} (hr : r ∈ v.readingIds) :
    w.readingRefs r = v.readingRefs r := by
  rw [readingRefs, readingRefs, hvw.reading_eq hr,
    hvw.roleSequence_eq (hv.reading_roleSequence_mem r hr)]

/-- A role sequence that was there has the same players with the same adjectives. -/
lemma wordedPlayers_eq {s : RoleSequenceId} (hs : s ∈ v.roleSequenceIds) :
    w.wordedPlayers s = v.wordedPlayers s := by
  rw [wordedPlayers, wordedPlayers, hvw.roleSequence_eq hs]
  refine List.map_congr_left fun ref href => ?_
  rw [hvw.playerOf_eq (hv.ref_mem s ref href)]

/-- Readings that were distinct remain so. -/
lemma readings_distinct_grows {r r' : ReadingId} (hr : r ∈ v.readingIds) (hr' : r' ∈ v.readingIds)
    (hfact : (w.reading r).factType = (w.reading r').factType)
    (htext : (w.reading r).text = (w.reading r').text)
    (hneg : (w.reading r).isNegative = (w.reading r').isNegative)
    (hworded : w.wordedPlayers (w.reading r).roleSequence =
      w.wordedPlayers (w.reading r').roleSequence) : r = r' := by
  rw [hvw.reading_eq hr, hvw.reading_eq hr'] at hfact htext hneg hworded
  rw [hv.wordedPlayers_eq hvw (hv.reading_roleSequence_mem r hr),
    hv.wordedPlayers_eq hvw (hv.reading_roleSequence_mem r' hr')] at hworded
  exact hv.readings_distinct r hr r' hr' hfact htext hneg hworded

/-- The roles that a reading lists are still those of its fact type. -/
lemma ref_factType_grows {r : ReadingId} (hr : r ∈ v.readingIds) :
    ∀ ref ∈ w.readingRefs r, (w.role ref.role).factType = (w.reading r).factType := by
  intro ref href
  rw [hv.readingRefs_eq hvw hr] at href
  rw [hvw.reading_eq hr, (hvw.role (hv.ref_mem _ ref href)).factType_eq]
  exact hv.ref_factType r hr ref href

end WellFormed

/-! ## Object types -/

section ObjectTypes

variable (hv : v.WellFormed)

include hv

/-- An object type of a new name keeps a vocabulary well formed. -/
lemma wellFormed_pushObjectType {name : String} (hname : v.findObjectType? name = none)
    (kind : ObjectTypeKind) (isForward : Bool) :
    (v.pushObjectType name kind isForward).WellFormed := by
  have hgrows := v.grows_pushObjectType name kind isForward
  refine { hv with
    objectType_id := ?_, findObjectType?_iff := ?_, rolesPlayedBy_eq := ?_
    objectifies_iff := ?_, query_inRange := fun q hq => (hv.query_inRange q hq).grows hgrows }
  · intro t ht
    rw [objectType_pushObjectType]
    split
    · next h => rw [h]
    · next h =>
      rw [mem_objectTypeIds_pushObjectType, or_iff_right h] at ht
      exact hv.objectType_id t ht
  · intro other t
    rw [findObjectType?_pushObjectType, mem_objectTypeIds_pushObjectType, nameOf,
      objectType_pushObjectType]
    have hfind := hv.findObjectType?_iff other t
    rw [nameOf] at hfind
    have hnew := v.size_not_mem_objectTypeIds
    grind
  · intro t
    rw [rolesPlayedBy, objectType_pushObjectType]
    split
    · next h =>
      -- No role has a player that is only now added.
      refine (List.filter_eq_nil_iff.2 fun r hr => ?_).symm
      have hplayer := hv.role_player_mem hr
      simp only [decide_eq_true_eq]
      rintro rfl
      exact absurd (h ▸ hplayer) (by simp)
    · exact hv.rolesPlayedBy_eq t
  · intro e f
    have he := hv.objectifies_iff e f
    rw [objectType_pushObjectType]
    split
    · next h =>
      rw [objectType_of_not_mem (by simp [h])] at he
      exact he
    · exact he

/-- An object type may change in what no other construct refers to. -/
lemma wellFormed_modifyObjectType (t : ObjectTypeId) {change : ObjectType → ObjectType}
    (hid : ∀ u, (change u).id = u.id) (hname : ∀ u, (change u).name = u.name)
    (hplayed : ∀ u, (change u).playedRoles = u.playedRoles)
    (hfact : ∀ u, (change u).factType = u.factType) :
    (v.modifyObjectType t change).WellFormed := by
  refine { hv with
    objectType_id := ?_, findObjectType?_iff := ?_, rolesPlayedBy_eq := ?_
    objectifies_iff := ?_
    query_inRange := fun q hq => (hv.query_inRange q hq).mono
      (objectTypeIds_modifyObjectType t change ▸ List.Subset.refl _) (List.Subset.refl _)
      (List.Subset.refl _) (List.Subset.refl _) }
  · intro u hu
    rw [objectTypeIds_modifyObjectType] at hu
    rw [objectType_modifyObjectType_apply ObjectType.id t hid, hv.objectType_id u hu]
  · intro other u
    rw [objectTypeIds_modifyObjectType, nameOf,
      objectType_modifyObjectType_apply ObjectType.name t hname]
    exact hv.findObjectType?_iff other u
  · intro u
    rw [rolesPlayedBy, objectType_modifyObjectType_apply ObjectType.playedRoles t hplayed]
    exact hv.rolesPlayedBy_eq u
  · intro e f
    rw [objectType_modifyObjectType_apply ObjectType.factType t hfact]
    exact hv.objectifies_iff e f

/-- Making a type a kind of another one keeps a vocabulary well formed. -/
lemma wellFormed_linkSubtype (subtype supertype : ObjectTypeId) :
    (v.linkSubtype subtype supertype).WellFormed := by
  refine wellFormed_modifyObjectType (wellFormed_modifyObjectType hv subtype ?_ ?_ ?_ ?_)
    supertype ?_ ?_ ?_ ?_ <;> exact fun _ => rfl

/-- An entity type and a fact type may come to belong to each other if neither belongs to
another. -/
lemma wellFormed_linkObjectification {e : ObjectTypeId} {f : FactTypeId}
    (he : e ∈ v.objectTypeIds) (hf : f ∈ v.factTypeIds)
    (hfree : (v.objectType e).factType = none ∨ (v.objectType e).factType = some f)
    (hfree' : (v.factType f).entityType = none ∨ (v.factType f).entityType = some e) :
    (v.linkObjectification e f).WellFormed := by
  have hgrows := grows_linkObjectification hfree hfree'
  refine { hv with
    objectType_id := ?_, factType_id := ?_, findObjectType?_iff := ?_, roles_iff := ?_
    rolesPlayedBy_eq := ?_, readings_iff := ?_, objectifies_iff := ?_, derivation_mem := ?_
    query_inRange := fun q hq => (hv.query_inRange q hq).grows hgrows }
  · intro t ht
    rw [objectTypeIds_linkObjectification] at ht
    rw [(hgrows.objectType ht).id_eq, hv.objectType_id t ht]
  · intro g hg
    rw [factTypeIds_linkObjectification] at hg
    rw [(hgrows.factType hg).id_eq, hv.factType_id g hg]
  · intro name t
    rw [objectTypeIds_linkObjectification, nameOf,
      objectType_linkObjectification_apply ObjectType.name fun _ _ _ => rfl]
    exact hv.findObjectType?_iff name t
  · intro g k r
    rw [factType_linkObjectification_apply FactType.roles fun _ _ => rfl]
    exact hv.roles_iff g k r
  · intro t
    rw [rolesPlayedBy, objectType_linkObjectification_apply ObjectType.playedRoles fun _ _ _ => rfl]
    exact hv.rolesPlayedBy_eq t
  · intro g k r
    rw [factType_linkObjectification_apply FactType.readings fun _ _ => rfl]
    exact hv.readings_iff g k r
  · intro t g
    have htg := hv.objectifies_iff t g
    have htf := hv.objectifies_iff t f
    have heg := hv.objectifies_iff e g
    rw [objectType_linkObjectification_factType he, factType_linkObjectification_entityType e hf]
    grind
  · intro g q
    rw [factType_linkObjectification_apply FactType.derivation fun _ _ => rfl]
    exact hv.derivation_mem g q

end ObjectTypes

/-! ## Fact types and roles -/

section FactTypes

variable (hv : v.WellFormed)

include hv

/-- A fact type keeps a vocabulary well formed. -/
lemma wellFormed_pushFactType (kind : FactTypeKind) : (v.pushFactType kind).WellFormed := by
  have hgrows := v.grows_pushFactType kind
  have hnew := v.size_not_mem_factTypeIds
  refine { hv with
    factType_id := ?_, roles_iff := ?_, readings_iff := ?_, objectifies_iff := ?_
    derivation_mem := ?_, query_inRange := fun q hq => (hv.query_inRange q hq).grows hgrows }
  · intro f hf
    rw [factType_pushFactType]
    split
    · next h => rw [h]
    · next h =>
      rw [mem_factTypeIds_pushFactType, or_iff_right h] at hf
      exact hv.factType_id f hf
  · intro f k r
    have hroles := hv.roles_iff f k r
    rw [factType_pushFactType]
    split
    · next h => rwa [factType_of_not_mem (h ▸ hnew)] at hroles
    · exact hroles
  · intro f k r
    have hreadings := hv.readings_iff f k r
    rw [factType_pushFactType]
    split
    · next h => rwa [factType_of_not_mem (h ▸ hnew)] at hreadings
    · exact hreadings
  · intro e f
    have hobj := hv.objectifies_iff e f
    rw [factType_pushFactType]
    split
    · next h => rwa [factType_of_not_mem (h ▸ hnew)] at hobj
    · exact hobj
  · intro f q
    rw [factType_pushFactType]
    split
    · exact fun h => nomatch h
    · exact hv.derivation_mem f q

/-- A role of a fact type and of a type that are there keeps a vocabulary well formed. -/
lemma wellFormed_pushRole {f : FactTypeId} {player : ObjectTypeId} (hf : f ∈ v.factTypeIds)
    (ht : player ∈ v.objectTypeIds) (name : Option String) :
    (v.pushRole f player name).WellFormed := by
  have hgrows := v.grows_pushRole f player name
  have hnew := v.size_not_mem_roleIds
  refine { hv with
    objectType_id := ?_, factType_id := ?_, role_id := ?_, findObjectType?_iff := ?_
    roles_iff := ?_, rolesPlayedBy_eq := ?_
    ref_mem := fun s ref href => hgrows.mem_roleIds (hv.ref_mem s ref href)
    readings_iff := ?_
    ref_factType := fun r hr => hv.ref_factType_grows hgrows hr
    readings_distinct := fun r hr r' hr' => hv.readings_distinct_grows hgrows hr hr'
    objectifies_iff := ?_
    ring_role_mem := fun c hc => hgrows.mem_roleIds (hv.ring_role_mem c hc)
    ring_otherRole_mem := fun c hc => hgrows.mem_roleIds (hv.ring_otherRole_mem c hc)
    derivation_mem := ?_
    query_inRange := fun q hq => (hv.query_inRange q hq).grows hgrows }
  · intro t ht'
    rw [objectTypeIds_pushRole] at ht'
    rw [(hgrows.objectType ht').id_eq, hv.objectType_id t ht']
  · intro g hg
    rw [factTypeIds_pushRole] at hg
    rw [(hgrows.factType hg).id_eq, hv.factType_id g hg]
  · intro r hr
    rw [role_pushRole]
    split
    · next h => rw [h]
    · next h =>
      rw [mem_roleIds_pushRole, or_iff_right h] at hr
      exact hv.role_id r hr
  · intro other t
    rw [objectTypeIds_pushRole]
    refine (hv.findObjectType?_iff other t).trans (and_congr_right fun ht' => ?_)
    rw [hgrows.nameOf_eq ht']
  · intro g k r
    have hroles := hv.roles_iff g k r
    rw [factType_pushRole, role_pushRole, mem_roleIds_pushRole]
    have harity : (v.factType f).arity = (v.factType f).roles.length := rfl
    grind
  · intro t
    have hold : v.roleIds.filter ((v.pushRole f player name).playerOf · = t) =
        v.roleIds.filter (v.playerOf · = t) :=
      List.filter_congr fun r hr => by rw [hgrows.playerOf_eq hr]
    have hplayer : (v.pushRole f player name).playerOf ⟨v.roles.size⟩ = player := by
      simp [playerOf, role_pushRole]
    rw [roleIds_pushRole, List.filter_append, hold, ← hv.rolesPlayedBy_eq, rolesPlayedBy,
      objectType_pushRole]
    by_cases h : t = player
    · have hmem : (⟨v.roles.size⟩ : RoleId) ∉ (v.objectType player).playedRoles := fun hr =>
        hnew (hv.mem_rolesPlayedBy.1 hr).1
      simp [h, ht, hplayer, withItem, hmem, rolesPlayedBy]
    · simp [h, Ne.symm h, hplayer, rolesPlayedBy]
  · intro g k r
    rw [factType_pushRole_apply FactType.readings fun _ _ => rfl]
    exact hv.readings_iff g k r
  · intro e g
    rw [objectType_pushRole_apply ObjectType.factType fun _ _ => rfl,
      factType_pushRole_apply FactType.entityType fun _ _ => rfl]
    exact hv.objectifies_iff e g
  · intro g q
    rw [factType_pushRole_apply FactType.derivation fun _ _ => rfl]
    exact hv.derivation_mem g q

/-- A role may come to have a name. -/
lemma wellFormed_nameRole {r : RoleId} (name : String) (hnone : (v.role r).name = none) :
    { v with roles := v.roles.modify r.index ({ · with name := some name }) }.WellFormed := by
  have hgrows := v.grows_nameRole hnone name
  generalize hw : ({ v with roles := v.roles.modify r.index ({ · with name := some name }) } :
    Vocabulary) = w at hgrows ⊢
  have hids : w.roleIds = v.roleIds := by simp [← hw, roleIds]
  have hplayer : ∀ s, w.playerOf s = v.playerOf s := fun s => by
    by_cases hs : s ∈ v.roleIds
    · exact hgrows.playerOf_eq hs
    · rw [playerOf, playerOf, role_of_not_mem hs, role_of_not_mem (hids ▸ hs)]
  subst hw
  refine { hv with
    role_id := ?_, roles_iff := ?_, rolesPlayedBy_eq := ?_
    ref_mem := fun s ref href => hgrows.mem_roleIds (hv.ref_mem s ref href)
    ref_factType := fun s hs => hv.ref_factType_grows hgrows hs
    readings_distinct := fun s hs s' hs' => hv.readings_distinct_grows hgrows hs hs'
    ring_role_mem := fun c hc => hgrows.mem_roleIds (hv.ring_role_mem c hc)
    ring_otherRole_mem := fun c hc => hgrows.mem_roleIds (hv.ring_otherRole_mem c hc)
    query_inRange := fun q hq => (hv.query_inRange q hq).grows hgrows }
  · intro s hs
    rw [hids] at hs
    rw [(hgrows.role hs).id_eq, hv.role_id s hs]
  · intro f k s
    rw [hids]
    refine (hv.roles_iff f k s).trans (and_congr_right fun hs => ?_)
    rw [(hgrows.role hs).factType_eq, (hgrows.role hs).ordinal_eq]
  · intro t
    rw [hids]
    simp only [hplayer]
    exact hv.rolesPlayedBy_eq t

/-- A fact type may come to be derived. -/
lemma wellFormed_setDerivation (f : FactTypeId) {query : QueryId} (hq : query ∈ v.queryIds) :
    (v.modifyFactType f ({ · with derivation := some query })).WellFormed := by
  have hgrows : v.Grows (v.modifyFactType f ({ · with derivation := some query })) :=
    grows_modifyFactType f _ { FactType.Grows.refl _ with }
  have hfact : ∀ {α : Type} (field : FactType → α)
      (_ : ∀ t derivation, field { t with derivation } = field t) (t : FactTypeId),
      field ((v.modifyFactType f ({ · with derivation := some query })).factType t) =
        field (v.factType t) :=
    fun field h t => factType_modifyFactType_apply field f (fun t => h t _) t
  refine { hv with
    factType_id := ?_, roles_iff := ?_, readings_iff := ?_, objectifies_iff := ?_
    derivation_mem := ?_, query_inRange := fun q hq => (hv.query_inRange q hq).grows hgrows }
  · intro g hg
    rw [factTypeIds_modifyFactType] at hg
    rw [(hgrows.factType hg).id_eq, hv.factType_id g hg]
  · intro g k r
    rw [hfact FactType.roles fun _ _ => rfl]
    exact hv.roles_iff g k r
  · intro g k r
    rw [hfact FactType.readings fun _ _ => rfl]
    exact hv.readings_iff g k r
  · intro e g
    rw [hfact FactType.entityType fun _ _ => rfl]
    exact hv.objectifies_iff e g
  · intro g q hg
    rw [factType_modifyFactType] at hg
    split at hg
    · exact Option.some.inj hg ▸ hq
    · exact hv.derivation_mem g q hg

end FactTypes

/-! ## Readings -/

section Readings

variable (hv : v.WellFormed)

include hv

/-- A role sequence of roles that are there keeps a vocabulary well formed. -/
lemma wellFormed_pushRoleSequence {refs : List RoleRef}
    (hrefs : ∀ ref ∈ refs, ref.role ∈ v.roleIds) : (v.pushRoleSequence refs).WellFormed := by
  have hgrows := v.grows_pushRoleSequence refs
  have hreading : ∀ r ∈ v.readingIds,
      (v.pushRoleSequence refs).readingRefs r = v.readingRefs r :=
    fun r hr => hv.readingRefs_eq hgrows hr
  refine { hv with
    roleSequence_id := ?_, ref_mem := ?_
    reading_roleSequence_mem := fun r hr =>
      hgrows.mem_roleSequenceIds (hv.reading_roleSequence_mem r hr)
    place_lt := fun r hr => hreading r hr ▸ hv.place_lt r hr
    ref_factType := fun r hr => hreading r hr ▸ hv.ref_factType r hr
    refs_nodup := fun r hr => hreading r hr ▸ hv.refs_nodup r hr
    readings_distinct := fun r hr r' hr' => hv.readings_distinct_grows hgrows hr hr'
    presence_mem := fun c hc => hgrows.mem_roleSequenceIds (hv.presence_mem c hc)
    query_inRange := fun q hq => (hv.query_inRange q hq).grows hgrows }
  · intro s hs
    rw [roleSequence_pushRoleSequence]
    split
    · next h => rw [h]
    · next h =>
      rw [mem_roleSequenceIds_pushRoleSequence, or_iff_right h] at hs
      exact hv.roleSequence_id s hs
  · intro s
    rw [roleSequence_pushRoleSequence]
    split
    · exact hrefs
    · exact hv.ref_mem s

/-- Where no reading of a fact type says the same in the same words, each differs from what would
be added. -/
lemma not_same_of_sameReading? {f : FactTypeId} {s : RoleSequenceId} {text : String}
    {isNegative : Bool} (h : v.sameReading? f s text isNegative = none) {r : ReadingId}
    (hr : r ∈ v.readingIds) (hf : (v.reading r).factType = f) (htext : (v.reading r).text = text)
    (hneg : (v.reading r).isNegative = isNegative) :
    v.wordedPlayers (v.reading r).roleSequence ≠ v.wordedPlayers s := by
  intro hworded
  simp only [sameReading?, Option.map_eq_none_iff, List.find?_eq_none, List.mem_map] at h
  exact h _ ⟨r, hv.mem_readings.2 ⟨hr, hf⟩, rfl⟩ (by simp [htext, hneg, hworded])

/-- A reading may be added if its placeholders stand for roles of its fact type, each at most once,
and no reading of the fact type says the same in the same words. -/
lemma wellFormed_pushReading {f : FactTypeId} {s : RoleSequenceId} {text : String}
    {isNegative : Bool} (hf : f ∈ v.factTypeIds) (hs : s ∈ v.roleSequenceIds)
    (hplace : ∀ n ∈ Template.places (Template.tokens text), n < (v.roleSequence s).refs.length)
    (hplaces : (Template.places (Template.tokens text)).Nodup)
    (hrefs : ∀ ref ∈ (v.roleSequence s).refs, (v.role ref.role).factType = f)
    (hnodup : ((v.roleSequence s).refs.map (·.role)).Nodup)
    (hsame : v.sameReading? f s text isNegative = none) :
    (v.pushReading f s text isNegative).WellFormed := by
  have hgrows := v.grows_pushReading f s text isNegative
  have hnew : (⟨v.readings.size⟩ : ReadingId) ∉ v.readingIds := by simp
  have hrefs_new : (v.pushReading f s text isNegative).readingRefs ⟨v.readings.size⟩ =
      (v.roleSequence s).refs := by
    rw [readingRefs, reading_pushReading, if_pos rfl]
    rfl
  have hrefs_old : ∀ r ∈ v.readingIds,
      (v.pushReading f s text isNegative).readingRefs r = v.readingRefs r :=
    fun r hr => hv.readingRefs_eq hgrows hr
  -- A property of readings holds if it holds of the new one and of those that were there.
  have hall : ∀ {P : ReadingId → Prop}, P ⟨v.readings.size⟩ → (∀ r ∈ v.readingIds, P r) →
      ∀ r ∈ (v.pushReading f s text isNegative).readingIds, P r := by
    intro P hP hold r hr
    rcases mem_readingIds_pushReading.1 hr with rfl | hr
    · exact hP
    · exact hold r hr
  refine { hv with
    factType_id := ?_, reading_id := ?_, roles_iff := ?_, readings_iff := ?_
    reading_roleSequence_mem := ?_, reading_tokens := ?_, place_lt := ?_, places_nodup := ?_
    ref_factType := ?_, refs_nodup := ?_, readings_distinct := ?_, objectifies_iff := ?_
    derivation_mem := ?_, query_inRange := fun q hq => (hv.query_inRange q hq).grows hgrows }
  · intro g hg
    rw [factTypeIds_pushReading] at hg
    rw [(hgrows.factType hg).id_eq, hv.factType_id g hg]
  · refine hall (by rw [reading_pushReading, if_pos rfl]) fun r hr => ?_
    rw [hgrows.reading_eq hr, hv.reading_id r hr]
  · intro g k r
    rw [factType_pushReading_apply FactType.roles fun _ _ => rfl]
    exact hv.roles_iff g k r
  · intro g k r
    have hreadings := hv.readings_iff g k r
    rw [factType_pushReading, reading_pushReading, mem_readingIds_pushReading]
    grind
  · refine hall (by rw [reading_pushReading, if_pos rfl]; exact hs) fun r hr => ?_
    rw [hgrows.reading_eq hr]
    exact hv.reading_roleSequence_mem r hr
  · refine hall (by rw [reading_pushReading, if_pos rfl]) fun r hr => ?_
    rw [hgrows.reading_eq hr]
    exact hv.reading_tokens r hr
  · refine hall (by rw [hrefs_new, reading_pushReading, if_pos rfl]; exact hplace) fun r hr => ?_
    rw [hgrows.reading_eq hr, hrefs_old r hr]
    exact hv.place_lt r hr
  · refine hall (by rw [reading_pushReading, if_pos rfl]; exact hplaces) fun r hr => ?_
    rw [hgrows.reading_eq hr]
    exact hv.places_nodup r hr
  · refine hall ?_ fun r hr => hv.ref_factType_grows hgrows hr
    rw [hrefs_new, reading_pushReading, if_pos rfl]
    exact hrefs
  · refine hall (by rw [hrefs_new]; exact hnodup) fun r hr => ?_
    rw [hrefs_old r hr]
    exact hv.refs_nodup r hr
  · have hnew_ne : ∀ r ∈ v.readingIds, (v.reading r).factType = f → (v.reading r).text = text →
        (v.reading r).isNegative = isNegative →
        (v.pushReading f s text isNegative).wordedPlayers (v.reading r).roleSequence ≠
          (v.pushReading f s text isNegative).wordedPlayers s := by
      intro r hr hfact htext hneg
      rw [hv.wordedPlayers_eq hgrows (hv.reading_roleSequence_mem r hr),
        hv.wordedPlayers_eq hgrows hs]
      exact not_same_of_sameReading? hv hsame hr hfact htext hneg
    refine hall (hall (fun _ _ _ _ => rfl) fun r hr => ?_) fun r hr => hall ?_ fun r' hr' => ?_
    · rw [hgrows.reading_eq hr, reading_pushReading, if_pos rfl]
      intro hfact htext hneg hworded
      exact absurd hworded.symm (hnew_ne r hr hfact.symm htext.symm hneg.symm)
    · rw [hgrows.reading_eq hr, reading_pushReading, if_pos rfl]
      intro hfact htext hneg hworded
      exact absurd hworded (hnew_ne r hr hfact htext hneg)
    · exact hv.readings_distinct_grows hgrows hr hr'
  · intro e g
    rw [factType_pushReading_apply FactType.entityType fun _ _ => rfl]
    exact hv.objectifies_iff e g
  · intro g q
    rw [factType_pushReading_apply FactType.derivation fun _ _ => rfl]
    exact hv.derivation_mem g q

end Readings

/-! ## Indexes of implied fact types -/

/-- Which links and comparisons are found is no matter of well-formedness. -/
lemma wellFormed_indexed (hv : v.WellFormed) (links : List ((ObjectTypeId × RoleId) × FactTypeId))
    (comparisons : List ((String × ObjectTypeId × ObjectTypeId) × FactTypeId)) :
    { v with links, comparisons }.WellFormed :=
  { hv with
    query_inRange := fun q hq => (hv.query_inRange q hq).mono (List.Subset.refl _)
      (List.Subset.refl _) (List.Subset.refl _) (List.Subset.refl _) }

/-! ## Constraints and queries -/

section Constraints

variable (hv : v.WellFormed)

include hv

/-- A query about the vocabulary keeps it well formed. -/
lemma wellFormed_pushQuery {query : JoinGraph} (hq : query.InRange v) :
    { v with queries := v.queries.push query }.WellFormed := by
  have hgrows := v.grows_pushQuery query
  refine { hv with derivation_mem := ?_, query_inRange := ?_ }
  · exact fun f q h => hgrows.mem_queryIds (hv.derivation_mem f q h)
  · intro q hq'
    rcases Array.mem_push.1 hq' with hq' | rfl
    · exact (hv.query_inRange q hq').grows hgrows
    · exact hq.grows hgrows

/-- A presence constraint on a role sequence that is there keeps a vocabulary well formed. -/
lemma wellFormed_pushPresenceConstraint {s : RoleSequenceId} (hs : s ∈ v.roleSequenceIds)
    (min max : Option Nat) (isMandatory : Bool) (enforcement : Option Enforcement) :
    { v with
      presenceConstraints := v.presenceConstraints.push
        ⟨⟨v.presenceConstraints.size⟩, s, min, max, isMandatory, enforcement⟩ }.WellFormed := by
  refine { hv with
    presenceConstraint_id := ?_, presence_mem := ?_
    query_inRange := fun q hq => (hv.query_inRange q hq).grows (v.grows_pushPresenceConstraint _) }
  · intro c hc
    exact forall_push_getD (P := fun i (d : PresenceConstraint) => d.id = ⟨i⟩) rfl
      (fun i hi => hv.presenceConstraint_id ⟨i⟩ (by simpa using hi)) c.index (by simpa using hc)
  · intro c hc
    exact forall_push_getD
      (P := fun _ (d : PresenceConstraint) => d.roleSequence ∈ v.roleSequenceIds) hs
      (fun i hi => hv.presence_mem ⟨i⟩ (by simpa using hi)) c.index (by simpa using hc)

/-- A change of a presence constraint that keeps its id and its role sequence keeps a vocabulary
well formed. -/
lemma wellFormed_modifyPresenceConstraint (c : PresenceConstraintId)
    {change : PresenceConstraint → PresenceConstraint} (hid : ∀ d, (change d).id = d.id)
    (hroles : ∀ d, (change d).roleSequence = d.roleSequence) :
    { v with
      presenceConstraints := v.presenceConstraints.modify c.index change }.WellFormed := by
  refine { hv with
    presenceConstraint_id := ?_, presence_mem := ?_
    query_inRange := fun q hq => (hv.query_inRange q hq).mono (List.Subset.refl _)
      (List.Subset.refl _) (List.Subset.refl _) (List.Subset.refl _) }
  · intro ⟨d⟩ hd
    have hdi := hv.presenceConstraint_id ⟨d⟩ (by simpa using hd)
    rw [presenceConstraint, getElem?_modify_getD]
    split
    · next h => rw [hid, ← h.1]; exact hdi
    · exact hdi
  · intro ⟨d⟩ hd
    have hdm := hv.presence_mem ⟨d⟩ (by simpa using hd)
    rw [presenceConstraint, getElem?_modify_getD]
    split
    · next h => rw [hroles, ← h.1]; exact hdm
    · exact hdm

/-- A ring constraint between roles that are there keeps a vocabulary well formed. -/
lemma wellFormed_pushRingConstraint {role otherRole : RoleId} (hr : role ∈ v.roleIds)
    (ho : otherRole ∈ v.roleIds) (kinds : List RingKind) :
    { v with
      ringConstraints := v.ringConstraints.push
        ⟨⟨v.ringConstraints.size⟩, role, otherRole, kinds⟩ }.WellFormed := by
  refine { hv with
    ringConstraint_id := ?_, ring_role_mem := ?_, ring_otherRole_mem := ?_
    query_inRange := fun q hq => (hv.query_inRange q hq).grows (v.grows_pushRingConstraint _) }
  · intro c hc
    exact forall_push_getD (P := fun i (d : RingConstraint) => d.id = ⟨i⟩) rfl
      (fun i hi => hv.ringConstraint_id ⟨i⟩ (by simpa using hi)) c.index (by simpa using hc)
  · intro c hc
    exact forall_push_getD (P := fun _ (d : RingConstraint) => d.role ∈ v.roleIds) hr
      (fun i hi => hv.ring_role_mem ⟨i⟩ (by simpa using hi)) c.index (by simpa using hc)
  · intro c hc
    exact forall_push_getD (P := fun _ (d : RingConstraint) => d.otherRole ∈ v.roleIds) ho
      (fun i hi => hv.ring_otherRole_mem ⟨i⟩ (by simpa using hi)) c.index (by simpa using hc)

end Constraints

end FactModel.Vocabulary
