import FactModel.Proofs.Attempt
import FactModel.Proofs.Vocabulary.Extends
set_option autoImplicit false

/-!
# Edits keep vocabularies consistent

Each edit of a consistent vocabulary ends, with a value or with a fault, in an extension of it. With
that come the facts about its value on which other edits build.

## Main definitions

* `FactModel.Vocabulary.Suits` — a role sequence suits a template as a reading of a fact type.

## Main results

* `FactModel.Vocabulary.leads_addRole`, `FactModel.Vocabulary.leads_addReading`,
  `FactModel.Vocabulary.leads_addSubtype`, `FactModel.Vocabulary.leads_objectify` and their
  companions — where each edit leads.
-/

namespace FactModel.Vocabulary

open Attempt

variable {v w : Vocabulary}

-- where an edit ends is given by lemmas here, and opening it would run the edit on `v`
attribute [local irreducible] FactModel.Attempt.Ends

/-! ## Fact types, roles and readings -/

section FactTypes

variable (hv : v.Consistent)

include hv

/-- A new fact type has the given kind and was not there before. -/
lemma leads_newFactType {kind : FactTypeKind}
    (hkind : ({ id := default, kind } : FactType).isStated) :
    (newFactType kind).Leads Extends v fun f w =>
      f ∉ v.factTypeIds ∧ f ∈ w.factTypeIds ∧ (w.factType f).kind = kind := by
  have hgrows := v.grows_pushFactType kind
  refine leads_extend ⟨hgrows, ⟨wellFormed_pushFactType hv.toWellFormed kind, ?_⟩⟩ ?_
  · refine hv.toImpliedIndexed.of_grows hv.toWellFormed hgrows rfl rfl (fun f hf hf' => ?_)
      fun f hf _ => ?_
    · rcases mem_factTypeIds_pushFactType.1 hf with rfl | hf
      · rwa [factType_pushFactType, if_pos rfl]
      · exact absurd hf hf'
    · rw [factType_pushFactType, if_neg]
      exact fun h => v.size_not_mem_factTypeIds (h ▸ hf)
  · refine ⟨v.size_not_mem_factTypeIds, mem_factTypeIds_pushFactType.2 (.inl rfl), ?_⟩
    rw [factType_pushFactType, if_pos rfl]

/-- A new role is one of its fact type and was not there before. -/
lemma leads_addRole {f : FactTypeId} {player : ObjectTypeId} (hf : f ∈ v.factTypeIds)
    (hstated : (v.factType f).isStated) (ht : player ∈ v.objectTypeIds) (name : Option String) :
    (addRole f player name).Leads Extends v fun r w =>
      r ∉ v.roleIds ∧ r ∈ w.roleIds ∧ (w.role r).factType = f := by
  have hgrows := v.grows_pushRole f player name
  refine leads_extend ⟨hgrows, ⟨wellFormed_pushRole hv.toWellFormed hf ht name, ?_⟩⟩ ?_
  · refine hv.toImpliedIndexed.of_grows hv.toWellFormed hgrows rfl rfl (fun g hg hg' => ?_)
      fun g hg hnot => ?_
    · exact absurd (factTypeIds_pushRole f player name ▸ hg) hg'
    · rw [factType_pushRole, if_neg]
      rintro ⟨rfl, -⟩
      exact hnot hstated
  · refine ⟨v.size_not_mem_roleIds, mem_roleIds_pushRole.2 (.inl rfl), ?_⟩
    rw [role_pushRole, if_pos rfl]

/-- A new role sequence has the given role references. -/
lemma leads_addRoleSequence {refs : List RoleRef} (hrefs : ∀ ref ∈ refs, ref.role ∈ v.roleIds) :
    (addRoleSequence refs).Leads Extends v fun s w =>
      s ∈ w.roleSequenceIds ∧ (w.roleSequence s).refs = refs := by
  refine leads_extend (hv.extends_of_grows (v.grows_pushRoleSequence refs)
    (wellFormed_pushRoleSequence hv.toWellFormed hrefs) rfl rfl rfl fun _ => rfl) ?_
  refine ⟨mem_roleSequenceIds_pushRoleSequence.2 (.inl rfl), ?_⟩
  rw [roleSequence_pushRoleSequence, if_pos rfl]

/-- The roles that a role sequence gives to the placeholders of a template make a reading of a fact
type: there is one for each placeholder, all are roles of the fact type, and none occurs twice. -/
structure Suits (v : Vocabulary) (f : FactTypeId) (s : RoleSequenceId) (text : String) : Prop where
  factType_mem : f ∈ v.factTypeIds
  roleSequence_mem : s ∈ v.roleSequenceIds
  place_lt : ∀ n ∈ Template.places (Template.tokens text), n < (v.roleSequence s).refs.length
  places_nodup : (Template.places (Template.tokens text)).Nodup
  ref_factType : ∀ ref ∈ (v.roleSequence s).refs, (v.role ref.role).factType = f
  refs_nodup : ((v.roleSequence s).refs.map (·.role)).Nodup

/-- What makes a reading in a vocabulary makes one in any that it grows into. -/
lemma Suits.grows {f : FactTypeId} {s : RoleSequenceId} {text : String} (h : v.Suits f s text)
    (hvw : v.Grows w) : w.Suits f s text := by
  have hs := hvw.roleSequence_eq h.roleSequence_mem
  refine ⟨hvw.mem_factTypeIds h.factType_mem, hvw.mem_roleSequenceIds h.roleSequence_mem,
    hs ▸ h.place_lt, h.places_nodup, fun ref href => ?_, hs ▸ h.refs_nodup⟩
  rw [hs] at href
  rw [(hvw.role (hv.ref_mem s ref href)).factType_eq]
  exact h.ref_factType ref href

/-- A reading that suits its fact type extends the vocabulary, unless there is one like it. -/
lemma extends_pushReading {f : FactTypeId} {s : RoleSequenceId} {text : String}
    {isNegative : Bool} (h : v.Suits f s text) (hsame : v.sameReading? f s text isNegative = none) :
    v.Extends (v.pushReading f s text isNegative) := by
  refine hv.extends_of_grows (v.grows_pushReading f s text isNegative)
    (wellFormed_pushReading hv.toWellFormed h.factType_mem h.roleSequence_mem h.place_lt
      h.places_nodup h.ref_factType h.refs_nodup hsame) rfl rfl
    (factTypeIds_pushReading f s text isNegative) fun g => ?_
  exact factType_pushReading_apply FactType.roles (fun _ _ => rfl) ..

/-- A reading that is added is one of its fact type. -/
lemma leads_addReading {f : FactTypeId} {s : RoleSequenceId} {text : String}
    (h : v.Suits f s text) (isNegative : Bool) :
    (addReading f s text isNegative).Leads Extends v fun r w =>
      r ∈ w.readingIds ∧ (w.reading r).factType = f := by
  refine leads_get_bind ?_
  split
  · exact leads_throw hv.extends
  · next hsame =>
    refine leads_extend (extends_pushReading hv h hsame)
      ⟨mem_readingIds_pushReading.2 (.inl rfl), ?_⟩
    rw [reading_pushReading, if_pos rfl]

/-- A role may be named. -/
lemma leads_nameRole (r : RoleId) (name : String) :
    (nameRole r name).Leads Extends v fun _ _ => True := by
  refine leads_get_bind ?_
  split
  · next hnone =>
    exact leads_set (hv.extends_of_grows (v.grows_nameRole hnone name)
      (wellFormed_nameRole hv.toWellFormed name hnone) rfl rfl rfl fun _ => rfl) trivial
  · split
    · exact leads_pure hv.extends trivial
    · exact leads_throw hv.extends

/-- A fact type may be derived by a stored query. -/
lemma leads_setDerivation (f : FactTypeId) {query : QueryId} (hq : query ∈ v.queryIds) :
    (setDerivation f query).Leads Extends v fun _ _ => True := by
  refine leads_modify (hv.extends_of_grows (grows_modifyFactType f _ ⟨rfl, rfl, List.prefix_rfl,
    List.prefix_rfl, .refl _⟩) (wellFormed_setDerivation hv.toWellFormed f hq) rfl rfl
    (factTypeIds_modifyFactType ..) fun g => ?_) trivial
  rw [factType_modifyFactType_apply FactType.roles]
  exact fun _ => rfl

/-- A query about the vocabulary may be stored. -/
lemma leads_addQuery {query : JoinGraph} (hq : query.InRange v) :
    (addQuery query).Leads Extends v fun q w => q ∈ w.queryIds := by
  refine leads_extend (hv.extends_of_grows (v.grows_pushQuery query)
    (wellFormed_pushQuery hv.toWellFormed hq) rfl rfl rfl fun _ => rfl) ?_
  simp

end FactTypes

/-! ## Object types -/

section ObjectTypes

variable (hv : v.Consistent)

include hv

/-- An object type that is declared is there afterwards. -/
lemma leads_declareObjectType (name : String) (kind : ObjectTypeKind) (isForward : Bool) :
    (declareObjectType name kind isForward).Leads Extends v fun t w => t ∈ w.objectTypeIds := by
  refine leads_get_bind ?_
  split
  · next hname =>
    refine leads_extend (hv.extends_of_grows (v.grows_pushObjectType name kind isForward)
      (wellFormed_pushObjectType hv.toWellFormed hname kind isForward) rfl rfl rfl fun _ => rfl) ?_
    exact mem_objectTypeIds_pushObjectType.2 (.inl rfl)
  · next existing hname =>
    split
    · next hforward =>
      have hgrows : v.Grows (v.modifyObjectType existing ({ · with isForward })) := by
        refine grows_modifyObjectType existing _ { ObjectType.Grows.refl _ with isForward := ?_ }
        exact fun _ => hforward.1
      have hext := hv.extends_of_grows hgrows (wellFormed_modifyObjectType hv.toWellFormed existing
        (fun _ => rfl) (fun _ => rfl) (fun _ => rfl) fun _ => rfl) rfl rfl rfl fun _ => rfl
      exact leads_set_bind hext (leads_pure hext.consistent.extends
        (hgrows.mem_objectTypeIds (hv.mem_of_findObjectType? hname)))
    · exact leads_throw hv.extends

/-- So is one that is mentioned before it is declared. -/
lemma leads_addForwardEntityType (name : String) :
    (addForwardEntityType name).Leads Extends v fun t w => t ∈ w.objectTypeIds := by
  refine leads_get_bind ?_
  split
  · next existing hname => exact leads_pure hv.extends (hv.mem_of_findObjectType? hname)
  · exact leads_declareObjectType hv name .entity true

/-- The type for an objectification is there afterwards and objectifies nothing but the fact
type. -/
lemma leads_objectifyingType (name : String) (f : FactTypeId) :
    (objectifyingType name f).Leads Extends v fun t w => t ∈ w.objectTypeIds ∧
      ((w.objectType t).factType = none ∨ (w.objectType t).factType = some f) := by
  refine leads_get_bind ?_
  split
  · next hname =>
    refine leads_get_bind ?_
    rw [hname]
    refine leads_extend (hv.extends_of_grows (v.grows_pushObjectType name .entity false)
      (wellFormed_pushObjectType hv.toWellFormed hname .entity false) rfl rfl rfl fun _ => rfl) ?_
    refine ⟨mem_objectTypeIds_pushObjectType.2 (.inl rfl), .inl ?_⟩
    rw [objectType_pushObjectType, if_pos rfl]
  · next existing hname =>
    dsimp only
    split
    · next hfree =>
      exact leads_pure hv.extends ⟨hv.mem_of_findObjectType? hname, hfree.2⟩
    · exact leads_throw hv.extends

/-- A fact type may be objectified. -/
lemma leads_objectify (name : String) {f : FactTypeId} (hf : f ∈ v.factTypeIds) :
    (objectify name f).Leads Extends v fun _ _ => True := by
  refine Leads.bind (leads_objectifyingType hv name f) fun e w hw he => leads_get_bind ?_
  have hfw := hw.grows.mem_factTypeIds hf
  -- Once no other type objectifies the fact type, the two come to belong to each other.
  have hset : ((w.factType f).entityType = none ∨ (w.factType f).entityType = some e) →
      (do set (w.linkObjectification e f); pure e : Edit ObjectTypeId).Leads Extends w
        fun _ _ => True := by
    intro hfree
    have hext : w.Extends (w.linkObjectification e f) :=
      hw.consistent.extends_of_grows (grows_linkObjectification he.2 hfree)
        (wellFormed_linkObjectification hw.consistent.toWellFormed he.1 hfw he.2 hfree) rfl rfl
        (factTypeIds_linkObjectification e f) fun g =>
          factType_linkObjectification_apply FactType.roles (fun _ _ => rfl) e f g
    exact leads_set_bind hext (leads_pure hext.consistent.extends trivial)
  dsimp only
  split
  · next other hother =>
    split
    · exact leads_throw_bind hw.consistent.extends
    · next hsame => exact hset (.inr (by rw [hother, Decidable.not_not.1 hsame]))
  · next hnone => exact hset (.inl hnone)

end ObjectTypes

/-! ## Type inheritance -/

/-- The readings of type inheritance are about two placeholders. -/
lemma places_inheritanceReadings : ∀ text ∈ inheritanceReadings,
    (Template.places (Template.tokens text)).Nodup ∧
      ∀ n ∈ Template.places (Template.tokens text), n < 2 := by
  decide +kernel

/-- Two roles of a fact type suit the readings of type inheritance. -/
lemma suits_inheritanceReadings {f : FactTypeId} {s : RoleSequenceId} {r r' : RoleId}
    (hf : f ∈ v.factTypeIds) (hs : s ∈ v.roleSequenceIds)
    (hrefs : (v.roleSequence s).refs = [{ role := r }, { role := r' }])
    (hr : (v.role r).factType = f) (hr' : (v.role r').factType = f) (hne : r ≠ r') {text : String}
    (htext : text ∈ inheritanceReadings) : v.Suits f s text := by
  obtain ⟨hnodup, hlt⟩ := places_inheritanceReadings text htext
  refine ⟨hf, hs, ?_, hnodup, ?_, ?_⟩
  · rw [hrefs]
    exact hlt
  · intro ref href
    rw [hrefs] at href
    rcases List.mem_pair.1 href with rfl | rfl
    · exact hr
    · exact hr'
  · rw [hrefs]
    simpa using hne

section Inheritance

variable (hv : v.Consistent)

include hv

/-- A fact type about kinds may have the three readings. -/
lemma leads_inheritanceReadings {f : FactTypeId} {s : RoleSequenceId}
    (h : ∀ text ∈ inheritanceReadings, v.Suits f s text) :
    (inheritanceReadings.forM fun text => do
      let _ ← addReading f s text false
      pure () : Edit Unit).Leads Extends v fun _ _ => True := by
  refine Leads.forM hv.extends fun text htext w hw => ?_
  refine Leads.bind (leads_addReading hw.consistent ((h text htext).grows hv hw.grows) false)
    fun _ u hu _ => ?_
  exact leads_pure hu.consistent.extends hu.consistent.extends

/-- A type may be made a kind of another one. -/
lemma leads_addSubtype {subtype supertype : ObjectTypeId} (hsub : subtype ∈ v.objectTypeIds)
    (hsuper : supertype ∈ v.objectTypeIds) :
    (addSubtype subtype supertype).Leads Extends v fun _ _ => True := by
  refine leads_get_bind ?_
  split
  · exact leads_pure hv.extends trivial
  · dsimp only
    split
    · exact leads_throw_bind hv.extends
    · have h₀ : v.Extends (v.linkSubtype subtype supertype) :=
        hv.extends_of_grows (v.grows_linkSubtype subtype supertype)
          (wellFormed_linkSubtype hv.toWellFormed subtype supertype) rfl rfl rfl fun _ => rfl
      refine leads_set_bind h₀ ?_
      generalize v.linkSubtype subtype supertype = v₀ at h₀
      refine Leads.bind (leads_newFactType h₀.consistent rfl) fun f v₁ h₁ hf => ?_
      obtain ⟨-, hf, hkind⟩ := hf
      have hstated : (v₁.factType f).isStated := by rw [FactType.isStated, hkind]
      have hsub₁ := h₁.grows.mem_objectTypeIds (h₀.grows.mem_objectTypeIds hsub)
      refine Leads.bind (leads_addRole h₁.consistent hf hstated hsub₁ none) fun r v₂ h₂ hr => ?_
      have hf₂ := h₂.grows.mem_factTypeIds hf
      have hstated₂ : (v₂.factType f).isStated := by
        rw [FactType.isStated, (h₂.grows.factType hf).kind_eq, hkind]
      have hsuper₂ := h₂.grows.mem_objectTypeIds
        (h₁.grows.mem_objectTypeIds (h₀.grows.mem_objectTypeIds hsuper))
      refine Leads.bind (leads_addRole h₂.consistent hf₂ hstated₂ hsuper₂ none)
        fun r' v₃ h₃ hr' => ?_
      have hrefs : ∀ ref ∈ [({ role := r } : RoleRef), { role := r' }], ref.role ∈ v₃.roleIds := by
        intro ref href
        rcases List.mem_pair.1 href with rfl | rfl
        · exact h₃.grows.mem_roleIds hr.2.1
        · exact hr'.2.1
      refine Leads.bind (leads_addRoleSequence h₃.consistent hrefs) fun s v₄ h₄ hs => ?_
      have hr₄ : (v₄.role r).factType = f := by
        rw [(h₄.grows.role (h₃.grows.mem_roleIds hr.2.1)).factType_eq,
          (h₃.grows.role hr.2.1).factType_eq, hr.2.2]
      have hr₄' : (v₄.role r').factType = f := by
        rw [(h₄.grows.role hr'.2.1).factType_eq, hr'.2.2]
      have hne : r ≠ r' := fun h => hr'.1 (h ▸ hr.2.1)
      have hf₄ := h₄.grows.mem_factTypeIds (h₃.grows.mem_factTypeIds hf₂)
      refine Leads.bind (leads_inheritanceReadings h₄.consistent fun text htext =>
        suits_inheritanceReadings hf₄ hs.1 hs.2 hr₄ hr₄' hne htext) fun _ v₅ h₅ _ => ?_
      exact leads_pure h₅.consistent.extends trivial

end Inheritance

/-! ## Constraints -/

section Constraints

variable (hv : v.Consistent)

include hv

/-- A role sequence may be given a presence constraint. -/
lemma leads_addPresenceConstraint {s : RoleSequenceId} (hs : s ∈ v.roleSequenceIds)
    (min max : Option Nat) (enforcement : Option Enforcement) :
    (addPresenceConstraint s min max enforcement).Leads Extends v fun _ _ => True :=
  leads_extend (hv.extends_of_grows (v.grows_pushPresenceConstraint _)
    (wellFormed_pushPresenceConstraint hv.toWellFormed hs ..) rfl rfl rfl fun _ => rfl) trivial

/-- A presence constraint may be restricted. -/
lemma leads_restrictPresenceConstraint (c : PresenceConstraintId) (min max : Option Nat) :
    (restrictPresenceConstraint c min max).Leads Extends v fun _ _ => True := by
  refine leads_get_bind ?_
  dsimp only
  split
  · exact leads_throw_bind hv.extends
  · split
    · exact leads_throw_bind hv.extends
    · refine leads_set (hv.extends_of_grows (grows_modifyPresenceConstraint c _
        ⟨rfl, rfl, rfl, settled_orElse _ _, settled_orElse _ _⟩)
        (wellFormed_modifyPresenceConstraint hv.toWellFormed c (fun _ => rfl) fun _ => rfl)
        rfl rfl rfl fun _ => rfl) trivial

/-- Two roles may be given a ring constraint. -/
lemma leads_addRingConstraint {role otherRole : RoleId} (hr : role ∈ v.roleIds)
    (ho : otherRole ∈ v.roleIds) (kinds : List RingKind) :
    (addRingConstraint role otherRole kinds).Leads Extends v fun _ _ => True :=
  leads_extend (hv.extends_of_grows (v.grows_pushRingConstraint _)
    (wellFormed_pushRingConstraint hv.toWellFormed hr ho kinds) rfl rfl rfl fun _ => rfl) trivial

end Constraints

end FactModel.Vocabulary
