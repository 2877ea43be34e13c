import FactModel.Proofs.Vocabulary.Implied
set_option autoImplicit false

/-!
# Additions that state nothing

A query may add fact types of links and comparisons. Nothing that was there changes, but for the
index of the roles that object types play, and what is new belongs to the new fact types.

## Main definitions

* `FactModel.Vocabulary.AddsImplied` — one vocabulary has, beyond another, only links and
  comparisons with their parts.

## Main results

* `FactModel.Vocabulary.leads_linkFactType_adds`,
  `FactModel.Vocabulary.leads_comparisonFactType_adds` — the two edits of queries add nothing else.
* `FactModel.Vocabulary.AddsImplied.supertypes_eq` and its companions — what is read from object
  types and from constructs that were there is the same.
-/

namespace FactModel

/-- A list keeps its items while an item beyond them changes. -/
lemma Kept.modify {α : Type} {R : α → α → Prop} {as bs : Array α} (h : Kept R as bs) {i : Nat}
    (hi : as.size ≤ i) (change : α → α) : Kept R as (bs.modify i change) := by
  intro j a ha
  obtain ⟨b, hb, hab⟩ := h j a ha
  have hj : j < as.size := (Array.getElem?_eq_some_iff.1 ha).1
  exact ⟨b, by rw [Array.getElem?_modify, if_neg (by omega), hb], hab⟩

/-- A list keeps its items while an item is added. -/
lemma Kept.push {α : Type} {as bs : Array α} (h : Kept Eq as bs) (b : α) :
    Kept Eq as (bs.push b) :=
  h.trans (fun _ _ _ => Eq.trans) (kept_push Eq.refl bs b)

namespace Vocabulary

open Attempt

variable {u v w : Vocabulary} {f : FactTypeId}

/-- A fact type is in the second vocabulary and not in the first. -/
structure IsNew (v w : Vocabulary) (f : FactTypeId) : Prop where
  mem : f ∈ w.factTypeIds
  not_mem : f ∉ v.factTypeIds

/-- A vocabulary has, beyond another, only fact types that clauses do not state, with their roles,
role sequences and readings. Join graphs aside, everything else is the same; of object types, the
list of the roles that each plays may go on with new roles. -/
structure AddsImplied (v w : Vocabulary) : Prop where
  name_eq : w.name = v.name
  objectTypesByName_eq : w.objectTypesByName = v.objectTypesByName
  objectTypes_size : w.objectTypes.size = v.objectTypes.size
  objectType_eq : ∀ t, ∃ roles, (∀ r ∈ roles, r ∈ w.roleIds ∧ r ∉ v.roleIds) ∧
    w.objectType t =
      { v.objectType t with playedRoles := (v.objectType t).playedRoles ++ roles }
  factTypes : Kept Eq v.factTypes w.factTypes
  roles : Kept Eq v.roles w.roles
  roleSequences : Kept Eq v.roleSequences w.roleSequences
  readings : Kept Eq v.readings w.readings
  presenceConstraints_eq : w.presenceConstraints = v.presenceConstraints
  ringConstraints_eq : w.ringConstraints = v.ringConstraints
  factType_new : ∀ f, v.IsNew w f → (w.factType f).isStated = false
  role_new : ∀ r ∈ w.roleIds, r ∉ v.roleIds → v.IsNew w (w.role r).factType
  reading_new : ∀ r ∈ w.readingIds, r ∉ v.readingIds → v.IsNew w (w.reading r).factType
  roleSequence_new : ∀ s ∈ w.roleSequenceIds, s ∉ v.roleSequenceIds →
    ∃ r ∈ w.readingIds, r ∉ v.readingIds ∧ (w.reading r).roleSequence = s

namespace AddsImplied

/-- Adding nothing adds implied fact types only. -/
lemma refl (v : Vocabulary) : v.AddsImplied v where
  name_eq := rfl
  objectTypesByName_eq := rfl
  objectTypes_size := rfl
  objectType_eq t := ⟨[], fun _ hr => absurd hr List.not_mem_nil, by rw [List.append_nil]⟩
  factTypes := .refl Eq.refl _
  roles := .refl Eq.refl _
  roleSequences := .refl Eq.refl _
  readings := .refl Eq.refl _
  presenceConstraints_eq := rfl
  ringConstraints_eq := rfl
  factType_new _ hf := absurd hf.mem hf.not_mem
  role_new _ hr hr' := absurd hr hr'
  reading_new _ hr hr' := absurd hr hr'
  roleSequence_new _ hs hs' := absurd hs hs'

/-! ## What was there -/

section Lookup

variable (h : v.AddsImplied w)

include h

/-- Fact types that were there are still there. -/
lemma mem_factTypeIds (hf : f ∈ v.factTypeIds) : f ∈ w.factTypeIds := by
  rw [Vocabulary.mem_factTypeIds] at hf ⊢
  exact Nat.lt_of_lt_of_le hf h.factTypes.size_le

/-- Roles that were there are still there. -/
lemma mem_roleIds {r : RoleId} (hr : r ∈ v.roleIds) : r ∈ w.roleIds := by
  rw [Vocabulary.mem_roleIds] at hr ⊢
  exact Nat.lt_of_lt_of_le hr h.roles.size_le

/-- Readings that were there are still there. -/
lemma mem_readingIds {r : ReadingId} (hr : r ∈ v.readingIds) : r ∈ w.readingIds := by
  rw [Vocabulary.mem_readingIds] at hr ⊢
  exact Nat.lt_of_lt_of_le hr h.readings.size_le

/-- A fact type that was there is as it was, its readings included. -/
lemma factType_eq (hf : f ∈ v.factTypeIds) : w.factType f = v.factType f :=
  (h.factTypes.getD ((Vocabulary.mem_factTypeIds v).1 hf) _).symm

/-- A role that was there is as it was. -/
lemma role_eq {r : RoleId} (hr : r ∈ v.roleIds) : w.role r = v.role r :=
  (h.roles.getD ((Vocabulary.mem_roleIds v).1 hr) _).symm

/-- A role that was there has the same player. -/
lemma playerOf_eq {r : RoleId} (hr : r ∈ v.roleIds) : w.playerOf r = v.playerOf r := by
  rw [playerOf, h.role_eq hr, playerOf]

/-- A reading that was there is as it was. -/
lemma reading_eq {r : ReadingId} (hr : r ∈ v.readingIds) : w.reading r = v.reading r :=
  (h.readings.getD ((Vocabulary.mem_readingIds v).1 hr) _).symm

/-- A role sequence that was there is as it was. -/
lemma roleSequence_eq {s : RoleSequenceId} (hs : s ∈ v.roleSequenceIds) :
    w.roleSequence s = v.roleSequence s :=
  (h.roleSequences.getD ((Vocabulary.mem_roleSequenceIds v).1 hs) _).symm

/-- A reading that was there lists the same roles. -/
lemma readingRefs_eq (hv : v.WellFormed) {r : ReadingId} (hr : r ∈ v.readingIds) :
    w.readingRefs r = v.readingRefs r := by
  rw [readingRefs, h.reading_eq hr, h.roleSequence_eq (hv.reading_roleSequence_mem r hr),
    readingRefs]

/-- Of object types, everything but the roles they play is the same. -/
lemma objectType_apply {α : Type} (field : ObjectType → α)
    (hfield : ∀ t playedRoles, field { t with playedRoles } = field t) (t : ObjectTypeId) :
    field (w.objectType t) = field (v.objectType t) := by
  obtain ⟨roles, -, heq⟩ := h.objectType_eq t
  rw [heq, hfield]

/-- Object types keep their names. -/
lemma nameOf_eq (t : ObjectTypeId) : w.nameOf t = v.nameOf t :=
  h.objectType_apply ObjectType.name (fun _ _ => rfl) t

/-- A name finds the same object type as before. -/
lemma findObjectType?_eq (name : String) : w.findObjectType? name = v.findObjectType? name := by
  rw [findObjectType?, h.objectTypesByName_eq, findObjectType?]

/-- No type gets another supertype. -/
lemma supertypes_eq : w.supertypes = v.supertypes := by
  funext t
  unfold supertypes
  rw [h.objectTypes_size]
  congr 1
  funext s
  exact h.objectType_apply ObjectType.supertypes (fun _ _ => rfl) s

/-- No type gets another subtype. -/
lemma subtypes_eq : w.subtypes = v.subtypes := by
  funext t
  unfold subtypes
  rw [h.objectTypes_size]
  congr 1
  funext s
  exact h.objectType_apply ObjectType.subtypes (fun _ _ => rfl) s

/-- The same types are related. -/
lemma relatedTypes_eq : w.relatedTypes = v.relatedTypes := by
  funext t
  rw [relatedTypes, h.supertypes_eq, h.subtypes_eq, relatedTypes]

/-- Two types have the same nearest supertype. -/
lemma commonSupertype?_eq : w.commonSupertype? = v.commonSupertype? := by
  funext s t
  rw [commonSupertype?, h.supertypes_eq, commonSupertype?]

/-- The same types are kinds of each other. -/
lemma isSubtypeOf_eq : w.isSubtypeOf = v.isSubtypeOf := by
  funext s t
  rw [isSubtypeOf, h.supertypes_eq, isSubtypeOf]

end Lookup

/-! ## Additions in sequence -/

/-- What a second addition brings is new after both. -/
lemma isNew_left (h : u.AddsImplied v) (hf : v.IsNew w f) : u.IsNew w f :=
  ⟨hf.mem, fun hu => hf.not_mem (h.mem_factTypeIds hu)⟩

/-- What a first addition brought is still new after both. -/
lemma isNew_right (h : v.AddsImplied w) (hf : u.IsNew v f) : u.IsNew w f :=
  ⟨h.mem_factTypeIds hf.mem, hf.not_mem⟩

/-- Two additions of implied fact types make one. -/
lemma trans (h : u.AddsImplied v) (h' : v.AddsImplied w) : u.AddsImplied w where
  name_eq := h'.name_eq.trans h.name_eq
  objectTypesByName_eq := h'.objectTypesByName_eq.trans h.objectTypesByName_eq
  objectTypes_size := h'.objectTypes_size.trans h.objectTypes_size
  objectType_eq t := by
    obtain ⟨roles, hroles, heq⟩ := h.objectType_eq t
    obtain ⟨roles', hroles', heq'⟩ := h'.objectType_eq t
    refine ⟨roles ++ roles', fun r hr => ?_, by rw [heq', heq, List.append_assoc]⟩
    rcases List.mem_append.1 hr with hr | hr
    · exact ⟨h'.mem_roleIds (hroles r hr).1, (hroles r hr).2⟩
    · exact ⟨(hroles' r hr).1, fun hu => (hroles' r hr).2 (h.mem_roleIds hu)⟩
  factTypes := h.factTypes.trans (fun _ _ _ => Eq.trans) h'.factTypes
  roles := h.roles.trans (fun _ _ _ => Eq.trans) h'.roles
  roleSequences := h.roleSequences.trans (fun _ _ _ => Eq.trans) h'.roleSequences
  readings := h.readings.trans (fun _ _ _ => Eq.trans) h'.readings
  presenceConstraints_eq := h'.presenceConstraints_eq.trans h.presenceConstraints_eq
  ringConstraints_eq := h'.ringConstraints_eq.trans h.ringConstraints_eq
  factType_new f hf := by
    by_cases hv : f ∈ v.factTypeIds
    · rw [h'.factType_eq hv]
      exact h.factType_new f ⟨hv, hf.not_mem⟩
    · exact h'.factType_new f ⟨hf.mem, hv⟩
  role_new r hr hu := by
    by_cases hv : r ∈ v.roleIds
    · rw [h'.role_eq hv]
      exact h'.isNew_right (h.role_new r hv hu)
    · exact h.isNew_left (h'.role_new r hr hv)
  reading_new r hr hu := by
    by_cases hv : r ∈ v.readingIds
    · rw [h'.reading_eq hv]
      exact h'.isNew_right (h.reading_new r hv hu)
    · exact h.isNew_left (h'.reading_new r hr hv)
  roleSequence_new s hs hu := by
    by_cases hv : s ∈ v.roleSequenceIds
    · obtain ⟨r, hr, hr', heq⟩ := h.roleSequence_new s hv hu
      exact ⟨r, h'.mem_readingIds hr, hr',
        (congrArg Reading.roleSequence (h'.reading_eq hr)).trans heq⟩
    · obtain ⟨r, hr, hr', heq⟩ := h'.roleSequence_new s hs hv
      exact ⟨r, hr, fun hu => hr' (h.mem_readingIds hu), heq⟩

instance : Trans AddsImplied AddsImplied AddsImplied :=
  ⟨trans⟩

/-! ## One addition -/

/-- A fact type that clauses do not state is added. -/
lemma pushFactType (h : v.AddsImplied w) {kind : FactTypeKind}
    (hkind : FactType.isStated { id := ⟨w.factTypes.size⟩, kind } = false) :
    v.AddsImplied (w.pushFactType kind) :=
  have hnew : ∀ {f}, v.IsNew w f → v.IsNew (w.pushFactType kind) f := fun hf =>
    ⟨mem_factTypeIds_pushFactType.2 (.inr hf.mem), hf.not_mem⟩
  { h with
    factTypes := h.factTypes.push _
    factType_new := fun f hf => by
      rw [factType_pushFactType]
      split
      · exact hkind
      · next hne =>
        exact h.factType_new f
          ⟨(mem_factTypeIds_pushFactType.1 hf.mem).resolve_left hne, hf.not_mem⟩
    role_new := fun r hr hr' => hnew (h.role_new r hr hr')
    reading_new := fun r hr hr' => hnew (h.reading_new r hr hr') }

/-- A new fact type lies beyond the old ones. -/
lemma size_le_of_isNew (hf : v.IsNew w f) : v.factTypes.size ≤ f.index :=
  Nat.not_lt.1 fun hlt => hf.not_mem ((Vocabulary.mem_factTypeIds v).2 hlt)

/-- A new fact type gets a role. -/
lemma pushRole (h : v.AddsImplied w) (hf : v.IsNew w f) (player : ObjectTypeId)
    (name : Option String) : v.AddsImplied (w.pushRole f player name) :=
  have hfactTypes : (w.pushRole f player name).factTypeIds = w.factTypeIds :=
    factTypeIds_pushRole ..
  have hnew : ∀ {g}, v.IsNew w g → v.IsNew (w.pushRole f player name) g := fun hg =>
    ⟨hfactTypes ▸ hg.mem, hg.not_mem⟩
  have hrole : (⟨w.roles.size⟩ : RoleId) ∉ v.roleIds := by
    rw [Vocabulary.mem_roleIds]
    exact Nat.not_lt.2 h.roles.size_le
  { h with
    objectTypes_size := (Array.size_modify ..).trans h.objectTypes_size
    objectType_eq := fun t => by
      obtain ⟨roles, hroles, heq⟩ := h.objectType_eq t
      have hold : ∀ r ∈ roles, r ∈ (w.pushRole f player name).roleIds ∧ r ∉ v.roleIds :=
        fun r hr => ⟨mem_roleIds_pushRole.2 (.inr (hroles r hr).1), (hroles r hr).2⟩
      rw [objectType_pushRole]
      by_cases ht : t = player ∧ player ∈ w.objectTypeIds
      · obtain ⟨rfl, hmem⟩ := ht
        rw [if_pos ⟨rfl, hmem⟩, heq, withItem]
        split
        · exact ⟨roles, hold, rfl⟩
        · refine ⟨roles ++ [⟨w.roles.size⟩], fun r hr => ?_, by rw [← List.append_assoc]⟩
          rcases List.mem_append.1 hr with hr | hr
          · exact hold r hr
          · rw [List.mem_singleton.1 hr]
            exact ⟨mem_roleIds_pushRole.2 (.inl rfl), hrole⟩
      · exact ⟨roles, hold, by rw [if_neg ht, heq]⟩
    factTypes := h.factTypes.modify (size_le_of_isNew hf) _
    roles := h.roles.push _
    factType_new := fun g hg => by
      rw [FactType.isStated, factType_pushRole_apply FactType.kind fun _ _ => rfl]
      exact h.factType_new g ⟨hfactTypes ▸ hg.mem, hg.not_mem⟩
    role_new := fun r hr hr' => by
      rw [role_pushRole]
      split
      · exact hnew hf
      · next hne => exact hnew (h.role_new r ((mem_roleIds_pushRole.1 hr).resolve_left hne) hr')
    reading_new := fun r hr hr' => hnew (h.reading_new r hr hr') }

/-- A new fact type gets a reading over a new role sequence. -/
lemma pushReading (h : v.AddsImplied w) (hf : v.IsNew w f) (refs : List RoleRef) (text : String)
    (isNegative : Bool) : v.AddsImplied
      ((w.pushRoleSequence refs).pushReading f ⟨w.roleSequences.size⟩ text isNegative) :=
  have hfactTypes : ((w.pushRoleSequence refs).pushReading f ⟨w.roleSequences.size⟩ text
      isNegative).factTypeIds = w.factTypeIds := factTypeIds_pushReading ..
  have hnew : ∀ {g}, v.IsNew w g → v.IsNew ((w.pushRoleSequence refs).pushReading f
      ⟨w.roleSequences.size⟩ text isNegative) g := fun hg => ⟨hfactTypes ▸ hg.mem, hg.not_mem⟩
  have hreading : (⟨w.readings.size⟩ : ReadingId) ∉ v.readingIds := by
    rw [Vocabulary.mem_readingIds]
    exact Nat.not_lt.2 h.readings.size_le
  { h with
    factTypes := h.factTypes.modify (size_le_of_isNew hf) _
    roleSequences := h.roleSequences.push _
    readings := h.readings.push _
    factType_new := fun g hg => by
      rw [FactType.isStated, factType_pushReading_apply FactType.kind fun _ _ => rfl]
      exact h.factType_new g ⟨hfactTypes ▸ hg.mem, hg.not_mem⟩
    role_new := fun r hr hr' => hnew (h.role_new r hr hr')
    reading_new := fun r hr hr' => by
      rw [reading_pushReading]
      split
      · exact hnew hf
      · next hne =>
          exact hnew (h.reading_new r ((mem_readingIds_pushReading.1 hr).resolve_left hne) hr')
    roleSequence_new := fun s hs hs' => by
      rcases mem_roleSequenceIds_pushRoleSequence.1 hs with rfl | hs
      · refine ⟨⟨w.readings.size⟩, mem_readingIds_pushReading.2 (.inl rfl), hreading, ?_⟩
        rw [reading_pushReading]
        exact congrArg Reading.roleSequence (if_pos rfl)
      · obtain ⟨r, hr, hr', heq⟩ := h.roleSequence_new s hs hs'
        refine ⟨r, mem_readingIds_pushReading.2 (.inr hr), hr', ?_⟩
        rw [reading_pushReading, if_neg]
        · exact heq
        · rintro rfl
          exact Nat.lt_irrefl _ ((Vocabulary.mem_readingIds w).1 hr) }

/-- The indexes of implied fact types and the join graphs are apart from what is added. -/
lemma indexed (h : v.AddsImplied w) (links : List ((ObjectTypeId × RoleId) × FactTypeId))
    (comparisons : List ((String × ObjectTypeId × ObjectTypeId) × FactTypeId))
    (queries : Array JoinGraph) : v.AddsImplied { w with links, comparisons, queries } :=
  { h with
    factType_new := fun f hf => h.factType_new f ⟨hf.mem, hf.not_mem⟩
    role_new := fun r hr hr' => ⟨(h.role_new r hr hr').mem, (h.role_new r hr hr').not_mem⟩
    reading_new :=
      fun r hr hr' => ⟨(h.reading_new r hr hr').mem, (h.reading_new r hr hr').not_mem⟩ }

/-- A fact type of two roles with one reading, which clauses do not state, is added and indexed. -/
lemma withBinary (v : Vocabulary) {kind : FactTypeKind}
    (hkind : FactType.isStated { id := ⟨v.factTypes.size⟩, kind } = false)
    (first second : ObjectTypeId) (text : String)
    (links : List ((ObjectTypeId × RoleId) × FactTypeId))
    (comparisons : List ((String × ObjectTypeId × ObjectTypeId) × FactTypeId)) :
    v.AddsImplied { v.withBinary kind first second text with links, comparisons } := by
  have hnew : v.IsNew (v.pushFactType kind) ⟨v.factTypes.size⟩ :=
    ⟨mem_factTypeIds_pushFactType.2 (.inl rfl), size_not_mem_factTypeIds⟩
  have h₁ := (refl v).pushFactType hkind
  have h₂ := h₁.pushRole hnew first none
  have hnew₂ : v.IsNew ((v.pushFactType kind).pushRole ⟨v.factTypes.size⟩ first none)
      ⟨v.factTypes.size⟩ := ⟨(factTypeIds_pushRole ..).symm ▸ hnew.mem, hnew.not_mem⟩
  have h₃ := h₂.pushRole hnew₂ second none
  have hnew₃ : v.IsNew (((v.pushFactType kind).pushRole ⟨v.factTypes.size⟩ first none).pushRole
      ⟨v.factTypes.size⟩ second none) ⟨v.factTypes.size⟩ :=
    ⟨(factTypeIds_pushRole ..).symm ▸ hnew₂.mem, hnew.not_mem⟩
  have h₄ := h₃.pushReading hnew₃ [{ role := ⟨v.roles.size⟩ }, { role := ⟨v.roles.size + 1⟩ }] text
    false
  exact h₄.indexed links comparisons v.queries

end AddsImplied

/-! ## The edits of queries -/

/-- Only links and comparisons are added, and no join graphs. -/
structure AddsOnlyImplied (v w : Vocabulary) : Prop extends AddsImplied v w where
  queries_eq : w.queries = v.queries

/-- Adding nothing adds implied fact types only, whatever the vocabulary is. -/
lemma AddsOnlyImplied.refl (v : Vocabulary) : v.AddsOnlyImplied v :=
  ⟨.refl v, rfl⟩

instance : Trans AddsOnlyImplied AddsOnlyImplied AddsOnlyImplied :=
  ⟨fun h h' => ⟨h.toAddsImplied.trans h'.toAddsImplied, h'.queries_eq.trans h.queries_eq⟩⟩

/-- The link of a type and a role adds at most that link. -/
lemma leads_linkFactType_adds (v : Vocabulary) (t : ObjectTypeId) (r : RoleId) :
    (linkFactType t r).Leads AddsOnlyImplied v fun _ _ => True := by
  refine leads_get_bind ?_
  split
  · exact leads_pure (.refl v) trivial
  · refine ends_bind.2 ((ends_of_perform (perform_addBinary ..)).2 ?_)
    exact ends_bind.2 (ends_modify.2 ((ends_pure _).2 ⟨⟨.withBinary v rfl .., rfl⟩, trivial⟩))

/-- A comparison adds at most the fact type of its operator and players. -/
lemma leads_comparisonFactType_adds (v : Vocabulary) (operator : String)
    (left right : ObjectTypeId) :
    (comparisonFactType operator left right).Leads AddsOnlyImplied v fun _ _ => True := by
  refine leads_get_bind ?_
  split
  · exact leads_pure (.refl v) trivial
  · refine ends_bind.2 ((ends_of_perform (perform_addBinary ..)).2 ?_)
    exact ends_bind.2 (ends_modify.2 ((ends_pure _).2 ⟨⟨.withBinary v rfl .., rfl⟩, trivial⟩))

end Vocabulary

end FactModel
