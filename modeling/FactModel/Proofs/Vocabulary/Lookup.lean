import Mathlib.Tactic.Lemma
import FactModel.Vocabulary.Growth
set_option autoImplicit false

/-!
# Looking up constructs of a changed vocabulary

Each elementary change of a vocabulary adds a construct at the end of a list or alters one of them.
For each there is one equation for every lookup that it affects; all other lookups are unchanged by
definition.

## Main results

* `FactModel.Vocabulary.mem_objectTypeIds` and its companions — the places that are taken.
* `FactModel.Vocabulary.objectType_pushObjectType` and its companions — lookups after a change.
-/

namespace FactModel

section Arrays

variable {α : Type}

/-- What stands at a place of an array with another item at its end. -/
lemma getElem?_push_getD (as : Array α) (a d : α) (i : Nat) :
    (as.push a)[i]?.getD d = if i = as.size then a else as[i]?.getD d := by
  rw [Array.getElem?_push]
  split <;> rfl

/-- What holds of another item at the end of an array and of those before it holds of all. -/
lemma forall_push_getD {P : Nat → α → Prop} {as : Array α} {a d : α} (hnew : P as.size a)
    (hold : ∀ i < as.size, P i (as[i]?.getD d)) :
    ∀ i < (as.push a).size, P i ((as.push a)[i]?.getD d) := by
  intro i hi
  rw [getElem?_push_getD]
  rw [Array.size_push] at hi
  split
  · next h => exact h ▸ hnew
  · exact hold i (by omega)

/-- What stands at a place of an array with an item changed. -/
lemma getElem?_modify_getD (as : Array α) (f : α → α) (d : α) (i j : Nat) :
    (as.modify i f)[j]?.getD d =
      if j = i ∧ i < as.size then f (as[i]?.getD d) else as[j]?.getD d := by
  rw [Array.getElem?_modify]
  by_cases hij : j = i
  · subst hij
    by_cases hj : j < as.size <;> simp [hj]
  · simp [hij, Ne.symm hij]

end Arrays

/-- What is found in an association list with another pair in front. -/
lemma lookup_cons_eq_ite {κ α : Type} [BEq κ] [LawfulBEq κ] [DecidableEq κ] (key other : κ)
    (a : α) (pairs : List (κ × α)) :
    ((key, a) :: pairs).lookup other = if other = key then some a else pairs.lookup other := by
  rw [List.lookup_cons]
  split
  · next h => rw [if_pos (eq_of_beq h)]
  · next h => rw [if_neg (ne_of_beq_false h)]

namespace Vocabulary

variable (v : Vocabulary)

/-! ## Places that are taken -/

/-- The ids of object types are those within the array of object types. -/
@[simp]
lemma mem_objectTypeIds {t : ObjectTypeId} :
    t ∈ v.objectTypeIds ↔ t.index < v.objectTypes.size := by
  simp only [objectTypeIds, List.mem_map, List.mem_range]
  exact ⟨fun ⟨_, h, ht⟩ => ht ▸ h, fun h => ⟨_, h, rfl⟩⟩

/-- The ids of fact types are those within the array of fact types. -/
@[simp]
lemma mem_factTypeIds {f : FactTypeId} : f ∈ v.factTypeIds ↔ f.index < v.factTypes.size := by
  simp only [factTypeIds, List.mem_map, List.mem_range]
  exact ⟨fun ⟨_, h, ht⟩ => ht ▸ h, fun h => ⟨_, h, rfl⟩⟩

/-- The ids of roles are those within the array of roles. -/
@[simp]
lemma mem_roleIds {r : RoleId} : r ∈ v.roleIds ↔ r.index < v.roles.size := by
  simp only [roleIds, List.mem_map, List.mem_range]
  exact ⟨fun ⟨_, h, ht⟩ => ht ▸ h, fun h => ⟨_, h, rfl⟩⟩

/-- The ids of role sequences are those within the array of role sequences. -/
@[simp]
lemma mem_roleSequenceIds {s : RoleSequenceId} :
    s ∈ v.roleSequenceIds ↔ s.index < v.roleSequences.size := by
  simp only [roleSequenceIds, List.mem_map, List.mem_range]
  exact ⟨fun ⟨_, h, ht⟩ => ht ▸ h, fun h => ⟨_, h, rfl⟩⟩

/-- The ids of readings are those within the array of readings. -/
@[simp]
lemma mem_readingIds {r : ReadingId} : r ∈ v.readingIds ↔ r.index < v.readings.size := by
  simp only [readingIds, List.mem_map, List.mem_range]
  exact ⟨fun ⟨_, h, ht⟩ => ht ▸ h, fun h => ⟨_, h, rfl⟩⟩

/-- The ids of presence constraints are those within the array of presence constraints. -/
@[simp]
lemma mem_presenceConstraintIds {c : PresenceConstraintId} :
    c ∈ v.presenceConstraintIds ↔ c.index < v.presenceConstraints.size := by
  simp only [presenceConstraintIds, List.mem_map, List.mem_range]
  exact ⟨fun ⟨_, h, ht⟩ => ht ▸ h, fun h => ⟨_, h, rfl⟩⟩

/-- The ids of ring constraints are those within the array of ring constraints. -/
@[simp]
lemma mem_ringConstraintIds {c : RingConstraintId} :
    c ∈ v.ringConstraintIds ↔ c.index < v.ringConstraints.size := by
  simp only [ringConstraintIds, List.mem_map, List.mem_range]
  exact ⟨fun ⟨_, h, ht⟩ => ht ▸ h, fun h => ⟨_, h, rfl⟩⟩

/-- The ids of queries are those within the array of queries. -/
@[simp]
lemma mem_queryIds {q : QueryId} : q ∈ v.queryIds ↔ q.index < v.queries.size := by
  simp only [queryIds, List.mem_map, List.mem_range]
  exact ⟨fun ⟨_, h, ht⟩ => ht ▸ h, fun h => ⟨_, h, rfl⟩⟩

/-! ## Places that are not taken -/

variable {v}

/-- A place that is not taken has the empty construct. -/
lemma objectType_of_not_mem {t : ObjectTypeId} (h : t ∉ v.objectTypeIds) :
    v.objectType t = default := by
  rw [mem_objectTypeIds, Nat.not_lt] at h
  rw [objectType, Array.getElem?_eq_none h]
  rfl

/-- A fact type that is not there is the default one. -/
lemma factType_of_not_mem {f : FactTypeId} (h : f ∉ v.factTypeIds) : v.factType f = default := by
  rw [mem_factTypeIds, Nat.not_lt] at h
  rw [factType, Array.getElem?_eq_none h]
  rfl

/-- A role that is not there is the default one. -/
lemma role_of_not_mem {r : RoleId} (h : r ∉ v.roleIds) : v.role r = default := by
  rw [mem_roleIds, Nat.not_lt] at h
  rw [role, Array.getElem?_eq_none h]
  rfl

/-- Every fact type of the list is found at some place. -/
lemma exists_factType_of_mem {f : FactType} (h : f ∈ v.factTypes.toList) :
    ∃ i ∈ v.factTypeIds, v.factType i = f := by
  obtain ⟨i, hi, rfl⟩ := List.mem_iff_getElem.1 h
  refine ⟨⟨i⟩, by simpa using hi, ?_⟩
  have hi : i < v.factTypes.size := by simpa using hi
  simp [factType, hi]

/-- Each presence constraint stands under an id. -/
lemma exists_presenceConstraint_of_mem {c : PresenceConstraint}
    (h : c ∈ v.presenceConstraints.toList) :
    ∃ i ∈ v.presenceConstraintIds, v.presenceConstraint i = c := by
  obtain ⟨i, hi, rfl⟩ := List.mem_iff_getElem.1 h
  refine ⟨⟨i⟩, by simpa using hi, ?_⟩
  have hi : i < v.presenceConstraints.size := by simpa using hi
  simp [presenceConstraint, hi]

/-! ## Places after a change -/

/-- An object type that is added gets the next id. -/
lemma mem_objectTypeIds_pushObjectType {name : String} {kind : ObjectTypeKind} {isForward : Bool}
    {t : ObjectTypeId} :
    t ∈ (v.pushObjectType name kind isForward).objectTypeIds ↔
      t = ⟨v.objectTypes.size⟩ ∨ t ∈ v.objectTypeIds := by
  rcases t with ⟨i⟩
  simp [pushObjectType]
  omega

/-- A fact type that is added gets the next id. -/
lemma mem_factTypeIds_pushFactType {kind : FactTypeKind} {f : FactTypeId} :
    f ∈ (v.pushFactType kind).factTypeIds ↔ f = ⟨v.factTypes.size⟩ ∨ f ∈ v.factTypeIds := by
  rcases f with ⟨i⟩
  simp [pushFactType]
  omega

/-- A role that is added gets the next id. -/
lemma mem_roleIds_pushRole {f : FactTypeId} {player : ObjectTypeId} {name : Option String}
    {r : RoleId} :
    r ∈ (v.pushRole f player name).roleIds ↔ r = ⟨v.roles.size⟩ ∨ r ∈ v.roleIds := by
  rcases r with ⟨i⟩
  simp [pushRole, modifyFactType, modifyObjectType]
  omega

/-- A role sequence that is added gets the next id. -/
lemma mem_roleSequenceIds_pushRoleSequence {refs : List RoleRef} {s : RoleSequenceId} :
    s ∈ (v.pushRoleSequence refs).roleSequenceIds ↔
      s = ⟨v.roleSequences.size⟩ ∨ s ∈ v.roleSequenceIds := by
  rcases s with ⟨i⟩
  simp [pushRoleSequence]
  omega

/-- A reading that is added gets the next id. -/
lemma mem_readingIds_pushReading {f : FactTypeId} {s : RoleSequenceId} {text : String}
    {isNegative : Bool} {r : ReadingId} :
    r ∈ (v.pushReading f s text isNegative).readingIds ↔
      r = ⟨v.readings.size⟩ ∨ r ∈ v.readingIds := by
  rcases r with ⟨i⟩
  simp [pushReading, modifyFactType]
  omega

/-- Changing an object type adds none. -/
@[simp]
lemma objectTypeIds_modifyObjectType (t : ObjectTypeId) (change : ObjectType → ObjectType) :
    (v.modifyObjectType t change).objectTypeIds = v.objectTypeIds := by
  simp [objectTypeIds, modifyObjectType]

/-- Changing a fact type adds none. -/
@[simp]
lemma factTypeIds_modifyFactType (f : FactTypeId) (change : FactType → FactType) :
    (v.modifyFactType f change).factTypeIds = v.factTypeIds := by
  simp [factTypeIds, modifyFactType]

/-- A role adds no object type. -/
@[simp]
lemma objectTypeIds_pushRole (f : FactTypeId) (player : ObjectTypeId) (name : Option String) :
    (v.pushRole f player name).objectTypeIds = v.objectTypeIds :=
  objectTypeIds_modifyObjectType ..

/-- A role adds no fact type. -/
@[simp]
lemma factTypeIds_pushRole (f : FactTypeId) (player : ObjectTypeId) (name : Option String) :
    (v.pushRole f player name).factTypeIds = v.factTypeIds :=
  factTypeIds_modifyFactType ..

/-- A reading adds no fact type. -/
@[simp]
lemma factTypeIds_pushReading (f : FactTypeId) (s : RoleSequenceId) (text : String)
    (isNegative : Bool) : (v.pushReading f s text isNegative).factTypeIds = v.factTypeIds :=
  factTypeIds_modifyFactType ..

/-- Tying a type to what it objectifies adds no object type. -/
@[simp]
lemma objectTypeIds_linkObjectification (e : ObjectTypeId) (f : FactTypeId) :
    (v.linkObjectification e f).objectTypeIds = v.objectTypeIds :=
  objectTypeIds_modifyObjectType ..

/-- Tying a type to what it objectifies adds no fact type. -/
@[simp]
lemma factTypeIds_linkObjectification (e : ObjectTypeId) (f : FactTypeId) :
    (v.linkObjectification e f).factTypeIds = v.factTypeIds :=
  factTypeIds_modifyFactType ..

/-- A place that will be taken by the next construct is not taken. -/
lemma size_not_mem_objectTypeIds : (⟨v.objectTypes.size⟩ : ObjectTypeId) ∉ v.objectTypeIds := by
  simp

/-- The next id of a fact type is not taken. -/
lemma size_not_mem_factTypeIds : (⟨v.factTypes.size⟩ : FactTypeId) ∉ v.factTypeIds := by
  simp

/-- The next id of a role is not taken. -/
lemma size_not_mem_roleIds : (⟨v.roles.size⟩ : RoleId) ∉ v.roleIds := by
  simp

/-! ## Lookups after a change -/

/-- A new object type has the given name and kind, and the others are as they were. -/
lemma objectType_pushObjectType (name : String) (kind : ObjectTypeKind) (isForward : Bool)
    (t : ObjectTypeId) :
    (v.pushObjectType name kind isForward).objectType t =
      if t = ⟨v.objectTypes.size⟩ then
        { id := ⟨v.objectTypes.size⟩, name, kind, isForward }
      else v.objectType t := by
  rcases t with ⟨i⟩
  simp only [ObjectTypeId.mk.injEq]
  exact getElem?_push_getD ..

/-- Its name finds it, and other names find what they found. -/
lemma findObjectType?_pushObjectType (name : String) (kind : ObjectTypeKind) (isForward : Bool)
    (other : String) :
    (v.pushObjectType name kind isForward).findObjectType? other =
      if other = name then some ⟨v.objectTypes.size⟩ else v.findObjectType? other :=
  lookup_cons_eq_ite ..

/-- Changing an object type changes that one only. -/
lemma objectType_modifyObjectType (u : ObjectTypeId) (change : ObjectType → ObjectType)
    (t : ObjectTypeId) :
    (v.modifyObjectType u change).objectType t =
      if t = u ∧ u ∈ v.objectTypeIds then change (v.objectType u) else v.objectType t := by
  rcases t with ⟨i⟩
  rcases u with ⟨j⟩
  simp only [mem_objectTypeIds, ObjectTypeId.mk.injEq]
  exact getElem?_modify_getD ..

/-- A change of an object type leaves alone whatever it leaves alone in that type. -/
lemma objectType_modifyObjectType_apply {α : Type} (field : ObjectType → α) (u : ObjectTypeId)
    {change : ObjectType → ObjectType} (h : ∀ t, field (change t) = field t) (t : ObjectTypeId) :
    field ((v.modifyObjectType u change).objectType t) = field (v.objectType t) := by
  rw [objectType_modifyObjectType]
  split
  · next ht => rw [h, ← ht.1]
  · rfl

/-- A new fact type has the given kind, no roles and no readings, and the others are as they
were. -/
lemma factType_pushFactType (kind : FactTypeKind) (f : FactTypeId) :
    (v.pushFactType kind).factType f =
      if f = ⟨v.factTypes.size⟩ then { id := ⟨v.factTypes.size⟩, kind } else v.factType f := by
  rcases f with ⟨i⟩
  simp only [FactTypeId.mk.injEq]
  exact getElem?_push_getD ..

/-- Changing a fact type changes that one only. -/
lemma factType_modifyFactType (g : FactTypeId) (change : FactType → FactType) (f : FactTypeId) :
    (v.modifyFactType g change).factType f =
      if f = g ∧ g ∈ v.factTypeIds then change (v.factType g) else v.factType f := by
  rcases f with ⟨i⟩
  rcases g with ⟨j⟩
  simp only [mem_factTypeIds, FactTypeId.mk.injEq]
  exact getElem?_modify_getD ..

/-- A change of a fact type leaves alone whatever it leaves alone in that type. -/
lemma factType_modifyFactType_apply {α : Type} (field : FactType → α) (g : FactTypeId)
    {change : FactType → FactType} (h : ∀ f, field (change f) = field f) (f : FactTypeId) :
    field ((v.modifyFactType g change).factType f) = field (v.factType f) := by
  rw [factType_modifyFactType]
  split
  · next hf => rw [h, ← hf.1]
  · rfl

/-- A new role is the last one of its fact type. -/
lemma factType_pushRole (g : FactTypeId) (player : ObjectTypeId) (name : Option String)
    (f : FactTypeId) :
    (v.pushRole g player name).factType f =
      if f = g ∧ g ∈ v.factTypeIds then
        { v.factType g with roles := (v.factType g).roles ++ [⟨v.roles.size⟩] }
      else v.factType f :=
  factType_modifyFactType ..

/-- Its player lists it last among the roles that it plays. -/
lemma objectType_pushRole (f : FactTypeId) (player : ObjectTypeId) (name : Option String)
    (t : ObjectTypeId) :
    (v.pushRole f player name).objectType t =
      if t = player ∧ player ∈ v.objectTypeIds then
        { v.objectType player with
          playedRoles := withItem (v.objectType player).playedRoles ⟨v.roles.size⟩ }
      else v.objectType t :=
  objectType_modifyObjectType ..

/-- Another role leaves alone everything of fact types but their roles. -/
lemma factType_pushRole_apply {α : Type} (field : FactType → α)
    (h : ∀ f roles, field { f with roles } = field f) (g : FactTypeId) (player : ObjectTypeId)
    (name : Option String) (f : FactTypeId) :
    field ((v.pushRole g player name).factType f) = field (v.factType f) := by
  rw [factType_pushRole]
  split
  · next hf => rw [h, ← hf.1]
  · rfl

/-- Another role leaves alone everything of object types but the roles they play. -/
lemma objectType_pushRole_apply {α : Type} (field : ObjectType → α)
    (h : ∀ t playedRoles, field { t with playedRoles } = field t) (f : FactTypeId)
    (player : ObjectTypeId) (name : Option String) (t : ObjectTypeId) :
    field ((v.pushRole f player name).objectType t) = field (v.objectType t) := by
  rw [objectType_pushRole]
  split
  · next ht => rw [h, ← ht.1]
  · rfl

/-- A role that is added comes last. -/
lemma roleIds_pushRole (f : FactTypeId) (player : ObjectTypeId) (name : Option String) :
    (v.pushRole f player name).roleIds = v.roleIds ++ [⟨v.roles.size⟩] := by
  simp [roleIds, pushRole, modifyFactType, modifyObjectType, List.range_succ]

/-- What an object type objectifies, after one has been made to objectify a fact type. -/
lemma objectType_linkObjectification_factType {e : ObjectTypeId} (he : e ∈ v.objectTypeIds)
    (f : FactTypeId) (t : ObjectTypeId) :
    ((v.linkObjectification e f).objectType t).factType =
      if t = e then some f else (v.objectType t).factType := by
  change ((v.modifyObjectType e _).objectType t).factType = _
  rw [objectType_modifyObjectType]
  by_cases h : t = e <;> simp [h, he]

/-- The fact type is tied to the type that objectifies it, and the others are as they were. -/
lemma factType_linkObjectification_entityType (e : ObjectTypeId) {f : FactTypeId}
    (hf : f ∈ v.factTypeIds) (g : FactTypeId) :
    ((v.linkObjectification e f).factType g).entityType =
      if g = f then some e else (v.factType g).entityType := by
  rw [linkObjectification, factType_modifyFactType]
  by_cases h : g = f
  · rw [if_pos ⟨h, hf⟩, if_pos h]
  · rw [if_neg (fun hg => h hg.1), if_neg h]
    rfl

/-- Tying a type to what it objectifies changes of object types only the fact type they objectify
and whether they are declared. -/
lemma objectType_linkObjectification_apply {α : Type} (field : ObjectType → α)
    (h : ∀ t factType isForward, field { t with factType, isForward } = field t)
    (e : ObjectTypeId) (f : FactTypeId) (t : ObjectTypeId) :
    field ((v.linkObjectification e f).objectType t) = field (v.objectType t) :=
  objectType_modifyObjectType_apply field e (fun t => h t _ _) t

/-- Tying a type to what it objectifies changes of fact types only the type that objectifies
them. -/
lemma factType_linkObjectification_apply {α : Type} (field : FactType → α)
    (h : ∀ f entityType, field { f with entityType } = field f) (e : ObjectTypeId)
    (f g : FactTypeId) : field ((v.linkObjectification e f).factType g) = field (v.factType g) :=
  factType_modifyFactType_apply field f (fun t => h t _) g

/-- A new role has its fact type, player and name, and the others are as they were. -/
lemma role_pushRole (f : FactTypeId) (player : ObjectTypeId) (name : Option String) (r : RoleId) :
    (v.pushRole f player name).role r =
      if r = ⟨v.roles.size⟩ then
        { id := ⟨v.roles.size⟩, factType := f, ordinal := (v.factType f).arity, player, name }
      else v.role r := by
  rcases r with ⟨i⟩
  simp only [RoleId.mk.injEq]
  exact getElem?_push_getD ..

/-- A new role sequence has its role references, and the others are as they were. -/
lemma roleSequence_pushRoleSequence (refs : List RoleRef) (s : RoleSequenceId) :
    (v.pushRoleSequence refs).roleSequence s =
      if s = ⟨v.roleSequences.size⟩ then { id := ⟨v.roleSequences.size⟩, refs }
      else v.roleSequence s := by
  rcases s with ⟨i⟩
  simp only [RoleSequenceId.mk.injEq]
  exact getElem?_push_getD ..

/-- Role sequences are apart from object types and fact types. -/
lemma objectType_pushRoleSequence (refs : List RoleRef) (t : ObjectTypeId) :
    (v.pushRoleSequence refs).objectType t = v.objectType t :=
  rfl

/-- A role sequence leaves the fact types as they are. -/
lemma factType_pushRoleSequence (refs : List RoleRef) (f : FactTypeId) :
    (v.pushRoleSequence refs).factType f = v.factType f :=
  rfl

/-- A role sequence adds no object type. -/
lemma objectTypeIds_pushRoleSequence (refs : List RoleRef) :
    (v.pushRoleSequence refs).objectTypeIds = v.objectTypeIds :=
  rfl

/-- A role sequence adds no fact type. -/
lemma factTypeIds_pushRoleSequence (refs : List RoleRef) :
    (v.pushRoleSequence refs).factTypeIds = v.factTypeIds :=
  rfl

/-- Another fact type leaves the object types alone. -/
lemma objectType_pushFactType (kind : FactTypeKind) (t : ObjectTypeId) :
    (v.pushFactType kind).objectType t = v.objectType t :=
  rfl

/-- A fact type adds no object type. -/
lemma objectTypeIds_pushFactType (kind : FactTypeKind) :
    (v.pushFactType kind).objectTypeIds = v.objectTypeIds :=
  rfl

/-- Making a type a kind of another one adds no object type. -/
lemma objectTypeIds_linkSubtype (a b : ObjectTypeId) :
    (v.linkSubtype a b).objectTypeIds = v.objectTypeIds := by
  rw [linkSubtype, objectTypeIds_modifyObjectType, objectTypeIds_modifyObjectType]

/-- A new reading is the last one of its fact type. -/
lemma factType_pushReading (g : FactTypeId) (s : RoleSequenceId) (text : String)
    (isNegative : Bool) (f : FactTypeId) :
    (v.pushReading g s text isNegative).factType f =
      if f = g ∧ g ∈ v.factTypeIds then
        { v.factType g with readings := (v.factType g).readings ++ [⟨v.readings.size⟩] }
      else v.factType f :=
  factType_modifyFactType ..

/-- Another reading leaves alone everything of fact types but their readings. -/
lemma factType_pushReading_apply {α : Type} (field : FactType → α)
    (h : ∀ f readings, field { f with readings } = field f) (g : FactTypeId) (s : RoleSequenceId)
    (text : String) (isNegative : Bool) (f : FactTypeId) :
    field ((v.pushReading g s text isNegative).factType f) = field (v.factType f) := by
  rw [factType_pushReading]
  split
  · next hf => rw [h, ← hf.1]
  · rfl

/-- It has the given text and role sequence and the tokens of its text, and the others are as they
were. -/
lemma reading_pushReading (f : FactTypeId) (s : RoleSequenceId) (text : String)
    (isNegative : Bool) (r : ReadingId) :
    (v.pushReading f s text isNegative).reading r =
      if r = ⟨v.readings.size⟩ then
        { id := ⟨v.readings.size⟩, factType := f, ordinal := (v.factType f).readings.length
          roleSequence := s, text, isNegative, tokens := Template.tokens text }
      else v.reading r := by
  rcases r with ⟨i⟩
  simp only [ReadingId.mk.injEq]
  exact getElem?_push_getD ..

end Vocabulary

end FactModel
