import Mathlib.Tactic.Lemma
import FactModel.Proofs.Vocabulary.Lookup
set_option autoImplicit false

/-!
# What a growing vocabulary keeps

The lists of a vocabulary only grow at their ends. A construct that is there keeps what it has and
may gain what it lacks.

## Main definitions

* `FactModel.Kept` — the items of one list are kept in another, each changed at most as allowed.
* `FactModel.Vocabulary.Grows` — one vocabulary grows into another.

## Main results

* `FactModel.Vocabulary.Grows.refl`, `FactModel.Vocabulary.Grows.trans` — growth in steps.
* `FactModel.Vocabulary.Grows.reading_eq` and its companions — what is read from a construct that
  was there is the same afterwards.
* `FactModel.Vocabulary.grows_pushRole` and its companions — each elementary change is a growth.
-/

namespace FactModel

/-! ## Lists that keep their items -/

section Kept

variable {α : Type} {R : α → α → Prop}

/-- Each item of a list stands at its place in another list too, changed as the relation allows. -/
def Kept (R : α → α → Prop) (as bs : Array α) : Prop :=
  ∀ (i : Nat) (a : α), as[i]? = some a → ∃ b, bs[i]? = some b ∧ R a b

/-- An array keeps its own items if the relation is reflexive. -/
lemma Kept.refl (hR : ∀ a, R a a) (as : Array α) : Kept R as as :=
  fun _ a h => ⟨a, h, hR a⟩

/-- What is kept twice is kept. -/
lemma Kept.trans {as bs cs : Array α} (hR : ∀ a b c, R a b → R b c → R a c) (h : Kept R as bs)
    (h' : Kept R bs cs) : Kept R as cs := by
  intro i a ha
  obtain ⟨b, hb, hab⟩ := h i a ha
  obtain ⟨c, hc, hbc⟩ := h' i b hb
  exact ⟨c, hc, hR a b c hab hbc⟩

/-- A new item at the end leaves those before it as they are. -/
lemma kept_push (hR : ∀ a, R a a) (as : Array α) (a : α) : Kept R as (as.push a) := by
  intro i b hb
  have hi : i < as.size := (Array.getElem?_eq_some_iff.1 hb).1
  exact ⟨b, by rw [Array.getElem?_push, if_neg (by omega), hb], hR b⟩

/-- Changing an item is keeping them all if the relation allows the change. -/
lemma kept_modify (hR : ∀ a, R a a) (as : Array α) (i : Nat) (f : α → α)
    (hf : ∀ a, as[i]? = some a → R a (f a)) : Kept R as (as.modify i f) := by
  intro j a ha
  rw [Array.getElem?_modify]
  split
  · next hij => exact ⟨f a, by simp [ha], hf a (hij ▸ ha)⟩
  · exact ⟨a, ha, hR a⟩

/-- A list that keeps the items of another is at least as long. -/
lemma Kept.size_le {as bs : Array α} (h : Kept R as bs) : as.size ≤ bs.size := by
  refine Nat.le_of_not_lt fun hb => ?_
  obtain ⟨b, hb', -⟩ := h bs.size as[bs.size] (Array.getElem?_eq_getElem hb)
  simp at hb'

/-- An item within bounds is related to what stands in its place later. -/
lemma Kept.getD {as bs : Array α} (h : Kept R as bs) {i : Nat} (hi : i < as.size) (d : α) :
    R (as[i]?.getD d) (bs[i]?.getD d) := by
  obtain ⟨b, hb, hab⟩ := h i as[i] (Array.getElem?_eq_getElem hi)
  simpa [hi, hb] using hab

end Kept

/-- A value that is set stays as it is. -/
def Settled {α : Type} (a b : Option α) : Prop :=
  ∀ x, a = some x → b = some x

/-- A value that stays as it is, is settled. -/
@[simp]
lemma Settled.refl {α : Type} (a : Option α) : Settled a a :=
  fun _ => id

/-- What is settled stays settled. -/
lemma Settled.trans {α : Type} {a b c : Option α} (h : Settled a b) (h' : Settled b c) :
    Settled a c :=
  fun x hx => h' x (h x hx)

/-- What has no value yet may get any. -/
@[simp]
lemma settled_none {α : Type} (b : Option α) : Settled none b :=
  fun _ h => nomatch h

/-- A value that only fills a gap is settled. -/
lemma settled_orElse {α : Type} (a b : Option α) : Settled a (a <|> b) := by
  rintro x rfl
  rfl

/-! ## Constructs that gain what they lack -/

/-- An object type keeps its name and kind, gains direct supertypes and subtypes and roles, may come
to objectify a fact type, and may be declared after it was used. -/
structure ObjectType.Grows (t u : ObjectType) : Prop where
  id_eq : u.id = t.id
  name_eq : u.name = t.name
  kind_eq : u.kind = t.kind
  supertypes : t.supertypes <+: u.supertypes
  subtypes : t.subtypes <+: u.subtypes
  playedRoles : t.playedRoles <+: u.playedRoles
  factType : Settled t.factType u.factType
  isForward : u.isForward = true → t.isForward = true

/-- A fact type keeps its kind, gains roles and readings, and may come to be objectified. Its
derivation may be replaced. -/
structure FactType.Grows (f g : FactType) : Prop where
  id_eq : g.id = f.id
  kind_eq : g.kind = f.kind
  roles : f.roles <+: g.roles
  readings : f.readings <+: g.readings
  entityType : Settled f.entityType g.entityType

/-- A role keeps its place in its fact type and its player, and may come to have a name. -/
structure Role.Grows (r s : Role) : Prop where
  id_eq : s.id = r.id
  factType_eq : s.factType = r.factType
  ordinal_eq : s.ordinal = r.ordinal
  player_eq : s.player = r.player
  name : Settled r.name s.name

/-- A presence constraint keeps its roles and its enforcement, and may gain bounds. -/
structure PresenceConstraint.Grows (c d : PresenceConstraint) : Prop where
  id_eq : d.id = c.id
  roleSequence_eq : d.roleSequence = c.roleSequence
  enforcement_eq : d.enforcement = c.enforcement
  min : Settled c.min d.min
  max : Settled c.max d.max

/-- An object type grows into itself. -/
lemma ObjectType.Grows.refl (t : ObjectType) : t.Grows t :=
  ⟨rfl, rfl, rfl, List.prefix_rfl, List.prefix_rfl, List.prefix_rfl, .refl _, fun h => h⟩

/-- Growing object types go on growing. -/
lemma ObjectType.Grows.trans {t u w : ObjectType} (h : t.Grows u) (h' : u.Grows w) : t.Grows w where
  id_eq := h'.id_eq.trans h.id_eq
  name_eq := h'.name_eq.trans h.name_eq
  kind_eq := h'.kind_eq.trans h.kind_eq
  supertypes := h.supertypes.trans h'.supertypes
  subtypes := h.subtypes.trans h'.subtypes
  playedRoles := h.playedRoles.trans h'.playedRoles
  factType := h.factType.trans h'.factType
  isForward := fun hw => h.isForward (h'.isForward hw)

/-- A fact type grows into itself. -/
lemma FactType.Grows.refl (f : FactType) : f.Grows f :=
  ⟨rfl, rfl, List.prefix_rfl, List.prefix_rfl, .refl _⟩

/-- Growing fact types go on growing. -/
lemma FactType.Grows.trans {f g k : FactType} (h : f.Grows g) (h' : g.Grows k) : f.Grows k where
  id_eq := h'.id_eq.trans h.id_eq
  kind_eq := h'.kind_eq.trans h.kind_eq
  roles := h.roles.trans h'.roles
  readings := h.readings.trans h'.readings
  entityType := h.entityType.trans h'.entityType

/-- A role grows into itself. -/
lemma Role.Grows.refl (r : Role) : r.Grows r :=
  ⟨rfl, rfl, rfl, rfl, .refl _⟩

/-- Growing roles go on growing. -/
lemma Role.Grows.trans {r s t : Role} (h : r.Grows s) (h' : s.Grows t) : r.Grows t where
  id_eq := h'.id_eq.trans h.id_eq
  factType_eq := h'.factType_eq.trans h.factType_eq
  ordinal_eq := h'.ordinal_eq.trans h.ordinal_eq
  player_eq := h'.player_eq.trans h.player_eq
  name := h.name.trans h'.name

/-- A presence constraint grows into itself. -/
lemma PresenceConstraint.Grows.refl (c : PresenceConstraint) : c.Grows c :=
  ⟨rfl, rfl, rfl, .refl _, .refl _⟩

/-- Growing presence constraints go on growing. -/
lemma PresenceConstraint.Grows.trans {c d e : PresenceConstraint} (h : c.Grows d)
    (h' : d.Grows e) : c.Grows e where
  id_eq := h'.id_eq.trans h.id_eq
  roleSequence_eq := h'.roleSequence_eq.trans h.roleSequence_eq
  enforcement_eq := h'.enforcement_eq.trans h.enforcement_eq
  min := h.min.trans h'.min
  max := h.max.trans h'.max

namespace Vocabulary

/-- A vocabulary grows into another one: every construct stays at its place and at most gains what
it lacks. -/
structure Grows (v w : Vocabulary) : Prop where
  name_eq : w.name = v.name
  objectTypes : Kept ObjectType.Grows v.objectTypes w.objectTypes
  factTypes : Kept FactType.Grows v.factTypes w.factTypes
  roles : Kept Role.Grows v.roles w.roles
  roleSequences : Kept Eq v.roleSequences w.roleSequences
  readings : Kept Eq v.readings w.readings
  presenceConstraints : Kept PresenceConstraint.Grows v.presenceConstraints w.presenceConstraints
  ringConstraints : Kept Eq v.ringConstraints w.ringConstraints
  queries : Kept Eq v.queries w.queries

namespace Grows

/-- A vocabulary grows into itself. -/
lemma refl (v : Vocabulary) : v.Grows v where
  name_eq := rfl
  objectTypes := .refl ObjectType.Grows.refl _
  factTypes := .refl FactType.Grows.refl _
  roles := .refl Role.Grows.refl _
  roleSequences := .refl Eq.refl _
  readings := .refl Eq.refl _
  presenceConstraints := .refl PresenceConstraint.Grows.refl _
  ringConstraints := .refl Eq.refl _
  queries := .refl Eq.refl _

/-- Growing vocabularies go on growing. -/
lemma trans {u v w : Vocabulary} (h : u.Grows v) (h' : v.Grows w) : u.Grows w where
  name_eq := h'.name_eq.trans h.name_eq
  objectTypes := h.objectTypes.trans (fun _ _ _ => .trans) h'.objectTypes
  factTypes := h.factTypes.trans (fun _ _ _ => .trans) h'.factTypes
  roles := h.roles.trans (fun _ _ _ => .trans) h'.roles
  roleSequences := h.roleSequences.trans (fun _ _ _ => .trans) h'.roleSequences
  readings := h.readings.trans (fun _ _ _ => .trans) h'.readings
  presenceConstraints := h.presenceConstraints.trans (fun _ _ _ => .trans) h'.presenceConstraints
  ringConstraints := h.ringConstraints.trans (fun _ _ _ => .trans) h'.ringConstraints
  queries := h.queries.trans (fun _ _ _ => .trans) h'.queries

/-! ## What was there is there -/

variable {v w : Vocabulary} (h : v.Grows w)

include h

/-- Object types stay in a growing vocabulary. -/
lemma mem_objectTypeIds {t : ObjectTypeId} (ht : t ∈ v.objectTypeIds) : t ∈ w.objectTypeIds := by
  rw [Vocabulary.mem_objectTypeIds] at ht ⊢
  exact Nat.lt_of_lt_of_le ht h.objectTypes.size_le

/-- Fact types stay in a growing vocabulary. -/
lemma mem_factTypeIds {f : FactTypeId} (hf : f ∈ v.factTypeIds) : f ∈ w.factTypeIds := by
  rw [Vocabulary.mem_factTypeIds] at hf ⊢
  exact Nat.lt_of_lt_of_le hf h.factTypes.size_le

/-- Roles stay in a growing vocabulary. -/
lemma mem_roleIds {r : RoleId} (hr : r ∈ v.roleIds) : r ∈ w.roleIds := by
  rw [Vocabulary.mem_roleIds] at hr ⊢
  exact Nat.lt_of_lt_of_le hr h.roles.size_le

/-- Role sequences stay in a growing vocabulary. -/
lemma mem_roleSequenceIds {s : RoleSequenceId} (hs : s ∈ v.roleSequenceIds) :
    s ∈ w.roleSequenceIds := by
  rw [Vocabulary.mem_roleSequenceIds] at hs ⊢
  exact Nat.lt_of_lt_of_le hs h.roleSequences.size_le

/-- Readings stay in a growing vocabulary. -/
lemma mem_readingIds {r : ReadingId} (hr : r ∈ v.readingIds) : r ∈ w.readingIds := by
  rw [Vocabulary.mem_readingIds] at hr ⊢
  exact Nat.lt_of_lt_of_le hr h.readings.size_le

/-- Queries stay in a growing vocabulary. -/
lemma mem_queryIds {q : QueryId} (hq : q ∈ v.queryIds) : q ∈ w.queryIds := by
  rw [Vocabulary.mem_queryIds] at hq ⊢
  exact Nat.lt_of_lt_of_le hq h.queries.size_le

/-- An object type of a growing vocabulary grows. -/
lemma objectType {t : ObjectTypeId} (ht : t ∈ v.objectTypeIds) :
    (v.objectType t).Grows (w.objectType t) :=
  h.objectTypes.getD ((Vocabulary.mem_objectTypeIds v).1 ht) _

/-- A fact type of a growing vocabulary grows. -/
lemma factType {f : FactTypeId} (hf : f ∈ v.factTypeIds) :
    (v.factType f).Grows (w.factType f) :=
  h.factTypes.getD ((Vocabulary.mem_factTypeIds v).1 hf) _

/-- A role of a growing vocabulary grows. -/
lemma role {r : RoleId} (hr : r ∈ v.roleIds) : (v.role r).Grows (w.role r) :=
  h.roles.getD ((Vocabulary.mem_roleIds v).1 hr) _

/-- An object type keeps its name. -/
lemma nameOf_eq {t : ObjectTypeId} (ht : t ∈ v.objectTypeIds) : w.nameOf t = v.nameOf t :=
  (h.objectType ht).name_eq

/-- A role keeps its player. -/
lemma playerOf_eq {r : RoleId} (hr : r ∈ v.roleIds) : w.playerOf r = v.playerOf r :=
  (h.role hr).player_eq

/-- A role sequence is as it was. -/
lemma roleSequence_eq {s : RoleSequenceId} (hs : s ∈ v.roleSequenceIds) :
    w.roleSequence s = v.roleSequence s :=
  (h.roleSequences.getD ((Vocabulary.mem_roleSequenceIds v).1 hs) _).symm

/-- A reading is as it was. -/
lemma reading_eq {r : ReadingId} (hr : r ∈ v.readingIds) : w.reading r = v.reading r :=
  (h.readings.getD ((Vocabulary.mem_readingIds v).1 hr) _).symm

end Grows

/-! ## Elementary changes -/

variable (v : Vocabulary)

/-- A vocabulary grows by an object type. -/
lemma grows_pushObjectType (name : String) (kind : ObjectTypeKind) (isForward : Bool) :
    v.Grows (v.pushObjectType name kind isForward) :=
  { Grows.refl v with objectTypes := kept_push ObjectType.Grows.refl _ _ }

variable {v}

/-- Changing an object type is a growth if it makes that type grow. -/
lemma grows_modifyObjectType (t : ObjectTypeId) (change : ObjectType → ObjectType)
    (h : (v.objectType t).Grows (change (v.objectType t))) :
    v.Grows (v.modifyObjectType t change) := by
  refine { Grows.refl v with
    objectTypes := kept_modify ObjectType.Grows.refl _ _ _ fun a ha => ?_ }
  have hat : v.objectType t = a := by rw [objectType, ha]; rfl
  rwa [hat] at h

/-- Changing a fact type is a growth if it makes that type grow. -/
lemma grows_modifyFactType (f : FactTypeId) (change : FactType → FactType)
    (h : (v.factType f).Grows (change (v.factType f))) :
    v.Grows (v.modifyFactType f change) := by
  refine { Grows.refl v with
    factTypes := kept_modify FactType.Grows.refl _ _ _ fun a ha => ?_ }
  have haf : v.factType f = a := by rw [factType, ha]; rfl
  rwa [haf] at h

/-- Changing a presence constraint is a growth if it makes that constraint grow. -/
lemma grows_modifyPresenceConstraint (c : PresenceConstraintId)
    (change : PresenceConstraint → PresenceConstraint)
    (h : (v.presenceConstraint c).Grows (change (v.presenceConstraint c))) :
    v.Grows { v with presenceConstraints := v.presenceConstraints.modify c.index change } := by
  refine { Grows.refl v with
    presenceConstraints := kept_modify PresenceConstraint.Grows.refl _ _ _ fun a ha => ?_ }
  have hac : v.presenceConstraint c = a := by rw [presenceConstraint, ha]; rfl
  rwa [hac] at h

variable (v)

/-- A vocabulary grows by a fact type. -/
lemma grows_pushFactType (kind : FactTypeKind) : v.Grows (v.pushFactType kind) :=
  { Grows.refl v with factTypes := kept_push FactType.Grows.refl _ _ }

/-- A list begins with what it was before an item was added to it. -/
lemma prefix_withItem {α : Type} [DecidableEq α] (as : List α) (a : α) : as <+: withItem as a := by
  unfold withItem
  split
  · exact List.prefix_rfl
  · exact List.prefix_append ..

/-- A vocabulary grows by a role, which its fact type and its player list from then on. -/
lemma grows_pushRole (f : FactTypeId) (player : ObjectTypeId) (name : Option String) :
    v.Grows (v.pushRole f player name) := by
  let role : Role := ⟨⟨v.roles.size⟩, f, (v.factType f).arity, player, name⟩
  have hrole : v.Grows { v with roles := v.roles.push role } :=
    { Grows.refl v with roles := kept_push Role.Grows.refl _ _ }
  refine (hrole.trans (grows_modifyFactType f _ ?_)).trans (grows_modifyObjectType player _ ?_)
  · exact { FactType.Grows.refl _ with roles := List.prefix_append .. }
  · exact { ObjectType.Grows.refl _ with playedRoles := prefix_withItem .. }

/-- A vocabulary grows by a name for a role that had none. -/
lemma grows_nameRole {r : RoleId} (h : (v.role r).name = none) (name : String) :
    v.Grows { v with roles := v.roles.modify r.index ({ · with name := some name }) } := by
  refine { Grows.refl v with roles := kept_modify Role.Grows.refl _ _ _ fun a ha => ?_ }
  have har : v.role r = a := by rw [role, ha]; rfl
  rw [har] at h
  exact { Role.Grows.refl a with name := h ▸ settled_none _ }

/-- A vocabulary grows by a role sequence. -/
lemma grows_pushRoleSequence (refs : List RoleRef) : v.Grows (v.pushRoleSequence refs) :=
  { Grows.refl v with roleSequences := kept_push Eq.refl _ _ }

/-- A vocabulary grows by a reading. -/
lemma grows_pushReading (f : FactTypeId) (s : RoleSequenceId) (text : String)
    (isNegative : Bool) : v.Grows (v.pushReading f s text isNegative) := by
  let reading : Reading := ⟨⟨v.readings.size⟩, f, (v.factType f).readings.length, s, text,
    isNegative, Template.tokens text⟩
  have hreading : v.Grows { v with readings := v.readings.push reading } :=
    { Grows.refl v with readings := kept_push Eq.refl _ _ }
  refine hreading.trans (grows_modifyFactType f _ ?_)
  exact { FactType.Grows.refl _ with readings := List.prefix_append .. }

/-- A vocabulary grows by what makes a type a kind of another one. -/
lemma grows_linkSubtype (subtype supertype : ObjectTypeId) :
    v.Grows (v.linkSubtype subtype supertype) := by
  refine (grows_modifyObjectType subtype _ ?_).trans (grows_modifyObjectType supertype _ ?_)
  · exact { ObjectType.Grows.refl _ with supertypes := List.prefix_append .. }
  · exact { ObjectType.Grows.refl _ with subtypes := prefix_withItem .. }

/-- A vocabulary grows by what ties a fact type to the type that objectifies it, if neither is tied
to another one. -/
lemma grows_linkObjectification {v : Vocabulary} {e : ObjectTypeId} {f : FactTypeId}
    (he : (v.objectType e).factType = none ∨ (v.objectType e).factType = some f)
    (hf : (v.factType f).entityType = none ∨ (v.factType f).entityType = some e) :
    v.Grows (v.linkObjectification e f) := by
  refine (grows_modifyObjectType e _ ?_).trans (grows_modifyFactType f _ ?_)
  · refine { ObjectType.Grows.refl _ with factType := ?_, isForward := fun h => nomatch h }
    rcases he with h | h <;> simp [h]
  · refine { FactType.Grows.refl _ with entityType := ?_ }
    change Settled (v.factType f).entityType (some e)
    rcases hf with h | h <;> simp [h]

/-- A vocabulary grows by a query. -/
lemma grows_pushQuery (query : JoinGraph) :
    v.Grows { v with queries := v.queries.push query } :=
  { Grows.refl v with queries := kept_push Eq.refl _ _ }

/-- A vocabulary grows by a presence constraint. -/
lemma grows_pushPresenceConstraint (c : PresenceConstraint) :
    v.Grows { v with presenceConstraints := v.presenceConstraints.push c } :=
  { Grows.refl v with presenceConstraints := kept_push PresenceConstraint.Grows.refl _ _ }

/-- A vocabulary grows by a ring constraint. -/
lemma grows_pushRingConstraint (c : RingConstraint) :
    v.Grows { v with ringConstraints := v.ringConstraints.push c } :=
  { Grows.refl v with ringConstraints := kept_push Eq.refl _ _ }

end Vocabulary

end FactModel
