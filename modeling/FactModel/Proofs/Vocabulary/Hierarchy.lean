import FactModel.Proofs.Vocabulary.Change
import FactModel.Proofs.Vocabulary.Inheritance
set_option autoImplicit false

/-!
# The hierarchy of types

Which types are kinds of which is recorded three times: with the lower type, with the upper type and
by a fact type. The three records agree, and no type is a kind of itself through others: before a
type becomes a kind of another, a search from the other one makes sure that it does not lead back.

## Main definitions

* `FactModel.Vocabulary.IsKindOf` — one type was made a kind of another.
* `FactModel.Vocabulary.Inherits` — the three records agree, and there is no cycle.
* `FactModel.Vocabulary.Hierarchical` — what this means for searches and for further subtypes.

## Main results

* `FactModel.Vocabulary.inherits_of_change` — every change of a declaration keeps the records.
* `FactModel.Vocabulary.Inherits.hierarchical` — searches find all types above and below a type, and
  exactly the subtypes that would close a cycle are refused.
-/

namespace FactModel.Vocabulary

open Attempt Relation

variable {v w : Vocabulary} {a b c d : ObjectTypeId}

/-! ## One more edge -/

/-- What is reached with one more edge is reached without it, or through that edge. -/
lemma transGen_or_edge {α : Type} {r : α → α → Prop} {a b x y : α}
    (h : TransGen (fun s t => r s t ∨ s = a ∧ t = b) x y) :
    TransGen r x y ∨ ReflTransGen r x a ∧ ReflTransGen r b y := by
  induction h with
  | single hstep =>
    rcases hstep with hstep | ⟨rfl, rfl⟩
    · exact .inl (.single hstep)
    · exact .inr ⟨.refl, .refl⟩
  | tail _ hstep ih =>
    rcases hstep with hstep | ⟨rfl, rfl⟩
    · exact ih.imp (·.tail hstep) fun h => ⟨h.1, h.2.tail hstep⟩
    · exact .inr ⟨ih.elim TransGen.to_reflTransGen And.left, .refl⟩

/-- An edge that does not lead back closes no cycle. -/
lemma acyclic_or_edge {α : Type} {r : α → α → Prop} {a b : α} (h : ∀ x, ¬TransGen r x x)
    (hback : ¬ReflTransGen r b a) (x : α) :
    ¬TransGen (fun s t => r s t ∨ s = a ∧ t = b) x x := by
  intro hcycle
  rcases transGen_or_edge hcycle with hcycle | ⟨hto, hfrom⟩
  · exact h x hcycle
  · exact hback (hfrom.trans hto)

/-! ## The records -/

/-- The first type was made a kind of the second. -/
def IsKindOf (v : Vocabulary) (a b : ObjectTypeId) : Prop :=
  b ∈ (v.objectType a).supertypes

/-- A fact type says that the first type is a kind of the second. -/
def StatesKind (v : Vocabulary) (f : FactTypeId) (a b : ObjectTypeId) : Prop :=
  f ∈ v.factTypeIds ∧ (v.factType f).kind = .typeInheritance a b

/-- The records of which types are kinds of which agree, and there is no cycle. -/
structure Inherits (v : Vocabulary) : Prop where
  mem : ∀ {a b}, v.IsKindOf a b → a ∈ v.objectTypeIds ∧ b ∈ v.objectTypeIds
  mem_subtypes_iff : ∀ {a b}, a ∈ (v.objectType b).subtypes ↔ v.IsKindOf a b
  stated_iff : ∀ {a b}, v.IsKindOf a b ↔ ∃ f, v.StatesKind f a b
  stated_once : ∀ {f g a b}, v.StatesKind f a b → v.StatesKind g a b → f = g
  acyclic : ∀ a, ¬TransGen v.IsKindOf a a

/-- None is found exactly where no fact type says that one type is a kind of the other. -/
lemma typeInheritance?_eq_none_iff :
    v.typeInheritance? a b = none ↔ ¬∃ f, v.StatesKind f a b := by
  simp only [typeInheritance?, Option.map_eq_none_iff, List.find?_eq_none, decide_eq_true_eq]
  constructor
  · rintro h ⟨f, hf, hkind⟩
    refine h (v.factType f) ?_ hkind
    have hf := v.mem_factTypeIds.1 hf
    simp [factType, hf]
  · rintro h t ht hkind
    obtain ⟨f, hf, rfl⟩ := exists_factType_of_mem ht
    exact h ⟨f, hf, hkind⟩

namespace Inherits

/-- There is nothing to record in the vocabulary without constructs. -/
lemma empty (name : String) : Inherits { name } := by
  have hnone : ∀ a b, ¬IsKindOf { name } a b := fun a b => by
    simp [IsKindOf, objectType, default, instInhabitedObjectType.default]
  have hstated : ∀ f a b, ¬StatesKind { name } f a b := fun f a b h => by
    simp [StatesKind] at h
  refine ⟨fun h => absurd h (hnone _ _), ?_, ?_, fun h => absurd h (hstated _ _ _), fun a h => ?_⟩
  · intro a b
    refine iff_of_false ?_ (hnone a b)
    simp [objectType, default, instInhabitedObjectType.default]
  · exact iff_of_false (hnone _ _) fun h => h.elim fun f hf => hstated f _ _ hf
  · obtain ⟨b, hstep, -⟩ := TransGen.head'_iff.1 h
    exact hnone a b hstep

/-- What leaves the records alone keeps them. -/
lemma of_same (h : v.Inherits) (hids : ∀ t ∈ v.objectTypeIds, t ∈ w.objectTypeIds)
    (hsuper : ∀ t, (w.objectType t).supertypes = (v.objectType t).supertypes)
    (hsub : ∀ t, (w.objectType t).subtypes = (v.objectType t).subtypes)
    (hstated : ∀ f a b, w.StatesKind f a b ↔ v.StatesKind f a b) : w.Inherits := by
  have hkind : w.IsKindOf = v.IsKindOf := by
    funext a b
    unfold IsKindOf
    rw [hsuper]
  constructor
  · intro a b hab
    have hmem := h.mem (hkind ▸ hab)
    exact ⟨hids a hmem.1, hids b hmem.2⟩
  · intro a b
    rw [hsub, h.mem_subtypes_iff, hkind]
  · intro a b
    simp only [hkind, hstated]
    exact h.stated_iff
  · intro f g a b hf hg
    exact h.stated_once ((hstated f a b).1 hf) ((hstated g a b).1 hg)
  · rw [hkind]
    exact h.acyclic

/-- What changes neither object types nor the kinds of fact types keeps the records. -/
lemma of_kind_eq (h : v.Inherits) (hobject : w.objectTypes = v.objectTypes)
    (hids : w.factTypeIds = v.factTypeIds)
    (hkind : ∀ f, (w.factType f).kind = (v.factType f).kind) : w.Inherits := by
  refine h.of_same (fun t ht => ?_) (fun t => ?_) (fun t => ?_) fun f a b => ?_
  · rwa [objectTypeIds, hobject]
  · rw [objectType, hobject, objectType]
  · rw [objectType, hobject, objectType]
  · rw [StatesKind, StatesKind, hids, hkind]

/-- So does a fact type that says something else. -/
lemma of_added (h : v.Inherits) (hids : ∀ t ∈ v.objectTypeIds, t ∈ w.objectTypeIds)
    (hsuper : ∀ t, (w.objectType t).supertypes = (v.objectType t).supertypes)
    (hsub : ∀ t, (w.objectType t).subtypes = (v.objectType t).subtypes)
    (hmem : ∀ f, f ∈ w.factTypeIds ↔ f = ⟨v.factTypes.size⟩ ∨ f ∈ v.factTypeIds)
    (kind : FactTypeKind) (hkind : ∀ f, (w.factType f).kind =
      if f = ⟨v.factTypes.size⟩ then kind else (v.factType f).kind)
    (hother : ∀ a b, kind ≠ .typeInheritance a b) : w.Inherits := by
  refine h.of_same hids hsuper hsub fun f a b => ?_
  rw [StatesKind, StatesKind, hmem, hkind]
  by_cases hf : f = ⟨v.factTypes.size⟩
  · rw [if_pos hf]
    exact iff_of_false (fun hnew => hother a b hnew.2) fun hold =>
      size_not_mem_factTypeIds (hf ▸ hold.1)
  · simp [hf]

/-! ## Searches -/

variable (h : v.Inherits)

include h

/-- The types are the nodes of the graph upwards. -/
lemma joins_supertypes : Graph.Joins (fun t => (v.objectType t).supertypes) v.objectTypeIds :=
  fun _ _ hab => h.mem hab

/-- The subtypes of the types there are lead to types there are. -/
lemma joins_subtypes : Graph.Joins (fun t => (v.objectType t).subtypes) v.objectTypeIds :=
  fun _ _ hab => (h.mem (h.mem_subtypes_iff.1 hab)).symm

/-- The supertypes of a type are those it is a kind of in any number of steps. -/
lemma mem_supertypes_iff : b ∈ v.supertypes a ↔ ReflTransGen v.IsKindOf a b :=
  Graph.mem_reachable_iff h.joins_supertypes (by simp [objectTypeIds])

/-- The subtypes of a type are those that are kinds of it in any number of steps. -/
lemma mem_subtypes_iff_reflTransGen : b ∈ v.subtypes a ↔ ReflTransGen v.IsKindOf b a := by
  refine (Graph.mem_reachable_iff h.joins_subtypes (by simp [objectTypeIds])).trans ?_
  have hswap : Graph.Adjacent (fun t => (v.objectType t).subtypes) =
      Function.swap v.IsKindOf := by
    funext s t
    exact propext h.mem_subtypes_iff
  rw [hswap, reflTransGen_swap]

/-- A type is found to be a kind of another one exactly where steps lead from it there. -/
lemma isSubtypeOf_iff : v.isSubtypeOf a b ↔ ReflTransGen v.IsKindOf a b := by
  rw [isSubtypeOf, List.contains_iff_mem, h.mem_supertypes_iff]

end Inherits

/-! ## What declarations do to the records -/

section Changes

variable (v)

/-- A link of two types is recorded with the lower one. -/
lemma isKindOf_linkSubtype (ha : a ∈ v.objectTypeIds) :
    (v.linkSubtype a b).IsKindOf c d ↔ v.IsKindOf c d ∨ c = a ∧ d = b := by
  have hupper : ((v.linkSubtype a b).objectType c).supertypes =
      ((v.modifyObjectType a fun t => { t with supertypes := t.supertypes ++ [b] }).objectType
        c).supertypes := by
    rw [linkSubtype, objectType_modifyObjectType]
    split
    · next hb => rw [hb.1]
    · rfl
  rw [IsKindOf, hupper, objectType_modifyObjectType]
  by_cases hc : c = a
  · subst hc
    simp [ha, IsKindOf]
  · simp [hc, IsKindOf]

/-- Adding an item to a list adds it and nothing else. -/
lemma mem_withItem {α : Type} [DecidableEq α] {as : List α} {x y : α} :
    y ∈ withItem as x ↔ y ∈ as ∨ y = x := by
  unfold withItem
  split
  · next hx => exact ⟨.inl, fun h => h.elim id fun h => h ▸ hx⟩
  · exact List.mem_append.trans (or_congr_right List.mem_singleton)

/-- A link of two types is recorded with the upper one. -/
lemma mem_subtypes_linkSubtype (hb : b ∈ v.objectTypeIds) :
    c ∈ ((v.linkSubtype a b).objectType d).subtypes ↔
      c ∈ (v.objectType d).subtypes ∨ c = a ∧ d = b := by
  have hlower : ∀ t, ((v.modifyObjectType a fun t =>
      { t with supertypes := t.supertypes ++ [b] }).objectType t).subtypes =
        (v.objectType t).subtypes :=
    objectType_modifyObjectType_apply ObjectType.subtypes a fun _ => rfl
  rw [linkSubtype, objectType_modifyObjectType, objectTypeIds_modifyObjectType]
  by_cases hd : d = b
  · subst hd
    rw [if_pos ⟨rfl, hb⟩]
    simp only [mem_withItem, hlower, and_true]
  · rw [if_neg fun h => hd h.1, hlower]
    simp [hd]

/-- The fact type of two types says that one is a kind of the other. -/
lemma statesKind_withSubtype {f : FactTypeId} :
    (v.withSubtype a b).StatesKind f c d ↔
      v.StatesKind f c d ∨ f = ⟨v.factTypes.size⟩ ∧ c = a ∧ d = b := by
  rw [StatesKind, StatesKind, mem_factTypeIds_withSubtype, factType_withSubtype_kind]
  by_cases hf : f = ⟨v.factTypes.size⟩
  · have hnew : f ∉ v.factTypeIds := hf ▸ size_not_mem_factTypeIds
    rw [if_pos hf]
    simp [hf, eq_comm]
  · simp [hf]

/-- A type that may become a kind of another one does so in all records. -/
lemma Inherits.withSubtype (h : v.Inherits) (ha : a ∈ v.objectTypeIds) (hb : b ∈ v.objectTypeIds)
    (hnone : v.typeInheritance? a b = none) (hcircular : ¬(a = b ∨ v.isSubtypeOf b a)) :
    (v.withSubtype a b).Inherits := by
  have hkind : ∀ c d, (v.withSubtype a b).IsKindOf c d ↔ v.IsKindOf c d ∨ c = a ∧ d = b :=
    fun c d => by
      rw [IsKindOf, v.objectType_withSubtype_apply a b ObjectType.supertypes fun _ _ => rfl]
      exact v.isKindOf_linkSubtype ha
  have hsub : ∀ c d, c ∈ ((v.withSubtype a b).objectType d).subtypes ↔
      c ∈ (v.objectType d).subtypes ∨ c = a ∧ d = b := fun c d => by
    rw [v.objectType_withSubtype_apply a b ObjectType.subtypes fun _ _ => rfl]
    exact v.mem_subtypes_linkSubtype hb
  have hnew : ∀ {f c d}, v.StatesKind f c d → ¬(c = a ∧ d = b) := fun {f c d} hf heq =>
    typeInheritance?_eq_none_iff.1 hnone ⟨f, heq.1 ▸ heq.2 ▸ hf⟩
  constructor
  · intro c d hcd
    rw [objectTypeIds_withSubtype]
    rcases (hkind c d).1 hcd with hcd | ⟨rfl, rfl⟩
    · exact h.mem hcd
    · exact ⟨ha, hb⟩
  · intro c d
    rw [hsub, hkind, h.mem_subtypes_iff]
  · intro c d
    rw [hkind, h.stated_iff]
    simp only [statesKind_withSubtype, exists_or, exists_eq_left]
  · intro f g c d hf hg
    rcases v.statesKind_withSubtype.1 hf with hf | ⟨hf, hab⟩ <;>
      rcases v.statesKind_withSubtype.1 hg with hg | ⟨hg, hab'⟩
    · exact h.stated_once hf hg
    · exact absurd hab' (hnew hf)
    · exact absurd hab (hnew hg)
    · rw [hf, hg]
  · have hor : (v.withSubtype a b).IsKindOf = fun c d => v.IsKindOf c d ∨ c = a ∧ d = b := by
      funext c d
      exact propext (hkind c d)
    rw [hor]
    refine acyclic_or_edge h.acyclic fun hback => hcircular (.inr ?_)
    exact h.isSubtypeOf_iff.2 hback

/-- A new object type is a kind of none. -/
lemma Inherits.pushObjectType (h : v.Inherits) (name : String) (kind : ObjectTypeKind)
    (isForward : Bool) : (v.pushObjectType name kind isForward).Inherits := by
  have hfields : ∀ {α : Type} (field : ObjectType → List α), field default = [] →
      field { id := ⟨v.objectTypes.size⟩, name, kind, isForward } = [] → ∀ t,
      field ((v.pushObjectType name kind isForward).objectType t) = field (v.objectType t) :=
    fun field hdefault hfield t => by
      rw [objectType_pushObjectType]
      split
      · next ht =>
        rw [hfield, ht, objectType_of_not_mem size_not_mem_objectTypeIds, hdefault]
      · rfl
  refine h.of_same (fun t ht => mem_objectTypeIds_pushObjectType.2 (.inr ht)) ?_ ?_
    fun _ _ _ => .rfl
  · exact hfields ObjectType.supertypes rfl rfl
  · exact hfields ObjectType.subtypes rfl rfl

/-- A fact type of a declaration says nothing of kinds. -/
lemma Inherits.withFactType (h : v.Inherits) (players : List (ObjectTypeId × Option String)) :
    (v.withFactType players).Inherits := by
  refine h.of_added (fun t ht => ?_) (fun t => ?_) (fun t => ?_) (fun f => ?_) .plain (fun f => ?_)
    fun a b => FactTypeKind.noConfusion
  · rwa [objectTypeIds_withFactType]
  · exact v.objectType_withFactType_apply players ObjectType.supertypes (fun _ _ => rfl) t
  · exact v.objectType_withFactType_apply players ObjectType.subtypes (fun _ _ => rfl) t
  · rw [factTypeIds_withFactType, mem_factTypeIds_pushFactType]
  · rw [v.factType_withFactType_apply players FactType.kind fun _ _ => rfl, factType_pushFactType]
    exact apply_ite FactType.kind ..

/-- Neither does a fact type about something other than kinds that the vocabulary adds itself. -/
lemma Inherits.withBinary (h : v.Inherits) {kind : FactTypeKind}
    (hother : ∀ a b, kind ≠ .typeInheritance a b) (first second : ObjectTypeId) (text : String)
    (links : List ((ObjectTypeId × RoleId) × FactTypeId))
    (comparisons : List ((String × ObjectTypeId × ObjectTypeId) × FactTypeId)) :
    Inherits { v.withBinary kind first second text with links, comparisons } := by
  refine h.of_added (fun t ht => ?_) (fun t => ?_) (fun t => ?_) (fun f => ?_) kind (fun f => ?_)
    hother
  · exact (v.objectTypeIds_withBinary kind first second text).symm ▸ ht
  · exact objectType_withBinary_apply ObjectType.supertypes (fun _ _ => rfl) v kind first second
      text t
  · exact objectType_withBinary_apply ObjectType.subtypes (fun _ _ => rfl) v kind first second
      text t
  · exact v.mem_factTypeIds_withBinary kind first second text f
  · change ((v.withBinary kind first second text).factType f).kind = _
    rw [factType_withBinary]
    exact apply_ite FactType.kind ..

end Changes

/-- Every change that a declaration makes keeps the records in agreement. -/
theorem inherits_of_change (h : Change v w) (hv : v.Inherits) : w.Inherits := by
  cases h with
  | objectType kind isForward _ => exact hv.pushObjectType v _ kind isForward
  | @declared t isForward _ =>
    refine hv.of_same (fun u hu => ?_) (fun u => ?_) (fun u => ?_) fun _ _ _ => .rfl
    · rwa [objectTypeIds_modifyObjectType]
    · exact objectType_modifyObjectType_apply ObjectType.supertypes t (fun _ => by rfl) u
    · exact objectType_modifyObjectType_apply ObjectType.subtypes t (fun _ => by rfl) u
  | subtype ha hb hnone hcircular => exact hv.withSubtype v ha hb hnone hcircular
  | @objectification e f _ _ =>
    refine hv.of_same (fun t ht => ?_) (fun t => ?_) (fun t => ?_) fun g a b => ?_
    · rwa [objectTypeIds_linkObjectification]
    · exact objectType_linkObjectification_apply ObjectType.supertypes (fun _ _ _ => rfl) e f t
    · exact objectType_linkObjectification_apply ObjectType.subtypes (fun _ _ _ => rfl) e f t
    · rw [StatesKind, StatesKind, factTypeIds_linkObjectification,
        factType_linkObjectification_apply FactType.kind (fun _ _ => rfl) e f g]
  | factType players => exact hv.withFactType v players
  | roleSequence refs => exact hv.of_kind_eq rfl rfl fun _ => rfl
  | @reading f s text isNegative _ =>
    exact hv.of_kind_eq rfl (factTypeIds_pushReading ..) fun g =>
      factType_pushReading_apply FactType.kind (fun _ _ => rfl) f s text isNegative g
  | roleName name _ => exact hv.of_kind_eq rfl rfl fun _ => rfl
  | derivation f q =>
    exact hv.of_kind_eq rfl (factTypeIds_modifyFactType ..) fun _ =>
      factType_modifyFactType_apply FactType.kind f (fun _ => by rfl) _
  | query g => exact hv.of_kind_eq rfl rfl fun _ => rfl
  | link _ => exact hv.withBinary v (fun _ _ => FactTypeKind.noConfusion) ..
  | comparison _ => exact hv.withBinary v (fun _ _ => FactTypeKind.noConfusion) ..
  | presenceConstraint s min max enforcement => exact hv.of_kind_eq rfl rfl fun _ => rfl
  | restriction _ _ => exact hv.of_kind_eq rfl rfl fun _ => rfl
  | ringConstraint role otherRole kinds => exact hv.of_kind_eq rfl rfl fun _ => rfl

/-! ## What the records mean -/

/-- No type is a kind of itself through others; each direct kind is recorded with both types and by
exactly one fact type; the searches upwards and downwards come to their ends and find, each once
and the type itself first, all types above and below; and exactly what would close a cycle is
refused as a further subtype, and leaves the vocabulary as it is. -/
structure Hierarchical (v : Vocabulary) : Prop where
  acyclic : ∀ a, ¬TransGen v.IsKindOf a a
  indexed : ∀ a b, v.IsKindOf a b ↔ a ∈ (v.objectType b).subtypes
  stated : ∀ a b, v.IsKindOf a b ↔ ∃! f, v.StatesKind f a b
  above : ∀ a, (v.supertypes a).head? = some a ∧ (v.supertypes a).Nodup ∧
    ∀ b, b ∈ v.supertypes a ↔ ReflTransGen v.IsKindOf a b
  below : ∀ a, (v.subtypes a).head? = some a ∧ (v.subtypes a).Nodup ∧
    ∀ b, b ∈ v.subtypes a ↔ ReflTransGen v.IsKindOf b a
  ends_above : ∀ a rounds, v.objectTypes.size ≤ rounds →
    Graph.breadthFirst (fun t => (v.objectType t).supertypes) rounds [a] [a] = v.supertypes a
  ends_below : ∀ a rounds, v.objectTypes.size ≤ rounds →
    Graph.breadthFirst (fun t => (v.objectType t).subtypes) rounds [a] [a] = v.subtypes a
  above_iff_below : ∀ a b, b ∈ v.supertypes a ↔ a ∈ v.subtypes b
  subtype : ∀ a b, (¬∃ f, v.StatesKind f a b) → (addSubtype a b).perform v =
    if a = b ∨ b ∈ v.subtypes a then (.error (.circularSubtype (v.nameOf a) (v.nameOf b)), v)
    else (.ok ⟨v.factTypes.size⟩, v.withSubtype a b)

/-- Two records that agree and have no cycle determine the searches and what may be added. -/
theorem Inherits.hierarchical (h : v.Inherits) : v.Hierarchical where
  acyclic := h.acyclic
  indexed _ _ := h.mem_subtypes_iff.symm
  stated a b := by
    rw [h.stated_iff]
    exact ⟨fun hs => hs.elim fun f hf => ⟨f, hf, fun g hg => h.stated_once hg hf⟩,
      ExistsUnique.exists⟩
  above a := ⟨Graph.head?_reachable h.joins_supertypes (by simp [objectTypeIds]) a,
    Graph.nodup_reachable h.joins_supertypes (by simp [objectTypeIds]) a,
    fun _ => h.mem_supertypes_iff⟩
  below a := ⟨Graph.head?_reachable h.joins_subtypes (by simp [objectTypeIds]) a,
    Graph.nodup_reachable h.joins_subtypes (by simp [objectTypeIds]) a,
    fun _ => h.mem_subtypes_iff_reflTransGen⟩
  ends_above a _ hrounds :=
    Graph.breadthFirst_eq_reachable h.joins_supertypes (by simp [objectTypeIds]) a hrounds
  ends_below a _ hrounds :=
    Graph.breadthFirst_eq_reachable h.joins_subtypes (by simp [objectTypeIds]) a hrounds
  above_iff_below _ _ := h.mem_supertypes_iff.trans h.mem_subtypes_iff_reflTransGen.symm
  subtype a b hnew := by
    have hnone := typeInheritance?_eq_none_iff.2 hnew
    have hbelow : b ∈ v.subtypes a ↔ v.isSubtypeOf b a :=
      h.mem_subtypes_iff_reflTransGen.trans h.isSubtypeOf_iff.symm
    simp only [hbelow]
    split
    · next hcircular =>
      unfold addSubtype
      rw [perform_get_bind, hnone]
      dsimp only
      rw [if_pos hcircular]
      rfl
    · next hcircular => exact perform_addSubtype hnone hcircular

end FactModel.Vocabulary
