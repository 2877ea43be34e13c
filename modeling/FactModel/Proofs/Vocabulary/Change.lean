import Mathlib.Data.List.Induction
import Mathlib.Logic.Relation
import FactModel.Proofs.Vocabulary.Implied
set_option autoImplicit false

/-!
# The changes that declarations make

A declaration changes the vocabulary in a few ways only, each under a condition of its own. What
every one of these changes keeps, every declaration keeps.

## Main definitions

* `FactModel.Vocabulary.withSubtype`, `FactModel.Vocabulary.withFactType` — a vocabulary with one
  type made a kind of another, or with a fact type and its roles.
* `FactModel.Vocabulary.Change` — one change of a vocabulary.
* `FactModel.Vocabulary.Evolves` — any number of changes in sequence.

## Main results

* `FactModel.Vocabulary.perform_addSubtype` — what making one type a kind of another comes to.
* `FactModel.Vocabulary.evolves_addSubtype` and its companions — each edit is a sequence of changes.
-/

namespace FactModel.Vocabulary

open Attempt

variable {v w : Vocabulary}

/-! ## Making one type a kind of another -/

/-- The vocabulary with positive readings of a fact type over one role sequence. -/
def withReadings (v : Vocabulary) (f : FactTypeId) (s : RoleSequenceId) (texts : List String) :
    Vocabulary :=
  texts.foldl (fun w text => w.pushReading f s text false) v

/-- The vocabulary with one type made a kind of another, and with the fact type that says so. -/
def withSubtype (v : Vocabulary) (subtype supertype : ObjectTypeId) : Vocabulary :=
  let f : FactTypeId := ⟨v.factTypes.size⟩
  (((((v.linkSubtype subtype supertype).pushFactType
    (.typeInheritance subtype supertype)).pushRole f subtype none).pushRole f supertype
      none).pushRoleSequence
      [{ role := ⟨v.roles.size⟩ }, { role := ⟨v.roles.size + 1⟩ }]).withReadings f
        ⟨v.roleSequences.size⟩ inheritanceReadings

/-- Among the readings of the fact type that says so, the others come after the first one. -/
lemma withSubtype_eq (v : Vocabulary) (a b : ObjectTypeId) : v.withSubtype a b =
    ((v.linkSubtype a b).withBinary (.typeInheritance a b) a b
      "\x7b0\x7d is a kind of \x7b1\x7d").withReadings ⟨v.factTypes.size⟩ ⟨v.roleSequences.size⟩
        inheritanceReadings.tail := by
  rw [withSubtype, inheritanceReadings, withReadings, List.foldl_cons]
  rfl

/-- Readings of different texts are all added, if the fact type has none of these texts. -/
lemma perform_addReadings (f : FactTypeId) (s : RoleSequenceId) {texts : List String}
    (hnodup : texts.Nodup) (hnew : ∀ r ∈ (v.factType f).readings, (v.reading r).text ∉ texts) :
    (texts.forM fun text => do
      let _ ← addReading f s text false
      pure () : Edit PUnit).perform v = (.ok ⟨⟩, v.withReadings f s texts) := by
  induction texts generalizing v with
  | nil => rfl
  | cons text texts ih =>
    have hnone : v.sameReading? f s text false = none := by
      rw [sameReading?, Option.map_eq_none_iff, List.find?_eq_none]
      intro r hr
      obtain ⟨i, hi, rfl⟩ := List.mem_map.1 hr
      have hne : (v.reading i).text ≠ text := fun h => hnew i hi (h ▸ List.mem_cons_self)
      simp [hne]
    have hrest := ih (v := v.pushReading f s text false) (List.nodup_cons.1 hnodup).2 ?_
    · rw [List.forM, perform_bind, perform_bind, addReading, perform_get_bind, hnone]
      exact hrest
    · intro r hr
      rw [reading_pushReading]
      split
      · exact (List.nodup_cons.1 hnodup).1
      · next hr' =>
        rw [factType_pushReading] at hr
        split at hr
        · next hf =>
          rcases List.mem_append.1 hr with hr | hr
          · exact fun h => hnew r (hf.1 ▸ hr) (List.mem_cons_of_mem _ h)
          · exact absurd (List.mem_singleton.1 hr) hr'
        · exact fun h => hnew r hr (List.mem_cons_of_mem _ h)

/-- A type that may become a kind of another one becomes it. -/
lemma perform_addSubtype {a b : ObjectTypeId} (hnone : v.typeInheritance? a b = none)
    (hcircular : ¬(a = b ∨ v.isSubtypeOf b a)) :
    (addSubtype a b).perform v = (.ok ⟨v.factTypes.size⟩, v.withSubtype a b) := by
  let f : FactTypeId := ⟨v.factTypes.size⟩
  let v₁ := ((v.linkSubtype a b).pushFactType (.typeInheritance a b)).pushRole f a none
  let v₂ := (v₁.pushRole f b none).pushRoleSequence
    [{ role := ⟨v.roles.size⟩ }, { role := ⟨v.roles.size + 1⟩ }]
  have hsize : v₁.roles.size = v.roles.size + 1 := by
    simp [v₁, pushRole, modifyFactType, modifyObjectType, pushFactType, linkSubtype]
  have hnew : (v₂.factType f).readings = [] := by
    rw [show v₂ = (v₁.pushRole f b none).pushRoleSequence _ from rfl, factType_pushRoleSequence,
      factType_pushRole_apply FactType.readings fun _ _ => rfl,
      factType_pushRole_apply FactType.readings fun _ _ => rfl, factType_pushFactType]
    exact congrArg FactType.readings (if_pos rfl)
  have hreadings := perform_addReadings f ⟨v.roleSequences.size⟩
    (show inheritanceReadings.Nodup by decide) (v := v₂) fun r hr => by
      rw [hnew] at hr
      exact absurd hr List.not_mem_nil
  have hsequence : (addRoleSequence [{ role := ⟨v.roles.size⟩ },
      { role := ⟨v₁.roles.size⟩ }]).perform (v₁.pushRole f b none) =
        (.ok ⟨v.roleSequences.size⟩, v₂) := by
    rw [hsize, addRoleSequence, perform_extend]
    rfl
  unfold addSubtype
  rw [perform_get_bind, hnone]
  dsimp only
  rw [if_neg hcircular]
  refine perform_bind_eq_ok.2 ⟨⟨⟩, _, rfl, perform_bind_eq_ok.2 ⟨f, _, rfl, ?_⟩⟩
  refine perform_bind_eq_ok.2 ⟨⟨v.roles.size⟩, v₁, rfl, ?_⟩
  refine perform_bind_eq_ok.2 ⟨⟨v₁.roles.size⟩, _, rfl, ?_⟩
  exact perform_bind_eq_ok.2 ⟨_, v₂, hsequence, perform_bind_eq_ok.2 ⟨⟨⟩, _, hreadings, rfl⟩⟩

section WithSubtype

variable (v) (a b : ObjectTypeId)

/-- Readings are added at the end. -/
lemma grows_withReadings (f : FactTypeId) (s : RoleSequenceId) (texts : List String) :
    v.Grows (v.withReadings f s texts) :=
  List.foldlRecOn (motive := fun w => v.Grows w) texts _ (.refl v)
    fun w hw text _ => hw.trans (w.grows_pushReading f s text false)

/-- Readings leave alone everything of fact types but their readings. -/
lemma factType_withReadings_apply {α : Type} (field : FactType → α)
    (h : ∀ f readings, field { f with readings } = field f) (f : FactTypeId) (s : RoleSequenceId)
    (texts : List String) (g : FactTypeId) :
    field ((v.withReadings f s texts).factType g) = field (v.factType g) :=
  List.foldlRecOn (motive := fun w : Vocabulary => field (w.factType g) = field (v.factType g))
    texts _ rfl fun _ hw text _ => (factType_pushReading_apply field h f s text false g).trans hw

/-- Readings add no fact type. -/
lemma factTypeIds_withReadings (f : FactTypeId) (s : RoleSequenceId) (texts : List String) :
    (v.withReadings f s texts).factTypeIds = v.factTypeIds :=
  List.foldlRecOn (motive := fun w : Vocabulary => w.factTypeIds = v.factTypeIds) texts _ rfl
    fun _ hw text _ => (factTypeIds_pushReading f s text false).trans hw

/-- Readings leave the object types as they are. -/
lemma objectTypes_withReadings (f : FactTypeId) (s : RoleSequenceId) (texts : List String) :
    (v.withReadings f s texts).objectTypes = v.objectTypes :=
  List.foldlRecOn (motive := fun w : Vocabulary => w.objectTypes = v.objectTypes) texts _ rfl
    fun _ hw _ _ => hw

/-- Readings leave each object type as it is. -/
lemma objectType_withReadings (f : FactTypeId) (s : RoleSequenceId) (texts : List String)
    (t : ObjectTypeId) : (v.withReadings f s texts).objectType t = v.objectType t := by
  rw [objectType, objectTypes_withReadings, objectType]

/-- Readings add no object type. -/
lemma objectTypeIds_withReadings (f : FactTypeId) (s : RoleSequenceId) (texts : List String) :
    (v.withReadings f s texts).objectTypeIds = v.objectTypeIds := by
  rw [objectTypeIds, objectTypes_withReadings, objectTypeIds]

/-- Making a type a kind of another one adds to what was there. -/
lemma grows_withSubtype : v.Grows (v.withSubtype a b) :=
  (((((v.grows_linkSubtype a b).trans (grows_pushFactType ..)).trans (grows_pushRole ..)).trans
    (grows_pushRole ..)).trans (grows_pushRoleSequence ..)).trans (grows_withReadings ..)

/-- What fact types are about, after one type has been made a kind of another. -/
lemma factType_withSubtype_kind (f : FactTypeId) :
    ((v.withSubtype a b).factType f).kind =
      if f = ⟨v.factTypes.size⟩ then .typeInheritance a b else (v.factType f).kind := by
  rw [withSubtype, factType_withReadings_apply _ FactType.kind fun _ _ => rfl,
    factType_pushRoleSequence, factType_pushRole_apply FactType.kind fun _ _ => rfl,
    factType_pushRole_apply FactType.kind fun _ _ => rfl, factType_pushFactType]
  exact apply_ite FactType.kind ..

/-- Fact types keep their roles while one type is made a kind of another. -/
lemma factType_withSubtype_roles {f : FactTypeId} (hf : f ∈ v.factTypeIds) :
    ((v.withSubtype a b).factType f).roles = (v.factType f).roles := by
  have hne : f ≠ ⟨v.factTypes.size⟩ := fun h => size_not_mem_factTypeIds (h ▸ hf)
  rw [withSubtype, factType_withReadings_apply _ FactType.roles fun _ _ => rfl,
    factType_pushRoleSequence, factType_pushRole, if_neg fun h => hne h.1, factType_pushRole,
    if_neg fun h => hne h.1, factType_pushFactType]
  exact congrArg FactType.roles (if_neg hne)

/-- Apart from the roles that types play, making one a kind of another links the two. -/
lemma objectType_withSubtype_apply {α : Type} (field : ObjectType → α)
    (h : ∀ t playedRoles, field { t with playedRoles } = field t) (t : ObjectTypeId) :
    field ((v.withSubtype a b).objectType t) = field ((v.linkSubtype a b).objectType t) := by
  rw [withSubtype, objectType_withReadings, objectType_pushRoleSequence,
    objectType_pushRole_apply field h, objectType_pushRole_apply field h, objectType_pushFactType]

/-- Making a type a kind of another one adds one fact type. -/
lemma mem_factTypeIds_withSubtype {f : FactTypeId} :
    f ∈ (v.withSubtype a b).factTypeIds ↔ f = ⟨v.factTypes.size⟩ ∨ f ∈ v.factTypeIds := by
  rw [withSubtype, factTypeIds_withReadings, factTypeIds_pushRoleSequence, factTypeIds_pushRole,
    factTypeIds_pushRole, mem_factTypeIds_pushFactType]
  rfl

/-- Making a type a kind of another one adds no object type. -/
lemma objectTypeIds_withSubtype : (v.withSubtype a b).objectTypeIds = v.objectTypeIds := by
  rw [withSubtype, objectTypeIds_withReadings, objectTypeIds_pushRoleSequence,
    objectTypeIds_pushRole, objectTypeIds_pushRole, objectTypeIds_pushFactType,
    objectTypeIds_linkSubtype]

end WithSubtype

/-! ## Changes -/

/-- The vocabulary with a fact type that has a role for each of some players. -/
def withFactType (v : Vocabulary) (players : List (ObjectTypeId × Option String)) : Vocabulary :=
  players.foldl (fun w p => w.pushRole ⟨v.factTypes.size⟩ p.1 p.2) (v.pushFactType .plain)

section WithFactType

variable (v) (players : List (ObjectTypeId × Option String))

/-- Roles leave alone everything of fact types but their roles. -/
lemma factType_withFactType_apply {α : Type} (field : FactType → α)
    (h : ∀ f roles, field { f with roles } = field f) (g : FactTypeId) :
    field ((v.withFactType players).factType g) = field ((v.pushFactType .plain).factType g) :=
  List.foldlRecOn
    (motive := fun w : Vocabulary =>
      field (w.factType g) = field ((v.pushFactType .plain).factType g))
    players _ rfl fun _ hw _ _ => (factType_pushRole_apply field h ..).trans hw

/-- Roles leave alone everything of object types but the roles they play. -/
lemma objectType_withFactType_apply {α : Type} (field : ObjectType → α)
    (h : ∀ t playedRoles, field { t with playedRoles } = field t) (t : ObjectTypeId) :
    field ((v.withFactType players).objectType t) = field (v.objectType t) :=
  List.foldlRecOn
    (motive := fun w : Vocabulary => field (w.objectType t) = field (v.objectType t))
    players _ rfl fun _ hw _ _ => (objectType_pushRole_apply field h ..).trans hw

/-- A fact type with its roles is one more fact type. -/
lemma factTypeIds_withFactType :
    (v.withFactType players).factTypeIds = (v.pushFactType .plain).factTypeIds :=
  List.foldlRecOn
    (motive := fun w : Vocabulary => w.factTypeIds = (v.pushFactType .plain).factTypeIds)
    players _ rfl fun _ hw _ _ => (factTypeIds_pushRole ..).trans hw

/-- A fact type with its roles adds no object type. -/
lemma objectTypeIds_withFactType : (v.withFactType players).objectTypeIds = v.objectTypeIds :=
  List.foldlRecOn (motive := fun w : Vocabulary => w.objectTypeIds = v.objectTypeIds)
    players _ rfl fun _ hw _ _ => (objectTypeIds_pushRole ..).trans hw

/-- A fact type with its roles has no reading yet. -/
lemma readings_withFactType : (v.withFactType players).readings = v.readings :=
  List.foldlRecOn (motive := fun w : Vocabulary => w.readings = v.readings)
    players _ rfl fun _ hw _ _ => hw

/-- The new fact type has a role for each of the players. -/
lemma arity_withFactType :
    ((v.withFactType players).factType ⟨v.factTypes.size⟩).roles.length = players.length := by
  induction players using List.reverseRecOn with
  | nil =>
    change ((v.pushFactType .plain).factType ⟨v.factTypes.size⟩).roles.length = 0
    rw [factType_pushFactType, if_pos rfl]
    rfl
  | append_singleton players p ih =>
    have hlast : v.withFactType (players ++ [p]) =
        (v.withFactType players).pushRole ⟨v.factTypes.size⟩ p.1 p.2 := by
      rw [withFactType, List.foldl_append]
      rfl
    have hmem : (⟨v.factTypes.size⟩ : FactTypeId) ∈ (v.withFactType players).factTypeIds := by
      rw [factTypeIds_withFactType, mem_factTypeIds_pushFactType]
      exact .inl rfl
    rw [hlast, factType_pushRole, if_pos ⟨rfl, hmem⟩, List.length_append, ih, List.length_append]
    rfl

end WithFactType

/-- One change of a vocabulary. The conditions are those under which it is made. -/
inductive Change : Vocabulary → Vocabulary → Prop
  | objectType {v : Vocabulary} {name : String} (kind : ObjectTypeKind) (isForward : Bool) :
      v.findObjectType? name = none → Change v (v.pushObjectType name kind isForward)
  | declared {v : Vocabulary} {t : ObjectTypeId} (isForward : Bool) :
      (v.objectType t).isForward → Change v (v.modifyObjectType t ({ · with isForward }))
  | subtype {v : Vocabulary} {a b : ObjectTypeId} : a ∈ v.objectTypeIds → b ∈ v.objectTypeIds →
      v.typeInheritance? a b = none → ¬(a = b ∨ v.isSubtypeOf b a) → Change v (v.withSubtype a b)
  | objectification {v : Vocabulary} {e : ObjectTypeId} {f : FactTypeId} :
      ((v.objectType e).factType = none ∨ (v.objectType e).factType = some f) →
      ((v.factType f).entityType = none ∨ (v.factType f).entityType = some e) →
      Change v (v.linkObjectification e f)
  | factType {v : Vocabulary} (players : List (ObjectTypeId × Option String)) :
      Change v (v.withFactType players)
  | roleSequence {v : Vocabulary} (refs : List RoleRef) : Change v (v.pushRoleSequence refs)
  | reading {v : Vocabulary} {f : FactTypeId} {s : RoleSequenceId} {text : String}
      {isNegative : Bool} : v.sameReading? f s text isNegative = none →
      Change v (v.pushReading f s text isNegative)
  | roleName {v : Vocabulary} {r : RoleId} (name : String) : (v.role r).name = none →
      Change v { v with roles := v.roles.modify r.index ({ · with name := some name }) }
  | derivation {v : Vocabulary} (f : FactTypeId) (query : QueryId) :
      Change v (v.modifyFactType f ({ · with derivation := some query }))
  | query {v : Vocabulary} (query : JoinGraph) :
      Change v { v with queries := v.queries.push query }
  | link {v : Vocabulary} {t : ObjectTypeId} {r : RoleId} : v.links.lookup (t, r) = none →
      Change v { v.withBinary (.link t r) t (v.playerOf r) "\x7b0\x7d involves \x7b1\x7d" with
        links := ((t, r), ⟨v.factTypes.size⟩) :: v.links }
  | comparison {v : Vocabulary} {operator : String} {a b : ObjectTypeId} :
      v.comparisons.lookup (operator, a, b) = none →
      Change v { v.withBinary (.comparison operator) a b
          ("\x7b0\x7d " ++ operator ++ " \x7b1\x7d") with
        comparisons := ((operator, a, b), ⟨v.factTypes.size⟩) :: v.comparisons }
  | presenceConstraint {v : Vocabulary} (s : RoleSequenceId) (min max : Option Nat)
      (enforcement : Option Enforcement) :
      Change v { v with
        presenceConstraints := v.presenceConstraints.push
          { id := ⟨v.presenceConstraints.size⟩, roleSequence := s, min, max
            isMandatory := isMandatory min, enforcement } }
  | restriction {v : Vocabulary} {c : PresenceConstraintId} {min max : Option Nat} :
      conflicting (v.presenceConstraint c).min min = false →
      conflicting (v.presenceConstraint c).max max = false →
      Change v { v with
        presenceConstraints := v.presenceConstraints.modify c.index fun constraint =>
          { constraint with
            min := constraint.min <|> min, max := constraint.max <|> max
            isMandatory := isMandatory (constraint.min <|> min) } }
  | ringConstraint {v : Vocabulary} (role otherRole : RoleId) (kinds : List RingKind) :
      Change v { v with
        ringConstraints := v.ringConstraints.push
          { id := ⟨v.ringConstraints.size⟩, role, otherRole, kinds } }

/-- Any number of changes in sequence. -/
def Evolves : Vocabulary → Vocabulary → Prop :=
  Relation.ReflTransGen Change

/-- A vocabulary that does not change evolves into itself. -/
lemma Evolves.refl (v : Vocabulary) : v.Evolves v :=
  Relation.ReflTransGen.refl

/-- One change is an evolution. -/
lemma Change.evolves (h : Change v w) : v.Evolves w :=
  .single h

instance : Trans Evolves Evolves Evolves :=
  ⟨Relation.ReflTransGen.trans⟩

/-- What every change keeps, changes in sequence keep. -/
lemma Evolves.of_change {R : Vocabulary → Vocabulary → Prop} (h : v.Evolves w) (hrefl : ∀ v, R v v)
    (htrans : ∀ {u v w}, R u v → R v w → R u w) (hchange : ∀ {v w}, Change v w → R v w) :
    R v w := by
  induction h with
  | refl => exact hrefl v
  | tail _ hstep ih => exact htrans ih (hchange hstep)

/-- What every change keeps of one vocabulary holds after changes in sequence. -/
lemma Evolves.preserves {P : Vocabulary → Prop} (h : v.Evolves w) (hv : P v)
    (hchange : ∀ {v w}, Change v w → P v → P w) : P w := by
  induction h with
  | refl => exact hv
  | tail _ hstep ih => exact hchange hstep ih

/-! ## Edits are sequences of changes -/

section Edits

variable (v)

/-- Declaring an object type is a change, or none if the type is there. -/
lemma evolves_declareObjectType (name : String) (kind : ObjectTypeKind) (isForward : Bool) :
    (declareObjectType name kind isForward).Leads Evolves v fun _ _ => True := by
  refine leads_get_bind ?_
  split
  · next hname => exact leads_extend (Change.objectType kind isForward hname).evolves trivial
  · next existing hname =>
    split
    · next hforward =>
      exact leads_set_bind (Change.declared isForward hforward.1).evolves
        (leads_pure (.refl _) trivial)
    · exact leads_throw (.refl v)

/-- So is mentioning a type that is not declared yet. -/
lemma evolves_addForwardEntityType (name : String) :
    (addForwardEntityType name).Leads Evolves v fun _ _ => True := by
  refine leads_get_bind ?_
  split
  · exact leads_pure (.refl v) trivial
  · exact evolves_declareObjectType v name .entity true

/-- Making a type a kind of another one is a change, and a refusal leaves the vocabulary as it
was. -/
lemma evolves_addSubtype {v : Vocabulary} {a b : ObjectTypeId} (ha : a ∈ v.objectTypeIds)
    (hb : b ∈ v.objectTypeIds) : (addSubtype a b).Leads Evolves v fun _ _ => True := by
  by_cases hnone : v.typeInheritance? a b = none
  · by_cases hcircular : a = b ∨ v.isSubtypeOf b a
    · unfold addSubtype
      refine leads_get_bind ?_
      rw [hnone]
      dsimp only
      rw [if_pos hcircular]
      exact leads_throw_bind (.refl v)
    · refine (ends_of_perform (perform_addSubtype hnone hcircular)).2 ⟨?_, trivial⟩
      exact (Change.subtype ha hb hnone hcircular).evolves
  · obtain ⟨f, hf⟩ := Option.ne_none_iff_exists'.1 hnone
    unfold addSubtype
    refine leads_get_bind ?_
    rw [hf]
    exact leads_pure (.refl v) trivial

/-- The type of an objectification is there or is added, and it objectifies nothing else. -/
lemma evolves_objectifyingType (name : String) (f : FactTypeId) :
    (objectifyingType name f).Leads Evolves v fun t w =>
      (w.objectType t).factType = none ∨ (w.objectType t).factType = some f := by
  refine leads_get_bind ?_
  split
  · next hname =>
    refine leads_get_bind ?_
    rw [hname]
    refine leads_extend (Change.objectType .entity false hname).evolves (.inl ?_)
    rw [objectType_pushObjectType, if_pos rfl]
  · dsimp only
    split
    · next hfree => exact leads_pure (.refl v) hfree.2
    · exact leads_throw (.refl v)

/-- Objectifying a fact type is a sequence of changes. -/
lemma evolves_objectify (name : String) (f : FactTypeId) :
    (objectify name f).Leads Evolves v fun _ _ => True := by
  refine Leads.bind (evolves_objectifyingType v name f) fun e w _ he => leads_get_bind ?_
  have hset : ((w.factType f).entityType = none ∨ (w.factType f).entityType = some e) →
      (do set (w.linkObjectification e f); pure e : Edit ObjectTypeId).Leads Evolves w
        fun _ _ => True := fun hfree =>
    leads_set_bind (Change.objectification he hfree).evolves (leads_pure (.refl _) trivial)
  dsimp only
  split
  · next other hother =>
    split
    · exact leads_throw_bind (.refl w)
    · next hsame => exact hset (.inr (by rw [hother, Decidable.not_not.1 hsame]))
  · next hnone => exact hset (.inl hnone)

/-- A role sequence is a change. -/
lemma evolves_addRoleSequence (refs : List RoleRef) :
    (addRoleSequence refs).Leads Evolves v fun _ _ => True :=
  leads_extend (Change.roleSequence refs).evolves trivial

/-- A reading is a change unless the fact type has one like it. -/
lemma evolves_addReading (f : FactTypeId) (s : RoleSequenceId) (text : String)
    (isNegative : Bool) : (addReading f s text isNegative).Leads Evolves v fun _ _ => True := by
  refine leads_get_bind ?_
  split
  · exact leads_throw (.refl v)
  · next hnone => exact leads_extend (Change.reading hnone).evolves trivial

/-- Naming a role is a change unless it has a name. -/
lemma evolves_nameRole (r : RoleId) (name : String) :
    (nameRole r name).Leads Evolves v fun _ _ => True := by
  refine leads_get_bind ?_
  split
  · next hnone => exact leads_set (Change.roleName name hnone).evolves trivial
  · split
    · exact leads_pure (.refl v) trivial
    · exact leads_throw (.refl v)

/-- Making a query the derivation of a fact type is a change. -/
lemma evolves_setDerivation (f : FactTypeId) (query : QueryId) :
    (setDerivation f query).Leads Evolves v fun _ _ => True :=
  leads_modify (Change.derivation f query).evolves trivial

/-- Storing a query is a change. -/
lemma evolves_addQuery (query : JoinGraph) : (addQuery query).Leads Evolves v fun _ _ => True :=
  leads_extend (Change.query query).evolves trivial

/-- A link is a change unless it is there. -/
lemma evolves_linkFactType (t : ObjectTypeId) (r : RoleId) :
    (linkFactType t r).Leads Evolves v fun _ _ => True := by
  refine leads_get_bind ?_
  split
  · exact leads_pure (.refl v) trivial
  · next hlookup =>
    refine ends_bind.2 ((ends_of_perform (perform_addBinary ..)).2 ?_)
    exact ends_bind.2 (ends_modify.2 ((ends_pure _).2 ⟨(Change.link hlookup).evolves, trivial⟩))

/-- So is a comparison. -/
lemma evolves_comparisonFactType (operator : String) (left right : ObjectTypeId) :
    (comparisonFactType operator left right).Leads Evolves v fun _ _ => True := by
  refine leads_get_bind ?_
  split
  · exact leads_pure (.refl v) trivial
  · next hlookup =>
    refine ends_bind.2 ((ends_of_perform (perform_addBinary ..)).2 ?_)
    exact ends_bind.2 (ends_modify.2 ((ends_pure _).2
      ⟨(Change.comparison hlookup).evolves, trivial⟩))

/-- A presence constraint is a change. -/
lemma evolves_addPresenceConstraint (s : RoleSequenceId) (min max : Option Nat)
    (enforcement : Option Enforcement) :
    (addPresenceConstraint s min max enforcement).Leads Evolves v fun _ _ => True :=
  leads_extend (Change.presenceConstraint s min max enforcement).evolves trivial

/-- Restricting a presence constraint is a change, or none if its bounds are spent. -/
lemma evolves_restrictPresenceConstraint (c : PresenceConstraintId) (min max : Option Nat) :
    (restrictPresenceConstraint c min max).Leads Evolves v fun _ _ => True := by
  refine leads_get_bind ?_
  dsimp only
  split
  · exact leads_throw_bind (.refl v)
  next hmax =>
  split
  · exact leads_throw_bind (.refl v)
  next hmin =>
  exact leads_set (Change.restriction (Bool.not_eq_true _ ▸ hmin)
    (Bool.not_eq_true _ ▸ hmax)).evolves trivial

/-- A ring constraint is a change. -/
lemma evolves_addRingConstraint (role otherRole : RoleId) (kinds : List RingKind) :
    (addRingConstraint role otherRole kinds).Leads Evolves v fun _ _ => True :=
  leads_extend (Change.ringConstraint role otherRole kinds).evolves trivial

end Edits

end FactModel.Vocabulary
