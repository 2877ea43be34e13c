import FactModel.Proofs.Matching.Implied
import FactModel.Proofs.Matching.Through
import FactModel.Proofs.Session.Evolution
set_option autoImplicit false

/-!
# Matching among types that are not declared yet

A declaration may use terms before these are declared. The object types that it adds for them are
kinds of no other types and play no roles, so they are not come across when a clause is ranked.

## Main results

* `FactModel.Vocabulary.Inherits.matchesAs_pushObjectType` — rankings look up nothing that a new
  object type changes.
* `FactModel.Compile.matchesOn_enter`, `FactModel.Compile.matchesAs_resolveFlat` — nor anything that
  entering clauses and resolving them changes.
-/

namespace FactModel

open Attempt

namespace Vocabulary

variable {u v w : Vocabulary}

/-- A vocabulary matches as it does. -/
lemma MatchesAs.refl (v : Vocabulary) : v.MatchesAs v where
  acceptable_eq := rfl
  commonSupertype?_eq := rfl
  isSubtypeOf_eq := rfl
  filter_factTypesOf _ _ _ := rfl
  factType_eq _ _ := rfl
  playerOf_eq _ _ := rfl
  ordinal_eq _ _ := rfl
  reading_eq _ _ := rfl
  readingRefs_eq _ _ := rfl

/-- What matches as before twice matches as at first. -/
lemma MatchesAs.trans (h : u.MatchesAs v) (hgrows : u.Grows v) (h' : v.MatchesAs w) :
    u.MatchesAs w where
  acceptable_eq := h'.acceptable_eq.trans h.acceptable_eq
  commonSupertype?_eq := h'.commonSupertype?_eq.trans h.commonSupertype?_eq
  isSubtypeOf_eq := h'.isSubtypeOf_eq.trans h.isSubtypeOf_eq
  filter_factTypesOf exact players types :=
    (h'.filter_factTypesOf exact players types).trans (h.filter_factTypesOf exact players types)
  factType_eq f hf := (h'.factType_eq f (hgrows.mem_factTypeIds hf)).trans (h.factType_eq f hf)
  playerOf_eq r hr := (h'.playerOf_eq r (hgrows.mem_roleIds hr)).trans (h.playerOf_eq r hr)
  ordinal_eq r hr := (h'.ordinal_eq r (hgrows.mem_roleIds hr)).trans (h.ordinal_eq r hr)
  reading_eq r hr := (h'.reading_eq r (hgrows.mem_readingIds hr)).trans (h.reading_eq r hr)
  readingRefs_eq r hr :=
    (h'.readingRefs_eq r (hgrows.mem_readingIds hr)).trans (h.readingRefs_eq r hr)

/-! ## A new object type -/

/-- What a new object type has none of is as it was for all types. -/
lemma objectType_pushObjectType_apply {α : Type} (field : ObjectType → List α)
    (hdefault : field default = []) {name : String} {kind : ObjectTypeKind} {isForward : Bool}
    (hnew : field { id := ⟨v.objectTypes.size⟩, name, kind, isForward } = []) (t : ObjectTypeId) :
    field ((v.pushObjectType name kind isForward).objectType t) = field (v.objectType t) := by
  rw [objectType_pushObjectType]
  split
  · next ht => rw [hnew, ht, objectType_of_not_mem size_not_mem_objectTypeIds, hdefault]
  · rfl

section PushObjectType

variable (name : String) (kind : ObjectTypeKind) (isForward : Bool)

/-- An object type without kinds gives no type another supertype. -/
lemma Inherits.supertypes_pushObjectType (h : v.Inherits) :
    (v.pushObjectType name kind isForward).supertypes = v.supertypes := by
  funext t
  have hnext : (fun s => ((v.pushObjectType name kind isForward).objectType s).supertypes) =
      fun s => (v.objectType s).supertypes :=
    funext (objectType_pushObjectType_apply ObjectType.supertypes rfl rfl)
  rw [supertypes, hnext]
  exact h.hierarchical.ends_above t
    _ (v.grows_pushObjectType name kind isForward).objectTypes.size_le

/-- An object type without kinds gives no type another subtype. -/
lemma Inherits.subtypes_pushObjectType (h : v.Inherits) :
    (v.pushObjectType name kind isForward).subtypes = v.subtypes := by
  funext t
  have hnext : (fun s => ((v.pushObjectType name kind isForward).objectType s).subtypes) =
      fun s => (v.objectType s).subtypes :=
    funext (objectType_pushObjectType_apply ObjectType.subtypes rfl rfl)
  rw [subtypes, hnext]
  exact h.hierarchical.ends_below t
    _ (v.grows_pushObjectType name kind isForward).objectTypes.size_le

/-- Rankings look up nothing that a new object type changes. -/
theorem Inherits.matchesAs_pushObjectType (h : v.Inherits) :
    v.MatchesAs (v.pushObjectType name kind isForward) := by
  have hsupertypes := h.supertypes_pushObjectType name kind isForward
  have hsubtypes := h.subtypes_pushObjectType name kind isForward
  have hacceptable : (v.pushObjectType name kind isForward).acceptable = v.acceptable := by
    funext exact t
    rw [acceptable, acceptable, relatedTypes, relatedTypes, hsupertypes, hsubtypes]
  have hplayed : (v.pushObjectType name kind isForward).rolesPlayedBy = v.rolesPlayedBy :=
    funext (objectType_pushObjectType_apply ObjectType.playedRoles rfl rfl)
  refine ⟨hacceptable, ?_, ?_, fun exact players types => ?_, fun _ _ => rfl, fun _ _ => rfl,
    fun _ _ => rfl, fun _ _ => rfl, fun _ _ => rfl⟩
  · funext a b
    rw [commonSupertype?, commonSupertype?, hsupertypes]
  · funext a b
    rw [isSubtypeOf, isSubtypeOf, hsupertypes]
  · have heligible : (v.pushObjectType name kind isForward).isEligible exact players =
        v.isEligible exact players := by
      funext f
      unfold isEligible
      rw [hacceptable]
      rfl
    rw [heligible, factTypesOf, factTypesOf, hplayed]
    rfl

end PushObjectType

end Vocabulary

open Vocabulary Context

namespace Compile

/-- Where the records of kinds agree, they still do, and rankings look up the same. -/
def MatchesOn (v w : Vocabulary) : Prop :=
  v.Inherits → w.Inherits ∧ v.Grows w ∧ v.MatchesAs w

/-- A vocabulary goes on matching as it does. -/
lemma MatchesOn.refl (v : Vocabulary) : MatchesOn v v :=
  fun h => ⟨h, .refl v, .refl v⟩

instance : Trans MatchesOn MatchesOn MatchesOn :=
  ⟨fun h h' hu => by
    obtain ⟨hv, hgrows, hmatches⟩ := h hu
    obtain ⟨hw, hgrows', hmatches'⟩ := h' hv
    exact ⟨hw, hgrows.trans hgrows', hmatches.trans hgrows hmatches'⟩⟩

/-- Using a term before its declaration adds an object type at most. -/
lemma matchesOn_addForwardEntityType (v : Vocabulary) (name : String) :
    (addForwardEntityType name).Leads MatchesOn v fun _ _ => True := by
  cases hname : v.findObjectType? name with
  | some existing =>
    refine leads_get_bind ?_
    rw [hname]
    exact leads_pure (.refl v) trivial
  | none =>
    refine (ends_of_perform (perform_addForwardEntityType hname)).2 ⟨fun h => ?_, trivial⟩
    exact ⟨h.pushObjectType v name .entity true, v.grows_pushObjectType name .entity true,
      h.matchesAs_pushObjectType name .entity true⟩

variable {x y : Context}

/-- Entering clauses changes nothing that rankings look up. -/
theorem matchesOn_enter {clauses : List Script.Clause} {cs : List Clause}
    (h : (enter clauses).perform x = (.ok cs, y)) : MatchesOn x.vocabulary y.vocabulary :=
  ((leads_enter_through MatchesOn.refl matchesOn_addForwardEntityType clauses x).of_perform h).1

/-- Resolving a clause changes nothing that rankings look up. -/
theorem matchesAs_resolveFlat (hx : x.vocabulary.WellFormed) {options : MatchOptions} {c : Clause}
    {r : Option Clause} (h : (resolveFlat options c).perform x = (.ok r, y)) :
    x.vocabulary.MatchesAs y.vocabulary :=
  ((leads_resolveFlat_through AddsOnlyImplied.refl leads_comparisonFactType_adds options c
    x).of_perform h).1.toAddsImplied.matchesAs hx

end Compile

end FactModel
