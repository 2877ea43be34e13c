import FactModel.Proofs.Matching.Onto
import FactModel.Proofs.Vocabulary.Additions
import FactModel.Vocabulary.Wording
set_option autoImplicit false

/-!
# Matching beside links and comparisons

The object types that take part in links and comparisons play roles in them, so that the search for
the fact types of a clause comes across them. None of them is tried, and the order in which all
others are tried stays.

## Main results

* `FactModel.Vocabulary.AddsImplied.filter_factTypesOf` — the search for fact types finds no others.
* `FactModel.Vocabulary.AddsImplied.matchesAs` — so a clause has the same ranking beside them.
-/

namespace FactModel

/-- Duplicates can be left out before or after others are. -/
lemma filter_eraseDups {α : Type} [DecidableEq α] (p : α → Bool) (as : List α) :
    as.eraseDups.filter p = (as.filter p).eraseDups := by
  match as with
  | [] => rfl
  | a :: as =>
    rw [List.eraseDups_cons, List.filter_cons, filter_eraseDups p, List.filter_cons]
    split
    · rw [List.eraseDups_cons, List.filter_filter, List.filter_filter]
      simp only [Bool.and_comm]
    · next hp =>
      rw [List.filter_filter]
      congr 1
      refine List.filter_congr fun b _ => ?_
      cases hb : p b with
      | false => rfl
      | true => simpa using fun heq : b = a => hp (heq ▸ hb)
termination_by as.length
decreasing_by exact Nat.lt_succ_of_le (List.length_filter_le ..)

namespace Vocabulary.AddsImplied

variable {v w : Vocabulary} (h : v.AddsImplied w)

include h

/-- Implied fact types change nothing about which types may stand for which. -/
lemma acceptable_eq : w.acceptable = v.acceptable := by
  funext exact t
  rw [acceptable, h.relatedTypes_eq, acceptable]

/-- The roles of a fact type keep their players. -/
lemma playerOf_eq_of_mem_roles (hv : v.WellFormed) {f : FactTypeId} {r : RoleId}
    (hr : r ∈ (v.factType f).roles) : w.playerOf r = v.playerOf r :=
  h.playerOf_eq (hv.mem_roles.1 hr).1

/-- Whether players can fill the roles of a fact type is told by what was there. -/
lemma isEligible_eq (hv : v.WellFormed) {f : FactTypeId} (hf : f ∈ v.factTypeIds) (exact : Bool)
    (players : List ObjectTypeId) :
    w.isEligible exact players f = v.isEligible exact players f := by
  rw [isEligible, h.factType_eq hf, h.acceptable_eq, isEligible]
  congr 2
  exact List.map_congr_left fun r hr => by rw [h.playerOf_eq_of_mem_roles hv hr]

/-- The search for fact types comes across links and comparisons, but they are not stated. -/
lemma filter_factTypesOf (hv : v.WellFormed) (exact : Bool) (players types : List ObjectTypeId) :
    (w.factTypesOf types).filter (w.isEligible exact players) =
      (v.factTypesOf types).filter (v.isEligible exact players) := by
  rw [factTypesOf, factTypesOf, filter_eraseDups, filter_eraseDups, List.map_flatMap,
    List.map_flatMap, List.filter_flatMap, List.filter_flatMap]
  congr 1
  refine List.flatMap_congr fun t _ => ?_
  obtain ⟨roles, hroles, hplayed⟩ := h.objectType_eq t
  have hnew : (roles.map fun r => (w.role r).factType).filter (w.isEligible exact players) =
    [] := by
    refine List.filter_eq_nil_iff.2 fun f hf => ?_
    obtain ⟨r, hr, rfl⟩ := List.mem_map.1 hf
    rw [isEligible, h.factType_new _ (h.role_new r (hroles r hr).1 (hroles r hr).2)]
    simp
  have hold : ∀ r ∈ v.rolesPlayedBy t, r ∈ v.roleIds := fun r hr => (hv.mem_rolesPlayedBy.1 hr).1
  rw [rolesPlayedBy, hplayed, List.map_append, List.filter_append, hnew, List.append_nil]
  change ((v.rolesPlayedBy t).map fun r => (w.role r).factType).filter _ = _
  rw [List.map_congr_left fun r hr => by rw [h.role_eq (hold r hr)]]
  refine List.filter_congr fun f hf => ?_
  obtain ⟨r, hr, rfl⟩ := List.mem_map.1 hf
  exact h.isEligible_eq hv (hv.role_factType_mem (hold r hr)) exact players

/-- Readings are worded as before. -/
lemma expandReading_eq (hv : v.WellFormed) {r : ReadingId} (hr : r ∈ v.readingIds) :
    w.expandReading r = v.expandReading r := by
  rw [expandReading, h.readingRefs_eq hv hr, h.reading_eq hr, expandReading]
  congr 1
  refine List.map_congr_left fun token _ => ?_
  unfold expandToken
  split
  · rfl
  · split
    · next ref href =>
      have hmem := hv.ref_mem_roles hr (List.mem_of_getElem? href)
      unfold describeRoleRef
      rw [h.nameOf_eq, h.playerOf_eq_of_mem_roles hv hmem]
    · rfl

/-- Rankings look up nothing that links and comparisons change. -/
theorem matchesAs (hv : v.WellFormed) : v.MatchesAs w where
  acceptable_eq := h.acceptable_eq
  commonSupertype?_eq := h.commonSupertype?_eq
  isSubtypeOf_eq := h.isSubtypeOf_eq
  filter_factTypesOf := h.filter_factTypesOf hv
  factType_eq _ hf := h.factType_eq hf
  playerOf_eq _ hr := h.playerOf_eq hr
  ordinal_eq _ hr := congrArg Role.ordinal (h.role_eq hr)
  reading_eq _ hr := h.reading_eq hr
  readingRefs_eq _ hr := h.readingRefs_eq hv hr

end Vocabulary.AddsImplied

end FactModel
