import FactModel.Proofs.Session.Growth
import FactModel.Proofs.Vocabulary.Hierarchy
import FactModel.Proofs.Vocabulary.Sparing
set_option autoImplicit false

/-!
# Well-posed constraints

A presence constraint is found again by the roles that it spans, and a ring constraint by its two
roles. Roles are compared as lists in any order, which is right for lists without repetitions.

## Main definitions

* `FactModel.Vocabulary.spannedRoles` — the roles that a presence constraint spans.
* `FactModel.Vocabulary.Constrained` — the constraints of a vocabulary are well posed, and none of
  them is there twice.
* `FactModel.Vocabulary.Bounds` — a presence constraint over certain roles has the bounds stated.

## Main results

* `FactModel.Vocabulary.sameRoles_iff` — lists without repetitions are of the same roles just in
  case the same roles are in them.
* `FactModel.Vocabulary.Constrained.retains` — constraints stay well posed while others are spared.
* `FactModel.Vocabulary.Constrained.withPresenceConstraint` and its companions — and so they do when
  one is added or restricted.
-/

namespace FactModel.Vocabulary

open Relation

variable {v w : Vocabulary} {f : FactTypeId} {rs ss : List RoleId}

/-! ## Finding constraints -/

/-- The roles that a presence constraint spans. -/
def spannedRoles (v : Vocabulary) (c : PresenceConstraintId) : List RoleId :=
  (v.roleSequence (v.presenceConstraint c).roleSequence).roles

/-- Two role lists without repetitions are of the same roles just in case each has those of the
other. -/
lemma sameRoles_iff (hrs : rs.Nodup) (hss : ss.Nodup) : sameRoles rs ss ↔ ∀ r, r ∈ rs ↔ r ∈ ss := by
  rw [sameRoles, Bool.and_eq_true, beq_iff_eq, List.all_eq_true]
  refine ⟨fun ⟨hlength, hall⟩ => ?_, fun h => ?_⟩
  · have hsub : rs ⊆ ss := fun r hr => List.contains_iff_mem.1 (hall r hr)
    have hperm := (hrs.subperm hsub).perm_of_length_le hlength.ge
    exact fun r => hperm.mem_iff
  · exact ⟨((List.perm_ext_iff_of_nodup hrs hss).2 h).length_eq,
      fun r hr => List.contains_iff_mem.2 ((h r).1 hr)⟩

/-- The constraint that is found over roles is there and spans as many, among them all of these. -/
lemma mem_of_presenceConstraintOver? (hv : v.WellFormed) {c : PresenceConstraintId}
    (h : v.presenceConstraintOver? rs = some c) :
    c ∈ v.presenceConstraintIds ∧ sameRoles (v.spannedRoles c) rs := by
  obtain ⟨constraint, hfind, rfl⟩ := Option.map_eq_some_iff.1 h
  obtain ⟨c, hc, rfl⟩ := exists_presenceConstraint_of_mem (List.mem_of_find?_eq_some hfind)
  have hsame := List.find?_some hfind
  rw [hv.presenceConstraint_id c hc]
  exact ⟨hc, hsame⟩

/-- No constraint is over roles over which none is found. -/
lemma not_sameRoles_of_presenceConstraintOver? (h : v.presenceConstraintOver? rs = none)
    {c : PresenceConstraintId} (hc : c ∈ v.presenceConstraintIds) :
    ¬sameRoles (v.spannedRoles c) rs := by
  rw [presenceConstraintOver?, Option.map_eq_none_iff, List.find?_eq_none] at h
  have hlt := (mem_presenceConstraintIds v).1 hc
  refine h (v.presenceConstraint c) ?_
  rw [presenceConstraint, Array.getElem?_eq_getElem hlt]
  exact Array.mem_toList_iff.2 (Array.getElem_mem hlt)

/-- No constraint is over two roles over which none is found. -/
lemma not_sameRoles_of_ringConstraintOver? {r s : RoleId} (h : v.ringConstraintOver? r s = none)
    {c : RingConstraintId} (hc : c ∈ v.ringConstraintIds) :
    ¬sameRoles [(v.ringConstraint c).role, (v.ringConstraint c).otherRole] [r, s] := by
  rw [ringConstraintOver?, Option.map_eq_none_iff, List.find?_eq_none] at h
  have hlt := (mem_ringConstraintIds v).1 hc
  refine h (v.ringConstraint c) ?_
  rw [ringConstraint, Array.getElem?_eq_getElem hlt]
  exact Array.mem_toList_iff.2 (Array.getElem_mem hlt)

/-! ## Well-posed constraints -/

/-- A type is above the players of two roles. -/
def Related (v : Vocabulary) (r s : RoleId) : Prop :=
  ∃ t, t ∈ v.supertypes (v.playerOf r) ∧ t ∈ v.supertypes (v.playerOf s)

/-- A presence constraint spans some roles of one fact type, each of them once, and is mandatory
just in case it has a minimum above zero. -/
structure PresencePosed (v : Vocabulary) (c : PresenceConstraintId) : Prop where
  ne_nil : v.spannedRoles c ≠ []
  nodup : (v.spannedRoles c).Nodup
  factType : ∃ f ∈ v.factTypeIds, ∀ r ∈ v.spannedRoles c, r ∈ (v.factType f).roles
  isMandatory_iff : (v.presenceConstraint c).isMandatory ↔
    ∃ n ∈ (v.presenceConstraint c).min, 1 ≤ n

/-- A ring constraint is over two roles of one fact type whose players share a supertype. -/
structure RingPosed (v : Vocabulary) (c : RingConstraintId) : Prop where
  ne : (v.ringConstraint c).role ≠ (v.ringConstraint c).otherRole
  factType : ∃ f ∈ v.factTypeIds, (v.ringConstraint c).role ∈ (v.factType f).roles ∧
    (v.ringConstraint c).otherRole ∈ (v.factType f).roles
  related : v.Related (v.ringConstraint c).role (v.ringConstraint c).otherRole

/-- The constraints of a vocabulary are well posed. No two presence constraints span the same set of
roles, and no two ring constraints are over the same two roles in either order. -/
structure Constrained (v : Vocabulary) : Prop where
  presence : ∀ c ∈ v.presenceConstraintIds, v.PresencePosed c
  presence_unique : ∀ c ∈ v.presenceConstraintIds, ∀ d ∈ v.presenceConstraintIds,
    (∀ r, r ∈ v.spannedRoles c ↔ r ∈ v.spannedRoles d) → c = d
  ring : ∀ c ∈ v.ringConstraintIds, v.RingPosed c
  ring_unique : ∀ c ∈ v.ringConstraintIds, ∀ d ∈ v.ringConstraintIds,
    (∀ r, r ∈ [(v.ringConstraint c).role, (v.ringConstraint c).otherRole] ↔
      r ∈ [(v.ringConstraint d).role, (v.ringConstraint d).otherRole]) → c = d

/-- A presence constraint over exactly these roles has the bounds of a quantifier where it states
them. -/
structure Bounds (v : Vocabulary) (rs : List RoleId) (q : Quantifier) (c : PresenceConstraintId) :
    Prop where
  mem : c ∈ v.presenceConstraintIds
  perm : (v.spannedRoles c).Perm rs
  min : ∀ n ∈ q.min, (v.presenceConstraint c).min = some n
  max : ∀ n ∈ q.max, (v.presenceConstraint c).max = some n

/-- An empty vocabulary has no constraints. -/
lemma constrained_empty (name : String) : Constrained { name } where
  presence _ hc := nomatch hc
  presence_unique _ hc := nomatch hc
  ring _ hc := nomatch hc
  ring_unique _ hc := nomatch hc

/-- A minimum makes a constraint mandatory if it is above zero. -/
lemma isMandatory_iff {min : Option Nat} : isMandatory min ↔ ∃ n ∈ min, 1 ≤ n := by
  cases min <;> simp [isMandatory, Nat.one_le_iff_ne_zero, Nat.pos_iff_ne_zero]

/-! ## Constraints that are there -/

section Grows

variable (hw : v.Grows w)

include hw

/-- A presence constraint stays. -/
lemma Grows.mem_presenceConstraintIds {c : PresenceConstraintId}
    (hc : c ∈ v.presenceConstraintIds) : c ∈ w.presenceConstraintIds := by
  rw [Vocabulary.mem_presenceConstraintIds] at hc ⊢
  exact Nat.lt_of_lt_of_le hc hw.presenceConstraints.size_le

/-- What it had it keeps. -/
lemma Grows.presenceConstraint {c : PresenceConstraintId} (hc : c ∈ v.presenceConstraintIds) :
    (v.presenceConstraint c).Grows (w.presenceConstraint c) :=
  hw.presenceConstraints.getD ((Vocabulary.mem_presenceConstraintIds v).1 hc) _

/-- A ring constraint is as it was. -/
lemma Grows.ringConstraint_eq {c : RingConstraintId} (hc : c ∈ v.ringConstraintIds) :
    w.ringConstraint c = v.ringConstraint c :=
  (hw.ringConstraints.getD ((Vocabulary.mem_ringConstraintIds v).1 hc) _).symm

variable (hv : v.WellFormed)

include hv

/-- A presence constraint spans the same roles for ever. -/
lemma Grows.spannedRoles_eq {c : PresenceConstraintId} (hc : c ∈ v.presenceConstraintIds) :
    w.spannedRoles c = v.spannedRoles c := by
  rw [spannedRoles, (hw.presenceConstraint hc).roleSequence_eq,
    hw.roleSequence_eq (hv.presence_mem c hc), spannedRoles]

/-- Bounds that are stated once are so for ever. -/
lemma Bounds.grows {q : Quantifier} {c : PresenceConstraintId} (h : v.Bounds rs q c) :
    w.Bounds rs q c where
  mem := hw.mem_presenceConstraintIds h.mem
  perm := hw.spannedRoles_eq hv h.mem ▸ h.perm
  min n hn := (hw.presenceConstraint h.mem).min n (h.min n hn)
  max n hn := (hw.presenceConstraint h.mem).max n (h.max n hn)

end Grows

/-- Players that share a supertype do so for ever. -/
lemma Related.grows {r s : RoleId} (h : v.Related r s) (hv : v.Inherits) (hw : w.Inherits)
    (hgrows : v.Grows w) (hr : r ∈ v.roleIds) (hs : s ∈ v.roleIds) : w.Related r s := by
  have hmono : ∀ {a b}, b ∈ v.supertypes a → b ∈ w.supertypes a := fun hab => by
    rw [hv.mem_supertypes_iff] at hab
    rw [hw.mem_supertypes_iff]
    exact ReflTransGen.mono (fun c d hcd =>
      (hgrows.objectType (hv.mem hcd).1).supertypes.subset hcd) _ _ hab
  obtain ⟨t, ht, ht'⟩ := h
  refine ⟨t, ?_, ?_⟩
  · rw [hgrows.playerOf_eq hr]
    exact hmono ht
  · rw [hgrows.playerOf_eq hs]
    exact hmono ht'

/-- A presence constraint stays well posed if it is mandatory just in case it has to be. -/
lemma PresencePosed.retains {c : PresenceConstraintId} (h : v.PresencePosed c) (hv : v.WellFormed)
    (hc : c ∈ v.presenceConstraintIds) (hw : v.Retains w)
    (hmandatory : (w.presenceConstraint c).isMandatory ↔
      ∃ n ∈ (w.presenceConstraint c).min, 1 ≤ n) : w.PresencePosed c := by
  have hspanned := hw.spannedRoles_eq hv hc
  obtain ⟨f, hf, hroles⟩ := h.factType
  refine ⟨hspanned ▸ h.ne_nil, hspanned ▸ h.nodup, ⟨f, hw.mem_factTypeIds hf, ?_⟩, hmandatory⟩
  rw [hspanned, hw.roles_eq f hf]
  exact hroles

/-- A ring constraint stays well posed. -/
lemma RingPosed.retains {c : RingConstraintId} (h : v.RingPosed c) (hv : v.WellFormed)
    (hi : v.Inherits) (hi' : w.Inherits) (hc : c ∈ v.ringConstraintIds) (hw : v.Retains w) :
    w.RingPosed c := by
  have heq := hw.ringConstraint_eq hc
  obtain ⟨f, hf, hrole, hother⟩ := h.factType
  refine ⟨heq ▸ h.ne, ⟨f, hw.mem_factTypeIds hf, ?_⟩, ?_⟩
  · rw [heq, hw.roles_eq f hf]
    exact ⟨hrole, hother⟩
  · rw [heq]
    exact h.related.grows hi hi' hw.toGrows (hv.ring_role_mem c hc) (hv.ring_otherRole_mem c hc)

/-- Two presence constraints that span the same roles are one, since those that were there are. -/
lemma Constrained.presence_unique_grows (h : v.Constrained) (hv : v.WellFormed) (hw : v.Grows w)
    {c d : PresenceConstraintId} (hc : c ∈ v.presenceConstraintIds)
    (hd : d ∈ v.presenceConstraintIds)
    (hsame : ∀ r, r ∈ w.spannedRoles c ↔ r ∈ w.spannedRoles d) : c = d := by
  rw [hw.spannedRoles_eq hv hc, hw.spannedRoles_eq hv hd] at hsame
  exact h.presence_unique c hc d hd hsame

/-! ## Changes -/

/-- The vocabulary with another presence constraint. -/
def withPresenceConstraint (v : Vocabulary) (s : RoleSequenceId) (min max : Option Nat)
    (enforcement : Option Enforcement) : Vocabulary :=
  { v with
    presenceConstraints := v.presenceConstraints.push
      { id := ⟨v.presenceConstraints.size⟩, roleSequence := s, min, max
        isMandatory := isMandatory min, enforcement } }

/-- The vocabulary with bounds of a presence constraint filled in. -/
def withBounds (v : Vocabulary) (c : PresenceConstraintId) (min max : Option Nat) : Vocabulary :=
  { v with
    presenceConstraints := v.presenceConstraints.modify c.index fun constraint =>
      { constraint with
        min := constraint.min <|> min, max := constraint.max <|> max
        isMandatory := isMandatory (constraint.min <|> min) } }

/-- The vocabulary with another ring constraint. -/
def withRingConstraint (v : Vocabulary) (role otherRole : RoleId) (kinds : List RingKind) :
    Vocabulary :=
  { v with
    ringConstraints := v.ringConstraints.push
      { id := ⟨v.ringConstraints.size⟩, role, otherRole, kinds } }

/-- A new presence constraint covers its role sequence with the given bounds and the others are as
they were. -/
lemma presenceConstraint_withPresenceConstraint (v : Vocabulary) (s : RoleSequenceId)
    (min max : Option Nat) (enforcement : Option Enforcement) (c : PresenceConstraintId) :
    (v.withPresenceConstraint s min max enforcement).presenceConstraint c =
      if c = ⟨v.presenceConstraints.size⟩ then
        { id := ⟨v.presenceConstraints.size⟩, roleSequence := s, min, max
          isMandatory := isMandatory min, enforcement }
      else v.presenceConstraint c := by
  rcases c with ⟨i⟩
  rw [presenceConstraint, withPresenceConstraint, getElem?_push_getD]
  simp only [PresenceConstraintId.mk.injEq]
  rfl

/-- It is the only new one. -/
lemma mem_presenceConstraintIds_withPresenceConstraint {s : RoleSequenceId} {min max : Option Nat}
    {enforcement : Option Enforcement} {c : PresenceConstraintId} :
    c ∈ (v.withPresenceConstraint s min max enforcement).presenceConstraintIds ↔
      c = ⟨v.presenceConstraints.size⟩ ∨ c ∈ v.presenceConstraintIds := by
  rcases c with ⟨i⟩
  simp [withPresenceConstraint]
  omega

/-- Restricting a presence constraint sets its bounds and leaves all the others alone. -/
lemma presenceConstraint_withBounds (v : Vocabulary) (c : PresenceConstraintId)
    (min max : Option Nat) (d : PresenceConstraintId) :
    (v.withBounds c min max).presenceConstraint d =
      if d = c ∧ c ∈ v.presenceConstraintIds then
        { v.presenceConstraint c with
          min := (v.presenceConstraint c).min <|> min
          max := (v.presenceConstraint c).max <|> max
          isMandatory := isMandatory ((v.presenceConstraint c).min <|> min) }
      else v.presenceConstraint d := by
  rcases c with ⟨i⟩
  rcases d with ⟨j⟩
  rw [presenceConstraint, withBounds, getElem?_modify_getD]
  simp only [PresenceConstraintId.mk.injEq, mem_presenceConstraintIds]
  rfl

/-- It adds none. -/
lemma presenceConstraintIds_withBounds (v : Vocabulary) (c : PresenceConstraintId)
    (min max : Option Nat) :
    (v.withBounds c min max).presenceConstraintIds = v.presenceConstraintIds := by
  simp [presenceConstraintIds, withBounds]

/-- A new ring constraint is between its roles and of its kinds, and the others are as they were. -/
lemma ringConstraint_withRingConstraint (v : Vocabulary) (role otherRole : RoleId)
    (kinds : List RingKind) (c : RingConstraintId) :
    (v.withRingConstraint role otherRole kinds).ringConstraint c =
      if c = ⟨v.ringConstraints.size⟩ then
        { id := ⟨v.ringConstraints.size⟩, role, otherRole, kinds }
      else v.ringConstraint c := by
  rcases c with ⟨i⟩
  rw [ringConstraint, withRingConstraint, getElem?_push_getD]
  simp only [RingConstraintId.mk.injEq]
  rfl

/-- It is the only new one. -/
lemma mem_ringConstraintIds_withRingConstraint {role otherRole : RoleId} {kinds : List RingKind}
    {c : RingConstraintId} :
    c ∈ (v.withRingConstraint role otherRole kinds).ringConstraintIds ↔
      c = ⟨v.ringConstraints.size⟩ ∨ c ∈ v.ringConstraintIds := by
  rcases c with ⟨i⟩
  simp [withRingConstraint]
  omega

/-- No constraint has changed. -/
structure SparesConstraints (v w : Vocabulary) : Prop where
  presenceConstraints_eq : w.presenceConstraints = v.presenceConstraints
  ringConstraints_eq : w.ringConstraints = v.ringConstraints

/-- Changing nothing spares the constraints. -/
lemma SparesConstraints.refl (v : Vocabulary) : v.SparesConstraints v :=
  ⟨rfl, rfl⟩

instance : Trans SparesConstraints SparesConstraints SparesConstraints :=
  ⟨fun h h' => ⟨h'.1.trans h.1, h'.2.trans h.2⟩⟩

/-- What spares links and constraints spares constraints. -/
lemma Spares.sparesConstraints (h : v.Spares w) : v.SparesConstraints w :=
  ⟨h.presenceConstraints_eq, h.ringConstraints_eq⟩

section Retains

variable (h : v.Constrained) (hv : v.WellFormed) (hi : v.Inherits) (hi' : w.Inherits)
  (hw : v.Retains w)

include h hv hi hi' hw

omit hi hi' in
/-- Presence constraints that were there stay well posed where they are as they were. -/
lemma Constrained.presence_retains
    (hpresence : w.presenceConstraints = v.presenceConstraints) :
    (∀ c ∈ w.presenceConstraintIds, w.PresencePosed c) ∧
      ∀ c ∈ w.presenceConstraintIds, ∀ d ∈ w.presenceConstraintIds,
        (∀ r, r ∈ w.spannedRoles c ↔ r ∈ w.spannedRoles d) → c = d := by
  have hids : w.presenceConstraintIds = v.presenceConstraintIds := by
    rw [presenceConstraintIds, hpresence, presenceConstraintIds]
  have heq : ∀ c, w.presenceConstraint c = v.presenceConstraint c := fun c => by
    rw [presenceConstraint, hpresence, presenceConstraint]
  rw [hids]
  refine ⟨fun c hc => (h.presence c hc).retains hv hc hw ?_,
    fun c hc d hd => h.presence_unique_grows hv hw.toGrows hc hd⟩
  rw [heq]
  exact (h.presence c hc).isMandatory_iff

/-- Ring constraints that were there stay well posed where they are as they were. -/
lemma Constrained.ring_retains (hring : w.ringConstraints = v.ringConstraints) :
    (∀ c ∈ w.ringConstraintIds, w.RingPosed c) ∧
      ∀ c ∈ w.ringConstraintIds, ∀ d ∈ w.ringConstraintIds,
        (∀ r, r ∈ [(w.ringConstraint c).role, (w.ringConstraint c).otherRole] ↔
          r ∈ [(w.ringConstraint d).role, (w.ringConstraint d).otherRole]) → c = d := by
  have hids : w.ringConstraintIds = v.ringConstraintIds := by
    rw [ringConstraintIds, hring, ringConstraintIds]
  rw [hids]
  refine ⟨fun c hc => (h.ring c hc).retains hv hi hi' hc hw, fun c hc d hd => ?_⟩
  rw [hw.ringConstraint_eq hc, hw.ringConstraint_eq hd]
  exact h.ring_unique c hc d hd

/-- Constraints stay well posed where they are as they were. -/
theorem Constrained.retains (hspares : v.SparesConstraints w) : w.Constrained :=
  have hposed := h.presence_retains hv hw hspares.presenceConstraints_eq
  have hringed := h.ring_retains hv hi hi' hw hspares.ringConstraints_eq
  ⟨hposed.1, hposed.2, hringed.1, hringed.2⟩

end Retains

section Added

variable (h : v.Constrained) (hv : v.WellFormed) (hi : v.Inherits)

include h hv hi

/-- Constraints stay well posed when one is added over roles that no other spans. -/
theorem Constrained.withPresenceConstraint {s : RoleSequenceId}
    (hne : (v.roleSequence s).roles ≠ []) (hnodup : (v.roleSequence s).roles.Nodup)
    (hf : f ∈ v.factTypeIds) (hroles : ∀ r ∈ (v.roleSequence s).roles, r ∈ (v.factType f).roles)
    (hnew : ∀ c ∈ v.presenceConstraintIds,
      ¬sameRoles (v.spannedRoles c) (v.roleSequence s).roles)
    (min max : Option Nat) (enforcement : Option Enforcement) :
    (v.withPresenceConstraint s min max enforcement).Constrained := by
  have hchange := Change.presenceConstraint (v := v) s min max enforcement
  have hretains := retains_of_change hchange
  have hring := h.ring_retains hv hi (inherits_of_change hchange hi) hretains rfl
  change v.Retains (v.withPresenceConstraint s min max enforcement) at hretains
  have hconstraint := v.presenceConstraint_withPresenceConstraint s min max enforcement
    ⟨v.presenceConstraints.size⟩
  rw [if_pos rfl] at hconstraint
  have hspanned : (v.withPresenceConstraint s min max enforcement).spannedRoles
      ⟨v.presenceConstraints.size⟩ = (v.roleSequence s).roles := by
    rw [spannedRoles, hconstraint]
    rfl
  have hother : ∀ c ∈ v.presenceConstraintIds,
      ¬∀ r, r ∈ (v.withPresenceConstraint s min max enforcement).spannedRoles c ↔
        r ∈ (v.roleSequence s).roles := fun c hc hsame => by
    rw [hretains.spannedRoles_eq hv hc] at hsame
    exact hnew c hc ((sameRoles_iff (h.presence c hc).nodup hnodup).2 hsame)
  refine ⟨fun c hc => ?_, fun c hc d hd hsame => ?_, hring.1, hring.2⟩
  · rcases mem_presenceConstraintIds_withPresenceConstraint.1 hc with rfl | hc
    · refine ⟨hspanned ▸ hne, hspanned ▸ hnodup, ⟨f, hf, hspanned ▸ hroles⟩, ?_⟩
      rw [hconstraint]
      exact isMandatory_iff
    · have hne : c ≠ ⟨v.presenceConstraints.size⟩ := fun heq =>
        absurd ((mem_presenceConstraintIds v).1 hc) (by simp [heq])
      refine (h.presence c hc).retains hv hc hretains ?_
      rw [presenceConstraint_withPresenceConstraint, if_neg hne]
      exact (h.presence c hc).isMandatory_iff
  · rcases mem_presenceConstraintIds_withPresenceConstraint.1 hc with rfl | hc <;>
      rcases mem_presenceConstraintIds_withPresenceConstraint.1 hd with rfl | hd
    · rfl
    · rw [hspanned] at hsame
      exact absurd (fun r => (hsame r).symm) (hother d hd)
    · rw [hspanned] at hsame
      exact absurd hsame (hother c hc)
    · exact h.presence_unique_grows hv hretains.toGrows hc hd hsame

/-- Constraints stay well posed when bounds of one are filled in. -/
theorem Constrained.withBounds {c : PresenceConstraintId} {min max : Option Nat}
    (hmin : conflicting (v.presenceConstraint c).min min = false)
    (hmax : conflicting (v.presenceConstraint c).max max = false) :
    (v.withBounds c min max).Constrained := by
  have hchange := Change.restriction hmin hmax
  have hretains := retains_of_change hchange
  have hring := h.ring_retains hv hi (inherits_of_change hchange hi) hretains rfl
  change v.Retains (v.withBounds c min max) at hretains
  have hids := v.presenceConstraintIds_withBounds c min max
  refine ⟨fun d hd => ?_, fun d hd e he => ?_, hring.1, hring.2⟩
  · rw [hids] at hd
    refine (h.presence d hd).retains hv hd hretains ?_
    rw [presenceConstraint_withBounds]
    split
    · exact isMandatory_iff
    · exact (h.presence d hd).isMandatory_iff
  · rw [hids] at hd he
    exact h.presence_unique_grows hv hretains.toGrows hd he

/-- Constraints stay well posed when a ring constraint is added over two roles over which there is
none. -/
theorem Constrained.withRingConstraint {role other : RoleId} (hne : role ≠ other)
    (hf : f ∈ v.factTypeIds) (hrole : role ∈ (v.factType f).roles)
    (hother : other ∈ (v.factType f).roles) (hrelated : v.Related role other)
    (hnew : ∀ c ∈ v.ringConstraintIds,
      ¬sameRoles [(v.ringConstraint c).role, (v.ringConstraint c).otherRole] [role, other])
    (kinds : List RingKind) : (v.withRingConstraint role other kinds).Constrained := by
  have hchange := Change.ringConstraint (v := v) role other kinds
  have hretains := retains_of_change hchange
  have hinherits := inherits_of_change hchange hi
  have hpresence := h.presence_retains hv hretains rfl
  change v.Retains (v.withRingConstraint role other kinds) at hretains
  have hconstraint := v.ringConstraint_withRingConstraint role other kinds
    ⟨v.ringConstraints.size⟩
  rw [if_pos rfl] at hconstraint
  have hold : ∀ c ∈ v.ringConstraintIds,
      ¬∀ r, r ∈ [((v.withRingConstraint role other kinds).ringConstraint c).role,
        ((v.withRingConstraint role other kinds).ringConstraint c).otherRole] ↔
          r ∈ [role, other] := fun c hc hsame => by
    rw [hretains.ringConstraint_eq hc] at hsame
    exact hnew c hc ((sameRoles_iff (by simpa using (h.ring c hc).ne) (by simpa using hne)).2 hsame)
  refine ⟨hpresence.1, hpresence.2, fun c hc => ?_, fun c hc d hd hsame => ?_⟩
  · rcases mem_ringConstraintIds_withRingConstraint.1 hc with rfl | hc
    · refine ⟨?_, ⟨f, hf, ?_⟩, ?_⟩ <;> rw [hconstraint]
      · exact hne
      · exact ⟨hrole, hother⟩
      · exact hrelated
    · exact (h.ring c hc).retains hv hi hinherits hc hretains
  · rcases mem_ringConstraintIds_withRingConstraint.1 hc with rfl | hc <;>
      rcases mem_ringConstraintIds_withRingConstraint.1 hd with rfl | hd
    · rfl
    · rw [hconstraint] at hsame
      exact absurd (fun r => (hsame r).symm) (hold d hd)
    · rw [hconstraint] at hsame
      exact absurd hsame (hold c hc)
    · rw [hretains.ringConstraint_eq hc, hretains.ringConstraint_eq hd] at hsame
      exact h.ring_unique c hc d hd hsame

end Added

end FactModel.Vocabulary
