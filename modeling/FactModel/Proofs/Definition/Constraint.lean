import FactModel.Definition.Constraint
import FactModel.Proofs.Context.Validity
set_option autoImplicit false

/-!
# Stating constraints keeps contexts valid

Constraints are stated over roles of the role sequence of a clause, and these exist.

## Main results

* `FactModel.Compile.leads_embedPresenceConstraints`, `FactModel.Compile.leads_embedRingConstraint`
  — embedding the constraints of a clause keeps the context valid.
-/

namespace FactModel

open Attempt Context

/-- A pair of roles with related players is among the given roles. -/
lemma Vocabulary.mem_of_relatedPair? {v : Vocabulary} {roles : List RoleId} {r r' : RoleId}
    (h : v.relatedPair? roles = some (r, r')) : r ∈ roles ∧ r' ∈ roles := by
  induction roles with
  | nil => cases h
  | cons role others ih =>
    rw [relatedPair?] at h
    split at h
    · next other hfind =>
      cases h
      exact ⟨List.mem_cons_self, List.mem_cons_of_mem r (List.mem_of_find?_eq_some hfind)⟩
    · exact (ih h).imp (List.mem_cons_of_mem role) (List.mem_cons_of_mem role)

namespace Compile

variable {x : Context}

/-! ## Presence constraints -/

/-- Bounding players of roles of the vocabulary extends a valid context. -/
lemma leads_boundPlayers (h : x.Valid) {refs : List RoleRef}
    (hrefs : ∀ ref ∈ refs, ref.role ∈ x.vocabulary.roleIds) (q : Quantifier) :
    (boundPlayers refs q).Leads Extends x fun _ _ => True := by
  refine leads_get_bind ?_
  split
  · next existing _ =>
    refine Leads.bind (leads_edit h
      (Vocabulary.leads_restrictPresenceConstraint h.consistent existing q.min q.max))
        fun _ y hy _ => leads_pure hy.valid.extends trivial
  · refine Leads.bind (leads_edit h (Vocabulary.leads_addRoleSequence h.consistent hrefs))
      fun s y hy hs => ?_
    exact leads_edit hy.valid
      (Vocabulary.leads_addPresenceConstraint hy.valid.consistent hs.1 q.min q.max q.enforcement)

/-- Embedding a presence constraint over roles of the vocabulary extends a valid context. -/
lemma leads_embedPresenceConstraint (h : x.Valid) {refs : List RoleRef}
    (hrefs : ∀ ref ∈ refs, ref.role ∈ x.vocabulary.roleIds) (m : MentionId) :
    (embedPresenceConstraint refs m).Leads Extends x fun _ _ => True := by
  refine leads_get_bind ?_
  dsimp only
  split
  · split
    · exact leads_pure h.extends trivial
    · refine Leads.bind
        (leads_boundPlayers h (fun ref href => hrefs ref (List.mem_filter.1 href).1) _)
        fun c y hy _ => ?_
      refine Leads.bind (leads_modifyMention hy.valid m _ (hy.valid.player_mem m)
        (hy.valid.role_mem m)) fun _ z hz _ => leads_pure hz.valid.extends trivial
  · exact leads_pure h.extends trivial

/-- Embedding presence constraints over roles of the vocabulary extends a valid context. -/
lemma leads_embedEach (h : x.Valid) {refs : List RoleRef}
    (hrefs : ∀ ref ∈ refs, ref.role ∈ x.vocabulary.roleIds) (ms : List MentionId) :
    (embedEach refs ms).Leads Extends x fun _ _ => True := by
  induction ms generalizing x with
  | nil => exact leads_pure h.extends trivial
  | cons m ms ih =>
    refine Leads.bind (leads_embedPresenceConstraint h hrefs m) fun c y hy _ => ?_
    have hrefs' : ∀ ref ∈ refs, ref.role ∈ y.vocabulary.roleIds := fun ref href =>
      hy.grows.mem_roleIds (hrefs ref href)
    exact Leads.bind (ih hy.valid hrefs') fun _ z hz _ => leads_pure hz.valid.extends trivial

/-- Embedding the presence constraints of a clause keeps the context valid. -/
lemma leads_embedPresenceConstraints (h : x.Valid) (c : Clause) :
    (embedPresenceConstraints c).Leads Extends x fun _ _ => True := by
  unfold embedPresenceConstraints
  split
  · exact leads_pure h.extends trivial
  · split
    · exact leads_pure h.extends trivial
    · exact leads_get_bind (leads_embedEach h (h.consistent.ref_mem _) c.mentions)

/-! ## Ring constraints -/

/-- Embedding the ring constraint of a clause keeps the context valid. -/
lemma leads_embedRingConstraint (h : x.Valid) (c : Clause) :
    (embedRingConstraint c).Leads Extends x fun _ _ => True := by
  unfold embedRingConstraint
  split
  · exact leads_pure h.extends trivial
  refine leads_ofExcept_bind h.extends fun kinds _ => ?_
  split
  · exact leads_pure h.extends trivial
  next s _ =>
  refine leads_get_bind ?_
  dsimp only
  split
  · exact leads_throw h.extends
  next role other hpair =>
  split
  · exact leads_pure h.extends trivial
  have hroles : ∀ r ∈ (x.vocabulary.roleSequence s).roles, r ∈ x.vocabulary.roleIds := by
    intro r hr
    obtain ⟨ref, href, rfl⟩ := List.mem_map.1 hr
    exact h.consistent.ref_mem s ref href
  obtain ⟨hrole, hother⟩ := Vocabulary.mem_of_relatedPair? hpair
  exact Leads.map (leads_edit h (Vocabulary.leads_addRingConstraint h.consistent (hroles role hrole)
    (hroles other hother) kinds))

end Compile

end FactModel
