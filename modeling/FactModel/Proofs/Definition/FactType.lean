import FactModel.Proofs.Definition.Constraint
import FactModel.Proofs.Definition.Reading
import FactModel.Proofs.Matching.Validity
set_option autoImplicit false

/-!
# Declaring fact types keeps contexts valid

Clauses are resolved, give the fact type, become its readings and state its constraints. Each of
these steps keeps the context valid, and so does resolving the clauses of a query.

## Main results

* `FactModel.Compile.leads_defineFactType` — the fact type that is declared exists.
* `FactModel.Compile.leads_resolveAll` — the clauses of a query are valid once they are resolved.
-/

namespace FactModel.Compile

open Attempt Context

variable {x : Context}

/-! ## Clauses that state readings -/

/-- Resolving a clause that states a reading extends a valid context. -/
lemma leads_resolveStated (h : x.Valid) {c : Clause}
    (hc : c.Everywhere (Clause.Valid x.vocabulary)) :
    (resolveStated c).Leads Extends x fun d y => d.Everywhere (Clause.Valid y.vocabulary) := by
  unfold resolveStated
  split
  · exact leads_get_bind (leads_throw_bind h.extends)
  · refine Leads.bind ((completes_valid _).leads_resolve c h.extends hc) fun r y hy hr => ?_
    exact leads_pure hy.valid.extends hr.1

/-- Resolving clauses that state readings extends a valid context. -/
lemma leads_resolveAllStated (h : x.Valid) {cs : List Clause}
    (hcs : ∀ c ∈ cs, c.Everywhere (Clause.Valid x.vocabulary)) :
    (resolveAllStated cs).Leads Extends x fun ds y =>
      ∀ d ∈ ds, d.Everywhere (Clause.Valid y.vocabulary) := by
  induction cs generalizing x with
  | nil => exact leads_pure h.extends fun _ hd => absurd hd List.not_mem_nil
  | cons c cs ih =>
    refine Leads.bind (leads_resolveStated h (hcs c List.mem_cons_self)) fun d y hy hd => ?_
    have hcs' : ∀ c ∈ cs, c.Everywhere (Clause.Valid y.vocabulary) := fun c hc =>
      (hcs c (List.mem_cons_of_mem _ hc)).imp fun _ h => h.grows hy.grows
    refine Leads.bind (ih hy.valid hcs') fun ds z hz hds =>
      leads_pure hz.valid.extends fun e he => ?_
    rcases List.mem_cons.1 he with rfl | he
    · exact hd.imp fun _ h => h.grows hz.grows
    · exact hds e he

/-! ## The fact type -/

/-- The fact type that clauses state readings of exists. -/
lemma leads_statedFactType (h : x.Valid) {cs : List Clause} (hcs : ∀ c ∈ cs, c.Valid x.vocabulary) :
    (statedFactType cs).Leads Extends x fun r y =>
      r.1 ∈ y.vocabulary.factTypeIds ∧ ∀ c ∈ r.2.2, c.InRange y.vocabulary := by
  have hinvoked : ∀ f ∈ (cs.filterMap (·.factType)).eraseDups, f ∈ x.vocabulary.factTypeIds := by
    intro f hf
    obtain ⟨c, hc, hcf⟩ := List.mem_filterMap.1 (List.mem_eraseDups.1 hf)
    exact (hcs c hc).factType_mem f hcf
  unfold statedFactType
  split
  · next existing hexisting =>
    exact leads_pure h.extends
      ⟨hinvoked existing (by rw [hexisting]; exact List.mem_singleton_self _), fun c hc =>
        (hcs c hc).toInRange⟩
  · next first others _ =>
    refine Leads.bind (leads_makeFactType h first) fun r y hy hr => ?_
    obtain ⟨hf, f, heq⟩ := hr
    refine leads_pure hy.valid.extends ⟨hf, fun c hc => ?_⟩
    rcases List.mem_cons.1 hc with rfl | hc
    · rw [heq]
      exact { (hcs first List.mem_cons_self).toInRange.grows hy.grows with }
    · exact (hcs c (List.mem_cons_of_mem first hc)).toInRange.grows hy.grows
  · exact leads_throw h.extends
  · exact leads_get_bind (leads_throw h.extends)

/-- Stating readings of a fact type extends a valid context. -/
lemma leads_stateReadings (h : x.Valid) {f : FactTypeId} (hf : f ∈ x.vocabulary.factTypeIds)
    {cs : List Clause} (hcs : ∀ c ∈ cs, c.InRange x.vocabulary) :
    (stateReadings f cs).Leads Extends x fun _ _ => True := by
  induction cs generalizing x with
  | nil => exact leads_pure h.extends trivial
  | cons c cs ih =>
    have hc := hcs c List.mem_cons_self
    have hrest : ∀ (d : Clause) {y : Context}, x.Extends y →
        (do let ds ← stateReadings f cs; pure (d :: ds) : Compile (List Clause)).Leads Extends y
          fun _ _ => True := by
      intro d y hy
      have hcs' : ∀ c ∈ cs, c.InRange y.vocabulary := fun c hc =>
        (hcs c (List.mem_cons_of_mem _ hc)).grows hy.grows
      exact Leads.bind (ih hy.valid (hy.grows.mem_factTypeIds hf) hcs') fun ds z hz _ =>
        leads_pure hz.valid.extends trivial
    unfold stateReadings
    split
    · exact Leads.bind (leads_adjust h hc) fun d y hy _ => hrest d hy
    · have hmake : ((·.2) <$> makeReading c f).Leads Extends x fun d y =>
          d.InRange y.vocabulary := Leads.map (leads_makeReading h hc.isPlain hf)
      exact Leads.bind hmake fun d y hy _ => hrest d hy

/-- Embedding the constraints of clauses keeps the context valid. -/
lemma leads_embed (h : x.Valid) (cs : List Clause) :
    (cs.forM fun c => do
      let _ ← embedPresenceConstraints c
      let _ ← embedRingConstraint c).Leads Extends x fun _ _ => True := by
  refine Leads.forM h.extends fun c _ y hy => ?_
  refine Leads.bind (leads_embedPresenceConstraints hy.valid c) fun _ z hz _ => ?_
  exact Leads.bind (leads_embedRingConstraint hz.valid c) fun _ w hw _ =>
    leads_pure hw.valid.extends hw.valid.extends

/-- The fact type that valid clauses declare exists.

**Proof sketch.** The clauses are valid once they are resolved, so that a fact type that they invoke
exists; a new one exists once it is made. Then every clause becomes a reading of this fact type. -/
theorem leads_defineFactType (h : x.Valid) {cs : List Clause}
    (hcs : ∀ c ∈ cs, c.Everywhere (Clause.Valid x.vocabulary)) :
    (defineFactType cs).Leads Extends x fun r y => r.1 ∈ y.vocabulary.factTypeIds := by
  refine Leads.bind (leads_resolveAllStated h hcs) fun cs y hy hcs => ?_
  refine Leads.bind (leads_statedFactType hy.valid fun c hc => (hcs c hc).here) fun r z hz hr => ?_
  obtain ⟨f, created, cs⟩ := r
  refine Leads.bind (leads_stateReadings hz.valid hr.1 hr.2) fun cs w hw _ => ?_
  refine Leads.bind (leads_embed hw.valid cs) fun _ u hu _ => ?_
  exact leads_pure hu.valid.extends (hu.grows.mem_factTypeIds (hw.grows.mem_factTypeIds hr.1))

/-! ## Queries -/

/-- A clause of a query is valid once it is resolved, if need be by completing it. -/
lemma leads_resolveAsked (h : x.Valid) (contraction : Bool) (previous : Option Clause) {c : Clause}
    (hc : c.Everywhere (Clause.Valid x.vocabulary)) (hnone : c.factType = none) :
    (resolveAsked contraction previous c).Leads Extends x fun d y =>
      d.Everywhere (Clause.Valid y.vocabulary) := by
  refine Leads.bind ((completes_valid {}).leads_resolve c h.extends hc) fun r y hy hr => ?_
  obtain ⟨d, matched⟩ := r
  dsimp only
  split
  · exact leads_pure hy.valid.extends hr.1
  next hmatched =>
  split
  · obtain ⟨phrases, -, heq⟩ := hr.2 (by simpa using hmatched)
    have hd : d.factType = none := by
      rw [show d = { c with phrases } from heq]
      exact hnone
    exact Leads.map ((completes_valid {}).leads_complete _ hy.valid.extends hr.1 hd)
  · exact leads_get_bind (leads_throw hy.valid.extends)

/-- Resolving the clauses of a query extends a valid context. -/
theorem leads_resolveAll (h : x.Valid) (contraction : Bool) (previous : Option Clause)
    {cs : List Clause} (hcs : ∀ c ∈ cs, c.Everywhere Clause.IsAdopted) :
    (resolveAll contraction previous cs).Leads Extends x fun ds y =>
      ∀ d ∈ ds, d.Everywhere (Clause.Valid y.vocabulary) := by
  induction cs generalizing x previous with
  | nil => exact leads_pure h.extends fun _ hd => absurd hd List.not_mem_nil
  | cons c cs ih =>
    have hc := hcs c List.mem_cons_self
    refine Leads.bind (leads_resolveAsked h contraction previous
      (hc.imp fun _ h => h.valid x.vocabulary) hc.here.factType_eq) fun d y hy hd => ?_
    refine Leads.bind (ih hy.valid (some d) fun c hc => hcs c (List.mem_cons_of_mem _ hc))
      fun ds z hz hds => leads_pure hz.valid.extends fun e he => ?_
    rcases List.mem_cons.1 he with rfl | he
    · exact hd.imp fun _ h => h.grows hz.grows
    · exact hds e he

end FactModel.Compile
