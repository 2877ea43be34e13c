import FactModel.Proofs.Matching.Resolution
set_option autoImplicit false

/-!
# Completion as a change

Like a resolution, a completion counts as a change that may fail. What it keeps follows from what
resolution keeps and from what putting a mention in and taking it out again keep.

## Main definitions

* `FactModel.Completes` — what resolution and the copying and unbinding of mentions keep.

## Main results

* `FactModel.Completes.leads_complete` — a completion keeps it too.
* `FactModel.leads_resolveAll_of_completes` — and so does resolving the clauses of a query.
-/

namespace FactModel

open Attempt Compile

namespace Compile

/-- Completing a clause on a side copies a mention, resolves the extended clause and takes the slot
out again if nothing matches. -/
lemma ofResolved_completeOn (options : MatchOptions) (previous : Clause) (side : Contraction)
    (c : Clause) :
    ofResolved (completeOn options previous side c) =
      match side.source? previous with
      | none => pure (c, false)
      | some source => (do
        let copy ← copyMention source
        let r ← ofResolved (resolve options (c.extended side copy))
        if r.2 then pure ({ r.1 with contraction := some side }, true)
        else do
          modify (·.unbind copy)
          pure (r.1.without copy, false)) := by
  rw [completeOn]
  cases side.source? previous with
  | none => rfl
  | some source =>
    refine (ofResolved_andThen (copyMention source) c _).trans (bind_congr fun copy => ?_)
    rw [ofResolved_bind fun _ _ => rfl]
    refine bind_congr fun r => ?_
    rcases r with ⟨d, _ | _⟩ <;> rfl

/-- Completing a clause tries the left side, then the right one, and then fails. -/
lemma ofResolved_complete (options : MatchOptions) (previous c : Clause) :
    ofResolved (complete options previous c) =
      if isContinuing previous.conjunction c.conjunction then (do
        let r ← ofResolved (completeOn options previous .left c)
        if r.2 then pure (r.1, .left)
        else do
          let q ← ofResolved (completeOn options previous .right r.1)
          if q.2 then pure (q.1, .right)
          else do throw (.noFactTypeMatch ((← get).describeClause q.1)))
      else (do throw (.noFactTypeMatch ((← get).describeClause c))) := by
  rw [complete]
  split
  · rw [ofResolved_bind fun _ _ => rfl]
    refine bind_congr fun r => ?_
    rcases r with ⟨d, _ | _⟩
    · change ofResolved (completeOn options previous .right d >>= _) = _
      rw [ofResolved_bind fun _ _ => rfl]
      refine bind_congr fun q => ?_
      rcases q with ⟨e, _ | _⟩ <;> rfl
    · rfl
  · rfl

end Compile

/-! ## What completion keeps -/

/-- What completion needs besides what resolution keeps: mentions are copied, only copies are
unbound, and clauses get a slot and lose it again. Only clauses that invoke what the completed
clause invokes lose one. -/
structure Completes (options : MatchOptions) (R : Context → Context → Prop)
    (P : Context → Clause → Prop) (f : Option FactTypeId) (IsCopy : MentionId → Prop) : Prop
    extends Resolves options R P where
  copy : ∀ {x} m, R x x → (copyMention m).Leads R x fun copy _ => IsCopy copy
  unbind : ∀ {x} m, IsCopy m → R x x → R x (x.unbind m)
  extended : ∀ {x c} side m, P x c → P x (c.extended side m)
  without : ∀ {x c} m, c.factType = f → P x c → P x (c.without m)
  contraction : ∀ {x c} side, P x c → P x { c with contraction := side }

/-- The slot that a clause is extended by has nothing nested in it. -/
lemma nested_of_mem_slots_extended {c : Clause} {side : Contraction} {m : MentionId} {s : Slot}
    (hs : s ∈ (c.extended side m).slots) : s.nested = [] ∨ s ∈ c.slots := by
  cases side with
  | left =>
    rcases List.mem_cons.1 hs with rfl | hs
    · exact .inl rfl
    · exact .inr hs
  | right =>
    rw [Clause.extended, Clause.slots, List.flatMap_append] at hs
    rcases List.mem_append.1 hs with hs | hs
    · exact .inr hs
    · rw [List.mem_singleton.1 hs]
      exact .inl rfl

/-- Without a slot a clause has some of its slots. -/
lemma slots_without_subset (c : Clause) (m : MentionId) : (c.without m).slots ⊆ c.slots :=
  (List.filter_sublist.flatMap Phrase.slots).subset

namespace Completes

variable {options : MatchOptions} {R : Context → Context → Prop} [Trans R R R]
  {P : Context → Clause → Prop} {f : Option FactTypeId} {IsCopy : MentionId → Prop}
  (h : Completes options R P f IsCopy)

include h

/-- Completing a clause on a side leads to what the relation and the property keep. -/
lemma leads_completeOn (previous : Clause) (side : Contraction) {c : Clause} {x : Context}
    (hx : R x x) (hc : c.Everywhere (P x)) (hf : c.factType = f) :
    (ofResolved (completeOn options previous side c)).Leads R x fun r y =>
      r.1.Everywhere (P y) ∧ (r.2 = false → r.1.factType = f) := by
  rw [ofResolved_completeOn]
  cases side.source? previous with
  | none => exact leads_pure hx ⟨hc, fun _ => hf⟩
  | some source =>
    refine Leads.bind (h.copy source hx) fun copy y hxy hcopy => ?_
    have hextended : (c.extended side copy).Everywhere (P y) := by
      refine .intro (h.extended side copy (h.mono hxy hc.here)) fun s hs d hd => ?_
      rcases nested_of_mem_slots_extended hs with hs | hs
      · rw [hs] at hd
        exact absurd hd List.not_mem_nil
      · exact h.everywhere_mono hxy (hc.nested s hs d hd)
    refine Leads.bind (h.leads_resolve _ (h.refl hxy) hextended) fun r z hyz hr => ?_
    split
    · exact leads_pure (h.refl hyz) ⟨.intro (h.contraction _ hr.1.here) hr.1.nested, fun hr' =>
        nomatch hr'⟩
    · next hmatched =>
      obtain ⟨phrases, -, heq⟩ := hr.2 (by simpa using hmatched)
      have hr₁ : r.1.factType = f := by
        rw [heq]
        cases side <;> exact hf
      have hunbind := h.unbind copy hcopy (h.refl hyz)
      refine leads_modify_bind hunbind (leads_pure (h.refl hunbind) ⟨?_, fun _ => hr₁⟩)
      refine .intro (h.without copy hr₁ (h.mono hunbind hr.1.here)) fun s hs d hd => ?_
      exact h.everywhere_mono hunbind (hr.1.nested s (slots_without_subset _ _ hs) d hd)

/-- Whatever the resolution of clauses keeps, the completion of a clause keeps, if copying and
unbinding mentions do. -/
theorem leads_complete (previous : Clause) {c : Clause} {x : Context} (hx : R x x)
    (hc : c.Everywhere (P x)) (hf : c.factType = f) :
    (ofResolved (complete options previous c)).Leads R x fun r y => r.1.Everywhere (P y) := by
  rw [ofResolved_complete]
  split
  · refine Leads.bind (h.leads_completeOn previous .left hx hc hf) fun r y hxy hr => ?_
    split
    · exact leads_pure (h.refl hxy) hr.1
    · next hmatched =>
      refine Leads.bind (h.leads_completeOn previous .right (h.refl hxy) hr.1
        (hr.2 (by simpa using hmatched))) fun q z hyz hq => ?_
      split
      · exact leads_pure (h.refl hyz) hq.1
      · exact leads_get_bind (leads_throw (h.refl hyz))
  · exact leads_get_bind (leads_throw hx)

end Completes

/-! ## The clauses of a query -/

section Asked

variable {R : Context → Context → Prop} [Trans R R R] {IsCopy : MentionId → Prop} {x : Context}

/-- Resolving a clause that is asked for leads to what completion keeps. -/
lemma leads_resolveAsked_of_completes (h : ∀ f, Completes {} R (fun _ _ => True) f IsCopy)
    (contraction : Bool) (previous : Option Clause) (c : Clause) (hx : R x x) :
    (resolveAsked contraction previous c).Leads R x fun _ _ => True := by
  have heverywhere : ∀ d : Clause, d.Everywhere fun _ => True :=
    Clause.everywhere_of_forall fun _ => trivial
  refine Leads.bind ((h none).leads_resolve c hx (heverywhere c)) fun r y hy _ => ?_
  have hrefl := (h none).refl hy
  dsimp only
  split
  · exact leads_pure hrefl trivial
  split
  · exact Leads.map (((h r.1.factType).leads_complete _ hrefl (heverywhere r.1) rfl).imp
      fun _ _ _ _ => trivial)
  · exact leads_get_bind (leads_throw hrefl)

/-- Resolving the clauses of a query keeps whatever resolution and completion keep. -/
theorem leads_resolveAll_of_completes (h : ∀ f, Completes {} R (fun _ _ => True) f IsCopy)
    (contraction : Bool) (previous : Option Clause) (cs : List Clause) (hx : R x x) :
    (resolveAll contraction previous cs).Leads R x fun _ _ => True := by
  induction cs generalizing previous x with
  | nil => exact leads_pure hx trivial
  | cons c cs ih =>
    refine Leads.bind (leads_resolveAsked_of_completes h contraction previous c hx)
      fun d y hy _ => ?_
    exact Leads.bind (ih (some d) ((h none).refl hy)) fun _ z hz _ =>
      leads_pure ((h none).refl hz) trivial

end Asked

end FactModel
