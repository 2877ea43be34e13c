import FactModel.Proofs.Definition.Stating
import FactModel.Proofs.Vocabulary.Fullness
set_option autoImplicit false

/-!
# Definitions add whole readings

The clause that creates a fact type has a mention for each of its roles, so that as its first
reading it lists them all. Later clauses may leave roles out, but each of their mentions gets a
placeholder.

## Main definitions

* `FactModel.Compile.AddingWhole` — a change that adds whole readings only.

## Main results

* `FactModel.Compile.addsWhole_makeReading` — a clause as a reading is whole if it is not the first
  or has as many mentions as the fact type has roles.
* `FactModel.Compile.addsWhole_defineFactType` — so a definition adds whole readings only.
-/

namespace FactModel

open Attempt Compile Context Vocabulary

/-- A fact type that has been created comes with its readings. -/
lemma Vocabulary.AddsWhole.of_created {u v w : Vocabulary} {f : FactTypeId} (h : v.AddsWhole w)
    (huv : u.Retains v) (hreadings : v.readings = u.readings)
    (hids : ∀ g ∈ v.factTypeIds, g = f ∨ g ∈ u.factTypeIds) (hne : (w.factType f).readings ≠ []) :
    u.AddsWhole w where
  toRetains := huv.trans h.toRetains
  isWhole r hr := (h.isWhole r hr).imp_left fun hold => by
    rwa [mem_readingIds, hreadings, ← mem_readingIds] at hold
  readings_ne_nil g hg := by
    rcases h.readings_ne_nil g hg with hold | hnew
    · rcases hids g hold with rfl | hold
      · exact .inr hne
      · exact .inl hold
    · exact .inr hnew

namespace Compile

variable {x y : Context} {f : FactTypeId} {c d : Clause} {cs ds : List Clause}

/-- A change that adds whole readings only. -/
def AddingWhole {α : Type} (change : Compile α) : Prop :=
  change.KeepsThrough AddsWhole

/-- Adding whole readings only composes. -/
lemma composes_addingWhole : Composes AddingWhole :=
  composes_through AddsWhole.refl

/-! ## Clauses that invoke readings -/

/-- Resolving clauses that state readings adds whole readings only. -/
lemma addingWhole_resolveAllStated (cs : List Clause) : AddingWhole (resolveAllStated cs) :=
  composes_addingWhole.resolveAllStated (fun hnext x => leads_get_bind (hnext x x))
    (fun c x => leads_resolve_through AddsWhole.refl addsWhole_comparisonFactType _ c x) cs

/-- Adjusting a clause to a reading adds no reading. -/
lemma addingWhole_adjust (c : Clause) : AddingWhole (adjust c) :=
  composes_addingWhole.adjust (fun hnext x => leads_get_bind (hnext x x))
    (fun refs x => leads_edit_through (addsWhole_addRoleSequence x.vocabulary refs))
    (fun _ _ _ _ => leads_modify (AddsWhole.refl _) trivial)
    (fun r name x => leads_edit_through (addsWhole_nameRole x.vocabulary r name)) c

/-- Embedding constraints adds no reading. -/
lemma embeds_addingWhole : Embeds AddingWhole :=
  embeds_through AddsWhole.refl addsWhole_addRoleSequence addsWhole_addPresenceConstraint
    addsWhole_restrictPresenceConstraint addsWhole_addRingConstraint

/-! ## Clauses that become readings -/

/-- A clause as a reading of a fact type that has readings is whole, and so is one with as many
mentions as the fact type has roles. -/
lemma addsWhole_makeReading {r : ReadingId} (hx : x.Valid) (hf : f ∈ x.vocabulary.factTypeIds)
    (hplain : ∀ p ∈ c.phrases, p.IsPlain)
    (hfull : (x.vocabulary.factType f).readings = [] →
      c.mentions.length = (x.vocabulary.factType f).arity)
    (h : (makeReading c f).perform x = (.ok (r, d), y)) :
    x.vocabulary.AddsWhole y.vocabulary ∧ (y.vocabulary.factType f).readings ≠ [] := by
  obtain ⟨tokens, refs, hparts, -, -, hvocabulary⟩ := perform_makeReading_eq_ok h
  have hspec := readingParts_of_eq_ok hx c hplain hparts
  let v := x.vocabulary.pushRoleSequence refs
  have hsequence : v.roleSequence ⟨x.vocabulary.roleSequences.size⟩ = _ :=
    (roleSequence_pushRoleSequence ..).trans (if_pos rfl)
  have hadded : x.vocabulary.AddsWhole v :=
    .of_eq (.of_factTypes_eq (x.vocabulary.grows_pushRoleSequence refs) rfl) rfl rfl
  have hread : v.AddsWhole y.vocabulary := by
    rw [hvocabulary]
    refine addsWhole_pushReading hf (mem_roleSequenceIds_pushRoleSequence.2 (.inl rfl))
      (fun k hk hlimit => ?_) fun hnone => ?_
    · rw [hsequence] at hk
      rw [Template.places_tokens_render_eq hspec.isWritten, hspec.places_eq, List.mem_filter]
      exact ⟨List.mem_range'_1.2 ⟨Nat.zero_le k, by simpa using hk⟩, decide_eq_true hlimit⟩
    · rw [hsequence]
      have hlength : refs.length = c.mentions.length := by
        rw [length_of_readingParts c hparts, Clause.mentions, List.length_map]
        exact Nat.zero_add _
      have hsubset : refs.map (·.role) ⊆ (v.factType f).roles := by
        intro role hrole
        obtain ⟨ref, href, rfl⟩ := List.mem_map.1 hrole
        exact hx.consistent.mem_roles.2 ⟨hspec.role_mem (fun _ href => by cases href) ref href,
          hspec.role_factType (fun _ href => by cases href) ref href⟩
      refine (List.subperm_of_subset (hspec.roles_nodup List.nodup_nil) hsubset).perm_of_length_le
        ?_
      rw [List.length_map, hlength, hfull hnone]
      exact Nat.le_refl _
  refine ⟨hadded.trans hread, ?_⟩
  rw [hvocabulary, factType_pushReading, if_pos ⟨rfl, hf⟩]
  exact List.append_ne_nil_of_right_ne_nil _ (List.cons_ne_nil _ _)

/-- Clauses that come to state readings of a fact type with readings. -/
lemma addsWhole_stateReadings (hx : x.Valid) (hf : f ∈ x.vocabulary.factTypeIds)
    (hne : (x.vocabulary.factType f).readings ≠ []) (hcs : ∀ c ∈ cs, c.InRange x.vocabulary)
    (h : (stateReadings f cs).perform x = (.ok ds, y)) : x.vocabulary.AddsWhole y.vocabulary := by
  induction cs generalizing x ds with
  | nil =>
    cases h
    exact .refl _
  | cons c cs ih =>
    have hc := hcs c List.mem_cons_self
    obtain ⟨d, z, es, rfl, hothers, hfirst⟩ := stateReadings_cons_eq_ok h
    have hstep : x.Extends z ∧ x.vocabulary.AddsWhole z.vocabulary := by
      rcases hfirst with ⟨-, hadjust⟩ | ⟨-, r, hmake⟩
      · exact ⟨((leads_adjust hx hc).of_perform hadjust).1,
          ((addingWhole_adjust c x).of_perform hadjust).1⟩
      · exact ⟨((leads_makeReading hx hc.isPlain hf).of_perform hmake).1,
          (addsWhole_makeReading hx hf hc.isPlain (fun hnil => absurd hnil hne) hmake).1⟩
    obtain ⟨hextends, hadds⟩ := hstep
    exact hadds.trans (ih hextends.valid (hextends.grows.mem_factTypeIds hf)
      (hadds.toGrows.readings_ne_nil hf hne)
      (fun e he => (hcs e (List.mem_cons_of_mem c he)).grows hextends.grows) hothers)

/-- Clauses that come to state readings of the fact type that the first of them creates.

**Proof sketch.** The fact type has a role for each mention of this clause. So the reading that the
clause becomes is full, and the other clauses find a fact type with a reading. -/
lemma addsWhole_created (hx : x.Valid) (hc : c.Valid x.vocabulary) (hunread : c.reading = none)
    (hcs : ∀ e ∈ cs, e.Valid x.vocabulary) {z : Context}
    (hmake : (makeFactType c).perform x = (.ok (f, d), z))
    (h : (stateReadings f (d :: cs)).perform z = (.ok ds, y)) :
    x.vocabulary.AddsWhole y.vocabulary := by
  obtain ⟨hf, hd, -, -, players, hlength, hvocabulary⟩ := casts_makeFactType hmake
  obtain ⟨hz, hmem, -⟩ := (leads_makeFactType hx c).of_perform hmake
  have hc' : d.InRange z.vocabulary := hd ▸ { hc.toInRange.grows hz.grows with }
  obtain ⟨e, u, es, rfl, hothers, ⟨hread, -⟩ | ⟨-, r, hread⟩⟩ := stateReadings_cons_eq_ok h
  · rw [hd, hunread] at hread
    cases hread
  have harity : d.mentions.length = (z.vocabulary.factType f).arity := by
    rw [hvocabulary, hf, FactType.arity, arity_withFactType, hlength, hd]
    rfl
  obtain ⟨hextends, -⟩ := (leads_makeReading hz.valid hc'.isPlain hmem).of_perform hread
  obtain ⟨hadds, hne⟩ := addsWhole_makeReading hz.valid hmem hc'.isPlain (fun _ => harity) hread
  have hothers' := addsWhole_stateReadings hextends.valid (hextends.grows.mem_factTypeIds hmem) hne
    (fun e he => ((hcs e he).toInRange.grows hz.grows).grows hextends.grows) hothers
  refine (hadds.trans hothers').of_created ?_ ?_ (f := f) (fun g hg => ?_)
    (hothers'.toGrows.readings_ne_nil (hextends.grows.mem_factTypeIds hmem) hne)
  · rw [hvocabulary]
    exact retains_withFactType players
  · rw [hvocabulary, readings_withFactType]
  · rw [hvocabulary, factTypeIds_withFactType] at hg
    rw [hf]
    exact mem_factTypeIds_pushFactType.1 hg

/-- A definition adds whole readings only.

**Proof sketch.** If a clause has invoked a reading, then its fact type has readings. Otherwise the
first clause creates the fact type. -/
theorem addsWhole_defineFactType {created : Bool} (hx : x.Ready cs) (hwhole : x.vocabulary.AllWhole)
    (h : (defineFactType cs).perform x = (.ok (f, created, ds), y)) :
    x.vocabulary.AddsWhole y.vocabulary := by
  obtain ⟨resolved, y₁, hresolve, hrest⟩ := perform_bind_eq_ok.1 h
  obtain ⟨⟨g, isNew, stated⟩, y₂, hstated, hrest⟩ := perform_bind_eq_ok.1 hrest
  obtain ⟨read, y₃, hread, hrest⟩ := perform_bind_eq_ok.1 hrest
  obtain ⟨_, y₄, hembed, hpure⟩ := perform_bind_eq_ok.1 hrest
  cases hpure
  obtain ⟨hgives₁, -, htold⟩ := told_resolveAllStated hx hresolve
  have hvalid := valid_resolveAllStated hx hresolve
  have hadds₁ := ((addingWhole_resolveAllStated cs x).of_perform hresolve).1
  have hadds₄ := ((embeds_addingWhole.embed ds y₃).of_perform hembed).1
  suffices hadds₃ : y₁.vocabulary.AddsWhole y₃.vocabulary from (hadds₁.trans hadds₃).trans hadds₄
  obtain ⟨hf, hrange⟩ := inRange_stated hx hresolve hstated
  unfold statedFactType at hstated
  split at hstated
  · cases hstated
    exact addsWhole_stateReadings hgives₁.valid hf
      ((hwhole.addsWhole hadds₁).readings_ne_nil f hf) hrange hread
  · next first others hnone =>
    obtain ⟨⟨f', first'⟩, z, hmake, hpure⟩ := perform_bind_eq_ok.1 hstated
    cases hpure
    have hunmatched := factType_eq_none_of_eraseDups hnone first List.mem_cons_self
    exact addsWhole_created hgives₁.valid (hvalid first List.mem_cons_self)
      ((htold first List.mem_cons_self).unread hunmatched)
      (fun e he => hvalid e (List.mem_cons_of_mem first he)) hmake hread
  · cases hstated
  · rw [perform_get_bind] at hstated
    cases hstated

end Compile

end FactModel
