import FactModel.Proofs.Matching.Carrying
import FactModel.Proofs.Matching.Roles
set_option autoImplicit false

/-!
# Mentions that change

Resolving a clause changes its own mentions and those of the clauses nested in it. No other mention
changes in any way. A mention that takes a role gets the role, its place and the adjectives left
over.

## Main definitions

* `FactModel.Mention.take` — what a placement makes of its mention.
* `FactModel.Context.ChangesOnly` — only certain mentions have changed.

## Main results

* `FactModel.Compile.ends_applyPlacements_mention` — what the placements of a match make of
  mentions.
* `FactModel.Compile.resolves_changesOnly` — what resolving a clause changes.
-/

namespace FactModel

open Attempt Compile

/-- A mention that takes the role of a placement, its place in the role sequence and the adjectives
left over. -/
def Mention.take (s : RoleSequenceId) (p : Placement) (m : Mention) : Mention :=
  { m with
    role := some p.role, roleRef := some (s, p.roleRef)
    leading := p.residualLeading, trailing := p.residualTrailing
    residualLeading := p.residualLeading, residualTrailing := p.residualTrailing }

namespace Context

variable {x y : Context} {may may' : MentionId → Prop}

/-- Only certain mentions have changed. -/
def ChangesOnly (may : MentionId → Prop) (x y : Context) : Prop :=
  ∀ m, ¬may m → y.mention m = x.mention m

instance : Trans (ChangesOnly may) (ChangesOnly may) (ChangesOnly may) :=
  ⟨fun h h' m hm => (h' m hm).trans (h m hm)⟩

namespace ChangesOnly

/-- A context that does not change changes only what may change. -/
lemma refl (x : Context) : x.ChangesOnly may x :=
  fun _ _ => rfl

/-- More mentions may change. -/
lemma weaken (h : x.ChangesOnly may y) (hmay : ∀ m, may m → may' m) : x.ChangesOnly may' y :=
  fun m hm => h m fun hn => hm (hmay m hn)

/-- Changing a mention that may change changes only such ones. -/
lemma modifyMention {m : MentionId} (hm : may m) (change : Mention → Mention) :
    x.ChangesOnly may (x.modifyMention m change) := by
  intro n hn
  have hne : ¬(n = m ∧ m.index < x.mentions.size) := fun h => hn (h.1 ▸ hm)
  rw [mention_modifyMention, if_neg hne]

/-- Adding a mention that may change to a binding changes only such ones. -/
lemma enlist {m : MentionId} (hm : may m) (b : BindingId) : x.ChangesOnly may (x.enlist m b) :=
  fun n hn => modifyMention (x := x.modifyBinding b _) hm _ n hn

/-- Binding a mention that may change changes only such ones. -/
lemma bindAs {m : MentionId} (hm : may m) (player : ObjectTypeId) :
    x.ChangesOnly may (x.bindAs m player).2 := by
  unfold Context.bindAs
  split
  · exact enlist hm _
  · exact fun n hn => enlist (x := x.pushBinding _ _ _) hm _ n hn

/-- Taking a mention that may change out of its binding changes only such ones. -/
lemma unbind {m : MentionId} (hm : may m) : x.ChangesOnly may (x.unbind m) := by
  intro n hn
  have hne : n ≠ m := fun h => hn (h ▸ hm)
  rw [mention_unbind, if_neg hne]

end ChangesOnly

end Context

open Context

namespace Compile

variable {c : Clause} {may : MentionId → Prop}

/-- An edit of the vocabulary changes no mention. -/
lemma keeps_edit_changesOnly {α : Type} (change : Vocabulary.Edit α) :
    (edit change).Keeps (ChangesOnly may) := by
  intro x _
  exact Leads.within (leads_true change x.vocabulary) (fun _ _ _ _ => rfl) fun _ _ _ _ => trivial

/-- A placement changes its mention only. -/
lemma leads_applyPlacement_changesOnly {p : Placement} (hp : may p.mention) (s : RoleSequenceId)
    (x : Context) : (applyPlacement s p).Leads (ChangesOnly may) x fun _ _ => True := by
  have hrebind : ∀ y, (rebind p.mention).Leads (ChangesOnly may) y fun _ _ => True := fun y =>
    leads_modify_bind (.unbind hp) (Leads.bind (leads_playerOf (.refl _)) fun player z _ hz => by
      obtain ⟨rfl, -⟩ := hz
      exact ⟨.bindAs hp player, trivial⟩)
  refine leads_get_bind (leads_modify_bind (.modifyMention hp _) (leads_get_bind ?_))
  dsimp only
  split
  · exact Leads.bind (hrebind _) fun _ y _ _ => leads_pure (.refl y) trivial
  · exact leads_pure (.refl _) trivial

/-- What a placement makes of its mention, but for the binding. -/
lemma ends_applyPlacement_mention {α : Type} (field : Mention → α)
    (hfield : ∀ mention binding, field { mention with binding } = field mention)
    (s : RoleSequenceId) {p : Placement} {value : α}
    (hvalue : ∀ m : Mention, field (m.take s p) = value)
    {x : Context} (hp : p.mention.index < x.mentions.size) :
    (applyPlacement s p).Ends x (fun _ y => y.mentions.size = x.mentions.size ∧
      field (y.mention p.mention) = value) fun _ => True := by
  have htaken : (x.modifyMention p.mention (·.take s p)).mentions.size = x.mentions.size ∧
      field ((x.modifyMention p.mention (·.take s p)).mention p.mention) = value := by
    refine ⟨Array.size_modify .., ?_⟩
    rw [mention_modifyMention, if_pos ⟨rfl, hp⟩]
    exact hvalue _
  refine ends_bind.2 (ends_get.2 (ends_bind.2 (ends_modify.2 (ends_bind.2 (ends_get.2 ?_)))))
  dsimp only
  split
  · refine ends_bind.2 (ends_bind.2 (ends_modify.2 (ends_bind_mention.2 ?_)))
    split
    · refine ⟨?_, ?_⟩
      · rw [size_bindAs, size_unbind]
        exact htaken.1
      · rw [mention_bindAs_apply field hfield, mention_unbind, if_pos rfl, hfield]
        exact htaken.2
    · trivial
  · exact htaken

/-- What placements of different mentions make of them. -/
lemma ends_applyPlacements_mention {α : Type} (field : Mention → α)
    (hfield : ∀ mention binding, field { mention with binding } = field mention)
    (s : RoleSequenceId) (value : Placement → α)
    (hvalue : ∀ p (m : Mention), field (m.take s p) = value p)
    {ps : List Placement} (hnodup : (ps.map (·.mention)).Nodup) {x : Context}
    (hsize : ∀ p ∈ ps, p.mention.index < x.mentions.size) :
    (ps.forM (applyPlacement s)).Ends x (fun _ y =>
      ∀ p ∈ ps, field (y.mention p.mention) = value p) fun _ => True := by
  induction ps generalizing x with
  | nil => exact List.forall_mem_nil _
  | cons p ps ih =>
    rw [List.map_cons, List.nodup_cons] at hnodup
    refine ends_bind.2 ((ends_applyPlacement_mention field hfield s (hvalue p)
      (hsize p List.mem_cons_self)).imp ?_ fun _ _ => trivial)
    rintro _ y ⟨hy, hfirst⟩
    have hothers : (ps.forM (applyPlacement s)).Leads (ChangesOnly (· ∈ ps.map (·.mention))) y
        fun _ _ => True :=
      Leads.forM (.refl y) fun q hq z _ => (leads_applyPlacement_changesOnly
        (List.mem_map_of_mem hq) s z).imp fun _ u _ _ => .refl u
    refine (Ends.and hothers (ih hnodup.2 fun q hq =>
      hy ▸ hsize q (List.mem_cons_of_mem p hq))).imp ?_ fun _ _ => trivial
    rintro _ z ⟨⟨hchanges, -⟩, hlater⟩
    refine List.forall_mem_cons.2 ⟨?_, hlater⟩
    rw [hchanges _ hnodup.1]
    exact hfirst

/-- Resolving a clause changes only its mentions. -/
lemma leads_resolveFlat_changesOnly (options : MatchOptions) (hc : ∀ m ∈ c.mentions, may m)
    (x : Context) : (resolveFlat options c).Leads (ChangesOnly may) x fun _ _ => True := by
  unfold resolveFlat
  split
  · next operator left right hcomparison =>
    have hmentions : c.mentions = [left.mention, right.mention] := by
      rw [Clause.mentions, Clause.slots, Clause.phrases_of_comparison? hcomparison]
      rfl
    refine Leads.map (Leads.bind (leads_playerOf (.refl x)) fun leftPlayer y _ _ => ?_)
    refine Leads.bind (leads_playerOf (.refl y)) fun rightPlayer z _ _ => ?_
    refine Leads.bind (keeps_edit_changesOnly (Vocabulary.comparisonFactType operator leftPlayer
      rightPlayer) (.refl z)) fun f w _ _ => leads_get_bind ?_
    refine Leads.bind (Leads.forM (.refl w) fun item hitem u _ => ?_) fun _ u _ _ =>
      leads_pure (.refl u) trivial
    have hmem := (List.of_mem_zip (List.fst_mem_of_mem_zipIdx hitem)).1
    exact leads_modify (.modifyMention (hc _ (hmentions ▸ hmem)) _) (.refl _)
  · refine leads_get_bind ?_
    split
    · exact leads_pure (.refl x) trivial
    refine leads_get_bind (leads_ofExcept_bind (.refl x) fun r hselect => ?_)
    cases r with
    | none => exact leads_pure (.refl x) trivial
    | some a =>
      have hmentions : a.placements.map (·.mention) = c.mentions :=
        (align_eq_ok_iff.1 (mem_rank.1 (mem_of_select hselect)).2).2.1.mentions_eq
      refine Leads.map (Leads.bind (Leads.forM (.refl x) fun p hp y _ => ?_) fun _ y _ _ =>
        leads_pure (.refl y) trivial)
      have hmem := List.mem_map_of_mem (f := Placement.mention) (List.mem_reverse.1 hp)
      exact (leads_applyPlacement_changesOnly (hc _ (hmentions ▸ hmem)) a.roleSequence
        y).imp fun _ z _ _ => .refl z

/-- What resolves a clause changes its mentions and those of nested clauses only. -/
lemma resolves_changesOnly (options : MatchOptions) (may : MentionId → Prop) :
    Resolves options (ChangesOnly may) fun _ c => ∀ m ∈ c.mentions, may m where
  refl _ := .refl _
  mono _ := id
  bare {_ c phrases} hbare hc m hm := by
    have hmentions : c.mentions = Clause.mentions { c with phrases } := hbare.mentions_eq
    exact hc m (hmentions ▸ hm)
  flat {x c} _ hc := (leads_resolveFlat_changesOnly options hc.here x).and
    (ends_resolveFlat_slots options c x) |>.imp fun _ _ _ hr d hd m hm =>
      hc.here m (List.map_subset _ (hr.2 d hd) hm)

/-- What holds of all mentions of a clause holds of those of each clause nested in it. -/
lemma everywhere_mentions (h : ∀ m ∈ c.allMentions, may m) :
    c.Everywhere fun d => ∀ m ∈ d.mentions, may m := by
  induction Clause.everywhere_of_forall (P := fun _ => True) (fun _ => trivial) c with
  | @intro c _ _ ih =>
    refine .intro (fun m hm => h m (c.mentions_subset_allMentions hm)) fun s hs d hd => ?_
    exact ih s hs d hd fun m hm => h m (Clause.allMentions_subset_of_nested hs hd hm)

end Compile

end FactModel
