import FactModel.Proofs.Context.Numbering
import FactModel.Proofs.Definition.Keeping
import FactModel.Proofs.Matching.Roles
set_option autoImplicit false

/-!
# Roles while a fact type is defined

Entering clauses gives no roles. A definition gives roles to the mentions of the clauses that state
its readings; those of other clauses are left without.

## Main definitions

* `FactModel.Context.RolesOnly` — only certain mentions have been given roles.

## Main results

* `FactModel.Compile.leads_enter_rolesOnly` — entering clauses gives no roles.
* `FactModel.Compile.ends_defineFactType_rolesOnly` — a definition gives roles to the mentions of
  its clauses only.
-/

namespace FactModel

open Attempt

/-- Only certain mentions have been given roles. -/
def Context.RolesOnly (may : MentionId → Prop) (x y : Context) : Prop :=
  ∀ m, ¬may m → (y.mention m).role = (x.mention m).role

open Context

variable {may : MentionId → Prop} {x y : Context}

instance : Trans (RolesOnly may) (RolesOnly may) (RolesOnly may) :=
  ⟨fun h h' m hm => (h' m hm).trans (h m hm)⟩

/-- A context that does not change gives no role. -/
lemma Context.RolesOnly.refl (x : Context) : x.RolesOnly may x :=
  fun _ _ => rfl

/-- A mention that may be given a role may change in any way. -/
lemma Context.rolesOnly_modifyMention {m : MentionId} (hm : may m) (change : Mention → Mention) :
    x.RolesOnly may (x.modifyMention m change) := by
  intro n hn
  have hne : ¬(n = m ∧ m.index < x.mentions.size) := fun h => hn (h.1 ▸ hm)
  rw [mention_modifyMention, if_neg hne]

/-- Any mention may be told something else than its role. -/
lemma Compile.leads_modifyMention_rolesOnly (x : Context) (m : MentionId)
    {change : Mention → Mention} (h : ∀ mention, (change mention).role = mention.role) :
    (modifyMention m change).Leads (RolesOnly may) x fun _ _ => True :=
  leads_modify (fun n _ => mention_modifyMention_apply Mention.role m h n) trivial

namespace Compile

/-- An edit of the vocabulary gives no role. -/
lemma keeps_edit_rolesOnly {α : Type} (change : Vocabulary.Edit α) :
    (edit change).Keeps (RolesOnly may) := by
  intro x _
  exact Leads.within (leads_true change x.vocabulary) (fun _ _ _ _ => rfl) fun _ _ _ _ => trivial

/-- Giving roles only to certain mentions composes. -/
lemma composes_rolesOnly : Composes fun change => change.Keeps (RolesOnly may) :=
  composes_keeps fun _ => .refl _

/-! ## Entering -/

/-- Taking in clauses gives no role. -/
lemma rolesOnly_adoptAll (clauses : List Script.Clause) (x : Context) :
    x.RolesOnly may (adoptAll clauses x).2 := by
  have hadopts := adopts_adoptAll clauses x
  generalize (adoptAll clauses x).2 = y at hadopts
  induction hadopts with
  | refl => exact .refl x
  | @pushMention y _ m ih =>
    intro n hn
    refine Eq.trans ?_ (ih n hn)
    rw [mention_pushMention]
    split
    · next heq =>
      have hdefault := mention_of_not_lt (x := y) (m := ⟨y.mentions.size⟩) (Nat.lt_irrefl _)
      rw [heq, hdefault]
      rfl
    · rfl

/-- Finding the object type of a term gives no role. -/
lemma leads_resolvePlayer_rolesOnly (term : String) (x : Context) :
    (resolvePlayer term).Leads (RolesOnly may) x fun _ _ => True := by
  refine leads_get_bind ?_
  split
  · exact leads_pure (.refl x) trivial
  · split
    · exact leads_pure (.refl x) trivial
    · split
      · exact Leads.bind (keeps_edit_rolesOnly (Vocabulary.addForwardEntityType term) (.refl x))
          fun _ y _ _ => leads_pure (.refl y) trivial
      · exact leads_throw (.refl x)

/-- Entering clauses gives no roles. -/
theorem leads_enter_rolesOnly (clauses : List Script.Clause) (x : Context) :
    (enter clauses).Leads (RolesOnly may) x fun cs _ => cs = (adoptAll clauses x).1 := by
  refine leads_enter_of_keeps (fun _ => .refl _) (rolesOnly_adoptAll clauses x) (fun m name => ?_)
    (fun m => ?_) fun m => ?_
  · intro y _
    refine leads_get_bind ?_
    dsimp only
    split
    · exact leads_throw_bind (.refl y)
    · refine Leads.bind (leads_resolvePlayer_rolesOnly _ y) fun player z _ _ => ?_
      exact leads_modify_bind (fun _ _ => rfl)
        (leads_modifyMention_rolesOnly _ m fun _ => rfl)
  · intro y _
    refine leads_get_bind (Leads.bind (leads_resolvePlayer_rolesOnly _ y) fun player z _ _ => ?_)
    exact leads_modifyMention_rolesOnly _ m fun _ => rfl
  · intro y _
    refine Leads.bind (leads_playerOf (.refl y)) fun player z _ hz => ?_
    obtain ⟨rfl, -⟩ := hz
    exact ⟨fun n _ => mention_bindAs_apply Mention.role (fun _ _ => rfl) m player n, trivial⟩

/-! ## Defining -/

/-- Embedding constraints gives no role. -/
lemma embeds_rolesOnly : Embeds fun change => change.Keeps (RolesOnly may) where
  toComposes := composes_rolesOnly
  look hnext x hx := leads_get_bind (hnext x hx)
  note m _ x _ := leads_modifyMention_rolesOnly x m fun _ => rfl
  roleSequence refs := keeps_edit_rolesOnly (Vocabulary.addRoleSequence refs)
  presenceConstraint s min max enforcement :=
    keeps_edit_rolesOnly (Vocabulary.addPresenceConstraint s min max enforcement)
  restriction c min max := keeps_edit_rolesOnly (Vocabulary.restrictPresenceConstraint c min max)
  ringConstraint r s kinds := keeps_edit_rolesOnly (Vocabulary.addRingConstraint r s kinds)

/-- Making a fact type gives roles only to the mentions of its clause. -/
lemma leads_makeFactType_rolesOnly {c : Clause} (hc : ∀ m ∈ c.mentions, may m) (x : Context) :
    (makeFactType c).Leads (RolesOnly may) x fun r _ => r.2.mentions = c.mentions := by
  refine Leads.bind (keeps_edit_rolesOnly (Vocabulary.newFactType .plain) (.refl x))
    fun f y _ _ => ?_
  refine Leads.bind (Leads.forM (.refl y) fun m hm z _ => ?_) fun _ z _ _ =>
    leads_pure (.refl z) rfl
  refine Leads.bind (leads_playerOf (.refl z)) fun player z' _ _ => leads_get_bind ?_
  refine Leads.bind (keeps_edit_rolesOnly (Vocabulary.addRole f player _) (.refl z'))
    fun role w _ _ => ?_
  exact leads_modify (rolesOnly_modifyMention (hc m hm) _) (.refl _)

/-- Placing mentions gives no role. -/
lemma keeps_placeMentions_rolesOnly (s : RoleSequenceId) (ms : List MentionId) :
    (placeMentions s ms).Keeps (RolesOnly may) := by
  unfold placeMentions
  refine composes_rolesOnly.forM (fun p => ?_) _
  intro y _
  exact leads_modifyMention_rolesOnly y p.1 fun _ => rfl

/-- Making a reading gives roles only to the mentions of its clause. -/
lemma leads_makeReading_rolesOnly {c : Clause} (hc : ∀ m ∈ c.mentions, may m) (f : FactTypeId)
    (x : Context) : (makeReading c f).Leads (RolesOnly may) x fun _ _ => True := by
  refine leads_get_bind (leads_ofExcept_bind (.refl x) fun parts _ => ?_)
  refine Leads.bind (keeps_edit_rolesOnly (Vocabulary.addRoleSequence _) (.refl x))
    fun s y _ _ => ?_
  refine Leads.bind (keeps_edit_rolesOnly (Vocabulary.addReading f s _ _) (.refl y))
    fun r z _ _ => ?_
  refine Leads.bind (Leads.forM (.refl z) fun p hp w _ => ?_) fun _ w _ _ => ?_
  · exact leads_modify (rolesOnly_modifyMention (hc p.1 (List.of_mem_zip hp).1) _) (.refl _)
  · exact Leads.bind (keeps_placeMentions_rolesOnly s c.mentions (.refl w)) fun _ u _ _ =>
      leads_pure (.refl u) trivial

/-- Naming a role gives no role to a mention. -/
lemma keeps_nameMatchedRole_rolesOnly (m : MentionId) :
    (nameMatchedRole m).Keeps (RolesOnly may) := by
  intro y _
  refine leads_get_bind ?_
  dsimp only
  split
  · exact keeps_edit_rolesOnly (Vocabulary.nameRole _ _) (.refl y)
  · exact leads_pure (.refl y) trivial

/-- Adjusting a clause to a reading gives no role. -/
lemma leads_adjust_rolesOnly (c : Clause) (x : Context) :
    (adjust c).Leads (RolesOnly may) x fun _ _ => True := by
  unfold adjust
  split
  · exact leads_pure (.refl x) trivial
  refine Leads.bind (composes_rolesOnly.forM keeps_nameMatchedRole_rolesOnly c.mentions (.refl x))
    fun _ y _ _ => leads_get_bind ?_
  split
  · exact leads_pure (.refl y) trivial
  refine leads_ofExcept_bind (.refl y) fun refs _ => ?_
  refine Leads.bind (keeps_edit_rolesOnly (Vocabulary.addRoleSequence refs) (.refl y))
    fun s z _ _ => ?_
  exact Leads.bind (keeps_placeMentions_rolesOnly s c.mentions (.refl z)) fun _ w _ _ =>
    leads_pure (.refl w) trivial

/-- Stating readings gives roles only to the mentions of the clauses that become readings. -/
lemma leads_stateReadings_rolesOnly {cs : List Clause}
    (hcs : ∀ c ∈ cs, c.reading = none → ∀ m ∈ c.mentions, may m) (f : FactTypeId) (x : Context) :
    (stateReadings f cs).Leads (RolesOnly may) x fun _ _ => True := by
  induction cs generalizing x with
  | nil => exact leads_pure (.refl x) trivial
  | cons c cs ih =>
    have hfirst : (if c.reading.isSome then adjust c else (·.2) <$> makeReading c f).Leads
        (RolesOnly may) x fun _ _ => True := by
      split
      · exact leads_adjust_rolesOnly c x
      · next hreading =>
        exact Leads.map (leads_makeReading_rolesOnly
          (hcs c List.mem_cons_self (Option.not_isSome_iff_eq_none.1 hreading)) f x)
    have hrest := ih fun d hd => hcs d (List.mem_cons_of_mem c hd)
    unfold stateReadings
    split
    · next hreading =>
      rw [if_pos hreading] at hfirst
      exact Leads.bind hfirst fun _ y _ _ => Leads.bind (hrest y) fun _ z _ _ =>
        leads_pure (.refl z) trivial
    · next hreading =>
      rw [if_neg hreading] at hfirst
      exact Leads.bind hfirst fun _ y _ _ => Leads.bind (hrest y) fun _ z _ _ =>
        leads_pure (.refl z) trivial

/-- Finding or making the fact type of clauses gives roles only to their mentions. -/
lemma leads_statedFactType_rolesOnly {cs : List Clause}
    (hcs : ∀ c ∈ cs, ∀ m ∈ c.mentions, may m) (x : Context) :
    (statedFactType cs).Leads (RolesOnly may) x fun r _ =>
      ∀ c ∈ r.2.2, ∀ m ∈ c.mentions, may m := by
  unfold statedFactType
  split
  · exact leads_pure (.refl x) hcs
  · next first others _ =>
    refine Leads.bind (leads_makeFactType_rolesOnly (hcs first List.mem_cons_self) x)
      fun r y _ hr => leads_pure (.refl y) fun c hc => ?_
    rcases List.mem_cons.1 hc with rfl | hc
    · rw [hr]
      exact hcs first List.mem_cons_self
    · exact hcs c (List.mem_cons_of_mem first hc)
  · exact leads_throw (.refl x)
  · exact leads_get_bind (leads_throw (.refl x))

/-- A clause that states a reading is resolved by giving roles to its own mentions. -/
lemma ends_resolveStated_rolesOnly {c : Clause} (hx : x.Valid) (hc : c.Everywhere x.Fits)
    (hnone : c.factType = none) (hnodup : c.allMentions.Nodup) :
    (resolveStated c).Ends x (fun d y => x.GivesRoles (· ∈ c.allMentions) y ∧ c.KeepsMentions d)
      fun _ => True := by
  unfold resolveStated
  split
  · exact ends_bind.2 (ends_get.2 (ends_bind.2 trivial))
  · refine ends_bind.2 ((Ends.and (ends_resolve_fits { exactTypes := true } c hx hc hnone hnodup)
      (ends_resolve_keepsMentions _ c x)).imp ?_ fun _ _ => trivial)
    rintro r y ⟨⟨hgives, -⟩, hkeeps⟩
    exact ⟨hgives, hkeeps⟩

/-- Clauses that state readings are resolved one after the other, each giving roles to its own
mentions. -/
lemma ends_resolveAllStated_rolesOnly {cs : List Clause} (hx : x.Valid)
    (hcs : ∀ c ∈ cs, c.Everywhere x.Fits) (hnone : ∀ c ∈ cs, c.factType = none)
    (hnodup : (allMentions cs).Nodup) :
    (resolveAllStated cs).Ends x (fun ds y => x.GivesRoles (· ∈ allMentions cs) y ∧
      allMentions ds = allMentions cs) fun _ => True := by
  induction cs generalizing x with
  | nil => exact ⟨hx.givesRoles _, rfl⟩
  | cons c cs ih =>
    rw [allMentions_cons, List.nodup_append'] at hnodup
    rw [allMentions_cons]
    refine ends_bind.2 ((ends_resolveStated_rolesOnly hx (hcs c List.mem_cons_self)
      (hnone c List.mem_cons_self) hnodup.1).imp ?_ fun _ => id)
    rintro d y ⟨hgives, hkeeps⟩
    have hrest : ∀ e ∈ cs, e.Everywhere y.Fits := fun e he =>
      hgives.everywhere_fits hx (hcs e (List.mem_cons_of_mem c he)) fun m hm hmem =>
        hnodup.2.2 hmem (allMentions_eq cs ▸ List.mem_flatMap.2 ⟨e, he, hm⟩)
    refine ends_bind.2 ((ih hgives.valid hrest (fun e he => hnone e (List.mem_cons_of_mem c he))
      hnodup.2.1).imp ?_ fun _ => id)
    rintro ds z ⟨hgives', hds⟩
    exact ⟨hgives.append hgives', by rw [allMentions_cons, hkeeps.allMentions_eq, hds]⟩

/-- **A definition gives roles to the mentions of its own clauses only.** Mentions of other clauses
keep the roles that they have. -/
theorem ends_defineFactType_rolesOnly {cs : List Clause} (hx : x.Valid)
    (hcs : ∀ c ∈ cs, c.Everywhere x.Fits) (hnone : ∀ c ∈ cs, c.factType = none)
    (hnodup : (allMentions cs).Nodup) :
    (defineFactType cs).Ends x (fun _ y => x.RolesOnly (· ∈ allMentions cs) y) fun _ => True := by
  refine ends_bind.2 ((ends_resolveAllStated_rolesOnly hx hcs hnone hnodup).imp ?_ fun _ => id)
  rintro ds y ⟨hgives, hds⟩
  have hmay : ∀ d ∈ ds, ∀ m ∈ d.mentions, m ∈ allMentions cs := fun d hd m hm => by
    rw [← hds, allMentions_eq]
    exact List.mem_flatMap.2 ⟨d, hd, d.mentions_subset_allMentions hm⟩
  have hrest : (do
      let r ← statedFactType ds
      let clauses ← stateReadings r.1 r.2.2
      clauses.forM fun c => do
        let _ ← embedPresenceConstraints c
        let _ ← embedRingConstraint c
      pure (r.1, r.2.1, clauses) : Compile (FactTypeId × Bool × List Clause)).Leads
        (RolesOnly (· ∈ allMentions cs)) y fun _ _ => True := by
    refine Leads.bind (leads_statedFactType_rolesOnly hmay y) fun r z _ hr => ?_
    refine Leads.bind (leads_stateReadings_rolesOnly (fun c hc _ => hr c hc) r.1 z)
      fun es w _ _ => ?_
    exact Leads.bind (embeds_rolesOnly.embed es (.refl w)) fun _ u _ _ =>
      leads_pure (.refl u) trivial
  exact Ends.imp hrest (fun _ z hz m hm => (hz.1 m hm).trans (hgives.role_eq m hm))
    fun _ _ => trivial

end Compile

end FactModel
