import FactModel.Proofs.Context.Adoption
import FactModel.Proofs.Context.Entering
import FactModel.Proofs.Context.Lookup
import FactModel.Proofs.Vocabulary.Edits
import FactModel.Session
set_option autoImplicit false

/-!
# Valid contexts

A context refers to constructs of its vocabulary: mentions to their players and roles, bindings and
role names to players. In a valid context the vocabulary is consistent and these constructs exist.

## Main definitions

* `FactModel.Context.Valid` — a consistent vocabulary, and references to what exists in it.
* `FactModel.Context.Extends` — one context has become another, which is valid.
* `FactModel.Clause.InRange`, `FactModel.Clause.Valid` — a clause that invokes what exists in a
  vocabulary.

## Main results

* `FactModel.Compile.leads_edit` — an edit of the vocabulary keeps the context valid.
* `FactModel.Compile.leads_enter` — so does entering clauses.
-/

namespace FactModel

open Attempt

/-- The vocabulary is consistent, and the players and roles that mentions, bindings and role names
refer to exist in it. -/
structure Context.Valid (x : Context) : Prop where
  consistent : x.vocabulary.Consistent
  player_mem : ∀ m, ∀ t ∈ (x.mention m).player, t ∈ x.vocabulary.objectTypeIds
  role_mem : ∀ m, ∀ r ∈ (x.mention m).role, r ∈ x.vocabulary.roleIds
  binding_mem : ∀ b, ∀ B ∈ x.binding? b, B.player ∈ x.vocabulary.objectTypeIds
  roleName_mem : ∀ p ∈ x.roleNamePlayers, p.2 ∈ x.vocabulary.objectTypeIds

/-- One context has become another, which is valid. The vocabulary has only grown. -/
structure Context.Extends (x y : Context) : Prop where
  grows : x.vocabulary.Grows y.vocabulary
  valid : y.Valid

/-- A clause of plain words whose reading and role sequence exist in a vocabulary. -/
structure Clause.InRange (v : Vocabulary) (c : Clause) : Prop where
  isPlain : ∀ p ∈ c.phrases, p.IsPlain
  reading_mem : ∀ r ∈ c.reading, r ∈ v.readingIds
  roleSequence_mem : ∀ s ∈ c.roleSequence, s ∈ v.roleSequenceIds

/-- A clause that invokes what exists in a vocabulary. If it invokes a fact type, it has
mentions. -/
structure Clause.Valid (v : Vocabulary) (c : Clause) : Prop extends c.InRange v where
  factType_mem : ∀ f ∈ c.factType, f ∈ v.factTypeIds
  mentions_ne_nil : ∀ f ∈ c.factType, c.mentions ≠ []

/-! ## Clauses -/

namespace Clause

variable {v w : Vocabulary} {c : Clause}

/-- A clause of which only the text is known is valid over any vocabulary. -/
lemma IsAdopted.valid (h : c.IsAdopted) (v : Vocabulary) : c.Valid v where
  isPlain := h.isPlain
  factType_mem f hf := by rw [h.factType_eq] at hf; cases hf
  mentions_ne_nil f hf := by rw [h.factType_eq] at hf; cases hf
  reading_mem r hr := by rw [h.reading_eq] at hr; cases hr
  roleSequence_mem s hs := by rw [h.roleSequence_eq] at hs; cases hs

/-- What a clause refers to exists in a vocabulary that has grown. -/
lemma InRange.grows (h : c.InRange v) (hvw : v.Grows w) : c.InRange w where
  isPlain := h.isPlain
  reading_mem r hr := hvw.mem_readingIds (h.reading_mem r hr)
  roleSequence_mem s hs := hvw.mem_roleSequenceIds (h.roleSequence_mem s hs)

/-- A valid clause is valid over a vocabulary that has grown. -/
lemma Valid.grows (h : c.Valid v) (hvw : v.Grows w) : c.Valid w where
  toInRange := h.toInRange.grows hvw
  factType_mem f hf := hvw.mem_factTypeIds (h.factType_mem f hf)
  mentions_ne_nil := h.mentions_ne_nil

/-- The phrases of a clause may change if they keep its mentions and are plain. -/
lemma Valid.withPhrases (h : c.Valid v) {phrases : List Phrase} (hplain : ∀ p ∈ phrases, p.IsPlain)
    (hmentions : c.mentions ≠ [] → phrases.flatMap Phrase.slots ≠ []) :
    Valid v { c with phrases } :=
  { h with
    isPlain := hplain
    mentions_ne_nil := fun f hf hnil =>
      hmentions (h.mentions_ne_nil f hf) (List.map_eq_nil_iff.1 hnil) }

end Clause

/-! ## Contexts -/

namespace Context

variable {x y : Context}

/-- A valid context extends itself. -/
lemma Valid.extends (h : x.Valid) : x.Extends x :=
  ⟨.refl _, h⟩

instance : Trans Extends Extends Extends where
  trans h h' := ⟨h.grows.trans h'.grows, h'.valid⟩

/-- The context of a declaration over a consistent vocabulary is valid. -/
lemma valid_declaration {v : Vocabulary} (hv : v.Consistent) (forwardTerms : List String) :
    ({ vocabulary := v, forwardTerms } : Context).Valid where
  consistent := hv
  player_mem _ _ ht := nomatch ht
  role_mem _ _ hr := nomatch hr
  binding_mem _ _ hB := nomatch hB
  roleName_mem _ hp := nomatch hp

/-- The vocabulary may grow if it stays consistent. -/
lemma Valid.withVocabulary (h : x.Valid) {v : Vocabulary} (hv : x.vocabulary.Extends v) :
    x.Extends { x with vocabulary := v } where
  grows := hv.grows
  valid :=
    { consistent := hv.consistent
      player_mem := fun m t ht => hv.grows.mem_objectTypeIds (h.player_mem m t ht)
      role_mem := fun m r hr => hv.grows.mem_roleIds (h.role_mem m r hr)
      binding_mem := fun b B hB => hv.grows.mem_objectTypeIds (h.binding_mem b B hB)
      roleName_mem := fun p hp => hv.grows.mem_objectTypeIds (h.roleName_mem p hp) }

/-- A mention may change if its player and its role still exist. -/
lemma Valid.modifyMention (h : x.Valid) (m : MentionId) (change : Mention → Mention)
    (hplayer : ∀ t ∈ (change (x.mention m)).player, t ∈ x.vocabulary.objectTypeIds)
    (hrole : ∀ r ∈ (change (x.mention m)).role, r ∈ x.vocabulary.roleIds) :
    x.Extends (x.modifyMention m change) where
  grows := .refl _
  valid :=
    { h with
      player_mem := fun n t ht => by
        rw [mention_modifyMention] at ht
        split at ht
        · exact hplayer t ht
        · exact h.player_mem n t ht
      role_mem := fun n r hr => by
        rw [mention_modifyMention] at hr
        split at hr
        · exact hrole r hr
        · exact h.role_mem n r hr }

/-- A mention may be added if its player and its role exist. -/
lemma Valid.pushMention (h : x.Valid) (mention : Mention)
    (hplayer : ∀ t ∈ mention.player, t ∈ x.vocabulary.objectTypeIds)
    (hrole : ∀ r ∈ mention.role, r ∈ x.vocabulary.roleIds) :
    x.Extends (x.pushMention mention) where
  grows := .refl _
  valid :=
    { h with
      player_mem := fun n t ht => by
        rw [mention_pushMention] at ht
        split at ht
        · exact hplayer t ht
        · exact h.player_mem n t ht
      role_mem := fun n r hr => by
        rw [mention_pushMention] at hr
        split at hr
        · exact hrole r hr
        · exact h.role_mem n r hr }

/-- Taking in clauses extends a valid context. -/
lemma Valid.of_adopts (h : x.Valid) (hxy : x.Adopts y) : x.Extends y := by
  induction hxy with
  | refl => exact h.extends
  | pushMention _ m ih =>
    exact Trans.trans ih (ih.valid.pushMention _ (fun _ ht => nomatch ht) fun _ hr => nomatch hr)

/-- The bindings may change if their players are players of bindings before or exist. -/
lemma Valid.of_bindings (h : x.Valid) (hv : y.vocabulary = x.vocabulary)
    (hplayer : ∀ m, (y.mention m).player = (x.mention m).player)
    (hrole : ∀ m, (y.mention m).role = (x.mention m).role)
    (hnames : y.roleNamePlayers = x.roleNamePlayers)
    (hbinding : ∀ b, ∀ B ∈ y.binding? b, B.player ∈ x.vocabulary.objectTypeIds) :
    x.Extends y where
  grows := hv ▸ .refl _
  valid :=
    { consistent := hv ▸ h.consistent
      player_mem := fun m t ht => hv ▸ h.player_mem m t (hplayer m ▸ ht)
      role_mem := fun m r hr => hv ▸ h.role_mem m r (hrole m ▸ hr)
      binding_mem := fun b B hB => hv ▸ hbinding b B hB
      roleName_mem := fun p hp => hv ▸ h.roleName_mem p (hnames ▸ hp) }

/-- The players of bindings stay if a binding is changed otherwise. -/
lemma Valid.player_modifyBinding (h : x.Valid) (b : BindingId) {change : Binding → Binding}
    (hchange : ∀ B, (change B).player = B.player) :
    ∀ c, ∀ C ∈ (x.modifyBinding b change).binding? c, C.player ∈ x.vocabulary.objectTypeIds := by
  intro c C hC
  rw [binding?_modifyBinding] at hC
  split at hC
  · obtain ⟨B, hB, rfl⟩ := Option.map_eq_some_iff.1 hC
    rw [hchange]
    exact h.binding_mem b B hB
  · exact h.binding_mem c C hC

/-- A change of a binding that keeps its player extends a valid context. -/
lemma Valid.modifyBinding (h : x.Valid) (b : BindingId) {change : Binding → Binding}
    (hchange : ∀ B, (change B).player = B.player) : x.Extends (x.modifyBinding b change) :=
  h.of_bindings rfl (fun _ => rfl) (fun _ => rfl) rfl (h.player_modifyBinding b hchange)

/-- A new binding of a player that exists extends a valid context. -/
lemma Valid.pushBinding (h : x.Valid) (key : BindingKey) {player : ObjectTypeId}
    (hplayer : player ∈ x.vocabulary.objectTypeIds) (literal : Option Literal) :
    x.Extends (x.pushBinding key player literal) := by
  refine h.of_bindings rfl (fun _ => rfl) (fun _ => rfl) rfl fun c C hC => ?_
  rw [binding?_pushBinding] at hC
  split at hC
  · cases hC
    exact hplayer
  · exact h.binding_mem c C hC

/-- Adding a mention to a binding extends a valid context. -/
lemma Valid.enlist (h : x.Valid) (m : MentionId) (b : BindingId) : x.Extends (x.enlist m b) := by
  have hbinding : x.Extends (x.modifyBinding b fun B =>
      if m ∈ B.mentions then B else { B with mentions := B.mentions ++ [m] }) :=
    h.modifyBinding b fun B => by split <;> rfl
  exact Trans.trans hbinding (hbinding.valid.modifyMention m _ (h.player_mem m) (h.role_mem m))

/-- Binding a mention extends a valid context. -/
lemma Valid.bindAs (h : x.Valid) (m : MentionId) {player : ObjectTypeId}
    (hplayer : player ∈ x.vocabulary.objectTypeIds) : x.Extends (x.bindAs m player).2 := by
  rw [Context.bindAs]
  split
  · exact h.enlist m _
  · have hpush := h.pushBinding (x.bindingKey m) hplayer (x.mention m).literal
    exact Trans.trans hpush (hpush.valid.enlist m _)

/-- Striking a mention from a binding extends a valid context. -/
lemma Valid.strike (h : x.Valid) (m : MentionId) (b : BindingId) : x.Extends (x.strike m b) := by
  rw [Context.strike]
  split
  · exact h.extends
  · dsimp only
    split
    · refine h.of_bindings rfl (fun _ => rfl) (fun _ => rfl) rfl fun c C hC => ?_
      rw [binding?_dropBinding] at hC
      split at hC
      · cases hC
      · exact h.binding_mem c C hC
    · exact h.modifyBinding b fun _ => rfl

/-- Taking a mention out of its binding extends a valid context. -/
lemma Valid.unbind (h : x.Valid) (m : MentionId) : x.Extends (x.unbind m) := by
  rw [Context.unbind]
  split
  · exact h.extends
  · have hmention := h.modifyMention m ({ · with binding := none }) (h.player_mem m) (h.role_mem m)
    exact Trans.trans hmention (hmention.valid.strike m _)

/-- Merging loose bindings extends a valid context. -/
lemma Valid.mergeLoose (h : x.Valid) : x.Extends x.mergeLoose := by
  refine List.foldlRecOn _ _ h.extends fun y hy b _ => ?_
  have hmerge : y.Extends (y.mergeBinding b) := ?_
  · exact Trans.trans hy hmerge
  rw [mergeBinding]
  split
  · exact hy.valid.extends
  · split
    · exact hy.valid.modifyBinding b fun _ => rfl
    · exact hy.valid.extends

end Context

open Context

namespace Compile

variable {α : Type} {x : Context}

/-! ## Elementary changes -/

/-- An edit of the vocabulary keeps a context valid if it extends the vocabulary. -/
lemma leads_edit (h : x.Valid) {edit : Vocabulary.Edit α} {post : α → Vocabulary → Prop}
    (hedit : edit.Leads Vocabulary.Extends x.vocabulary post) :
    (Compile.edit edit).Leads Extends x fun a y => post a y.vocabulary :=
  Leads.within hedit (fun _ hv => h.withVocabulary hv) fun _ _ _ ha => ha

/-- A change of a mention that refers to what exists extends a valid context. -/
lemma leads_modifyMention (h : x.Valid) (m : MentionId) (change : Mention → Mention)
    (hplayer : ∀ t ∈ (change (x.mention m)).player, t ∈ x.vocabulary.objectTypeIds)
    (hrole : ∀ r ∈ (change (x.mention m)).role, r ∈ x.vocabulary.roleIds) :
    (modifyMention m change).Leads Extends x fun _ _ => True :=
  leads_modify (h.modifyMention m change hplayer hrole) trivial

/-- The player that is found for a mention exists. -/
lemma leads_playerOf_mem (h : x.Valid) (m : MentionId) :
    (playerOf m).Leads Extends x fun player y => player ∈ y.vocabulary.objectTypeIds := by
  refine leads_get_bind (leads_ofExcept h.extends fun player hplayer => h.player_mem m player ?_)
  unfold Context.playerOf at hplayer
  split at hplayer
  · next hsome =>
    cases hplayer
    exact hsome
  · cases hplayer

/-- Binding a mention extends a valid context, if it can be bound. -/
lemma leads_bind (h : x.Valid) (m : MentionId) :
    (Compile.bind m).Leads Extends x fun _ _ => True := by
  refine Leads.bind (leads_playerOf_mem h m) fun player y hy hplayer => ?_
  exact ⟨hy.valid.bindAs m hplayer, trivial⟩

/-- Binding a mention anew extends a valid context. -/
lemma leads_rebind (h : x.Valid) (m : MentionId) :
    (rebind m).Leads Extends x fun _ _ => True :=
  leads_modify_bind (h.unbind m) (leads_bind (h.unbind m).valid m)

/-! ## Players -/

/-- The object type of a term exists once it has been found or added. -/
lemma leads_resolvePlayer (h : x.Valid) (term : String) :
    (resolvePlayer term).Leads Extends x fun player y =>
      player.1 ∈ y.vocabulary.objectTypeIds := by
  refine leads_get_bind ?_
  split
  · next player hplayer =>
    exact leads_pure h.extends (h.consistent.mem_of_findObjectType? hplayer)
  · split
    · next player hplayer =>
      refine leads_pure h.extends ?_
      obtain ⟨before, after, heq, -⟩ := List.lookup_eq_some_iff.1 hplayer
      exact h.roleName_mem (term, player) (heq ▸ by simp)
    · split
      · refine Leads.bind (leads_edit h (Vocabulary.leads_addForwardEntityType h.consistent term))
          fun player y hy hplayer => leads_pure hy.valid.extends hplayer
      · exact leads_throw h.extends

/-- Finding the player of a mention that declares a role name extends a valid context. -/
lemma leads_identifyDeclaring (h : x.Valid) (m : MentionId) (roleName : String) :
    (identifyDeclaring m roleName).Leads Extends x fun _ _ => True := by
  refine leads_get_bind ?_
  dsimp only
  split
  · exact leads_throw_bind h.extends
  · refine Leads.bind (leads_resolvePlayer h _) fun player y hy hplayer => ?_
    have hname : y.Extends { y with roleNamePlayers :=
        (roleName, player.1) :: y.roleNamePlayers } := by
      refine ⟨.refl _, { hy.valid with roleName_mem := fun p hp => ?_ }⟩
      rcases List.mem_cons.1 hp with rfl | hp
      · exact hplayer
      · exact hy.valid.roleName_mem p hp
    refine leads_modify_bind hname (leads_modifyMention hname.valid m _ ?_ (hname.valid.role_mem m))
    rintro t ⟨⟩
    exact hplayer

/-- Finding the player of another mention extends a valid context. -/
lemma leads_identifyPlain (h : x.Valid) (m : MentionId) :
    (identifyPlain m).Leads Extends x fun _ _ => True := by
  refine leads_get_bind (Leads.bind (leads_resolvePlayer h _) fun player y hy hplayer => ?_)
  refine leads_modifyMention hy.valid m _ ?_ (hy.valid.role_mem m)
  rintro t ⟨⟩
  exact hplayer

/-- Entering clauses keeps a context valid, and yields them as they were taken into it. -/
theorem leads_enter (h : x.Valid) (clauses : List Script.Clause) :
    (enter clauses).Leads Extends x fun cs _ => cs = (adoptAll clauses x).1 :=
  leads_enter_of_keeps (fun hz => hz.valid.extends) (h.of_adopts (adopts_adoptAll clauses x))
    (fun m name _ hy => leads_identifyDeclaring hy.valid m name)
    (fun m _ hy => leads_identifyPlain hy.valid m) fun m _ hy => leads_bind hy.valid m

/-- Of plain clauses that are entered nothing but the text is known, at every depth. -/
lemma leads_enter_isAdopted (h : x.Valid) {clauses : List Script.Clause}
    (hplain : Script.ArePlain clauses) :
    (enter clauses).Leads Extends x fun cs _ => ∀ c ∈ cs, c.Everywhere Clause.IsAdopted :=
  (leads_enter h clauses).imp fun _ _ _ hcs => hcs ▸ isAdopted_adoptAll clauses x hplain

end Compile

end FactModel
