import FactModel.Proofs.Definition.Keeping
import FactModel.Proofs.Matching.Carrying
import FactModel.Proofs.Matching.Operations
set_option autoImplicit false

/-!
# Bindings while a fact type is defined

A definition tells the mentions of its clauses their roles and constraints, and edits a vocabulary
in which all types keep their names. So the mentions stay bound by their keys, and those of clauses
that have not been resolved yet are carried along.

## Main definitions

* `FactModel.Context.Sustains` — mentions have been carried along, and the context is bound.

## Main results

* `FactModel.Compile.defines_sustains` — the changes of definitions sustain bindings.
-/

namespace FactModel

open Attempt

namespace Context

variable {n : Nat} {x y : Context}

/-- The first so many mentions of a context have been carried along to another one, which is
bound. -/
structure Sustains (n : Nat) (x y : Context) : Prop where
  carries : x.Carries n y
  bound : y.Bound

instance : Trans (Sustains n) (Sustains n) (Sustains n) :=
  ⟨fun h h' => ⟨Trans.trans h.carries h'.carries, h'.bound⟩⟩

/-- What has been sustained is sustained further. -/
lemma Sustains.refl_right (h : x.Sustains n y) : y.Sustains n y :=
  ⟨h.carries.refl_right, h.bound⟩

/-- The vocabulary may change if types keep their names. -/
lemma Sustains.withVocabulary (h : x.Sustains n x) {v : Vocabulary}
    (hname : ∀ t, v.nameOf t = x.vocabulary.nameOf t) :
    x.Sustains n { x with vocabulary := v } where
  carries := ⟨h.carries.le_size, hname, fun _ _ => .refl _, h.carries.unmerged⟩
  bound := h.bound.withVocabulary hname

/-- A mention may be told its role, its place and its constraint. -/
lemma Sustains.mark (h : x.Sustains n x) (m : MentionId) {change : Mention → Mention}
    (hchange : Compile.IsMark change) : x.Sustains n (x.modifyMention m change) where
  carries := h.carries.modifyMention m fun _ => by
    obtain ⟨role, roleRef, presenceConstraint, heq⟩ := hchange (x.mention m)
    rw [heq]
    exact { Mention.Continues.refl (x.mention m) with }
  bound := by
    refine h.bound.modifyMention change (fun k => ?_) fun _ => bindingKey_congr (fun _ => rfl) ?_
    · obtain ⟨role, roleRef, presenceConstraint, heq⟩ := hchange k
      rw [heq]
    · obtain ⟨role, roleRef, presenceConstraint, heq⟩ := hchange (x.mention m)
      rw [mention_modifyMention]
      split
      · rw [heq]
      · rfl

end Context

namespace Compile

open Context

variable {n : Nat}

/-- An edit by which types keep their names sustains bindings. -/
lemma keeps_edit_sustains {α : Type} {change : Vocabulary.Edit α}
    (h : ∀ v, change.Leads (fun v w => ∀ t, w.nameOf t = v.nameOf t) v fun _ _ => True) :
    (edit change).Keeps (Sustains n) :=
  fun {x} hx => Leads.within (h x.vocabulary) (fun _ hname => hx.withVocabulary hname)
    fun _ _ _ _ => trivial

/-- Resolving a clause sustains the mentions there are. -/
lemma keeps_resolve_sustains (options : MatchOptions) (c : Clause) :
    (ofResolved (resolve options c)).Keeps (Sustains n) := by
  intro x hx
  have heverywhere : c.Everywhere fun _ => True := Clause.everywhere_of_forall (fun _ => trivial) c
  have hbound := (completes_bound options none).leads_resolve c hx.bound heverywhere
  have hcarries := (completes_carries options n none).leads_resolve c hx.carries heverywhere
  exact Ends.imp (Ends.and hcarries hbound) (fun _ y hy => ⟨⟨hy.1.1, hy.2.1⟩, trivial⟩)
    fun y hy => ⟨hy.1, hy.2⟩

/-- Making a fact type sustains the mentions there are. -/
lemma keeps_makeFactType_sustains (c : Clause) : (makeFactType c).Keeps (Sustains n) := by
  intro x hx
  have hQ : Composes fun change => change.Keeps (Sustains n) :=
    composes_keeps fun h => h.refl_right
  have hnew : (edit (Vocabulary.newFactType .plain)).Keeps (Sustains n) :=
    keeps_edit_sustains fun v => leads_extend (fun t => by
      rw [Vocabulary.nameOf, Vocabulary.objectType_pushFactType, Vocabulary.nameOf]) trivial
  have hrole : ∀ f player name, (edit (Vocabulary.addRole f player name)).Keeps (Sustains n) :=
    fun f player name => keeps_edit_sustains fun v => leads_extend (fun t =>
      Vocabulary.objectType_pushRole_apply ObjectType.name (fun _ _ => rfl) f player name t) trivial
  have hmake : ∀ f m, (makeRole f m).Keeps (Sustains n) := by
    intro f m x hx
    refine Leads.bind (leads_playerOf hx) fun player y _ hy => leads_get_bind ?_
    obtain ⟨rfl, -⟩ := hy
    refine Leads.bind (hrole f player _ hx) fun role z hz _ => leads_modify ?_ trivial
    exact hz.refl_right.mark m fun k => ⟨some role, k.roleRef, k.presenceConstraint, rfl⟩
  exact hQ.makeFactType hnew hmake c hx

/-- **The changes of definitions sustain bindings**: whatever clauses are declared, the mentions
that are there are carried along, and the context stays bound. -/
theorem defines_sustains (n : Nat) : Defines fun change => change.Keeps (Sustains n) where
  toComposes := composes_keeps fun h => h.refl_right
  look hnext x hx := leads_get_bind (hnext x hx)
  note m constraint _ hx :=
    leads_modify (hx.mark m fun k => ⟨k.role, k.roleRef, some constraint, rfl⟩) trivial
  mark m _ hchange _ hx := leads_modify (hx.mark m hchange) trivial
  roleSequence refs := keeps_edit_sustains fun v => by
    unfold Vocabulary.addRoleSequence
    exact leads_extend (fun _ => rfl) trivial
  presenceConstraint s min max enforcement := keeps_edit_sustains fun v => by
    unfold Vocabulary.addPresenceConstraint
    exact leads_extend (fun _ => rfl) trivial
  restriction c min max := keeps_edit_sustains fun v => by
    refine leads_get_bind ?_
    dsimp only
    split
    · exact leads_throw_bind fun _ => rfl
    split
    · exact leads_throw_bind fun _ => rfl
    · exact leads_set (fun _ => rfl) trivial
  ringConstraint r s kinds := keeps_edit_sustains fun v => by
    unfold Vocabulary.addRingConstraint
    exact leads_extend (fun _ => rfl) trivial
  resolve c := keeps_resolve_sustains _ c
  factType c := keeps_makeFactType_sustains c
  reading f s text isNegative := keeps_edit_sustains fun v => by
    refine leads_get_bind ?_
    split
    · exact leads_throw fun _ => rfl
    · exact leads_extend (fun _ => rfl) trivial
  roleName r name := keeps_edit_sustains fun v => by
    refine leads_get_bind ?_
    split
    · exact leads_set (fun _ => rfl) trivial
    · split
      · exact leads_pure (fun _ => rfl) trivial
      · exact leads_throw fun _ => rfl

end Compile

end FactModel
