import FactModel.Proofs.Context.Adoption
import FactModel.Proofs.Context.Entering
import FactModel.Proofs.Matching.Completion
import FactModel.Session
set_option autoImplicit false

/-!
# The vocabulary while clauses are resolved

Binding, matching and merging are changes of mentions and bindings. Of the vocabulary they change
nothing, apart from the terms used before they are declared and the fact types of comparisons. So
whatever relation of vocabularies these two edits keep, entering and resolving clauses keeps.

## Main definitions

* `FactModel.Context.Through` — a relation of the vocabularies of two contexts.

## Main results

* `FactModel.Compile.leads_enter_through` — what entering clauses keeps.
* `FactModel.Compile.completes_through` — what resolving and completing a clause keeps.
-/

namespace FactModel

open Attempt

/-! ## Contexts through their vocabularies -/

namespace Context

/-- The vocabularies of two contexts are related. -/
def Through (R : Vocabulary → Vocabulary → Prop) (x y : Context) : Prop :=
  R x.vocabulary y.vocabulary

instance {R : Vocabulary → Vocabulary → Prop} [Trans R R R] :
    Trans (Through R) (Through R) (Through R) :=
  ⟨fun h h' => Trans.trans (r := R) (s := R) (t := R) h h'⟩

variable {x y : Context}

/-- Binding a mention leaves the vocabulary as it is. -/
lemma vocabulary_bindAs (x : Context) (m : MentionId) (player : ObjectTypeId) :
    (x.bindAs m player).2.vocabulary = x.vocabulary := by
  unfold bindAs
  split <;> rfl

/-- Taking a mention out of its binding leaves the vocabulary as it is. -/
lemma vocabulary_unbind (x : Context) (m : MentionId) :
    (x.unbind m).vocabulary = x.vocabulary := by
  unfold unbind
  split
  · rfl
  · unfold strike
    split
    · rfl
    · dsimp only
      split <;> rfl

/-- Merging a binding leaves the vocabulary as it is. -/
lemma vocabulary_mergeBinding (x : Context) (b : BindingId) :
    (x.mergeBinding b).vocabulary = x.vocabulary := by
  unfold mergeBinding
  split
  · rfl
  · split <;> rfl

/-- Merging loose bindings leaves the vocabulary as it is. -/
lemma vocabulary_mergeLoose (x : Context) : x.mergeLoose.vocabulary = x.vocabulary :=
  List.foldlRecOn (motive := fun y : Context => y.vocabulary = x.vocabulary) x.looseBindings _ rfl
    fun y hy b _ => (y.vocabulary_mergeBinding b).trans hy

/-- Taking in clauses leaves the vocabulary as it is. -/
lemma Adopts.vocabulary_eq (h : x.Adopts y) : y.vocabulary = x.vocabulary := by
  induction h with
  | refl => rfl
  | pushMention _ _ ih => exact ih

end Context

namespace Compile

open Context

variable {R : Vocabulary → Vocabulary → Prop} {α : Type} {x y : Context}

/-- What an edit keeps it keeps in a context. -/
lemma leads_edit_through {edit : Vocabulary.Edit α}
    (h : edit.Leads R x.vocabulary fun _ _ => True) :
    (Compile.edit edit).Leads (Through R) x fun _ _ => True :=
  Leads.within h (fun _ hv => hv) fun _ _ _ _ => trivial

variable (hrefl : ∀ v, R v v)

include hrefl

/-- A vocabulary that stays is related to itself. -/
lemma through_of_eq (h : y.vocabulary = x.vocabulary) : Through R x y := by
  unfold Through
  rw [h]
  exact hrefl _

/-- The vocabulary of a context is related to itself. -/
lemma through_refl (x : Context) : Through R x x :=
  hrefl _

/-- Asking for a player does nothing to the vocabulary. -/
lemma leads_playerOf_through (m : MentionId) (x : Context) :
    (playerOf m).Leads (Through R) x fun _ _ => True :=
  leads_get_bind (leads_ofExcept (through_refl hrefl x) fun _ _ => trivial)

variable [Trans R R R]

/-! ## Bindings -/

/-- Binding a mention does nothing to the vocabulary. -/
lemma leads_bind_through (m : MentionId) (x : Context) :
    (Compile.bind m).Leads (Through R) x fun _ _ => True := by
  refine Leads.bind (leads_playerOf_through hrefl m x) fun player y _ _ => ?_
  exact ⟨through_of_eq hrefl (vocabulary_bindAs ..), trivial⟩

/-- Binding a mention anew does nothing to the vocabulary. -/
lemma leads_rebind_through (m : MentionId) (x : Context) :
    (rebind m).Leads (Through R) x fun _ _ => True :=
  leads_modify_bind (through_of_eq hrefl (vocabulary_unbind ..)) (leads_bind_through hrefl m _)

/-! ## Entering clauses -/

section Entering

variable (hforward : ∀ v name, (Vocabulary.addForwardEntityType name).Leads R v fun _ _ => True)

include hforward

/-- Finding the object type of a term does what adding one does. -/
lemma leads_resolvePlayer_through (term : String) (x : Context) :
    (resolvePlayer term).Leads (Through R) x fun _ _ => True := by
  refine leads_get_bind ?_
  split
  · exact leads_pure (hrefl _) trivial
  split
  · exact leads_pure (hrefl _) trivial
  split
  · exact Leads.bind (leads_edit_through (hforward _ _)) fun _ y _ _ =>
      leads_pure (hrefl _) trivial
  · exact leads_throw (hrefl _)

/-- Finding the player of a mention that declares a role name does what adding an object type
does. -/
lemma leads_identifyDeclaring_through (m : MentionId) (roleName : String) (x : Context) :
    (identifyDeclaring m roleName).Leads (Through R) x fun _ _ => True := by
  refine leads_get_bind ?_
  dsimp only
  split
  · exact leads_throw_bind (hrefl _)
  · refine Leads.bind (leads_resolvePlayer_through hrefl hforward _ x) fun _ y _ _ => ?_
    exact leads_modify_bind (hrefl _) (leads_modify (hrefl _) trivial)

/-- Finding the player of another mention does what adding an object type does. -/
lemma leads_identifyPlain_through (m : MentionId) (x : Context) :
    (identifyPlain m).Leads (Through R) x fun _ _ => True := by
  refine leads_get_bind ?_
  exact Leads.bind (leads_resolvePlayer_through hrefl hforward _ x) fun _ y _ _ =>
    leads_modify (hrefl _) trivial

/-- Entering clauses keeps what the terms used before their declaration keep. -/
theorem leads_enter_through (clauses : List Script.Clause) (x : Context) :
    (enter clauses).Leads (Through R) x fun _ _ => True :=
  (leads_enter_of_keeps (fun _ => through_refl hrefl _)
    (through_of_eq hrefl (adopts_adoptAll clauses x).vocabulary_eq)
    (fun m name y _ => leads_identifyDeclaring_through hrefl hforward m name y)
    (fun m y _ => leads_identifyPlain_through hrefl hforward m y)
    fun m y _ => leads_bind_through hrefl m y).imp fun _ _ _ _ => trivial

end Entering

/-! ## Resolving clauses -/

section Resolving

variable (hcomparison : ∀ v operator left right,
  (Vocabulary.comparisonFactType operator left right).Leads R v fun _ _ => True)

/-- Applying a placement does nothing to the vocabulary. -/
lemma leads_applyPlacement_through (s : RoleSequenceId) (p : Placement) (x : Context) :
    (applyPlacement s p).Leads (Through R) x fun _ _ => True := by
  refine leads_get_bind (leads_modify_bind (hrefl _) (leads_get_bind ?_))
  dsimp only
  split
  · exact Leads.bind (leads_rebind_through hrefl p.mention _) fun _ _ _ _ =>
      leads_pure (hrefl _) trivial
  · exact leads_pure (hrefl _) trivial

include hcomparison

/-- Resolving a comparison does what adding its fact type does. -/
lemma leads_resolveComparison_through (c : Clause) (operator : String) (left right : Slot)
    (x : Context) :
    (resolveComparison c operator left right).Leads (Through R) x fun _ _ => True := by
  refine Leads.bind (leads_playerOf_through hrefl _ x) fun _ y _ _ => ?_
  refine Leads.bind (leads_playerOf_through hrefl _ y) fun _ z _ _ => ?_
  refine Leads.bind (leads_edit_through (hcomparison ..)) fun f w _ _ => leads_get_bind ?_
  exact Leads.bind (Leads.forM (hrefl _) fun _ _ _ _ => leads_modify (hrefl _) (hrefl _))
    fun _ _ _ _ => leads_pure (hrefl _) trivial

/-- Resolving a clause does what adding the fact type of a comparison does. -/
lemma leads_resolveFlat_through (options : MatchOptions) (c : Clause) (x : Context) :
    (resolveFlat options c).Leads (Through R) x fun _ _ => True := by
  unfold resolveFlat
  split
  · exact Leads.map (leads_resolveComparison_through hrefl hcomparison ..)
  refine leads_get_bind ?_
  split
  · exact leads_pure (hrefl _) trivial
  refine leads_get_bind (leads_ofExcept_bind (hrefl _) fun a _ => ?_)
  cases a with
  | none => exact leads_pure (hrefl _) trivial
  | some a =>
    refine Leads.map (Leads.bind (Leads.forM (hrefl _) fun p _ y _ => ?_) fun _ _ _ _ => ?_)
    · exact (leads_applyPlacement_through hrefl a.roleSequence p y).imp fun _ _ _ _ => hrefl _
    · exact leads_pure (hrefl _) trivial

omit hcomparison in
/-- Copying a mention does nothing to the vocabulary. -/
lemma leads_copyMention_through (source : MentionId) (x : Context) :
    (copyMention source).Leads (Through R) x fun _ _ => True := by
  refine leads_get_bind ?_
  exact leads_extend_bind (hrefl _) (Leads.bind (leads_bind_through hrefl _ _) fun _ _ _ _ =>
    leads_pure (hrefl _) trivial)

/-- Resolving and completing a clause keeps what the fact types of comparisons keep. -/
theorem completes_through (options : MatchOptions) (f : Option FactTypeId) :
    Completes options (Through R) (fun _ _ => True) f (fun _ => True) where
  refl _ := hrefl _
  mono _ _ := trivial
  bare _ _ := trivial
  flat {x c} _ _ := (leads_resolveFlat_through hrefl hcomparison options c x).imp
    fun _ _ _ _ _ _ => trivial
  copy {x} m _ := leads_copyMention_through hrefl m x
  unbind {x} m _ _ := through_of_eq hrefl (vocabulary_unbind x m)
  extended _ _ _ := trivial
  without _ _ _ := trivial
  contraction _ _ := trivial

/-- Resolving a clause at all depths does what adding the fact types of comparisons does. -/
lemma leads_resolve_through (options : MatchOptions) (c : Clause) (x : Context) :
    (ofResolved (resolve options c)).Leads (Through R) x fun _ _ => True :=
  ((completes_through hrefl hcomparison options c.factType).leads_resolve c (hrefl _)
    (Clause.everywhere_of_forall (fun _ => trivial) c)).imp fun _ _ _ _ => trivial

/-- Resolving the clauses of a query keeps what the fact types of comparisons keep. -/
theorem leads_resolveAll_through (contraction : Bool) (previous : Option Clause) (cs : List Clause)
    (x : Context) :
    (resolveAll contraction previous cs).Leads (Through R) x fun _ _ => True :=
  leads_resolveAll_of_completes (completes_through hrefl hcomparison {}) contraction previous cs
    (hrefl _)

end Resolving

end Compile

end FactModel
