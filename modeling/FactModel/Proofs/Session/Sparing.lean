import FactModel.Proofs.Session.Evolution
import FactModel.Proofs.Vocabulary.Sparing
set_option autoImplicit false

/-!
# Stages that spare links and constraints

Until the join graph of a query is built nothing is linked, and until the constraints of a
declaration are embedded there are no new ones.

## Main definitions

* `FactModel.Compile.Sparing` — a change that spares links and constraints.

## Main results

* `FactModel.Compile.states_sparing` — stating readings spares them.
* `FactModel.Compile.sparing_enter`, `FactModel.Compile.sparing_resolveAll`,
  `FactModel.Compile.sparing_declareSubtype` — and so do entering and resolving clauses, and making
  one type a kind of others.
-/

namespace FactModel.Compile

open Attempt Context Vocabulary

/-- A change that spares links and constraints. -/
def Sparing {α : Type} (change : Compile α) : Prop :=
  change.KeepsThrough Spares

/-- Sparing links and constraints keeps what depends on nothing else. -/
lemma Sparing.through {α : Type} {change : Compile α} {R : Vocabulary → Vocabulary → Prop}
    (h : Sparing change) (hR : ∀ {v w : Vocabulary}, v.Spares w → R v w) :
    change.KeepsThrough R := fun x =>
  (h x).weaken fun _ => hR

/-- Making a fact type spares links and constraints. -/
lemma sparing_makeFactType (c : Clause) : Sparing (makeFactType c) :=
  (composes_through Spares.refl).makeFactType
    (fun _ => leads_edit_through (leads_extend ⟨rfl, rfl, rfl⟩ trivial)) (fun f m x => by
      refine Leads.bind (leads_playerOf_through Spares.refl m x) fun player y _ _ =>
        leads_get_bind ?_
      refine Leads.bind (leads_edit_through (leads_extend ⟨rfl, rfl, rfl⟩ trivial))
        fun role z _ _ => ?_
      exact leads_modify (Spares.refl _) trivial) c

/-- Stating readings spares links and constraints, and so keeps what depends on nothing else. -/
lemma states_sparing {R : Vocabulary → Vocabulary → Prop} [Trans R R R]
    (hR : ∀ {v w : Vocabulary}, v.Spares w → R v w) : States (KeepsThrough R) :=
  have hweaken : ∀ {α : Type} {edit : Edit α} {v : Vocabulary},
      edit.Leads Spares v (fun _ _ => True) → edit.Leads R v fun _ _ => True :=
    fun h => h.weaken fun _ => hR
  states_through (fun v => hR (.refl v))
    (fun _ _ => leads_extend (hR ⟨rfl, rfl, rfl⟩) trivial)
    (fun v operator left right => hweaken (spares_comparisonFactType v operator left right))
    (fun c => (sparing_makeFactType c).through hR)
    (fun v f s text isNegative => hweaken (spares_addReading v f s text isNegative))
    fun v r name => hweaken (spares_nameRole v r name)

/-- Entering clauses spares links and constraints. -/
lemma sparing_enter (clauses : List Script.Clause) : Sparing (enter clauses) :=
  leads_enter_through Spares.refl spares_addForwardEntityType clauses

/-- Resolving clauses spares links and constraints. -/
lemma sparing_resolveAll (contraction : Bool) (previous : Option Clause) (cs : List Clause) :
    Sparing (resolveAll contraction previous cs) :=
  leads_resolveAll_through Spares.refl spares_comparisonFactType contraction previous cs

/-- Declaring a type as a kind of others spares links and constraints. -/
lemma sparing_declareSubtype (subtype : String) (supertypes : List String) :
    Sparing (declareSubtype subtype supertypes) :=
  leads_declareSubtype_through Spares.refl spares_declareObjectType spares_addSubtype subtype
    supertypes

end FactModel.Compile
