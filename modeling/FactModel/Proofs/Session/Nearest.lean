import Mathlib.Data.Nat.Find
import FactModel.Proofs.Graph.Distance
import FactModel.Proofs.Session.Evolution
set_option autoImplicit false

/-!
# The nearest type above two types

## Main definitions

* `FactModel.Vocabulary.IsShared` — a type is above two types, either of which it may be.
* `FactModel.Vocabulary.IsAboveBy` — a type is above another one by a number of steps.
* `FactModel.Vocabulary.FindsNearest` — what the search for a type above two types finds.

## Main results

* `FactModel.Session.findsNearest_compileAll_start` — after any scripts, a type above two types is
  found just in case there is one, and no other one is nearer to the first of them.
-/

namespace FactModel

open Relation

namespace Vocabulary

variable {v : Vocabulary} {a b s t : ObjectTypeId}

/-- The last type is above both of the others. -/
def IsShared (v : Vocabulary) (a b s : ObjectTypeId) : Prop :=
  ReflTransGen v.IsKindOf a s ∧ ReflTransGen v.IsKindOf b s

/-- A type above both of two types is so whichever comes first. -/
lemma isShared_comm : v.IsShared a b s ↔ v.IsShared b a s :=
  and_comm

/-- The second type is reached from the first by so many steps from a type to one that it was made a
kind of. -/
def IsAboveBy (v : Vocabulary) (n : Nat) (a s : ObjectTypeId) : Prop :=
  Graph.ReachedIn (fun t => (v.objectType t).supertypes) a n s

/-- The search for a type above two types finds one just in case there is one, from whichever of the
two it starts, and what it finds is nearest to the first: no type above both is fewer steps away. -/
structure FindsNearest (v : Vocabulary) (a b : ObjectTypeId) : Prop where
  none_iff : v.commonSupertype? a b = none ↔ ¬∃ s, v.IsShared a b s
  isSome_comm : (v.commonSupertype? a b).isSome = (v.commonSupertype? b a).isSome
  shared : ∀ s, v.commonSupertype? a b = some s → v.IsShared a b s
  nearest : ∀ s, v.commonSupertype? a b = some s →
    ∃ n, v.IsAboveBy n a s ∧ ∀ t, v.IsShared a b t → ∀ m, v.IsAboveBy m a t → n ≤ m

namespace Inherits

variable (h : v.Inherits)

include h

/-- A type above both of two types is a supertype of both. -/
lemma isShared_iff : v.IsShared a b s ↔ s ∈ v.supertypes a ∧ s ∈ v.supertypes b := by
  rw [IsShared, h.mem_supertypes_iff, h.mem_supertypes_iff]

/-- What the search finds is above both types. -/
lemma isShared_of_commonSupertype? (hs : v.commonSupertype? a b = some s) : v.IsShared a b s :=
  h.isShared_iff.2 (mem_supertypes_of_commonSupertype? hs)

/-- The search finds nothing exactly where no type is above both. -/
lemma commonSupertype?_eq_none_iff :
    v.commonSupertype? a b = none ↔ ¬∃ s, v.IsShared a b s := by
  simp [commonSupertype?, h.isShared_iff, List.find?_eq_none]

/-- No type above both types is fewer steps away from the first than the one that is found.

**Proof sketch.** Both are found by the search upwards from the first type, which goes by distance;
what is found is the first there that is above the second type. So it is no farther than the other,
and of the numbers of steps by which it is reached one is least. -/
lemma nearest_of_commonSupertype? (hs : v.commonSupertype? a b = some s) :
    ∃ n, v.IsAboveBy n a s ∧ ∀ t, v.IsShared a b t → ∀ m, v.IsAboveBy m a t → n ≤ m := by
  classical
  have hreached : ∃ n, v.IsAboveBy n a s :=
    Graph.exists_reachedIn_iff.2 (h.isShared_of_commonSupertype? hs).1
  refine ⟨Nat.find hreached, Nat.find_spec hreached, fun t ht m hm => ?_⟩
  obtain ⟨ha, hb⟩ := h.isShared_iff.1 ht
  obtain ⟨k, hk, hle⟩ := Graph.nearest_of_find? hs ha (List.contains_iff_mem.2 hb) m hm
  have hleast := Nat.find_min' hreached hle
  omega

/-- Records of kinds that agree make the search find what is nearest. -/
lemma findsNearest (a b : ObjectTypeId) : v.FindsNearest a b where
  none_iff := h.commonSupertype?_eq_none_iff
  isSome_comm := by
    rw [Bool.eq_iff_iff, Option.isSome_iff_ne_none, Option.isSome_iff_ne_none, Ne, Ne,
      h.commonSupertype?_eq_none_iff, h.commonSupertype?_eq_none_iff]
    simp only [isShared_comm]
  shared _ hs := h.isShared_of_commonSupertype? hs
  nearest _ hs := h.nearest_of_commonSupertype? hs

end Inherits

end Vocabulary

namespace Session

/-- **The nearest type above two types.** Whatever scripts have been compiled, and for any two
types: none is found above both exactly if there is none, so that the order of the two makes no
difference to that; and what is found is above both, and nothing above both can be reached from the
first by fewer steps. -/
theorem findsNearest_compileAll_start (settings : Settings) (scripts : List String)
    (a b : ObjectTypeId) :
    ((start settings).compileAll scripts).vocabulary.FindsNearest a b :=
  ((evolves_compileAll_start settings scripts).preserves (.empty _)
    Vocabulary.inherits_of_change).findsNearest a b

/-- Which type is nearest depends on the one that the steps are counted from. -/
example :
    let v := ((start {}).compileAll ["entity type A; entity type B; entity type C; entity type D;",
      "C is a kind of A, B; D is a kind of B, A;"]).vocabulary
    v.commonSupertype? ⟨2⟩ ⟨3⟩ = some ⟨0⟩ ∧ v.commonSupertype? ⟨3⟩ ⟨2⟩ = some ⟨1⟩ := by
  rw [compileAll_cons, compile_ofList, compileAll_cons, compile_ofList, compileAll_nil]
  decide +kernel

end Session

end FactModel
