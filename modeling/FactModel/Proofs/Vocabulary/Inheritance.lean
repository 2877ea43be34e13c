import FactModel.Proofs.Graph.BreadthFirst
import FactModel.Vocabulary.Inheritance
set_option autoImplicit false

/-!
# Types above and below others

## Main results

* `FactModel.Vocabulary.mem_relatedTypes_self` — a type is among the types that count as it.
* `FactModel.Vocabulary.mem_supertypes_of_commonSupertype?` — a type above two types is above each.
-/

namespace FactModel

namespace Vocabulary

variable {v : Vocabulary} {s t u : ObjectTypeId}

/-- A type is the first of those above it. -/
lemma supertypes_eq_cons (v : Vocabulary) (t : ObjectTypeId) :
    ∃ others, v.supertypes t = t :: others := by
  obtain ⟨others, hothers⟩ := Graph.prefix_breadthFirst
    (fun s => (v.objectType s).supertypes) v.objectTypes.size [t] [t]
  exact ⟨others, hothers.symm⟩

/-- A type counts among its supertypes. -/
lemma mem_supertypes_self (v : Vocabulary) (t : ObjectTypeId) : t ∈ v.supertypes t := by
  obtain ⟨others, hothers⟩ := v.supertypes_eq_cons t
  exact hothers ▸ List.mem_cons_self

/-- What is above a type is related to it. -/
lemma mem_relatedTypes_of_mem_supertypes (h : s ∈ v.supertypes t) : s ∈ v.relatedTypes t :=
  List.mem_append_left _ h

/-- A type counts among the types related to it. -/
lemma mem_relatedTypes_self (v : Vocabulary) (t : ObjectTypeId) : t ∈ v.relatedTypes t :=
  mem_relatedTypes_of_mem_supertypes (v.mem_supertypes_self t)

/-- A type above two types is above each of them. -/
lemma mem_supertypes_of_commonSupertype? (h : v.commonSupertype? t u = some s) :
    s ∈ v.supertypes t ∧ s ∈ v.supertypes u := by
  have habove := List.find?_some h
  exact ⟨List.mem_of_find?_eq_some h, List.contains_iff_mem.1 habove⟩

end Vocabulary

end FactModel
