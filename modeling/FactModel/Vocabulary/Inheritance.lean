import FactModel.Graph.BreadthFirst
import FactModel.Vocabulary.Basic
set_option autoImplicit false

/-!
# Type inheritance

## Main definitions

* `FactModel.Vocabulary.supertypes`, `FactModel.Vocabulary.subtypes` — a type and all types above
  or below it, nearest first.
* `FactModel.Vocabulary.relatedTypes` — both together.
* `FactModel.Vocabulary.commonSupertype?` — the nearest type above two types.
* `FactModel.Vocabulary.isSubtypeOf` — whether one type is another or lies below it.
-/

namespace FactModel.Vocabulary

/-- The type itself and all types above it, breadth first. -/
def supertypes (v : Vocabulary) (t : ObjectTypeId) : List ObjectTypeId :=
  Graph.reachable (fun s => (v.objectType s).supertypes) v.objectTypes.size t

/-- The type itself and all types below it, breadth first. -/
def subtypes (v : Vocabulary) (t : ObjectTypeId) : List ObjectTypeId :=
  Graph.reachable (fun s => (v.objectType s).subtypes) v.objectTypes.size t

/-- The types above a type and those below it, each once. -/
def relatedTypes (v : Vocabulary) (t : ObjectTypeId) : List ObjectTypeId :=
  v.supertypes t ++ (v.subtypes t).filter fun s => !(v.supertypes t).contains s

/-- The type above both types, either of which it may be, that is nearest to the first. -/
def commonSupertype? (v : Vocabulary) (a b : ObjectTypeId) : Option ObjectTypeId :=
  (v.supertypes a).find? fun s => (v.supertypes b).contains s

/-- Whether the first type is the second or lies below it. -/
def isSubtypeOf (v : Vocabulary) (subtype supertype : ObjectTypeId) : Bool :=
  (v.supertypes subtype).contains supertype

end FactModel.Vocabulary
