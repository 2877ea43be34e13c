import FactModel.Proofs.Vocabulary.Change
set_option autoImplicit false

/-!
# Edits that spare links and constraints

Links are added by join graphs only, and constraints by the quantifiers and qualifiers of clauses
only. All other edits leave them alone.

## Main definitions

* `FactModel.Vocabulary.Spares` — neither a link nor a constraint has changed.

## Main results

* `FactModel.Vocabulary.spares_declareObjectType` and its companions — the edits that spare both.
-/

namespace FactModel.Vocabulary

open Attempt

variable {v : Vocabulary}

/-- Neither a link nor a constraint has changed. -/
structure Spares (v w : Vocabulary) : Prop where
  links_eq : w.links = v.links
  presenceConstraints_eq : w.presenceConstraints = v.presenceConstraints
  ringConstraints_eq : w.ringConstraints = v.ringConstraints

/-- Changing nothing spares links and constraints. -/
lemma Spares.refl (v : Vocabulary) : v.Spares v :=
  ⟨rfl, rfl, rfl⟩

/-- What two changes in turn spare is spared. -/
lemma Spares.trans {u v w : Vocabulary} (h : u.Spares v) (h' : v.Spares w) : u.Spares w :=
  ⟨h'.links_eq.trans h.links_eq, h'.presenceConstraints_eq.trans h.presenceConstraints_eq,
    h'.ringConstraints_eq.trans h.ringConstraints_eq⟩

instance : Trans Spares Spares Spares :=
  ⟨Spares.trans⟩

section Edits

variable (v)

/-- A fact type with its roles spares links and constraints. -/
lemma spares_withFactType (players : List (ObjectTypeId × Option String)) :
    v.Spares (v.withFactType players) :=
  List.foldlRecOn (motive := fun w : Vocabulary => v.Spares w) players _ ⟨rfl, rfl, rfl⟩
    fun _ hw _ _ => hw.trans ⟨rfl, rfl, rfl⟩

/-- Readings spare links and constraints. -/
lemma spares_withReadings (f : FactTypeId) (s : RoleSequenceId) (texts : List String) :
    v.Spares (v.withReadings f s texts) :=
  List.foldlRecOn (motive := fun w : Vocabulary => v.Spares w) texts _ (.refl v)
    fun _ hw _ _ => hw.trans ⟨rfl, rfl, rfl⟩

/-- Making a type a kind of another one spares links and constraints. -/
lemma spares_withSubtype (a b : ObjectTypeId) : v.Spares (v.withSubtype a b) := by
  have hlinked : v.Spares (v.linkSubtype a b) := ⟨rfl, rfl, rfl⟩
  have hroles : ∀ u : Vocabulary, u.Spares (((u.pushFactType (.typeInheritance a b)).pushRole
      ⟨v.factTypes.size⟩ a none).pushRole ⟨v.factTypes.size⟩ b none) := fun _ => ⟨rfl, rfl, rfl⟩
  have hsequence : ∀ (u : Vocabulary) refs, u.Spares (u.pushRoleSequence refs) :=
    fun _ _ => ⟨rfl, rfl, rfl⟩
  exact ((hlinked.trans (hroles _)).trans (hsequence _ _)).trans (spares_withReadings ..)

/-- Declaring an object type spares links and constraints. -/
lemma spares_declareObjectType (name : String) (kind : ObjectTypeKind) (isForward : Bool) :
    (declareObjectType name kind isForward).Leads Spares v fun _ _ => True := by
  refine leads_get_bind ?_
  split
  · exact leads_extend ⟨rfl, rfl, rfl⟩ trivial
  · split
    · exact leads_set_bind ⟨rfl, rfl, rfl⟩ (leads_pure (.refl _) trivial)
    · exact leads_throw (.refl v)

/-- Mentioning a type before it is declared spares links and constraints. -/
lemma spares_addForwardEntityType (name : String) :
    (addForwardEntityType name).Leads Spares v fun _ _ => True := by
  refine leads_get_bind ?_
  split
  · exact leads_pure (.refl v) trivial
  · exact spares_declareObjectType v name .entity true

/-- The edit that makes a type a kind of another one spares links and constraints. -/
lemma spares_addSubtype (a b : ObjectTypeId) :
    (addSubtype a b).Leads Spares v fun _ _ => True := by
  by_cases hnone : v.typeInheritance? a b = none
  · by_cases hcircular : a = b ∨ v.isSubtypeOf b a
    · unfold addSubtype
      refine leads_get_bind ?_
      rw [hnone]
      dsimp only
      rw [if_pos hcircular]
      exact leads_throw_bind (.refl v)
    · exact (ends_of_perform (perform_addSubtype hnone hcircular)).2
        ⟨spares_withSubtype v a b, trivial⟩
  · obtain ⟨f, hf⟩ := Option.ne_none_iff_exists'.1 hnone
    unfold addSubtype
    refine leads_get_bind ?_
    rw [hf]
    exact leads_pure (.refl v) trivial

/-- Objectifying a fact type spares links and constraints. -/
lemma spares_objectify (name : String) (f : FactTypeId) :
    (objectify name f).Leads Spares v fun _ _ => True := by
  have hobjectifying : (objectifyingType name f).Leads Spares v fun _ _ => True := by
    refine leads_get_bind ?_
    split
    · exact spares_declareObjectType v name .entity false
    · dsimp only
      split
      · exact leads_pure (.refl v) trivial
      · exact leads_throw (.refl v)
  have hset : ∀ e (w : Vocabulary), (do set (w.linkObjectification e f); pure e :
      Edit ObjectTypeId).Leads Spares w fun _ _ => True := fun e w =>
    leads_set_bind ⟨rfl, rfl, rfl⟩ (leads_pure (.refl _) trivial)
  refine Leads.bind hobjectifying fun e w _ _ => leads_get_bind ?_
  dsimp only
  split
  · split
    · exact leads_throw_bind (.refl w)
    · exact hset e w
  · exact hset e w

/-- Adding a reading spares links and constraints. -/
lemma spares_addReading (f : FactTypeId) (s : RoleSequenceId) (text : String)
    (isNegative : Bool) : (addReading f s text isNegative).Leads Spares v fun _ _ => True := by
  refine leads_get_bind ?_
  split
  · exact leads_throw (.refl v)
  · exact leads_extend ⟨rfl, rfl, rfl⟩ trivial

/-- Naming a role spares links and constraints. -/
lemma spares_nameRole (r : RoleId) (name : String) :
    (nameRole r name).Leads Spares v fun _ _ => True := by
  refine leads_get_bind ?_
  split
  · exact leads_set ⟨rfl, rfl, rfl⟩ trivial
  · split
    · exact leads_pure (.refl v) trivial
    · exact leads_throw (.refl v)

/-- A comparison spares links and constraints. -/
lemma spares_comparisonFactType (operator : String) (left right : ObjectTypeId) :
    (comparisonFactType operator left right).Leads Spares v fun _ _ => True := by
  refine leads_get_bind ?_
  split
  · exact leads_pure (.refl v) trivial
  · exact ends_bind.2 ((ends_of_perform (perform_addBinary ..)).2 (ends_bind.2 (ends_modify.2
      ((ends_pure _).2 ⟨⟨rfl, rfl, rfl⟩, trivial⟩))))

end Edits

end FactModel.Vocabulary
