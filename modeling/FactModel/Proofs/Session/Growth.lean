import FactModel.Proofs.Session.Evolution
set_option autoImplicit false

/-!
# Declarations only extend the vocabulary

What has been declared stays as it is, up to what it may gain. A fact type gets all its roles in the
declaration that creates it; that is why its roles stay as they are from then on, although they are
added one by one.

## Main definitions

* `FactModel.Vocabulary.Retains` — one vocabulary grows into another, and its fact types keep their
  roles.

## Main results

* `FactModel.Vocabulary.retains_of_change` — every change of a declaration retains what is there.
* `FactModel.Session.retains_declare` — so does every declaration, and one that is refused changes
  nothing.
-/

namespace FactModel

namespace Vocabulary

/-- A vocabulary grows into another one, and its fact types keep their roles. -/
structure Retains (v w : Vocabulary) : Prop extends v.Grows w where
  roles_eq : ∀ f ∈ v.factTypeIds, (w.factType f).roles = (v.factType f).roles

namespace Retains

variable {u v w : Vocabulary}

/-- A vocabulary that does not change is retained. -/
lemma refl (v : Vocabulary) : v.Retains v where
  toGrows := .refl v
  roles_eq _ _ := rfl

/-- What is retained twice is retained. -/
lemma trans (h : u.Retains v) (h' : v.Retains w) : u.Retains w where
  toGrows := h.toGrows.trans h'.toGrows
  roles_eq f hf := (h'.roles_eq f (h.mem_factTypeIds hf)).trans (h.roles_eq f hf)

/-- A growth that leaves the fact types alone retains them. -/
lemma of_factTypes_eq (h : v.Grows w) (hfact : w.factTypes = v.factTypes) : v.Retains w where
  toGrows := h
  roles_eq f _ := by rw [factType, hfact, factType]

/-- A growth that changes no roles retains them. -/
lemma of_modifyFactType (g : FactTypeId) (change : FactType → FactType)
    (h : v.Grows (v.modifyFactType g change)) (hroles : ∀ f, (change f).roles = f.roles) :
    v.Retains (v.modifyFactType g change) where
  toGrows := h
  roles_eq := fun f _ => factType_modifyFactType_apply FactType.roles g hroles f

end Retains

variable {v w : Vocabulary}

/-- Each role of a fact type that is added goes to that fact type. -/
lemma retains_withFactType (players : List (ObjectTypeId × Option String)) :
    v.Retains (v.withFactType players) := by
  have hstep : ∀ u : Vocabulary, v.Retains u → ∀ player name,
      v.Retains (u.pushRole ⟨v.factTypes.size⟩ player name) := fun u hu player name => by
    refine ⟨hu.toGrows.trans (u.grows_pushRole ..), fun f hf => ?_⟩
    have hne : f ≠ ⟨v.factTypes.size⟩ := fun h => size_not_mem_factTypeIds (h ▸ hf)
    rw [factType_pushRole, if_neg fun h => hne h.1]
    exact hu.roles_eq f hf
  have hfirst : v.Retains (v.pushFactType .plain) := by
    refine ⟨v.grows_pushFactType .plain, fun f hf => ?_⟩
    rw [factType_pushFactType, if_neg fun h => size_not_mem_factTypeIds (h ▸ hf)]
  exact List.foldlRecOn (motive := fun u : Vocabulary => v.Retains u) players _ hfirst
    fun u hu p _ => hstep u hu p.1 p.2

/-- A link or comparison has its roles when it is added. -/
lemma retains_withBinary (kind : FactTypeKind) (first second : ObjectTypeId) (text : String)
    (links : List ((ObjectTypeId × RoleId) × FactTypeId))
    (comparisons : List ((String × ObjectTypeId × ObjectTypeId) × FactTypeId)) :
    v.Retains { v.withBinary kind first second text with links, comparisons } where
  toGrows := { v.grows_withBinary kind first second text with }
  roles_eq f hf := by
    change ((v.withBinary kind first second text).factType f).roles = _
    rw [factType_withBinary, if_neg fun h => size_not_mem_factTypeIds (h ▸ hf)]

/-- Every change that a declaration makes retains what is there. -/
theorem retains_of_change (h : Change v w) : v.Retains w := by
  cases h with
  | objectType kind isForward _ => exact .of_factTypes_eq (v.grows_pushObjectType ..) rfl
  | @declared t isForward hforward =>
    refine .of_factTypes_eq (grows_modifyObjectType t _ ?_) rfl
    exact { ObjectType.Grows.refl _ with isForward := fun _ => hforward }
  | @subtype a b _ _ _ _ =>
    exact ⟨v.grows_withSubtype a b, fun f hf => v.factType_withSubtype_roles a b hf⟩
  | @objectification e f he hf =>
    exact ⟨grows_linkObjectification he hf, fun g _ =>
      factType_linkObjectification_apply FactType.roles (fun _ _ => rfl) e f g⟩
  | factType players => exact retains_withFactType players
  | roleSequence refs => exact .of_factTypes_eq (v.grows_pushRoleSequence refs) rfl
  | @reading f s text isNegative _ =>
    exact ⟨v.grows_pushReading f s text isNegative, fun g _ =>
      factType_pushReading_apply FactType.roles (fun _ _ => rfl) f s text isNegative g⟩
  | roleName name hnone => exact .of_factTypes_eq (v.grows_nameRole hnone name) rfl
  | derivation f q =>
    exact .of_modifyFactType f _ (grows_modifyFactType f _ ⟨rfl, rfl, List.prefix_rfl,
      List.prefix_rfl, .refl _⟩) fun _ => rfl
  | query g => exact .of_factTypes_eq (v.grows_pushQuery g) rfl
  | link _ => exact retains_withBinary ..
  | comparison _ => exact retains_withBinary ..
  | presenceConstraint s min max enforcement =>
    exact .of_factTypes_eq (v.grows_pushPresenceConstraint _) rfl
  | @restriction c min max _ _ =>
    exact .of_factTypes_eq (grows_modifyPresenceConstraint c _
      ⟨rfl, rfl, rfl, settled_orElse _ _, settled_orElse _ _⟩) rfl
  | ringConstraint role otherRole kinds => exact .of_factTypes_eq (v.grows_pushRingConstraint _) rfl

/-- A vocabulary that evolves retains what it had. -/
lemma Evolves.retains (h : v.Evolves w) : v.Retains w :=
  h.of_change .refl .trans retains_of_change

end Vocabulary

/-- **Declarations only extend the vocabulary.** After any scripts, any further declaration retains
what is there, whatever comes of it. If it is refused it changes nothing at all.

**Proof sketch.** A declaration changes the vocabulary by a sequence of changes. Each of them only
adds constructs, or fills in what a construct lacks; a fact type that it adds comes with all its
roles. A declaration that is refused is undone as a whole. -/
theorem Session.retains_declare (settings : Settings) (scripts : List String)
    (d : Script.Declaration) :
    let s := (start settings).compileAll scripts
    s.vocabulary.Retains (s.declare d).2.vocabulary ∧
      ((∃ fault, (s.declare d).1 = .error fault) → (s.declare d).2 = s) := by
  intro s
  refine ⟨(evolves_declare (consistent_compileAll (consistent_start settings) scripts) d).retains,
    ?_⟩
  rintro ⟨fault, hfault⟩
  unfold declare at hfault ⊢
  split
  · next heq =>
    rw [heq] at hfault
    cases hfault
  · rfl

end FactModel
