import FactModel.Proofs.Vocabulary.Preservation
set_option autoImplicit false

/-!
# Extensions of a vocabulary

A vocabulary extends another one if it has grown from it and is consistent. That is what every edit
of a consistent vocabulary leads to.

## Main definitions

* `FactModel.Vocabulary.Extends` — one vocabulary has grown into another, which is consistent.

## Main results

* `FactModel.Vocabulary.ImpliedIndexed.of_grows` — links and comparisons stay found when others than
  they are added.
* `FactModel.Vocabulary.Consistent.extends_of_grows` — when a growth is an extension.
-/

namespace FactModel.Vocabulary

/-- One vocabulary has grown into another, which is consistent. -/
structure Extends (v w : Vocabulary) : Prop where
  grows : v.Grows w
  consistent : w.Consistent

/-- A consistent vocabulary extends itself. -/
lemma Consistent.extends {v : Vocabulary} (hv : v.Consistent) : v.Extends v :=
  ⟨.refl v, hv⟩

instance : Trans Extends Extends Extends where
  trans h h' := ⟨h.grows.trans h'.grows, h'.consistent⟩

variable {v w : Vocabulary}

/-- Links and comparisons stay found if none is added and none of them changes its roles. -/
lemma ImpliedIndexed.of_grows (hi : v.ImpliedIndexed) (hv : v.WellFormed) (hvw : v.Grows w)
    (hlinks : w.links = v.links) (hcomparisons : w.comparisons = v.comparisons)
    (hnew : ∀ f ∈ w.factTypeIds, f ∉ v.factTypeIds → (w.factType f).isStated)
    (hroles : ∀ f ∈ v.factTypeIds, ¬(v.factType f).isStated →
      (w.factType f).roles = (v.factType f).roles) : w.ImpliedIndexed := by
  -- A fact type that is not stated was there, with the same kind and the same roles.
  have hold : ∀ f, ¬(w.factType f).isStated → f ∈ v.factTypeIds ∧
      (w.factType f).kind = (v.factType f).kind ∧
      (w.factType f).roles = (v.factType f).roles := by
    intro f hf
    have hmem : f ∈ v.factTypeIds := by
      by_cases hw : f ∈ w.factTypeIds
      · exact Decidable.byContradiction fun h => hf (hnew f hw h)
      · rw [factType_of_not_mem hw] at hf
        exact absurd rfl hf
    have hkind := (hvw.factType hmem).kind_eq
    refine ⟨hmem, hkind, hroles f hmem ?_⟩
    rwa [FactType.isStated, ← hkind]
  have hlink : ∀ {f t r}, (w.factType f).kind = .link t r → ¬(w.factType f).isStated :=
    fun h => by simp [FactType.isStated, h]
  have hcomparison : ∀ {f operator}, (w.factType f).kind = .comparison operator →
      ¬(w.factType f).isStated := fun h => by simp [FactType.isStated, h]
  have hplayers : ∀ f ∈ v.factTypeIds, (v.factType f).roles.map w.playerOf =
      (v.factType f).roles.map v.playerOf := fun _ _ =>
    List.map_congr_left fun r hr => hvw.playerOf_eq (hv.mem_roles.1 hr).1
  constructor
  · intro t r f
    rw [hlinks, hi.links_iff]
    constructor
    · rintro ⟨hf, hkind⟩
      exact ⟨hvw.mem_factTypeIds hf, (hvw.factType hf).kind_eq.trans hkind⟩
    · rintro ⟨-, hkind⟩
      obtain ⟨hf, hkind', -⟩ := hold f (hlink hkind)
      exact ⟨hf, hkind' ▸ hkind⟩
  · intro operator a b f
    rw [hcomparisons, hi.comparisons_iff]
    constructor
    · rintro ⟨hf, hkind, hroles'⟩
      have hkind' := (hvw.factType hf).kind_eq.trans hkind
      obtain ⟨-, -, hsame⟩ := hold f (hcomparison hkind')
      exact ⟨hvw.mem_factTypeIds hf, hkind', by rw [hsame, hplayers f hf, hroles']⟩
    · rintro ⟨-, hkind, hroles'⟩
      obtain ⟨hf, hkind', hsame⟩ := hold f (hcomparison hkind)
      rw [hsame, hplayers f hf] at hroles'
      exact ⟨hf, hkind' ▸ hkind, hroles'⟩
  · intro f t r hkind
    obtain ⟨-, hkind', hsame⟩ := hold f (hlink hkind)
    rw [FactType.arity, hsame]
    exact hi.link_arity f t r (hkind' ▸ hkind)
  · intro f operator hkind
    obtain ⟨-, hkind', hsame⟩ := hold f (hcomparison hkind)
    rw [FactType.arity, hsame]
    exact hi.comparison_arity f operator (hkind' ▸ hkind)
  · intro f operator hkind hnil
    obtain ⟨hf, hkind', -⟩ := hold f (hcomparison hkind)
    have hprefix := (hvw.factType hf).readings
    rw [hnil, List.prefix_nil] at hprefix
    exact hi.comparison_readings f operator (hkind' ▸ hkind) hprefix

/-- A growth that adds no fact type and changes no roles is an extension if what it leads to is
well-formed. -/
lemma Consistent.extends_of_grows (hv : v.Consistent) (hvw : v.Grows w) (hw : w.WellFormed)
    (hlinks : w.links = v.links) (hcomparisons : w.comparisons = v.comparisons)
    (hids : w.factTypeIds = v.factTypeIds)
    (hroles : ∀ f, (w.factType f).roles = (v.factType f).roles) : v.Extends w where
  grows := hvw
  consistent := ⟨hw, hv.toImpliedIndexed.of_grows hv.toWellFormed hvw hlinks hcomparisons
    (fun _ hf hf' => absurd (hids ▸ hf) hf') (fun f _ _ => hroles f)⟩

end FactModel.Vocabulary
