import FactModel.Proofs.Definition.Invoking
set_option autoImplicit false

/-!
# Naming roles

The mentions of a clause that invokes a reading name the roles that they have, if they declare role
names. A role that has a name keeps it, and a mention that declares another one is refused.

## Main definitions

* `FactModel.Context.Declares` — a mention that has a role declares a name for it.

## Main results

* `FactModel.Compile.exists_nameMatchedRoles` — names that agree with those that are there are
  taken.
* `FactModel.Compile.nameMatchedRoles_of_named` — names that are there change nothing.
* `FactModel.Compile.names_of_nameMatchedRoles` — afterwards the roles have these names and no
  others.
-/

namespace FactModel

open Attempt Compile Context

namespace Vocabulary

variable {v w : Vocabulary} {r : RoleId} {name : String}

/-- The vocabulary with a role given a name. -/
def withRoleName (v : Vocabulary) (r : RoleId) (name : String) : Vocabulary :=
  { v with roles := v.roles.modify r.index ({ · with name := some name }) }

/-- A role that is named gets its name, and the others are as they were. -/
lemma role_withRoleName (v : Vocabulary) (r : RoleId) (name : String) (q : RoleId) :
    (v.withRoleName r name).role q =
      if q = r ∧ r ∈ v.roleIds then { v.role r with name := some name } else v.role q := by
  rcases r with ⟨i⟩
  rcases q with ⟨j⟩
  rw [role, withRoleName, getElem?_modify_getD]
  simp only [RoleId.mk.injEq, mem_roleIds]
  rfl

/-- A role is given a name if it has none, and one that it has changes nothing. -/
lemma perform_nameRole_eq_ok {u : Unit} :
    (nameRole r name).perform v = (.ok u, w) ↔
      (v.role r).name = none ∧ w = v.withRoleName r name ∨ (v.role r).name = some name ∧ w = v := by
  rw [nameRole, perform_get_bind]
  cases hname : (v.role r).name with
  | none =>
    constructor
    · rintro ⟨⟩
      exact .inl ⟨rfl, rfl⟩
    · rintro (⟨-, rfl⟩ | ⟨⟨⟩, -⟩)
      rfl
  | some existing =>
    dsimp only
    by_cases heq : existing = name
    · rw [if_pos heq, heq]
      constructor
      · rintro ⟨⟩
        exact .inr ⟨rfl, rfl⟩
      · rintro (⟨⟨⟩, -⟩ | ⟨-, rfl⟩)
        rfl
    · rw [if_neg heq]
      constructor
      · rintro ⟨⟩
      · rintro (⟨⟨⟩, -⟩ | ⟨hsame, -⟩)
        exact absurd (Option.some.inj hsame) heq

end Vocabulary

namespace Context

variable {x y : Context} {m : MentionId} {r : RoleId} {name : String}

/-- A mention that has a role declares a name for it. -/
structure Declares (x : Context) (m : MentionId) (r : RoleId) (name : String) : Prop where
  role_eq : (x.mention m).role = some r
  declaredName?_eq : (x.mention m).declaredName? = some name

/-- What mentions declare does not depend on the vocabulary. -/
lemma declares_onto {w : Vocabulary} : (x.onto w).Declares m r name ↔ x.Declares m r name :=
  ⟨fun h => ⟨h.role_eq, h.declaredName?_eq⟩, fun h => ⟨h.role_eq, h.declaredName?_eq⟩⟩

end Context

namespace Compile

variable {x y : Context} {w : Vocabulary} {m : MentionId} {ms : List MentionId}

/-- A mention names its role, or it has none or declares no name. -/
lemma perform_nameMatchedRole_eq_ok {u : Unit} :
    (nameMatchedRole m).perform x = (.ok u, y) ↔
      (∃ r name w, x.Declares m r name ∧
        (Vocabulary.nameRole r name).perform x.vocabulary = (.ok ⟨⟩, w) ∧ y = x.onto w) ∨
        (∀ r name, ¬x.Declares m r name) ∧ y = x := by
  rw [nameMatchedRole, perform_get_bind]
  dsimp only
  split
  · next r name hrole hname =>
    constructor
    · intro h
      obtain ⟨w, hedit, rfl⟩ := perform_within_eq_ok.1 h
      exact .inl ⟨r, name, w, ⟨hrole, hname⟩, hedit, rfl⟩
    · rintro (⟨r', name', w, hdeclares, hedit, rfl⟩ | ⟨hnone, -⟩)
      · obtain rfl := Option.some.inj (hrole.symm.trans hdeclares.role_eq)
        obtain rfl := Option.some.inj (hname.symm.trans hdeclares.declaredName?_eq)
        exact perform_within_eq_ok.2 ⟨w, hedit, rfl⟩
      · exact absurd ⟨hrole, hname⟩ (hnone r name)
  · next hother =>
    have hnone : ∀ r name, ¬x.Declares m r name := fun r name h =>
      hother r name h.role_eq h.declaredName?_eq
    constructor
    · rintro ⟨⟩
      exact .inr ⟨hnone, rfl⟩
    · rintro (⟨r, name, _, h, -⟩ | ⟨-, rfl⟩)
      · exact absurd h (hnone r name)
      · rfl

/-- **Names that agree are taken.** Let mentions of different roles declare names, none of which
differs from a name that the role has. Then they name their roles.

**Proof sketch.** By induction on the mentions. Since the roles differ, a name that is given agrees
with all that are still to be given. -/
theorem exists_nameMatchedRoles (hnodup : (ms.map fun m => (x.mention m).role).Nodup)
    (hagree : ∀ m ∈ ms, ∀ r name, x.Declares m r name →
      ∀ k ∈ (x.vocabulary.role r).name, k = name) :
    ∃ w, (ms.forM nameMatchedRole).perform x = (.ok ⟨⟩, x.onto w) := by
  induction ms generalizing x with
  | nil => exact ⟨x.vocabulary, rfl⟩
  | cons m ms ih =>
    rw [List.map_cons, List.nodup_cons] at hnodup
    suffices hfirst : ∃ w, (nameMatchedRole m).perform x = (.ok ⟨⟩, x.onto w) ∧
        ∀ n ∈ ms, ∀ r name, x.Declares n r name → w.role r = x.vocabulary.role r by
      obtain ⟨w, hperform, hkept⟩ := hfirst
      obtain ⟨w', hrest⟩ := ih (x := x.onto w) hnodup.2 fun n hn r name h k hk => by
        rw [declares_onto] at h
        rw [show (x.onto w).vocabulary = w from rfl, hkept n hn r name h] at hk
        exact hagree n (List.mem_cons_of_mem m hn) r name h k hk
      exact ⟨w', perform_bind_eq_ok.2 ⟨⟨⟩, _, hperform, hrest⟩⟩
    by_cases hdeclares : ∃ r name, x.Declares m r name
    · obtain ⟨r, name, hdeclares⟩ := hdeclares
      have hagrees := hagree m List.mem_cons_self r name hdeclares
      obtain ⟨w, hname, hkept⟩ : ∃ w, (Vocabulary.nameRole r name).perform x.vocabulary =
          (.ok ⟨⟩, w) ∧ ∀ q, q ≠ r → w.role q = x.vocabulary.role q := by
        cases hexisting : (x.vocabulary.role r).name with
        | none =>
          refine ⟨_, Vocabulary.perform_nameRole_eq_ok.2 (.inl ⟨hexisting, rfl⟩), fun q hq => ?_⟩
          rw [Vocabulary.role_withRoleName, if_neg fun h => hq h.1]
        | some k =>
          obtain rfl := hagrees k hexisting
          exact ⟨_, Vocabulary.perform_nameRole_eq_ok.2 (.inr ⟨hexisting, rfl⟩), fun _ _ => rfl⟩
      refine ⟨w, perform_nameMatchedRole_eq_ok.2 (.inl ⟨r, name, w, hdeclares, hname, rfl⟩), ?_⟩
      intro n hn q name' h
      refine hkept q fun heq => hnodup.1 (List.mem_map.2 ⟨n, hn, ?_⟩)
      rw [h.role_eq, heq, hdeclares.role_eq]
    · refine ⟨x.vocabulary, perform_nameMatchedRole_eq_ok.2 (.inr ⟨?_, rfl⟩), fun _ _ _ _ _ => rfl⟩
      exact fun r name h => hdeclares ⟨r, name, h⟩

/-- Mentions whose roles have the names that they declare change nothing. -/
lemma nameMatchedRoles_of_named (hnamed : ∀ m ∈ ms, ∀ r name, x.Declares m r name →
      (x.vocabulary.role r).name = some name) :
    (ms.forM nameMatchedRole).perform x = (.ok ⟨⟩, x) := by
  induction ms with
  | nil => rfl
  | cons m ms ih =>
    have hfirst : (nameMatchedRole m).perform x = (.ok ⟨⟩, x) := by
      rw [perform_nameMatchedRole_eq_ok]
      by_cases hdeclares : ∃ r name, x.Declares m r name
      · obtain ⟨r, name, h⟩ := hdeclares
        have hname := hnamed m List.mem_cons_self r name h
        exact .inl ⟨r, name, x.vocabulary, h, Vocabulary.perform_nameRole_eq_ok.2
          (.inr ⟨hname, rfl⟩), rfl⟩
      · exact .inr ⟨fun r name h => hdeclares ⟨r, name, h⟩, rfl⟩
    refine perform_bind_eq_ok.2 ⟨⟨⟩, x, hfirst, ih fun n hn => ?_⟩
    exact hnamed n (List.mem_cons_of_mem m hn)

/-- **Roles get the names declared.** Once mentions have named their roles, these have the names
that the mentions declare, and no role has a name that it did not have and that is not declared for
it.

**Proof sketch.** By induction on the mentions. A role that has a name keeps it. -/
theorem names_of_nameMatchedRoles {u : Unit}
    (hroles : ∀ m ∈ ms, ∀ r ∈ (x.mention m).role, r ∈ x.vocabulary.roleIds)
    (h : (ms.forM nameMatchedRole).perform x = (.ok u, y)) :
    ∃ w, y = x.onto w ∧ x.vocabulary.Grows w ∧ SameReadings x.vocabulary w ∧
      (∀ m ∈ ms, ∀ r name, x.Declares m r name → (w.role r).name = some name) ∧
      ∀ r name, (w.role r).name = some name →
        (x.vocabulary.role r).name = some name ∨ ∃ m ∈ ms, x.Declares m r name := by
  induction ms generalizing x with
  | nil =>
    cases h
    exact ⟨_, rfl, .refl _, .refl _, List.forall_mem_nil _, fun _ _ => .inl⟩
  | cons m ms ih =>
    rw [List.forM] at h
    obtain ⟨_, z, hfirst, hrest⟩ := perform_bind_eq_ok.1 h
    obtain ⟨v, rfl, hgrows, hsame, hnamed, howed⟩ : ∃ v, z = x.onto v ∧ x.vocabulary.Grows v ∧
        SameReadings x.vocabulary v ∧
        (∀ r name, x.Declares m r name → (v.role r).name = some name) ∧
        ∀ r name, (v.role r).name = some name →
          (x.vocabulary.role r).name = some name ∨ x.Declares m r name := by
      rcases perform_nameMatchedRole_eq_ok.1 hfirst with
        ⟨r, name, v, hdeclares, hname, rfl⟩ | ⟨hnone, rfl⟩
      · have hunique : ∀ r' name', x.Declares m r' name' → r' = r ∧ name' = name :=
          fun r' name' h =>
          ⟨Option.some.inj (h.role_eq.symm.trans hdeclares.role_eq),
            Option.some.inj (h.declaredName?_eq.symm.trans hdeclares.declaredName?_eq)⟩
        rcases Vocabulary.perform_nameRole_eq_ok.1 hname with ⟨hfree, rfl⟩ | ⟨htaken, rfl⟩
        · have hmem := hroles m List.mem_cons_self r hdeclares.role_eq
          have hrole := x.vocabulary.role_withRoleName r name
          refine ⟨_, rfl, x.vocabulary.grows_nameRole hfree name, ⟨rfl, rfl, rfl⟩,
            fun r' name' h => ?_,
            fun r' name' h => ?_⟩
          · obtain ⟨rfl, rfl⟩ := hunique r' name' h
            rw [hrole, if_pos ⟨rfl, hmem⟩]
          · rw [hrole] at h
            split at h
            · next heq =>
              obtain rfl := heq.1
              obtain rfl := Option.some.inj h
              exact .inr hdeclares
            · exact .inl h
        · refine ⟨_, rfl, .refl _, .refl _, fun r' name' h => ?_, fun _ _ => .inl⟩
          obtain ⟨rfl, rfl⟩ := hunique r' name' h
          exact htaken
      · exact ⟨_, rfl, .refl _, .refl _, fun r name h => absurd h (hnone r name),
          fun _ _ => .inl⟩
    obtain ⟨w, rfl, hgrows', hsame', hnamed', howed'⟩ := ih (x := x.onto v)
      (fun n hn r hr => hgrows.mem_roleIds (hroles n (List.mem_cons_of_mem m hn) r hr)) hrest
    simp only [declares_onto] at hnamed' howed'
    refine ⟨w, rfl, hgrows.trans hgrows', Trans.trans hsame hsame', ?_, fun r name hr => ?_⟩
    · refine List.forall_mem_cons.2 ⟨fun r name h => ?_, hnamed'⟩
      have hmem := hroles m List.mem_cons_self r h.role_eq
      exact (hgrows'.role (hgrows.mem_roleIds hmem)).name name (hnamed r name h)
    · rcases howed' r name hr with hr | ⟨n, hn, h⟩
      · exact (howed r name hr).imp_right fun h => ⟨m, List.mem_cons_self, h⟩
      · exact .inr ⟨n, List.mem_cons_of_mem m hn, h⟩

end Compile

end FactModel
