import Mathlib.Data.Fin.Tuple.Basic
import Mathlib.Data.List.Forall2
import Mathlib.Tactic.Lemma
import FactModel.Matching.Assignment
set_option autoImplicit false

/-!
# The search for an assignment is complete

The search goes back where it gets stuck and leaves the marks as they were. So it finds roles for
the players just in case there are some.

## Main definitions

* `FactModel.Assignment.Fillable` — the players can have free roles of their own.

## Main results

* `FactModel.Assignment.assign_eq_true_iff` — the search succeeds just in case they can.
* `FactModel.Assignment.isPossible_of_forall₂` — it succeeds if different roles fit the players.
* `FactModel.Assignment.assign_exact` — it succeeds just in case some injective function takes the
  players to roles that they fit, and leaves the marks alone where it fails.
-/

namespace FactModel.Assignment

variable {α : Type} [DecidableEq α] {roles : List (List α)} {used : List Bool}

/-- Whether the players can have free roles of their own, one after the other. -/
def Fillable (roles : List (List α)) : List (List α) → List Bool → Prop
  | [], _ => True
  | player :: players, used =>
    ∃ j < roles.length, isFree used j ∧ roles[j]?.any (fits player) ∧
      Fillable roles players (used.set j true)

/-- A role is free if it is there and not in use. -/
lemma isFree_iff {j : Nat} : isFree used j ↔ used[j]? = some false :=
  beq_iff_eq

/-- A role that was taken and given back is free again. -/
lemma set_set_of_isFree {j : Nat} (h : isFree used j) : (used.set j true).set j false = used := by
  obtain ⟨hj, hfree⟩ := List.getElem?_eq_some_iff.1 (isFree_iff.1 h)
  rw [List.set_set, ← hfree, List.set_getElem_self]

/-! ## The search -/

/-- Trying roles for one player leaves the marks alone where it fails, if the rest of the search
does. -/
lemma tryRoles_of_false {roleFits : Nat → Bool} {attempt : List Bool → Bool × List Bool}
    (hattempt : ∀ used, (attempt used).1 = false → (attempt used).2 = used) (js : List Nat)
    (h : (tryRoles roleFits attempt js used).1 = false) :
    (tryRoles roleFits attempt js used).2 = used := by
  induction js generalizing used with
  | nil => rfl
  | cons j js ih =>
    rw [tryRoles] at h ⊢
    split at h
    · next htried =>
      rw [if_pos htried]
      split at h
      · cases h
      · next marks hfailed =>
        have hmarks : marks = used.set j true := by
          have hkept := hattempt (used.set j true) (by rw [hfailed])
          rwa [hfailed] at hkept
        rw [hmarks, set_set_of_isFree (Bool.and_eq_true_iff.1 htried).1] at h ⊢
        exact ih h
    · next htried =>
      rw [if_neg htried]
      exact ih h

/-- Trying roles for one player succeeds if the rest of the search succeeds with one of them. -/
lemma tryRoles_eq_true_iff {roleFits : Nat → Bool} {attempt : List Bool → Bool × List Bool}
    (hattempt : ∀ used, (attempt used).1 = false → (attempt used).2 = used) {js : List Nat} :
    (tryRoles roleFits attempt js used).1 = true ↔
      ∃ j ∈ js, isFree used j ∧ roleFits j ∧ (attempt (used.set j true)).1 = true := by
  induction js with
  | nil => simp [tryRoles]
  | cons j js ih =>
    rw [tryRoles, List.exists_mem_cons_iff]
    split
    · next htried =>
      obtain ⟨hfree, hfits⟩ := Bool.and_eq_true_iff.1 htried
      split
      · next hfound => simp [hfree, hfits, hfound]
      · next marks hfailed =>
        have hmarks : marks = used.set j true := by
          have hkept := hattempt (used.set j true) (by rw [hfailed])
          rwa [hfailed] at hkept
        rw [hmarks, set_set_of_isFree hfree, ih]
        simp [hfailed]
    · next htried =>
      rw [Bool.and_eq_true_iff, not_and] at htried
      rw [ih, or_iff_right]
      exact fun hj => htried hj.1 hj.2.1

/-- The search leaves the marks alone where it fails. -/
lemma assign_of_false (players : List (List α)) (used : List Bool)
    (h : (assign roles players used).1 = false) : (assign roles players used).2 = used := by
  induction players generalizing used with
  | nil => cases h
  | cons player players ih => exact tryRoles_of_false ih _ h

/-- The search succeeds just in case the players can have free roles of their own.

**Proof sketch.** By induction on the players. The roles that are tried for the first one are all
those there are, and where the rest of the search fails the marks are as before. -/
theorem assign_eq_true_iff {players : List (List α)} :
    (assign roles players used).1 = true ↔ Fillable roles players used := by
  induction players generalizing used with
  | nil => simp [assign, Fillable]
  | cons player players ih =>
    rw [assign, tryRoles_eq_true_iff (assign_of_false players), Fillable]
    simp only [ih, List.mem_range]

/-! ## Given assignments -/

/-- Different free roles that fit the players fill them. -/
lemma fillable_of_forall₂ {players : List (List α)} {js : List Nat}
    (h : List.Forall₂ (fun player j => roles[j]?.any (fits player)) players js) (hnodup : js.Nodup)
    (hrange : ∀ j ∈ js, j < roles.length) (hfree : ∀ j ∈ js, isFree used j) :
    Fillable roles players used := by
  induction h generalizing used with
  | nil => exact trivial
  | @cons player j players js hfits _ ih =>
    obtain ⟨hnew, hnodup⟩ := List.nodup_cons.1 hnodup
    refine ⟨j, hrange j List.mem_cons_self, hfree j List.mem_cons_self, hfits, ?_⟩
    refine ih hnodup (fun k hk => hrange k (List.mem_cons_of_mem j hk)) fun k hk => ?_
    have hne : j ≠ k := fun heq => hnew (heq ▸ hk)
    rw [isFree_iff, List.getElem?_set_ne hne]
    exact isFree_iff.1 (hfree k (List.mem_cons_of_mem j hk))

/-- Every player can have a role of its own if different roles fit the players. -/
theorem isPossible_of_forall₂ {players : List (List α)} {js : List Nat}
    (h : List.Forall₂ (fun player j => roles[j]?.any (fits player)) players js) (hnodup : js.Nodup)
    (hrange : ∀ j ∈ js, j < roles.length) : isPossible players roles := by
  refine assign_eq_true_iff.2 (fillable_of_forall₂ h hnodup hrange fun j hj => ?_)
  rw [isFree_iff, List.getElem?_map, List.getElem?_eq_getElem (hrange j hj)]
  rfl

/-! ## Injective assignments -/

/-- Using one role leaves the others as free as they were. -/
lemma isFree_set_iff {j k : Nat} : isFree (used.set j true) k ↔ k ≠ j ∧ isFree used k := by
  rw [isFree_iff, isFree_iff, List.getElem?_set]
  by_cases hjk : j = k
  · subst hjk
    simp
  · simp [hjk, Ne.symm hjk]

/-- A player fits a role if they have a type in common. -/
lemma fits_iff {player role : List α} : fits player role ↔ ∃ t ∈ player, t ∈ role := by
  simp [fits]

/-- The players can have free roles of their own just in case an injective function takes them to
free roles that they fit.

**Proof sketch.** By induction on the players. The role of the first player is taken for the others,
so it is not among theirs. -/
lemma fillable_iff_injective {players : List (List α)} :
    Fillable roles players used ↔ ∃ f : Fin players.length → Fin roles.length,
      Function.Injective f ∧ ∀ i, isFree used (f i) ∧ fits players[i] roles[f i] := by
  induction players generalizing used with
  | nil =>
    refine iff_of_true trivial ⟨Fin.elim0, ?_, ?_⟩
    · intro i
      exact i.elim0
    · intro i
      exact i.elim0
  | cons player players ih =>
    rw [Fillable]
    simp only [ih]
    constructor
    · rintro ⟨j, hj, hfree, hfits, f, hinjective, hf⟩
      refine ⟨Fin.cons ⟨j, hj⟩ f, Fin.cons_injective_iff.2 ⟨?_, hinjective⟩, fun i => ?_⟩
      · rintro ⟨i, hi⟩
        apply (isFree_set_iff.1 (hf i).1).1
        rw [hi]
      · cases i using Fin.cases with
        | zero =>
          rw [List.getElem?_eq_getElem hj] at hfits
          exact ⟨hfree, hfits⟩
        | succ i => exact ⟨(isFree_set_iff.1 (hf i).1).2, (hf i).2⟩
    · rintro ⟨f, hinjective, hf⟩
      refine ⟨f 0, (f 0).isLt, (hf 0).1, ?_, fun i => f i.succ, ?_, fun i => ⟨?_, (hf i.succ).2⟩⟩
      · rw [List.getElem?_eq_getElem (f 0).isLt]
        exact (hf 0).2
      · exact hinjective.comp (Fin.succ_injective _)
      · refine isFree_set_iff.2 ⟨fun heq => ?_, (hf i.succ).1⟩
        exact Fin.succ_ne_zero i (hinjective (Fin.ext heq))

/-- The search is exact. It succeeds, with no role taken before, just in case some injective
function takes every player to a role with which it has a type in common; and from whichever player
on and with whichever roles taken before it fails, it leaves the marks as it found them. -/
theorem assign_exact (players roles : List (List α)) :
    (isPossible players roles ↔ ∃ f : Fin players.length → Fin roles.length,
      Function.Injective f ∧ ∀ i, ∃ t ∈ players[i], t ∈ roles[f i]) ∧
    ∀ depth used, (assign roles (players.drop depth) used).1 = false →
      (assign roles (players.drop depth) used).2 = used := by
  refine ⟨?_, fun depth used => assign_of_false (players.drop depth) used⟩
  have hfree : ∀ j : Fin roles.length, isFree (roles.map fun _ => false) j := by
    intro j
    simp [isFree_iff]
  rw [isPossible, assign_eq_true_iff, fillable_iff_injective]
  simp only [hfree, fits_iff, true_and]

/-- Two players who fit one role only: the second cannot have it, and the first keeps it. -/
theorem assign_exact_rivals : (¬∃ f : Fin 2 → Fin 2, Function.Injective f ∧
      ∀ i, ∃ t ∈ [[1], [1]][i], t ∈ [[1], [2]][f i]) ∧
    (assign [[1], [2]] ([[1], [1]].drop 1) [true, false]).1 = false ∧
    (assign [[1], [2]] ([[1], [1]].drop 1) [true, false]).2 = [true, false] := by
  have hexact := assign_exact [[1], [1]] [[1], [2]]
  refine ⟨fun hroles => ?_, by decide, hexact.2 1 [true, false] (by decide)⟩
  exact absurd (hexact.1.2 hroles) (by decide)

end FactModel.Assignment
