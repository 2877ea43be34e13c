import Mathlib.Data.List.Pairwise
import FactModel.Proofs.Graph.BreadthFirst
set_option autoImplicit false

/-!
# Breadth-first search goes by distance

The queue of a search holds two layers: in front nodes of some distance from the start, behind them
nodes that are one step farther. What is found on a visit joins the farther layer, and when the
nearer one is used up the farther one takes its place. So a node is seen before those that are
farther away.

## Main definitions

* `FactModel.Graph.ReachedIn` — a node is reached in a number of steps.
* `FactModel.Graph.IsAt` — it is reached in so many steps, and not in fewer.
* `FactModel.Graph.Layered` — what holds of the two layers and the nodes seen.

## Main results

* `FactModel.Graph.Layered.visit`, `FactModel.Graph.Layered.advance` — a visit keeps the layers.
* `FactModel.Graph.pairwise_reachable` — no node is farther from the start than one seen after it.
* `FactModel.Graph.nearest_of_find?` — the first node seen that has a property is a nearest one.
-/

namespace FactModel.Graph

open Relation

variable {α : Type} [DecidableEq α] {next : α → List α} {start x y : α} {n : Nat}
  {near far queue seen : List α}

/-! ## Numbers of steps -/

/-- The node is reached from the start in that many steps. -/
inductive ReachedIn (next : α → List α) (start : α) : Nat → α → Prop
  | start : ReachedIn next start 0 start
  | step {n : Nat} {x y : α} : ReachedIn next start n x → y ∈ next x →
      ReachedIn next start (n + 1) y

omit [DecidableEq α] in
/-- What can be reached is reached in some number of steps. -/
lemma exists_reachedIn_iff : (∃ n, ReachedIn next start n x) ↔
    ReflTransGen (Adjacent next) start x := by
  constructor
  · rintro ⟨n, h⟩
    induction h with
    | start => exact .refl
    | step _ hstep ih => exact ih.tail hstep
  · intro h
    induction h with
    | refl => exact ⟨0, .start⟩
    | tail _ hstep ih =>
      obtain ⟨n, hn⟩ := ih
      exact ⟨n + 1, hn.step hstep⟩

/-- The node is reached in that many steps, and not in fewer. -/
structure IsAt (next : α → List α) (start : α) (n : Nat) (x : α) : Prop where
  reached : ReachedIn next start n x
  least : ∀ m, ReachedIn next start m x → n ≤ m

/-- The first node is no farther from the start than the second. -/
def NoFarther (next : α → List α) (start x y : α) : Prop :=
  ∀ n, ReachedIn next start n y → ∃ m ≤ n, ReachedIn next start m x

/-! ## The layers of the queue -/

omit [DecidableEq α] in
/-- What holds of a search whose queue starts with nodes of one distance and goes on with nodes that
are one step farther. -/
structure Layered (next : α → List α) (start : α) (n : Nat) (near far seen : List α) : Prop
    extends Exploring next start (near ++ far) seen where
  near_at : ∀ x ∈ near, IsAt next start n x
  far_at : ∀ x ∈ far, IsAt next start (n + 1) x
  /-- All nodes up to the nearer distance have been seen, -/
  complete : ∀ m ≤ n, ∀ x, ReachedIn next start m x → x ∈ seen
  /-- and none beyond the farther one. -/
  bounded : ∀ x ∈ seen, ∃ m ≤ n + 1, ReachedIn next start m x
  sorted : seen.Pairwise (NoFarther next start)

namespace Layered

omit [DecidableEq α] in
/-- In the beginning the start alone is in the nearer layer. -/
lemma singleton (next : α → List α) (start : α) : Layered next start 0 [start] [] [start] where
  toExploring := .singleton next start
  near_at x hx := by
    rw [List.mem_singleton.1 hx]
    exact ⟨.start, fun m _ => m.zero_le⟩
  far_at x hx := absurd hx List.not_mem_nil
  complete m hm x hx := by
    obtain rfl := Nat.le_zero.1 hm
    cases hx
    exact List.mem_singleton_self start
  bounded x hx := by
    rw [List.mem_singleton.1 hx]
    exact ⟨0, Nat.zero_le _, .start⟩
  sorted := List.pairwise_singleton _ _

omit [DecidableEq α] in
/-- When the nearer layer is used up, the farther one is the next: a node of that distance is a
neighbour of a nearer one, which has been visited. -/
lemma advance (h : Layered next start n [] far seen) : Layered next start (n + 1) far [] seen where
  toExploring := by simpa using h.toExploring
  near_at := h.far_at
  far_at x hx := absurd hx List.not_mem_nil
  complete m hm x hx := by
    cases hx with
    | start => exact h.complete 0 n.zero_le _ .start
    | @step m y _ hy hstep =>
      have hm : m ≤ n := by omega
      obtain ⟨visited, hseen, hclosed⟩ := h.visited
      have hmem := h.complete m hm y hy
      rw [hseen, List.nil_append, List.mem_append] at hmem
      rcases hmem with hvisited | hfar
      · exact hclosed y hvisited x hstep
      · have hle := (h.far_at y hfar).least m hy
        omega
  bounded x hx := by
    obtain ⟨m, hm, hreached⟩ := h.bounded x hx
    exact ⟨m, by omega, hreached⟩
  sorted := h.sorted

/-- What a visit finds is one step farther than the node visited: were it nearer, it would have been
seen. -/
lemma isAt_of_mem_fresh (h : Layered next start n (x :: near) far seen)
    (hy : y ∈ fresh next seen x) : IsAt next start (n + 1) y := by
  obtain ⟨hstep, hunseen⟩ := mem_fresh.1 hy
  refine ⟨(h.near_at x List.mem_cons_self).reached.step hstep, fun m hm => ?_⟩
  by_contra hlt
  exact hunseen (h.complete m (by omega) y hm)

/-- Visiting the first node of the nearer layer adds what it finds to the farther one. -/
lemma visit (h : Layered next start n (x :: near) far seen) :
    Layered next start n near (far ++ fresh next seen x) (seen ++ fresh next seen x) where
  toExploring := by
    rw [← List.append_assoc]
    exact h.toExploring.visit
  near_at y hy := h.near_at y (List.mem_cons_of_mem x hy)
  far_at y hy := by
    rcases List.mem_append.1 hy with hy | hy
    · exact h.far_at y hy
    · exact h.isAt_of_mem_fresh hy
  complete m hm y hy := List.mem_append_left _ (h.complete m hm y hy)
  bounded y hy := by
    rcases List.mem_append.1 hy with hy | hy
    · exact h.bounded y hy
    · exact ⟨n + 1, Nat.le_refl _, (h.isAt_of_mem_fresh hy).reached⟩
  sorted := by
    have hfar : ∀ y z, z ∈ fresh next seen x → (∃ m ≤ n + 1, ReachedIn next start m y) →
        NoFarther next start y z := by
      intro y z hz hy k hk
      obtain ⟨m, hm, hreached⟩ := hy
      have hle := (h.isAt_of_mem_fresh hz).least k hk
      exact ⟨m, by omega, hreached⟩
    refine List.pairwise_append.2 ⟨h.sorted, ?_, fun y hy z hz => hfar y z hz (h.bounded y hy)⟩
    refine List.pairwise_of_forall_mem_list fun y hy z hz => ?_
    exact hfar y z hz ⟨n + 1, Nat.le_refl _, (h.isAt_of_mem_fresh hy).reached⟩

/-- However many rounds a search goes on, it sees nodes before those that are farther away.

**Proof sketch.** By induction on the rounds. Where the nearer layer is used up, the farther one
takes its place before the visit. -/
lemma pairwise_breadthFirst (rounds : Nat) (h : Layered next start n near far seen) :
    (breadthFirst next rounds (near ++ far) seen).Pairwise (NoFarther next start) := by
  induction rounds generalizing n near far seen with
  | zero => exact h.sorted
  | succ rounds ih =>
    cases near with
    | cons x near =>
      rw [List.cons_append, breadthFirst, List.append_assoc]
      exact ih h.visit
    | nil =>
      cases far with
      | nil => exact h.sorted
      | cons x far =>
        rw [List.nil_append, breadthFirst]
        have hvisit := ih h.advance.visit
        rwa [List.nil_append] at hvisit

end Layered

/-! ## The search from one node -/

/-- No node is farther from the start than one that the search sees after it. -/
theorem pairwise_reachable (next : α → List α) (size : Nat) (start : α) :
    (reachable next size start).Pairwise (NoFarther next start) :=
  (Layered.singleton next start).pairwise_breadthFirst size

/-- The first node seen that has a property is no farther from the start than any other node seen
that has it. -/
theorem nearest_of_find? {size : Nat} {p : α → Bool}
    (h : (reachable next size start).find? p = some x) (hy : y ∈ reachable next size start)
    (hp : p y) : NoFarther next start x y := by
  obtain ⟨-, before, after, hsplit, hbefore⟩ := List.find?_eq_some_iff_append.1 h
  have hsorted := pairwise_reachable next size start
  rw [hsplit] at hsorted hy
  rcases List.mem_append.1 hy with hy | hy
  · have hnot := hbefore y hy
    rw [hp] at hnot
    cases hnot
  · rcases List.mem_cons.1 hy with rfl | hy
    · exact fun n hn => ⟨n, n.le_refl, hn⟩
    · exact (List.pairwise_cons.1 (List.pairwise_append.1 hsorted).2.1).1 y hy

end FactModel.Graph
