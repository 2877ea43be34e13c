import Mathlib.Data.List.Perm.Subperm
import Mathlib.Logic.Relation
import Mathlib.Tactic.Lemma
import FactModel.Graph.BreadthFirst
set_option autoImplicit false

/-!
# What breadth-first search finds

The nodes seen so far are those visited, all of whose neighbours have been seen, and behind them
those of the queue. Each round visits another node and the nodes seen are all different, so as many
rounds as there are nodes empty the queue.

## Main definitions

* `FactModel.Graph.Adjacent` — one node is a neighbour of another.
* `FactModel.Graph.Exploring` — what holds of a queue and the nodes seen while a search goes on.

## Main results

* `FactModel.Graph.Exploring.visit` — visiting the first node of the queue keeps it.
* `FactModel.Graph.mem_reachable_iff` — a search finds what can be reached, and nothing else.
* `FactModel.Graph.nodup_reachable` — it finds each node once.
* `FactModel.Graph.breadthFirst_eq_reachable` — more rounds find no more.
-/

namespace FactModel

/-- The items of a list without duplicates are all different. -/
lemma nodup_eraseDups {α : Type} [DecidableEq α] (as : List α) : as.eraseDups.Nodup := by
  generalize hn : as.length = n
  induction n using Nat.strongRecOn generalizing as with
  | ind n ih =>
    cases as with
    | nil => simp
    | cons a as =>
      rw [List.eraseDups_cons, List.nodup_cons]
      refine ⟨fun ha => ?_, ih _ ?_ _ rfl⟩
      · simp [List.mem_eraseDups] at ha
      · have hle := List.length_filter_le (fun b => !b == a) as
        rw [← hn, List.length_cons]
        omega

namespace Graph

open Relation

variable {α : Type} [DecidableEq α] {next : α → List α} {start x y : α} {queue seen : List α}

/-- The second node is a neighbour of the first. -/
def Adjacent (next : α → List α) (x y : α) : Prop :=
  y ∈ next x

/-- The graph has the given nodes: every edge joins two of them. -/
def Joins (next : α → List α) (nodes : List α) : Prop :=
  ∀ x y, y ∈ next x → x ∈ nodes ∧ y ∈ nodes

omit [DecidableEq α] in
/-- What is no node of the graph has no neighbours. -/
lemma Joins.next_eq_nil {nodes : List α} (h : Joins next nodes) (hx : x ∉ nodes) : next x = [] :=
  List.eq_nil_iff_forall_not_mem.2 fun y hy => hx (h x y hy).1

/-! ## Neighbours that have not been seen -/

/-- What is fresh beyond a node comes next after it and has not been seen. -/
lemma mem_fresh : y ∈ fresh next seen x ↔ y ∈ next x ∧ y ∉ seen := by
  simp [fresh, List.mem_eraseDups]

/-- Nothing is fresh twice. -/
lemma nodup_fresh (next : α → List α) (seen : List α) (x : α) : (fresh next seen x).Nodup :=
  (nodup_eraseDups _).filter _

/-- A search keeps what it has seen, in front of what it finds. -/
lemma prefix_breadthFirst (next : α → List α) (rounds : Nat) (queue seen : List α) :
    seen <+: breadthFirst next rounds queue seen := by
  induction rounds generalizing queue seen with
  | zero => exact List.prefix_rfl
  | succ rounds ih =>
    cases queue with
    | nil => exact List.prefix_rfl
    | cons x queue => exact (List.prefix_append ..).trans (ih _ _)

/-! ## A search that goes on -/

omit [DecidableEq α] in
/-- What holds of the queue and the nodes seen while a search from a node goes on. -/
structure Exploring (next : α → List α) (start : α) (queue seen : List α) : Prop where
  nodup : seen.Nodup
  head : seen.head? = some start
  reached : ∀ x ∈ seen, ReflTransGen (Adjacent next) start x
  /-- What is not in the queue has been visited, so that its neighbours have been seen. -/
  visited : ∃ visited, seen = visited ++ queue ∧ ∀ x ∈ visited, ∀ y ∈ next x, y ∈ seen

namespace Exploring

omit [DecidableEq α] in
/-- In the beginning the node itself waits to be visited. -/
lemma singleton (next : α → List α) (start : α) : Exploring next start [start] [start] where
  nodup := by simp
  head := rfl
  reached _ hx := List.mem_singleton.1 hx ▸ .refl
  visited := ⟨[], rfl, fun _ hx => absurd hx List.not_mem_nil⟩

/-- Visiting the first node of the queue goes on with the search. -/
lemma visit (h : Exploring next start (x :: queue) seen) :
    Exploring next start (queue ++ fresh next seen x) (seen ++ fresh next seen x) := by
  obtain ⟨visited, hseen, hclosed⟩ := h.visited
  have hx : x ∈ seen := by
    rw [hseen]
    exact List.mem_append_right _ List.mem_cons_self
  refine ⟨?_, ?_, ?_, visited ++ [x], ?_, ?_⟩
  · refine List.nodup_append.2 ⟨h.nodup, nodup_fresh .., fun y hy z hz hyz => ?_⟩
    exact (mem_fresh.1 hz).2 (hyz ▸ hy)
  · rw [List.head?_append, h.head]
    rfl
  · intro y hy
    rcases List.mem_append.1 hy with hy | hy
    · exact h.reached y hy
    · exact (h.reached x hx).tail (mem_fresh.1 hy).1
  · rw [hseen]
    simp
  · intro z hz y hy
    rcases List.mem_append.1 hz with hz | hz
    · exact List.mem_append_left _ (hclosed z hz y hy)
    · rw [List.mem_singleton.1 hz] at hy
      by_cases hseen : y ∈ seen
      · exact List.mem_append_left _ hseen
      · exact List.mem_append_right _ (mem_fresh.2 ⟨hy, hseen⟩)

omit [DecidableEq α] in
/-- Once the queue is empty, everything that can be reached has been seen. -/
lemma mem_iff (h : Exploring next start [] seen) :
    y ∈ seen ↔ ReflTransGen (Adjacent next) start y := by
  obtain ⟨visited, hseen, hclosed⟩ := h.visited
  rw [List.append_nil] at hseen
  refine ⟨h.reached y, fun hy => ?_⟩
  induction hy with
  | refl => exact List.mem_of_head? h.head
  | tail _ hstep ih => exact hclosed _ (hseen ▸ ih) _ hstep

variable {nodes : List α}

omit [DecidableEq α] in
/-- All nodes seen belong to the graph. -/
lemma subset_nodes (h : Exploring next start queue seen) (hjoins : Joins next nodes)
    (hstart : start ∈ nodes) : seen ⊆ nodes := by
  intro y hy
  cases h.reached y hy with
  | refl => exact hstart
  | tail _ hstep => exact (hjoins _ y hstep).2

omit [DecidableEq α] in
/-- Once as many nodes have been visited as there are, the queue is empty. -/
lemma queue_eq_nil (h : Exploring next start queue seen) (hjoins : Joins next nodes)
    (hstart : start ∈ nodes) (hvisited : nodes.length + queue.length ≤ seen.length) :
    queue = [] := by
  have hle := (List.Nodup.subperm h.nodup (h.subset_nodes hjoins hstart)).length_le
  exact List.length_eq_zero_iff.1 (by omega)

/-- With as many rounds as there are nodes that have not been visited, the search comes to its
end. -/
lemma breadthFirst (h : Exploring next start queue seen) (hjoins : Joins next nodes)
    (hstart : start ∈ nodes) {rounds : Nat}
    (hrounds : nodes.length + queue.length ≤ rounds + seen.length) :
    Exploring next start [] (breadthFirst next rounds queue seen) := by
  induction rounds generalizing queue seen with
  | zero =>
    obtain rfl := h.queue_eq_nil hjoins hstart (by omega)
    exact h
  | succ rounds ih =>
    cases queue with
    | nil => exact h
    | cons x queue =>
      refine ih h.visit ?_
      simp only [List.length_append, List.length_cons] at hrounds ⊢
      omega

/-- More rounds than that make no difference. -/
lemma breadthFirst_add (h : Exploring next start queue seen) (hjoins : Joins next nodes)
    (hstart : start ∈ nodes) {rounds : Nat}
    (hrounds : nodes.length + queue.length ≤ rounds + seen.length) (more : Nat) :
    Graph.breadthFirst next (rounds + more) queue seen =
      Graph.breadthFirst next rounds queue seen := by
  induction rounds generalizing queue seen with
  | zero =>
    obtain rfl := h.queue_eq_nil hjoins hstart (by omega)
    cases more with
    | zero => rfl
    | succ more => rw [Nat.zero_add, Graph.breadthFirst, Graph.breadthFirst]
  | succ rounds ih =>
    rw [Nat.add_right_comm]
    cases queue with
    | nil => rw [Graph.breadthFirst, Graph.breadthFirst]
    | cons x queue =>
      refine ih h.visit ?_
      simp only [List.length_append, List.length_cons] at hrounds ⊢
      omega

end Exploring

/-! ## The search from one node -/

section Reachable

variable {nodes : List α} {size : Nat}

/-- A node without neighbours reaches itself only. -/
lemma breadthFirst_of_next_eq_nil (h : next start = []) (rounds : Nat) :
    breadthFirst next rounds [start] [start] = [start] := by
  have hfresh : fresh next [start] start = [] := by
    unfold fresh
    rw [h]
    rfl
  cases rounds with
  | zero => rfl
  | succ rounds =>
    rw [breadthFirst, hfresh]
    cases rounds <;> rfl

variable (hjoins : Joins next nodes) (hsize : nodes.length ≤ size)

include hjoins hsize

/-- A search with as many rounds as there are nodes comes to its end. -/
lemma exploring_reachable (start : α) : Exploring next start [] (reachable next size start) := by
  by_cases hstart : start ∈ nodes
  · refine (Exploring.singleton next start).breadthFirst hjoins hstart ?_
    simpa using hsize
  · have hnone := hjoins.next_eq_nil hstart
    rw [reachable, breadthFirst_of_next_eq_nil hnone]
    refine { Exploring.singleton next start with visited := ⟨[start], rfl, fun x hx y hy => ?_⟩ }
    rw [List.mem_singleton.1 hx, hnone] at hy
    exact absurd hy List.not_mem_nil

/-- A search finds what can be reached, and nothing else. -/
theorem mem_reachable_iff :
    y ∈ reachable next size start ↔ ReflTransGen (Adjacent next) start y :=
  (exploring_reachable hjoins hsize start).mem_iff

/-- Nothing is reached twice. -/
theorem nodup_reachable (start : α) : (reachable next size start).Nodup :=
  (exploring_reachable hjoins hsize start).nodup

/-- The start is reached first. -/
theorem head?_reachable (start : α) : (reachable next size start).head? = some start :=
  (exploring_reachable hjoins hsize start).head

/-- The search comes to its end within the rounds it is given: more rounds find no more. -/
theorem breadthFirst_eq_reachable (start : α) {rounds : Nat} (hrounds : size ≤ rounds) :
    breadthFirst next rounds [start] [start] = reachable next size start := by
  by_cases hstart : start ∈ nodes
  · obtain ⟨more, rfl⟩ := Nat.exists_eq_add_of_le hrounds
    refine (Exploring.singleton next start).breadthFirst_add hjoins hstart ?_ more
    simpa using hsize
  · have hnone := hjoins.next_eq_nil hstart
    rw [reachable, breadthFirst_of_next_eq_nil hnone, breadthFirst_of_next_eq_nil hnone]

end Reachable

end Graph

end FactModel
