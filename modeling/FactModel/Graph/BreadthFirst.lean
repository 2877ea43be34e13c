set_option autoImplicit false

/-!
# Breadth-first search

The nodes that can be reached from a node, nearest first.

## Main definitions

* `FactModel.Graph.breadthFirst` — the search from a queue of nodes.
* `FactModel.Graph.reachable` — the search from one node.
-/

namespace FactModel.Graph

variable {α : Type} [DecidableEq α]

/-- The neighbours of a node that have not been seen, each once, in order. -/
def fresh (next : α → List α) (seen : List α) (x : α) : List α :=
  (next x).eraseDups.filter (!seen.contains ·)

/-- Visits the nodes of a queue in turn and appends the neighbours it has not seen, for as many
rounds as given. Yields all nodes seen, in the order in which they were seen. -/
def breadthFirst (next : α → List α) : Nat → List α → List α → List α
  | 0, _, seen => seen
  | _ + 1, [], seen => seen
  | rounds + 1, x :: queue, seen =>
    let found := fresh next seen x
    breadthFirst next rounds (queue ++ found) (seen ++ found)

/-- The nodes that can be reached from a node of a graph of the given size: the node itself, then
the others by distance. Each round visits another node, so there are enough rounds. -/
def reachable (next : α → List α) (size : Nat) (start : α) : List α :=
  breadthFirst next size [start] [start]

end FactModel.Graph
