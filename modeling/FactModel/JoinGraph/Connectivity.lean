import FactModel.JoinGraph.Basic
set_option autoImplicit false

/-!
# Connectivity of join graphs

A query makes sense only if all its variables are connected by steps. The search for what is
connected starts from the least variable that has not been met, follows the plays of each variable
that it meets to their steps, and the steps to their variables. What it meets until it has nothing
left to look at is one group; the next search starts from the least variable left over.

## Main definitions

* `FactModel.JoinGraph.Search` — how far a search has come.
* `FactModel.JoinGraph.explore` — a search until nothing is left to look at.
* `FactModel.JoinGraph.groups` — the groups, by the variables from which they were searched.
* `FactModel.JoinGraph.unused?` — a variable that no step relates and no one asks for.

## Design

A variable that is met moves from those that have not been met to those that are still to be looked
at, so each round of a search leaves fewer of both together. This is what a search ends by.
-/

namespace FactModel.JoinGraph

/-- How far a search has come. -/
structure Search where
  /-- The variables that have not been met, the least one first. -/
  unvisited : List VariableId
  /-- The variables that have been met but not looked at, the latest one first. -/
  frontier : List VariableId
  /-- The steps that have been met, in the order in which they were met. -/
  steps : List StepId := []

namespace Search

/-- The variables that a search has not been through. -/
def pending (s : Search) : Nat :=
  s.unvisited.length + s.frontier.length

/-- Meets a variable: unless it has been met before, it is still to be looked at. -/
def meet (s : Search) (v : VariableId) : Search :=
  if v ∈ s.unvisited then
    { s with unvisited := s.unvisited.erase v, frontier := v :: s.frontier }
  else s

/-- Follows a play to its step and meets the variables of the step, unless the step has been met. -/
def follow (g : JoinGraph) (s : Search) (p : PlayId) : Search :=
  let step := (g.playAt p).step
  if step ∈ s.steps then s
  else (g.stepVariables step).foldl meet { s with steps := s.steps ++ [step] }

/-- Looks at a variable: follows its plays. -/
def look (g : JoinGraph) (s : Search) (v : VariableId) : Search :=
  (g.variableAt v).plays.foldl (follow g) s

/-- Meeting a variable keeps the number of those that the search has not been through. -/
@[simp] theorem pending_meet (s : Search) (v : VariableId) : (s.meet v).pending = s.pending := by
  rw [meet]
  split
  · next hv =>
    have hpos := List.length_pos_of_mem hv
    simp only [pending, List.length_erase_of_mem hv, List.length_cons]
    omega
  · rfl

/-- So does meeting variables one after another. -/
@[simp] theorem pending_foldl_meet (vs : List VariableId) (s : Search) :
    (vs.foldl meet s).pending = s.pending := by
  induction vs generalizing s with
  | nil => rfl
  | cons v vs ih => rw [List.foldl_cons, ih, pending_meet]

/-- So does following a play. -/
@[simp] theorem pending_follow (g : JoinGraph) (s : Search) (p : PlayId) :
    (follow g s p).pending = s.pending := by
  rw [follow]
  split
  · rfl
  · rw [pending_foldl_meet, pending, pending]

/-- So does looking at a variable. -/
@[simp] theorem pending_look (g : JoinGraph) (s : Search) (v : VariableId) :
    (look g s v).pending = s.pending := by
  rw [look]
  induction (g.variableAt v).plays generalizing s with
  | nil => rfl
  | cons p ps ih => rw [List.foldl_cons, ih, pending_follow]

end Search

/-- A search until nothing is left to look at. -/
def explore (g : JoinGraph) : Search → Search
  | ⟨unvisited, [], steps⟩ => ⟨unvisited, [], steps⟩
  | ⟨unvisited, v :: frontier, steps⟩ => explore g (Search.look g ⟨unvisited, frontier, steps⟩ v)
termination_by s => s.pending
decreasing_by
  rw [Search.pending_look]
  exact Nat.lt_succ_self _

/-- A search comes to no more variables than it was still to go through. -/
theorem pending_explore_le (g : JoinGraph) (s : Search) : (g.explore s).pending ≤ s.pending := by
  induction s using explore.induct g with
  | case1 unvisited steps =>
    have hdone : g.explore ⟨unvisited, [], steps⟩ = ⟨unvisited, [], steps⟩ := by rw [explore]
    exact Nat.le_of_eq (congrArg Search.pending hdone)
  | case2 unvisited v frontier steps ih =>
    rw [explore]
    refine Nat.le_trans ih ?_
    rw [Search.pending_look]
    exact Nat.le_succ _

/-- The groups of the variables that have not been met: from the least one on, the variable from
which a group was searched and the steps of the group in order. -/
def groupsFrom (g : JoinGraph) : List VariableId → List (VariableId × List StepId)
  | [] => []
  | start :: unvisited =>
    let found := g.explore { unvisited, frontier := [start] }
    (start, found.steps.mergeSort (·.index ≤ ·.index)) :: groupsFrom g found.unvisited
termination_by unvisited => unvisited.length
decreasing_by
  rw [explore]
  have hle := g.pending_explore_le (Search.look g ⟨unvisited, [], []⟩ start)
  rw [Search.pending_look] at hle
  exact Nat.lt_succ_of_le (Nat.le_trans (Nat.le_add_right _ _) hle)

/-- The groups of all variables. -/
def groups (g : JoinGraph) : List (VariableId × List StepId) :=
  g.groupsFrom g.variableIds

/-- The first variable that no step relates and that is not among those asked for. -/
def unused? (g : JoinGraph) (asked : List VariableId) : Option VariableId :=
  g.variableIds.find? fun v => (g.variableAt v).plays.isEmpty && !asked.contains v

end FactModel.JoinGraph
