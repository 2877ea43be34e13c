import FactModel.Proofs.JoinGraph.Mirror
set_option autoImplicit false

/-!
# Groups of join graphs

Where every play is listed by its step and by its variable, the steps of a variable are those that
relate it. So a search from a variable meets the variables that are connected with it and the steps
that relate them, and no others. A variable that no search before has met is the least of those
connected with it; so there is one group for each such variable, and every step is in one of them.

## Main definitions

* `FactModel.JoinGraph.Related` — some step relates two variables.
* `FactModel.JoinGraph.Connected` — two variables are connected by steps.
* `FactModel.JoinGraph.IsLeast` — a variable is the least of those connected with it.
* `FactModel.JoinGraph.Search.Explores` — what holds in each round of a search.
* `FactModel.JoinGraph.Groups` — the groups by their least variables.

## Main results

* `FactModel.JoinGraph.Search.Explores.explore` — a search until nothing is left to look at keeps
  it.
* `FactModel.JoinGraph.IsSound.explored` — so it meets what is connected, and nothing else.
* `FactModel.JoinGraph.IsSound.groupsFrom_eq` — there is one group for each least variable.
* `FactModel.Draft.validate_eq_ok_iff`, `FactModel.Draft.validate_eq_error` — what a draft must be,
  and how it fails if it is not connected.
-/

namespace FactModel

open Relation

namespace JoinGraph

variable {g : JoinGraph} {v w : VariableId} {s : StepId}

/-! ## Connected variables -/

/-- Some step relates two variables. -/
def Related (g : JoinGraph) (v w : VariableId) : Prop :=
  ∃ s ∈ g.stepIds, v ∈ g.stepVariables s ∧ w ∈ g.stepVariables s

/-- Two variables are connected by steps, each of which relates a variable to the next. -/
def Connected (g : JoinGraph) : VariableId → VariableId → Prop :=
  ReflTransGen g.Related

/-- A variable is the least of those connected with it. -/
def IsLeast (g : JoinGraph) (v : VariableId) : Prop :=
  ∀ w, g.Connected v w → v.index ≤ w.index

/-- The steps of the plays of a variable. -/
def stepsOf (g : JoinGraph) (v : VariableId) : List StepId :=
  (g.variableAt v).plays.map fun p => (g.playAt p).step

/-- Being related goes both ways. -/
lemma Related.symm (h : g.Related v w) : g.Related w v := by
  obtain ⟨s, hs, hv, hw⟩ := h
  exact ⟨s, hs, hw, hv⟩

/-- Being connected goes both ways. -/
lemma Connected.symm (h : g.Connected v w) : g.Connected w v := by
  induction h with
  | refl => exact .refl
  | tail _ hlast ih => exact .head hlast.symm ih

/-- Being connected goes on. -/
lemma Connected.trans {u : VariableId} (h : g.Connected v w) (h' : g.Connected w u) :
    g.Connected v u :=
  ReflTransGen.trans h h'

/-- Connected variables that are both the least of those connected with them are one. -/
lemma IsLeast.eq_of_connected (hv : g.IsLeast v) (hw : g.IsLeast w) (h : g.Connected v w) :
    v = w := by
  have hle := hv w h
  have hge := hw v h.symm
  cases v
  cases w
  exact congrArg VariableId.mk (Nat.le_antisymm hle hge)

/-- Every variable is connected with the least of those connected with it. -/
lemma exists_isLeast (g : JoinGraph) (v : VariableId) : ∃ u, g.IsLeast u ∧ g.Connected u v := by
  generalize hn : v.index = n
  induction n using Nat.strongRecOn generalizing v with
  | ind n ih =>
    by_cases hv : g.IsLeast v
    · exact ⟨v, hv, .refl⟩
    · rw [IsLeast, not_forall] at hv
      obtain ⟨w, hw⟩ := hv
      rw [Classical.not_imp, Nat.not_le, hn] at hw
      obtain ⟨u, hu, huw⟩ := ih w.index hw.2 w rfl
      exact ⟨u, hu, huw.trans hw.1.symm⟩

/-! ## Searching along steps -/

/-- A join graph in which every play is listed by its step and its variable, both of which are
there. -/
structure IsSound (g : JoinGraph) : Prop extends g.PlaysListed where
  play_mem : ∀ p ∈ g.playIds, (g.playAt p).variableId ∈ g.variableIds ∧
    (g.playAt p).step ∈ g.stepIds

namespace IsSound

variable (h : g.IsSound)

include h

/-- The variables of a step are there. -/
lemma mem_variableIds_of_stepVariables (hs : s ∈ g.stepIds) (hv : v ∈ g.stepVariables s) :
    v ∈ g.variableIds := by
  obtain ⟨p, hp, rfl⟩ := List.mem_map.1 hv
  have hlt := h.toPlaysListed.index_lt (stepAt_mem (mem_stepIds.1 hs)) hp
  exact (h.play_mem p (mem_playIds.2 hlt)).1

/-- Variables that are related are variables of the join graph. -/
lemma mem_variableIds_of_related (hvw : g.Related v w) : v ∈ g.variableIds ∧ w ∈ g.variableIds := by
  obtain ⟨s, hs, hv, hw⟩ := hvw
  exact ⟨h.mem_variableIds_of_stepVariables hs hv, h.mem_variableIds_of_stepVariables hs hw⟩

/-- The steps of a variable are those that relate it. -/
lemma mem_stepsOf (hv : v ∈ g.variableIds) :
    s ∈ g.stepsOf v ↔ s ∈ g.stepIds ∧ v ∈ g.stepVariables s := by
  rw [stepsOf, h.byVariable v hv, List.mem_map]
  constructor
  · rintro ⟨p, hp, rfl⟩
    obtain ⟨hp, heq⟩ := List.mem_filter.1 hp
    have hstep := (h.play_mem p hp).2
    refine ⟨hstep, List.mem_map.2 ⟨p, ?_, of_decide_eq_true heq⟩⟩
    exact (h.toPlaysListed.mem_plays_stepAt hp hstep).2 rfl
  · rintro ⟨hs, hv⟩
    obtain ⟨p, hp, heq⟩ := List.mem_map.1 hv
    have hlt := h.toPlaysListed.index_lt (stepAt_mem (mem_stepIds.1 hs)) hp
    exact ⟨p, List.mem_filter.2 ⟨mem_playIds.2 hlt, decide_eq_true heq⟩, h.step_eq s hs p hp⟩

/-- What is connected with a variable is a variable. -/
lemma mem_variableIds_of_connected (hv : v ∈ g.variableIds) (hvw : g.Connected v w) :
    w ∈ g.variableIds := by
  rcases ReflTransGen.cases_tail hvw with rfl | ⟨u, -, huw⟩
  · exact hv
  · exact (h.mem_variableIds_of_related huw).2

end IsSound

/-- Two lists in ascending order that have the same members are one. -/
lemma eq_of_ascending {vs ws : List VariableId} (hvs : vs.Pairwise fun v w => v.index < w.index)
    (hws : ws.Pairwise fun v w => v.index < w.index) (hmem : ∀ v, v ∈ vs ↔ v ∈ ws) : vs = ws := by
  have hnodup : ∀ {us : List VariableId}, us.Pairwise (fun v w => v.index < w.index) →
    us.Nodup := by
    intro us hus
    refine hus.imp fun {v w} hlt heq => ?_
    rw [heq] at hlt
    exact Nat.lt_irrefl _ hlt
  refine ((List.perm_ext_iff_of_nodup (hnodup hvs) (hnodup hws)).2 hmem).eq_of_pairwise ?_ hvs hws
  exact fun v w _ _ hlt hgt => absurd hgt (Nat.lt_asymm hlt)

/-- The numbers of variables are in ascending order. -/
lemma variableIds_pairwise (g : JoinGraph) :
    g.variableIds.Pairwise fun v w => v.index < w.index :=
  List.pairwise_map.2 List.pairwise_lt_range

/-- The numbers of steps are in ascending order. -/
lemma stepIds_pairwise (g : JoinGraph) : g.stepIds.Pairwise fun s t => s.index < t.index :=
  List.pairwise_map.2 List.pairwise_lt_range

/-! ## What a search keeps -/

namespace Search

/-- A search has met some variables: those that it had not met before are still to be looked at, and
nothing else has changed. -/
structure Meets (s : Search) (vs : List VariableId) (t : Search) : Prop where
  sublist : t.unvisited.Sublist s.unvisited
  mem_unvisited : ∀ w, w ∈ t.unvisited ↔ w ∈ s.unvisited ∧ w ∉ vs
  mem_frontier : ∀ w, w ∈ t.frontier ↔ w ∈ s.frontier ∨ w ∈ s.unvisited ∧ w ∈ vs
  steps_eq : t.steps = s.steps

/-- Meeting a variable meets it. -/
lemma meets_meet {s : Search} (hs : s.unvisited.Nodup) (v : VariableId) :
    s.Meets [v] (s.meet v) := by
  rw [meet]
  split
  · next hv =>
    refine ⟨List.erase_sublist, fun w => ?_, fun w => ?_, rfl⟩
    · rw [hs.mem_erase_iff, List.mem_singleton, and_comm]
    · rw [List.mem_cons, List.mem_singleton, or_comm]
      refine or_congr_right ⟨fun hw => ⟨hw ▸ hv, hw⟩, And.right⟩
  · next hv =>
    have hnot : ∀ w, w ∈ s.unvisited → w ≠ v := fun w hw heq => hv (heq ▸ hw)
    refine ⟨List.Sublist.refl _, fun w => ?_, fun w => ?_, rfl⟩
    · rw [List.mem_singleton]
      exact ⟨fun hw => ⟨hw, hnot w hw⟩, And.left⟩
    · rw [List.mem_singleton]
      exact ⟨.inl, fun hw => hw.resolve_right fun hw' => hnot w hw'.1 hw'.2⟩

/-- Variables met one after another are all met. -/
lemma meets_foldl {s : Search} (hs : s.unvisited.Nodup) (vs : List VariableId) :
    s.Meets vs (vs.foldl meet s) := by
  induction vs generalizing s with
  | nil => exact ⟨List.Sublist.refl _, by simp, by simp, rfl⟩
  | cons v vs ih =>
    have hfirst := meets_meet hs v
    have hrest := ih (hs.sublist hfirst.sublist)
    refine ⟨hrest.sublist.trans hfirst.sublist, fun w => ?_, fun w => ?_,
      hrest.steps_eq.trans hfirst.steps_eq⟩
    · rw [List.foldl_cons, hrest.mem_unvisited, hfirst.mem_unvisited, List.mem_singleton,
        List.mem_cons, not_or, and_assoc]
    · rw [List.foldl_cons, hrest.mem_frontier, hfirst.mem_frontier, hfirst.mem_unvisited,
        List.mem_singleton, List.mem_cons]
      by_cases hw : w = v <;> simp [hw]

/-- What holds in each round of a search from a variable among others. What has been met is
connected with that variable, and so are the steps that have been met. The variables of these steps
have been met, and so have the steps of every variable that has been met and is not still to be
looked at. -/
structure Explores (g : JoinGraph) (start : VariableId) (all todo : List VariableId)
    (s : Search) : Prop where
  sublist : s.unvisited.Sublist all
  start_met : start ∉ s.unvisited
  connected : ∀ w ∈ all, w ∉ s.unvisited → g.Connected start w
  todo_met : ∀ w ∈ todo, w ∈ all ∧ w ∉ s.unvisited
  followed : ∀ w ∈ all, w ∉ s.unvisited → w ∈ todo ∨ g.stepsOf w ⊆ s.steps
  nodup : s.steps.Nodup
  step_connected : ∀ t ∈ s.steps, t ∈ g.stepIds ∧ ∃ w ∈ g.stepVariables t, g.Connected start w
  variables_met : ∀ t ∈ s.steps, ∀ w ∈ g.stepVariables t, w ∉ s.unvisited

namespace Explores

variable {start : VariableId} {all : List VariableId}

/-- It holds when the search begins. -/
lemma begin {unvisited : List VariableId} (hnodup : (start :: unvisited).Nodup) :
    Explores g start (start :: unvisited) [start] { unvisited, frontier := [start] } where
  sublist := List.sublist_cons_self _ _
  start_met := (List.nodup_cons.1 hnodup).1
  connected w hw hmet := by
    rw [(List.mem_cons.1 hw).resolve_right hmet]
    exact .refl
  todo_met w hw := by
    rw [List.mem_singleton.1 hw]
    exact ⟨List.mem_cons_self, (List.nodup_cons.1 hnodup).1⟩
  followed w hw hmet := .inl (List.mem_singleton.2 ((List.mem_cons.1 hw).resolve_right hmet))
  nodup := List.nodup_nil
  step_connected t ht := absurd ht List.not_mem_nil
  variables_met t ht := absurd ht List.not_mem_nil

/-- It holds after a play of the variable looked at has been followed, and the step of the play has
been met. -/
lemma follow {s : Search} (h : Explores g start all (v :: s.frontier) s) (hg : g.IsSound)
    (hnodup : all.Nodup) (hall : all ⊆ g.variableIds) {p : PlayId}
    (hp : p ∈ (g.variableAt v).plays) :
    Explores g start all (v :: (follow g s p).frontier) (follow g s p) ∧
      s.steps ⊆ (Search.follow g s p).steps ∧ (g.playAt p).step ∈ (Search.follow g s p).steps := by
  obtain ⟨hv, hvmet⟩ := h.todo_met v List.mem_cons_self
  obtain ⟨hstep, hvstep⟩ := (hg.mem_stepsOf (hall hv)).1 (List.mem_map_of_mem hp)
  have hvconnected := h.connected v hv hvmet
  rw [Search.follow]
  split
  · next hold => exact ⟨h, List.Subset.refl _, hold⟩
  · next hnew =>
    have hmeets := meets_foldl (s := { s with steps := s.steps ++ [(g.playAt p).step] })
      (hnodup.sublist h.sublist) (g.stepVariables (g.playAt p).step)
    generalize (g.stepVariables (g.playAt p).step).foldl meet _ = t at hmeets
    have hstill : ∀ w, w ∉ s.unvisited → w ∉ t.unvisited := fun w hw hw' =>
      hw (hmeets.sublist.subset hw')
    -- what is met now is a variable of the step that has just been met
    have hnow : ∀ w, w ∉ t.unvisited → w ∈ s.unvisited → w ∈ g.stepVariables (g.playAt p).step :=
      fun w hw hw' => Classical.byContradiction fun hnot =>
        hw ((hmeets.mem_unvisited w).2 ⟨hw', hnot⟩)
    have hsteps : t.steps = s.steps ++ [(g.playAt p).step] := hmeets.steps_eq
    refine ⟨{
      sublist := hmeets.sublist.trans h.sublist
      start_met := hstill start h.start_met
      connected w hw hmet := ?_
      todo_met w hw := ?_
      followed w hw hmet := ?_
      nodup := ?_
      step_connected u hu := ?_
      variables_met u hu w hw := ?_ }, ?_, ?_⟩
    · by_cases hw' : w ∈ s.unvisited
      · exact hvconnected.tail ⟨_, hstep, hvstep, hnow w hmet hw'⟩
      · exact h.connected w hw hw'
    · rw [List.mem_cons, hmeets.mem_frontier, ← or_assoc, ← List.mem_cons] at hw
      rcases hw with hw | ⟨hw, hwstep⟩
      · exact ⟨(h.todo_met w hw).1, hstill w (h.todo_met w hw).2⟩
      · exact ⟨h.sublist.subset hw, fun hw' => ((hmeets.mem_unvisited w).1 hw').2 hwstep⟩
    · rw [List.mem_cons, hmeets.mem_frontier, ← or_assoc, ← List.mem_cons]
      by_cases hw' : w ∈ s.unvisited
      · exact .inl (.inr ⟨hw', hnow w hmet hw'⟩)
      · refine (h.followed w hw hw').imp .inl fun hsub => ?_
        rw [hsteps]
        exact fun u hu => List.mem_append_left _ (hsub hu)
    · rw [hsteps]
      exact List.nodup_append.2 ⟨h.nodup, List.nodup_singleton _, by
        rintro a ha b hb rfl
        exact hnew (List.mem_singleton.1 hb ▸ ha)⟩
    · rw [hsteps, List.mem_append, List.mem_singleton] at hu
      rcases hu with hu | rfl
      · exact h.step_connected u hu
      · exact ⟨hstep, v, hvstep, hvconnected⟩
    · rw [hsteps, List.mem_append, List.mem_singleton] at hu
      rcases hu with hu | rfl
      · exact hstill w (h.variables_met u hu w hw)
      · exact fun hw' => ((hmeets.mem_unvisited w).1 hw').2 hw
    · rw [hsteps]
      exact List.subset_append_left _ _
    · rw [hsteps]
      exact List.mem_append_right _ (List.mem_singleton_self _)

/-- It holds after a variable has been looked at. -/
lemma look {s : Search} (h : Explores g start all (v :: s.frontier) s) (hg : g.IsSound)
    (hnodup : all.Nodup) (hall : all ⊆ g.variableIds) :
    Explores g start all (look g s v).frontier (look g s v) := by
  have hplays : ∀ ps ⊆ (g.variableAt v).plays, ∀ s : Search,
      Explores g start all (v :: s.frontier) s →
        Explores g start all (v :: (ps.foldl (Search.follow g) s).frontier)
        (ps.foldl (Search.follow g) s) ∧
          s.steps ⊆ (ps.foldl (Search.follow g) s).steps ∧
          ∀ p ∈ ps, (g.playAt p).step ∈ (ps.foldl (Search.follow g) s).steps := by
    intro ps
    induction ps with
    | nil => exact fun _ s hs => ⟨hs, List.Subset.refl _, by simp⟩
    | cons p ps ih =>
      intro hps s hs
      obtain ⟨hp, hps⟩ := List.cons_subset.1 hps
      obtain ⟨hfirst, hsub, hmem⟩ := hs.follow hg hnodup hall hp
      obtain ⟨hrest, hsub', hmem'⟩ := ih hps _ hfirst
      exact ⟨hrest, List.Subset.trans hsub hsub', List.forall_mem_cons.2 ⟨hsub' hmem, hmem'⟩⟩
  obtain ⟨hlast, -, hmem⟩ := hplays _ (List.Subset.refl _) s h
  exact { hlast with
    todo_met := fun w hw => hlast.todo_met w (List.mem_cons_of_mem _ hw)
    followed := fun w hw hmet => by
      rcases hlast.followed w hw hmet with hw' | hsub
      · rcases List.mem_cons.1 hw' with rfl | hw'
        · refine .inr fun t ht => ?_
          obtain ⟨p, hp, rfl⟩ := List.mem_map.1 ht
          exact hmem p hp
        · exact .inl hw'
      · exact .inr hsub }

/-- **A search keeps what holds in each round** until nothing is left to look at. -/
theorem explore {s : Search} (h : Explores g start all s.frontier s) (hg : g.IsSound)
    (hnodup : all.Nodup) (hall : all ⊆ g.variableIds) : Explores g start all [] (g.explore s) := by
  induction s using JoinGraph.explore.induct g with
  | case1 unvisited steps =>
    rw [JoinGraph.explore]
    exact h
  | case2 unvisited v frontier steps ih =>
    rw [JoinGraph.explore]
    refine ih (look (s := ⟨unvisited, frontier, steps⟩) ?_ hg hnodup hall)
    exact { h with }

end Explores

end Search

/-! ## The groups -/

/-- The groups of a join graph: one for each variable that is the least of those connected with it,
in the order of these variables. A group holds the steps that relate some variable connected with
it, in order; if there are none, no other variable is connected with it. Every step is in one group,
once. -/
structure Groups (g : JoinGraph) (least : List VariableId)
    (groups : List (List StepId)) : Prop where
  ascending : least.Pairwise fun v w => v.index < w.index
  mem_least : ∀ v, v ∈ least ↔ v ∈ g.variableIds ∧ g.IsLeast v
  group : List.Forall₂ (fun v steps => steps.Pairwise (fun s t => s.index < t.index) ∧
    (∀ s, s ∈ steps ↔ s ∈ g.stepIds ∧ ∃ w ∈ g.stepVariables s, g.Connected v w) ∧
    (steps = [] → ∀ w, g.Connected v w → w = v)) least groups
  perm : groups.flatten.Perm g.stepIds

open scoped Classical in
/-- The steps that relate some variable connected with a variable, in order. -/
noncomputable def connectedSteps (g : JoinGraph) (v : VariableId) : List StepId :=
  g.stepIds.filter fun s => ∃ w ∈ g.stepVariables s, g.Connected v w

open scoped Classical in
/-- They are the steps that relate some variable connected with it. -/
lemma mem_connectedSteps :
    s ∈ g.connectedSteps v ↔ s ∈ g.stepIds ∧ ∃ w ∈ g.stepVariables s, g.Connected v w := by
  rw [connectedSteps, List.mem_filter, decide_eq_true_eq]

/-- They are in order. -/
lemma connectedSteps_pairwise (g : JoinGraph) (v : VariableId) :
    (g.connectedSteps v).Pairwise fun s t => s.index < t.index :=
  g.stepIds_pairwise.sublist List.filter_sublist

/-- Every step relates some variable. -/
lemma stepVariables_ne_nil (g : JoinGraph) (s : StepId) : g.stepVariables s ≠ [] :=
  List.cons_ne_nil _ _

namespace IsSound

variable (h : g.IsSound)

include h

/-- **A search meets what is connected.** After a search from the first of some variables, to which
all that is connected with them belongs, those are left over that are not connected with the first,
in their order, and the steps that have been met are those that relate some variable connected with
it. -/
theorem explored {start : VariableId} {unvisited : List VariableId}
    (hascending : (start :: unvisited).Pairwise fun v w => v.index < w.index)
    (hall : start :: unvisited ⊆ g.variableIds)
    (hclosed : ∀ v ∈ start :: unvisited, ∀ w, g.Connected v w → w ∈ start :: unvisited) :
    let found := g.explore { unvisited, frontier := [start] }
    found.unvisited.Sublist unvisited ∧
      (∀ w, w ∈ found.unvisited ↔ w ∈ start :: unvisited ∧ ¬g.Connected start w) ∧
      found.steps.mergeSort (·.index ≤ ·.index) = g.connectedSteps start := by
  have hnodup : (start :: unvisited).Nodup := hascending.imp fun hlt heq => by
    rw [heq] at hlt
    exact Nat.lt_irrefl _ hlt
  intro found
  have hfound : Search.Explores g start (start :: unvisited) [] found :=
    Search.Explores.explore (.begin hnodup) h hnodup hall
  have hmet : ∀ w, g.Connected start w → w ∈ start :: unvisited ∧ w ∉ found.unvisited := by
    intro w hw
    induction hw with
    | refl => exact ⟨List.mem_cons_self, hfound.start_met⟩
    | tail _ hlast ih =>
      obtain ⟨hmem, hnot⟩ := ih
      refine ⟨hclosed _ hmem _ (.single hlast), ?_⟩
      obtain ⟨t, ht, hut, hwt⟩ := hlast
      have hfollowed := (hfound.followed _ hmem hnot).resolve_left List.not_mem_nil
      exact hfound.variables_met t (hfollowed ((h.mem_stepsOf (hall hmem)).2 ⟨ht, hut⟩)) _ hwt
  have hmem : ∀ w, w ∈ found.unvisited ↔ w ∈ start :: unvisited ∧ ¬g.Connected start w := fun w =>
    ⟨fun hw => ⟨hfound.sublist.subset hw, fun hconnected => (hmet w hconnected).2 hw⟩,
      fun hw => Classical.byContradiction fun hnot => hw.2 (hfound.connected w hw.1 hnot)⟩
  refine ⟨?_, hmem, ?_⟩
  · rcases List.sublist_cons_iff.1 hfound.sublist with hsub | ⟨more, hmore, -⟩
    · exact hsub
    · exact absurd (hmore ▸ List.mem_cons_self) hfound.start_met
  · have hsteps : ∀ t, t ∈ found.steps ↔ t ∈ g.connectedSteps start := by
      intro t
      rw [mem_connectedSteps]
      refine ⟨hfound.step_connected t, fun ⟨ht, w, hwt, hw⟩ => ?_⟩
      obtain ⟨hmem, hnot⟩ := hmet w hw
      have hfollowed := (hfound.followed w hmem hnot).resolve_left List.not_mem_nil
      exact hfollowed ((h.mem_stepsOf (hall hmem)).2 ⟨ht, hwt⟩)
    have hsorted : (found.steps.mergeSort (·.index ≤ ·.index)).Pairwise fun s t =>
      s.index ≤ t.index := by
      have htrans : ∀ s t u : StepId, decide (s.index ≤ t.index) = true →
          decide (t.index ≤ u.index) = true → decide (s.index ≤ u.index) = true :=
            fun s t u hst htu =>
        decide_eq_true (Nat.le_trans (of_decide_eq_true hst) (of_decide_eq_true htu))
      have htotal : ∀ s t : StepId,
        (decide (s.index ≤ t.index) || decide (t.index ≤ s.index)) = true :=
        fun s t => by simpa using Nat.le_total s.index t.index
      exact (List.pairwise_mergeSort htrans htotal found.steps).imp of_decide_eq_true
    have hperm : (found.steps.mergeSort (·.index ≤ ·.index)).Perm (g.connectedSteps start) := by
      refine (List.mergeSort_perm _ _).trans ((List.perm_ext_iff_of_nodup hfound.nodup ?_).2 hsteps)
      exact (g.connectedSteps_pairwise start).imp fun hlt heq => by
        rw [heq] at hlt
        exact Nat.lt_irrefl _ hlt
    refine hperm.eq_of_pairwise (fun s t _ _ hst hts => ?_) hsorted
      ((g.connectedSteps_pairwise start).imp Nat.le_of_lt)
    cases s
    cases t
    exact congrArg StepId.mk (Nat.le_antisymm hst hts)

open scoped Classical in
/-- **There is one group for each least variable** among those that have not been met, if all that
is connected with them belongs to them.

**Proof sketch.** By induction on the search: the first of the variables is the least of those
connected with it, and the others that are met with it are not. -/
theorem groupsFrom_eq {unvisited : List VariableId}
    (hascending : unvisited.Pairwise fun v w => v.index < w.index)
    (hall : unvisited ⊆ g.variableIds)
    (hclosed : ∀ v ∈ unvisited, ∀ w, g.Connected v w → w ∈ unvisited) :
    g.groupsFrom unvisited =
      (unvisited.filter fun v => g.IsLeast v).map fun v => (v, g.connectedSteps v) := by
  induction unvisited using groupsFrom.induct g with
  | case1 => rw [groupsFrom, List.filter_nil, List.map_nil]
  | case2 start unvisited found ih =>
    obtain ⟨hsub, hmem, hsteps⟩ := h.explored hascending hall hclosed
    change found.unvisited.Sublist unvisited at hsub
    change ∀ w, w ∈ found.unvisited ↔ _ at hmem
    have hless := (List.pairwise_cons.1 hascending).1
    have hleast : g.IsLeast start := fun w hw => by
      rcases List.mem_cons.1 (hclosed start List.mem_cons_self w hw) with rfl | hw'
      · exact Nat.le_refl _
      · exact Nat.le_of_lt (hless w hw')
    have hrest := ih ((List.pairwise_cons.1 hascending).2.sublist hsub)
      (fun v hv => hall ((hmem v).1 hv).1) fun v hv w hvw => by
        obtain ⟨hv, hnot⟩ := (hmem v).1 hv
        exact (hmem w).2 ⟨hclosed v hv w hvw, fun hw => hnot (hw.trans hvw.symm)⟩
    have hothers : found.unvisited.filter (fun v => g.IsLeast v) =
        unvisited.filter fun v => g.IsLeast v := by
      have hasc := (List.pairwise_cons.1 hascending).2
      refine eq_of_ascending ((hasc.sublist hsub).sublist List.filter_sublist)
        (hasc.sublist List.filter_sublist) fun v => ?_
      simp only [List.mem_filter, decide_eq_true_eq, hmem, List.mem_cons]
      constructor
      · rintro ⟨⟨rfl | hv, hnot⟩, hvleast⟩
        · exact absurd .refl hnot
        · exact ⟨hv, hvleast⟩
      · rintro ⟨hv, hvleast⟩
        refine ⟨⟨.inr hv, fun hconnected => ?_⟩, hvleast⟩
        have hlt := hless v hv
        rw [hleast.eq_of_connected hvleast hconnected] at hlt
        exact Nat.lt_irrefl _ hlt
    rw [groupsFrom, List.filter_cons_of_pos (by simpa using hleast),
      List.map_cons, ← hothers, ← hrest]
    exact congrArg (fun steps => (start, steps) :: g.groupsFrom found.unvisited) hsteps

/-- The groups that the searches give are those of the least variables. -/
theorem exists_groups_eq :
    ∃ least : List VariableId, least.Pairwise (fun v w => v.index < w.index) ∧
      (∀ v, v ∈ least ↔ v ∈ g.variableIds ∧ g.IsLeast v) ∧
      g.groups = least.map fun v => (v, g.connectedSteps v) := by
  classical
  refine ⟨g.variableIds.filter fun v => g.IsLeast v,
    g.variableIds_pairwise.sublist List.filter_sublist, fun v => ?_, ?_⟩
  · rw [List.mem_filter, decide_eq_true_eq]
  · exact h.groupsFrom_eq g.variableIds_pairwise (List.Subset.refl _) fun v hv w hvw =>
      h.mem_variableIds_of_connected hv hvw

/-- The steps around the least variables are the groups. -/
theorem groups_connectedSteps {least : List VariableId}
    (hascending : least.Pairwise fun v w => v.index < w.index)
    (hleast : ∀ v, v ∈ least ↔ v ∈ g.variableIds ∧ g.IsLeast v) :
    g.Groups least (least.map g.connectedSteps) where
  ascending := hascending
  mem_least := hleast
  group := by
    refine List.forall₂_map_right_iff.2 (List.forall₂_same.2 fun v hv => ?_)
    refine ⟨g.connectedSteps_pairwise v, fun s => mem_connectedSteps, fun hnone w hvw => ?_⟩
    -- a variable that is connected with another one is related to some variable by a step
    refine Classical.byContradiction fun hne => ?_
    rcases ReflTransGen.cases_head hvw with rfl | ⟨u, ⟨s, hs, hvs, -⟩, -⟩
    · exact hne rfl
    · exact List.ne_nil_of_mem (mem_connectedSteps.2 ⟨hs, v, hvs, .refl⟩) hnone
  perm := by
    have hnodup : g.stepIds.Nodup := List.nodup_range.map fun _ _ heq => StepId.mk.inj heq
    refine (List.perm_ext_iff_of_nodup ?_ hnodup).2 fun s => ?_
    · rw [List.nodup_flatten]
      refine ⟨fun steps hsteps => ?_, List.pairwise_map.2 ?_⟩
      · obtain ⟨v, -, rfl⟩ := List.mem_map.1 hsteps
        exact hnodup.sublist List.filter_sublist
      · refine List.Pairwise.imp_of_mem (fun {v w} hv hw hvw => ?_) hascending
        intro s hsv hsw
        obtain ⟨hs, u, hu, hvu⟩ := mem_connectedSteps.1 hsv
        obtain ⟨-, t, ht, hwt⟩ := mem_connectedSteps.1 hsw
        have hut : g.Connected u t := .single ⟨s, hs, hu, ht⟩
        have heq := ((hleast v).1 hv).2.eq_of_connected ((hleast w).1 hw).2
          ((hvu.trans hut).trans hwt.symm)
        rw [heq] at hvw
        exact Nat.lt_irrefl _ hvw
    · rw [List.mem_flatten]
      constructor
      · rintro ⟨steps, hsteps, hs⟩
        obtain ⟨v, -, rfl⟩ := List.mem_map.1 hsteps
        exact (mem_connectedSteps.1 hs).1
      · intro hs
        obtain ⟨w, hw⟩ := List.exists_mem_of_ne_nil _ (g.stepVariables_ne_nil s)
        obtain ⟨v, hv, hvw⟩ := g.exists_isLeast w
        have hmem :=
          h.mem_variableIds_of_connected (h.mem_variableIds_of_stepVariables hs hw) hvw.symm
        exact ⟨_, List.mem_map_of_mem ((hleast v).2 ⟨hmem, hv⟩),
          mem_connectedSteps.2 ⟨hs, w, hw, hvw⟩⟩

end IsSound

end JoinGraph

open JoinGraph

namespace Draft

variable {d : Draft}

/-! ## Validation -/

/-- Every variable is played or asked for. -/
def IsUsed (d : Draft) : Prop :=
  ∀ v ∈ d.graph.variableIds, (d.graph.variableAt v).plays ≠ [] ∨ v ∈ d.asked

/-- All variables are connected. -/
def IsConnected (d : Draft) : Prop :=
  ∀ v ∈ d.graph.variableIds, ∀ w ∈ d.graph.variableIds, d.graph.Connected v w

/-- Every variable is played or asked for exactly where no unused one is found. -/
lemma isUsed_iff : d.IsUsed ↔ d.graph.unused? d.asked = none := by
  rw [unused?, List.find?_eq_none]
  refine forall_congr' fun v => forall_congr' fun _ => ?_
  rw [Bool.and_eq_true, List.isEmpty_iff, Bool.not_eq_true', ← Bool.not_eq_true,
    List.contains_iff_mem, not_and, not_not, or_iff_not_imp_left, not_not]

/-- All variables are connected just in case there is at most one group. -/
lemma isConnected_iff (h : d.graph.IsSound) : d.IsConnected ↔ d.graph.groups.length ≤ 1 := by
  obtain ⟨least, hascending, hleast, hgroups⟩ := h.exists_groups_eq
  rw [hgroups, List.length_map]
  constructor
  · intro hconnected
    rcases least with _ | ⟨v, _ | ⟨w, more⟩⟩
    · exact Nat.zero_le 1
    · exact Nat.le_refl 1
    · obtain ⟨hv, hvleast⟩ := (hleast v).1 List.mem_cons_self
      obtain ⟨hw, hwleast⟩ := (hleast w).1 (List.mem_cons_of_mem v List.mem_cons_self)
      have hlt : v.index < w.index := (List.pairwise_cons.1 hascending).1 w List.mem_cons_self
      rw [hvleast.eq_of_connected hwleast (hconnected v hv w hw)] at hlt
      exact absurd hlt (Nat.lt_irrefl _)
  · intro hlength v hv w hw
    obtain ⟨t, ht, htv⟩ := d.graph.exists_isLeast v
    obtain ⟨u, hu, huw⟩ := d.graph.exists_isLeast w
    have htmem : t ∈ least := (hleast t).2 ⟨h.mem_variableIds_of_connected hv htv.symm, ht⟩
    have humem : u ∈ least := (hleast u).2 ⟨h.mem_variableIds_of_connected hw huw.symm, hu⟩
    have htu : t = u := by
      rcases least with _ | ⟨a, _ | ⟨b, more⟩⟩
      · cases htmem
      · rw [List.mem_singleton.1 htmem, List.mem_singleton.1 humem]
      · exact absurd hlength (by simp)
    exact htv.symm.trans (htu ▸ huw)

/-- A draft is valid just in case all variables are used and all are connected. -/
theorem validate_eq_ok_iff (h : d.graph.IsSound) :
    d.validate = .ok () ↔ d.IsUsed ∧ d.IsConnected := by
  rw [isUsed_iff, isConnected_iff h, validate]
  split
  · next v hsome => simp [hsome]
  · next hnone =>
    dsimp only
    split
    · next hlength => simp [hnone, hlength]
    · next hlength => simp [hlength]

/-- If all variables are used but not all are connected, a draft fails with its groups. -/
theorem validate_eq_error (h : d.graph.IsSound) (hused : d.IsUsed) (hconnected : ¬d.IsConnected) :
    ∃ least groups, d.graph.Groups least groups ∧
      d.validate = .error (.disconnectedQuery (List.zipWith d.describeGroup least groups)) := by
  obtain ⟨least, hascending, hleast, hgroups⟩ := h.exists_groups_eq
  refine ⟨least, _, h.groups_connectedSteps hascending hleast, ?_⟩
  rw [isConnected_iff h] at hconnected
  rw [validate, isUsed_iff.1 hused]
  dsimp only
  rw [if_neg hconnected, hgroups, List.map_map, List.zipWith_map_right, List.zipWith_self]
  rfl

end Draft

end FactModel
