import FactModel.Proofs.JoinGraph.Builder
set_option autoImplicit false

/-!
# The plays of a join graph

A play belongs to a step and to a variable, and each of them lists it. The lists of the steps, one
after the other, are all plays in order; the list of a variable is what it plays, in the same order.

## Main definitions

* `FactModel.JoinGraph.parts` — the variables and roles that a step brings together.
* `FactModel.JoinGraph.PlaysListed` — every play is listed once by its step and once by its
  variable.

* `FactModel.Draft.Alike` — two join graphs that differ at most in what objectifies what.

## Main results

* `FactModel.JoinGraph.PlaysListed.count_plays_stepAt`,
  `FactModel.JoinGraph.PlaysListed.count_plays_variableAt` — how often a play is listed.
* `FactModel.JoinGraph.PlaysListed.pushStep` — a step comes with its plays.
* `FactModel.Draft.parts_pushStep` — they are those that the step was made of.
* `FactModel.JoinGraph.PlaysListed.inputPlay_ne_outputPlay` — the first two plays of a step differ.
-/

namespace FactModel

namespace JoinGraph

/-- The numbers of the plays, in order. -/
def playIds (g : JoinGraph) : List PlayId :=
  (List.range g.plays.length).map .mk

/-- The variable and the role of each play of a step, in order. -/
def parts (g : JoinGraph) (s : Step) : List (VariableId × RoleId) :=
  s.plays.map fun p => ((g.playAt p).variableId, (g.playAt p).role)

/-- Every variable lists the plays that name it, in order. -/
def ListsByVariable (g : JoinGraph) : Prop :=
  ∀ w ∈ g.variableIds,
    (g.variableAt w).plays = g.playIds.filter fun p => (g.playAt p).variableId = w

/-- Every play is listed once by the step that it names, and once by the variable that it names. -/
structure PlaysListed (g : JoinGraph) : Prop where
  flatMap_plays : g.steps.flatMap Step.plays = g.playIds
  step_eq : ∀ s ∈ g.stepIds, ∀ p ∈ (g.stepAt s).plays, (g.playAt p).step = s
  byVariable : g.ListsByVariable

variable {g g' : JoinGraph}

/-- The numbers of plays are those within the list of plays. -/
lemma mem_playIds {p : PlayId} : p ∈ g.playIds ↔ p.index < g.plays.length := by
  constructor
  · intro h
    obtain ⟨i, hi, rfl⟩ := List.mem_map.1 h
    exact List.mem_range.1 hi
  · exact fun h => List.mem_map.2 ⟨p.index, List.mem_range.2 h, rfl⟩

/-- The numbers of steps are those within the list of steps. -/
lemma mem_stepIds {s : StepId} : s ∈ g.stepIds ↔ s.index < g.steps.length := by
  constructor
  · intro h
    obtain ⟨i, hi, rfl⟩ := List.mem_map.1 h
    exact List.mem_range.1 hi
  · exact fun h => List.mem_map.2 ⟨s.index, List.mem_range.2 h, rfl⟩

/-- The numbers of variables are those within the list of variables. -/
lemma mem_variableIds {w : VariableId} : w ∈ g.variableIds ↔ w.index < g.vars.length := by
  constructor
  · intro h
    obtain ⟨i, hi, rfl⟩ := List.mem_map.1 h
    exact List.mem_range.1 hi
  · exact fun h => List.mem_map.2 ⟨w.index, List.mem_range.2 h, rfl⟩

/-- No play has two numbers. -/
lemma nodup_playIds (g : JoinGraph) : g.playIds.Nodup :=
  List.nodup_range.map fun _ _ h => PlayId.mk.inj h

/-- A step that is there is one of the steps. -/
lemma stepAt_mem {s : StepId} (hs : s.index < g.steps.length) : g.stepAt s ∈ g.steps := by
  rw [stepAt, List.getElem?_eq_getElem hs]
  exact List.getElem_mem hs

/-- Plays that are added leave those before them as they are. -/
lemma playAt_of_added (h : g.plays <+: g'.plays) {p : PlayId} (hp : p.index < g.plays.length) :
    g'.playAt p = g.playAt p := by
  obtain ⟨more, hmore⟩ := h
  rw [playAt, ← hmore, List.getElem?_append_left hp, playAt]

/-- The numbers of plays depend only on how many there are. -/
lemma playIds_congr (h : g'.plays.length = g.plays.length) : g'.playIds = g.playIds := by
  rw [playIds, h, playIds]

namespace PlaysListed

variable (h : g.PlaysListed)

include h

/-- The plays that a step lists are there. -/
lemma index_lt {s : Step} (hs : s ∈ g.steps) {p : PlayId} (hp : p ∈ s.plays) :
    p.index < g.plays.length := by
  rw [← mem_playIds, ← h.flatMap_plays]
  exact List.mem_flatMap.2 ⟨s, hs, hp⟩

/-- No step lists a play twice. -/
lemma nodup_plays {s : Step} (hs : s ∈ g.steps) : s.plays.Nodup := by
  have hall := g.nodup_playIds
  rw [← h.flatMap_plays] at hall
  exact (List.nodup_flatMap.1 hall).1 s hs

/-- No step lists a play twice; its input play and its output play differ. -/
theorem inputPlay_ne_outputPlay {s : Step} (hs : s ∈ g.steps) : s.inputPlay ≠ s.outputPlay := by
  have hnodup := h.nodup_plays hs
  intro heq
  rw [Step.plays, heq] at hnodup
  exact (List.nodup_cons.1 hnodup).1 List.mem_cons_self

/-- A step lists the plays that name it. -/
lemma mem_plays_stepAt {p : PlayId} (hp : p ∈ g.playIds) {s : StepId} (hs : s ∈ g.stepIds) :
    p ∈ (g.stepAt s).plays ↔ s = (g.playAt p).step := by
  refine ⟨fun hmem => (h.step_eq s hs p hmem).symm, fun heq => ?_⟩
  rw [← h.flatMap_plays] at hp
  obtain ⟨t, ht, hmem⟩ := List.mem_flatMap.1 hp
  obtain ⟨i, hi, rfl⟩ := List.mem_iff_getElem.1 ht
  have hat : g.stepAt ⟨i⟩ = g.steps[i] := by
    rw [stepAt, List.getElem?_eq_getElem hi, Option.getD_some]
  rw [← hat] at hmem
  rw [heq, h.step_eq ⟨i⟩ (mem_stepIds.2 hi) p hmem]
  exact hmem

/-- Every play is listed once, by the step that it names. -/
theorem count_plays_stepAt {p : PlayId} (hp : p ∈ g.playIds) {s : StepId} (hs : s ∈ g.stepIds) :
    (g.stepAt s).plays.count p = if s = (g.playAt p).step then 1 else 0 := by
  rw [List.Nodup.count (h.nodup_plays (stepAt_mem (mem_stepIds.1 hs)))]
  simp only [h.mem_plays_stepAt hp hs]

/-- Every play is listed once, by the variable that it names. -/
theorem count_plays_variableAt {p : PlayId} (hp : p ∈ g.playIds) {w : VariableId}
    (hw : w ∈ g.variableIds) :
    (g.variableAt w).plays.count p = if w = (g.playAt p).variableId then 1 else 0 := by
  rw [h.byVariable w hw, List.Nodup.count (g.nodup_playIds.filter _)]
  simp [hp, eq_comm]

/-- Plays that are added do not change what a step brings together. -/
lemma parts_eq (hplays : g.plays <+: g'.plays) {s : Step} (hs : s ∈ g.steps) :
    g'.parts s = g.parts s :=
  List.map_congr_left fun p hp => by rw [playAt_of_added hplays (h.index_lt hs hp)]

end PlaysListed

end JoinGraph

open JoinGraph

namespace Draft

variable {g : JoinGraph}

/-! ## Changes of variables and steps -/

/-- Changing a variable changes that one only. -/
lemma variableAt_modifyVariable (g : JoinGraph) (w : VariableId) (change : Variable → Variable)
    (u : VariableId) : (modifyVariable g w change).variableAt u =
      if u = w ∧ w.index < g.vars.length then change (g.variableAt w) else g.variableAt u := by
  have hget : (modifyVariable g w change).vars[u.index]? =
      g.vars[u.index]?.map fun a => if w.index = u.index then change a else a :=
    List.getElem?_modify ..
  rw [variableAt, hget]
  by_cases hu : u = w
  · subst hu
    by_cases hlt : u.index < g.vars.length
    · rw [if_pos ⟨rfl, hlt⟩, variableAt, List.getElem?_eq_getElem hlt]
      simp
    · rw [if_neg fun h => hlt h.2, variableAt, List.getElem?_eq_none (Nat.not_lt.1 hlt)]
      rfl
  · have hindex : w.index ≠ u.index := fun h => hu (congrArg VariableId.mk h.symm)
    simp [hindex, hu, variableAt]

/-- What a change leaves alone of variables is the same afterwards. -/
lemma variableAt_modifyVariable_apply {α : Type} (field : Variable → α) (g : JoinGraph)
    (w : VariableId) {change : Variable → Variable} (h : ∀ u, field (change u) = field u)
    (u : VariableId) :
    field ((modifyVariable g w change).variableAt u) = field (g.variableAt u) := by
  rw [variableAt_modifyVariable]
  split
  · next hu => rw [h, hu.1]
  · rfl

/-- What a change does to no item, it does to no list. -/
lemma forall₂_modify {α : Type} {R : α → α → Prop} (hrefl : ∀ a, R a a) {change : α → α}
    (hchange : ∀ a, R a (change a)) (as : List α) (i : Nat) :
    List.Forall₂ R as (as.modify i change) := by
  induction as generalizing i with
  | nil =>
    rw [List.modify_nil]
    exact .nil
  | cons a as ih =>
    cases i with
    | zero =>
      rw [List.modify_zero_cons]
      exact .cons (hchange a) (List.forall₂_same.2 fun b _ => hrefl b)
    | succ i =>
      rw [List.modify_succ_cons]
      exact .cons (hrefl a) (ih i)

/-- Two steps state the same with the same plays. -/
structure SameStep (s t : Step) : Prop where
  plays_eq : t.plays = s.plays
  factType_eq : t.factType = s.factType
  reading_eq : t.reading = s.reading

/-- Two join graphs differ at most in what objectifies what. -/
structure Alike (g g' : JoinGraph) : Prop where
  plays_eq : g'.plays = g.plays
  steps : List.Forall₂ SameStep g.steps g'.steps
  vars_length : g'.vars.length = g.vars.length
  objectType_eq : ∀ w, (g'.variableAt w).objectType = (g.variableAt w).objectType
  variablePlays_eq : ∀ w, (g'.variableAt w).plays = (g.variableAt w).plays

/-- Telling a step which variable it objectifies changes nothing else. -/
lemma alike_tieStep (g : JoinGraph) (outer : VariableId) (inner : StepId) :
    Alike g (modifyStep g inner ({ · with objectificationVariable := some outer })) where
  plays_eq := rfl
  steps := forall₂_modify (fun _ => ⟨rfl, rfl, rfl⟩) (fun _ => ⟨rfl, rfl, rfl⟩) g.steps inner.index
  vars_length := rfl
  objectType_eq _ := rfl
  variablePlays_eq _ := rfl

/-- Telling a variable which step objectifies it changes nothing else. -/
lemma alike_tieVariable (g : JoinGraph) (outer : VariableId) (inner : StepId) :
    Alike g (modifyVariable g outer ({ · with objectificationStep := some inner })) where
  plays_eq := rfl
  steps := List.forall₂_same.2 fun _ _ => ⟨rfl, rfl, rfl⟩
  vars_length := by simp [modifyVariable]
  objectType_eq := variableAt_modifyVariable_apply Variable.objectType g outer fun _ => rfl
  variablePlays_eq := variableAt_modifyVariable_apply Variable.plays g outer fun _ => rfl

namespace Alike

variable {g' : JoinGraph} (h : Alike g g')

include h

/-- Join graphs that are alike have the same plays. -/
lemma playAt_eq (p : PlayId) : g'.playAt p = g.playAt p := by
  rw [playAt, h.plays_eq, playAt]

/-- The same steps of join graphs that are alike have the same parts. -/
lemma parts_eq {s t : Step} (hst : SameStep s t) : g'.parts t = g.parts s := by
  rw [parts, hst.plays_eq, parts]
  exact List.map_congr_left fun p _ => by rw [h.playAt_eq]

/-- Join graphs that are alike have the same steps. -/
lemma sameStep_stepAt (s : StepId) : SameStep (g.stepAt s) (g'.stepAt s) := by
  by_cases hs : s.index < g.steps.length
  · have hs' : s.index < g'.steps.length := h.steps.length_eq ▸ hs
    rw [stepAt, stepAt, List.getElem?_eq_getElem hs, List.getElem?_eq_getElem hs']
    exact h.steps.get hs hs'
  · have hs' : ¬s.index < g'.steps.length := h.steps.length_eq ▸ hs
    rw [stepAt, stepAt, List.getElem?_eq_none (Nat.not_lt.1 hs),
      List.getElem?_eq_none (Nat.not_lt.1 hs')]
    exact ⟨rfl, rfl, rfl⟩

/-- Join graphs that are alike list their plays alike. -/
lemma playsListed (hg : g.PlaysListed) : g'.PlaysListed := by
  have hids := playIds_congr (g := g) (congrArg List.length h.plays_eq)
  have hlists : g'.steps.flatMap Step.plays = g.steps.flatMap Step.plays := by
    have hsteps := h.steps
    generalize g.steps = ss, g'.steps = ts at hsteps
    induction hsteps with
    | nil => rfl
    | cons hst _ ih => rw [List.flatMap_cons, List.flatMap_cons, hst.plays_eq, ih]
  refine ⟨by rw [hids, hlists, hg.flatMap_plays], fun s hs p hp => ?_, fun w hw => ?_⟩
  · rw [mem_stepIds, ← h.steps.length_eq] at hs
    rw [(h.sameStep_stepAt s).plays_eq] at hp
    rw [h.playAt_eq]
    exact hg.step_eq s (mem_stepIds.2 hs) p hp
  · rw [mem_variableIds, h.vars_length] at hw
    simp only [h.variablePlays_eq, hids, h.playAt_eq]
    exact hg.byVariable w (mem_variableIds.2 hw)

end Alike

/-! ## Adding plays -/

/-- A new play has the next number. -/
lemma playIds_pushPlay (g : JoinGraph) (s : StepId) (w : VariableId) (role : RoleId) :
    (pushPlay g s w role).playIds = g.playIds ++ [⟨g.plays.length⟩] := by
  simp [playIds, pushPlay, modifyVariable, List.range_succ]

/-- A play is added to the list of its variable. -/
lemma plays_variableAt_pushPlay (s : StepId) (w : VariableId) (role : RoleId) {u : VariableId}
    (hu : u.index < g.vars.length) : ((pushPlay g s w role).variableAt u).plays =
      (g.variableAt u).plays ++ if w = u then [⟨g.plays.length⟩] else [] := by
  rw [pushPlay, variableAt_modifyVariable]
  by_cases h : w = u
  · subst h
    rw [if_pos ⟨rfl, hu⟩, if_pos rfl]
    rfl
  · rw [if_neg fun h' => h h'.1.symm, if_neg h, List.append_nil]
    rfl

/-- Adding a play keeps that variables list their plays in order. -/
lemma listsByVariable_pushPlay (h : g.ListsByVariable) (s : StepId) (w : VariableId)
    (role : RoleId) : (pushPlay g s w role).ListsByVariable := by
  intro u hu
  have hlength : (pushPlay g s w role).vars.length = g.vars.length := by
    simp [pushPlay, modifyVariable]
  have hlt : u.index < g.vars.length := hlength ▸ mem_variableIds.1 hu
  have hlast : (pushPlay g s w role).playAt ⟨g.plays.length⟩ =
      { variableId := w, role, step := s } := by
    simp [playAt, pushPlay, modifyVariable]
  have hbefore : g.playIds.filter (fun p => ((pushPlay g s w role).playAt p).variableId = u) =
      g.playIds.filter fun p => (g.playAt p).variableId = u :=
    List.filter_congr fun p hp => by
      rw [playAt_of_added (List.prefix_append ..) (mem_playIds.1 hp)]
  rw [plays_variableAt_pushPlay s w role hlt, h u (mem_variableIds.2 hlt), playIds_pushPlay,
    List.filter_append, hbefore, List.filter_singleton, hlast]
  by_cases hw : w = u <;> simp [hw]

/-- Adding plays keeps that variables list their plays in order. -/
lemma listsByVariable_foldl (h : g.ListsByVariable) (s : StepId)
    (plays : List (VariableId × RoleId)) :
    (plays.foldl (fun g (w, role) => pushPlay g s w role) g).ListsByVariable :=
  List.foldlRecOn (motive := ListsByVariable) plays _ h fun _ hg p _ =>
    listsByVariable_pushPlay hg s p.1 p.2

section OtherFields

variable {α : Type} (field : Variable → α)
  (hfield : ∀ (x : Variable) (plays : List PlayId), field { x with plays } = field x)

include hfield

/-- Only the plays of a variable change when a play is added. -/
lemma variableAt_pushPlay_apply (g : JoinGraph) (s : StepId) (w : VariableId) (role : RoleId)
    (u : VariableId) :
    field ((pushPlay g s w role).variableAt u) = field (g.variableAt u) :=
  variableAt_modifyVariable_apply field
    { g with plays := g.plays ++ [{ variableId := w, role, step := s }] } w
    (fun x => hfield x _) u

/-- Adding plays changes of variables only the plays that they list. -/
lemma variableAt_foldl_apply (g : JoinGraph) (s : StepId) (plays : List (VariableId × RoleId))
    (u : VariableId) :
    field ((plays.foldl (fun g (w, role) => pushPlay g s w role) g).variableAt u) =
      field (g.variableAt u) :=
  List.foldlRecOn (motive := fun e : JoinGraph => field (e.variableAt u) = field (g.variableAt u))
    plays _ rfl fun e he p _ => (variableAt_pushPlay_apply field hfield e s p.1 p.2 u).trans he

end OtherFields

/-! ## Adding a step -/

section PushStep

variable (g) (f : FactTypeId) (reading : Option ReadingId) (certainty : Certainty)
  (plays : List (VariableId × RoleId))

/-- A step adds its plays, the doubled ones included. -/
lemma plays_pushStep : (pushStep g f reading certainty plays).plays =
    g.plays ++ (doubled plays).map fun p =>
      { variableId := p.1, role := p.2, step := ⟨g.steps.length⟩ } :=
  (playsAdded_foldl ⟨g.steps.length⟩ (doubled plays) g).plays_eq

/-- A step leaves the types of variables as they are. -/
lemma objectType_variableAt_pushStep (u : VariableId) :
    ((pushStep g f reading certainty plays).variableAt u).objectType =
      (g.variableAt u).objectType :=
  variableAt_foldl_apply Variable.objectType (fun _ _ => rfl) g _ (doubled plays) u

/-- The step that is added. -/
def nextStep : Step :=
  (pushStep g f reading certainty plays).stepAt ⟨g.steps.length⟩

/-- A step is added at the end. -/
lemma steps_pushStep : (pushStep g f reading certainty plays).steps =
    g.steps ++ [nextStep g f reading certainty plays] := by
  have hsteps := (playsAdded_foldl ⟨g.steps.length⟩ (doubled plays) g).steps_eq
  simp only [nextStep, stepAt, pushStep]
  rw [hsteps]
  simp

/-- The step that is added has the given fact type and reading. -/
lemma nextStep_eq : (nextStep g f reading certainty plays).factType = f ∧
    (nextStep g f reading certainty plays).reading = reading := by
  have hsteps := (playsAdded_foldl ⟨g.steps.length⟩ (doubled plays) g).steps_eq
  simp only [nextStep, stepAt, pushStep]
  rw [hsteps, List.getElem?_concat_length]
  exact ⟨rfl, rfl⟩

variable {g plays}

/-- The plays of the step are the last ones. -/
lemma plays_nextStep (hne : plays ≠ []) : (nextStep g f reading certainty plays).plays =
    (List.range' g.plays.length (doubled plays).length).map PlayId.mk := by
  have hsteps := (playsAdded_foldl ⟨g.steps.length⟩ (doubled plays) g).steps_eq
  have htwo := two_le_length_doubled hne
  rw [nextStep, stepAt]
  simp only [pushStep]
  rw [hsteps, List.getElem?_concat_length, Option.getD_some, Step.plays,
    headD_cons_headD_tail (by simpa using htwo)]

/-- The plays of the step that is added are those given, in order. -/
lemma playAt_nextStep {i : Nat} (hi : i < (doubled plays).length) :
    (pushStep g f reading certainty plays).playAt ⟨g.plays.length + i⟩ =
      { variableId := (doubled plays)[i].1, role := (doubled plays)[i].2
        step := ⟨g.steps.length⟩ } := by
  rw [playAt, plays_pushStep, List.getElem?_append_right (Nat.le_add_right ..),
    Nat.add_sub_cancel_left, List.getElem?_map, List.getElem?_eq_getElem hi]
  rfl

/-- The step brings together what it was made of. -/
theorem parts_pushStep (hne : plays ≠ []) : (pushStep g f reading certainty plays).parts
    (nextStep g f reading certainty plays) = doubled plays := by
  rw [parts, plays_nextStep f reading certainty hne]
  refine List.ext_getElem (by simp) fun i hi hi' => ?_
  simp only [List.getElem_map, List.getElem_range', Nat.one_mul]
  rw [playAt_nextStep f reading certainty hi']

end PushStep

end Draft

namespace JoinGraph.PlaysListed

open Draft

variable {g : JoinGraph} {plays : List (VariableId × RoleId)}

/-- A step that is added comes with its plays.

**Proof sketch.** The plays of the new step are those behind the old ones, and they name it. The
steps and plays that were there have not changed. -/
theorem pushStep (h : g.PlaysListed) (f : FactTypeId) (reading : Option ReadingId)
    (certainty : Certainty) (hne : plays ≠ []) :
    (pushStep g f reading certainty plays).PlaysListed := by
  have hplays := plays_pushStep g f reading certainty plays
  have hsteps := steps_pushStep g f reading certainty plays
  have hnext := plays_nextStep f reading certainty hne (g := g)
  have hprefix : g.plays <+: (Draft.pushStep g f reading certainty plays).plays :=
    hplays ▸ List.prefix_append ..
  refine ⟨?_, fun s hs p hp => ?_, listsByVariable_foldl h.byVariable _ _⟩
  · have hlength : (Draft.pushStep g f reading certainty plays).plays.length =
        g.plays.length + (doubled plays).length := by
      rw [hplays, List.length_append, List.length_map]
    rw [hsteps, List.flatMap_append, h.flatMap_plays, List.flatMap_singleton, hnext, playIds,
      playIds,
      hlength, ← List.map_append, List.range_eq_range', List.range_eq_range']
    have hrange : List.range' 0 g.plays.length ++
        List.range' (0 + g.plays.length) (doubled plays).length =
          List.range' 0 (g.plays.length + (doubled plays).length) :=
      List.range'_append_1
    rw [Nat.zero_add] at hrange
    rw [hrange]
  · have hlt : s.index < g.steps.length ∨ s = ⟨g.steps.length⟩ := by
      rw [mem_stepIds, hsteps, List.length_append, List.length_singleton] at hs
      exact (Nat.lt_succ_iff_lt_or_eq.1 hs).imp_right fun h => congrArg StepId.mk h
    rcases hlt with hlt | rfl
    · have hold : (Draft.pushStep g f reading certainty plays).stepAt s = g.stepAt s := by
        rw [stepAt, hsteps, List.getElem?_append_left hlt, stepAt]
      rw [hold] at hp
      rw [playAt_of_added hprefix (h.index_lt (stepAt_mem hlt) hp)]
      exact h.step_eq s (mem_stepIds.2 hlt) p hp
    · change p ∈ (nextStep g f reading certainty plays).plays at hp
      rw [hnext] at hp
      obtain ⟨n, hn, rfl⟩ := List.mem_map.1 hp
      obtain ⟨i, hi, rfl⟩ := List.mem_range'.1 hn
      rw [Nat.one_mul, playAt_nextStep f reading certainty hi]

end JoinGraph.PlaysListed

end FactModel
