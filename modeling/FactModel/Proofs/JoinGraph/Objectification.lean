import FactModel.Proofs.JoinGraph.Mirror
set_option autoImplicit false

/-!
# What objectifies what

The step of a nested clause names the variable that the clause is nested under, and the variable
names the step. A variable has room for one step only: of several clauses nested under the mentions
of one variable, the last one is named. Behind the step of each comes that of its link.

## Main definitions

* `FactModel.StepOrigin.outerVariable?` — the variable that a link leads from.
* `FactModel.JoinGraph.IsLastOf` — a step is the last one that names a variable.
* `FactModel.JoinGraph.Ties` — steps and variables name each other as the links say.
* `FactModel.JoinGraph.Objectifies` — what that means for a join graph.

## Main results

* `FactModel.JoinGraph.Ties.tied`, `FactModel.JoinGraph.Ties.pushStep` — a link ties one more step.
* `FactModel.Build.tiedBy_addClause` — adding the steps of a clause ties those of its links.
* `FactModel.Build.objectifies_build` — in the join graph of clauses, a variable names the last step
  that names it, and every step that names a variable has a link behind it.
-/

namespace FactModel

open Attempt Draft

/-- The own step of a matched clause is the last one that the clause makes. -/
lemma Clause.exists_origins_eq : ∀ c : Clause, c.isMatched → ∃ os, c.origins = os ++ [.clause c]
  | ⟨phrases, _, _, _, _, _, _, _, _⟩, h => by
    refine ⟨phrasesOrigins phrases, ?_⟩
    rw [Clause.origins, Clause.ownOrigins, if_pos h]

/-- The variable that a link leads from. -/
def StepOrigin.outerVariable? (variableOf? : MentionId → Option VariableId) :
    StepOrigin → Option VariableId
  | .clause _ => none
  | .link outer _ => variableOf? outer

namespace JoinGraph

/-- The step is the last one that names the variable. -/
structure IsLastOf (g : JoinGraph) (w : VariableId) (s : StepId) : Prop where
  mem : s ∈ g.stepIds
  names : (g.stepAt s).objectificationVariable = some w
  last : ∀ t ∈ g.stepIds, (g.stepAt t).objectificationVariable = some w → t.index ≤ s.index

/-- Steps and variables name each other as what makes the steps says: a step in front of a link
names the outer variable of the link, and a variable names the last step that names it. -/
structure Ties (variableOf? : MentionId → Option VariableId) (origins : List StepOrigin)
    (g : JoinGraph) : Prop where
  step_eq : ∀ s ∈ g.stepIds, (g.stepAt s).objectificationVariable =
    origins[s.index + 1]?.bind (StepOrigin.outerVariable? variableOf?)
  variable_iff : ∀ w ∈ g.variableIds, ∀ s,
    (g.variableAt w).objectificationStep = some s ↔ g.IsLastOf w s
  /-- A link is made by the clause of the step in front of it. -/
  inner : ∀ i m c, origins[i + 1]? = some (.link m c) → origins[i]? = some (.clause c)

variable {g g' : JoinGraph} {V : MentionId → Option VariableId} {os : List StepOrigin}
  {w : VariableId} {s : StepId}

/-- A step that names a variable exists. -/
lemma mem_stepIds_of_names (h : (g.stepAt s).objectificationVariable = some w) :
    s ∈ g.stepIds := by
  by_contra hnot
  rw [mem_stepIds, Nat.not_lt] at hnot
  rw [stepAt, List.getElem?_eq_none hnot] at h
  cases h

/-- Which step is the last one to name a variable depends on nothing but what the steps name. -/
lemma isLastOf_congr (hsteps : ∀ t, (g'.stepAt t).objectificationVariable = some w ↔
    (g.stepAt t).objectificationVariable = some w) : g'.IsLastOf w s ↔ g.IsLastOf w s := by
  constructor
  · intro h
    have hs := (hsteps s).1 h.names
    refine ⟨mem_stepIds_of_names hs, hs, fun t _ hnames => ?_⟩
    have ht := (hsteps t).2 hnames
    exact h.last t (mem_stepIds_of_names ht) ht
  · intro h
    have hs := (hsteps s).2 h.names
    refine ⟨mem_stepIds_of_names hs, hs, fun t _ hnames => ?_⟩
    have ht := (hsteps t).1 hnames
    exact h.last t (mem_stepIds_of_names ht) ht

/-! ## Adding a step -/

section PushStep

variable (g) (f : FactTypeId) (reading : Option ReadingId) (certainty : Certainty)
  (plays : List (VariableId × RoleId))

/-- A new step is objectified by no variable yet. -/
lemma objectificationStep_pushStep (w : VariableId) :
    ((pushStep g f reading certainty plays).variableAt w).objectificationStep =
      (g.variableAt w).objectificationStep :=
  variableAt_foldl_apply Variable.objectificationStep (fun _ _ => rfl) g _ (doubled plays) w

/-- A new step names no variable yet. -/
lemma objectificationVariable_nextStep :
    (nextStep g f reading certainty plays).objectificationVariable = none := by
  have hsteps := (playsAdded_foldl ⟨g.steps.length⟩ (doubled plays) g).steps_eq
  simp only [nextStep, stepAt, Draft.pushStep]
  rw [hsteps, List.getElem?_concat_length]
  rfl

/-- The steps name what they did, and the one that is added names nothing. -/
lemma objectificationVariable_pushStep (s : StepId) :
    ((pushStep g f reading certainty plays).stepAt s).objectificationVariable =
      (g.stepAt s).objectificationVariable := by
  rw [stepAt, steps_pushStep, stepAt]
  by_cases hold : s.index < g.steps.length
  · rw [List.getElem?_append_left hold]
  · have hnone : g.steps[s.index]? = none := List.getElem?_eq_none (Nat.not_lt.1 hold)
    rw [hnone]
    by_cases hnew : s.index = g.steps.length
    · rw [hnew, List.getElem?_concat_length]
      exact objectificationVariable_nextStep g f reading certainty plays
    · rw [List.getElem?_eq_none]
      simp only [List.length_append, List.length_singleton]
      omega

end PushStep

/-! ## Tying a step and a variable -/

/-- Changing a step changes that one only. -/
lemma stepAt_modifyStep (g : JoinGraph) (s : StepId) (change : Step → Step) (t : StepId) :
    (modifyStep g s change).stepAt t =
      if t = s ∧ s.index < g.steps.length then change (g.stepAt s) else g.stepAt t := by
  have hget : (modifyStep g s change).steps[t.index]? =
      g.steps[t.index]?.map fun a => if s.index = t.index then change a else a :=
    List.getElem?_modify ..
  rw [stepAt, hget]
  by_cases ht : t = s
  · subst ht
    by_cases hlt : t.index < g.steps.length
    · rw [if_pos ⟨rfl, hlt⟩, stepAt, List.getElem?_eq_getElem hlt]
      simp
    · rw [if_neg fun h => hlt h.2, stepAt, List.getElem?_eq_none (Nat.not_lt.1 hlt)]
      rfl
  · have hindex : s.index ≠ t.index := fun h => ht (congrArg StepId.mk h.symm)
    simp [hindex, ht, stepAt]

/-- The step that is tied names the variable, and the others what they did. -/
lemma objectificationVariable_tied (outer : VariableId) {inner : StepId}
    (hinner : inner ∈ g.stepIds) (t : StepId) :
    ((Build.tied g outer inner).stepAt t).objectificationVariable =
      if t = inner then some outer else (g.stepAt t).objectificationVariable := by
  have hstep : (Build.tied g outer inner).stepAt t =
      (modifyStep g inner ({ · with objectificationVariable := some outer })).stepAt t := rfl
  rw [hstep, stepAt_modifyStep]
  by_cases ht : t = inner
  · rw [if_pos ⟨ht, mem_stepIds.1 hinner⟩, if_pos ht]
  · rw [if_neg fun h => ht h.1, if_neg ht]

/-- The variable that is tied names the step, and the others what they did. -/
lemma objectificationStep_tied (outer : VariableId) (inner : StepId) (hw : w ∈ g.variableIds) :
    ((Build.tied g outer inner).variableAt w).objectificationStep =
      if w = outer then some inner else (g.variableAt w).objectificationStep := by
  rw [Build.tied, variableAt_modifyVariable]
  by_cases heq : w = outer
  · have hlt := heq ▸ mem_variableIds.1 hw
    rw [if_pos ⟨heq, hlt⟩, if_pos heq]
  · rw [if_neg fun h => heq h.1, if_neg heq]
    rfl

namespace Ties

/-- A clause that makes the next step is no link. -/
lemma append_clause (h : Ties V os g) (hlength : g.steps.length = os.length) (c : Clause) :
    Ties V (os ++ [.clause c]) g where
  step_eq s hs := by
    have hlt : s.index < os.length := hlength ▸ mem_stepIds.1 hs
    rw [h.step_eq s hs]
    by_cases hnext : s.index + 1 < os.length
    · rw [List.getElem?_append_left hnext]
    · have hend : s.index + 1 = os.length := by omega
      rw [hend, List.getElem?_concat_length, List.getElem?_eq_none (Nat.le_refl _)]
      rfl
  variable_iff := h.variable_iff
  inner i m c' hi := by
    by_cases hnext : i + 1 < os.length
    · rw [List.getElem?_append_left hnext] at hi
      rw [List.getElem?_append_left (by omega)]
      exact h.inner i m c' hi
    · obtain ⟨hlt, hi⟩ := List.getElem?_eq_some_iff.1 hi
      rw [List.getElem_append_right (Nat.not_lt.1 hnext), List.getElem_singleton] at hi
      cases hi

/-- A step that is added names nothing, and is named by nothing. -/
lemma pushStep (h : Ties V os g) (hlength : os.length ≤ g.steps.length + 1) (f : FactTypeId)
    (reading : Option ReadingId) (certainty : Certainty) (plays : List (VariableId × RoleId)) :
    Ties V os (pushStep g f reading certainty plays) where
  step_eq s hs := by
    rw [objectificationVariable_pushStep]
    by_cases hold : s ∈ g.stepIds
    · exact h.step_eq s hold
    · rw [mem_stepIds, Nat.not_lt] at hold
      rw [stepAt, List.getElem?_eq_none hold, List.getElem?_eq_none (by omega)]
      rfl
  variable_iff w hw s := by
    rw [mem_variableIds, length_vars_pushStep, ← mem_variableIds] at hw
    rw [objectificationStep_pushStep, h.variable_iff w hw]
    refine (isLastOf_congr fun t => ?_).symm
    rw [objectificationVariable_pushStep]
  inner := h.inner

/-- A link ties the last step to its outer variable: the step becomes the last one that names the
variable, and had named none before. -/
lemma tied (h : Ties V os g) (hlength : g.steps.length = os.length) {m : MentionId} {c : Clause}
    {outer : VariableId} (houter : V m = some outer) {inner : StepId}
    (hinner : inner.index + 1 = os.length) (hc : os[inner.index]? = some (.clause c)) :
    Ties V (os ++ [.link m c]) (Build.tied g outer inner) := by
  have hmem : inner ∈ g.stepIds := mem_stepIds.2 (by omega)
  have hnone : (g.stepAt inner).objectificationVariable = none := by
    rw [h.step_eq inner hmem, List.getElem?_eq_none (by omega)]
    rfl
  have hnames := fun t => objectificationVariable_tied (g := g) outer hmem t
  have hids : (Build.tied g outer inner).stepIds = g.stepIds := by
    simp [stepIds, Build.tied, modifyVariable, modifyStep]
  refine ⟨fun s hs => ?_, fun w hw s => ?_, fun i m' c' hi => ?_⟩
  · rw [hids] at hs
    rw [hnames]
    by_cases hlast : s = inner
    · rw [if_pos hlast, hlast, hinner, List.getElem?_concat_length]
      exact houter.symm
    · have hne : s.index ≠ inner.index := fun heq => hlast (congrArg StepId.mk heq)
      have hlt := mem_stepIds.1 hs
      rw [if_neg hlast, List.getElem?_append_left (by omega)]
      exact h.step_eq s hs
  · have hw' : w ∈ g.variableIds := by
      simpa [mem_variableIds, Build.tied, modifyVariable, modifyStep] using hw
    rw [objectificationStep_tied outer inner hw']
    by_cases heq : w = outer
    · subst heq
      rw [if_pos rfl, Option.some.injEq]
      constructor
      · rintro rfl
        refine ⟨hids ▸ hmem, by rw [hnames, if_pos rfl], fun t ht _ => ?_⟩
        have hlt := mem_stepIds.1 (hids ▸ ht)
        omega
      · intro hs
        have hle := hs.last inner (hids ▸ hmem) (by rw [hnames, if_pos rfl])
        have hlt := mem_stepIds.1 (hids ▸ hs.mem)
        have hindex : inner.index = s.index := by omega
        exact congrArg StepId.mk hindex
    · rw [if_neg heq, h.variable_iff w hw']
      refine (isLastOf_congr fun t => ?_).symm
      rw [hnames]
      by_cases ht : t = inner
      · rw [if_pos ht, ht, hnone]
        simp [Ne.symm heq]
      · rw [if_neg ht]
  · by_cases hnext : i + 1 < os.length
    · rw [List.getElem?_append_left hnext] at hi
      rw [List.getElem?_append_left (by omega)]
      exact h.inner i m' c' hi
    · obtain ⟨hlt, hi⟩ := List.getElem?_eq_some_iff.1 hi
      rw [List.getElem_append_right (Nat.not_lt.1 hnext), List.getElem_singleton] at hi
      rw [List.length_append, List.length_singleton] at hlt
      cases hi
      have hi : i = inner.index := by omega
      rw [List.getElem?_append_left (by omega), hi]
      exact hc

end Ties

end JoinGraph

open JoinGraph

/-! ## Drafts -/

/-- The steps of a draft are made by certain clauses and links, and are tied as these say. -/
structure Draft.TiedBy (V : MentionId → Option VariableId) (os : List StepOrigin) (d : Draft) :
    Prop where
  variableOf?_eq : ∀ m, d.variableOf? m = V m
  length_eq : d.graph.steps.length = os.length
  ties : d.graph.Ties V os

namespace Build

variable {V : MentionId → Option VariableId} {os : List StepOrigin} {d e : Draft}

/-- A matched clause makes a step of its own, which is the last one then. -/
lemma tiedBy_addOwnStep (h : d.TiedBy V os) {c : Clause} {r : Option StepId}
    (hp : (addOwnStep c).perform d = (.ok r, e)) :
    e.TiedBy V (os ++ c.ownOrigins) ∧ r.isSome = c.isMatched ∧
      ∀ s ∈ r, s.index + 1 = e.graph.steps.length := by
  have hkeeps := ((leads_addOwnStep_keepsVariables c d).of_perform hp).1
  unfold addOwnStep at hp
  split at hp
  · next hnone =>
    cases hp
    have hmatched : c.isMatched = false := by rw [Clause.isMatched, hnone]; rfl
    rw [Clause.ownOrigins, if_neg (by simp [hmatched]), List.append_nil]
    exact ⟨h, hmatched.symm, by simp⟩
  · next f hf =>
    have hmatched : c.isMatched = true := by rw [Clause.isMatched, hf]; rfl
    obtain ⟨plays, d', hplays, hrest⟩ := perform_bind_eq_ok.1 hp
    obtain ⟨rfl, -⟩ := (leads_mapM_forall₂ fun m (_ : m ∈ c.mentions) =>
      leads_playOf_eq c m d).of_perform hplays
    rw [← bind_pure_comp] at hrest
    obtain ⟨s, d', hstep, hpure⟩ := perform_bind_eq_ok.1 hrest
    rw [perform_addStep] at hstep
    cases hpure
    cases hstep
    rw [Clause.ownOrigins, if_pos hmatched]
    refine ⟨⟨fun m => (hkeeps.variableOf?_eq m).trans (h.variableOf?_eq m), ?_, ?_⟩,
      hmatched.symm, ?_⟩
    · simp [length_steps_pushStep, h.length_eq]
    · have happended := h.ties.append_clause h.length_eq c
      exact happended.pushStep (by simp [h.length_eq]) ..
    · rintro s ⟨⟩
      exact (length_steps_pushStep ..).symm

/-- The link of a nested clause whose step was the last one makes another step, and ties the two. -/
lemma tiedBy_linkStep (h : d.TiedBy V os) {m : MentionId} {c : Clause} {outer : VariableId}
    (houter : V m = some outer) {inner : StepId} (hinner : inner.index + 1 = os.length)
    (hc : os[inner.index]? = some (.clause c)) {u : Unit}
    (hp : (linkStep outer inner).perform d = (.ok u, e)) : e.TiedBy V (os ++ [.link m c]) := by
  have hkeeps := ((leads_linkStep_keepsVariables outer inner d).of_perform hp).1
  obtain ⟨_, _, htie, hp⟩ := perform_bind_eq_ok.1 hp
  cases htie
  obtain ⟨_, _, htie, hp⟩ := perform_bind_eq_ok.1 hp
  cases htie
  rw [perform_get_bind] at hp
  obtain ⟨f, _, hwithin, hp⟩ := perform_bind_eq_ok.1 hp
  obtain ⟨v, -, rfl⟩ := perform_within_eq_ok.1 hwithin
  rw [perform_get_bind] at hp
  obtain ⟨s, _, hstep, hpure⟩ := perform_bind_eq_ok.1 hp
  rw [perform_addStep] at hstep
  cases hpure
  cases hstep
  have htied := h.ties.tied h.length_eq houter hinner hc
  have hlength : (tied d.graph outer inner).steps.length = os.length := by
    simp [tied, modifyVariable, modifyStep, h.length_eq]
  refine ⟨fun n => (hkeeps.variableOf?_eq n).trans (h.variableOf?_eq n), ?_, ?_⟩
  · rw [length_steps_pushStep, List.length_append, List.length_singleton]
    exact congrArg (· + 1) hlength
  · refine htied.pushStep ?_ ..
    rw [hlength, List.length_append, List.length_singleton]

/-! ## Clauses -/

mutual

/-- Adding the clauses nested under a slot ties steps and variables as these say. -/
lemma tiedBy_addSlot : ∀ (s : Slot) {d e : Draft} {os : List StepOrigin} {u : Unit},
    d.TiedBy V os → (addSlot s).perform d = (.ok u, e) → e.TiedBy V (os ++ s.origins)
  | ⟨m, []⟩, d, e, os, u, h, hp => by
    cases hp
    rw [Slot.origins, nestedOrigins, List.append_nil]
    exact h
  | ⟨m, c :: cs⟩, d, e, os, u, h, hp => by
    obtain ⟨outer, d₁, hvariable, hnested⟩ := perform_bind_eq_ok.1 hp
    obtain ⟨hm, rfl⟩ := perform_variableOf_eq_ok.1 hvariable
    exact tiedBy_addNested m outer (c :: cs) h ((h.variableOf?_eq m).symm.trans hm) hnested

/-- Adding the clauses nested in a phrase ties steps and variables as these say. -/
lemma tiedBy_addPhrase : ∀ (p : Phrase) {d e : Draft} {os : List StepOrigin} {u : Unit},
    d.TiedBy V os → (addPhrase p).perform d = (.ok u, e) → e.TiedBy V (os ++ p.origins)
  | .word _, d, e, os, u, h, hp => by
    cases hp
    rw [Phrase.origins, List.append_nil]
    exact h
  | .slot s, d, e, os, u, h, hp => tiedBy_addSlot s h hp
  | .comparison _ left right, d, e, os, u, h, hp => by
    obtain ⟨_, d₁, hleft, hright⟩ := perform_bind_eq_ok.1 hp
    rw [Phrase.origins, ← List.append_assoc]
    exact tiedBy_addSlot right (tiedBy_addSlot left h hleft) hright

/-- Adding the clauses nested in phrases ties steps and variables as these say. -/
lemma tiedBy_addPhrases : ∀ (ps : List Phrase) {d e : Draft} {os : List StepOrigin} {u : Unit},
    d.TiedBy V os → (addPhrases ps).perform d = (.ok u, e) → e.TiedBy V (os ++ phrasesOrigins ps)
  | [], d, e, os, u, h, hp => by
    cases hp
    rw [phrasesOrigins, List.append_nil]
    exact h
  | p :: ps, d, e, os, u, h, hp => by
    obtain ⟨_, d₁, hfirst, hrest⟩ := perform_bind_eq_ok.1 hp
    rw [phrasesOrigins, ← List.append_assoc]
    exact tiedBy_addPhrases ps (tiedBy_addPhrase p h hfirst) hrest

/-- Adding the steps of a clause ties those of its links. -/
theorem tiedBy_addClause : ∀ (c : Clause) {d e : Draft} {os : List StepOrigin} {r : Option StepId},
    d.TiedBy V os → (addClause c).perform d = (.ok r, e) →
    e.TiedBy V (os ++ c.origins) ∧ r.isSome = c.isMatched ∧
      ∀ s ∈ r, s.index + 1 = e.graph.steps.length
  | ⟨phrases, qualifiers, certainty, conjunction, factType, reading, roleSequence, alignment,
      contraction⟩, d, e, os, r, h, hp => by
    obtain ⟨_, d₁, hnested, hown⟩ := perform_bind_eq_ok.1 hp
    rw [Clause.origins, ← List.append_assoc]
    exact tiedBy_addOwnStep (tiedBy_addPhrases phrases h hnested) hown

/-- The clauses nested under a mention are tied to its variable. -/
lemma tiedBy_addNested (m : MentionId) (outer : VariableId) : ∀ (cs : List Clause) {d e : Draft}
    {os : List StepOrigin} {u : Unit}, d.TiedBy V os → V m = some outer →
    (addNested outer cs).perform d = (.ok u, e) → e.TiedBy V (os ++ nestedOrigins m cs)
  | [], d, e, os, u, h, _, hp => by
    cases hp
    rw [nestedOrigins, List.append_nil]
    exact h
  | c :: cs, d, e, os, u, h, houter, hp => by
    obtain ⟨r, d₁, hfirst, hp⟩ := perform_bind_eq_ok.1 hp
    obtain ⟨h₁, hisSome, hlast⟩ := tiedBy_addClause c h hfirst
    rw [nestedOrigins, ← List.append_assoc, ← List.append_assoc]
    cases r with
    | none =>
      have hmatched : c.isMatched = false := hisSome.symm
      rw [Clause.linkOrigins, if_neg (by simp [hmatched]), List.append_nil]
      exact tiedBy_addNested m outer cs h₁ houter hp
    | some inner =>
      have hmatched : c.isMatched = true := hisSome.symm
      obtain ⟨_, d₂, hlink, hrest⟩ := perform_bind_eq_ok.1 hp
      have hinner : inner.index + 1 = (os ++ c.origins).length :=
        (hlast inner rfl).trans h₁.length_eq
      rw [Clause.linkOrigins, if_pos hmatched]
      refine tiedBy_addNested m outer cs (tiedBy_linkStep h₁ houter hinner ?_ hlink) houter hrest
      obtain ⟨os', hos'⟩ := c.exists_origins_eq hmatched
      rw [hos', ← List.append_assoc] at hinner ⊢
      rw [List.length_append, List.length_singleton, Nat.add_right_cancel_iff] at hinner
      rw [hinner, List.getElem?_concat_length]

end

/-- Clauses of a query tie their steps one after the other. -/
lemma tiedBy_forM_addTopClause {cs : List Clause} (h : d.TiedBy V os) {u : Unit}
    (hp : (cs.forM addTopClause).perform d = (.ok u, e)) :
    e.TiedBy V (os ++ cs.flatMap Clause.origins) := by
  induction cs generalizing d os with
  | nil =>
    cases hp
    rw [List.flatMap_nil, List.append_nil]
    exact h
  | cons c cs ih =>
    obtain ⟨_, d₁, hfirst, hrest⟩ := perform_bind_eq_ok.1 hp
    rw [List.flatMap_cons, ← List.append_assoc]
    refine ih ?_ hrest
    obtain ⟨r, d₂, hclause, htop⟩ := perform_bind_eq_ok.1 hfirst
    obtain ⟨h₂, -, -⟩ := tiedBy_addClause c h hclause
    split at htop
    · obtain ⟨w, d₃, hvariable, hask⟩ := perform_bind_eq_ok.1 htop
      obtain ⟨-, rfl⟩ := perform_variableOf_eq_ok.1 hvariable
      cases hask
      exact ⟨h₂.variableOf?_eq, h₂.length_eq, h₂.ties⟩
    · cases htop
      exact h₂

/-! ## The join graph of clauses -/

/-- Nothing is tied before steps are added. -/
lemma tiedBy_addVariables (x : Context) (ms : List MentionId) :
    (ms.foldl addVariable { context := x }).TiedBy
      (ms.foldl addVariable { context := x }).variableOf? [] := by
  have hbare : (ms.foldl addVariable { context := x }).graph.steps = [] ∧
      ∀ w ∈ (ms.foldl addVariable { context := x }).graph.vars, w.objectificationStep = none := by
    refine List.foldlRecOn (motive := fun d : Draft => d.graph.steps = [] ∧
      ∀ w ∈ d.graph.vars, w.objectificationStep = none) ms _ ⟨rfl, by simp⟩
      fun d hd m _ => ?_
    unfold addVariable
    split
    · exact hd
    · split
      · refine ⟨hd.1, fun w hw => ?_⟩
        rcases List.mem_append.1 hw with hw | hw
        · exact hd.2 w hw
        · rw [List.mem_singleton.1 hw]
      · exact hd
  generalize ms.foldl addVariable { context := x } = d at *
  have hnone : d.graph.stepIds = [] := by rw [stepIds, hbare.1]; rfl
  refine ⟨fun _ => rfl, by
    rw [hbare.1]; rfl, ⟨fun s hs => ?_, fun w hw s => ?_, fun i m c hi => ?_⟩⟩
  · rw [hnone] at hs
    cases hs
  · have hlt := mem_variableIds.1 hw
    rw [variableAt, List.getElem?_eq_getElem hlt, Option.getD_some,
      hbare.2 _ (List.getElem_mem hlt)]
    refine iff_of_false (by simp) fun h => ?_
    have hmem := h.mem
    rw [hnone] at hmem
    cases hmem
  · cases hi

/-- Once the join graph of clauses is built, its steps are tied as the clauses say. -/
lemma tiedBy_build {x : Context} {clauses : List Clause} {projected : List MentionId}
    {g : JoinGraph} (h : (build clauses projected).perform { context := x } = (.ok g, d)) :
    d.TiedBy d.variableOf? (clauses.flatMap Clause.origins) := by
  obtain ⟨u, hsteps, -⟩ := build_eq_ok h
  have hkeeps := keepsVariables_of_forM hsteps
  have htied := tiedBy_forM_addTopClause (tiedBy_addVariables x (allMentions clauses)) hsteps
  rw [List.nil_append] at htied
  rw [← funext hkeeps.variableOf?_eq] at htied
  exact htied

end Build

/-! ## What objectifies what -/

namespace JoinGraph

/-- Behind the step comes that of a link between the type of the variable and the role of the step's
first play, with a play of the variable for the first role of the link, and one of the variable of
that play for the second. -/
def HasLink (g : JoinGraph) (v : Vocabulary) (w : VariableId) (s : StepId) : Prop :=
  ⟨s.index + 1⟩ ∈ g.stepIds ∧ ∃ u r own other, (g.parts (g.stepAt s)).head? = some (u, r) ∧
    let link := g.stepAt ⟨s.index + 1⟩
    (v.factType link.factType).kind = .link (g.variableAt w).objectType r ∧
      (v.factType link.factType).roles = [own, other] ∧ g.parts link = [(w, own), (u, other)]

/-- A variable names the last of the steps that name it, and no other one; and every step that names
a variable has a link to it. -/
structure Objectifies (g : JoinGraph) (v : Vocabulary) : Prop where
  named_iff : ∀ w ∈ g.variableIds, ∀ s,
    (g.variableAt w).objectificationStep = some s ↔ g.IsLastOf w s
  linked : ∀ s ∈ g.stepIds, ∀ w, (g.stepAt s).objectificationVariable = some w →
    w ∈ g.variableIds ∧ g.HasLink v w s

end JoinGraph

namespace Build

variable {x : Context} {clauses : List Clause} {projected : List MentionId} {g : JoinGraph}
  {d : Draft}

/-- What makes a step of a draft says what the step brings together. -/
lemma makes_of_woven {os : List StepOrigin} (h : d.Woven os) {s : StepId} {o : StepOrigin}
    (ho : os[s.index]? = some o) :
    s ∈ d.graph.stepIds ∧ d.Reflects o (d.graph.stepAt s) := by
  obtain ⟨hlt, rfl⟩ := List.getElem?_eq_some_iff.1 ho
  have hlt' := hlt.trans_eq h.steps.length_eq
  refine ⟨mem_stepIds.2 hlt', ?_⟩
  rw [stepAt, List.getElem?_eq_getElem hlt']
  exact h.steps.get hlt hlt'

/-- In the join graph of clauses, variables and steps name each other as the nesting says, but that
a variable names one step only.

**Proof sketch.** A step that names a variable is made by a clause nested under a mention of the
variable, and what comes behind it is made by the link of the two. -/
theorem objectifies_build (hx : x.Valid) (hlinks : x.vocabulary.LinksMirror)
    (hclauses : ∀ c ∈ clauses, c.Everywhere x.Fits)
    (h : (build clauses projected).perform { context := x } = (.ok g, d)) :
    g.Objectifies d.context.vocabulary := by
  obtain ⟨-, -, hties⟩ := tiedBy_build h
  obtain ⟨hwoven, -, projection, rfl⟩ := woven_build hx hlinks hclauses h
  refine ⟨fun w hw s => ?_, fun s hs w hw => ?_⟩
  · have hsame : JoinGraph.IsLastOf { d.graph with projection } w s ↔ d.graph.IsLastOf w s :=
      isLastOf_congr fun _ => .rfl
    exact (hties.variable_iff w hw s).trans hsame.symm
  have hnamed := (hties.step_eq s hs).symm.trans hw
  obtain ⟨o, ho, houter⟩ := Option.bind_eq_some_iff.1 hnamed
  cases o with
  | clause c => cases houter
  | link outer c =>
    obtain ⟨hlink, hmade⟩ := makes_of_woven (s := ⟨s.index + 1⟩) hwoven ho
    obtain ⟨-, hinner⟩ := makes_of_woven hwoven (hties.inner _ _ _ ho)
    obtain ⟨w', m, u, r, own, other, hw', hm, hu, hr, hkind, hroles, hparts⟩ := hmade.makes
    obtain rfl : w = w' := Option.some.inj (houter.symm.trans hw')
    obtain ⟨m', hm', hu', hr'⟩ := exists_first hinner
    obtain rfl : m = m' := Option.some.inj (hm.symm.trans hm')
    have hfirst : (d.graph.parts (d.graph.stepAt s)).head? = some (u, r) := by
      rw [Option.some.inj (hu.symm.trans hu'), Option.some.inj (hr.symm.trans hr')]
      rfl
    have hrange := (hwoven.valid.graph.stepAt (mem_stepIds.1 hs)).objectificationVariable w hw
    exact ⟨mem_variableIds.2 hrange, hlink, u, r, own, other, hfirst, hkind, hroles, hparts⟩

end Build

end FactModel
