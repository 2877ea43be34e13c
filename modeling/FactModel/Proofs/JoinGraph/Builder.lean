import Mathlib.Data.Nat.Basic
import Mathlib.Order.Basic
import FactModel.JoinGraph.Builder
import FactModel.Proofs.Context.Validity
import FactModel.Proofs.Vocabulary.Implied
set_option autoImplicit false

/-!
# Join graphs refer to what exists

The variables, plays and steps of a join graph refer to each other by number, and to constructs of
the vocabulary. While a join graph is built, link fact types are added to the vocabulary.

## Main definitions

* `FactModel.Draft.Valid` — a draft whose references are to what exists.
* `FactModel.Draft.Extends` — one draft has become another, which is valid.

## Main results

* `FactModel.Draft.inRange_pushStep` — a step may be added if what it relates exists.
* `FactModel.Build.StepsKeep.addClause` — adding the steps of a clause keeps what its own step and
  links keep.
* `FactModel.Compile.leads_buildQuery` — the references of the join graph of clauses are to what
  exists.
-/

namespace FactModel

open Attempt

/-! ## Parts of a join graph -/

section InRange

variable {v : Vocabulary} {g g' : JoinGraph}

/-- What a variable refers to exists in a join graph with more steps and plays. -/
lemma Variable.InRange.mono {w : Variable} (h : w.InRange v g)
    (hsteps : g.steps.length ≤ g'.steps.length) (hplays : g.plays.length ≤ g'.plays.length) :
    w.InRange v g' where
  objectType := h.objectType
  objectificationStep s hs := (h.objectificationStep s hs).trans_le hsteps
  plays p hp := (h.plays p hp).trans_le hplays

/-- What a play refers to exists in a join graph with more variables and steps. -/
lemma Play.InRange.mono {p : Play} (h : p.InRange v g) (hvars : g.vars.length ≤ g'.vars.length)
    (hsteps : g.steps.length ≤ g'.steps.length) : p.InRange v g' where
  variableId := h.variableId.trans_le hvars
  role := h.role
  step := h.step.trans_le hsteps

/-- What a step refers to exists in a join graph with more variables and plays. -/
lemma Step.InRange.mono {s : Step} (h : s.InRange v g) (hvars : g.vars.length ≤ g'.vars.length)
    (hplays : g.plays.length ≤ g'.plays.length) : s.InRange v g' where
  factType := h.factType
  reading := h.reading
  plays p hp := (h.plays p hp).trans_le hplays
  objectificationVariable w hw := (h.objectificationVariable w hw).trans_le hvars

/-- What holds of every item, and of the changed ones, holds after a change of one item. -/
lemma forall_mem_modify {α : Type} {P : α → Prop} {as : List α} (h : ∀ a ∈ as, P a) (i : Nat)
    {change : α → α} (hchange : ∀ a ∈ as, P (change a)) : ∀ a ∈ as.modify i change, P a := by
  intro a ha
  obtain ⟨j, hj⟩ := List.mem_iff_getElem?.1 ha
  rw [List.getElem?_modify] at hj
  obtain ⟨b, hb, rfl⟩ := Option.map_eq_some_iff.1 hj
  split
  · exact hchange b (List.mem_of_getElem? hb)
  · exact h b (List.mem_of_getElem? hb)

/-- What a variable of a join graph refers to exists. -/
lemma JoinGraph.InRange.variableAt (h : g.InRange v) {w : VariableId}
    (hw : w.index < g.vars.length) : (g.variableAt w).InRange v g := by
  rw [JoinGraph.variableAt, List.getElem?_eq_getElem hw]
  exact h.vars _ (List.getElem_mem hw)

/-- What a play of a join graph refers to exists. -/
lemma JoinGraph.InRange.playAt (h : g.InRange v) {p : PlayId} (hp : p.index < g.plays.length) :
    (g.playAt p).InRange v g := by
  rw [JoinGraph.playAt, List.getElem?_eq_getElem hp]
  exact h.plays _ (List.getElem_mem hp)

/-- What a step of a join graph refers to exists. -/
lemma JoinGraph.InRange.stepAt (h : g.InRange v) {s : StepId} (hs : s.index < g.steps.length) :
    (g.stepAt s).InRange v g := by
  rw [JoinGraph.stepAt, List.getElem?_eq_getElem hs]
  exact h.steps _ (List.getElem_mem hs)

end InRange

/-! ## Changes of a join graph -/

namespace Draft

variable {v : Vocabulary} {g g' g'' : JoinGraph}

/-- A new variable of an object type of the vocabulary refers to what exists. -/
lemma inRange_pushVariable (h : g.InRange v) (w : Variable) (hw : w.objectType ∈ v.objectTypeIds)
    (hstep : w.objectificationStep = none) (hplays : w.plays = []) :
    JoinGraph.InRange v { g with vars := g.vars ++ [w] } where
  vars u hu := by
    rcases List.mem_append.1 hu with hu | hu
    · exact (h.vars u hu).mono le_rfl le_rfl
    · rw [List.mem_singleton.1 hu]
      refine ⟨hw, fun s hs => ?_, fun p hp => ?_⟩
      · rw [hstep] at hs
        cases hs
      · rw [hplays] at hp
        cases hp
  plays p hp := (h.plays p hp).mono (by simp) le_rfl
  steps s hs := (h.steps s hs).mono (by simp) le_rfl
  projection u hu := (h.projection u hu).trans_le (by simp)

/-- A change of a variable keeps that everything refers to what exists, if the variable does. -/
lemma inRange_modifyVariable (h : g.InRange v) (w : VariableId) {change : Variable → Variable}
    (hchange : ∀ u ∈ g.vars, (change u).InRange v g) :
    (modifyVariable g w change).InRange v := by
  have hlength : g.vars.length ≤ (modifyVariable g w change).vars.length := by
    simp [modifyVariable]
  refine ⟨fun u hu => ?_, fun p hp => (h.plays p hp).mono hlength le_rfl,
    fun s hs => (h.steps s hs).mono hlength le_rfl,
    fun u hu => (h.projection u hu).trans_le hlength⟩
  exact (forall_mem_modify h.vars w.index hchange u hu).mono le_rfl le_rfl

/-- A change of a step keeps that everything refers to what exists, if the step does. -/
lemma inRange_modifyStep (h : g.InRange v) (s : StepId) {change : Step → Step}
    (hchange : ∀ t ∈ g.steps, (change t).InRange v g) : (modifyStep g s change).InRange v := by
  have hlength : g.steps.length ≤ (modifyStep g s change).steps.length := by
    simp [modifyStep]
  refine ⟨fun u hu => (h.vars u hu).mono hlength le_rfl,
    fun p hp => (h.plays p hp).mono le_rfl hlength, fun t ht => ?_, h.projection⟩
  exact (forall_mem_modify h.steps s.index hchange t ht).mono le_rfl le_rfl

/-- Variables that exist may be asked for. -/
lemma inRange_withProjection (h : g.InRange v) {projection : List VariableId}
    (hprojection : ∀ w ∈ projection, w.index < g.vars.length) :
    JoinGraph.InRange v { g with projection } where
  vars w hw := (h.vars w hw).mono le_rfl le_rfl
  plays p hp := (h.plays p hp).mono le_rfl le_rfl
  steps s hs := (h.steps s hs).mono le_rfl le_rfl
  projection := hprojection

/-- The second join graph is the first one with further plays, which its variables may play. -/
structure PlaysAdded (g : JoinGraph) (plays : List Play) (g' : JoinGraph) : Prop where
  plays_eq : g'.plays = g.plays ++ plays
  steps_eq : g'.steps = g.steps
  projection_eq : g'.projection = g.projection
  vars_length : g'.vars.length = g.vars.length
  vars : ∀ w ∈ g'.vars, ∃ u ∈ g.vars, w.objectType = u.objectType ∧
    w.objectificationStep = u.objectificationStep ∧
    ∀ p ∈ w.plays, p ∈ u.plays ∨ p.index < g'.plays.length

/-- Plays may be added in two goes. -/
lemma PlaysAdded.trans {plays plays' : List Play} (h : PlaysAdded g plays g')
    (h' : PlaysAdded g' plays' g'') : PlaysAdded g (plays ++ plays') g'' where
  plays_eq := by rw [h'.plays_eq, h.plays_eq, List.append_assoc]
  steps_eq := h'.steps_eq.trans h.steps_eq
  projection_eq := h'.projection_eq.trans h.projection_eq
  vars_length := h'.vars_length.trans h.vars_length
  vars w hw := by
    obtain ⟨u, hu, htype, hstep, hplays⟩ := h'.vars w hw
    obtain ⟨t, ht, htype', hstep', hplays'⟩ := h.vars u hu
    have hle : g'.plays.length ≤ g''.plays.length := by simp [h'.plays_eq]
    refine ⟨t, ht, htype.trans htype', hstep.trans hstep', fun p hp => ?_⟩
    rcases hplays p hp with hp | hp
    · exact (hplays' p hp).imp_right fun hp => hp.trans_le hle
    · exact .inr hp

/-- Adding a play adds that play. -/
lemma playsAdded_pushPlay (g : JoinGraph) (s : StepId) (w : VariableId) (role : RoleId) :
    PlaysAdded g [{ variableId := w, role, step := s }] (pushPlay g s w role) where
  plays_eq := rfl
  steps_eq := rfl
  projection_eq := rfl
  vars_length := by simp [pushPlay, modifyVariable]
  vars := by
    refine forall_mem_modify (fun u hu => ⟨u, hu, rfl, rfl, fun _ hp => .inl hp⟩) w.index
      fun u hu => ⟨u, hu, rfl, rfl, fun p hp => ?_⟩
    rcases List.mem_append.1 hp with hp | hp
    · exact .inl hp
    · rw [List.mem_singleton.1 hp]
      exact .inr (by simp [pushPlay, modifyVariable])

/-- Adding plays, one after the other, adds them in order. -/
lemma playsAdded_foldl (s : StepId) (plays : List (VariableId × RoleId)) (g : JoinGraph) :
    PlaysAdded g (plays.map fun p => { variableId := p.1, role := p.2, step := s })
      (plays.foldl (fun g (w, role) => pushPlay g s w role) g) := by
  induction plays generalizing g with
  | nil => exact ⟨by simp, rfl, rfl, rfl, fun w hw => ⟨w, hw, rfl, rfl, fun _ hp => .inl hp⟩⟩
  | cons p plays ih => exact (playsAdded_pushPlay g s p.1 p.2).trans (ih _)

/-- Nothing new is played by a step that plays one variable twice. -/
lemma mem_doubled {α : Type} {as : List α} {a : α} : a ∈ doubled as ↔ a ∈ as := by
  unfold doubled
  split <;> simp

/-- A step has two plays at least. -/
lemma two_le_length_doubled {α : Type} {as : List α} (h : as ≠ []) :
    2 ≤ (doubled as).length := by
  match as, h with
  | [_], _ => exact le_rfl
  | _ :: _ :: _, _ => simp [doubled]

/-- The plays of a step are those it is made of, as there are two at least. -/
lemma headD_cons_headD_tail {ids : List PlayId} (h : 2 ≤ ids.length) :
    ids.headD default :: ids.tail.headD default :: ids.drop 2 = ids := by
  match ids, h with
  | _ :: _ :: _, _ => rfl

/-- A step may be added behind the others together with its plays. -/
lemma PlaysAdded.inRange {plays : List Play} (hadded : PlaysAdded g plays g') (h : g.InRange v)
    (hplays : ∀ p ∈ plays, p.variableId.index < g.vars.length ∧ p.role ∈ v.roleIds ∧
      p.step.index = g.steps.length) {s : Step} (hfactType : s.factType ∈ v.factTypeIds)
    (hreading : ∀ r ∈ s.reading, r ∈ v.readingIds)
    (hstep : ∀ p ∈ s.plays, p.index < g'.plays.length) (hnone : s.objectificationVariable = none) :
    JoinGraph.InRange v { g' with steps := g'.steps ++ [s] } := by
  have hvars : g.vars.length ≤ g'.vars.length := hadded.vars_length.ge
  have hcount : g.plays.length ≤ g'.plays.length := by simp [hadded.plays_eq]
  have hsteps : g.steps.length < (g'.steps ++ [s]).length := by simp [hadded.steps_eq]
  refine ⟨fun w hw => ?_, fun p hp => ?_, fun t ht => ?_, fun w hw => ?_⟩
  · obtain ⟨u, hu, htype, hobjectified, hplayed⟩ := hadded.vars w hw
    refine ⟨htype ▸ (h.vars u hu).objectType, fun t ht => ?_, fun p hp => ?_⟩
    · exact ((h.vars u hu).objectificationStep t (hobjectified ▸ ht)).trans hsteps
    · exact (hplayed p hp).elim (fun hp => ((h.vars u hu).plays p hp).trans_le hcount) id
  · change p ∈ g'.plays at hp
    rw [hadded.plays_eq] at hp
    rcases List.mem_append.1 hp with hp | hp
    · exact (h.plays p hp).mono hvars hsteps.le
    · obtain ⟨hvariable, hrole, hlast⟩ := hplays p hp
      exact ⟨hvariable.trans_le hvars, hrole, hlast ▸ hsteps⟩
  · rcases List.mem_append.1 ht with ht | ht
    · rw [hadded.steps_eq] at ht
      exact (h.steps t ht).mono hvars hcount
    · rw [List.mem_singleton.1 ht]
      exact ⟨hfactType, hreading, hstep, fun w hw => nomatch hnone ▸ hw⟩
  · change w ∈ g'.projection at hw
    rw [hadded.projection_eq] at hw
    exact (h.projection w hw).trans_le hvars

/-- A step may be added if it relates variables by roles, all of which exist.

**Proof sketch.** Its plays come after those that are there, and it has two at least. The step that
they name is the one behind the last. -/
theorem inRange_pushStep (h : g.InRange v) {f : FactTypeId} (hf : f ∈ v.factTypeIds)
    {reading : Option ReadingId} (hreading : ∀ r ∈ reading, r ∈ v.readingIds)
    (certainty : Certainty) {plays : List (VariableId × RoleId)} (hne : plays ≠ [])
    (hplays : ∀ p ∈ plays, p.1.index < g.vars.length ∧ p.2 ∈ v.roleIds) :
    (pushStep g f reading certainty plays).InRange v := by
  have hadded := playsAdded_foldl ⟨g.steps.length⟩ (doubled plays) g
  refine hadded.inRange h (fun p hp => ?_) hf hreading (fun p hp => ?_) rfl
  · obtain ⟨q, hq, rfl⟩ := List.mem_map.1 hp
    obtain ⟨hvariable, hrole⟩ := hplays q (mem_doubled.1 hq)
    exact ⟨hvariable, hrole, rfl⟩
  · have htwo := two_le_length_doubled hne
    rw [Step.plays, headD_cons_headD_tail (by simpa using htwo)] at hp
    obtain ⟨n, hn, rfl⟩ := List.mem_map.1 hp
    rw [hadded.plays_eq, List.length_append, List.length_map]
    exact (List.mem_range'_1.1 hn).2

/-- A step adds no variable. -/
lemma length_vars_pushStep (g : JoinGraph) (f : FactTypeId) (reading : Option ReadingId)
    (certainty : Certainty) (plays : List (VariableId × RoleId)) :
    (pushStep g f reading certainty plays).vars.length = g.vars.length :=
  (playsAdded_foldl ⟨g.steps.length⟩ (doubled plays) g).vars_length

/-- A step adds one step. -/
lemma length_steps_pushStep (g : JoinGraph) (f : FactTypeId) (reading : Option ReadingId)
    (certainty : Certainty) (plays : List (VariableId × RoleId)) :
    (pushStep g f reading certainty plays).steps.length = g.steps.length + 1 := by
  have hadded := playsAdded_foldl ⟨g.steps.length⟩ (doubled plays) g
  simp only [pushStep, List.length_append, hadded.steps_eq]
  rfl

end Draft

/-! ## Drafts -/

/-- The references of a draft are to what exists. -/
structure Draft.Valid (d : Draft) : Prop where
  context : d.context.Valid
  graph : d.graph.InRange d.context.vocabulary
  assigned : ∀ p ∈ d.assigned, p.2.index < d.graph.vars.length
  asked : ∀ w ∈ d.asked, w.index < d.graph.vars.length

/-- One draft has become another, which is valid. -/
structure Draft.Extends (d e : Draft) : Prop where
  context : d.context.Extends e.context
  vars_le : d.graph.vars.length ≤ e.graph.vars.length
  steps_le : d.graph.steps.length ≤ e.graph.steps.length
  valid : e.Valid

namespace Draft

variable {d : Draft}

/-- A valid draft extends itself. -/
lemma Valid.extends (h : d.Valid) : d.Extends d :=
  ⟨h.context.extends, le_rfl, le_rfl, h⟩

instance : Trans Extends Extends Extends where
  trans h h' := ⟨Trans.trans h.context h'.context, h.vars_le.trans h'.vars_le,
    h.steps_le.trans h'.steps_le, h'.valid⟩

/-- A draft without variables is valid if its context is. -/
lemma valid_of_context {x : Context} (h : x.Valid) : Draft.Valid { context := x } where
  context := h
  graph := ⟨fun _ hw => (nomatch hw), fun _ hp => (nomatch hp), fun _ hs => (nomatch hs),
    fun _ hw => nomatch hw⟩
  assigned _ hp := nomatch hp
  asked _ hw := nomatch hw

/-- The join graph may change if its references are still to what exists. -/
lemma Valid.withGraph (h : d.Valid) {g : JoinGraph} (hg : g.InRange d.context.vocabulary)
    (hvars : d.graph.vars.length ≤ g.vars.length) (hsteps : d.graph.steps.length ≤ g.steps.length) :
    d.Extends { d with graph := g } where
  context := h.context.extends
  vars_le := hvars
  steps_le := hsteps
  valid :=
    { context := h.context
      graph := hg
      assigned := fun p hp => (h.assigned p hp).trans_le hvars
      asked := fun w hw => (h.asked w hw).trans_le hvars }

/-- The vocabulary may grow if it stays consistent. -/
lemma Valid.withVocabulary (h : d.Valid) {v : Vocabulary} (hv : d.context.vocabulary.Extends v) :
    d.Extends { d with context := { d.context with vocabulary := v } } where
  context := h.context.withVocabulary hv
  vars_le := le_rfl
  steps_le := le_rfl
  valid :=
    { context := (h.context.withVocabulary hv).valid
      graph := h.graph.grows hv.grows
      assigned := h.assigned
      asked := h.asked }

/-- A step may be told the variable that objectifies it. -/
lemma Valid.tieStep (h : d.Valid) {outer : VariableId} (houter : outer.index < d.graph.vars.length)
    (inner : StepId) : d.Extends { d with
      graph := modifyStep d.graph inner ({ · with objectificationVariable := some outer }) } := by
  refine h.withGraph (inRange_modifyStep h.graph inner fun t ht => { h.graph.steps t ht with
    objectificationVariable := ?_ }) le_rfl (by simp [modifyStep])
  rintro w ⟨⟩
  exact houter

/-- A variable may be told the step that it objectifies. -/
lemma Valid.tieVariable (h : d.Valid) (outer : VariableId) {inner : StepId}
    (hinner : inner.index < d.graph.steps.length) : d.Extends { d with
      graph := modifyVariable d.graph outer ({ · with objectificationStep := some inner }) } := by
  refine h.withGraph (inRange_modifyVariable h.graph outer fun u hu => { h.graph.vars u hu with
    objectificationStep := ?_ }) (by simp [modifyVariable]) le_rfl
  rintro s ⟨⟩
  exact hinner

/-- Giving a variable to a mention leaves the context as it is. -/
@[simp]
lemma context_addVariable (d : Draft) (m : MentionId) : (d.addVariable m).context = d.context := by
  unfold addVariable
  split
  · rfl
  · split <;> rfl

/-- Giving variables to mentions leaves the context as it is. -/
lemma context_addVariables (d : Draft) (ms : List MentionId) :
    (ms.foldl addVariable d).context = d.context :=
  List.foldlRecOn (motive := fun e : Draft => e.context = d.context) ms _ rfl
    fun e he m _ => (e.context_addVariable m).trans he

/-- Giving a variable to a mention extends a valid draft. -/
lemma Valid.addVariable (h : d.Valid) (m : MentionId) : d.Extends (d.addVariable m) := by
  unfold Draft.addVariable
  split
  · exact h.extends
  next b _ =>
  split
  · next binding hbinding _ =>
    have hlength : d.graph.vars.length ≤ (d.pushVariable b binding).graph.vars.length := by
      simp [pushVariable]
    refine ⟨h.context.extends, hlength, le_rfl, h.context, ?_, fun p hp => ?_, fun w hw =>
      (h.asked w hw).trans_le hlength⟩
    · exact inRange_pushVariable h.graph _ (h.context.binding_mem b binding hbinding) rfl rfl
    · rcases List.mem_append.1 hp with hp | hp
      · exact (h.assigned p hp).trans_le hlength
      · rw [List.mem_singleton.1 hp]
        simp [pushVariable]
  · exact h.extends

end Draft

open Draft

namespace Build

variable {d : Draft}

/-! ## Steps -/

/-- A change of the join graph that refers to what exists and loses nothing extends a valid
draft. -/
lemma leads_modifyGraph (h : d.Valid) {change : JoinGraph → JoinGraph}
    (hg : (change d.graph).InRange d.context.vocabulary)
    (hvars : d.graph.vars.length ≤ (change d.graph).vars.length)
    (hsteps : d.graph.steps.length ≤ (change d.graph).steps.length) :
    (modifyGraph change).Leads Extends d fun _ e => e = { d with graph := change d.graph } :=
  leads_modify (h.withGraph hg hvars hsteps) rfl

/-- Looking up the variable of a mention changes nothing. -/
lemma variableOf_leads_eq (m : MentionId) (d : Draft) :
    (variableOf m).Leads Eq d fun _ _ => True := by
  refine leads_get_bind ?_
  split
  · exact leads_pure rfl trivial
  · exact leads_throw rfl

/-- The variable that is found for a mention exists. -/
lemma leads_variableOf (h : d.Valid) (m : MentionId) :
    (variableOf m).Leads Eq d fun w _ => w.index < d.graph.vars.length := by
  refine leads_get_bind ?_
  split
  · next w hw =>
    obtain ⟨b, -, hlookup⟩ := Option.bind_eq_some_iff.1 hw
    obtain ⟨before, after, heq, -⟩ := List.lookup_eq_some_iff.1 hlookup
    exact leads_pure rfl (h.assigned (b, w) (heq ▸ by simp))
  · exact leads_throw rfl

/-- The variable and the role of a mention of a clause exist. -/
lemma leads_playOf (h : d.Valid) (c : Clause) (m : MentionId) :
    (playOf c m).Leads Eq d fun p _ =>
      p.1.index < d.graph.vars.length ∧ p.2 ∈ d.context.vocabulary.roleIds := by
  refine Leads.bind (leads_variableOf h m) fun w e he hw => ?_
  subst he
  refine leads_get_bind ?_
  split
  · exact leads_throw rfl
  next role hrole =>
  dsimp only
  split
  · exact leads_throw_bind rfl
  · exact leads_pure rfl ⟨hw, h.context.role_mem m role hrole⟩

/-- Adding a step with plays of variables that exist extends a valid draft. -/
lemma leads_addStep (h : d.Valid) {f : FactTypeId} (hf : f ∈ d.context.vocabulary.factTypeIds)
    {reading : Option ReadingId} (hreading : ∀ r ∈ reading, r ∈ d.context.vocabulary.readingIds)
    (certainty : Certainty) {plays : List (VariableId × RoleId)} (hne : plays ≠ [])
    (hplays : ∀ p ∈ plays, p.1.index < d.graph.vars.length ∧
      p.2 ∈ d.context.vocabulary.roleIds) :
    (addStep f reading certainty plays).Leads Extends d fun s e =>
      s.index < e.graph.steps.length := by
  have hsteps := length_steps_pushStep d.graph f reading certainty plays
  refine leads_get_bind (Leads.bind (leads_modifyGraph h
    (inRange_pushStep h.graph hf hreading certainty hne hplays)
    (length_vars_pushStep ..).ge (by omega)) fun _ e he heq => ?_)
  refine leads_pure he.valid.extends ?_
  rw [heq]
  simp [hsteps]

/-- The step of a clause relates the variables of its mentions, and it has some. -/
lemma leads_addOwnStep (h : d.Valid) {c : Clause} (hc : c.Valid d.context.vocabulary) :
    (addOwnStep c).Leads Extends d fun r e => ∀ s ∈ r, s.index < e.graph.steps.length := by
  unfold addOwnStep
  split
  · exact leads_pure h.extends fun _ hs => nomatch hs
  next f hf =>
  have hplays := leads_mapM fun m (_ : m ∈ c.mentions) => leads_playOf h c m
  refine Leads.bind (hplays.weaken fun e he => he ▸ h.extends) fun plays e he hplays => ?_
  have hc' := hc.grows he.context.grows
  have hne : plays ≠ [] := by
    rw [← List.length_pos_iff, hplays.1, List.length_pos_iff]
    exact hc.mentions_ne_nil f hf
  refine Leads.map ((leads_addStep he.valid (hc'.factType_mem f hf) hc'.reading_mem c.certainty hne
    fun p hp => ?_).imp ?_)
  · obtain ⟨hvariable, hrole⟩ := hplays.2 p hp
    exact ⟨hvariable.trans_le he.vars_le, he.context.grows.mem_roleIds hrole⟩
  · rintro s u hu hs t ⟨⟩
    exact hs

/-- The fact type of a link is found or added. -/
lemma leads_linkFactType (h : d.Valid) {t : ObjectTypeId} {r : RoleId}
    (ht : t ∈ d.context.vocabulary.objectTypeIds) (hr : r ∈ d.context.vocabulary.roleIds) :
    ((Vocabulary.linkFactType t r).within (·.context.vocabulary) fun v d =>
      { d with context := { d.context with vocabulary := v } } : Build FactTypeId).Leads Extends d
        fun f e => f ∈ e.context.vocabulary.factTypeIds ∧
          (e.context.vocabulary.factType f).arity = 2 :=
  Leads.within (Vocabulary.leads_linkFactType h.context.consistent ht hr)
    (fun _ hv => h.withVocabulary hv) fun _ _ _ hf => hf

/-- Tying the step of a nested clause to a variable adds one step, that of the link.

**Proof sketch.** The link relates an existing type and an existing role, so that its fact type
exists and has two roles. The step of the link has one of them for each of its two variables. -/
theorem leads_linkStep (h : d.Valid) {outer : VariableId} {inner : StepId}
    (houter : outer.index < d.graph.vars.length) (hinner : inner.index < d.graph.steps.length) :
    (linkStep outer inner).Leads Extends d fun _ _ => True := by
  have hstep := h.tieStep houter inner
  have hvariable := hstep.valid.tieVariable outer (hinner.trans_le hstep.steps_le)
  refine leads_modify_bind hstep (leads_modify_bind hvariable (leads_get_bind ?_))
  have hvars := houter.trans_le (hstep.vars_le.trans hvariable.vars_le)
  have hsteps := hinner.trans_le (hstep.steps_le.trans hvariable.steps_le)
  have hfirst := hvariable.valid.graph.playAt
    ((hvariable.valid.graph.stepAt hsteps).plays _ List.mem_cons_self)
  have htype := (hvariable.valid.graph.variableAt hvars).objectType
  refine Leads.bind (leads_linkFactType hvariable.valid htype hfirst.role) fun f t ht hf =>
    leads_get_bind ?_
  have hroles : (t.context.vocabulary.factType f).roles.length = 2 := hf.2
  refine Leads.bind (leads_addStep ht.valid hf.1 (fun r hr => ?_) .definite (fun hnil => ?_)
    fun p hp => ?_) fun _ w hw _ => leads_pure hw.valid.extends trivial
  · exact (ht.valid.context.consistent.mem_readings.1 (List.mem_of_mem_head? hr)).1
  · have hlength := congrArg List.length hnil
    simp [hroles] at hlength
  · obtain ⟨hvariable, hrole⟩ := List.of_mem_zip hp
    refine ⟨?_, (ht.valid.context.consistent.mem_roles.1 hrole).1⟩
    rcases List.mem_pair.1 hvariable with heq | heq
    · rw [heq]
      exact hvars.trans_le ht.vars_le
    · rw [heq]
      exact hfirst.variableId.trans_le ht.vars_le

/-! ## Clauses -/

/-- A relation between drafts that adding the steps of clauses keeps. It relates a draft to itself
where the draft is as it must be. What must hold of a clause, and that a variable or a step is
there, is not lost from one draft to the next. -/
structure StepsKeep (R : Draft → Draft → Prop) (fits : Draft → Clause → Prop)
    (hasVariable : Draft → VariableId → Prop) (hasStep : Draft → StepId → Prop) : Prop where
  last : ∀ {d e}, R d e → R e e
  fits_mono : ∀ {d e c}, R d e → fits d c → fits e c
  hasVariable_mono : ∀ {d e v}, R d e → hasVariable d v → hasVariable e v
  variableOf : ∀ {d} m, R d d → (variableOf m).Leads R d fun v e => hasVariable e v
  addOwnStep : ∀ {d c}, R d d → fits d c → (addOwnStep c).Leads R d fun r e => ∀ s ∈ r, hasStep e s
  linkStep : ∀ {d outer inner}, R d d → hasVariable d outer → hasStep d inner →
    (linkStep outer inner).Leads R d fun _ _ => True
  ask : ∀ {d v}, R d d → hasVariable d v → (ask v).Leads R d fun _ _ => True

namespace StepsKeep

variable {R : Draft → Draft → Prop} [Trans R R R] {fits : Draft → Clause → Prop}
  {hasVariable : Draft → VariableId → Prop} {hasStep : Draft → StepId → Prop}

mutual

/-- Adding the steps of the clauses nested under a slot keeps the relation. -/
lemma addSlot (h : StepsKeep R fits hasVariable hasStep) : ∀ (s : Slot) {d : Draft}, R d d →
    s.Below (fits d) → (addSlot s).Leads R d fun _ _ => True
  | ⟨m, nested⟩, d, hd, hs => by
    rw [Build.addSlot]
    split
    · exact leads_pure hd trivial
    · refine Leads.bind (h.variableOf m hd) fun outer e he houter => ?_
      exact addNested h outer nested (h.last he) houter fun c hc =>
        (hs c hc).imp fun _ => h.fits_mono he

/-- So does adding those of the clauses nested in a phrase. -/
lemma addPhrase (h : StepsKeep R fits hasVariable hasStep) : ∀ (p : Phrase) {d : Draft}, R d d →
    (∀ s ∈ p.slots, s.Below (fits d)) → (addPhrase p).Leads R d fun _ _ => True
  | .word _, d, hd, _ => by
    rw [Build.addPhrase]
    exact leads_pure hd trivial
  | .slot s, d, hd, hp => by
    rw [Build.addPhrase]
    exact addSlot h s hd (hp s (by simp [Phrase.slots]))
  | .comparison _ left right, d, hd, hp => by
    rw [Build.addPhrase]
    refine Leads.bind (addSlot h left hd (hp left (by simp [Phrase.slots]))) fun _ e he _ => ?_
    exact addSlot h right (h.last he) fun c hc =>
      (hp right (by simp [Phrase.slots]) c hc).imp fun _ => h.fits_mono he

/-- And so does adding those of the clauses nested in phrases, in order. -/
lemma addPhrases (h : StepsKeep R fits hasVariable hasStep) :
    ∀ (ps : List Phrase) {d : Draft}, R d d →
    (∀ s ∈ ps.flatMap Phrase.slots, s.Below (fits d)) → (addPhrases ps).Leads R d fun _ _ => True
  | [], d, hd, _ => by
    rw [Build.addPhrases]
    exact leads_pure hd trivial
  | p :: ps, d, hd, hps => by
    rw [Build.addPhrases]
    refine Leads.bind (addPhrase h p hd fun s hs => hps s (List.mem_append_left _ hs))
      fun _ e he _ => ?_
    exact addPhrases h ps (h.last he) fun s hs c hc =>
      (hps s (List.mem_append_right _ hs) c hc).imp fun _ => h.fits_mono he

/-- **Adding the steps of a clause keeps the relation,** after those of its nested clauses have been
added. -/
theorem addClause (h : StepsKeep R fits hasVariable hasStep) : ∀ (c : Clause) {d : Draft}, R d d →
    c.Everywhere (fits d) → (addClause c).Leads R d fun r e => ∀ s ∈ r, hasStep e s
  | ⟨phrases, _, _, _, _, _, _, _, _⟩, d, hd, hc => by
    rw [Build.addClause]
    refine Leads.bind (addPhrases h phrases hd hc.nested) fun _ e he _ => ?_
    exact h.addOwnStep (h.last he) (h.fits_mono he hc.here)

/-- Adding the steps of nested clauses, each with its link, keeps the relation. -/
lemma addNested (h : StepsKeep R fits hasVariable hasStep) (outer : VariableId) :
    ∀ (cs : List Clause)
    {d : Draft}, R d d → hasVariable d outer → (∀ c ∈ cs, c.Everywhere (fits d)) →
      (addNested outer cs).Leads R d fun _ _ => True
  | [], d, hd, _, _ => by
    rw [Build.addNested]
    exact leads_pure hd trivial
  | c :: cs, d, hd, houter, hcs => by
    have hrest : ∀ {e : Draft}, R d e → (Build.addNested outer cs).Leads R e fun _ _ => True :=
      fun he =>
      addNested h outer cs (h.last he) (h.hasVariable_mono he houter) fun c hc =>
        (hcs c (List.mem_cons_of_mem _ hc)).imp fun _ => h.fits_mono he
    rw [Build.addNested]
    refine Leads.bind (addClause h c hd (hcs c List.mem_cons_self)) fun r e he hr => ?_
    cases r with
    | none => exact hrest he
    | some inner =>
      refine Leads.bind (h.linkStep (h.last he) (h.hasVariable_mono he houter) (hr inner rfl))
        fun _ u hu _ => hrest (Trans.trans he hu)

end

variable (h : StepsKeep R fits hasVariable hasStep)

include h

/-- Adding the steps of a clause of the query itself keeps the relation. -/
lemma addTopClause {d : Draft} (hd : R d d) {c : Clause} (hc : c.Everywhere (fits d)) :
    (addTopClause c).Leads R d fun _ _ => True := by
  refine Leads.bind (h.addClause c hd hc) fun r e he _ => ?_
  split
  · exact Leads.bind (h.variableOf _ (h.last he)) fun v u hu hv => h.ask (h.last hu) hv
  · exact leads_pure (h.last he) trivial

/-- **Adding the steps of clauses one after the other keeps the relation.** -/
theorem forM_addTopClause {cs : List Clause} {d : Draft} (hd : R d d)
    (hcs : ∀ c ∈ cs, c.Everywhere (fits d)) :
    (cs.forM Build.addTopClause).Leads R d fun _ _ => True := by
  refine (Leads.forM hd fun c hc e he => ?_).imp fun _ _ _ _ => trivial
  have hkept := h.addTopClause (h.last he) ((hcs c hc).imp fun _ => h.fits_mono he)
  exact hkept.imp fun _ u hu _ => h.last hu

end StepsKeep

/-! ## Join graphs of clauses -/

/-- Asking for a variable that is there keeps a draft valid. -/
lemma leads_ask (h : d.Valid) {w : VariableId} (hw : w.index < d.graph.vars.length) :
    (ask w).Leads Extends d fun _ _ => True := by
  refine leads_modify ⟨h.context.extends, le_rfl, le_rfl, { h with asked := fun u hu => ?_ }⟩
    trivial
  dsimp only at hu
  split at hu
  · exact h.asked u hu
  · rcases List.mem_append.1 hu with hu | hu
    · exact h.asked u hu
    · rw [List.mem_singleton.1 hu]
      exact hw

/-- Adding the steps of valid clauses keeps a draft valid. -/
lemma stepsKeep_extends : StepsKeep Extends (fun d => Clause.Valid d.context.vocabulary)
    (fun d v => v.index < d.graph.vars.length) (fun d s => s.index < d.graph.steps.length) where
  last h := h.valid.extends
  fits_mono h hc := hc.grows h.context.grows
  hasVariable_mono h hv := hv.trans_le h.vars_le
  variableOf m h := by
    refine ((leads_variableOf h.valid m).weaken fun e he => ?_).imp fun v e he hv =>
      hv.trans_le he.vars_le
    rw [← he]
    exact h
  addOwnStep h hc := leads_addOwnStep h.valid hc
  linkStep h houter hinner := leads_linkStep h.valid houter hinner
  ask h hv := leads_ask h.valid hv

/-- The references of the join graph of valid clauses are to what exists. -/
theorem leads_build (h : d.Valid) {clauses : List Clause}
    (hclauses : ∀ c ∈ clauses, c.Everywhere (Clause.Valid d.context.vocabulary))
    (projected : List MentionId) : (build clauses projected).Leads Extends d fun g e =>
      g.InRange e.context.vocabulary := by
  have hvariables : d.Extends ((allMentions clauses).foldl Draft.addVariable d) :=
    List.foldlRecOn _ _ h.extends fun e he m _ => Trans.trans he (he.valid.addVariable m)
  refine leads_modify_bind hvariables ?_
  refine Leads.bind (stepsKeep_extends.forM_addTopClause hvariables.valid.extends fun c hc =>
    (hclauses c hc).imp fun _ hd => hd.grows hvariables.context.grows) fun _ e he _ => ?_
  refine leads_get_bind (leads_ofExcept_bind he.valid.extends fun _ _ => ?_)
  have hprojected := leads_mapM fun m (_ : m ∈ projected) => leads_variableOf he.valid m
  refine Leads.bind (hprojected.weaken fun u hu => hu ▸ he.valid.extends) fun ws u hu hws => ?_
  refine leads_pure hu.valid.extends (inRange_withProjection
    (he.valid.graph.grows hu.context.grows) fun w hw => ?_)
  split at hw
  · exact he.valid.asked w hw
  · exact hws.2 w hw

end Build

/-- The references of the join graph of valid clauses are to what exists, and building it keeps the
context valid. -/
theorem Compile.leads_buildQuery {x : Context} (h : x.Valid) {clauses : List Clause}
    (hclauses : ∀ c ∈ clauses, c.Everywhere (Clause.Valid x.vocabulary))
    (projected : List MentionId) : (buildQuery clauses projected).Leads Context.Extends x fun g y =>
      g.InRange y.vocabulary := by
  have hbuild := Build.leads_build (Draft.valid_of_context h) hclauses projected
  unfold Leads Ends at hbuild ⊢
  unfold buildQuery perform
  unfold perform at hbuild
  dsimp only
  split at hbuild
  · next g e heq =>
    rw [heq]
    exact ⟨hbuild.1.context, hbuild.2⟩
  · next heq =>
    rw [heq]
    exact hbuild.context

end FactModel
