import FactModel.Proofs.Context.Merging
import FactModel.Proofs.JoinGraph.Builder
set_option autoImplicit false

/-!
# The variables of mentions

Each binding gets one variable before any step is added, and no variable is given away afterwards.
So two mentions have one variable just in case one binding stands for both.

## Main definitions

* `FactModel.Draft.KeepsVariables` — a draft has become another one in which every mention has the
  variable that it had.
* `FactModel.Draft.Numbered` — the variables are numbered in the order of the bindings.

## Main results

* `FactModel.Draft.Numbered.variableOf?_eq_iff` — when two mentions have one variable.
* `FactModel.Build.variableOf?_of_build` — every mention of the clauses has a variable.
* `FactModel.Build.exists_mention_of_build` — every variable is that of a mention.
-/

namespace FactModel

open Attempt

namespace Draft

/-! ## Giving variables to bindings -/

/-- The variables are numbered in the order in which they were given to bindings, one to each. -/
structure Numbered (d : Draft) : Prop where
  variables_eq : d.assigned.map (·.2) = (List.range d.graph.vars.length).map VariableId.mk
  bindings_nodup : (d.assigned.map (·.1)).Nodup

variable {d e : Draft}

/-- What a binding has been given stands among what has been given. -/
lemma mem_of_lookup {b : BindingId} {v : VariableId} (h : d.assigned.lookup b = some v) :
    (b, v) ∈ d.assigned := by
  obtain ⟨before, after, heq, -⟩ := List.lookup_eq_some_iff.1 h
  rw [heq]
  exact List.mem_append_right _ List.mem_cons_self

/-- The variable of a binding exists. -/
lemma Numbered.index_lt (h : d.Numbered) {b : BindingId} {v : VariableId}
    (hb : d.assigned.lookup b = some v) : v.index < d.graph.vars.length := by
  have hv : v ∈ d.assigned.map (·.2) := List.mem_map.2 ⟨_, mem_of_lookup hb, rfl⟩
  rw [h.variables_eq] at hv
  obtain ⟨i, hi, rfl⟩ := List.mem_map.1 hv
  exact List.mem_range.1 hi

/-- Two bindings with one variable are one. -/
lemma Numbered.eq_of_lookup (h : d.Numbered) {b c : BindingId} {v : VariableId}
    (hb : d.assigned.lookup b = some v) (hc : d.assigned.lookup c = some v) : b = c := by
  have hnodup : (d.assigned.map (·.2)).Nodup := by
    rw [h.variables_eq]
    exact List.nodup_range.map fun i j hij => VariableId.mk.inj hij
  exact congrArg Prod.fst
    (List.inj_on_of_nodup_map hnodup (mem_of_lookup hb) (mem_of_lookup hc) rfl)

/-- Two mentions with variables have one just in case one binding stands for both. -/
theorem Numbered.variableOf?_eq_iff (h : d.Numbered) {m n : MentionId} {v w : VariableId}
    (hm : d.variableOf? m = some v) (hn : d.variableOf? n = some w) :
    v = w ↔ d.context.effectiveBinding? m = d.context.effectiveBinding? n := by
  obtain ⟨b, hb, hv⟩ := Option.bind_eq_some_iff.1 hm
  obtain ⟨c, hc, hw⟩ := Option.bind_eq_some_iff.1 hn
  rw [hb, hc, Option.some.injEq]
  constructor
  · rintro rfl
    exact h.eq_of_lookup hv hw
  · rintro rfl
    exact Option.some.inj (hv.symm.trans hw)

/-- In a new draft no variables have been given. -/
lemma numbered_of_context (x : Context) : Numbered { context := x } :=
  ⟨rfl, List.nodup_nil⟩

/-- What giving a variable to a mention does: bindings keep theirs, and that of the mention has one
if it is there. -/
structure GivesVariable (d : Draft) (m : MentionId) (e : Draft) : Prop where
  context_eq : e.context = d.context
  numbered : e.Numbered
  lookup_eq : ∀ b v, d.assigned.lookup b = some v → e.assigned.lookup b = some v
  isSome : ∀ b ∈ d.context.effectiveBinding? m, (d.context.binding? b).isSome →
    (e.assigned.lookup b).isSome

/-- A draft with numbered variables may give a mention one. -/
lemma Numbered.givesVariable (h : d.Numbered) (m : MentionId) :
    d.GivesVariable m (d.addVariable m) := by
  unfold addVariable
  split
  · next hnone => exact ⟨rfl, h, fun _ _ => id, fun b hb => by rw [hnone] at hb; cases hb⟩
  next b hb =>
  split
  · next binding hbinding hnew =>
    have hlookup : ∀ c, (d.pushVariable b binding).assigned.lookup c =
        (d.assigned.lookup c).or (if c = b then some ⟨d.graph.vars.length⟩ else none) := by
      intro c
      rw [pushVariable, List.lookup_append]
      congr 1
      exact lookup_cons_eq_ite ..
    have hfresh : b ∉ d.assigned.map (·.1) := by
      intro hmem
      obtain ⟨p, hp, rfl⟩ := List.mem_map.1 hmem
      simpa using List.lookup_eq_none_iff.1 hnew p hp
    refine ⟨rfl, ⟨?_, ?_⟩, fun c v hc => ?_, fun c hc _ => ?_⟩
    · simp [pushVariable, h.variables_eq, List.range_succ]
    · rw [pushVariable, List.map_append, List.nodup_append]
      refine ⟨h.bindings_nodup, List.nodup_singleton _, fun c hc e he => ?_⟩
      rw [List.mem_singleton.1 he]
      rintro rfl
      exact hfresh hc
    · rw [hlookup, hc]
      rfl
    · obtain rfl : b = c := Option.some.inj (hb.symm.trans hc)
      rw [hlookup, hnew, if_pos rfl]
      rfl
  · next hother =>
    refine ⟨rfl, h, fun _ _ => id, fun c hc hlive => ?_⟩
    obtain rfl : b = c := Option.some.inj (hb.symm.trans hc)
    obtain ⟨binding, hbinding⟩ := Option.isSome_iff_exists.1 hlive
    cases hlookup : d.assigned.lookup b with
    | none => exact (hother binding hbinding hlookup).elim
    | some v => rfl

/-- After variables have been given to mentions, each of them has one whose binding is there. -/
lemma Numbered.foldl_addVariable (h : d.Numbered) (ms : List MentionId) :
    (ms.foldl addVariable d).context = d.context ∧ (ms.foldl addVariable d).Numbered ∧
      (∀ b v, d.assigned.lookup b = some v → (ms.foldl addVariable d).assigned.lookup b = some v) ∧
      ∀ m ∈ ms, ∀ b ∈ d.context.effectiveBinding? m, (d.context.binding? b).isSome →
        ((ms.foldl addVariable d).assigned.lookup b).isSome := by
  induction ms generalizing d with
  | nil => exact ⟨rfl, h, fun _ _ => id, fun _ hm => nomatch hm⟩
  | cons m ms ih =>
    have hm := h.givesVariable m
    obtain ⟨hcontext, hnumbered, hlookup, hisSome⟩ := ih hm.numbered
    rw [List.foldl_cons]
    refine ⟨hcontext.trans hm.context_eq, hnumbered,
      fun b v hb => hlookup b v (hm.lookup_eq b v hb),
      fun k hk b hb hlive => ?_⟩
    rcases List.mem_cons.1 hk with rfl | hk
    · obtain ⟨v, hv⟩ := Option.isSome_iff_exists.1 (hm.isSome b hb hlive)
      rw [hlookup b v hv]
      rfl
    · exact hisSome k hk b (hm.context_eq ▸ hb) (hm.context_eq ▸ hlive)

/-- A variable is given away only to a binding that stands for one of the mentions. -/
lemma mem_assigned_foldl_addVariable (d : Draft) (ms : List MentionId) {p : BindingId × VariableId}
    (hp : p ∈ (ms.foldl addVariable d).assigned) :
    p ∈ d.assigned ∨ ∃ m ∈ ms, d.context.effectiveBinding? m = some p.1 := by
  induction ms generalizing d with
  | nil => exact .inl hp
  | cons m ms ih =>
    rcases ih _ hp with hp | ⟨n, hn, heq⟩
    · unfold addVariable at hp
      split at hp
      · exact .inl hp
      · next b hb =>
        split at hp
        · rcases List.mem_append.1 hp with hp | hp
          · exact .inl hp
          · rw [List.mem_singleton.1 hp]
            exact .inr ⟨m, List.mem_cons_self, hb⟩
        · exact .inl hp
    · rw [context_addVariable] at heq
      exact .inr ⟨n, List.mem_cons_of_mem m hn, heq⟩

/-- Every variable has a binding. -/
lemma Numbered.exists_assigned (h : d.Numbered) {w : VariableId}
    (hw : w.index < d.graph.vars.length) : ∃ b, d.assigned.lookup b = some w := by
  have hmem : w ∈ d.assigned.map (·.2) := by
    rw [h.variables_eq]
    exact List.mem_map.2 ⟨w.index, List.mem_range.2 hw, rfl⟩
  obtain ⟨p, hp, rfl⟩ := List.mem_map.1 hmem
  refine ⟨p.1, ?_⟩
  cases hlookup : d.assigned.lookup p.1 with
  | none =>
    have hnone := List.lookup_eq_none_iff.1 hlookup p hp
    simp at hnone
  | some u =>
    have heq := List.inj_on_of_nodup_map h.bindings_nodup (mem_of_lookup hlookup) hp rfl
    rw [← heq]

/-! ## Adding steps -/

/-- A draft has become another one over the same mentions and bindings, in which every binding has
the variable that it had. -/
structure KeepsVariables (d e : Draft) : Prop where
  context_eq : e.context = { d.context with vocabulary := e.context.vocabulary }
  assigned_eq : e.assigned = d.assigned
  vars_length : e.graph.vars.length = d.graph.vars.length

/-- A draft that does not change keeps its variables. -/
lemma KeepsVariables.refl (d : Draft) : d.KeepsVariables d :=
  ⟨rfl, rfl, rfl⟩

instance : Trans KeepsVariables KeepsVariables KeepsVariables where
  trans {d e f} h h' := by
    refine ⟨?_, h'.assigned_eq.trans h.assigned_eq, h'.vars_length.trans h.vars_length⟩
    rw [h'.context_eq, h.context_eq]

/-- The vocabulary does not matter for merges. -/
lemma effectiveBinding?_withVocabulary (x : Context) (v : Vocabulary) (m : MentionId) :
    { x with vocabulary := v }.effectiveBinding? m = x.effectiveBinding? m := by
  have hfollow : ∀ steps b,
      { x with vocabulary := v }.followMerges steps b = x.followMerges steps b := by
    intro steps
    induction steps with
    | zero => exact fun _ => rfl
    | succ steps ih =>
      intro b
      have hlookup : ∀ c, { x with vocabulary := v }.binding? c = x.binding? c := fun _ => rfl
      rw [Context.followMerges, Context.followMerges, hlookup]
      split
      · exact ih _
      · rfl
  exact congrArg ((x.mention m).binding.map ·) (funext fun b => hfollow _ b)

/-- The same binding stands for a mention. -/
lemma KeepsVariables.effectiveBinding?_eq (h : d.KeepsVariables e) (m : MentionId) :
    e.context.effectiveBinding? m = d.context.effectiveBinding? m := by
  rw [h.context_eq, effectiveBinding?_withVocabulary]

/-- A mention keeps its variable. -/
lemma KeepsVariables.variableOf?_eq (h : d.KeepsVariables e) (m : MentionId) :
    e.variableOf? m = d.variableOf? m := by
  rw [variableOf?, variableOf?, h.effectiveBinding?_eq, h.assigned_eq]

end Draft

open Draft

namespace Build

variable {d : Draft}

/-- Asking for the variable of a mention keeps variables. -/
lemma leads_variableOf_keepsVariables (m : MentionId) (d : Draft) :
    (variableOf m).Leads KeepsVariables d fun _ _ => True := by
  refine leads_get_bind ?_
  split
  · exact leads_pure (.refl d) trivial
  · exact leads_throw (.refl d)

/-- A change of the join graph that adds no variable keeps variables. -/
lemma leads_modifyGraph_keepsVariables {change : JoinGraph → JoinGraph} (d : Draft)
    (h : (change d.graph).vars.length = d.graph.vars.length) :
    (modifyGraph change).Leads KeepsVariables d fun _ _ => True :=
  leads_modify ⟨rfl, rfl, h⟩ trivial

/-- Adding a step keeps variables. -/
lemma leads_addStep_keepsVariables (f : FactTypeId) (reading : Option ReadingId)
    (certainty : Certainty)
    (plays : List (VariableId × RoleId)) (d : Draft) :
    (addStep f reading certainty plays).Leads KeepsVariables d fun _ _ => True := by
  refine leads_get_bind (Leads.bind (leads_modifyGraph_keepsVariables d
    (length_vars_pushStep ..)) fun _ e _ _ => ?_)
  exact leads_pure (.refl e) trivial

/-- Finding the play of a mention keeps variables. -/
lemma leads_playOf_keepsVariables (c : Clause) (m : MentionId) (d : Draft) :
    (playOf c m).Leads KeepsVariables d fun _ _ => True := by
  refine Leads.bind (leads_variableOf_keepsVariables m d) fun v e _ _ => leads_get_bind ?_
  split
  · exact leads_throw (.refl e)
  · dsimp only
    split
    · exact leads_throw_bind (.refl e)
    · exact leads_pure (.refl e) trivial

/-- Builds in turn keep variables if each does. -/
lemma leads_mapM_keepsVariables {ι α : Type} {f : ι → Build α}
    (h : ∀ i d, (f i).Leads KeepsVariables d fun _ _ => True) (is : List ι) (d : Draft) :
    (is.mapM f).Leads KeepsVariables d fun _ _ => True := by
  induction is generalizing d with
  | nil => exact leads_pure (.refl d) trivial
  | cons i is ih =>
    rw [List.mapM_cons]
    exact Leads.bind (h i d) fun _ e _ _ => Leads.bind (ih e) fun _ e' _ _ =>
      leads_pure (.refl e') trivial

/-- Adding the step of a clause keeps variables. -/
lemma leads_addOwnStep_keepsVariables (c : Clause) (d : Draft) :
    (addOwnStep c).Leads KeepsVariables d fun _ _ => True := by
  unfold addOwnStep
  split
  · exact leads_pure (.refl d) trivial
  · refine Leads.bind (leads_mapM_keepsVariables (leads_playOf_keepsVariables c) _ d) fun plays e
      _ _ => ?_
    exact Leads.map (leads_addStep_keepsVariables _ _ _ plays e)

/-- Adding a link keeps variables. -/
lemma leads_linkStep_keepsVariables (outer : VariableId) (inner : StepId) (d : Draft) :
    (linkStep outer inner).Leads KeepsVariables d fun _ _ => True := by
  refine Leads.bind (leads_modifyGraph_keepsVariables d rfl) fun _ e _ _ => ?_
  refine Leads.bind (leads_modifyGraph_keepsVariables e (by simp [modifyVariable])) fun _ e' _ _ =>
    leads_get_bind ?_
  have hlink : ∀ (t : ObjectTypeId) (r : RoleId), ((Vocabulary.linkFactType t r).within
      (·.context.vocabulary) fun v d => { d with context := { d.context with vocabulary := v } } :
        Build FactTypeId).Leads KeepsVariables e' fun _ _ => True := fun t r =>
    Leads.within (leads_true _ _) (fun _ _ => ⟨rfl, rfl, rfl⟩) fun _ _ _ _ => trivial
  refine Leads.bind (hlink _ _) fun link u _ _ => leads_get_bind ?_
  exact Leads.bind (leads_addStep_keepsVariables ..) fun _ w _ _ => leads_pure (.refl w) trivial

/-- Adding the steps of clauses gives no variables away. -/
lemma stepsKeep_keepsVariables :
    StepsKeep KeepsVariables (fun _ _ => True) (fun _ _ => True) (fun _ _ => True) where
  last _ := .refl _
  fits_mono _ _ := trivial
  hasVariable_mono _ _ := trivial
  variableOf m _ := leads_variableOf_keepsVariables m _
  addOwnStep _ _ := (leads_addOwnStep_keepsVariables _ _).imp fun _ _ _ _ _ _ => trivial
  linkStep _ _ _ := leads_linkStep_keepsVariables _ _ _
  ask _ _ := leads_modify ⟨rfl, rfl, rfl⟩ trivial

/-- The stages of building the join graph of clauses: their mentions get variables, then the steps
are added one clause after the other. What follows only looks at the draft. -/
lemma build_eq_ok {x : Context} {clauses : List Clause} {projected : List MentionId}
    {g : JoinGraph} {d : Draft}
    (h : (build clauses projected).perform { context := x } = (.ok g, d)) :
    ∃ u, (clauses.forM addTopClause).perform
        ((allMentions clauses).foldl addVariable { context := x }) = (.ok u, d) ∧
      ∃ projection, g = { d.graph with projection } := by
  unfold build at h
  rw [perform_modify_bind] at h
  obtain ⟨u, d₁, hsteps, h⟩ := perform_bind_eq_ok.1 h
  rw [perform_get_bind] at h
  obtain ⟨_, d₂, hvalidate, h⟩ := perform_bind_eq_ok.1 h
  obtain ⟨-, rfl⟩ := perform_ofExcept_eq_ok.1 hvalidate
  obtain ⟨projection, d₃, hprojected, hpure⟩ := perform_bind_eq_ok.1 h
  cases hpure
  obtain ⟨rfl, -⟩ := (leads_mapM fun m (_ : m ∈ projected) =>
    variableOf_leads_eq m d₂).of_perform hprojected
  exact ⟨u, hsteps, _, rfl⟩

/-- Steps give no variables away. -/
lemma keepsVariables_of_forM {d e : Draft} {clauses : List Clause} {u : Unit}
    (h : (clauses.forM addTopClause).perform d = (.ok u, e)) : d.KeepsVariables e :=
  ((stepsKeep_keepsVariables.forM_addTopClause (.refl d) fun c _ =>
    c.everywhere_of_forall fun _ => trivial).of_perform h).1

section Added

variable {x : Context} {clauses : List Clause} {d : Draft} {u : Unit}
  (h : (clauses.forM addTopClause).perform
    ((allMentions clauses).foldl addVariable { context := x }) = (.ok u, d))

include h

/-- After the steps of clauses have been added, every mention of them whose binding is there has a
variable, and two mentions have one variable just in case one binding stands for both. -/
theorem variableOf?_of_forM :
    (∀ m ∈ allMentions clauses, ∀ b ∈ x.effectiveBinding? m, (x.binding? b).isSome →
      ∃ v, d.variableOf? m = some v ∧ v.index < d.graph.vars.length) ∧
    ∀ m n v w, d.variableOf? m = some v → d.variableOf? n = some w →
      (v = w ↔ x.effectiveBinding? m = x.effectiveBinding? n) := by
  obtain ⟨hcontext, hnumbered, -, hisSome⟩ :=
    (numbered_of_context x).foldl_addVariable (allMentions clauses)
  have hkeeps := keepsVariables_of_forM h
  generalize (allMentions clauses).foldl addVariable { context := x } = d₀ at *
  have heffective : ∀ m, d₀.context.effectiveBinding? m = x.effectiveBinding? m := fun m => by
    rw [hcontext]
  refine ⟨fun m hm b hb hlive => ?_, fun m n v w hv hw => ?_⟩
  · obtain ⟨v, hv⟩ := Option.isSome_iff_exists.1 (hisSome m hm b hb hlive)
    refine ⟨v, ?_, ?_⟩
    · rw [hkeeps.variableOf?_eq, variableOf?, heffective, Option.mem_def.1 hb]
      exact hv
    · exact (hnumbered.index_lt hv).trans_eq hkeeps.vars_length.symm
  · rw [hkeeps.variableOf?_eq] at hv hw
    rw [hnumbered.variableOf?_eq_iff hv hw, heffective, heffective]

/-- Then every variable is that of one of their mentions. -/
theorem exists_mention_of_forM {w : VariableId} (hw : w ∈ d.graph.variableIds) :
    ∃ m ∈ allMentions clauses, d.variableOf? m = some w := by
  obtain ⟨hcontext, hnumbered, -, -⟩ :=
    (numbered_of_context x).foldl_addVariable (allMentions clauses)
  have hassigned := fun p => mem_assigned_foldl_addVariable { context := x } (allMentions clauses)
    (p := p)
  have hkeeps := keepsVariables_of_forM h
  generalize (allMentions clauses).foldl addVariable { context := x } = d₀ at *
  have hlt : w.index < d₀.graph.vars.length := by
    obtain ⟨i, hi, rfl⟩ := List.mem_map.1 hw
    exact hkeeps.vars_length ▸ List.mem_range.1 hi
  obtain ⟨b, hb⟩ := hnumbered.exists_assigned hlt
  obtain ⟨m, hm, heq⟩ := (hassigned _ (mem_of_lookup hb)).resolve_left List.not_mem_nil
  refine ⟨m, hm, ?_⟩
  rw [hkeeps.variableOf?_eq, variableOf?, hcontext]
  exact Option.bind_eq_some_iff.2 ⟨b, heq, hb⟩

end Added

section Built

variable {x : Context} {clauses : List Clause} {projected : List MentionId} {g : JoinGraph}
  {d : Draft} (h : (build clauses projected).perform { context := x } = (.ok g, d))

include h

/-- After the join graph of clauses has been built, every mention of them whose binding is there has
a variable of the graph, and two mentions have one variable just in case one binding stands for
both. -/
theorem variableOf?_of_build :
    (∀ m ∈ allMentions clauses, ∀ b ∈ x.effectiveBinding? m, (x.binding? b).isSome →
      ∃ v, d.variableOf? m = some v ∧ v.index < g.vars.length) ∧
    ∀ m n v w, d.variableOf? m = some v → d.variableOf? n = some w →
      (v = w ↔ x.effectiveBinding? m = x.effectiveBinding? n) := by
  obtain ⟨u, hsteps, projection, rfl⟩ := build_eq_ok h
  exact variableOf?_of_forM hsteps

/-- Every variable of the join graph of clauses is that of one of their mentions. -/
theorem exists_mention_of_build {w : VariableId} (hw : w ∈ g.variableIds) :
    ∃ m ∈ allMentions clauses, d.variableOf? m = some w := by
  obtain ⟨u, hsteps, projection, rfl⟩ := build_eq_ok h
  exact exists_mention_of_forM hsteps hw

end Built

end Build

end FactModel
