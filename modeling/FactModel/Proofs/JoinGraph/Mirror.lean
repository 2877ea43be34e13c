import FactModel.Proofs.JoinGraph.Origins
import FactModel.Proofs.JoinGraph.Plays
import FactModel.Proofs.JoinGraph.Variables
import FactModel.Proofs.Matching.Roles
import FactModel.Proofs.Vocabulary.Additions
import FactModel.Proofs.Vocabulary.Inheritance
import FactModel.Proofs.Vocabulary.Links
set_option autoImplicit false

/-!
# Join graphs mirror their clauses

The steps of a join graph are those of the matched clauses and of the links of nested clauses, in
order. The step of a clause brings together the variables and the roles of its mentions.

## Main definitions

* `FactModel.StepOrigin.Makes` — what a step says about the clause or the link that makes it.
* `FactModel.Draft.Woven` — the steps so far are made by certain clauses and links.
* `FactModel.Draft.Mirrors` — a join graph mirrors clauses.

## Main results

* `FactModel.Build.woven_linkStep` — a link makes a step.
* `FactModel.Build.woven_addClause` — a clause makes its steps.
* `FactModel.Build.mirrors_build` — the join graph of clauses mirrors them.
-/

namespace FactModel

open Attempt

/-- Two types are one, or share a supertype. -/
def Vocabulary.Compatible (v : Vocabulary) (t u : ObjectTypeId) : Prop :=
  t = u ∨ ∃ s ∈ v.supertypes t, s ∈ v.supertypes u

/-! ## What makes a step -/

/-- What a step says about what makes it. The step of a clause has the fact type of the clause, and
for each mention a play of the mention's variable in the mention's role; a clause with one mention
plays it twice. The step of a link has the link between the type of the outer variable and the role
of the first inner mention, which its two plays are for. -/
def StepOrigin.Makes (g : JoinGraph) (v : Vocabulary) (x : Context)
    (variableOf? : MentionId → Option VariableId) (s : Step) : StepOrigin → Prop
  | .clause c => c.factType = some s.factType ∧ s.reading = c.reading ∧
    List.Forall₂ (fun m part => variableOf? m = some part.1 ∧ (x.mention m).role = some part.2)
      (Draft.doubled c.mentions) (g.parts s)
  | .link outer c => ∃ w m u r own other, variableOf? outer = some w ∧ c.mentions.head? = some m ∧
    variableOf? m = some u ∧ (x.mention m).role = some r ∧
    (v.factType s.factType).kind = .link (g.variableAt w).objectType r ∧
    (v.factType s.factType).roles = [own, other] ∧ g.parts s = [(w, own), (u, other)]

/-- The variable of a play may have the role of the play in its step. -/
def JoinGraph.PartsFit (g : JoinGraph) (v : Vocabulary) (s : Step) : Prop :=
  ∀ part ∈ g.parts s, part.2 ∈ (v.factType s.factType).roles ∧
    v.Compatible (g.variableAt part.1).objectType (v.playerOf part.2)

namespace Draft

/-- A step of a draft says what it should about what makes it, and its variables may have the roles
that they have in it. -/
structure Reflects (d : Draft) (o : StepOrigin) (s : Step) : Prop where
  makes : o.Makes d.graph d.context.vocabulary d.context d.variableOf? s
  partsFit : d.graph.PartsFit d.context.vocabulary s

/-- The steps of a draft are made by certain clauses and links, in order. -/
structure Woven (d : Draft) (origins : List StepOrigin) : Prop where
  valid : d.Valid
  linksMirror : d.context.vocabulary.LinksMirror
  playsListed : d.graph.PlaysListed
  steps : List.Forall₂ d.Reflects origins d.graph.steps

/-- One draft has become another one, in which bindings have the variables that they had, and what
the steps bring together is the same. -/
structure Weaves (d e : Draft) : Prop extends d.Extends e, d.KeepsVariables e where
  adds : d.context.vocabulary.AddsImplied e.context.vocabulary
  objectType_eq : ∀ w, (e.graph.variableAt w).objectType = (d.graph.variableAt w).objectType
  plays_le : d.graph.plays <+: e.graph.plays

variable {d e : Draft} {os : List StepOrigin} {s : Step} {o : StepOrigin}

/-- A valid draft that does not change keeps what it has woven. -/
lemma Valid.weaves (h : d.Valid) : d.Weaves d :=
  { h.extends, KeepsVariables.refl d with
    adds := .refl _
    objectType_eq := fun _ => rfl
    plays_le := List.prefix_rfl }

instance : Trans Weaves Weaves Weaves where
  trans {d _ f} h h' :=
    { (Trans.trans h.toExtends h'.toExtends : d.Extends f),
      (Trans.trans h.toKeepsVariables h'.toKeepsVariables : d.KeepsVariables f) with
      adds := h.adds.trans h'.adds
      objectType_eq := fun w => (h'.objectType_eq w).trans (h.objectType_eq w)
      plays_le := h.plays_le.trans h'.plays_le }

namespace Weaves

variable (h : d.Weaves e)

include h

/-- The mentions are as they were. -/
lemma mention_eq (m : MentionId) : e.context.mention m = d.context.mention m := by
  rw [h.context_eq]
  rfl

/-- Clauses whose roles fit do so in the context of the later draft. -/
lemma everywhere_fits (hd : d.Valid) {c : Clause} (hc : c.Everywhere d.context.Fits) :
    c.Everywhere e.context.Fits :=
  have hgives : d.context.GivesRoles (fun _ => False) e.context :=
    ⟨h.context, fun m _ => by rw [h.mention_eq]⟩
  hgives.everywhere_fits hd.context hc fun _ _ => id

/-- A step is still made by the same if it brings together what it did. -/
lemma reflects (hd : d.Valid) {t : Step} (hs : d.Reflects o s)
    (hf : s.factType ∈ d.context.vocabulary.factTypeIds) (hst : SameStep s t)
    (hparts : e.graph.parts t = d.graph.parts s) : e.Reflects o t := by
  refine ⟨?_, fun part hpart => ?_⟩
  · cases o with
    | clause c =>
      obtain ⟨hfactType, hreading, hall⟩ := hs.makes
      refine ⟨hst.factType_eq ▸ hfactType, hst.reading_eq.trans hreading, ?_⟩
      rw [hparts]
      exact hall.imp fun m part hm => by rwa [h.variableOf?_eq, h.mention_eq]
    | link outer c =>
      obtain ⟨w, m, u, r, own, other, hw, hm, hu, hr, hkind, hroles, hall⟩ := hs.makes
      refine ⟨w, m, u, r, own, other, ?_, hm, ?_, ?_, ?_, ?_, hparts.trans hall⟩
      · rwa [h.variableOf?_eq]
      · rwa [h.variableOf?_eq]
      · rwa [h.mention_eq]
      · rwa [hst.factType_eq, h.adds.factType_eq hf, h.objectType_eq]
      · rwa [hst.factType_eq, h.adds.factType_eq hf]
  · obtain ⟨hrole, hcompatible⟩ := hs.partsFit part (hparts ▸ hpart)
    have hmem := (hd.context.consistent.mem_roles.1 hrole).1
    refine ⟨?_, ?_⟩
    · rwa [hst.factType_eq, h.adds.factType_eq hf]
    · rwa [h.objectType_eq, h.adds.playerOf_eq hmem, Vocabulary.Compatible, h.adds.supertypes_eq]

/-- Steps are still made by the same if they bring together what they did. -/
lemma forall₂_reflects (hd : d.Valid) {ss ts : List Step} (hss : List.Forall₂ d.Reflects os ss)
    (hrange : ∀ s ∈ ss, s.factType ∈ d.context.vocabulary.factTypeIds)
    (hts : List.Forall₂ (fun s t => SameStep s t ∧ e.graph.parts t = d.graph.parts s) ss ts) :
    List.Forall₂ e.Reflects os ts := by
  induction hss generalizing ts with
  | nil =>
    cases hts
    exact .nil
  | cons ho _ ih =>
    cases hts with
    | cons hst hts =>
      exact .cons (h.reflects hd ho (hrange _ List.mem_cons_self) hst.1 hst.2)
        (ih (fun s hs => hrange s (List.mem_cons_of_mem _ hs)) hts)

end Weaves

namespace Woven

variable (h : d.Woven os)

include h

/-- The fact types of the steps are fact types of the vocabulary. -/
lemma factType_mem : ∀ s ∈ d.graph.steps, s.factType ∈ d.context.vocabulary.factTypeIds :=
  fun s hs => (h.valid.graph.steps s hs).factType

/-- The steps are still made by the same if they are alike. -/
lemma of_alike {g : JoinGraph} (hg : Alike d.graph g)
    (hvalid : d.Extends { d with graph := g }) :
    Woven { d with graph := g } os ∧ d.Weaves { d with graph := g } := by
  have hweaves : d.Weaves { d with graph := g } :=
    { hvalid, (⟨rfl, rfl, hg.vars_length⟩ : d.KeepsVariables { d with graph := g }) with
      adds := .refl _
      objectType_eq := hg.objectType_eq
      plays_le := hg.plays_eq ▸ List.prefix_rfl }
  exact ⟨⟨hvalid.valid, h.linksMirror, hg.playsListed h.playsListed,
    hweaves.forall₂_reflects h.valid h.steps h.factType_mem
      (hg.steps.imp fun _ _ hst => ⟨hst, hg.parts_eq hst⟩)⟩, hweaves⟩

/-- The vocabulary may get links. -/
lemma withVocabulary {v : Vocabulary} (hv : d.context.vocabulary.Extends v)
    (hadds : d.context.vocabulary.AddsImplied v) (hlinks : v.LinksMirror) :
    Woven { d with context := { d.context with vocabulary := v } } os ∧
      d.Weaves { d with context := { d.context with vocabulary := v } } := by
  have hvalid := h.valid.withVocabulary hv
  have hweaves : d.Weaves { d with context := { d.context with vocabulary := v } } :=
    { hvalid, (⟨rfl, rfl, rfl⟩ : d.KeepsVariables { d with
        context := { d.context with vocabulary := v } }) with
      adds := hadds
      objectType_eq := fun _ => rfl
      plays_le := List.prefix_rfl }
  exact ⟨⟨hvalid.valid, hlinks, h.playsListed, hweaves.forall₂_reflects h.valid h.steps
    h.factType_mem (List.forall₂_same.2 fun _ _ => ⟨⟨rfl, rfl, rfl⟩, rfl⟩)⟩, hweaves⟩

/-- A step that is added is made by one more. -/
lemma pushStep {f : FactTypeId} {reading : Option ReadingId} {certainty : Certainty}
    {plays : List (VariableId × RoleId)}
    (hvalid : d.Extends { d with graph := pushStep d.graph f reading certainty plays })
    (hne : plays ≠ []) (hfit : ∀ p ∈ plays, p.2 ∈ (d.context.vocabulary.factType f).roles ∧
      d.context.vocabulary.Compatible (d.graph.variableAt p.1).objectType
        (d.context.vocabulary.playerOf p.2))
    (hmakes : ∀ g s, s.factType = f → s.reading = reading → g.parts s = doubled plays →
      (∀ w, (g.variableAt w).objectType = (d.graph.variableAt w).objectType) →
        o.Makes g d.context.vocabulary d.context d.variableOf? s) :
    Woven { d with graph := Draft.pushStep d.graph f reading certainty plays } (os ++ [o]) ∧
      d.Weaves { d with graph := Draft.pushStep d.graph f reading certainty plays } ∧
      Reflects { d with graph := Draft.pushStep d.graph f reading certainty plays } o
        (nextStep d.graph f reading certainty plays) := by
  have hweaves : d.Weaves { d with graph := Draft.pushStep d.graph f reading certainty plays } :=
    { hvalid, (⟨rfl, rfl, length_vars_pushStep ..⟩ : d.KeepsVariables { d with
        graph := Draft.pushStep d.graph f reading certainty plays }) with
      adds := .refl _
      objectType_eq := objectType_variableAt_pushStep d.graph f reading certainty plays
      plays_le := plays_pushStep d.graph f reading certainty plays ▸ List.prefix_append .. }
  have hparts := parts_pushStep (g := d.graph) f reading certainty hne
  have hnext : Reflects { d with graph := Draft.pushStep d.graph f reading certainty plays } o
      (nextStep d.graph f reading certainty plays) := by
    have hfields := nextStep_eq d.graph f reading certainty plays
    refine ⟨hmakes _ _ hfields.1 hfields.2 hparts hweaves.objectType_eq, fun part hpart => ?_⟩
    have hpart := hfit part (mem_doubled.1 (hparts ▸ hpart))
    rw [hfields.1, hweaves.objectType_eq]
    exact hpart
  refine ⟨⟨hvalid.valid, h.linksMirror, h.playsListed.pushStep f reading certainty hne, ?_⟩,
    hweaves,
    hnext⟩
  have hsteps := steps_pushStep d.graph f reading certainty plays
  change List.Forall₂ _ _ (Draft.pushStep d.graph f reading certainty plays).steps
  rw [hsteps]
  refine List.rel_append (hweaves.forall₂_reflects h.valid h.steps h.factType_mem
    (List.forall₂_same.2 fun s hs => ⟨⟨rfl, rfl, rfl⟩, ?_⟩)) (.cons hnext .nil)
  exact h.playsListed.parts_eq hweaves.plays_le hs

end Woven

/-- A draft in which variables may have been given away, but no step has been added. -/
structure Bare (d : Draft) : Prop where
  plays_eq : d.graph.plays = []
  steps_eq : d.graph.steps = []
  vars : ∀ w ∈ d.graph.vars, w.plays = []

/-- Giving a variable to a mention adds no step. -/
lemma Bare.addVariable (h : d.Bare) (m : MentionId) : (d.addVariable m).Bare := by
  unfold Draft.addVariable
  split
  · exact h
  · split
    · refine ⟨h.plays_eq, h.steps_eq, fun w hw => ?_⟩
      rcases List.mem_append.1 hw with hw | hw
      · exact h.vars w hw
      · rw [List.mem_singleton.1 hw]
    · exact h

/-- A draft without steps is made by no clauses. -/
lemma Bare.woven (h : d.Bare) (hvalid : d.Valid)
    (hlinks : d.context.vocabulary.LinksMirror) : d.Woven [] := by
  have hplayIds : d.graph.playIds = [] := by rw [JoinGraph.playIds, h.plays_eq]; rfl
  refine ⟨hvalid, hlinks, ⟨?_, fun s hs => ?_, fun w hw => ?_⟩, ?_⟩
  · rw [h.steps_eq, hplayIds]
    rfl
  · rw [JoinGraph.mem_stepIds, h.steps_eq] at hs
    cases hs
  · have hlt := JoinGraph.mem_variableIds.1 hw
    rw [hplayIds, JoinGraph.variableAt, List.getElem?_eq_getElem hlt]
    exact h.vars _ (List.getElem_mem hlt)
  · rw [h.steps_eq]
    exact .nil

end Draft

open Draft

namespace Build

variable {d e : Draft} {os : List StepOrigin} {o : StepOrigin}

/-! ## The step of a clause -/

/-- Doubling keeps a relation that holds item by item. -/
lemma forall₂_doubled {α β : Type} {R : α → β → Prop} {as : List α} {bs : List β}
    (h : List.Forall₂ R as bs) : List.Forall₂ R (doubled as) (doubled bs) := by
  cases h with
  | nil => exact .nil
  | cons hab hrest =>
    cases hrest with
    | nil => exact .cons hab (.cons hab .nil)
    | cons hab' hrest => exact .cons hab (.cons hab' hrest)

/-- Adding a step adds it at the end and yields its number. -/
lemma perform_addStep (f : FactTypeId) (reading : Option ReadingId) (certainty : Certainty)
    (plays : List (VariableId × RoleId)) (d : Draft) :
    (addStep f reading certainty plays).perform d = (.ok ⟨d.graph.steps.length⟩,
      { d with graph := pushStep d.graph f reading certainty plays }) :=
  rfl

/-- The play of a mention is that of its variable in its role, which the variable may have. -/
lemma leads_playOf_eq (c : Clause) (m : MentionId) (d : Draft) :
    (playOf c m).Leads Eq d fun part _ => (d.variableOf? m = some part.1 ∧
      (d.context.mention m).role = some part.2) ∧
        d.context.vocabulary.Compatible (d.graph.variableAt part.1).objectType
          (d.context.vocabulary.playerOf part.2) := by
  have hvariable : (variableOf m).Leads Eq d fun w _ => d.variableOf? m = some w := by
    refine leads_get_bind ?_
    split
    · next w hw => exact leads_pure rfl hw
    · exact leads_throw rfl
  refine Leads.bind hvariable fun w e he hw => ?_
  subst he
  refine leads_get_bind ?_
  split
  · exact leads_throw rfl
  next role hrole =>
  dsimp only
  split
  · exact leads_throw_bind rfl
  · next hplayer =>
    refine leads_pure rfl ⟨⟨hw, hrole⟩, ?_⟩
    by_cases heq : (d.graph.variableAt w).objectType = d.context.vocabulary.playerOf role
    · exact .inl heq
    · have hcommon : d.context.vocabulary.commonSupertype? (d.graph.variableAt w).objectType
          (d.context.vocabulary.playerOf role) ≠ none :=
        fun hnone => hplayer ⟨heq, by rw [hnone]; rfl⟩
      obtain ⟨s, hs⟩ := Option.ne_none_iff_exists'.1 hcommon
      exact .inr ⟨s, Vocabulary.mem_supertypes_of_commonSupertype? hs⟩

/-- What adding the steps of a clause yields: the step of the clause itself, if it is matched. -/
structure Yields (c : Clause) (r : Option StepId) (e : Draft) : Prop where
  isSome_eq : r.isSome = c.isMatched
  reflects : ∀ s ∈ r, s.index < e.graph.steps.length ∧ e.Reflects (.clause c) (e.graph.stepAt s)

/-- A matched clause makes a step of its own. -/
lemma woven_addOwnStep (h : d.Woven os) {c : Clause} (hc : d.context.Fits c) {r : Option StepId}
    (hp : (addOwnStep c).perform d = (.ok r, e)) :
    e.Woven (os ++ c.ownOrigins) ∧ d.Weaves e ∧ Yields c r e := by
  have hextends := ((leads_addOwnStep h.valid hc.valid).of_perform hp).1
  unfold addOwnStep at hp
  split at hp
  · next hnone =>
    cases hp
    have hmatched : c.isMatched = false := by rw [Clause.isMatched, hnone]; rfl
    refine ⟨?_, h.valid.weaves, hmatched.symm, fun _ hs => nomatch hs⟩
    rw [Clause.ownOrigins, if_neg (by simp [hmatched]), List.append_nil]
    exact h
  · next f hf =>
    have hmatched : c.isMatched = true := by rw [Clause.isMatched, hf]; rfl
    obtain ⟨plays, d', hplays, hrest⟩ := perform_bind_eq_ok.1 hp
    obtain ⟨rfl, hall⟩ := (leads_mapM_forall₂ fun m (_ : m ∈ c.mentions) =>
      leads_playOf_eq c m d).of_perform hplays
    rw [← bind_pure_comp] at hrest
    obtain ⟨s, d', hstep, hpure⟩ := perform_bind_eq_ok.1 hrest
    rw [perform_addStep] at hstep
    cases hpure
    cases hstep
    have hne : plays ≠ [] := by
      rw [← List.length_pos_iff, ← hall.length_eq, List.length_pos_iff]
      exact hc.valid.mentions_ne_nil f hf
    have hfit : ∀ part ∈ plays, part.2 ∈ (d.context.vocabulary.factType f).roles ∧
        d.context.vocabulary.Compatible (d.graph.variableAt part.1).objectType
          (d.context.vocabulary.playerOf part.2) := by
      intro part hpart
      obtain ⟨i, hi, rfl⟩ := List.mem_iff_getElem.1 hpart
      have hi' : i < c.mentions.length := hall.length_eq ▸ hi
      have hpair := hall.get hi' hi
      obtain ⟨f', hf', hrole⟩ := hc.rolesFit _ (List.getElem_mem hi') _ hpair.1.2
      obtain rfl : f = f' := Option.mem_unique hf hf'
      exact ⟨hrole, hpair.2⟩
    obtain ⟨hwoven, hweaves, hnext⟩ := h.pushStep (o := .clause c) hextends hne hfit
      fun g s hfactType hreading hparts _ => ⟨hfactType ▸ hf, hreading,
        hparts ▸ (forall₂_doubled hall).imp fun _ _ hpart => hpart.1⟩
    refine ⟨?_, hweaves, hmatched.symm, ?_⟩
    · rw [Clause.ownOrigins, if_pos hmatched]
      exact hwoven
    · rintro s ⟨⟩
      exact ⟨by simp [length_steps_pushStep], hnext⟩

/-! ## The step of a link -/

/-- What the step of a clause says about the first mention of the clause: its variable and its role
are those of the input play. -/
lemma exists_first {c : Clause} {s : Step} (h : d.Reflects (.clause c) s) :
    ∃ m, c.mentions.head? = some m ∧
      d.variableOf? m = some (d.graph.playAt s.inputPlay).variableId ∧
      (d.context.mention m).role = some (d.graph.playAt s.inputPlay).role := by
  obtain ⟨-, -, hall⟩ := h.makes
  match hmentions : c.mentions with
  | [] =>
    rw [hmentions] at hall
    cases hall
  | [m] =>
    rw [hmentions] at hall
    cases hall with
    | cons hm _ => exact ⟨m, rfl, hm⟩
  | m :: n :: ms =>
    rw [hmentions] at hall
    cases hall with
    | cons hm _ => exact ⟨m, rfl, hm⟩

/-- A join graph in which a variable and a step have been told that the one objectifies the
other. -/
def tied (g : JoinGraph) (outer : VariableId) (inner : StepId) : JoinGraph :=
  modifyVariable (modifyStep g inner ({ · with objectificationVariable := some outer })) outer
    ({ · with objectificationStep := some inner })

/-- What objectifies what does not matter for what makes a step. -/
lemma woven_tied (h : d.Woven os) {w : VariableId} (hw : w.index < d.graph.vars.length)
    {inner : StepId} (hinner : inner.index < d.graph.steps.length)
    (ho : d.Reflects o (d.graph.stepAt inner)) :
    let e : Draft := { d with graph := tied d.graph w inner }
    e.Woven os ∧ d.Weaves e ∧ e.Reflects o (e.graph.stepAt inner) := by
  have halike := alike_tieStep d.graph w inner
  have hsame := halike.sameStep_stepAt inner
  obtain ⟨h₁, hw₁⟩ := h.of_alike halike (h.valid.tieStep hw inner)
  have ho₁ := hw₁.reflects h.valid ho (h.valid.graph.stepAt hinner).factType hsame
    (halike.parts_eq hsame)
  have hinner₁ := hinner.trans_le hw₁.steps_le
  have halike' := alike_tieVariable (modifyStep d.graph inner
    ({ · with objectificationVariable := some w })) w inner
  have hsame' := halike'.sameStep_stepAt inner
  obtain ⟨h₂, hw₂⟩ := h₁.of_alike halike' (h₁.valid.tieVariable w hinner₁)
  exact ⟨h₂, Trans.trans hw₁ hw₂, hw₂.reflects h₁.valid ho₁
    (h₁.valid.graph.stepAt hinner₁).factType hsame' (halike'.parts_eq hsame')⟩

/-- A nested clause that is matched makes the step of a link.

**Proof sketch.** The link is that between the type of the outer variable and the role that the
first inner mention plays. So it has one role for the outer variable, and one that the variable of
that mention may have since it may have the mirrored one. -/
theorem woven_linkStep (h : d.Woven os) {outer : MentionId} {c : Clause} {w : VariableId}
    {inner : StepId} (houter : d.variableOf? outer = some w) (hw : w.index < d.graph.vars.length)
    (hinner : inner.index < d.graph.steps.length)
    (hc : d.Reflects (.clause c) (d.graph.stepAt inner)) {u : Unit}
    (hp : (linkStep w inner).perform d = (.ok u, e)) :
    e.Woven (os ++ [.link outer c]) ∧ d.Weaves e := by
  have hextends := ((leads_linkStep h.valid hw hinner).of_perform hp).1
  obtain ⟨h₁, hw₁, hc₁⟩ := woven_tied h hw hinner hc
  obtain ⟨_, _, htie, hp⟩ := perform_bind_eq_ok.1 hp
  cases htie
  obtain ⟨_, d₁, htie, hp⟩ := perform_bind_eq_ok.1 hp
  obtain rfl : { d with graph := tied d.graph w inner } = d₁ := congrArg Prod.snd htie
  clear htie
  generalize ({ d with graph := tied d.graph w inner } : Draft) = d₁ at *
  rw [perform_get_bind] at hp
  obtain ⟨m, hm, hu, hr⟩ := exists_first hc₁
  have hin := hinner.trans_le hw₁.steps_le
  have hpart := hc₁.partsFit _ List.mem_cons_self
  have hplay := h₁.valid.graph.playAt ((h₁.valid.graph.stepAt hin).plays _ List.mem_cons_self)
  have htype := (h₁.valid.graph.variableAt (hw.trans_le hw₁.vars_le)).objectType
  dsimp only at hp hpart
  generalize (d₁.graph.playAt (d₁.graph.stepAt inner).inputPlay) = first at *
  obtain ⟨f, d₂, hwithin, hp⟩ := perform_bind_eq_ok.1 hp
  obtain ⟨v, hlink, rfl⟩ := perform_within_eq_ok.1 hwithin
  -- The link is in the vocabulary.
  obtain ⟨hv, -⟩ := (Vocabulary.leads_linkFactType h₁.valid.context.consistent htype
    hplay.role).of_perform hlink
  have hadds := ((Vocabulary.leads_linkFactType_adds ..).of_perform hlink).1
  obtain ⟨hlinks, hmirrors, hkind⟩ := (Vocabulary.ends_linkFactType h₁.valid.context.consistent
    h₁.linksMirror _ hplay.role).of_perform hlink
  obtain ⟨own, other, hroles, -, -, hownPlayer, hotherPlayer⟩ := hmirrors.roles
  obtain ⟨h₂, hw₂⟩ := h₁.withVocabulary hv hadds.toAddsImplied hlinks
  -- Its step is added.
  rw [perform_get_bind] at hp
  obtain ⟨s, d₃, hstep, hpure⟩ := perform_bind_eq_ok.1 hp
  rw [perform_addStep] at hstep
  cases hpure
  cases hstep
  dsimp only at hextends ⊢
  rw [hroles] at hextends ⊢
  have hvalid := h₂.valid.withGraph hextends.valid.graph (length_vars_pushStep ..).ge
    (by simp [length_steps_pushStep])
  have hfit : ∀ part ∈ [(w, own), (first.variableId, other)],
      part.2 ∈ (v.factType f).roles ∧
        v.Compatible (d₁.graph.variableAt part.1).objectType (v.playerOf part.2) := by
    rw [hroles]
    rintro part hmem
    rcases List.mem_pair.1 hmem with rfl | rfl
    · exact ⟨List.mem_cons_self, .inl hownPlayer.symm⟩
    · refine ⟨List.mem_cons_of_mem _ List.mem_cons_self, ?_⟩
      rw [hotherPlayer, hadds.playerOf_eq hplay.role, Vocabulary.Compatible,
        hadds.supertypes_eq]
      exact hpart.2
  have hmakes : ∀ (g : JoinGraph) (s : Step), s.factType = f →
      s.reading = (v.factType f).readings.head? →
      g.parts s = [(w, own), (first.variableId, other)] →
      (∀ u, (g.variableAt u).objectType = (d₁.graph.variableAt u).objectType) →
        StepOrigin.Makes g v { d₁.context with vocabulary := v }
          { d₁ with context := { d₁.context with vocabulary := v } }.variableOf? s
            (.link outer c) := by
    rintro g s rfl - hparts hobjectType
    refine ⟨w, m, first.variableId, first.role, own, other, ?_, hm, ?_, hr, ?_, hroles, hparts⟩
    · rw [hw₂.variableOf?_eq, hw₁.variableOf?_eq, houter]
    · rw [hw₂.variableOf?_eq, hu]
    · rw [hobjectType]
      exact hkind
  obtain ⟨h₃, hw₃, -⟩ := h₂.pushStep hvalid (List.cons_ne_nil _ _) hfit hmakes
  exact ⟨h₃, Trans.trans hw₁ (Trans.trans hw₂ hw₃)⟩

/-! ## Clauses -/

/-- Asking for the variable of a mention succeeds if it has one, and changes nothing. -/
lemma perform_variableOf_eq_ok {m : MentionId} {w : VariableId} :
    (variableOf m).perform d = (.ok w, e) ↔ d.variableOf? m = some w ∧ e = d := by
  rw [variableOf, perform_get_bind]
  cases d.variableOf? m with
  | none => simp
  | some u => simp [eq_comm]

mutual

/-- Adding the clauses nested under a slot adds the steps that they make. -/
lemma woven_addSlot : ∀ (s : Slot) {d e : Draft} {os : List StepOrigin} {u : Unit}, d.Woven os →
    s.Below d.context.Fits → (addSlot s).perform d = (.ok u, e) →
    e.Woven (os ++ s.origins) ∧ d.Weaves e
  | ⟨m, []⟩, d, e, os, u, h, _, hp => by
    cases hp
    rw [Slot.origins, nestedOrigins, List.append_nil]
    exact ⟨h, h.valid.weaves⟩
  | ⟨m, c :: cs⟩, d, e, os, u, h, hs, hp => by
    obtain ⟨w, d₁, hvariable, hnested⟩ := perform_bind_eq_ok.1 hp
    have hw := ((leads_variableOf h.valid m).of_perform hvariable).2
    obtain ⟨hm, rfl⟩ := perform_variableOf_eq_ok.1 hvariable
    exact woven_addNested m w (c :: cs) h hm hw hs hnested

/-- Adding the clauses nested in a phrase adds the steps that they make. -/
lemma woven_addPhrase : ∀ (p : Phrase) {d e : Draft} {os : List StepOrigin} {u : Unit},
    d.Woven os → (∀ s ∈ p.slots, s.Below d.context.Fits) →
    (addPhrase p).perform d = (.ok u, e) → e.Woven (os ++ p.origins) ∧ d.Weaves e
  | .word _, d, e, os, u, h, _, hp => by
    cases hp
    rw [Phrase.origins, List.append_nil]
    exact ⟨h, h.valid.weaves⟩
  | .slot s, d, e, os, u, h, hs, hp => woven_addSlot s h (hs s List.mem_cons_self) hp
  | .comparison _ left right, d, e, os, u, h, hs, hp => by
    obtain ⟨_, d₁, hleft, hright⟩ := perform_bind_eq_ok.1 hp
    obtain ⟨h₁, hw₁⟩ := woven_addSlot left h (hs left List.mem_cons_self) hleft
    have hright' : right.Below d₁.context.Fits := fun c hc => hw₁.everywhere_fits h.valid
      (hs right (List.mem_cons_of_mem left List.mem_cons_self) c hc)
    obtain ⟨h₂, hw₂⟩ := woven_addSlot right h₁ hright' hright
    rw [Phrase.origins, ← List.append_assoc]
    exact ⟨h₂, Trans.trans hw₁ hw₂⟩

/-- Adding the clauses nested in phrases adds the steps that they make. -/
lemma woven_addPhrases : ∀ (ps : List Phrase) {d e : Draft} {os : List StepOrigin} {u : Unit},
    d.Woven os → (∀ s ∈ ps.flatMap Phrase.slots, s.Below d.context.Fits) →
    (addPhrases ps).perform d = (.ok u, e) → e.Woven (os ++ phrasesOrigins ps) ∧ d.Weaves e
  | [], d, e, os, u, h, _, hp => by
    cases hp
    rw [phrasesOrigins, List.append_nil]
    exact ⟨h, h.valid.weaves⟩
  | p :: ps, d, e, os, u, h, hs, hp => by
    obtain ⟨_, d₁, hfirst, hrest⟩ := perform_bind_eq_ok.1 hp
    obtain ⟨h₁, hw₁⟩ := woven_addPhrase p h (fun s hm => hs s (List.mem_append_left _ hm)) hfirst
    obtain ⟨h₂, hw₂⟩ := woven_addPhrases ps h₁ (fun s hm c hc => hw₁.everywhere_fits h.valid
      (hs s (List.mem_append_right _ hm) c hc)) hrest
    rw [phrasesOrigins, ← List.append_assoc]
    exact ⟨h₂, Trans.trans hw₁ hw₂⟩

/-- A clause makes the steps of the clauses nested in it, and then its own one. -/
theorem woven_addClause : ∀ (c : Clause) {d e : Draft} {os : List StepOrigin}
    {r : Option StepId}, d.Woven os → c.Everywhere d.context.Fits →
    (addClause c).perform d = (.ok r, e) →
    e.Woven (os ++ c.origins) ∧ d.Weaves e ∧ Yields c r e
  | ⟨phrases, qualifiers, certainty, conjunction, factType, reading, roleSequence, alignment,
      contraction⟩, d, e, os, r, h, hc, hp => by
    obtain ⟨_, d₁, hnested, hown⟩ := perform_bind_eq_ok.1 hp
    obtain ⟨h₁, hw₁⟩ := woven_addPhrases phrases h hc.nested hnested
    obtain ⟨h₂, hw₂, hyields⟩ := woven_addOwnStep h₁ (hw₁.everywhere_fits h.valid hc).here hown
    rw [Clause.origins, ← List.append_assoc]
    exact ⟨h₂, Trans.trans hw₁ hw₂, hyields⟩

/-- Adding the clauses nested under a mention adds the steps that they make, each with its link. -/
lemma woven_addNested (outer : MentionId) (w : VariableId) : ∀ (cs : List Clause) {d e : Draft}
    {os : List StepOrigin} {u : Unit}, d.Woven os → d.variableOf? outer = some w →
    w.index < d.graph.vars.length → (∀ c ∈ cs, c.Everywhere d.context.Fits) →
    (addNested w cs).perform d = (.ok u, e) →
    e.Woven (os ++ nestedOrigins outer cs) ∧ d.Weaves e
  | [], d, e, os, u, h, _, _, _, hp => by
    cases hp
    rw [nestedOrigins, List.append_nil]
    exact ⟨h, h.valid.weaves⟩
  | c :: cs, d, e, os, u, h, houter, hw, hcs, hp => by
    obtain ⟨r, d₁, hfirst, hp⟩ := perform_bind_eq_ok.1 hp
    obtain ⟨h₁, hw₁, hyields⟩ := woven_addClause c h (hcs c List.mem_cons_self) hfirst
    have houter₁ := (hw₁.variableOf?_eq outer).trans houter
    have hlt₁ := hw.trans_le hw₁.vars_le
    have hlink : ∃ d₂, d₂.Woven (os ++ c.origins ++ c.linkOrigins outer) ∧ d₁.Weaves d₂ ∧
        (addNested w cs).perform d₂ = (.ok u, e) := by
      cases r with
      | none =>
        have hunmatched : c.isMatched = false := hyields.isSome_eq.symm
        rw [Clause.linkOrigins, if_neg (by simp [hunmatched]), List.append_nil]
        exact ⟨d₁, h₁, h₁.valid.weaves, hp⟩
      | some inner =>
        have hmatched : c.isMatched = true := hyields.isSome_eq.symm
        obtain ⟨_, d₂, hlink, hrest⟩ := perform_bind_eq_ok.1 hp
        obtain ⟨hinner, hreflects⟩ := hyields.reflects inner rfl
        obtain ⟨h₂, hw₂⟩ := woven_linkStep h₁ houter₁ hlt₁ hinner hreflects hlink
        rw [Clause.linkOrigins, if_pos hmatched]
        exact ⟨d₂, h₂, hw₂, hrest⟩
    obtain ⟨d₂, h₂, hw₂, hrest⟩ := hlink
    have hw₁₂ : d.Weaves d₂ := Trans.trans hw₁ hw₂
    obtain ⟨h₃, hw₃⟩ := woven_addNested outer w cs h₂ ((hw₁₂.variableOf?_eq outer).trans houter)
      (hw.trans_le hw₁₂.vars_le) (fun c' hc' => hw₁₂.everywhere_fits h.valid
        (hcs c' (List.mem_cons_of_mem c hc'))) hrest
    rw [nestedOrigins, ← List.append_assoc, ← List.append_assoc]
    exact ⟨h₃, Trans.trans hw₁₂ hw₃⟩

end

/-! ## Clauses of a query -/

/-- Variables may be asked for. -/
lemma woven_ask (h : d.Woven os) {w : VariableId} (hw : w.index < d.graph.vars.length) {u : Unit}
    (hp : (ask w).perform d = (.ok u, e)) : e.Woven os ∧ d.Weaves e := by
  have hextends := ((leads_ask h.valid hw).of_perform hp).1
  cases hp
  exact ⟨⟨hextends.valid, h.linksMirror, h.playsListed,
    h.steps.imp fun _ _ hs => ⟨hs.makes, hs.partsFit⟩⟩,
    { hextends, (⟨rfl, rfl, rfl⟩ : d.KeepsVariables _) with
      adds := .refl _
      objectType_eq := fun _ => rfl
      plays_le := List.prefix_rfl }⟩

/-- Adding a clause adds the steps that it makes. -/
lemma woven_addTopClause (h : d.Woven os) {c : Clause} (hc : c.Everywhere d.context.Fits) {u : Unit}
    (hp : (addTopClause c).perform d = (.ok u, e)) : e.Woven (os ++ c.origins) ∧ d.Weaves e := by
  obtain ⟨r, d₁, hclause, hrest⟩ := perform_bind_eq_ok.1 hp
  obtain ⟨h₁, hw₁, -⟩ := woven_addClause c h hc hclause
  split at hrest
  · obtain ⟨w, d₂, hvariable, hask⟩ := perform_bind_eq_ok.1 hrest
    have hw := ((leads_variableOf h₁.valid _).of_perform hvariable).2
    obtain ⟨-, rfl⟩ := perform_variableOf_eq_ok.1 hvariable
    obtain ⟨h₂, hw₂⟩ := woven_ask h₁ hw hask
    exact ⟨h₂, Trans.trans hw₁ hw₂⟩
  · cases hrest
    exact ⟨h₁, hw₁⟩

/-- Clauses make their steps one after the other. -/
lemma woven_forM_addTopClause {cs : List Clause} (h : d.Woven os)
    (hcs : ∀ c ∈ cs, c.Everywhere d.context.Fits) {u : Unit}
    (hp : (cs.forM addTopClause).perform d = (.ok u, e)) :
    e.Woven (os ++ cs.flatMap Clause.origins) ∧ d.Weaves e := by
  induction cs generalizing d os with
  | nil =>
    cases hp
    rw [List.flatMap_nil, List.append_nil]
    exact ⟨h, h.valid.weaves⟩
  | cons c cs ih =>
    obtain ⟨_, d₁, hfirst, hrest⟩ := perform_bind_eq_ok.1 hp
    obtain ⟨h₁, hw₁⟩ := woven_addTopClause h (hcs c List.mem_cons_self) hfirst
    obtain ⟨h₂, hw₂⟩ := ih h₁ (fun c' hc' => hw₁.everywhere_fits h.valid
      (hcs c' (List.mem_cons_of_mem c hc'))) hrest
    rw [List.flatMap_cons, ← List.append_assoc]
    exact ⟨h₂, Trans.trans hw₁ hw₂⟩

/-! ## The join graph of clauses -/

variable {x : Context} {clauses : List Clause} {projected : List MentionId} {g : JoinGraph}

/-- Adding what clauses stand for to a new draft: a variable for each binding, then the steps. -/
def assemble (clauses : List Clause) : Build Unit := do
  modify fun d => (allMentions clauses).foldl Draft.addVariable d
  clauses.forM addTopClause

/-- The clauses of a query make the steps of its draft. -/
theorem woven_assemble (hx : x.Valid) (hlinks : x.vocabulary.LinksMirror)
    (hclauses : ∀ c ∈ clauses, c.Everywhere x.Fits) {u : Unit}
    (h : (assemble clauses).perform { context := x } = (.ok u, d)) :
    d.Woven (clauses.flatMap Clause.origins) ∧
      d.context = { x with vocabulary := d.context.vocabulary } := by
  rw [assemble, perform_modify_bind] at h
  have hcontext := context_addVariables { context := x } (allMentions clauses)
  have hvalid : ((allMentions clauses).foldl addVariable { context := x }).Valid :=
    List.foldlRecOn (motive := Valid) _ _ (valid_of_context hx) fun e he m _ =>
      (he.addVariable m).valid
  have hbare : ((allMentions clauses).foldl addVariable { context := x }).Bare :=
    List.foldlRecOn (motive := Bare) _ _ ⟨rfl, rfl, fun _ hw => nomatch hw⟩ fun e he m _ =>
      he.addVariable m
  generalize (allMentions clauses).foldl addVariable { context := x } = d₀ at *
  dsimp only at hcontext
  obtain ⟨hwoven, hweaves⟩ := woven_forM_addTopClause (hbare.woven hvalid (hcontext ▸ hlinks))
    (fun c hc => hcontext ▸ hclauses c hc) h
  rw [List.nil_append] at hwoven
  exact ⟨hwoven, hcontext ▸ hweaves.context_eq⟩

/-- The clauses of a query make the steps of its join graph. -/
theorem woven_build (hx : x.Valid) (hlinks : x.vocabulary.LinksMirror)
    (hclauses : ∀ c ∈ clauses, c.Everywhere x.Fits)
    (h : (build clauses projected).perform { context := x } = (.ok g, d)) :
    d.Woven (clauses.flatMap Clause.origins) ∧
      d.context = { x with vocabulary := d.context.vocabulary } ∧
      ∃ projection, g = { d.graph with projection } := by
  obtain ⟨u, hsteps, hgraph⟩ := build_eq_ok h
  obtain ⟨hwoven, hcontext⟩ := woven_assemble hx hlinks hclauses (u := u) (by
    rw [assemble, perform_modify_bind]
    exact hsteps)
  exact ⟨hwoven, hcontext, hgraph⟩

end Build

/-! ## Mirrors -/

/-- A join graph mirrors clauses. Its variables are those of their mentions, one for each binding
that stands for some of them. Its steps are those of the matched clauses and of their links, and
bring together what these do. Every play is listed by one step and by one variable. -/
structure Draft.Mirrors (d : Draft) (g : JoinGraph) (cs : List Clause) : Prop where
  exists_variable : ∀ m ∈ allMentions cs, ∃ w ∈ g.variableIds, d.variableOf? m = some w
  exists_mention : ∀ w ∈ g.variableIds, ∃ m ∈ allMentions cs, d.variableOf? m = some w
  variableOf?_eq_iff : ∀ m ∈ allMentions cs, ∀ n ∈ allMentions cs,
    d.variableOf? m = d.variableOf? n ↔
      d.context.effectiveBinding? m = d.context.effectiveBinding? n
  length_steps : g.steps.length = (cs ++ nestedClauses cs).countP Clause.isMatched +
    (nestedClauses cs).countP Clause.isMatched
  makes : List.Forall₂ (fun (o : StepOrigin) s =>
    o.Makes g d.context.vocabulary d.context d.variableOf? s) (cs.flatMap Clause.origins) g.steps
  step_mem : ∀ p ∈ g.playIds, (g.playAt p).step ∈ g.stepIds
  count_plays_stepAt : ∀ p ∈ g.playIds, ∀ s ∈ g.stepIds,
    (g.stepAt s).plays.count p = if s = (g.playAt p).step then 1 else 0
  variable_mem : ∀ p ∈ g.playIds, (g.playAt p).variableId ∈ g.variableIds
  count_plays_variableAt : ∀ p ∈ g.playIds, ∀ w ∈ g.variableIds,
    (g.variableAt w).plays.count p = if w = (g.playAt p).variableId then 1 else 0
  inputPlay_ne_outputPlay : ∀ s ∈ g.steps, s.inputPlay ≠ s.outputPlay
  partsFit : ∀ s ∈ g.steps, g.PartsFit d.context.vocabulary s

/-- The join graph of clauses mirrors them. -/
theorem Build.mirrors_build {x : Context} {clauses : List Clause} {projected : List MentionId}
    {g : JoinGraph} {d : Draft} (hx : x.Valid) (hlinks : x.vocabulary.LinksMirror)
    (hclauses : ∀ c ∈ clauses, c.Everywhere x.Fits)
    (hbindings : ∀ m ∈ allMentions clauses, ∃ b ∈ x.effectiveBinding? m, (x.binding? b).isSome)
    (h : (build clauses projected).perform { context := x } = (.ok g, d)) :
    d.Mirrors g clauses ∧ d.context = { x with vocabulary := d.context.vocabulary } ∧
      d.context.vocabulary.LinksMirror := by
  obtain ⟨hvariable, hiff⟩ := variableOf?_of_build h
  have hmention := fun w => exists_mention_of_build (w := w) h
  obtain ⟨hwoven, hcontext, projection, hg⟩ := woven_build hx hlinks hclauses h
  have heffective : ∀ m, d.context.effectiveBinding? m = x.effectiveBinding? m := fun m => by
    rw [hcontext, effectiveBinding?_withVocabulary]
  have hexists : ∀ m ∈ allMentions clauses, ∃ w ∈ g.variableIds, d.variableOf? m = some w := by
    intro m hm
    obtain ⟨b, hb, hlive⟩ := hbindings m hm
    obtain ⟨w, hw, hlt⟩ := hvariable m hm b hb hlive
    exact ⟨w, JoinGraph.mem_variableIds.2 hlt, hw⟩
  refine ⟨⟨hexists, hmention, fun m hm n hn => ?_, ?_, ?_, fun p hp => ?_, ?_, fun p hp => ?_,
    ?_, ?_,
    ?_⟩, hcontext, hwoven.linksMirror⟩
  · obtain ⟨v, -, hv⟩ := hexists m hm
    obtain ⟨w, -, hw⟩ := hexists n hn
    rw [hv, hw, Option.some.injEq, hiff m n v w hv hw, heffective, heffective]
  · rw [hg, ← length_origins]
    exact hwoven.steps.length_eq.symm
  · rw [hg]
    exact hwoven.steps.imp fun _ _ hs => hs.makes
  · rw [hg] at hp ⊢
    exact JoinGraph.mem_stepIds.2 (hwoven.valid.graph.playAt (JoinGraph.mem_playIds.1 hp)).step
  · rw [hg]
    exact fun p hp s hs => hwoven.playsListed.count_plays_stepAt hp hs
  · rw [hg] at hp ⊢
    exact JoinGraph.mem_variableIds.2
      (hwoven.valid.graph.playAt (JoinGraph.mem_playIds.1 hp)).variableId
  · rw [hg]
    exact fun p hp w hw => hwoven.playsListed.count_plays_variableAt hp hw
  · rw [hg]
    exact fun s hs => hwoven.playsListed.inputPlay_ne_outputPlay hs
  · rw [hg]
    intro s hs
    obtain ⟨i, hi, rfl⟩ := List.mem_iff_getElem.1 hs
    exact (hwoven.steps.get (hwoven.steps.length_eq.symm ▸ hi) hi).partsFit

end FactModel
