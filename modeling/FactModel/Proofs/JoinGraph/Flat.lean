import FactModel.Proofs.Context.Partners
import FactModel.Proofs.Context.Reentering
import FactModel.Proofs.JoinGraph.Seating
import FactModel.Proofs.Session.Connectivity
set_option autoImplicit false

/-!
# Join graphs of flat clauses

Each matched flat clause makes one step, which relates the variables of its mentions. If all
mentions have individuals to stand for and seats in their steps, nothing can go wrong but that the
clauses have nothing to do with each other: the join graph is built just in case its mentions hang
together, by the clauses that they are in and by the bindings that stand for them.

## Main definitions

* `FactModel.Context.HasIndividual` — a binding of the player of a mention stands for the mention.
* `FactModel.Context.HangTogether` — all mentions of clauses are connected, by clauses and by
  bindings.

## Main results

* `FactModel.Build.isConnected_iff_hangTogether` — the variables are connected just in case the
  mentions are.
* `FactModel.Build.exists_build_eq_ok_iff` — when the join graph of flat clauses is built.
-/

namespace FactModel

open Attempt Relation

namespace Context

variable {x : Context} {m : MentionId}

/-- A binding of the player of a mention stands for the mention. -/
def HasIndividual (x : Context) (m : MentionId) : Prop :=
  ∃ b B, x.effectiveBinding? m = some b ∧ x.binding? b = some B ∧
    (x.mention m).player = some B.player

/-- Two mentions of clauses touch each other: a step is made of both, or one binding stands for
both. -/
inductive Touch (x : Context) (cs : List Clause) (m n : MentionId) : Prop
  | step {c : Clause} (hc : c ∈ cs) (hmatched : c.isMatched = true) (hm : m ∈ c.mentions)
    (hn : n ∈ c.mentions)
  | binding (hm : m ∈ cs.flatMap Clause.mentions) (hn : n ∈ cs.flatMap Clause.mentions)
    (heq : x.effectiveBinding? m = x.effectiveBinding? n)

/-- All mentions of clauses are connected by mentions that touch each other. -/
def HangTogether (x : Context) (cs : List Clause) : Prop :=
  ∀ m ∈ cs.flatMap Clause.mentions, ∀ n ∈ cs.flatMap Clause.mentions, ReflTransGen (x.Touch cs) m n

/-- Once loose bindings have been merged, a binding of the player of a bound mention stands for
it. -/
lemma hasIndividual_mergeLoose (h : x.Bound) (hx : x.Unmerged) (hspeaks : x.Speaks)
    (hm : (x.mention m).binding.isSome) : x.mergeLoose.HasIndividual m := by
  obtain ⟨b, B, hb, hB, -, hplayer, -, -⟩ := exists_binding h hspeaks hm
  have heffective := effectiveBinding?_mergeLoose h.toTied hx m
  rw [hb, Option.map_some] at heffective
  -- its own binding, or the one that this is merged into
  obtain ⟨C, hC, hplayer'⟩ : ∃ C, x.binding? ((x.mergeTarget? b).getD b) = some C ∧
    C.player = B.player := by
    cases htarget : x.mergeTarget? b with
    | none => exact ⟨B, hB, rfl⟩
    | some c =>
      obtain ⟨B', C, hB', hC, -, hplayer'⟩ := h.toTied.exists_of_mergeTarget? htarget
      rw [hB] at hB'
      cases hB'
      exact ⟨C, hC, hplayer'⟩
  obtain ⟨D, hD, hplayer''⟩ : ∃ D, x.mergeLoose.binding? ((x.mergeTarget? b).getD b) = some D ∧
      D.player = C.player := by
    rw [mergeLoose_eq h.toTied hx, binding?_merged, hC]
    exact ⟨_, rfl, rfl⟩
  refine ⟨_, D, heffective, hD, ?_⟩
  rw [mention_mergeLoose, hplayer, hplayer'', hplayer']

end Context

/-! ## The steps of flat clauses -/

namespace Clause.IsFlat

variable {c : Clause}

/-- A flat clause makes its own step only. -/
lemma origins_eq (h : c.IsFlat) : c.origins = c.ownOrigins := by
  obtain ⟨phrases, qualifiers, certainty, conjunction, factType, reading, roleSequence, alignment,
    contraction⟩ := c
  have hphrases : ∀ ps : List Phrase, (∀ s ∈ ps.flatMap Phrase.slots, s.nested = []) →
      phrasesOrigins ps = [] := by
    intro ps hps
    have hslot : ∀ s : Slot, s.nested = [] → s.origins = [] := fun ⟨_, _⟩ hs => by
      obtain rfl := hs
      rfl
    induction ps with
    | nil => rfl
    | cons p ps ih =>
      rw [List.flatMap_cons, List.forall_mem_append] at hps
      rw [phrasesOrigins, ih hps.2, List.append_nil]
      cases p with
      | word text => rfl
      | slot s => exact hslot s (hps.1 s List.mem_cons_self)
      | comparison operator left right =>
        rw [Phrase.origins, hslot left (hps.1 left List.mem_cons_self),
          hslot right (hps.1 right (List.mem_cons_of_mem _ List.mem_cons_self)), List.append_nil]
  rw [Clause.origins, hphrases phrases h, List.nil_append]

/-- A flat clause adds its own step only. -/
lemma perform_addClause (h : c.IsFlat) (d : Draft) :
    (Build.addClause c).perform d = (Build.addOwnStep c).perform d := by
  obtain ⟨phrases, qualifiers, certainty, conjunction, factType, reading, roleSequence, alignment,
    contraction⟩ := c
  have hphrases : ∀ ps : List Phrase, (∀ s ∈ ps.flatMap Phrase.slots, s.nested = []) →
      (Build.addPhrases ps).perform d = (.ok ⟨⟩, d) := by
    intro ps hps
    have hslot : ∀ s : Slot, s.nested = [] → (Build.addSlot s).perform d = (.ok ⟨⟩, d) :=
      fun ⟨_, _⟩ hs => by
      obtain rfl := hs
      rfl
    induction ps with
    | nil => rfl
    | cons p ps ih =>
      rw [List.flatMap_cons, List.forall_mem_append] at hps
      refine perform_bind_eq_ok.2 ⟨⟨⟩, d, ?_, ih hps.2⟩
      cases p with
      | word text => rfl
      | slot s => exact hslot s (hps.1 s List.mem_cons_self)
      | comparison operator left right =>
        exact perform_bind_eq_ok.2 ⟨⟨⟩, d, hslot left (hps.1 left List.mem_cons_self),
          hslot right (hps.1 right (List.mem_cons_of_mem _ List.mem_cons_self))⟩
  rw [Build.addClause, perform_bind, hphrases phrases h]

end Clause.IsFlat

namespace Draft

variable {d e : Draft} {m : MentionId}

/-- A mention has a variable of its player. -/
def HasVariable (d : Draft) (m : MentionId) : Prop :=
  ∃ w, d.variableOf? m = some w ∧
    (d.context.mention m).player = some (d.graph.variableAt w).objectType

/-- A draft has become another one over the same context: bindings have the variables that they had,
and what was asked for still is. -/
structure Continues (d e : Draft) : Prop where
  context_eq : e.context = d.context
  assigned_eq : e.assigned = d.assigned
  objectType_eq : ∀ w, (e.graph.variableAt w).objectType = (d.graph.variableAt w).objectType
  asked_subset : d.asked ⊆ e.asked

/-- A draft continues itself. -/
lemma Continues.refl (d : Draft) : d.Continues d :=
  ⟨rfl, rfl, fun _ => rfl, List.Subset.refl _⟩

instance : Trans Continues Continues Continues where
  trans h h' := ⟨h'.context_eq.trans h.context_eq, h'.assigned_eq.trans h.assigned_eq,
    fun w => (h'.objectType_eq w).trans (h.objectType_eq w),
    fun _ hw => h'.asked_subset (h.asked_subset hw)⟩

/-- A mention has the variable that it had. -/
lemma Continues.variableOf?_eq (h : d.Continues e) (m : MentionId) :
    e.variableOf? m = d.variableOf? m := by
  rw [variableOf?, h.context_eq, h.assigned_eq, variableOf?]

/-- A mention that has a variable of its player keeps it. -/
lemma Continues.hasVariable (h : d.Continues e) (hm : d.HasVariable m) : e.HasVariable m := by
  obtain ⟨w, hw, hplayer⟩ := hm
  refine ⟨w, (h.variableOf?_eq m).trans hw, ?_⟩
  rw [h.context_eq, hplayer, h.objectType_eq]

/-- The mention of a clause that makes no step is asked for. -/
def Asks (d : Draft) (c : Clause) : Prop :=
  c.isMatched = false → ∀ m ∈ c.mentions, ∃ w ∈ d.asked, d.variableOf? m = some w

/-- What is asked for stays asked for. -/
lemma Continues.asks (h : d.Continues e) {c : Clause} (hc : d.Asks c) : e.Asks c := by
  intro hmatched m hm
  obtain ⟨w, hasked, hw⟩ := hc hmatched m hm
  exact ⟨w, h.asked_subset hasked, (h.variableOf?_eq m).trans hw⟩

/-- Every variable is of the player of its binding. -/
def Faithful (d : Draft) : Prop :=
  ∀ b v B, d.assigned.lookup b = some v → d.context.binding? b = some B →
    (d.graph.variableAt v).objectType = B.player

/-- The variable that is given to a mention is of the player of its binding. -/
lemma Faithful.addVariable (h : d.Faithful) (hnumbered : d.Numbered) (m : MentionId) :
    (d.addVariable m).Faithful := by
  unfold Draft.addVariable
  split
  · exact h
  next b hb =>
  split
  · next B hB hnew =>
    intro c v C hv hC
    change (d.assigned ++ [(b, _)]).lookup c = some v at hv
    change d.context.binding? c = some C at hC
    change ((d.graph.vars ++ [_])[v.index]?.getD default).objectType = C.player
    rw [List.lookup_append, lookup_cons_eq_ite, List.lookup_nil] at hv
    cases hold : d.assigned.lookup c with
    | some u =>
      rw [hold, Option.some_or, Option.some.injEq] at hv
      subst hv
      rw [List.getElem?_append_left (hnumbered.index_lt hold)]
      exact h c u C hold hC
    | none =>
      rw [hold, Option.none_or] at hv
      split at hv
      · next heq =>
        cases hv
        rw [heq, hB] at hC
        cases hC
        rw [List.getElem?_append_right (Nat.le_refl _), Nat.sub_self]
        rfl
      · cases hv
  · exact h

/-- Once variables have been given to mentions that have individuals, each of them has one of its
player. -/
lemma hasVariable_foldl {x : Context} {ms : List MentionId} (h : ∀ m ∈ ms, x.HasIndividual m) :
    ∀ m ∈ ms, (ms.foldl addVariable { context := x }).HasVariable m := by
  intro m hm
  obtain ⟨b, B, hb, hB, hplayer⟩ := h m hm
  obtain ⟨hcontext, -, -, hisSome⟩ := (numbered_of_context x).foldl_addVariable ms
  have hfaithful : (ms.foldl addVariable { context := x }).Faithful ∧
      (ms.foldl addVariable { context := x }).Numbered :=
    List.foldlRecOn (motive := fun d : Draft => d.Faithful ∧ d.Numbered) ms addVariable
      ⟨fun _ _ _ hv => (nomatch hv), numbered_of_context x⟩
      fun _ hd n _ => ⟨hd.1.addVariable hd.2 n, (hd.2.givesVariable n).numbered⟩
  obtain ⟨w, hw⟩ := Option.isSome_iff_exists.1 (hisSome m hm b hb (hB ▸ rfl))
  refine ⟨w, ?_, ?_⟩
  · rw [variableOf?, hcontext]
    exact Option.bind_eq_some_iff.2 ⟨b, hb, hw⟩
  · rw [hcontext, hfaithful.1 b w B hw (hcontext ▸ hB)]
    exact hplayer

end Draft

open Draft

namespace Build

variable {d : Draft} {c : Clause} {cs : List Clause}

/-- A mention that has a variable and a seat plays its part. -/
lemma exists_playOf (c : Clause) {m : MentionId} (hm : d.HasVariable m)
    (hseat : d.context.HasSeat m) :
    ∃ part, (playOf c m).perform d = (.ok part, d) := by
  obtain ⟨w, hw, hplayer⟩ := hm
  obtain ⟨r, t, hr, ht, hcompatible⟩ := hseat
  rw [hplayer, Option.some.injEq] at ht
  subst ht
  refine ⟨(w, r), perform_bind_eq_ok.2 ⟨w, d, perform_variableOf_eq_ok.2 ⟨hw, rfl⟩, ?_⟩⟩
  have hmay : ¬((d.graph.variableAt w).objectType ≠ d.context.vocabulary.playerOf r ∧
      (d.context.vocabulary.commonSupertype? (d.graph.variableAt w).objectType
        (d.context.vocabulary.playerOf r)).isNone = true) := by
    rintro ⟨hne, hnone⟩
    rcases Vocabulary.compatible_iff.1 hcompatible with heq | hsome
    · exact hne heq
    · rw [Option.isNone_iff_eq_none.1 hnone] at hsome
      cases hsome
  rw [perform_get_bind, hr]
  dsimp only
  rw [if_neg hmay]
  rfl

/-- Mentions that have variables and roles can play in a step. -/
lemma exists_mapM_playOf (c : Clause) {ms : List MentionId} (hms : ∀ m ∈ ms, d.HasVariable m)
    (hseats : ∀ m ∈ ms, d.context.HasSeat m) : ∃ parts,
      (ms.mapM (playOf c)).perform d = (.ok parts, d) := by
  induction ms with
  | nil => exact ⟨[], rfl⟩
  | cons m ms ih =>
    obtain ⟨hm, hms⟩ := List.forall_mem_cons.1 hms
    obtain ⟨hseat, hseats⟩ := List.forall_mem_cons.1 hseats
    obtain ⟨part, hpart⟩ := exists_playOf c hm hseat
    obtain ⟨parts, hparts⟩ := ih hms hseats
    refine ⟨part :: parts, ?_⟩
    rw [List.mapM_cons]
    exact perform_bind_eq_ok.2 ⟨part, d, hpart, perform_bind_eq_ok.2 ⟨parts, d, hparts, rfl⟩⟩

/-- **A clause adds its step**, if its mentions have variables and seats; one that is not matched
asks for its variable. -/
theorem exists_addTopClause (hflat : c.IsFlat) (hvariables : ∀ m ∈ c.mentions, d.HasVariable m)
    (hseats : d.context.Seats c) :
    ∃ e, (addTopClause c).perform d = (.ok ⟨⟩, e) ∧ d.Continues e ∧ e.Asks c := by
  cases hmatched : c.factType with
  | none =>
    obtain ⟨m, hm⟩ := hseats.exists_mention (by rw [Clause.isMatched, hmatched]; rfl)
    obtain ⟨w, hw, -⟩ := hvariables m (hm ▸ List.mem_cons_self)
    have hown : (addClause c).perform d = (.ok none, d) := by
      rw [hflat.perform_addClause, addOwnStep, hmatched]
      rfl
    have hasks : (addTopClause c).perform d =
        (.ok ⟨⟩, { d with asked := if w ∈ d.asked then d.asked else d.asked ++ [w] }) := by
      refine perform_bind_eq_ok.2 ⟨none, d, hown, ?_⟩
      rw [hm]
      exact perform_bind_eq_ok.2 ⟨w, d, perform_variableOf_eq_ok.2 ⟨hw, rfl⟩, rfl⟩
    refine ⟨_, hasks, ⟨rfl, rfl, fun _ => rfl, fun u hu => ?_⟩, fun _ n hn => ⟨w, ?_, ?_⟩⟩
    · dsimp only
      split
      · exact hu
      · exact List.mem_append_left _ hu
    · dsimp only
      split
      · next hasked => exact hasked
      · exact List.mem_append_right _ (List.mem_singleton.2 rfl)
    · rw [hm, List.mem_singleton] at hn
      exact hn ▸ hw
  | some f =>
    have hisMatched : c.isMatched = true := by rw [Clause.isMatched, hmatched]; rfl
    obtain ⟨parts, hparts⟩ := exists_mapM_playOf c hvariables (hseats.hasSeat hisMatched)
    have hown : (addClause c).perform d = (.ok (some ⟨d.graph.steps.length⟩),
        { d with graph := pushStep d.graph f c.reading c.certainty parts }) := by
      rw [hflat.perform_addClause, addOwnStep, hmatched]
      exact perform_bind_eq_ok.2 ⟨parts, d, hparts, rfl⟩
    refine ⟨_, perform_bind_eq_ok.2 ⟨_, _, hown, rfl⟩, ⟨rfl, rfl, ?_, List.Subset.refl _⟩,
      fun hnot => ?_⟩
    · exact objectType_variableAt_pushStep d.graph f c.reading c.certainty parts
    · rw [hisMatched] at hnot
      cases hnot

/-- **Clauses add their steps**, if their mentions have variables and seats. -/
theorem exists_forM_addTopClause (hflat : ∀ c ∈ cs, c.IsFlat)
    (hvariables : ∀ m ∈ cs.flatMap Clause.mentions, d.HasVariable m)
    (hseats : ∀ c ∈ cs, d.context.Seats c) :
    ∃ e, (cs.forM addTopClause).perform d = (.ok ⟨⟩, e) ∧ d.Continues e ∧ ∀ c ∈ cs, e.Asks c := by
  induction cs generalizing d with
  | nil => exact ⟨d, rfl, .refl d, fun _ hc => absurd hc List.not_mem_nil⟩
  | cons c cs ih =>
    obtain ⟨hc, hcs⟩ := List.forall_mem_cons.1 hflat
    obtain ⟨hseat, hseats⟩ := List.forall_mem_cons.1 hseats
    rw [List.flatMap_cons] at hvariables
    obtain ⟨d₁, hfirst, hcontinues, hasks⟩ := exists_addTopClause hc
      (fun m hm => hvariables m (List.mem_append_left _ hm)) hseat
    obtain ⟨e, hrest, hcontinues', hasks'⟩ := ih hcs
      (fun m hm => hcontinues.hasVariable (hvariables m (List.mem_append_right _ hm)))
      (fun c hc => hcontinues.context_eq ▸ hseats c hc)
    exact ⟨e, perform_bind_eq_ok.2 ⟨⟨⟩, d₁, hfirst, hrest⟩, Trans.trans hcontinues hcontinues',
      List.forall_mem_cons.2 ⟨hcontinues'.asks hasks, hasks'⟩⟩

end Build

/-! ## Connected mentions -/

namespace Draft.Woven

open JoinGraph

variable {d : Draft} {cs : List Clause} (h : d.Woven (cs.flatMap Clause.origins))
    (hflat : ∀ c ∈ cs, c.IsFlat)

include h hflat

/-- The steps are made by the matched clauses. -/
lemma steps_flat :
    (∀ s ∈ d.graph.stepIds, ∃ c ∈ cs, c.isMatched = true ∧
      d.Reflects (.clause c) (d.graph.stepAt s)) ∧
      ∀ c ∈ cs, c.isMatched = true → ∃ s ∈ d.graph.stepIds,
        d.Reflects (.clause c) (d.graph.stepAt s) := by
  have horigins : ∀ o, o ∈ cs.flatMap Clause.origins ↔ ∃ c ∈ cs, c.isMatched = true ∧
    o = .clause c := by
    intro o
    rw [List.mem_flatMap]
    refine exists_congr fun c => and_congr_right fun hc => ?_
    rw [(hflat c hc).origins_eq, Clause.ownOrigins]
    split
    · next hmatched => simp [hmatched]
    · next hmatched => simp [hmatched]
  have hat : ∀ i (hi : i < d.graph.steps.length), d.graph.stepAt ⟨i⟩ = d.graph.steps[i] :=
    fun i hi => by
    rw [stepAt, List.getElem?_eq_getElem hi]
    rfl
  have hlength := h.steps.length_eq
  constructor
  · rintro ⟨i⟩ hs
    have hi : i < d.graph.steps.length := mem_stepIds.1 hs
    obtain ⟨c, hc, hmatched, heq⟩ := (horigins _).1 (List.getElem_mem (hlength ▸ hi))
    have hreflects := h.steps.get (hlength ▸ hi) hi
    rw [List.get_eq_getElem, heq, List.get_eq_getElem] at hreflects
    exact ⟨c, hc, hmatched, hat i hi ▸ hreflects⟩
  · intro c hc hmatched
    obtain ⟨i, hi, heq⟩ := List.mem_iff_getElem.1 ((horigins _).2 ⟨c, hc, hmatched, rfl⟩)
    have hi' : i < d.graph.steps.length := hlength ▸ hi
    have hreflects := h.steps.get hi hi'
    rw [List.get_eq_getElem, heq, List.get_eq_getElem] at hreflects
    exact ⟨⟨i⟩, mem_stepIds.2 hi', hat i hi' ▸ hreflects⟩

/-- Two variables are related just in case a matched clause has mentions of both. -/
theorem related_iff {v w : VariableId} : d.graph.Related v w ↔
    ∃ c ∈ cs, c.isMatched = true ∧ (∃ m ∈ c.mentions, d.variableOf? m = some v) ∧
      ∃ n ∈ c.mentions, d.variableOf? n = some w := by
  obtain ⟨hof, hfor⟩ := h.steps_flat hflat
  -- the variables of a step are those of the mentions of its clause
  have hmem : ∀ {c : Clause} {s : StepId}, d.Reflects (.clause c) (d.graph.stepAt s) →
      ∀ u, u ∈ d.graph.stepVariables s ↔ ∃ m ∈ c.mentions, d.variableOf? m = some u := by
    intro c s hreflects u
    obtain ⟨-, -, hparts⟩ := hreflects.makes
    have hvariables : d.graph.stepVariables s = (d.graph.parts (d.graph.stepAt s)).map (·.1) := by
      rw [stepVariables, parts, List.map_map]
      rfl
    have hmaps : (doubled c.mentions).map d.variableOf? = (d.graph.stepVariables s).map some := by
      rw [hvariables, List.map_map, ← List.forall₂_eq_eq_eq, List.forall₂_map_left_iff,
        List.forall₂_map_right_iff]
      exact hparts.imp fun m part hm => hm.1
    have hsome : some u ∈ (d.graph.stepVariables s).map some ↔ u ∈ d.graph.stepVariables s :=
      List.mem_map_of_injective (Option.some_injective _)
    rw [← hsome, ← hmaps, List.mem_map]
    simp only [mem_doubled]
  constructor
  · rintro ⟨s, hs, hv, hw⟩
    obtain ⟨c, hc, hmatched, hreflects⟩ := hof s hs
    exact ⟨c, hc, hmatched, (hmem hreflects v).1 hv, (hmem hreflects w).1 hw⟩
  · rintro ⟨c, hc, hmatched, hv, hw⟩
    obtain ⟨s, hs, hreflects⟩ := hfor c hc hmatched
    exact ⟨s, hs, (hmem hreflects v).2 hv, (hmem hreflects w).2 hw⟩

end Draft.Woven

namespace Build

open JoinGraph Context

variable {x : Context} {d : Draft} {cs : List Clause} {u : Unit}

section Added

variable (h : (cs.forM addTopClause).perform
    ((allMentions cs).foldl addVariable { context := x }) = (.ok u, d))
  (hwoven : d.Woven (cs.flatMap Clause.origins)) (hflat : ∀ c ∈ cs, c.IsFlat)
  (hvariables : ∀ m ∈ cs.flatMap Clause.mentions, d.HasVariable m)

include h hwoven hflat hvariables

/-- **What is connected.** The variables of flat clauses are connected just in case their mentions
hang together.

**Proof sketch.** A step relates the variables of the mentions of its clause. Two mentions have one
variable if one binding stands for both. -/
theorem isConnected_iff_hangTogether : d.IsConnected ↔ x.HangTogether cs := by
  have hall := allMentions_of_flat hflat
  obtain ⟨-, hiff⟩ := variableOf?_of_forM h
  have hexists : ∀ w ∈ d.graph.variableIds, ∃ m ∈ cs.flatMap Clause.mentions,
    d.variableOf? m = some w :=
    fun w hw => hall ▸ exists_mention_of_forM h hw
  have hmem : ∀ {c : Clause} {m : MentionId}, c ∈ cs → m ∈ c.mentions →
    m ∈ cs.flatMap Clause.mentions :=
    fun hc hm => List.mem_flatMap.2 ⟨_, hc, hm⟩
  have hsame : ∀ {m n : MentionId} {w : VariableId}, m ∈ cs.flatMap Clause.mentions →
      n ∈ cs.flatMap Clause.mentions → d.variableOf? m = some w → d.variableOf? n = some w →
        x.Touch cs m n :=
    fun {m n w} hm hn hmw hnw => .binding hm hn ((hiff m n w w hmw hnw).1 rfl)
  have hlive : ∀ {m : MentionId} {w : VariableId}, d.variableOf? m = some w →
    w ∈ d.graph.variableIds := by
    intro m w hw
    obtain ⟨b, -, hb⟩ := Option.bind_eq_some_iff.1 hw
    exact mem_variableIds.2 (hwoven.valid.assigned _ (mem_of_lookup hb))
  constructor
  · intro hconnected m hm n hn
    obtain ⟨v, hv, -⟩ := hvariables m hm
    obtain ⟨w, hw, -⟩ := hvariables n hn
    have hvw := hconnected v (hlive hv) w (hlive hw)
    clear hconnected
    induction hvw using ReflTransGen.head_induction_on generalizing m with
    | refl => exact .single (hsame hm hn hv hw)
    | head hrelated _ ih =>
      obtain ⟨c, hc, hmatched, ⟨k, hk, hkv⟩, ⟨l, hl, hlu⟩⟩ := (hwoven.related_iff hflat).1 hrelated
      exact .head (hsame hm (hmem hc hk) hv hkv)
        (.head (.step hc hmatched hk hl) (ih l (hmem hc hl) hlu))
  · intro htogether v hv w hw
    obtain ⟨m, hm, hmv⟩ := hexists v hv
    obtain ⟨n, hn, hnw⟩ := hexists w hw
    have htouch := htogether m hm n hn
    clear htogether hv
    induction htouch using ReflTransGen.head_induction_on generalizing v with
    | refl =>
      rw [hmv] at hnw
      cases hnw
      exact .refl
    | @head m k htouch _ ih =>
      cases htouch with
      | step hc hmatched hm hk =>
        obtain ⟨u, hu, -⟩ := hvariables k (hmem hc hk)
        have hrelated := (hwoven.related_iff hflat).2 ⟨_, hc, hmatched, ⟨m, hm, hmv⟩, ⟨k, hk, hu⟩⟩
        exact .head hrelated (ih u (hmem hc hk) hu)
      | binding hm hk heq =>
        obtain ⟨u, hu, -⟩ := hvariables k hk
        obtain rfl := (hiff m k v u hmv hu).2 heq
        exact ih v hk hu

omit hvariables in
/-- Every variable is used: it is of a mention that a step is made of, or it is asked for. -/
lemma isUsed_flat (hasks : ∀ c ∈ cs, d.Asks c) : d.IsUsed := by
  intro v hv
  obtain ⟨m, hm, hmv⟩ := exists_mention_of_forM h hv
  rw [allMentions_of_flat hflat] at hm
  obtain ⟨c, hc, hmc⟩ := List.mem_flatMap.1 hm
  cases hmatched : c.isMatched with
  | false =>
    obtain ⟨w, hw, hmw⟩ := hasks c hc hmatched m hmc
    rw [hmv] at hmw
    cases hmw
    exact .inr hw
  | true =>
    refine .inl fun hnone => ?_
    obtain ⟨s, hs, hvs, -⟩ :=
      (hwoven.related_iff hflat).2 ⟨c, hc, hmatched, ⟨m, hmc, hmv⟩, ⟨m, hmc, hmv⟩⟩
    have hsteps := (hwoven.isSound.mem_stepsOf hv).2 ⟨hs, hvs⟩
    rw [stepsOf, hnone] at hsteps
    cases hsteps

end Added

/-- **When flat clauses make a join graph.** Let the mentions of flat clauses have individuals and
seats. Their join graph is built just in case they hang together, and nothing else becomes of the
context.

**Proof sketch.** Every mention gets a variable of its player, which may have its role, so that
every clause adds its step. Then all variables are used, and they are connected just in case the
mentions hang together. -/
theorem exists_build_eq_ok_iff (hx : x.Valid) (hlinks : x.vocabulary.LinksMirror)
    (hflat : ∀ c ∈ cs, c.IsFlat)
    (hfits : ∀ c ∈ cs, c.Everywhere x.Fits) (hseats : ∀ c ∈ cs, x.Seats c)
    (hindividuals : ∀ m ∈ cs.flatMap Clause.mentions, x.HasIndividual m) :
    ∃ d, d.context = x ∧ ∀ g e, (build cs []).perform { context := x } = (.ok g, e) ↔
      x.HangTogether cs ∧ g = { d.graph with projection := d.asked } ∧ e = d := by
  have hall := allMentions_of_flat hflat
  have hvariables := hasVariable_foldl (hall ▸ hindividuals)
  have hcontext := context_addVariables { context := x } (allMentions cs)
  obtain ⟨d, hforM, hcontinues, hasks⟩ := exists_forM_addTopClause
    (d := (allMentions cs).foldl addVariable { context := x }) hflat
    (fun m hm => hvariables m (hall ▸ hm)) fun c hc => by
      rw [hcontext]
      exact hseats c hc
  obtain ⟨hwoven, -⟩ := woven_assemble hx hlinks hfits (u := ⟨⟩) (by
    rw [assemble, perform_modify_bind]
    exact hforM)
  have hconnected := isConnected_iff_hangTogether hforM hwoven hflat fun m hm =>
    hcontinues.hasVariable (hvariables m (hall ▸ hm))
  have hvalid : d.validate = .ok () ↔ x.HangTogether cs := by
    rw [validate_eq_ok_iff hwoven.isSound, hconnected]
    exact and_iff_right (isUsed_flat hforM hwoven hflat hasks)
  have hbuild : (build cs []).perform { context := x } = (do
      MonadExcept.ofExcept d.validate
      pure { d.graph with projection := d.asked } : Build JoinGraph).perform d := by
    rw [build, perform_modify_bind, perform_bind, hforM]
    rfl
  refine ⟨d, hcontinues.context_eq.trans hcontext, fun g e => ?_⟩
  rw [hbuild, ← hvalid]
  constructor
  · intro h
    obtain ⟨_, d', hvalidate, hpure⟩ := perform_bind_eq_ok.1 h
    obtain ⟨hok, rfl⟩ := perform_ofExcept_eq_ok.1 hvalidate
    cases hpure
    exact ⟨hok, rfl, rfl⟩
  · rintro ⟨hok, rfl, rfl⟩
    exact perform_bind_eq_ok.2 ⟨⟨⟩, _, perform_ofExcept_eq_ok.2 ⟨hok, rfl⟩, rfl⟩

end Build

end FactModel
