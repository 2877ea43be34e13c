import FactModel.Proofs.JoinGraph.Flat
import FactModel.Proofs.Matching.Stages
import FactModel.Proofs.Session.JoinGraphs
set_option autoImplicit false

/-!
# Queries in another order

A query whose clauses are joined by `and` is a conjunction, but its clauses are matched one after
the other, and what has been matched may change who shares a binding. Where that opens no cheaper
way to invoke a reading and closes none, and where role names mean the same in any order, the
clauses may be given in any order.

## Main definitions

* `FactModel.Script.joinedByAnd` — clauses joined by `and`.
* `FactModel.Session.QueryRun.IsOrderless` — the order of the clauses of a query does not matter.
* `FactModel.Session.ReportedAlike` — two clauses are reported to have been resolved in the same
  way.
* `FactModel.Session.RefusedReversed` — a query compiles as it is given, but not in reverse.

## Main results

* `FactModel.Session.declare_query_reordered` — such a query compiles in any order, and each clause
  is resolved in the same way.
* `FactModel.Session.exists_refusedReversed` — other queries do not.
-/

namespace FactModel

open Attempt Compile Context Relation

/-- Clauses joined by `and`. -/
def Script.joinedByAnd : List Script.Clause → List Script.Clause
  | [] => []
  | c :: cs => { c with conjunction := none } :: cs.map fun d => { d with conjunction := some .and }

/-- What holds of the phrases of clauses holds of them when they are joined. -/
lemma Script.forall_mem_joinedByAnd {P : List Script.Phrase → Prop} {cs : List Script.Clause} :
    (∀ c ∈ joinedByAnd cs, P c.phrases) ↔ ∀ c ∈ cs, P c.phrases := by
  cases cs with
  | nil => rfl
  | cons c cs => rw [joinedByAnd, List.forall_mem_cons, List.forall_mem_cons, List.forall_mem_map]

/-- Clauses joined by `and` are plain if each of them is. -/
lemma Script.arePlain_joinedByAnd {cs : List Script.Clause} :
    ArePlain (joinedByAnd cs) ↔ ∀ c ∈ cs, c.IsPlain := by
  rw [arePlain_iff]
  simp only [Clause.isPlain_iff]
  exact forall_mem_joinedByAnd

/-- Clauses joined by `and` are flat if each of them is. -/
lemma Script.isFlat_joinedByAnd {cs : List Script.Clause} :
    (∀ c ∈ joinedByAnd cs, c.IsFlat) ↔ ∀ c ∈ cs, c.IsFlat :=
  forall_mem_joinedByAnd (P := fun ps => ∀ p ∈ ps, Phrase.IsFlat p)

/-- How clauses are joined does not matter when they are taken into a context. -/
lemma forall₂_hasTaken_joinedByAnd {x : Context} {cs : List Script.Clause} {es : List Clause} :
    List.Forall₂ x.HasTaken (Script.joinedByAnd cs) es ↔ List.Forall₂ x.HasTaken cs es := by
  have hiff : ∀ (c : Script.Clause) (k : Option Conjunction) (e : Clause),
      x.HasTaken { c with conjunction := k } e ↔ x.HasTaken c e := fun _ _ _ =>
    ⟨fun h => h.of_phrases_eq rfl rfl, fun h => h.of_phrases_eq rfl rfl⟩
  cases cs with
  | nil => rfl
  | cons c cs =>
    simp only [Script.joinedByAnd, List.forall₂_cons_left_iff, List.forall₂_map_left_iff, hiff]

/-- Where the same is invoked, a fact type is in both cases or in neither. -/
lemma SameInvocation.isSome_eq {v w w' : Vocabulary} {f f' : Option FactTypeId}
    {r r' : Option ReadingId}
    (h : SameInvocation v w w' f r f' r') : f'.isSome = f.isSome := by
  cases h <;> rfl

/-- Adding queries does not change what is invoked. -/
lemma SameInvocation.withQueries {v w w' : Vocabulary} {f f' : Option FactTypeId}
    {r r' : Option ReadingId}
    (h : SameInvocation v w w' f r f' r') (queries queries' : Array JoinGraph) :
    SameInvocation v { w with queries } { w' with queries := queries' } f r f' r' := by
  cases h with
  | known h => exact .known h
  | compared h h' hleft hright hnew hnew' =>
    exact .compared ⟨h.mem, h.kind_eq, h.players_eq⟩
      ⟨h'.mem, h'.kind_eq, h'.players_eq⟩ hleft hright hnew
      hnew'

/-! ## Clauses that have been entered -/

/-- A clause among those placed is placed itself. -/
lemma Script.exists_of_mem_placeClauses {k : Nat} {cs : List Script.Clause} :
    ∀ e ∈ placeClauses k cs, ∃ i c, e = Clause.placed i c := by
  induction cs generalizing k with
  | nil => exact fun _ he => nomatch he
  | cons c cs ih =>
    rw [placeClauses]
    exact List.forall_mem_cons.2 ⟨⟨k, c, rfl⟩, ih⟩

/-- Flat clauses of plain words that are entered are fresh. -/
lemma isFresh_of_enter {x y : Context} {cs : List Script.Clause} {es : List Clause} (hx : x.Valid)
    (hplain : Script.ArePlain cs) (hflat : ∀ c ∈ cs, c.IsFlat)
    (h : (enter cs).perform x = (.ok es, y)) :
    ∀ e ∈ es, e.IsFresh := by
  intro e he
  have hadopted := ((leads_enter_isAdopted hx hplain).of_perform h).2 e he
  obtain ⟨heq, -⟩ := perform_enter_eq_ok.1 h
  rw [adoptAll_flat hflat] at heq
  obtain ⟨i, c, rfl⟩ := Script.exists_of_mem_placeClauses e (heq ▸ he)
  exact { hadopted.here with
    isFlat := c.isFlat_placed i
    alignment_eq := rfl
    contraction_eq := rfl }

namespace Context

variable {f g : MentionId → MentionId} {v : Vocabulary} {w x y z : Context} {es ds cs : List Clause}

/-- Entered clauses can be resolved over a vocabulary in which rankings look up the same. -/
lemma Entered.midway (h : y.Entered v es) (hmatches : v.MatchesAs y.vocabulary) : y.Midway v :=
  ⟨h.matchable, h.unmerged, h.valid, h.grows, hmatches⟩

/-- Before any clause has been resolved, mentions that have been exchanged are at the first
stage. -/
lemma SamePlaces.stage (h : SamePlaces f g y z) (hy : y.Entered v es) (hz : z.Midway v) :
    Stage f g v y w (es.flatMap Clause.mentions) [] z where
  midway := hz
  isBound m hm := h.isBound ((hy.isSome_iff m).2 hm)
  exists_isBound n hn := by
    obtain ⟨m, hm, heq⟩ := h.exists_isBound hn
    exact ⟨m, (hy.isSome_iff m).1 hm, heq⟩
  back m hm := h.back ((hy.isSome_iff m).2 hm)
  alike m hm := h.alike ((hy.isSome_iff m).2 hm)

/-- When all clauses have been resolved, mentions are at the same places again. -/
lemma Stage.samePlaces {ms settled : List MentionId} (h : Stage f g v y w ms settled z)
    (hsettled : ∀ m ∈ ms, m ∈ settled) (hbound : ∀ m, (w.mention m).binding.isSome ↔ m ∈ ms) :
    SamePlaces f g w z where
  isBound {m} hm := h.isBound m ((hbound m).1 hm)
  exists_isBound {n} hn := by
    obtain ⟨m, hm, heq⟩ := h.exists_isBound n hn
    exact ⟨m, (hbound m).2 hm, heq⟩
  back {m} hm := h.back m ((hbound m).1 hm)
  alike {m} hm := by
    have hm := (hbound m).1 hm
    have halike := h.alike m hm
    rwa [if_pos (hsettled m hm)] at halike

/-! ## Hanging together in another order -/

/-- It does not matter in which order the clauses are counted. -/
lemma HangTogether.perm (h : x.HangTogether cs) (hperm : ds.Perm cs) : x.HangTogether ds := by
  have hmem : ∀ m, m ∈ ds.flatMap Clause.mentions ↔ m ∈ cs.flatMap Clause.mentions := fun m =>
    (hperm.flatMap_right Clause.mentions).mem_iff
  intro m hm n hn
  refine ReflTransGen.mono (fun k l hkl => ?_) _ _ (h m ((hmem m).1 hm) n ((hmem n).1 hn))
  cases hkl with
  | step hc hmatched hk hl => exact .step (hperm.mem_iff.2 hc) hmatched hk hl
  | binding hk hl heq => exact .binding ((hmem k).2 hk) ((hmem l).2 hl) heq

/-- What hangs together does so at other places. -/
lemma HangTogether.renamed (h : x.HangTogether cs)
    (hds : List.Forall₂ (fun c d => d.mentions = c.mentions.map f ∧ d.isMatched = c.isMatched)
      cs ds)
    (heffective : ∀ m ∈ cs.flatMap Clause.mentions, ∀ n ∈ cs.flatMap Clause.mentions,
      x.effectiveBinding? m = x.effectiveBinding? n →
      z.effectiveBinding? (f m) = z.effectiveBinding? (f n)) :
    z.HangTogether ds := by
  have hmentions : ds.flatMap Clause.mentions = (cs.flatMap Clause.mentions).map f :=
    flatMap_mentions_eq (hds.imp fun _ _ h => h.1)
  have htouch : ∀ {m n}, x.Touch cs m n → z.Touch ds (f m) (f n) := by
    intro m n hmn
    cases hmn with
    | @step c hc hmatched hm hn =>
      obtain ⟨d, hd, hdmentions, hdmatched⟩ := exists_of_forall₂ hds.flip hc
      exact .step hd (hdmatched.trans hmatched) (hdmentions ▸ List.mem_map_of_mem hm)
        (hdmentions ▸ List.mem_map_of_mem hn)
    | binding hm hn heq =>
      exact .binding (hmentions ▸ List.mem_map_of_mem hm) (hmentions ▸ List.mem_map_of_mem hn)
        (heffective m hm n hn heq)
  unfold HangTogether
  rw [hmentions, List.forall_mem_map]
  intro m hm
  rw [List.forall_mem_map]
  exact fun n hn => ReflTransGen.lift f (fun _ _ => htouch) _ _ (h m hm n hn)

/-- Clauses that are resolved alike have their mentions in the same places. -/
lemma ResolvedAlike.mentions_eq {c d : Clause} (h : w.ResolvedAlike f v z c d) :
    d.mentions = c.mentions.map f :=
  h.renames.mentions_eq

/-- Of clauses that are resolved alike both are matched or neither is. -/
lemma ResolvedAlike.isMatched_eq {c d : Clause} (h : w.ResolvedAlike f v z c d) :
    d.isMatched = c.isMatched :=
  h.invocation.isSome_eq

/-- Once loose bindings have been merged, what hangs together does so at the places that are
alike. -/
lemma HangTogether.of_samePlaces (h : w.mergeLoose.HangTogether cs) (hplaces : SamePlaces f g w z)
    (hw : w.Midway v) (hz : z.Midway v) (halike : List.Forall₂ (w.ResolvedAlike f v z) cs ds)
    (hbound : ∀ m ∈ cs.flatMap Clause.mentions, (w.mention m).binding.isSome) :
    z.mergeLoose.HangTogether ds := by
  have hrenames :
    List.Forall₂ (fun c d => d.mentions = c.mentions.map f ∧ d.isMatched = c.isMatched) cs ds :=
    halike.imp fun _ _ h => ⟨h.mentions_eq, h.isMatched_eq⟩
  refine h.renamed hrenames fun m hm n hn => ?_
  exact (hplaces.effectiveBinding?_eq_iff hw.matchable.bound hz.matchable.bound
    hw.valid.consistent.toWellFormed hz.valid.consistent.toWellFormed hw.unmerged hz.unmerged
    hw.matchable.speaks hz.matchable.speaks (hbound m hm) (hbound n hn)).2

/-- A clause that has been resolved in the same way reads the same. -/
lemma ResolvedAlike.describeClause_eq {c d : Clause} (h : w.ResolvedAlike f v z c d) :
    z.describeClause d = w.describeClause c := by
  have hmention : ∀ {p : Phrase} {s : Slot}, p ∈ c.phrases → s ∈ p.slots →
      z.describeMention (f s.mention) = w.describeMention s.mention := fun hp hs =>
    (h.alike _ (List.mem_map_of_mem (List.mem_flatMap.2 ⟨_, hp, hs⟩))).describeMention_eq
  unfold describeClause
  rw [h.renames.phrases_eq, List.map_map]
  refine congrArg Text.unwords (List.map_congr_left fun p hp => ?_)
  cases p with
  | word text => rfl
  | slot s => exact hmention hp List.mem_cons_self
  | comparison operator left right =>
    have hleft := hmention hp (s := left) List.mem_cons_self
    have hright := hmention hp (s := right) (List.mem_cons_of_mem _ List.mem_cons_self)
    simp only [Function.comp_apply, Phrase.renamed, describePhrase, Slot.renamed, hleft, hright]

/-! ## Queries that have been entered -/

/-- The flat clauses of a query have been entered, and are about to be resolved. -/
structure Begins (v : Vocabulary) (es : List Clause) (y : Context) : Prop where
  entered : y.Entered v es
  midway : y.Midway v
  isFresh : ∀ e ∈ es, e.IsFresh
  ready : y.Ready es
  linksMirror : y.vocabulary.LinksMirror
  comparisonsRead : y.vocabulary.ComparisonsRead

/-- Flat clauses stay flat. -/
lemma isFlat_of_resolvesEach (h : ResolvesEach y es ds w) (hes : ∀ e ∈ es, e.IsFlat) :
    ∀ d ∈ ds, d.IsFlat := by
  induction h with
  | nil => exact fun _ hd => absurd hd List.not_mem_nil
  | cons hfirst _ ih =>
    obtain ⟨he, hes⟩ := List.forall_mem_cons.1 hes
    refine List.forall_mem_cons.2 ⟨fun s hs => he s ?_, ih hes⟩
    rwa [hfirst.slots_eq] at hs

namespace Begins

variable (h : y.Begins v es)

include h

/-- The mentions of entered clauses are bound. -/
lemma isBound : ∀ m ∈ es.flatMap Clause.mentions, (y.mention m).binding.isSome := fun m hm =>
  (h.entered.isSome_iff m).2 hm

/-- The clauses are resolved one by one, if none is completed. -/
lemma perform_resolveAll {contraction : Bool} {previous : Option Clause} :
    ((resolveAll contraction previous es).perform y = (.ok ds, w) ∧ ∀ d ∈ ds,
      d.contraction = none) ↔
      ResolvesEach y es ds w :=
  perform_resolveAll_flat fun e he => ⟨(h.isFresh e he).isFlat, (h.isFresh e he).contraction_eq⟩

/-- What holds once the clauses have been resolved. -/
lemma resolved (hresolves : ResolvesEach y es ds w) :
    w.Midway v ∧ ds.map Clause.mentions = es.map Clause.mentions ∧
      ∀ m, (w.mention m).binding.isSome ↔ m ∈ es.flatMap Clause.mentions := by
  obtain ⟨hw, hmentions, hbound, -⟩ := hresolves.midway h.midway h.isFresh h.entered.nodup h.isBound
  exact ⟨hw, hmentions, fun m => (hbound m).trans (h.entered.isSome_iff m)⟩

/-- **What building comes to.** The join graph of a query is built just in case what its clauses
mention hangs together. -/
theorem exists_build (hresolves : ResolvesEach y es ds w) :
    ∃ d, d.context = w.mergeLoose ∧ ∀ g e,
      (Build.build ds []).perform { context := w.mergeLoose } = (.ok g, e) ↔
        w.mergeLoose.HangTogether ds ∧ g = { d.graph with projection := d.asked } ∧ e = d := by
  obtain ⟨hw, hmentions, hbound⟩ := h.resolved hresolves
  have hresolve : (resolveAll false none es).perform y = (.ok ds, w) ∧ _ :=
    h.perform_resolveAll.2 hresolves
  obtain ⟨hvalid, hlinks, hfits⟩ := h.ready.fits_mergeLoose h.linksMirror hresolve.1
  have hseats := hresolves.seats h.midway h.comparisonsRead h.isFresh h.entered.nodup h.isBound
  refine Build.exists_build_eq_ok_iff hvalid hlinks
    (isFlat_of_resolvesEach hresolves fun e he => (h.isFresh e he).isFlat) hfits (fun d hd => ?_)
    fun m hm => ?_
  · have hd := hseats d hd
    refine ⟨fun hmatched m hm => ?_, hd.exists_mention⟩
    have hm := hd.hasSeat hmatched m hm
    unfold HasSeat at hm ⊢
    rwa [mention_mergeLoose, vocabulary_mergeLoose]
  · refine hasIndividual_mergeLoose hw.matchable.bound hw.unmerged hw.matchable.speaks
      ((hbound m).2 ?_)
    rw [List.flatMap_def, ← hmentions, ← List.flatMap_def]
    exact hm

end Begins

/-- What holds once the flat clauses of a query have been entered. -/
lemma begins_of_enter {s : Session} (hs : s.vocabulary.Consistent) (hi : s.vocabulary.Inherits)
    (hlinks : s.vocabulary.LinksMirror) (hreads : s.vocabulary.ComparisonsRead)
    {cs : List Script.Clause}
    (hplain : Script.ArePlain cs) (hflat : ∀ c ∈ cs, c.IsFlat)
    (henter : (enter cs).perform s.context = (.ok es, y)) (h : y.Entered s.vocabulary es) :
    y.Begins s.vocabulary es where
  entered := h
  midway := h.midway (matchesOn_enter henter hi).2.2
  isFresh := isFresh_of_enter (Session.valid_context hs) hplain hflat henter
  ready := ready_of_enter hs hplain henter
  linksMirror := Session.linksMirror_enter hlinks henter
  comparisonsRead := ((evolving_enter cs s.context).of_perform henter).1.comparisonsRead hreads

end Context

/-! ## Reordering -/

/-- Rows of three columns can be put into the order of a rearranged first column. -/
lemma exists_perm_rows {α β γ : Type} {R : α → β → Prop} {S : β → γ → Prop} {as as' : List α}
    {bs : List β}
    {cs : List γ} (hperm : as'.Perm as) (hR : List.Forall₂ R as bs) (hS : List.Forall₂ S bs cs) :
    ∃ bs' cs', bs'.Perm bs ∧ cs'.Perm cs ∧ (as'.zip cs').Perm (as.zip cs) ∧ List.Forall₂ R as' bs' ∧
      List.Forall₂ S bs' cs' := by
  induction hperm generalizing bs cs with
  | nil => exact ⟨bs, cs, .refl _, .refl _, .refl _, hR, hS⟩
  | cons a _ ih =>
    cases hR with
    | cons hab hR =>
    cases hS with
    | cons hbc hS =>
    obtain ⟨bs', cs', hbs, hcs, hrows, hR', hS'⟩ := ih hR hS
    exact ⟨_ :: bs', _ :: cs', hbs.cons _, hcs.cons _, hrows.cons _, .cons hab hR', .cons hbc hS'⟩
  | swap a a' =>
    cases hR with
    | cons hab hR =>
    cases hR with
    | cons hab' hR =>
    cases hS with
    | cons hbc hS =>
    cases hS with
    | cons hbc' hS =>
    exact ⟨_ :: _ :: _, _ :: _ :: _, .swap .., .swap .., .swap .., .cons hab' (.cons hab hR),
      .cons hbc' (.cons hbc hS)⟩
  | trans _ _ ih ih' =>
    obtain ⟨bs', cs', hbs, hcs, hrows, hR', hS'⟩ := ih' hR hS
    obtain ⟨bs'', cs'', hbs', hcs', hrows', hR'', hS''⟩ := ih hR' hS'
    exact ⟨bs'', cs'', hbs'.trans hbs, hcs'.trans hcs, hrows'.trans hrows, hR'', hS''⟩

namespace Session

/-- How the clauses of a query were resolved. -/
def QueryRun.reports {s : Session} {clauses : List Script.Clause} (run : s.QueryRun clauses) :
    List ClauseReport :=
  run.resolved.map run.draft.context.report

/-- The order of the clauses of a query does not matter. What each of them invokes does not depend
on which of the others were matched before. A term that is no object type of the vocabulary is not
declared as a role name by another clause if the mention that has it declares a role name itself;
and a role name that is used as a term is declared for one player. -/
structure QueryRun.IsOrderless {s : Session} {clauses : List Script.Clause}
    (run : s.QueryRun clauses) :
    Prop where
  steady : List.Forall₂ (run.bound.Steady run.matched run.entered) run.entered run.resolved
  namesApart : run.bound.NamesApart s.vocabulary run.entered
  namesSettled : run.bound.NamesSettled run.entered

/-- A clause is reported to have been resolved in the same way over two vocabularies that have grown
from one: it reads the same, it invokes the same, and it costs the same. -/
structure ReportedAlike (v w w' : Vocabulary) (r r' : ClauseReport) : Prop where
  clause_eq : r'.clause = r.clause
  invocation : SameInvocation v w w' r.factType r.reading r'.factType r'.reading
  cost_eq : r'.cost = r.cost
  contraction_eq : r'.contraction = r.contraction

/-- Clauses that have been resolved in the same way are reported so. -/
lemma reportedAlike {f : MentionId → MentionId} {v : Vocabulary} {w z : Context} {d d' : Clause}
    (h : w.ResolvedAlike f v z d d') (hd : d.contraction = none) (hd' : d'.contraction = none)
    (queries queries' : Array JoinGraph) :
    ReportedAlike v { w.vocabulary with queries } { z.vocabulary with queries := queries' }
      (w.mergeLoose.report d) (z.mergeLoose.report d') where
  clause_eq := by
    have hmerged : ∀ (x : Context) (c : Clause),
      x.mergeLoose.describeClause c = x.describeClause c := by
      intro x c
      have hmention : x.mergeLoose.describeMention = x.describeMention := by
        funext m
        unfold describeMention
        rw [mention_mergeLoose]
      unfold describeClause
      refine congrArg Text.unwords (List.map_congr_left fun p _ => ?_)
      cases p <;> simp only [describePhrase, hmention]
    exact (hmerged z d').trans (h.describeClause_eq.trans (hmerged w d).symm)
  invocation := h.invocation.withQueries queries queries'
  cost_eq := by
    simp only [Context.report, h.alignment_eq, Option.map_map, Function.comp_def,
      Alignment.cost_renamed]
  contraction_eq := hd'.trans hd.symm

section Reordered

variable {s : Session} (hs : s.vocabulary.Consistent) (hi : s.vocabulary.Inherits)
  (hlinks : s.vocabulary.LinksMirror) (hreads : s.vocabulary.ComparisonsRead)
  {cs cs' : List Script.Clause}
  (hplain : ∀ c ∈ cs, c.IsPlain) (hflat : ∀ c ∈ cs, c.IsFlat)

include hs hi hlinks hreads hplain hflat

/-- A query of which the order of the clauses does not matter goes through all stages in any
order. -/
lemma QueryRun.exists_reordered (run : s.QueryRun (Script.joinedByAnd cs))
    (hnone : ∀ d ∈ run.resolved, d.contraction = none) (horderless : run.IsOrderless)
    (hperm : cs'.Perm cs) :
    ∃ run' : s.QueryRun (Script.joinedByAnd cs'), (∀ d ∈ run'.resolved, d.contraction = none) ∧
      ∃ ds, ds.length = cs'.length ∧ (cs'.zip ds).Perm (cs.zip run.resolved) ∧
      List.Forall₂ (fun d d' =>
        ReportedAlike s.vocabulary run.after.vocabulary run'.after.vocabulary
          (run.draft.context.report d)
          (run'.draft.context.report d')) ds run'.resolved := by
  obtain ⟨es, y, ds, w, graph, draft, henter, hresolveAll, hbuild⟩ := run
  obtain ⟨hsteady, hapart, hsettled⟩ := horderless
  dsimp only at *
  have hflat₀ := Script.isFlat_joinedByAnd.2 hflat
  have hflat' := Script.isFlat_joinedByAnd.2 fun c hc => hflat c (hperm.mem_iff.1 hc)
  have hplain₀ := Script.arePlain_joinedByAnd.2 hplain
  have hplain' := Script.arePlain_joinedByAnd.2 fun c hc => hplain c (hperm.mem_iff.1 hc)
  -- the clauses as they were entered
  have htaken : List.Forall₂ (adoptAll (Script.joinedByAnd cs) s.context).2.HasTaken
      (Script.joinedByAnd cs) es :=
    (holds_adoptAll hs s.settings.forwardTerms hflat₀
      (Prod.ext (perform_enter_eq_ok.1 henter).1.symm rfl)).2
  obtain ⟨-, -, -, -, -, hentered, -⟩ :=
    exists_enter_reordered hs hflat₀ hflat₀ henter hapart hsettled (.refl _) htaken
  have hbegins := begins_of_enter hs hi hlinks hreads hplain₀ hflat₀ henter hentered
  have hresolves : ResolvesEach y es ds w := hbegins.perform_resolveAll.1 ⟨hresolveAll, hnone⟩
  have hturns := turns [] hresolves hbegins.entered.nodup hbegins.isFresh hbegins.midway
    hbegins.midway.self hbegins.isBound hbegins.entered.isSome_iff fun _ _ => rfl
  have hboth : List.Forall₂ (fun e d =>
      (∃ before x x', Turn s.vocabulary y w es e d before x x') ∧ y.Steady w es e d) es ds :=
    List.forall₂_iff_zip.2 ⟨hturns.length_eq, fun hrow =>
      ⟨(List.forall₂_iff_zip.1 hturns).2 hrow, (List.forall₂_iff_zip.1 hsteady).2 hrow⟩⟩
  -- the same in the other order
  obtain ⟨es₁, ds₁, hesperm, hdsperm, hrows, htaken₁, hboth₁⟩ := exists_perm_rows hperm
    (forall₂_hasTaken_joinedByAnd.1 htaken) hboth
  obtain ⟨es', y', f, g, henter', hentered₁, hentered', hrenames, hplaces⟩ :=
    exists_enter_reordered hs hflat₀ hflat' henter hapart hsettled hesperm
      (forall₂_hasTaken_joinedByAnd.2 htaken₁)
  have hbegins' := begins_of_enter hs hi hlinks hreads hplain' hflat' henter' hentered'
  obtain ⟨ds', z', hresolves', hstage, halike⟩ := Stage.exists_resolvesEach [] hs hi hbegins.midway
    hbegins.isBound hbegins.entered.nodup hesperm (hboth₁.imp fun _ _ h => h.1)
    (hboth₁.imp fun _ _ h => h.2)
    hrenames (fun e he => hbegins.isFresh e (hesperm.subset he)) hbegins'.isFresh
    (hplaces.stage hbegins.entered hbegins'.midway)
  obtain ⟨hw, hmentions, hbound⟩ := hbegins.resolved hresolves
  obtain ⟨hz', -, -⟩ := hbegins'.resolved hresolves'
  have hplaces' : SamePlaces f g w z' := hstage.samePlaces
    (fun m hm => (hesperm.flatMap_right Clause.mentions).mem_iff.2 hm) hbound
  -- what is mentioned hangs together in either order
  obtain ⟨d, hd, hbuilds⟩ := hbegins.exists_build hresolves
  obtain ⟨d', hd', hbuilds'⟩ := hbegins'.exists_build hresolves'
  obtain ⟨htogether, rfl, rfl⟩ := (hbuilds graph draft).1 hbuild
  have htogether' : z'.mergeLoose.HangTogether ds' :=
    (htogether.perm hdsperm).of_samePlaces hplaces' hw hz' halike fun m hm => by
      rw [hbound, List.flatMap_def, ← hmentions, ← List.flatMap_def]
      exact (hdsperm.flatMap_right Clause.mentions).mem_iff.1 hm
  obtain ⟨hresolveAll', hnone'⟩ := hbegins'.perform_resolveAll.2 hresolves'
  refine ⟨⟨es', y', ds', z', _, d', henter', hresolveAll',
    (hbuilds' _ d').2 ⟨htogether', rfl, rfl⟩⟩, hnone',
    ds₁, hboth₁.length_eq.symm.trans htaken₁.length_eq.symm, hrows, ?_⟩
  refine List.forall₂_iff_zip.2 ⟨halike.length_eq, fun {e e'} hrow => ?_⟩
  have he := (List.forall₂_iff_zip.1 halike).2 hrow
  simp only [QueryRun.after, hd, hd', vocabulary_mergeLoose]
  exact reportedAlike he (hnone e (hdsperm.subset (List.of_mem_zip hrow).1))
    (hnone' e' (List.of_mem_zip hrow).2) _ _

end Reordered

/-- **Queries in any order.** After any scripts let a query compile that a script contains: its
clauses have no nested clauses and are joined by `and`, and none of them is completed from the one
before it. If the order does not matter for what the clauses invoke and for what their role names
stand for, the same clauses, joined by `and`, compile in any order, and each of them is resolved in
the same way.

**Proof sketch.** Entering the clauses in another order gives them other mentions, but these are
alike: they have players of the same names, and so the same keys. At any time in the course of the
resolution the mentions of the clauses that have been resolved have the keys that they have in the
end, and the others those with which they were entered. So who shares a binding is told by which
clauses have been resolved; where that does not matter for what a clause invokes, the clause selects
the same reading in either order. In the end the mentions are alike again, and one binding stands
for two of them just in case one does in the other order. So they hang together in both orders, and
the join graph is built. -/
theorem declare_query_reordered (settings : Settings) (scripts : List String) {source : String}
    {ds : List Script.Declaration} (hparse : Script.parse source = .ok ds)
    {cs cs' : List Script.Clause}
    (hquery : .query (Script.joinedByAnd cs) ∈ ds) (hflat : ∀ c ∈ cs, c.IsFlat)
    (run : ((start settings).compileAll scripts).QueryRun (Script.joinedByAnd cs))
    (hnone : ∀ r ∈ run.reports, r.contraction = none) (horderless : run.IsOrderless)
    (hperm : cs'.Perm cs) :
    let s := (start settings).compileAll scripts
    s.declare (.query (Script.joinedByAnd cs)) = (.ok run.outcome, run.after) ∧
    ∃ run' : s.QueryRun (Script.joinedByAnd cs'),
      s.declare (.query (Script.joinedByAnd cs')) = (.ok run'.outcome, run'.after) ∧
      (∀ r' ∈ run'.reports, r'.contraction = none) ∧
      ∃ rows : List (Script.Clause × ClauseReport), rows.Perm (cs.zip run.reports) ∧
      rows.map (·.1) = cs' ∧
        List.Forall₂ (ReportedAlike s.vocabulary run.after.vocabulary run'.after.vocabulary)
          (rows.map (·.2)) run'.reports := by
  intro s
  have hs : s.vocabulary.Consistent := consistent_compileAll (consistent_start settings) scripts
  have hevolves := evolves_compileAll_start settings scripts
  have hplain : Script.ArePlain (Script.joinedByAnd cs) :=
    Script.arePlain_iff.2 (Script.isPlain_of_parse hparse _ hquery)
  obtain ⟨run', hnone', ds, hlength, hrows, halike⟩ := run.exists_reordered hs
    (hevolves.preserves (.empty _) Vocabulary.inherits_of_change)
    (linksMirror_compileAll_start settings scripts)
    (hevolves.comparisonsRead (Vocabulary.comparisonsRead_empty _))
    (Script.arePlain_joinedByAnd.1 hplain)
    hflat (fun d hd => hnone _ (List.mem_map_of_mem hd)) horderless hperm
  refine ⟨declare_query_eq_ok.2 ⟨run, rfl, rfl⟩, run', declare_query_eq_ok.2 ⟨run', rfl, rfl⟩,
    ?_, ?_⟩
  · intro r' hr'
    obtain ⟨d, hd, rfl⟩ := List.mem_map.1 hr'
    exact hnone' d hd
  · refine ⟨cs'.zip (ds.map run.draft.context.report), ?_, ?_, ?_⟩
    · rw [QueryRun.reports, List.zip_map_right, List.zip_map_right]
      exact hrows.map _
    · exact List.map_fst_zip (by rw [List.length_map, hlength])
    · rw [List.map_snd_zip (by rw [List.length_map, hlength]), List.forall₂_map_left_iff,
        QueryRun.reports,
        List.forall₂_map_right_iff]
      exact halike

/-- Big ones keep their adjective, which no reading accounts for, since they are mentioned twice;
the tall one loses its adjective to the reading that it matches. A role name is declared by one
clause and used by others. The clauses may be given in reverse. -/
theorem declare_query_reordered_tall :
    let s := (start {}).compileAll ["entity type A; entity type B; A sees B; tall- A likes B;"]
    let big : Script.Phrase := .mention { term := "A", leading := some "big" }
    let tall : Script.Phrase := .mention { term := "A", leading := some "tall" }
    let x : Script.Phrase := .mention { term := "B", roleName := some (.named "X") }
    let sees : Script.Clause := { phrases := [big, .word "sees", x] }
    let again : Script.Clause := { phrases := [big, .word "sees", .mention { term := "X" }] }
    let likes : Script.Clause := { phrases := [tall, .word "likes", .mention { term := "X" }] }
    let cs := [sees, again, likes]
    Script.parse "big- A sees B (as X) and big- A sees X and tall- A likes X?" =
      .ok [.query (Script.joinedByAnd cs)] ∧
    ∃ run : s.QueryRun (Script.joinedByAnd cs),
      (∀ r ∈ run.reports, r.contraction = none) ∧ run.IsOrderless ∧
      ∃ run' : s.QueryRun (Script.joinedByAnd cs.reverse),
        s.declare (.query (Script.joinedByAnd cs.reverse)) = (.ok run'.outcome, run'.after) ∧
        ∃ rows : List (Script.Clause × ClauseReport),
          rows.Perm (cs.zip run.reports) ∧ rows.map (·.1) = cs.reverse ∧
          List.Forall₂ (ReportedAlike s.vocabulary run.after.vocabulary run'.after.vocabulary)
            (rows.map (·.2)) run'.reports := by
  intro s big tall x sees again likes cs
  have hparse : Script.parse "big- A sees B (as X) and big- A sees X and tall- A likes X?" =
      .ok [.query (Script.joinedByAnd cs)] := by
    rw [Script.parse_ofList]
    rfl
  have hcomputed : (s.declare (.query (Script.joinedByAnd cs))).1.isOk = true ∧
      let r := (enter (Script.joinedByAnd cs)).perform s.context
      let es := r.1.toOption.getD []
      let q := (resolveAll s.settings.contraction none es).perform r.2
      let ds := q.1.toOption.getD []
      (∀ d ∈ ds, d.contraction = none) ∧ (es.flatMap Clause.mentions).Nodup ∧
      es.length = ds.length ∧
        (∀ row ∈ es.zip ds, r.2.KeysStay q.2 es row.1 row.2) ∧
        (∀ m ∈ es.flatMap Clause.mentions, (r.2.mention m).declaredName?.isSome →
          s.vocabulary.Knows (r.2.mention m).term) ∧ r.2.NamesSettled es := by
    unfold s
    rw [compileAll_cons, compile_ofList, compileAll_nil]
    decide +kernel
  obtain ⟨hisOk, hcomputed⟩ := hcomputed
  obtain ⟨_, _, hdeclare⟩ := exists_of_isOk hisOk
  obtain ⟨run, -, -⟩ := declare_query_eq_ok.1 hdeclare
  dsimp only at hcomputed
  rw [← run.entered_eq, ← run.bound_eq, ← run.resolved_eq, ← run.matched_eq] at hcomputed
  obtain ⟨hnone, hnodup, hlength, hkeys, hknows, hsettled⟩ := hcomputed
  have hreports : ∀ r ∈ run.reports, r.contraction = none := List.forall_mem_map.2 hnone
  have horderless : run.IsOrderless := by
    refine ⟨List.forall₂_iff_zip.2 ⟨hlength, fun hrow => ?_⟩, namesApart_of_knows hknows, hsettled⟩
    exact (hkeys _ hrow).steady (List.of_mem_zip hrow).1 hnodup
  have hflat : ∀ c ∈ cs, c.IsFlat := by
    simp [cs, sees, again, likes, big, tall, x, Script.Clause.IsFlat, Script.Phrase.IsFlat]
  obtain ⟨-, run', hdeclare', -, hrows⟩ :=
    declare_query_reordered {} _ hparse (List.mem_singleton_self _)
    hflat run hreports horderless (List.reverse_perm cs)
  exact ⟨hparse, run, hreports, horderless, run', hdeclare', hrows⟩

/-- A text is a query whose clauses have no nested clauses and are joined by `and`. It compiles
without any of them completed, but is refused when the clauses are given in reverse. -/
structure RefusedReversed (s : Session) (text : String) (cs : List Script.Clause) : Prop where
  parse_eq : Script.parse text = .ok [.query (Script.joinedByAnd cs)]
  isFlat : ∀ c ∈ cs, c.IsFlat
  compiles : ∃ query reports t,
    s.declare (.query (Script.joinedByAnd cs)) = (.ok (.query query reports), t) ∧
    ∀ r ∈ reports, r.contraction = none
  refused : ∃ fault, s.declare (.query (Script.joinedByAnd cs.reverse)) = (.error fault, s)

/-- What two queries come to can be computed. -/
lemma refusedReversed_of_toOption {s : Session} {text : String} {cs : List Script.Clause}
    {query : QueryId}
    {reports : List ClauseReport}
    (hparse : Script.parse text = .ok [.query (Script.joinedByAnd cs)])
    (hflat : ∀ c ∈ cs, c.IsFlat)
    (h : (s.declare (.query (Script.joinedByAnd cs))).1.toOption = some (.query query reports))
    (hnone : ∀ r ∈ reports, r.contraction = none)
    (h' : (s.declare (.query (Script.joinedByAnd cs.reverse))).1.toOption = none) :
    s.RefusedReversed text cs :=
  ⟨hparse, hflat, ⟨query, reports, _, declare_eq_of_toOption h, hnone⟩, exists_fault_of_toOption h'⟩

/-- **Where the order matters.** An adjective that no reading accounts for is refused once a match
has taken the adjective from the other mention. A role name cannot be the term of a mention that
declares one itself before it has been declared by another clause. A role name that is declared for
two players stands for the later one. And comparisons that are new are numbered as they come. -/
theorem exists_refusedReversed :
    let s := (start {}).compileAll
      ["entity type A; entity type B; A sees B; A sees A; big- A likes B;"]
    (∃ cs, s.RefusedReversed "big- A sees B and big- A likes B?" cs) ∧
    (∃ cs, s.RefusedReversed "A (as X) sees B and X (as Y) sees B?" cs) ∧
    (∃ cs, s.RefusedReversed "A sees B (as X) and A sees A (as X) and X sees A?" cs) ∧
    ∃ cs reports reports' t t', Script.parse "A < B and A > B?" =
      .ok [.query (Script.joinedByAnd cs)] ∧
      s.declare (.query (Script.joinedByAnd cs)) = (.ok (.query ⟨0⟩ reports), t) ∧
      s.declare (.query (Script.joinedByAnd cs.reverse)) = (.ok (.query ⟨0⟩ reports'), t') ∧
      reports.map (fun r => (r.clause, r.factType)) = [("A < B", some ⟨3⟩), ("A > B", some ⟨4⟩)] ∧
      reports'.map (fun r => (r.clause, r.factType)) =
        [("A > B", some ⟨3⟩), ("A < B", some ⟨4⟩)] := by
  intro s
  let a : Script.Mention := { term := "A" }
  let b : Script.Mention := { term := "B" }
  let x : Script.Mention := { term := "X" }
  let big : Script.Phrase := .mention { a with leading := some "big" }
  let named (m : Script.Mention) (roleName : String) : Script.Phrase :=
    .mention { m with roleName := some (.named roleName) }
  let adjectives : List Script.Clause :=
    [{ phrases := [big, .word "sees", .mention b] },
      { phrases := [big, .word "likes", .mention b] }]
  let declared : List Script.Clause :=
    [{ phrases := [named a "X", .word "sees", .mention b] },
      { phrases := [named x "Y", .word "sees", .mention b] }]
  let twice : List Script.Clause :=
    [{ phrases := [.mention a, .word "sees", named b "X"] },
      { phrases := [.mention a, .word "sees", named a "X"] },
      { phrases := [.mention x, .word "sees", .mention a] }]
  let compared : List Script.Clause :=
    [{ phrases := [.comparison "<" (.mention a) (.mention b)] },
      { phrases := [.comparison ">" (.mention a) (.mention b)] }]
  let outcome (cs : List Script.Clause) : Option Outcome :=
    (s.declare (.query (Script.joinedByAnd cs))).1.toOption
  have hcomputed : outcome adjectives = some (.query ⟨0⟩
        [⟨"big- A sees B", some ⟨0⟩, some ⟨0⟩, 1, none⟩,
          ⟨"A likes B", some ⟨2⟩, some ⟨2⟩, 0, none⟩]) ∧
      outcome adjectives.reverse = none ∧
      outcome declared = some (.query ⟨0⟩
        [⟨"A (as X) sees B", some ⟨0⟩, some ⟨0⟩, 0, none⟩,
          ⟨"X (as Y) sees B", some ⟨0⟩, some ⟨0⟩, 0, none⟩]) ∧
      outcome declared.reverse = none ∧
      outcome twice = some (.query ⟨0⟩
        [⟨"A sees B (as X)", some ⟨0⟩, some ⟨0⟩, 0, none⟩,
          ⟨"A sees A (as X)", some ⟨1⟩, some ⟨1⟩, 0, none⟩,
          ⟨"X sees A", some ⟨1⟩, some ⟨1⟩, 0, none⟩]) ∧
      outcome twice.reverse = none ∧
      outcome compared = some (.query ⟨0⟩
        [⟨"A < B", some ⟨3⟩, some ⟨3⟩, 0, none⟩, ⟨"A > B", some ⟨4⟩, some ⟨4⟩, 0, none⟩]) ∧
      outcome compared.reverse = some (.query ⟨0⟩
        [⟨"A > B", some ⟨3⟩, some ⟨3⟩, 0, none⟩, ⟨"A < B", some ⟨4⟩, some ⟨4⟩, 0, none⟩]) := by
    unfold outcome s
    rw [compileAll_cons, compile_ofList, compileAll_nil]
    decide +kernel
  obtain ⟨hadjectives, hadjectives', hdeclared, hdeclared', htwice, htwice', hcompared,
    hcompared'⟩ :=
    hcomputed
  have hparse : Script.parse "big- A sees B and big- A likes B?" =
        .ok [.query (Script.joinedByAnd adjectives)] ∧
      Script.parse "A (as X) sees B and X (as Y) sees B?" =
        .ok [.query (Script.joinedByAnd declared)] ∧
      Script.parse "A sees B (as X) and A sees A (as X) and X sees A?" =
        .ok [.query (Script.joinedByAnd twice)] ∧
      Script.parse "A < B and A > B?" = .ok [.query (Script.joinedByAnd compared)] := by
    refine ⟨?_, ?_, ?_, ?_⟩ <;> rw [Script.parse_ofList] <;> rfl
  obtain ⟨hreadAdjectives, hreadDeclared, hreadTwice, hreadCompared⟩ := hparse
  refine ⟨⟨adjectives,
    refusedReversed_of_toOption hreadAdjectives ?_ hadjectives (by decide) hadjectives'⟩,
    ⟨declared, refusedReversed_of_toOption hreadDeclared ?_ hdeclared (by decide) hdeclared'⟩,
    ⟨twice, refusedReversed_of_toOption hreadTwice ?_ htwice (by decide) htwice'⟩,
    compared, _, _, _, _, hreadCompared, declare_eq_of_toOption hcompared,
    declare_eq_of_toOption hcompared', rfl, rfl⟩
  all_goals
    simp [adjectives, declared, twice, big, named, a, b, x, Script.Clause.IsFlat,
      Script.Phrase.IsFlat]

end Session

end FactModel
