import FactModel.Proofs.Matching.Implied
import FactModel.Proofs.Session
import FactModel.Proofs.Session.Evolution
import FactModel.Proofs.Session.Runs
set_option autoImplicit false

/-!
# Queries leave the model alone

A query adds links and comparisons to the vocabulary, and its join graph. Unless terms may be used
before they are declared, nothing else comes of it, and no clause is ranked differently after it.

## Main definitions

* `FactModel.Compile.IsOblivious` — a change that does not depend on links and comparisons.

## Main results

* `FactModel.Session.rankReadings_eq_of_addsImplied` — links and comparisons change no ranking.
* `FactModel.Session.declare_query_frame` — what a query adds, and that rankings stay.
-/

namespace FactModel

open Attempt Compile Context

/-! ## Entering clauses -/

/-- Taking in clauses does not change which terms may be used before their declaration. -/
lemma Context.Adopts.forwardTerms_eq {x y : Context} (h : x.Adopts y) :
    y.forwardTerms = x.forwardTerms := by
  induction h with
  | refl => rfl
  | pushMention _ _ ih => exact ih

namespace Compile

/-- A change that does the same over a vocabulary in which names name the same, and that changes
neither the vocabulary nor the terms that may be used before their declaration, of which there are
none. -/
def IsOblivious {α : Type} (change : Compile α) : Prop :=
  ∀ {x : Context} {w : Vocabulary}, x.forwardTerms = [] →
    (∀ name, w.findObjectType? name = x.vocabulary.findObjectType? name) →
    (∀ t, w.nameOf t = x.vocabulary.nameOf t) →
    ∃ result y, change.perform x = (result, y) ∧ y.forwardTerms = [] ∧
      y.vocabulary = x.vocabulary ∧ change.perform (x.onto w) = (result, y.onto w)

/-- Changes in sequence are oblivious if each of them is. -/
theorem composes_isOblivious : Composes IsOblivious where
  pure a x w hterms _ _ := ⟨.ok a, x, rfl, hterms, rfl, rfl⟩
  throw fault x w hterms _ _ := ⟨.error fault, x, rfl, hterms, rfl, rfl⟩
  bind {_ _ change next} hchange hnext x w hterms hfind hname := by
    obtain ⟨result, y, hx, hterms', hvocabulary, hover⟩ := hchange hterms hfind hname
    rw [perform_bind, perform_bind, hx, hover]
    cases result with
    | error fault => exact ⟨.error fault, y, rfl, hterms', hvocabulary, rfl⟩
    | ok a =>
      obtain ⟨result, z, hy, hterms'', hvocabulary', hover'⟩ := hnext a hterms'
        (fun name => by rw [hvocabulary, hfind]) (fun t => by rw [hvocabulary, hname])
      exact ⟨result, z, hy, hterms'', hvocabulary'.trans hvocabulary, hover'⟩
  get {_ next} hsame h x w hterms hfind hname := by
    rw [perform_get_bind, perform_get_bind]
    have hsame' : next (x.onto w) = next x := hsame x w
    rw [hsame']
    exact h x hterms hfind hname

/-- Finding the object type of a term does the same over a vocabulary in which names name the
same. -/
lemma isOblivious_resolvePlayer (term : String) : IsOblivious (resolvePlayer term) := by
  intro x w hterms hfind _
  have hlookup : (x.onto w).roleNamePlayers = x.roleNamePlayers := rfl
  have hterms' : (x.onto w).forwardTerms = x.forwardTerms := rfl
  have hfind' : (x.onto w).vocabulary.findObjectType? term = x.vocabulary.findObjectType? term :=
    hfind term
  unfold resolvePlayer
  rw [perform_get_bind, perform_get_bind, hfind', hlookup, hterms', hterms]
  cases x.vocabulary.findObjectType? term with
  | some t => exact ⟨_, x, rfl, hterms, rfl, rfl⟩
  | none =>
    cases x.roleNamePlayers.lookup term with
    | some t => exact ⟨_, x, rfl, hterms, rfl, rfl⟩
    | none => exact ⟨_, x, rfl, hterms, rfl, rfl⟩

/-- Finding the player of a mention that declares a role name does the same over it. -/
lemma isOblivious_identifyDeclaring (m : MentionId) (roleName : String) :
    IsOblivious (identifyDeclaring m roleName) := by
  intro x w hterms hfind hname
  obtain ⟨result, y, hx, hterms', hvocabulary, hover⟩ :=
    isOblivious_resolvePlayer (x.mention m).term hterms hfind hname
  have hmention : (x.onto w).mention m = x.mention m := rfl
  unfold identifyDeclaring
  rw [perform_get_bind, perform_get_bind, hmention]
  dsimp only
  split
  · exact ⟨_, x, rfl, hterms, rfl, rfl⟩
  · rw [perform_bind, perform_bind, hx, hover]
    cases result with
    | error fault => exact ⟨_, y, rfl, hterms', hvocabulary, rfl⟩
    | ok player => exact ⟨_, _, rfl, hterms', hvocabulary, rfl⟩

/-- Finding the player of another mention does the same over it. -/
lemma isOblivious_identifyPlain (m : MentionId) : IsOblivious (identifyPlain m) := by
  intro x w hterms hfind hname
  obtain ⟨result, y, hx, hterms', hvocabulary, hover⟩ :=
    isOblivious_resolvePlayer (x.mention m).term hterms hfind hname
  have hmention : (x.onto w).mention m = x.mention m := rfl
  unfold identifyPlain
  rw [perform_get_bind, perform_get_bind, hmention, perform_bind, perform_bind, hx, hover]
  cases result with
  | error fault => exact ⟨_, y, rfl, hterms', hvocabulary, rfl⟩
  | ok player => exact ⟨_, _, rfl, hterms', hvocabulary, rfl⟩

/-- Binding a mention does the same over it. -/
lemma isOblivious_bind (m : MentionId) : IsOblivious (Compile.bind m) := by
  intro x w hterms _ hname
  have hmention : (x.onto w).mention m = x.mention m := rfl
  have hplayer : ∀ y : Context, (playerOf m).perform y = (y.playerOf m, y) := by
    intro y
    rw [playerOf, perform_get_bind]
    cases y.playerOf m <;> rfl
  unfold Compile.bind
  rw [perform_bind, perform_bind, hplayer, hplayer,
    show (x.onto w).playerOf m = x.playerOf m from rfl]
  cases x.playerOf m with
  | error fault => exact ⟨_, x, rfl, hterms, rfl, rfl⟩
  | ok player =>
    have hbind : (x.onto w).bindAs m player =
        ((x.bindAs m player).1, (x.bindAs m player).2.onto w) := bindAs_over fun t _ => hname t
    refine ⟨.ok (x.bindAs m player).1, (x.bindAs m player).2, rfl, ?_, vocabulary_bindAs .., ?_⟩
    · unfold bindAs
      split <;> exact hterms
    · exact congrArg (fun r => (Except.ok r.1, r.2)) hbind

/-- Entering clauses does the same over a vocabulary in which names name the same. -/
theorem isOblivious_enter (clauses : List Script.Clause) : IsOblivious (enter clauses) := by
  intro x w hterms hfind hname
  have hadopt := adopts_adoptAll clauses x
  let rest : List Clause → Compile (List Clause) := fun cs => do
    identifyPlayers cs
    bindClauses cs
    pure cs
  have henter : ∀ z : Context, (enter clauses).perform z =
      (rest (adoptAll clauses z).1).perform (adoptAll clauses z).2 := fun _ => rfl
  have hrest : ∀ cs, IsOblivious (rest cs) := fun cs =>
    composes_isOblivious.bind (composes_isOblivious.identifyPlayers isOblivious_identifyDeclaring
      isOblivious_identifyPlain cs) fun _ =>
        composes_isOblivious.bind (composes_isOblivious.bindClauses isOblivious_bind cs) fun _ =>
          composes_isOblivious.pure cs
  rw [henter, henter, adoptsOver_adoptAll clauses x w]
  have hvocabulary := hadopt.vocabulary_eq
  obtain ⟨result, y, hperform, hterms', hvocabulary', hover⟩ := hrest (adoptAll clauses x).1
    (x := (adoptAll clauses x).2) (w := w) (hadopt.forwardTerms_eq.trans hterms)
    (by simpa only [hvocabulary] using hfind)
    (by simpa only [hvocabulary] using hname)
  exact ⟨result, y, hperform, hterms', hvocabulary'.trans hvocabulary, hover⟩

end Compile

/-! ## Rankings -/

namespace Session

variable {s t : Session}

/-- Clauses rank the same over a vocabulary with further implied fact types. -/
lemma rankClauses_eq_of_addsImplied (hs : s.vocabulary.WellFormed)
    (hterms : s.settings.forwardTerms = []) (hsettings : t.settings = s.settings)
    (h : s.vocabulary.AddsImplied t.vocabulary) (clauses : List Script.Clause) :
    t.rankClauses clauses = s.rankClauses clauses := by
  obtain ⟨result, y, hperform, -, hvocabulary, hover⟩ := isOblivious_enter clauses
    (x := s.context) (w := t.vocabulary) hterms h.findObjectType?_eq h.nameOf_eq
  have hcontext : t.context = s.context.onto t.vocabulary := by
    rw [context, hsettings]
    rfl
  have hy : y.vocabulary = s.vocabulary := hvocabulary
  rw [← hy] at hs h
  unfold rankClauses
  rw [hcontext, hperform, hover]
  cases result with
  | error fault => rfl
  | ok cs =>
    cases cs with
    | nil => rfl
    | cons c cs =>
      dsimp only
      rw [rank_onto (h.matchesAs hs) hs]
      congr 1
      refine List.map_congr_left fun a ha => ?_
      obtain ⟨hreading, -⟩ := mem_rank.1 ha
      obtain ⟨-, f, hf⟩ := mem_triedReadings hreading
      exact congrArg (·, a.cost) (h.expandReading_eq hs (hs.mem_readings.1 hf).1)

/-- Links and comparisons change no ranking. -/
theorem rankReadings_eq_of_addsImplied (hs : s.vocabulary.WellFormed)
    (hterms : s.settings.forwardTerms = []) (hsettings : t.settings = s.settings)
    (h : s.vocabulary.AddsImplied t.vocabulary) (text : String) :
    t.rankReadings text = s.rankReadings text := by
  have hranks : t.rankClauses = s.rankClauses :=
    funext (rankClauses_eq_of_addsImplied hs hterms hsettings h)
  rw [rankReadings, hranks, rankReadings]

/-! ## Queries -/

/-- A declaration does not change the settings. -/
lemma settings_declare (s : Session) (d : Script.Declaration) :
    (s.declare d).2.settings = s.settings := by
  unfold declare
  split <;> rfl

/-- Scripts do not change the settings. -/
lemma settings_compileAll (s : Session) (scripts : List String) :
    (s.compileAll scripts).settings = s.settings :=
  compileAll_induction (P := fun t => t.settings = s.settings)
    (fun t d ht _ => (t.settings_declare d).trans ht) rfl scripts

/-- Before its join graph is added, a query adds only links and comparisons. -/
lemma QueryRun.addsOnlyImplied {clauses : List Script.Clause} (run : s.QueryRun clauses)
    (hterms : s.settings.forwardTerms = []) :
    s.vocabulary.AddsOnlyImplied run.draft.context.vocabulary := by
  obtain ⟨result, y, hperform, -, hvocabulary, -⟩ := isOblivious_enter clauses
    (x := s.context) (w := s.vocabulary) hterms (fun _ => rfl) fun _ => rfl
  obtain rfl : run.bound = y := by
    rw [run.bound_eq, hperform]
  have hbound : run.bound.vocabulary = s.vocabulary := hvocabulary
  have hmatched : run.bound.vocabulary.AddsOnlyImplied run.matched.vocabulary :=
    ((leads_resolveAll_through Vocabulary.AddsOnlyImplied.refl
      Vocabulary.leads_comparisonFactType_adds s.settings.contraction none run.entered
      run.bound).of_perform run.resolveAll_eq).1
  have hbuild : (buildQuery run.resolved []).perform run.matched.mergeLoose =
      (.ok run.graph, run.draft.context) := by
    rw [perform_buildQuery, run.build_eq]
  have hbuilt : run.matched.mergeLoose.vocabulary.AddsOnlyImplied run.draft.context.vocabulary :=
    ((leads_buildQuery_through Vocabulary.AddsOnlyImplied.refl
      Vocabulary.leads_linkFactType_adds run.resolved [] run.matched.mergeLoose).of_perform
      hbuild).1
  rw [vocabulary_mergeLoose] at hbuilt
  rw [hbound] at hmatched
  exact Trans.trans hmatched hbuilt

/-- A query that is accepted adds itself and implied fact types, and all texts rank as before. -/
lemma addsImplied_of_declare_query (hs : s.vocabulary.WellFormed)
    (hterms : s.settings.forwardTerms = []) {clauses : List Script.Clause} {outcome : Outcome}
    (h : s.declare (.query clauses) = (.ok outcome, t)) :
    s.vocabulary.AddsImplied t.vocabulary ∧
      (∃ graph, t.vocabulary.queries = s.vocabulary.queries.push graph) ∧
      ∀ text, t.rankReadings text = s.rankReadings text := by
  obtain ⟨run, -, rfl⟩ := declare_query_eq_ok.1 h
  have hrun := run.addsOnlyImplied hterms
  have hadds : s.vocabulary.AddsImplied run.after.vocabulary := hrun.toAddsImplied.indexed _ _ _
  refine ⟨hadds, ⟨run.graph, ?_⟩, rankReadings_eq_of_addsImplied hs hterms rfl hadds⟩
  rw [← hrun.queries_eq]
  rfl

/-- **Queries leave the model alone.** A query that compiles where no terms may be used before their
declaration adds links, comparisons and one join graph. Every object type, fact type, role, reading
and constraint stays as it was, and every text is ranked as before.

**Proof sketch.** Entering clauses adds nothing, resolving them adds comparisons and building the
join graph adds links. Object types come to play roles in these, so that the search for the fact
types of a clause comes across them; but they are not stated, and are not tried. -/
theorem declare_query_frame (settings : Settings) (hterms : settings.forwardTerms = [])
    (scripts : List String) (clauses : List Script.Clause) {outcome : Outcome} {t : Session}
    (h : ((start settings).compileAll scripts).declare (.query clauses) = (.ok outcome, t)) :
    let s := (start settings).compileAll scripts
    s.vocabulary.AddsImplied t.vocabulary ∧
      (∃ graph, t.vocabulary.queries = s.vocabulary.queries.push graph) ∧
      ∀ text, t.rankReadings text = s.rankReadings text := by
  have hterms' : ((start settings).compileAll scripts).settings.forwardTerms = [] := by
    rw [settings_compileAll]
    exact hterms
  exact addsImplied_of_declare_query
    (consistent_compileAll (consistent_start settings) scripts).toWellFormed
    hterms' h

/-- A query about directorships that began late adds a link and a comparison, and whoever directs is
still found. -/
theorem declare_query_frame_directorship :
    let scripts := ["entity type Person; entity type Company; value type Date;",
      "Directorship is where Person directs Company; Directorship began on Date;"]
    let directs : Script.Clause :=
      { phrases :=
        [.mention { term := "Person" }, .word "directs", .mention { term := "Company" }] }
    let clauses : List Script.Clause :=
      [{ phrases := [.mention { term := "Directorship", nested := [directs] }, .word "began",
          .word "on", .mention { term := "Date" }] },
        { phrases := [.comparison ">" (.mention { term := "Date" }) (.literal (.number "5"))]
          conjunction := some .and }]
    ∃ s outcome t, s = (start {}).compileAll scripts ∧
      s.declare (.query clauses) = (.ok outcome, t) ∧
      s.vocabulary.AddsImplied t.vocabulary ∧
      (∃ graph, t.vocabulary.queries = s.vocabulary.queries.push graph) ∧
      t.rankReadings "Person directs Company" = s.rankReadings "Person directs Company" := by
  intro scripts directs clauses
  have hisOk : (((start {}).compileAll scripts).declare (.query clauses)).1.isOk = true := by
    unfold scripts
    rw [compileAll_cons, compile_ofList, compileAll_cons, compile_ofList, compileAll_nil]
    decide +kernel
  obtain ⟨outcome, t, hdeclare⟩ := exists_of_isOk hisOk
  obtain ⟨hadds, hqueries, hranks⟩ := declare_query_frame {} rfl scripts clauses hdeclare
  exact ⟨_, outcome, t, rfl, hdeclare, hadds, hqueries, hranks _⟩

end Session

end FactModel
