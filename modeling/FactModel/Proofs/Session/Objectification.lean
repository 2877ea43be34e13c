import FactModel.Proofs.JoinGraph.Objectification
import FactModel.Proofs.Session.JoinGraphs
set_option autoImplicit false

/-!
# What objectifies what in queries and derivations

## Main results

* `FactModel.Session.objectifies_declare` — in the join graph of a query or a derivation, a variable
  names the last step that names it, and every step that names a variable has a link behind it.
* `FactModel.Session.exists_overwritten` — a variable names one step of several that name it.
-/

namespace FactModel

open Attempt Compile

open Context

/-- The join graph of clauses that were ready is one in which variables and steps name each
other. -/
lemma Context.Ready.objectifies {x y : Context} {cs ds : List Clause} {projected : List MentionId}
    {g : JoinGraph} {d : Draft} (h : x.Ready cs) (hlinks : x.vocabulary.LinksMirror)
    {contraction : Bool} (hresolve : (resolveAll contraction none cs).perform x = (.ok ds, y))
    (hbuild : (Build.build ds projected).perform { context := y.mergeLoose } = (.ok g, d)) :
    g.Objectifies d.context.vocabulary := by
  obtain ⟨hvalid, hlinks', hfits⟩ := h.fits_mergeLoose hlinks hresolve
  exact Build.objectifies_build hvalid hlinks' hfits hbuild

namespace Session

/-- **What objectifies what.** Let a declaration of a script compile. In the join graph of a query,
or of the clauses behind the `where` of a derivation, a variable names a step exactly if this is the
last step that names the variable; and every step that names a variable has a link behind it, which
the variable plays in its first role.

**Proof sketch.** Both are told when the step of a nested clause has just been added, and the link
is added next. A step is told once. A variable is told anew for each clause nested under one of its
mentions, and each time forgets what it was told before. -/
theorem objectifies_declare (settings : Settings) (scripts : List String) {script : String}
    {ds : List Script.Declaration} (hparse : Script.parse script = .ok ds)
    {d : Script.Declaration} (hd : d ∈ ds) {outcome : Outcome} {t : Session}
    (h : ((start settings).compileAll scripts).declare d = (.ok outcome, t)) :
    let s := (start settings).compileAll scripts
    (∀ clauses, d = .query clauses →
      ∃ run : s.QueryRun clauses, outcome = run.outcome ∧ t = run.after ∧
        run.graph.Objectifies run.draft.context.vocabulary) ∧
    ∀ clauses split, d = .factType clauses → derivationSplit? clauses = some split →
      ∃ run : s.DerivationRun split clauses, outcome = run.outcome ∧ t = run.after ∧
        run.graph.Objectifies run.draft.context.vocabulary := by
  have hs := consistent_compileAll (consistent_start settings) scripts
  have hlinks := linksMirror_compileAll_start settings scripts
  have hplain : Script.ArePlain d.clauses :=
    Script.arePlain_iff.2 (Script.isPlain_of_parse hparse d hd)
  refine ⟨fun clauses heq => ?_, fun clauses split heq hsplit => ?_⟩
  · subst heq
    obtain ⟨run, houtcome, hafter⟩ := declare_query_eq_ok.1 h
    refine ⟨run, houtcome, hafter, ?_⟩
    exact (run.ready hs hplain).objectifies (linksMirror_enter hlinks run.enter_eq)
      run.resolveAll_eq run.build_eq
  · subst heq
    obtain ⟨run, houtcome, hafter⟩ := (declare_derived_eq_ok hsplit).1 h
    refine ⟨run, houtcome, hafter, ?_⟩
    exact (ready_of_define hs hplain run.enter_eq run.define_eq).objectifies
      (linksMirror_defineFactType (linksMirror_enter hlinks run.enter_eq) run.define_eq)
      run.resolveAll_eq run.build_eq

/-- Work that is told by two clauses, in a query and in a derivation. -/
theorem objectifies_declare_work :
    let s := (start {}).compileAll ["entity type Person; entity type Job;" ++
      "Person has Job, Job is of Person; Work is where Person has Job;"]
    (∃ clauses, Script.parse "Work (where Person has Job, Job is of Person)?" =
        .ok [.query clauses] ∧
      ∃ run : s.QueryRun clauses, s.declare (.query clauses) = (.ok run.outcome, run.after) ∧
        run.graph.Objectifies run.draft.context.vocabulary) ∧
    ∃ clauses, Script.parse "Person works where Work (where Person has Job);" =
        .ok [.factType clauses] ∧
      ∃ run : s.DerivationRun 1 clauses,
        s.declare (.factType clauses) = (.ok run.outcome, run.after) ∧
          run.graph.Objectifies run.draft.context.vocabulary := by
  intro s
  have hcomputed :
      s.compiles "Work (where Person has Job, Job is of Person)?" isQuery = true ∧
        s.compiles "Person works where Work (where Person has Job);" (isDerivation 1) = true := by
    unfold s
    rw [← String.ofList_append, compileAll_cons, compile_ofList, compileAll_nil, compiles_ofList,
      compiles_ofList]
    decide +kernel
  obtain ⟨d, outcome, t, hparse, hquery, h⟩ := exists_of_compiles hcomputed.1
  obtain ⟨d', outcome', t', hparse', hderivation, h'⟩ := exists_of_compiles hcomputed.2
  refine ⟨?_, ?_⟩
  · cases d with
    | query clauses =>
      obtain ⟨run, rfl, rfl, hobjectifies⟩ :=
        (objectifies_declare {} _ hparse List.mem_cons_self h).1 clauses rfl
      exact ⟨clauses, hparse, run, h, hobjectifies⟩
    | _ => cases hquery
  · cases d' with
    | factType clauses =>
      obtain ⟨run, rfl, rfl, hobjectifies⟩ :=
        (objectifies_declare {} _ hparse' List.mem_cons_self h').2 clauses 1 rfl
          (by simpa [isDerivation] using hderivation)
      exact ⟨clauses, hparse', run, h', hobjectifies⟩
    | _ => cases hderivation

/-- The steps of both clauses that tell of work name the variable of the work, which names the step
of the second one only. -/
theorem exists_overwritten :
    let s := (start {}).compileAll ["entity type Person; entity type Job;" ++
      "Person has Job, Job is of Person; Work is where Person has Job;"]
    ∃ clauses, Script.parse "Work (where Person has Job, Job is of Person)?" =
        .ok [.query clauses] ∧
      ∃ run : s.QueryRun clauses, s.declare (.query clauses) = (.ok run.outcome, run.after) ∧
        ∃ i ∈ run.graph.stepIds, ∃ w ∈ run.graph.variableIds,
          (run.graph.stepAt i).objectificationVariable = some w ∧
            (run.graph.variableAt w).objectificationStep ≠ some i := by
  intro s
  have hcomputed :
      (s.queryGraph? "Work (where Person has Job, Job is of Person)?").any (fun g =>
        ⟨0⟩ ∈ g.stepIds ∧ ⟨0⟩ ∈ g.variableIds ∧
          (g.stepAt ⟨0⟩).objectificationVariable = some ⟨0⟩ ∧
            (g.variableAt ⟨0⟩).objectificationStep ≠ some ⟨0⟩) = true := by
    unfold s
    rw [← String.ofList_append, compileAll_cons, compile_ofList, compileAll_nil, queryGraph?_ofList]
    decide +kernel
  obtain ⟨g, hg, hnames⟩ := (Option.any_eq_true ..).1 hcomputed
  obtain ⟨clauses, hparse, run, hdeclare, rfl⟩ := exists_of_queryGraph? hg
  obtain ⟨hi, hw, hnames, hother⟩ := of_decide_eq_true hnames
  exact ⟨clauses, hparse, run, hdeclare, ⟨0⟩, hi, ⟨0⟩, hw, hnames, hother⟩

end Session

end FactModel
