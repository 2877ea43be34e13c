import FactModel.Proofs.JoinGraph.Connectivity
import FactModel.Proofs.Session.JoinGraphs
set_option autoImplicit false

/-!
# Connected queries

A query, or the part of a derivation behind its `where`, makes sense only if all that it speaks of
is connected. Once its steps have been added to a draft, the draft is validated; if that fails, so
does the declaration.

## Main definitions

* `FactModel.Session.Drafts` — the drafts that are validated for a declaration.

## Main results

* `FactModel.Build.build_eq_error` — a draft that is not valid gives no join graph.
* `FactModel.Session.Drafts.declare_eq_error` — and the declaration fails.
* `FactModel.Session.validate_drafts` — when drafts are valid, and into which groups they fall
  otherwise.
-/

namespace FactModel

open Attempt Compile

/-! ## Drafts -/

/-- A draft made by clauses and links lists its plays as it should. -/
lemma Draft.Woven.isSound {d : Draft} {origins : List StepOrigin} (h : d.Woven origins) :
    d.graph.IsSound where
  toPlaysListed := h.playsListed
  play_mem p hp := by
    have hrange := h.valid.graph.playAt (JoinGraph.mem_playIds.1 hp)
    exact ⟨JoinGraph.mem_variableIds.2 hrange.variableId, JoinGraph.mem_stepIds.2 hrange.step⟩

/-- If a draft is not valid, building fails for the same reason. -/
lemma Build.build_eq_error {x : Context} {clauses : List Clause} {d : Draft} {u : Unit}
    {fault : Fault}
    (h : (assemble clauses).perform { context := x } = (.ok u, d)) (hd : d.validate = .error fault)
    (projected : List MentionId) :
    (build clauses projected).perform { context := x } = (.error fault, d) := by
  rw [assemble, perform_modify_bind] at h
  rw [build, perform_modify_bind, perform_bind, h]
  dsimp only
  rw [perform_get_bind, perform_bind, hd]
  rfl

namespace Session

/-- The drafts that are validated when a declaration is compiled: that of a query, and that of the
clauses behind the `where` of a derivation. The clauses have been resolved, loose bindings have been
merged, and all steps have been added. -/
inductive Drafts (s : Session) : Script.Declaration → Draft → Prop
  | query {clauses : List Script.Clause} {entered resolved : List Clause} {bound matched : Context}
      {d : Draft} {u : Unit}
      (enter_eq : (enter clauses).perform s.context = (.ok entered, bound))
      (resolveAll_eq :
        (resolveAll s.settings.contraction none entered).perform bound = (.ok resolved, matched))
      (assemble_eq :
        (Build.assemble resolved).perform { context := matched.mergeLoose } = (.ok u, d)) :
    Drafts s (.query clauses) d
  | derivation {clauses : List Script.Clause} {split : Nat} {entered head body : List Clause}
      {bound defined matched : Context} {f : FactTypeId} {created : Bool} {d : Draft} {u : Unit}
      (split_eq : derivationSplit? clauses = some split)
      (enter_eq : (enter clauses).perform s.context = (.ok entered, bound))
      (define_eq :
        (defineFactType (entered.take split)).perform bound = (.ok (f, created, head), defined))
      (resolveAll_eq : (resolveAll s.settings.contraction none (entered.drop split)).perform
        defined =
        (.ok body, matched))
      (assemble_eq :
        (Build.assemble body).perform { context := matched.mergeLoose } = (.ok u, d)) :
    Drafts s (.factType clauses) d

variable {s : Session} {decl : Script.Declaration} {d : Draft}

/-- What is built of ready clauses is sound. -/
lemma isSound_of_ready {x y : Context} {cs ds : List Clause} {contraction : Bool} {u : Unit}
    (h : x.Ready cs) (hlinks : x.vocabulary.LinksMirror)
    (hresolve : (resolveAll contraction none cs).perform x = (.ok ds, y))
    (hassemble : (Build.assemble ds).perform { context := y.mergeLoose } = (.ok u, d)) :
    d.graph.IsSound := by
  obtain ⟨hvalid, hlinks', hfits⟩ := h.fits_mergeLoose hlinks hresolve
  exact (Build.woven_assemble hvalid hlinks' hfits hassemble).1.isSound

/-- The drafts that are validated list their plays as they should. -/
lemma Drafts.isSound (h : s.Drafts decl d) (hs : s.vocabulary.Consistent)
    (hlinks : s.vocabulary.LinksMirror) (hplain : Script.ArePlain decl.clauses) :
    d.graph.IsSound := by
  cases h with
  | query henter hresolve hassemble =>
    exact isSound_of_ready (ready_of_enter hs hplain henter) (linksMirror_enter hlinks henter)
      hresolve hassemble
  | derivation hsplit henter hdefine hresolve hassemble =>
    exact isSound_of_ready (ready_of_define hs hplain henter hdefine)
      (linksMirror_defineFactType (linksMirror_enter hlinks henter) hdefine) hresolve hassemble

/-- If a draft is not valid, the declaration fails for the same reason and leaves the session as it
was. -/
lemma Drafts.declare_eq_error (h : s.Drafts decl d) {fault : Fault}
    (hd : d.validate = .error fault) :
    s.declare decl = (.error fault, s) := by
  have hbuild : ∀ {x : Context} {cs : List Clause} {u : Unit} (projected : List MentionId),
      (Build.assemble cs).perform { context := x } = (.ok u, d) →
        (buildQuery cs projected).perform x = (.error fault, d.context) := by
    intro x cs u projected hassemble
    rw [perform_buildQuery, Build.build_eq_error hassemble hd]
  cases h with
  | query henter hresolve hassemble =>
    rw [declare, declaration, declareQuery, perform_bind, henter]
    dsimp only
    rw [perform_bind, hresolve]
    dsimp only
    rw [perform_modify_bind, perform_bind, hbuild [] hassemble]
  | derivation hsplit henter hdefine hresolve hassemble =>
    rw [declare, declaration, hsplit]
    dsimp only
    rw [declareDerived, perform_bind, henter]
    dsimp only
    rw [perform_bind, hdefine]
    dsimp only
    rw [perform_bind, hresolve]
    dsimp only
    rw [perform_modify_bind, perform_bind, hbuild _ hassemble]

/-- **Queries are connected.** Let a draft be validated for a declaration of a script, after other
scripts. It is valid just in case every variable is played or asked for and all variables are
connected by steps. If all are played or asked for but not all are connected, it fails with the
groups of its steps: one for each variable that is the least of those connected with it, in order,
which names the steps that relate these variables, in order, or the variable itself if there are
none; every step is in just one group. Whatever a draft fails with, the declaration fails with it.

**Proof sketch.** Every play is listed by its step and by its variable, so a search along the plays
of variables follows the steps that relate them. In each round, what has been met is connected with
the variable from which the search began, and what has been met and looked at has all its steps met.
So when nothing is left to look at, a search has met what is connected, and the next one begins from
the next least variable. -/
theorem validate_drafts (settings : Settings) (scripts : List String) {script : String}
    {ds : List Script.Declaration} (hparse : Script.parse script = .ok ds) (hdecl : decl ∈ ds)
    (h : ((start settings).compileAll scripts).Drafts decl d) :
    (d.validate = .ok () ↔ d.IsUsed ∧ d.IsConnected) ∧
    (d.IsUsed → ¬d.IsConnected → ∃ least groups, d.graph.Groups least groups ∧
      d.validate = .error (.disconnectedQuery (List.zipWith d.describeGroup least groups))) ∧
    ∀ fault, d.validate = .error fault → ((start settings).compileAll scripts).declare decl =
      (.error fault, (start settings).compileAll scripts) := by
  have hsound := h.isSound (consistent_compileAll (consistent_start settings) scripts)
    (linksMirror_compileAll_start settings scripts)
    (Script.arePlain_iff.2 (Script.isPlain_of_parse hparse decl hdecl))
  refine ⟨Draft.validate_eq_ok_iff hsound, Draft.validate_eq_error hsound, fun fault hfault => ?_⟩
  exact h.declare_eq_error hfault

/-- Whether a text is a query that comes to a draft of some kind. -/
def drafts (s : Session) (text : String) (pick : Draft → Bool) : Bool :=
  match Script.parse text with
  | .ok [.query clauses] =>
    match (enter clauses).perform s.context with
    | (.error _, _) => false
    | (.ok entered, bound) =>
      match (resolveAll s.settings.contraction none entered).perform bound with
      | (.error _, _) => false
      | (.ok resolved, matched) =>
        match (Build.assemble resolved).perform { context := matched.mergeLoose } with
        | (.error _, _) => false
        | (.ok _, d) => pick d
  | _ => false

/-- The draft that a text comes to is found by evaluating its characters. -/
lemma drafts_ofList (s : Session) (source : List Char) (pick : Draft → Bool) :
    s.drafts (.ofList source) pick =
      match Script.evaluate source with
      | .ok [.query clauses] =>
        match (enter clauses).perform s.context with
        | (.error _, _) => false
        | (.ok entered, bound) =>
          match (resolveAll s.settings.contraction none entered).perform bound with
          | (.error _, _) => false
          | (.ok resolved, matched) =>
            match (Build.assemble resolved).perform { context := matched.mergeLoose } with
            | (.error _, _) => false
            | (.ok _, d) => pick d
      | _ => false := by
  unfold drafts
  rw [Script.parse_ofList]

/-- A text that is found to be such a query comes to such a draft. -/
lemma exists_drafts {text : String} {pick : Draft → Bool} (h : s.drafts text pick = true) :
    ∃ clauses d, Script.parse text = .ok [.query clauses] ∧ s.Drafts (.query clauses) d ∧
      pick d = true := by
  unfold drafts at h
  split at h
  · next clauses hparse =>
    split at h
    · cases h
    next henter =>
    split at h
    · cases h
    next hresolve =>
    split at h
    · cases h
    next hassemble =>
    exact ⟨clauses, _, hparse, .query henter hresolve hassemble, h⟩
  · cases h

/-- A query about two things that have nothing to do with each other falls apart into two groups. -/
theorem validate_drafts_apart :
    let s := (start {}).compileAll ["entity type A; entity type B; A runs; B sleeps;"]
    ∃ clauses d least groups, Script.parse "A runs and B sleeps?" = .ok [.query clauses] ∧
      s.Drafts (.query clauses) d ∧ d.IsUsed ∧ ¬d.IsConnected ∧ d.graph.Groups least groups ∧
      List.zipWith d.describeGroup least groups = [["A runs"], ["B sleeps"]] ∧
      s.declare (.query clauses) = (.error (.disconnectedQuery [["A runs"], ["B sleeps"]]), s) := by
  intro s
  have hcomputed : s.drafts "A runs and B sleeps?" (fun d => (d.graph.unused? d.asked).isNone &&
      decide (d.graph.groups.map (fun g => d.describeGroup g.1 g.2) =
        [["A runs"], ["B sleeps"]])) = true := by
    unfold s
    rw [compileAll_cons, compile_ofList, compileAll_nil, drafts_ofList]
    decide +kernel
  obtain ⟨clauses, d, hparse, hd, hpick⟩ := exists_drafts hcomputed
  rw [Bool.and_eq_true, Option.isNone_iff_eq_none, decide_eq_true_eq] at hpick
  have hlength : ¬d.graph.groups.length ≤ 1 := by
    have htwo := congrArg List.length hpick.2
    rw [List.length_map] at htwo
    rw [htwo]
    decide
  have herror : d.validate = .error (.disconnectedQuery [["A runs"], ["B sleeps"]]) := by
    rw [Draft.validate, hpick.1]
    dsimp only
    rw [if_neg hlength]
    exact congrArg (fun groups => Except.error (Fault.disconnectedQuery groups)) hpick.2
  obtain ⟨hvalid, hgroups, hfails⟩ := validate_drafts {} _ hparse List.mem_cons_self hd
  have hused := Draft.isUsed_iff.2 hpick.1
  have hapart : ¬d.IsConnected := by
    intro hconnected
    have hok := hvalid.2 ⟨hused, hconnected⟩
    rw [herror] at hok
    cases hok
  obtain ⟨least, groups, hleast, hsame⟩ := hgroups hused hapart
  refine ⟨clauses, d, least, groups, hparse, hd, hused, hapart, hleast, ?_, hfails _ herror⟩
  rw [herror] at hsame
  exact (Fault.disconnectedQuery.inj (Except.error.inj hsame)).symm

end Session

end FactModel
