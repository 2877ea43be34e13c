import FactModel.Proofs.Attempt
import FactModel.Proofs.Script.Evaluation
set_option autoImplicit false

/-!
# Runs of declarations

A query that compiles has gone through all stages of its compilation, and so has a derivation.

## Main definitions

* `FactModel.Session.compiles` — a text is one declaration, which compiles.
* `FactModel.Session.queryGraph?` — the join graph of a text that is one query.
* `FactModel.Session.QueryRun` — the stages that a query goes through.
* `FactModel.Session.DerivationRun` — the stages that a derivation goes through.

## Main results

* `FactModel.Session.declare_query_eq_ok` — a query compiles just in case it goes through all
  stages.
* `FactModel.Session.declare_derived_eq_ok` — so does a derivation.
-/

namespace FactModel

open Attempt Compile

/-! ## Queries -/

namespace Session

/-- A result that is found to be a value is one. -/
lemma exists_of_isOk {α β γ : Type} {r : Except α β × γ} (h : r.1.isOk = true) :
    ∃ b c, r = (.ok b, c) := by
  obtain ⟨_ | b, c⟩ := r
  · cases h
  · exact ⟨b, c, rfl⟩

/-- Whether a declaration is a query. -/
def isQuery : Script.Declaration → Bool
  | .query _ => true
  | _ => false

/-- Whether a declaration is a derivation whose head has a number of clauses. -/
def isDerivation (split : ℕ) : Script.Declaration → Bool
  | .factType clauses => derivationSplit? clauses == some split
  | _ => false

/-- Whether a text is one declaration of a certain form, which compiles. -/
def compiles (s : Session) (text : String) (form : Script.Declaration → Bool) : Bool :=
  match Script.parse text with
  | .ok [d] => form d && (s.declare d).1.isOk
  | _ => false

/-- Whether a text compiles is found out by evaluating its characters. -/
lemma compiles_ofList (s : Session) (source : List Char) (form : Script.Declaration → Bool) :
    s.compiles (.ofList source) form =
      match Script.evaluate source with
      | .ok [d] => form d && (s.declare d).1.isOk
      | _ => false := by
  unfold compiles
  rw [Script.parse_ofList]

/-- A text that is found to compile is one declaration that is accepted. -/
lemma exists_of_compiles {s : Session} {text : String} {form : Script.Declaration → Bool}
    (h : s.compiles text form = true) :
    ∃ d outcome t, Script.parse text = .ok [d] ∧ form d = true ∧
      s.declare d = (.ok outcome, t) := by
  unfold compiles at h
  split at h
  · next d hparse =>
    obtain ⟨hform, hisOk⟩ := Bool.and_eq_true_iff.1 h
    obtain ⟨outcome, t, hdeclare⟩ := exists_of_isOk hisOk
    exact ⟨d, outcome, t, hparse, hform, hdeclare⟩
  · cases h

/-- The stages that a query goes through: its clauses are entered, then resolved, and after loose
bindings have been merged the join graph is built. -/
structure QueryRun (s : Session) (clauses : List Script.Clause) where
  entered : List Clause
  /-- The context once all mentions have been bound. -/
  bound : Context
  resolved : List Clause
  /-- The context once all clauses have been resolved. -/
  matched : Context
  graph : JoinGraph
  /-- What the join graph was built in. -/
  draft : Draft
  enter_eq : (enter clauses).perform s.context = (.ok entered, bound)
  resolveAll_eq :
    (resolveAll s.settings.contraction none entered).perform bound = (.ok resolved, matched)
  build_eq : (Build.build resolved []).perform { context := matched.mergeLoose } =
    (.ok graph, draft)

namespace QueryRun

variable {s : Session} {clauses : List Script.Clause}

/-- What the query comes to. -/
def outcome (run : s.QueryRun clauses) : Outcome :=
  .query ⟨run.draft.context.vocabulary.queries.size⟩
    (run.resolved.map run.draft.context.report)

/-- The session after the query. -/
def after (run : s.QueryRun clauses) : Session :=
  { s with
    vocabulary := { run.draft.context.vocabulary with
      queries := run.draft.context.vocabulary.queries.push run.graph } }

/-- The clauses of a query after entering are what entering yields. -/
lemma entered_eq (run : s.QueryRun clauses) :
    run.entered = ((enter clauses).perform s.context).1.toOption.getD [] := by
  rw [run.enter_eq]
  rfl

/-- The context after entering is the one that entering leads to. -/
lemma bound_eq (run : s.QueryRun clauses) : run.bound = ((enter clauses).perform s.context).2 := by
  rw [run.enter_eq]

/-- The clauses after resolving are what resolving yields. -/
lemma resolved_eq (run : s.QueryRun clauses) : run.resolved =
    ((resolveAll s.settings.contraction none run.entered).perform run.bound).1.toOption.getD
    [] := by
  rw [run.resolveAll_eq]
  rfl

/-- The context after resolving is the one that resolving leads to. -/
lemma matched_eq (run : s.QueryRun clauses) : run.matched =
    ((resolveAll s.settings.contraction none run.entered).perform run.bound).2 := by
  rw [run.resolveAll_eq]

/-- The draft is what building leads to. -/
lemma draft_eq (run : s.QueryRun clauses) : run.draft =
    ((Build.build run.resolved []).perform { context := run.matched.mergeLoose }).2 := by
  rw [run.build_eq]

end QueryRun

variable {s : Session} {clauses : List Script.Clause}

/-- Building a query builds a draft and keeps its vocabulary. -/
lemma perform_buildQuery (cs : List Clause) (projected : List MentionId) (x : Context) :
    (buildQuery cs projected).perform x =
      (((Build.build cs projected).perform { context := x }).1,
        ((Build.build cs projected).perform { context := x }).2.context) :=
  rfl

/-- A declaration compiles just in case what it stands for does. -/
lemma declare_eq_ok {d : Script.Declaration} {outcome : Outcome} {t : Session} :
    s.declare d = (.ok outcome, t) ↔
      ∃ y, (declaration s.settings.contraction d).perform s.context = (.ok outcome, y) ∧
        t = { s with vocabulary := y.vocabulary } := by
  rw [declare]
  rcases (declaration s.settings.contraction d).perform s.context with ⟨_ | o, y⟩
  · constructor
    · rintro ⟨⟩
    · rintro ⟨_, ⟨⟩, -⟩
  · constructor
    · rintro ⟨⟩
      exact ⟨y, rfl, rfl⟩
    · rintro ⟨_, ⟨⟩, rfl⟩
      rfl

/-- A declaration that is refused leaves the session as it was. -/
lemma eq_of_declare_eq_error {d : Script.Declaration} {fault : Fault} {t : Session}
    (h : s.declare d = (.error fault, t)) : t = s := by
  rw [declare] at h
  split at h <;> cases h
  rfl

/-- A computed outcome tells that a declaration compiles. -/
lemma declare_eq_of_toOption {d : Script.Declaration} {outcome : Outcome}
    (h : (s.declare d).1.toOption = some outcome) : s.declare d = (.ok outcome, (s.declare d).2) :=
  Prod.ext (eq_ok_of_toOption h) rfl

/-- A declaration without an outcome is refused. -/
lemma exists_fault_of_toOption {d : Script.Declaration} (h : (s.declare d).1.toOption = none) :
    ∃ fault, s.declare d = (.error fault, s) := by
  rcases hdeclare : s.declare d with ⟨fault | outcome, t⟩
  · exact ⟨fault, by rw [eq_of_declare_eq_error hdeclare]⟩
  · rw [hdeclare] at h
    cases h

/-- A query compiles just in case it goes through all stages. -/
theorem declare_query_eq_ok {outcome : Outcome} {t : Session} :
    s.declare (.query clauses) = (.ok outcome, t) ↔
      ∃ run : s.QueryRun clauses, outcome = run.outcome ∧ t = run.after := by
  rw [declare_eq_ok]
  constructor
  · rintro ⟨y, h, rfl⟩
    obtain ⟨entered, bound, henter, h⟩ := perform_bind_eq_ok.1 h
    obtain ⟨resolved, matched, hresolve, h⟩ := perform_bind_eq_ok.1 h
    rw [perform_modify_bind] at h
    obtain ⟨graph, z, hbuild, h⟩ := perform_bind_eq_ok.1 h
    rw [perform_get_bind] at h
    obtain ⟨q, w, hquery, hpure⟩ := perform_bind_eq_ok.1 h
    cases hpure
    cases hquery
    rw [perform_buildQuery] at hbuild
    rcases hdraft : (Build.build resolved []).perform { context := matched.mergeLoose } with
      ⟨result, draft⟩
    rw [hdraft] at hbuild
    cases hbuild
    exact ⟨⟨entered, bound, resolved, matched, graph, draft, henter, hresolve, hdraft⟩, rfl, rfl⟩
  · rintro ⟨run, rfl, rfl⟩
    refine ⟨{ run.draft.context with vocabulary := run.after.vocabulary }, ?_, rfl⟩
    refine perform_bind_eq_ok.2 ⟨_, _, run.enter_eq, perform_bind_eq_ok.2 ⟨_, _,
      run.resolveAll_eq, ?_⟩⟩
    rw [perform_modify_bind]
    refine perform_bind_eq_ok.2 ⟨run.graph, run.draft.context, ?_, rfl⟩
    rw [perform_buildQuery, run.build_eq]

/-- The join graph that a text adds, if it is one query and compiles. -/
def queryGraph? (s : Session) (text : String) : Option JoinGraph :=
  match Script.parse text with
  | .ok [.query clauses] =>
    match s.declare (.query clauses) with
    | (.ok _, t) => t.vocabulary.queries.back?
    | (.error _, _) => none
  | _ => none

/-- The join graph of a text is found by evaluating its characters. -/
lemma queryGraph?_ofList (s : Session) (source : List Char) :
    s.queryGraph? (.ofList source) =
      match Script.evaluate source with
      | .ok [.query clauses] =>
        match s.declare (.query clauses) with
        | (.ok _, t) => t.vocabulary.queries.back?
        | (.error _, _) => none
      | _ => none := by
  unfold queryGraph?
  rw [Script.parse_ofList]

/-- A join graph that is found to be added by a text comes from the run of a query. -/
lemma exists_of_queryGraph? {text : String} {g : JoinGraph} (h : s.queryGraph? text = some g) :
    ∃ clauses, Script.parse text = .ok [.query clauses] ∧ ∃ run : s.QueryRun clauses,
      s.declare (.query clauses) = (.ok run.outcome, run.after) ∧ run.graph = g := by
  unfold queryGraph? at h
  split at h
  · next clauses hparse =>
    split at h
    · next outcome t hdeclare =>
      obtain ⟨run, rfl, rfl⟩ := declare_query_eq_ok.1 hdeclare
      refine ⟨clauses, hparse, run, hdeclare, ?_⟩
      simpa [QueryRun.after] using h
    · cases h
  · cases h

/-! ## Derivations -/

/-- The stages that a derivation goes through: its clauses are entered, those in front of the
`where` define the fact type and the others are resolved. After loose bindings have been merged the
join graph of these is built, onto which the mentions of the first clause are projected. -/
structure DerivationRun (s : Session) (split : Nat) (clauses : List Script.Clause) where
  entered : List Clause
  /-- The context once all mentions have been bound. -/
  bound : Context
  factType : FactTypeId
  created : Bool
  head : List Clause
  /-- The context once the fact type has been defined. -/
  defined : Context
  body : List Clause
  /-- The context once all clauses have been resolved. -/
  matched : Context
  graph : JoinGraph
  /-- What the join graph was built in. -/
  draft : Draft
  enter_eq : (enter clauses).perform s.context = (.ok entered, bound)
  define_eq : (defineFactType (entered.take split)).perform bound =
    (.ok (factType, created, head), defined)
  resolveAll_eq : (resolveAll s.settings.contraction none (entered.drop split)).perform defined =
    (.ok body, matched)
  build_eq : (Build.build body (head.headD default).mentions).perform
    { context := matched.mergeLoose } = (.ok graph, draft)

namespace DerivationRun

variable {split : Nat}

/-- What the derivation comes to. -/
def outcome (run : s.DerivationRun split clauses) : Outcome :=
  .factType run.factType run.created ((run.head ++ run.body).map run.draft.context.report)

/-- The vocabulary with the join graph, as that of the derived fact type. -/
def derived (run : s.DerivationRun split clauses) : Vocabulary :=
  { run.draft.context.vocabulary with
    queries := run.draft.context.vocabulary.queries.push run.graph }.modifyFactType run.factType
      ({ · with derivation := some ⟨run.draft.context.vocabulary.queries.size⟩ })

/-- The session after the derivation. -/
def after (run : s.DerivationRun split clauses) : Session :=
  { s with vocabulary := run.derived }

end DerivationRun

/-- A derivation compiles just in case it goes through all stages. -/
theorem declare_derived_eq_ok {split : Nat} (hsplit : derivationSplit? clauses = some split)
    {outcome : Outcome} {t : Session} :
    s.declare (.factType clauses) = (.ok outcome, t) ↔
      ∃ run : s.DerivationRun split clauses, outcome = run.outcome ∧ t = run.after := by
  rw [declare_eq_ok, declaration, hsplit]
  dsimp only
  constructor
  · rintro ⟨y, h, rfl⟩
    obtain ⟨entered, bound, henter, h⟩ := perform_bind_eq_ok.1 h
    obtain ⟨⟨factType, created, head⟩, defined, hdefine, h⟩ := perform_bind_eq_ok.1 h
    obtain ⟨body, matched, hresolve, h⟩ := perform_bind_eq_ok.1 h
    rw [perform_modify_bind] at h
    obtain ⟨graph, z, hbuild, h⟩ := perform_bind_eq_ok.1 h
    rw [perform_get_bind] at h
    obtain ⟨q, w, hquery, h⟩ := perform_bind_eq_ok.1 h
    obtain ⟨_, w', hderivation, hpure⟩ := perform_bind_eq_ok.1 h
    cases hpure
    cases hquery
    cases hderivation
    rw [perform_buildQuery] at hbuild
    rcases hdraft : (Build.build body (head.headD default).mentions).perform
      { context := matched.mergeLoose } with ⟨result, draft⟩
    rw [hdraft] at hbuild
    cases hbuild
    exact ⟨⟨entered, bound, factType, created, head, defined, body, matched, graph, draft, henter,
      hdefine, hresolve, hdraft⟩, rfl, rfl⟩
  · rintro ⟨run, rfl, rfl⟩
    refine ⟨{ run.draft.context with vocabulary := run.derived }, ?_, rfl⟩
    refine perform_bind_eq_ok.2 ⟨_, _, run.enter_eq, perform_bind_eq_ok.2 ⟨_, _, run.define_eq,
      perform_bind_eq_ok.2 ⟨_, _, run.resolveAll_eq, ?_⟩⟩⟩
    rw [perform_modify_bind]
    refine perform_bind_eq_ok.2 ⟨run.graph, run.draft.context, ?_, rfl⟩
    rw [perform_buildQuery, run.build_eq]

end Session

end FactModel
