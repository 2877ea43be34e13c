import FactModel.Proofs.JoinGraph.Mirror
import FactModel.Proofs.Session.Definitions
import FactModel.Proofs.Session.Sparing
set_option autoImplicit false

/-!
# Join graphs of queries and derivations

Whatever a query or the body of a derivation says, its join graph mirrors its clauses as they have
been resolved. Links mirror their roles in every vocabulary that scripts lead to, which makes the
roles of link steps fit their variables.

## Main results

* `FactModel.Session.linksMirror_compileAll_start` — links mirror their roles.
* `FactModel.Session.mirrors_declare` — join graphs mirror clauses.
-/

namespace FactModel

open Attempt Compile

open Context

/-! ## Links -/

namespace Compile

open Vocabulary

/-- A change that adds no link. -/
def Unlinking {α : Type} (change : Compile α) : Prop :=
  change.KeepsThrough Unlinked

/-- What spares links and constraints adds no link. -/
lemma unlinking_of_sparing {α : Type} {change : Compile α} (h : Sparing change) :
    Unlinking change :=
  h.through Spares.unlinked

/-- Defining a fact type adds no link. -/
lemma defines_unlinking : Defines Unlinking :=
  { embeds_through Unlinked.refl (fun _ _ => leads_extend rfl trivial)
      (fun _ _ _ _ _ => leads_extend rfl trivial) unlinked_restrictPresenceConstraint
      fun _ _ _ _ => leads_extend rfl trivial,
    states_sparing Spares.unlinked with }

/-- Declaring a fact type adds no link. -/
lemma unlinking_declareFactType (clauses : List Script.Clause) :
    Unlinking (declareFactType clauses) := fun x =>
  Leads.bind (unlinking_of_sparing (sparing_enter clauses) x) fun cs y _ _ =>
    Leads.bind (defines_unlinking.defineFactType cs y) fun _ _ _ _ =>
      leads_get_bind (leads_pure rfl trivial)

end Compile

/-! ## Join graphs -/

namespace Context.Ready

variable {x y : Context} {cs ds : List Clause} {projected : List MentionId} {g : JoinGraph}
  {d : Draft}

/-- Once clauses that were ready have been resolved and loose bindings merged, the context is valid,
its links mirror their roles, and the clauses fit it. -/
lemma fits_mergeLoose (h : x.Ready cs) (hlinks : x.vocabulary.LinksMirror) {contraction : Bool}
    (hresolve : (resolveAll contraction none cs).perform x = (.ok ds, y)) :
    y.mergeLoose.Valid ∧ y.mergeLoose.vocabulary.LinksMirror ∧
      ∀ c ∈ ds, c.Everywhere y.mergeLoose.Fits := by
  obtain ⟨hgives, hfits⟩ := resolveAll_fits h.valid h.unmerged h.fits h.unmatched h.nodup h.isBound
    (fun p hp => by cases hp) hresolve
  have hmerged := hgives.valid.mergeLoose
  refine ⟨hmerged.valid, ?_, fun c hc => ?_⟩
  · rw [vocabulary_mergeLoose]
    exact Vocabulary.Evolves.linksMirror
      ((evolving_resolveAll contraction none cs x).of_perform hresolve).1
      (unlinking_of_sparing (sparing_resolveAll contraction none cs) x |>.of_perform hresolve).1
      hlinks
  · have hsame : y.GivesRoles (fun _ => False) y.mergeLoose :=
      ⟨hmerged, fun m _ => by rw [mention_mergeLoose]⟩
    exact hsame.everywhere_fits hgives.valid (hfits c hc) fun _ _ => id

/-- The join graph of clauses that were ready mirrors them as they have been resolved.

**Proof sketch.** Matching gives every mention a role of the fact type of its clause. Every mention
stays bound, and merging loose bindings leaves one in place for each of them. -/
theorem mirrors (h : x.Ready cs) (hlinks : x.vocabulary.LinksMirror) {contraction : Bool}
    (hresolve : (resolveAll contraction none cs).perform x = (.ok ds, y))
    (hbuild : (Build.build ds projected).perform { context := y.mergeLoose } = (.ok g, d)) :
    d.Mirrors g ds ∧ d.context = { y.mergeLoose with vocabulary := d.context.vocabulary } ∧
      d.context.vocabulary.LinksMirror := by
  obtain ⟨hcarries, -, hbound, -⟩ := resolveAll_eq_ok h.unmerged h.isBound
    (fun c hc => (h.unmatched c hc).2) (fun p hp => by cases hp) hresolve
  have htied : y.Bound := ((leads_resolveAll_of_completes (completes_bound {}) contraction none cs
    h.bound).of_perform hresolve).1
  have hunmerged := (hcarries 0 (Nat.zero_le _)).unmerged
  obtain ⟨hvalid, hlinks', hfits⟩ := h.fits_mergeLoose hlinks hresolve
  refine Build.mirrors_build hvalid hlinks' hfits (fun m hm => ?_) hbuild
  obtain ⟨b, hb⟩ := Option.isSome_iff_exists.1 (hbound m hm).binding
  have heffective := y.effectiveBinding?_mergeLoose htied.toTied hunmerged m
  rw [hb] at heffective
  exact ⟨_, heffective,
    y.isSome_effectiveBinding?_mergeLoose htied.toTied hunmerged m _ heffective⟩

end Context.Ready

namespace Session

variable {s : Session} {clauses : List Script.Clause}

/-- The clauses of a query are ready to be resolved once they have been entered. -/
lemma QueryRun.ready (run : s.QueryRun clauses) (hs : s.vocabulary.Consistent)
    (hplain : Script.ArePlain clauses) : run.bound.Ready run.entered :=
  ready_of_enter hs hplain run.enter_eq

/-- Entering clauses adds no link. -/
lemma linksMirror_enter (hlinks : s.vocabulary.LinksMirror) {cs : List Clause} {x : Context}
    (h : (enter clauses).perform s.context = (.ok cs, x)) : x.vocabulary.LinksMirror :=
  Vocabulary.Evolves.linksMirror ((evolving_enter clauses s.context).of_perform h).1
    (unlinking_of_sparing (sparing_enter clauses) s.context |>.of_perform h).1 hlinks

/-- Neither does defining a fact type. -/
lemma linksMirror_defineFactType {x y : Context} {cs ds : List Clause} {f : FactTypeId}
    {created : Bool} (hlinks : x.vocabulary.LinksMirror)
    (h : (defineFactType cs).perform x = (.ok (f, created, ds), y)) : y.vocabulary.LinksMirror :=
  Vocabulary.Evolves.linksMirror ((defines_evolving.defineFactType cs x).of_perform h).1
    ((defines_unlinking.defineFactType cs x).of_perform h).1 hlinks

/-- The join graph of a query mirrors its clauses. -/
lemma QueryRun.mirrors (run : s.QueryRun clauses) (hs : s.vocabulary.Consistent)
    (hlinks : s.vocabulary.LinksMirror) (hplain : Script.ArePlain clauses) :
    run.draft.Mirrors run.graph run.resolved ∧
      run.draft.context = { run.matched.mergeLoose with
        vocabulary := run.draft.context.vocabulary } ∧
      run.draft.context.vocabulary.LinksMirror :=
  (run.ready hs hplain).mirrors (linksMirror_enter hlinks run.enter_eq) run.resolveAll_eq
    run.build_eq

/-- The clauses behind the `where` of a derivation are ready once the fact type has been defined. -/
lemma ready_of_define {split : Nat} (hs : s.vocabulary.Consistent)
    (hplain : Script.ArePlain clauses)
    {entered head : List Clause} {bound defined : Context} {f : FactTypeId} {created : Bool}
    (henter : (enter clauses).perform s.context = (.ok entered, bound))
    (hdefine : (defineFactType (entered.take split)).perform bound =
      (.ok (f, created, head), defined)) :
    defined.Ready (entered.drop split) := by
  have hready : bound.Ready (entered.take split ++ entered.drop split) := by
    rw [List.take_append_drop]
    exact ready_of_enter hs hplain henter
  exact ready_of_defineFactType hready hdefine

/-- The join graph of a derivation mirrors the clauses behind the `where`. -/
lemma DerivationRun.mirrors {split : Nat} (run : s.DerivationRun split clauses)
    (hs : s.vocabulary.Consistent) (hlinks : s.vocabulary.LinksMirror)
    (hplain : Script.ArePlain clauses) :
    run.draft.Mirrors run.graph run.body ∧
      run.draft.context = { run.matched.mergeLoose with
        vocabulary := run.draft.context.vocabulary } ∧
      run.draft.context.vocabulary.LinksMirror :=
  (ready_of_define hs hplain run.enter_eq run.define_eq).mirrors
    (linksMirror_defineFactType (linksMirror_enter hlinks run.enter_eq) run.define_eq)
    run.resolveAll_eq run.build_eq

/-- Declarations keep that links mirror what they link. -/
lemma linksMirror_declare (hs : s.vocabulary.Consistent) (hlinks : s.vocabulary.LinksMirror)
    {d : Script.Declaration} (hplain : Script.ArePlain d.clauses) :
    (s.declare d).2.vocabulary.LinksMirror := by
  rcases hd : s.declare d with ⟨_ | outcome, t⟩
  · obtain rfl := eq_of_declare_eq_error hd
    exact hlinks
  have hevolves := evolves_declare hs d
  rw [hd] at hevolves
  have hother : Unlinking (declaration s.settings.contraction d) →
      t.vocabulary.LinksMirror := by
    intro h
    obtain ⟨y, hy, rfl⟩ := declare_eq_ok.1 hd
    exact Vocabulary.Evolves.linksMirror hevolves ((h s.context).of_perform hy).1 hlinks
  cases d with
  | entityType name =>
    exact hother (unlinking_of_sparing fun x => Leads.map
      (leads_edit_through (Vocabulary.spares_declareObjectType x.vocabulary name .entity false)))
  | valueType name =>
    exact hother (unlinking_of_sparing fun x => Leads.map
      (leads_edit_through (Vocabulary.spares_declareObjectType x.vocabulary name .value false)))
  | subtype subtype supertypes =>
    exact hother (unlinking_of_sparing (sparing_declareSubtype subtype supertypes))
  | objectification term clauses =>
    exact hother fun x => Leads.bind (unlinking_declareFactType clauses x) fun r y _ _ =>
      Leads.bind (leads_edit_through ((Vocabulary.spares_objectify y.vocabulary term r.1).weaken
        fun _ => Vocabulary.Spares.unlinked)) fun _ _ _ _ => leads_pure rfl trivial
  | query clauses =>
    obtain ⟨run, -, rfl⟩ := declare_query_eq_ok.1 hd
    have hdraft := (run.mirrors hs hlinks hplain).2.2
    exact Vocabulary.Evolves.linksMirror
      ((Vocabulary.evolves_addQuery _ run.graph).of_perform rfl).1 rfl hdraft
  | factType clauses =>
    cases hsplit : derivationSplit? clauses with
    | none =>
      refine hother fun x => ?_
      rw [declaration, hsplit]
      exact Leads.map (unlinking_declareFactType clauses x)
    | some split =>
      obtain ⟨run, -, rfl⟩ := (declare_derived_eq_ok hsplit).1 hd
      have hdraft := (run.mirrors hs hlinks hplain).2.2
      have hquery := Vocabulary.Evolves.linksMirror
        ((Vocabulary.evolves_addQuery _ run.graph).of_perform rfl).1 rfl hdraft
      exact Vocabulary.Evolves.linksMirror
        ((Vocabulary.evolves_setDerivation _ run.factType _).of_perform rfl).1 rfl hquery

/-- Links mirror their roles in every vocabulary that scripts lead to. -/
theorem linksMirror_compileAll_start (settings : Settings) (scripts : List String) :
    ((start settings).compileAll scripts).vocabulary.LinksMirror :=
  (compileAll_induction (P := fun s => s.vocabulary.Consistent ∧ s.vocabulary.LinksMirror)
    (fun _ _ hs hplain => ⟨consistent_declare hs.1 hplain, linksMirror_declare hs.1 hs.2 hplain⟩)
    ⟨consistent_start settings, fun _ hf => nomatch hf⟩ scripts).2

/-- **Join graphs mirror clauses.** Let a declaration of a script compile. If it is a query, the
join graph that is added mirrors its clauses; if it is a derivation, it mirrors those behind the
`where`. In both cases the clauses are meant as they have been resolved and loose bindings have been
merged.

**Proof sketch.** Every mention is bound and gets the role that its own clause gives it. One
variable is made for each binding, and one step for each matched clause; the plays of a step are
added with it. A link step has the roles of a link that mirrors the role of the first inner
mention. -/
theorem mirrors_declare (settings : Settings) (scripts : List String) {script : String}
    {ds : List Script.Declaration} (hparse : Script.parse script = .ok ds)
    {d : Script.Declaration} (hd : d ∈ ds) {outcome : Outcome} {t : Session}
    (h : ((start settings).compileAll scripts).declare d = (.ok outcome, t)) :
    let s := (start settings).compileAll scripts
    (∀ clauses, d = .query clauses →
      ∃ run : s.QueryRun clauses, outcome = run.outcome ∧ t = run.after ∧
        run.draft.Mirrors run.graph run.resolved ∧
        run.draft.context = { run.matched.mergeLoose with
          vocabulary := run.draft.context.vocabulary }) ∧
    ∀ clauses split, d = .factType clauses → derivationSplit? clauses = some split →
      ∃ run : s.DerivationRun split clauses, outcome = run.outcome ∧ t = run.after ∧
        run.draft.Mirrors run.graph run.body ∧
        run.draft.context = { run.matched.mergeLoose with
          vocabulary := run.draft.context.vocabulary } := by
  have hs := consistent_compileAll (consistent_start settings) scripts
  have hlinks := linksMirror_compileAll_start settings scripts
  have hplain : Script.ArePlain d.clauses :=
    Script.arePlain_iff.2 (Script.isPlain_of_parse hparse d hd)
  refine ⟨fun clauses heq => ?_, fun clauses split heq hsplit => ?_⟩
  · subst heq
    obtain ⟨run, houtcome, hafter⟩ := declare_query_eq_ok.1 h
    obtain ⟨hmirrors, hcontext, -⟩ := run.mirrors hs hlinks hplain
    exact ⟨run, houtcome, hafter, hmirrors, hcontext⟩
  · subst heq
    obtain ⟨run, houtcome, hafter⟩ := (declare_derived_eq_ok hsplit).1 h
    obtain ⟨hmirrors, hcontext, -⟩ := run.mirrors hs hlinks hplain
    exact ⟨run, houtcome, hafter, hmirrors, hcontext⟩

/-- The join graphs of a query about work and of a derivation from it mirror their clauses. In the
query, the clause nested under what objectifies it has a step of its own and one for its link. -/
theorem mirrors_declare_work :
    let s := (start {}).compileAll
      ["entity type Person; entity type Job; Work is where Person has Job; Work ends;"]
    (∃ clauses, Script.parse "Work (where Person has Job) ends?" = .ok [.query clauses] ∧
      ∃ run : s.QueryRun clauses, s.declare (.query clauses) = (.ok run.outcome, run.after) ∧
        run.draft.Mirrors run.graph run.resolved) ∧
    ∃ clauses, Script.parse "Person works where Person has Job;" = .ok [.factType clauses] ∧
      ∃ run : s.DerivationRun 1 clauses,
        s.declare (.factType clauses) = (.ok run.outcome, run.after) ∧
          run.draft.Mirrors run.graph run.body := by
  intro s
  have hcomputed : s.compiles "Work (where Person has Job) ends?" isQuery = true ∧
      s.compiles "Person works where Person has Job;" (isDerivation 1) = true := by
    unfold s
    rw [compileAll_cons, compile_ofList, compileAll_nil, compiles_ofList, compiles_ofList]
    decide +kernel
  obtain ⟨d, outcome, t, hparse, hquery, h⟩ := exists_of_compiles hcomputed.1
  obtain ⟨d', outcome', t', hparse', hderivation, h'⟩ := exists_of_compiles hcomputed.2
  refine ⟨?_, ?_⟩
  · cases d with
    | query clauses =>
      obtain ⟨run, rfl, rfl, hmirrors, -⟩ :=
        (mirrors_declare {} _ hparse List.mem_cons_self h).1 clauses rfl
      exact ⟨clauses, hparse, run, h, hmirrors⟩
    | _ => cases hquery
  · cases d' with
    | factType clauses =>
      obtain ⟨run, rfl, rfl, hmirrors, -⟩ :=
        (mirrors_declare {} _ hparse' List.mem_cons_self h').2 clauses 1 rfl
          (by simpa [isDerivation] using hderivation)
      exact ⟨clauses, hparse', run, h', hmirrors⟩
    | _ => cases hderivation

end Session

end FactModel
