import FactModel.Proofs.Definition.Stating
import FactModel.Proofs.Session.Entering
import FactModel.Proofs.Session.Evolution
import FactModel.Proofs.Session.Runs
set_option autoImplicit false

/-!
# Declarations of fact types

A declaration of a fact type enters its clauses and defines the fact type by those that state it: by
all of them, or by those in front of the `where` of a derivation. What comes after that concerns the
objectifying type or the derivation only.

## Main definitions

* `FactModel.Session.definition?` — the clauses of a declaration that defines a fact type.
* `FactModel.Session.DefinitionRun` — the stages that such a declaration begins with.
* `FactModel.Session.definesSuch` — whether they have a property that can be computed.

## Main results

* `FactModel.Compile.ready_of_enter` — clauses that are entered are ready to be resolved.
* `FactModel.Compile.ready_of_defineFactType` — so are those behind a definition.
* `FactModel.Session.exists_definitionRun` — a declaration that defines a fact type goes through
  these stages, and keeps afterwards what further stages keep.
* `FactModel.Session.through_declare` — any other declaration keeps what its edits keep.
-/

namespace FactModel

open Attempt Compile Context

/-! ## Clauses that are ready -/

namespace Compile

variable {x y : Context}

/-- Clauses that are entered are ready. -/
theorem ready_of_enter {s : Session} (hs : s.vocabulary.Consistent) {clauses : List Script.Clause}
    (hplain : Script.ArePlain clauses) {cs : List Clause}
    (h : (enter clauses).perform s.context = (.ok cs, y)) : y.Ready cs := by
  have hx := Session.valid_context hs
  obtain ⟨hbound, hunmerged, hcontraction, hmentions⟩ := isBound_of_enter h
  obtain ⟨hextends, rfl⟩ := (leads_enter hx clauses).of_perform h
  have hadopted := isAdopted_adoptAll clauses s.context hplain
  have hroles : s.context.RolesOnly (fun _ => False) y :=
    ((leads_enter_rolesOnly clauses s.context).of_perform h).1
  refine ⟨hextends.valid, hbound, hunmerged, fun c hc => ?_, fun c hc => ⟨?_, hcontraction c hc⟩,
    fun c hc => (hadopted c hc).here.reading_eq, (places_adoptAll clauses s.context).nodup,
    hmentions⟩
  · refine (hadopted c hc).imp fun d hd => ⟨hd.valid _, rolesFit_of_none fun m _ => ?_⟩
    rw [hroles m id]
    rfl
  · exact (hadopted c hc).here.factType_eq

/-- With all clauses those in front of a `where` are ready. -/
lemma ready_elim_take {cs : List Clause} (h : x.Ready cs) (split : Option Nat) :
    x.Ready (split.elim cs cs.take) := by
  cases split with
  | none => exact h
  | some n => exact (cs.take_append_drop n ▸ h).append_left

/-- Clauses are still ready after a fact type has been defined by the clauses before them. -/
theorem ready_of_defineFactType {cs ds : List Clause} (hx : x.Ready (cs ++ ds))
    {r : FactTypeId × Bool × List Clause} (h : (defineFactType cs).perform x = (.ok r, y)) :
    y.Ready ds := by
  have hhead := hx.append_left
  obtain ⟨hextends, -⟩ := (leads_defineFactType hx.valid fun c hc =>
    (hhead.fits c hc).imp fun _ hd => hd.valid).of_perform h
  have hroles := (ends_defineFactType_rolesOnly hx.valid hhead.fits
    (fun c hc => (hhead.unmatched c hc).1) hhead.nodup).of_perform h
  have hsustains := ((defines_sustains x.mentions.size).defineFactType cs hx.sustains).of_perform h
  have hgives : x.GivesRoles (· ∈ allMentions cs) y := ⟨hextends, hroles⟩
  refine hx.append_right.later hgives (fun m hm hmem => ?_) hsustains.1
  exact (List.nodup_append'.1 (allMentions_append cs ds ▸ hx.nodup)).2.2 hmem hm

end Compile

namespace Session

variable {s t : Session} {clauses : List Script.Clause} {R : Vocabulary → Vocabulary → Prop}

/-! ## Runs of definitions -/

/-- The clauses of a declaration that defines a fact type, with the number of those in front of its
`where` if it is a derivation. -/
def definition? : Script.Declaration → Option (List Script.Clause × Option Nat)
  | .factType clauses => some (clauses, derivationSplit? clauses)
  | .objectification _ clauses => some (clauses, none)
  | _ => none

/-- The clauses of a definition are those of the declaration. -/
lemma clauses_of_definition? {d : Script.Declaration} {split : Option Nat}
    (h : definition? d = some (clauses, split)) : d.clauses = clauses := by
  cases d <;> cases h <;> rfl

/-- The stages that a declaration of a fact type begins with: its clauses are entered, and the fact
type is defined by those in front of the `where` if there is one, and else by all. -/
structure DefinitionRun (s : Session) (split : Option Nat) (clauses : List Script.Clause) where
  entered : List Clause
  /-- The context once all mentions have been bound. -/
  bound : Context
  factType : FactTypeId
  created : Bool
  /-- The clauses by which the fact type has been defined. -/
  head : List Clause
  /-- The context once the fact type has been defined. -/
  defined : Context
  enter_eq : (enter clauses).perform s.context = (.ok entered, bound)
  define_eq : (defineFactType (split.elim entered entered.take)).perform bound =
    (.ok (factType, created, head), defined)

namespace DefinitionRun

variable {split : Option Nat}

/-- The clauses that state the fact type, as they have been entered. -/
def stated (run : s.DefinitionRun split clauses) : List Clause :=
  split.elim run.entered run.entered.take

/-- The stated clauses are ready. -/
lemma ready (run : s.DefinitionRun split clauses) (hs : s.vocabulary.Consistent)
    (hplain : Script.ArePlain clauses) : run.bound.Ready run.stated :=
  ready_elim_take (ready_of_enter hs hplain run.enter_eq) split

end DefinitionRun

/-- Whether a declaration without a `where` defines a fact type such that a property holds of the
entered clauses, of the contexts before and after the definition, and of what it yields. -/
def definesSuch (s : Session)
    (p : List Clause → Context → FactTypeId × Bool × List Clause → Context → Bool)
    (d : Script.Declaration) : Bool :=
  match definition? d with
  | some (clauses, none) =>
    match (enter clauses).perform s.context with
    | (.ok entered, bound) =>
      match (defineFactType entered).perform bound with
      | (.ok r, defined) => p entered bound r defined
      | _ => false
    | _ => false
  | _ => false

/-- The property holds of the run of the definition. -/
lemma definition?_of_definesSuch
    {p : List Clause → Context → FactTypeId × Bool × List Clause → Context → Bool}
    {d : Script.Declaration} (h : s.definesSuch p d = true) :
    ∃ clauses, definition? d = some (clauses, none) ∧ ∀ run : s.DefinitionRun none clauses,
      p run.stated run.bound (run.factType, run.created, run.head) run.defined = true := by
  unfold definesSuch at h
  split at h
  · next clauses hdefinition =>
    refine ⟨clauses, hdefinition, fun run => ?_⟩
    have hdefine := run.define_eq
    rw [Option.elim_none] at hdefine
    rw [run.enter_eq] at h
    dsimp only at h
    rw [hdefine] at h
    exact h
  · cases h

section Through

variable [Trans R R R] (hrefl : ∀ v, R v v)
  (hcomparison : ∀ v operator left right,
    (Vocabulary.comparisonFactType operator left right).Leads R v fun _ _ => True)
  (hlink : ∀ v t r, (Vocabulary.linkFactType t r).Leads R v fun _ _ => True)
  (hquery : ∀ v g, (Vocabulary.addQuery g).Leads R v fun _ _ => True)

include hrefl hcomparison hlink hquery

/-- What the edits of queries keep, a derivation keeps after its fact type has been defined. -/
lemma DerivationRun.through {split : Nat} (run : s.DerivationRun split clauses)
    (hderivation : ∀ v f q, (Vocabulary.setDerivation f q).Leads R v fun _ _ => True) :
    R run.defined.vocabulary run.derived := by
  have hmatched : R run.defined.vocabulary run.matched.mergeLoose.vocabulary := by
    rw [vocabulary_mergeLoose]
    exact ((leads_resolveAll_through hrefl hcomparison s.settings.contraction none _
      run.defined).of_perform run.resolveAll_eq).1
  have hbuild : (buildQuery run.body (run.head.headD default).mentions).perform
      run.matched.mergeLoose = (.ok run.graph, run.draft.context) := by
    rw [perform_buildQuery, run.build_eq]
  have hbuilt : R run.matched.mergeLoose.vocabulary run.draft.context.vocabulary :=
    ((leads_buildQuery_through hrefl hlink run.body _ run.matched.mergeLoose).of_perform hbuild).1
  have hadded := ((hquery run.draft.context.vocabulary run.graph).of_perform rfl).1
  exact Trans.trans (Trans.trans (Trans.trans hmatched hbuilt) hadded)
    ((hderivation _ run.factType _).of_perform rfl).1

/-- **Runs of definitions.** A declaration that defines a fact type and compiles goes through the
stages of a definition, and reports its fact type. What its later edits keep is kept until its
end. -/
theorem exists_definitionRun
    (hobjectify : ∀ v term f, (Vocabulary.objectify term f).Leads R v fun _ _ => True)
    (hderivation : ∀ v f q, (Vocabulary.setDerivation f q).Leads R v fun _ _ => True)
    {d : Script.Declaration} {split : Option Nat} (hd : definition? d = some (clauses, split))
    {outcome : Outcome} (h : s.declare d = (.ok outcome, t)) :
    ∃ run : s.DefinitionRun split clauses,
      (∃ reports, outcome = .factType run.factType run.created reports) ∧
        R run.defined.vocabulary t.vocabulary := by
  cases d with
  | factType clauses =>
    cases hd
    cases hsplit : derivationSplit? clauses with
    | some split =>
      obtain ⟨run, rfl, rfl⟩ := (declare_derived_eq_ok hsplit).1 h
      exact ⟨⟨run.entered, run.bound, run.factType, run.created, run.head, run.defined,
        run.enter_eq,
        run.define_eq⟩, ⟨_, rfl⟩, run.through hrefl hcomparison hlink hquery hderivation⟩
    | none =>
      obtain ⟨y, hperform, rfl⟩ := declare_eq_ok.1 h
      rw [declaration, hsplit] at hperform
      dsimp only at hperform
      rw [← bind_pure_comp] at hperform
      obtain ⟨⟨f, o⟩, z, hdeclare, hpure⟩ := perform_bind_eq_ok.1 hperform
      cases hpure
      obtain ⟨entered, bound, henter, hrest⟩ := perform_bind_eq_ok.1 hdeclare
      obtain ⟨⟨g, created, head⟩, defined, hdefine, hreport⟩ := perform_bind_eq_ok.1 hrest
      rw [perform_get_bind] at hreport
      cases hreport
      exact ⟨⟨entered, bound, f, created, head, y, henter, hdefine⟩, ⟨_, rfl⟩, hrefl _⟩
  | objectification term clauses =>
    cases hd
    obtain ⟨y, hperform, rfl⟩ := declare_eq_ok.1 h
    obtain ⟨⟨f, o⟩, z, hdeclare, hperform⟩ := perform_bind_eq_ok.1 hperform
    obtain ⟨_, w, hedit, hpure⟩ := perform_bind_eq_ok.1 hperform
    cases hpure
    obtain ⟨entered, bound, henter, hrest⟩ := perform_bind_eq_ok.1 hdeclare
    obtain ⟨⟨g, created, head⟩, defined, hdefine, hreport⟩ := perform_bind_eq_ok.1 hrest
    rw [perform_get_bind] at hreport
    cases hreport
    exact ⟨⟨entered, bound, f, created, head, z, henter, hdefine⟩, ⟨_, rfl⟩,
      ((leads_edit_through (hobjectify z.vocabulary term f)).of_perform hedit).1⟩
  | _ => cases hd

/-- What the edits of types and of queries keep, a declaration that defines no fact type keeps. -/
theorem through_declare
    (hdeclare : ∀ v name kind isForward,
      (Vocabulary.declareObjectType name kind isForward).Leads R v fun _ _ => True)
    (hsubtype : ∀ v a b, (Vocabulary.addSubtype a b).Leads R v fun _ _ => True)
    {d : Script.Declaration} (hd : definition? d = none) {outcome : Outcome}
    (h : s.declare d = (.ok outcome, t)) : R s.vocabulary t.vocabulary := by
  obtain ⟨y, hy, rfl⟩ := declare_eq_ok.1 h
  suffices hleads : (declaration s.settings.contraction d).Leads (Through R) s.context
      (fun _ _ => True) from (hleads.of_perform hy).1
  cases d with
  | entityType name | valueType name =>
    exact Leads.map (leads_edit_through (hdeclare s.vocabulary name _ false))
  | subtype subtype supertypes =>
    exact leads_declareSubtype_through hrefl hdeclare hsubtype subtype supertypes s.context
  | factType clauses | objectification term clauses => cases hd
  | query clauses =>
    refine Leads.bind (leads_enter_through hrefl
      (leads_addForwardEntityType_through hrefl hdeclare) clauses s.context) fun cs x _ _ => ?_
    refine Leads.bind (leads_resolveAll_through hrefl hcomparison s.settings.contraction none cs x)
      fun ds y _ _ => ?_
    refine leads_modify_bind (through_of_eq hrefl (vocabulary_mergeLoose y)) ?_
    refine Leads.bind (leads_buildQuery_through hrefl hlink ds [] _) fun g z _ _ =>
      leads_get_bind ?_
    exact Leads.bind (leads_edit_through (hquery z.vocabulary g)) fun _ u _ _ =>
      leads_pure (hrefl _) trivial

end Through

/-- A declaration that fails to define its fact type is refused, and leaves the session as it
was. -/
theorem declare_eq_error_of_defineFactType {d : Script.Declaration} {split : Option Nat}
    (hd : definition? d = some (clauses, split)) {entered : List Clause} {x y : Context}
    {fault : Fault}
    (henter : (enter clauses).perform s.context = (.ok entered, x))
    (hdefine : (defineFactType (split.elim entered entered.take)).perform x = (.error fault, y)) :
    s.declare d = (.error fault, s) := by
  suffices hperform :
      (declaration s.settings.contraction d).perform s.context = (.error fault, y) by
    rw [declare, hperform]
  cases d with
  | factType clauses =>
    cases hd
    rw [declaration]
    cases hsplit : derivationSplit? clauses with
    | some n =>
      rw [hsplit] at hdefine
      dsimp only [Option.elim] at hdefine ⊢
      rw [declareDerived, perform_bind, henter]
      dsimp only
      rw [perform_bind, hdefine]
    | none =>
      rw [hsplit] at hdefine
      dsimp only [Option.elim] at hdefine ⊢
      rw [← bind_pure_comp, perform_bind, declareFactType, perform_bind, henter]
      dsimp only
      rw [perform_bind, hdefine]
  | objectification term clauses =>
    cases hd
    dsimp only [Option.elim] at hdefine
    rw [declaration, perform_bind, declareFactType, perform_bind, henter]
    dsimp only
    rw [perform_bind, hdefine]
  | _ => cases hd

/-- The vocabulary evolves after the fact type has been defined. -/
theorem exists_definitionRun_evolves {d : Script.Declaration} {split : Option Nat}
    (hd : definition? d = some (clauses, split)) {outcome : Outcome}
    (h : s.declare d = (.ok outcome, t)) : ∃ run : s.DefinitionRun split clauses,
      (∃ reports, outcome = .factType run.factType run.created reports) ∧
        run.defined.vocabulary.Evolves t.vocabulary :=
  exists_definitionRun Vocabulary.Evolves.refl Vocabulary.evolves_comparisonFactType
    Vocabulary.evolves_linkFactType Vocabulary.evolves_addQuery Vocabulary.evolves_objectify
    Vocabulary.evolves_setDerivation hd h

end Session

end FactModel
