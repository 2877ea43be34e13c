import FactModel.Proofs.Definition.Constraining
import FactModel.Proofs.Session.Definitions
import FactModel.Proofs.Vocabulary.Additions
set_option autoImplicit false

/-!
# Constraints of vocabularies

Constraints come from the quantifiers and qualifiers of clauses that state fact types. In every
vocabulary that scripts lead to they are well posed, no two of them are over the same roles, and the
bounds that a declaration states are there once it has been compiled.

## Main definitions

* `FactModel.Vocabulary.EvolvesSparing` — a vocabulary evolves while no constraint changes.

## Main results

* `FactModel.Session.constrained_compileAll_start` — constraints are well posed after any scripts.
* `FactModel.Session.constrained_declare_definition` — what a declaration states is embedded.
-/

namespace FactModel

open Attempt Compile Context

namespace Vocabulary

variable {v w : Vocabulary}

/-- The vocabulary has evolved, and no constraint has changed. -/
structure EvolvesSparing (v w : Vocabulary) : Prop where
  evolves : v.Evolves w
  spares : v.SparesConstraints w

/-- A vocabulary that does not change evolves without a change of constraints. -/
lemma EvolvesSparing.refl (v : Vocabulary) : v.EvolvesSparing v :=
  ⟨.refl v, .refl v⟩

instance : Trans EvolvesSparing EvolvesSparing EvolvesSparing :=
  ⟨fun h h' => ⟨Trans.trans h.evolves h'.evolves, Trans.trans h.spares h'.spares⟩⟩

/-- Adding implied fact types changes no constraint. -/
lemma AddsOnlyImplied.sparesConstraints (h : v.AddsOnlyImplied w) : v.SparesConstraints w :=
  ⟨h.presenceConstraints_eq, h.ringConstraints_eq⟩

/-- An edit that evolves the vocabulary and changes no constraint does both. -/
lemma leads_evolvesSparing {α : Type} {edit : Edit α} {R : Vocabulary → Vocabulary → Prop}
    (h : edit.Leads Evolves v fun _ _ => True) (h' : edit.Leads R v fun _ _ => True)
    (hR : ∀ w, R v w → v.SparesConstraints w) : edit.Leads EvolvesSparing v fun _ _ => True :=
  (h.both h').weaken fun w hw => ⟨hw.1, hR w hw.2⟩

/-- Constraints stay well posed while none of them changes. -/
lemma Constrained.evolvesSparing (h : v.Constrained) (hv : v.WellFormed) (hi : v.Inherits)
    (hw : v.EvolvesSparing w) : w.Constrained :=
  h.retains hv hi (hw.evolves.preserves hi inherits_of_change) hw.evolves.retains hw.spares

end Vocabulary

namespace Session

open Vocabulary

variable {s t : Session} {clauses : List Script.Clause} {split : Option Nat}

/-- Once all mentions have been bound, constraints are as they were. -/
lemma evolvesSparing_of_enter {cs : List Clause} {y : Context}
    (h : (enter clauses).perform s.context = (.ok cs, y)) :
    s.vocabulary.EvolvesSparing y.vocabulary :=
  ⟨((evolving_enter clauses s.context).of_perform h).1,
    ((sparing_enter clauses).through Spares.sparesConstraints s.context |>.of_perform h).1⟩

/-- After its fact type has been defined a declaration changes no constraint. -/
lemma exists_definitionRun_evolvesSparing {d : Script.Declaration}
    (hd : definition? d = some (clauses, split)) {outcome : Outcome}
    (h : s.declare d = (.ok outcome, t)) : ∃ run : s.DefinitionRun split clauses,
      (∃ reports, outcome = .factType run.factType run.created reports) ∧
        run.defined.vocabulary.EvolvesSparing t.vocabulary :=
  exists_definitionRun EvolvesSparing.refl
    (fun v operator left right => leads_evolvesSparing (evolves_comparisonFactType v operator left
      right) (leads_comparisonFactType_adds v operator left right) fun _ => (·.sparesConstraints))
    (fun v t r => leads_evolvesSparing (evolves_linkFactType v t r) (leads_linkFactType_adds v t r)
      fun _ => (·.sparesConstraints))
    (fun v g => leads_evolvesSparing (R := SparesConstraints) (evolves_addQuery v g)
      (leads_extend ⟨rfl, rfl⟩ trivial) fun _ => id)
    (fun v term f => leads_evolvesSparing (evolves_objectify v term f) (spares_objectify v term f)
      fun _ => (·.sparesConstraints))
    (fun v f q => leads_evolvesSparing (R := SparesConstraints) (evolves_setDerivation v f q)
      (leads_modify ⟨rfl, rfl⟩ trivial) fun _ => id) hd h

/-- The stated clauses of a definition are embedded in well-posed constraints. -/
lemma DefinitionRun.adequate (run : s.DefinitionRun split clauses) (hs : s.vocabulary.Consistent)
    (hi : s.vocabulary.Inherits) (hc : s.vocabulary.Constrained)
    (hplain : Script.ArePlain clauses) : run.defined.Constrained ∧
      List.Forall₂ Clause.KeepsMentions run.stated run.head ∧
      ∀ d ∈ run.head, (∃ q, run.defined.States run.factType d q) ∧ run.defined.Adequate d := by
  have hbound := evolvesSparing_of_enter run.enter_eq
  exact adequate_defineFactType (run.ready hs hplain)
    (hbound.evolves.preserves hi inherits_of_change)
    (hc.evolvesSparing hs.toWellFormed hi hbound) run.define_eq

/-- A declaration that defines no fact type changes no constraint. -/
lemma sparesConstraints_declare {d : Script.Declaration} (hd : definition? d = none)
    {outcome : Outcome} (h : s.declare d = (.ok outcome, t)) :
    s.vocabulary.SparesConstraints t.vocabulary :=
  through_declare SparesConstraints.refl
    (fun v operator left right => (leads_comparisonFactType_adds v operator left right).weaken
      fun _ => (·.sparesConstraints))
    (fun v t r => (leads_linkFactType_adds v t r).weaken fun _ => (·.sparesConstraints))
    (fun _ _ => leads_extend ⟨rfl, rfl⟩ trivial)
    (fun v name kind isForward => (spares_declareObjectType v name kind isForward).weaken
      fun _ => Spares.sparesConstraints)
    (fun v a b => (spares_addSubtype v a b).weaken fun _ => Spares.sparesConstraints) hd h

/-- Declarations keep constraints well posed. -/
lemma constrained_declare (hs : s.vocabulary.Consistent) (hi : s.vocabulary.Inherits)
    (hc : s.vocabulary.Constrained) {d : Script.Declaration} (hplain : Script.ArePlain d.clauses) :
    (s.declare d).2.vocabulary.Constrained := by
  rcases hd : s.declare d with ⟨_ | outcome, t⟩
  · obtain rfl := eq_of_declare_eq_error hd
    exact hc
  have hevolves := evolves_declare hs d
  rw [hd] at hevolves
  rcases hdefinition : definition? d with _ | ⟨clauses, split⟩
  · exact hc.evolvesSparing hs.toWellFormed hi ⟨hevolves, sparesConstraints_declare hdefinition hd⟩
  · obtain rfl := clauses_of_definition? hdefinition
    obtain ⟨run, -, hrun⟩ := exists_definitionRun_evolvesSparing hdefinition hd
    have hposed := (run.adequate hs hi hc hplain).1
    exact hposed.constrained.evolvesSparing hposed.valid.consistent.toWellFormed
      hposed.inherits hrun

/-- **Constraints are well posed.** Whatever scripts have been compiled, every presence constraint
spans some roles of one fact type, each once, and is mandatory just in case its minimum is above
zero; every ring constraint is over two roles of one fact type whose players share a supertype; no
two presence constraints span the same set of roles, and no two ring constraints are over the same
two.

**Proof sketch.** Constraints are added by definitions only. Before one is added, the roles have
been looked up, and looking them up is right since no role sequence of a clause has a role twice. -/
theorem constrained_compileAll_start (settings : Settings) (scripts : List String) :
    ((start settings).compileAll scripts).vocabulary.Constrained :=
  (compileAll_induction
    (P := fun s => s.vocabulary.Consistent ∧ s.vocabulary.Inherits ∧ s.vocabulary.Constrained)
    (fun _ d hs hplain => ⟨consistent_declare hs.1 hplain,
      (evolves_declare hs.1 d).preserves hs.2.1 inherits_of_change,
      constrained_declare hs.1 hs.2.1 hs.2.2 hplain⟩)
    ⟨consistent_start settings, .empty _, constrained_empty _⟩ scripts).2.2

/-- **What declarations state is embedded.** Whatever scripts have been compiled, constraints are
well posed. Let a declaration then define a fact type and compile. The mentions of each clause that
states the fact type have different roles of it. If there are two or more of them and one has a
bound, then exactly one presence constraint is over the roles of the others, and it has the bounds
stated. The clauses behind a `where` state nothing, and neither do those within others.

**Proof sketch.** Every clause comes to state a reading, with its mentions in the roles of a
sequence. The constraint that is looked up for a mention is over the other roles. Bounds that are
there can only be filled in, or the declaration is refused, so that they stay while further clauses
are embedded. -/
theorem constrained_declare_definition (settings : Settings) (scripts : List String) :
    let s := (start settings).compileAll scripts
    s.vocabulary.Constrained ∧
    ∀ script ds, Script.parse script = .ok ds → ∀ d ∈ ds, ∀ outcome t,
      s.declare d = (.ok outcome, t) → ∀ clauses split, definition? d = some (clauses, split) →
        ∃ run : s.DefinitionRun split clauses,
          (∃ reports, outcome = .factType run.factType run.created reports) ∧
          ∀ c ∈ run.stated, run.defined.Fills run.factType c.mentions ∧
            (2 ≤ c.mentions.length → ∀ m ∈ c.mentions, ∀ q ∈ (run.bound.mention m).quantifier,
              q.isUnconstrained = false →
                ∃ p, t.vocabulary.Bounds (run.defined.otherRoles c m) q p ∧
                  ∀ p' ∈ t.vocabulary.presenceConstraintIds,
                    (t.vocabulary.spannedRoles p').Perm (run.defined.otherRoles c m) → p' = p) := by
  intro s
  have hconstrained := constrained_compileAll_start settings scripts
  refine ⟨hconstrained, fun script ds hparse d hd outcome t h clauses split hdefinition => ?_⟩
  have hs := consistent_compileAll (consistent_start settings) scripts
  have hi : s.vocabulary.Inherits :=
    (evolves_compileAll_start settings scripts).preserves (.empty _) inherits_of_change
  have hplain : Script.ArePlain d.clauses :=
    Script.arePlain_iff.2 (Script.isPlain_of_parse hparse d hd)
  obtain rfl := clauses_of_definition? hdefinition
  obtain ⟨run, houtcome, hrun⟩ := exists_definitionRun_evolvesSparing hdefinition h
  obtain ⟨hdefined, hkeeps, hheads⟩ := run.adequate hs hi hconstrained hplain
  have hposed : t.vocabulary.Constrained := hdefined.constrained.evolvesSparing
    hdefined.valid.consistent.toWellFormed hdefined.inherits hrun
  have hready := run.ready hs hplain
  have hsustains := ((defines_sustains run.bound.mentions.size).defineFactType run.stated
    hready.sustains).of_perform run.define_eq |>.1
  have hsame : run.stated.map (·.mentions) = run.head.map (·.mentions) := by
    rw [← List.forall₂_eq_eq_eq, List.forall₂_map_left_iff, List.forall₂_map_right_iff]
    exact hkeeps.imp fun _ _ hcd => hcd.mentions_eq.symm
  refine ⟨run, houtcome, fun c hc => ?_⟩
  obtain ⟨e, he, hmentions⟩ := List.mem_map.1 (hsame ▸ List.mem_map_of_mem hc)
  obtain ⟨⟨q, hstates⟩, hadequate⟩ := hheads e he
  replace hmentions : c.mentions = e.mentions := hmentions.symm
  refine ⟨hmentions ▸ hstates.fills, fun hlength m hm q hq hstated => ?_⟩
  have hlt :=
    (hready.isBound m (mem_allMentions_of_mem hc (c.mentions_subset_allMentions hm))).index_lt
  rw [← (hsustains.carries.continues m hlt).quantifier_eq] at hq
  obtain ⟨p, hp⟩ := hadequate (hmentions ▸ hlength) m (hmentions ▸ hm) q hq hstated
  rw [show run.defined.otherRoles c m = run.defined.otherRoles e m by
    rw [otherRoles, otherRoles, hmentions]]
  have hp' := hp.grows hrun.evolves.retains.toGrows hdefined.valid.consistent.toWellFormed
  refine ⟨p, hp', fun p' hp'' hperm => hposed.presence_unique p' hp'' p hp'.mem fun r => ?_⟩
  exact (hperm.trans hp'.perm.symm).mem_iff

/-! ## Declarations with bounds -/

/-- The clauses right below the mentions of others. -/
def clausesBelow (cs : List Clause) : List Clause :=
  cs.flatMap fun c => c.slots.flatMap (·.nested)

/-- Whether a declaration defines a fact type by clauses of which some are in front of its `where`,
and a mention has a bound in a clause of two or more mentions among those that are picked. -/
def definesBounded (s : Session) (split : Option Nat) (pick : List Clause → List Clause)
    (d : Script.Declaration) : Bool :=
  match definition? d with
  | some (clauses, n) =>
    let entered := (enter clauses).perform s.context
    decide (n = split) && (pick (entered.1.toOption.getD [])).any fun c =>
      decide (2 ≤ c.mentions.length) && c.mentions.any fun m =>
        (entered.2.mention m).quantifier.any (!·.isUnconstrained)
  | none => false

variable {pick : List Clause → List Clause} {d : Script.Declaration}

/-- A declaration that defines a bounded fact type defines a fact type. -/
lemma definition?_of_definesBounded (h : s.definesBounded split pick d = true) :
    ∃ clauses, definition? d = some (clauses, split) := by
  unfold definesBounded at h
  split at h
  · next clauses n heq =>
    obtain rfl := of_decide_eq_true (Bool.and_eq_true_iff.1 h).1
    exact ⟨clauses, heq⟩
  · cases h

/-- In the run of such a definition there is a bound in a clause of two or more mentions. -/
lemma DefinitionRun.exists_bound (run : s.DefinitionRun split clauses)
    (hd : definition? d = some (clauses, split)) (h : s.definesBounded split pick d = true) :
    ∃ c ∈ pick run.entered, 2 ≤ c.mentions.length ∧ ∃ m ∈ c.mentions,
      ∃ q ∈ (run.bound.mention m).quantifier, q.isUnconstrained = false := by
  rw [definesBounded, hd] at h
  dsimp only at h
  rw [run.enter_eq, Bool.and_eq_true, List.any_eq_true] at h
  obtain ⟨-, c, hc, hbounded⟩ := h
  rw [Bool.and_eq_true, List.any_eq_true] at hbounded
  obtain ⟨hlength, m, hm, hquantifier⟩ := hbounded
  obtain ⟨q, hq, hstated⟩ := (Option.any_eq_true _ _).1 hquantifier
  exact ⟨c, hc, of_decide_eq_true hlength, m, hm, q, hq, by simpa using hstated⟩

/-- A company is stated to be at most one for each person, and so a constraint has that bound. -/
theorem constrained_declare_definition_works :
    let s := (start {}).compileAll ["entity type Person; entity type Company;"]
    ∃ d clauses, Script.parse "Person works for at most one Company;" = .ok [d] ∧
      definition? d = some (clauses, none) ∧ ∃ outcome t, s.declare d = (.ok outcome, t) ∧
        ∃ run : s.DefinitionRun none clauses, ∃ c ∈ run.stated, ∃ m ∈ c.mentions,
          ∃ q ∈ (run.bound.mention m).quantifier, q.isUnconstrained = false ∧
            ∃ p, t.vocabulary.Bounds (run.defined.otherRoles c m) q p := by
  intro s
  have hcompiles : s.compiles "Person works for at most one Company;"
      (s.definesBounded none id) = true := by
    unfold s
    rw [compileAll_cons, compile_ofList, compileAll_nil, compiles_ofList]
    decide +kernel
  obtain ⟨d, outcome, t, hparse, hbounded, h⟩ := exists_of_compiles hcompiles
  obtain ⟨clauses, hdefinition⟩ := definition?_of_definesBounded hbounded
  obtain ⟨run, -, hrun⟩ := (constrained_declare_definition {} _).2 _ _ hparse d List.mem_cons_self
    outcome t h clauses none hdefinition
  obtain ⟨c, hc, hlength, m, hm, q, hq, hstated⟩ := run.exists_bound hdefinition hbounded
  obtain ⟨p, hp, -⟩ := (hrun c hc).2 hlength m hm q hq hstated
  exact ⟨d, clauses, hparse, hdefinition, outcome, t, h, run, c, hc, m, hm, q, hq, hstated, p, hp⟩

/-- A declaration compiles by which a fact type is defined and no presence constraint is posed,
though a mention has a bound in a clause of two or more mentions among those picked. -/
def LeavesUnbounded (s : Session) (text : String) (split : Option Nat)
    (pick : List Clause → List Clause) : Prop :=
  ∃ d clauses, Script.parse text = .ok [d] ∧ definition? d = some (clauses, split) ∧
    ∃ outcome t, s.declare d = (.ok outcome, t) ∧
      ∃ run : s.DefinitionRun split clauses, ∃ c ∈ pick run.entered, 2 ≤ c.mentions.length ∧
        ∃ m ∈ c.mentions, ∃ q ∈ (run.bound.mention m).quantifier, q.isUnconstrained = false ∧
          ∀ roles p, ¬t.vocabulary.Bounds roles q p

/-- Whether a declaration leaves the vocabulary without presence constraints. -/
def posesNone (s : Session) (d : Script.Declaration) : Bool :=
  (s.declare d).2.vocabulary.presenceConstraints.isEmpty

/-- A text that compiles to such a definition leaves the fact type unbounded. -/
lemma leavesUnbounded_of_compiles {text : String}
    (h : s.compiles text (fun d => s.definesBounded split pick d && s.posesNone d) = true) :
    s.LeavesUnbounded text split pick := by
  obtain ⟨d, outcome, t, hparse, hform, hdeclare⟩ := exists_of_compiles h
  obtain ⟨hbounded, hnone⟩ := Bool.and_eq_true_iff.1 hform
  obtain ⟨clauses, hdefinition⟩ := definition?_of_definesBounded hbounded
  obtain ⟨run, -, -⟩ := exists_definitionRun_evolves hdefinition hdeclare
  obtain ⟨c, hc, hlength, m, hm, q, hq, hstated⟩ := run.exists_bound hdefinition hbounded
  refine ⟨d, clauses, hparse, hdefinition, outcome, t, hdeclare, run, c, hc, hlength, m, hm, q, hq,
    hstated, fun roles p hp => ?_⟩
  rw [posesNone, hdeclare, Array.isEmpty_iff_size_eq_zero] at hnone
  have hlt := (mem_presenceConstraintIds _).1 hp.mem
  dsimp only at hnone
  omega

/-- A bound behind a `where` is embedded nowhere, and neither is one in a clause below a mention:
both are for what is to be found, not for what is stated. -/
theorem leavesUnbounded_where_and_below :
    ((start {}).compileAll ["entity type Person; entity type Job; Person has Job;"]).LeavesUnbounded
      "Person is busy where Person has at least 2 Job;" (some 1) id ∧
    ((start {}).compileAll ["entity type Person; entity type Job; Work is where Person has Job;"]
      ).LeavesUnbounded "Work (where Person has at least 2 Job) ends;" none clausesBelow := by
  constructor <;> refine leavesUnbounded_of_compiles ?_ <;>
    rw [compileAll_cons, compile_ofList, compileAll_nil, compiles_ofList] <;>
    decide +kernel

end Session

end FactModel
