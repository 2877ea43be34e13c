import FactModel.Proofs.Definition.Commuting
import FactModel.Proofs.Session.Forwards
import FactModel.Proofs.Session.Redeclaring
set_option autoImplicit false

/-!
# Declarations in either order

Two declarations, each of one clause that restates a reading, compile one after the other in both
orders or in neither. In both orders the roles get the same names and their players the same bounds.
Only the enforcement of a new constraint depends on the order: it is that of the first quantifier.

## Main definitions

* `FactModel.Session.InvokingRun` — a clause that invokes a reading once it has been entered.
* `FactModel.Session.Declares` — a clause is declared.
* `FactModel.Session.DeclaresBoth` — one clause is declared, and then another one.

## Main results

* `FactModel.Session.InvokingRun.exists_declares_iff` — a clause is declared just in case it agrees.
* `FactModel.Session.declare_either_order` — what two declarations leave behind in either order.
-/

namespace FactModel

open Attempt Compile Context

namespace Session

variable {s t u : Session} {a b : Script.Clause}

/-- A clause without nested clauses that invokes a reading once it has been entered. -/
structure InvokingRun (s : Session) (clause : Script.Clause) where
  entered : Clause
  /-- The context once all mentions have been bound. -/
  bound : Context
  alignment : Alignment
  /-- The context once the clause has been put into the words of the reading. -/
  aligned : Context
  enter_eq : (enter [clause]).perform s.context = (.ok [entered], bound)
  invokes : Invokes bound entered alignment aligned

/-- A quantifier of the clause states bounds about certain roles. -/
def InvokingRun.Tells (run : s.InvokingRun a) (rs : List RoleId) (q : Quantifier) : Prop :=
  run.aligned.TellsBounds run.entered rs q

/-- A clause is declared. -/
def Declares (s : Session) (clause : Script.Clause) (t : Session) : Prop :=
  ∃ outcome, s.declare (.factType [clause]) = (.ok outcome, t)

/-- One clause is declared, and then another one. -/
def DeclaresBoth (s : Session) (first second : Script.Clause) (t : Session) : Prop :=
  ∃ u, s.Declares first u ∧ u.Declares second t

/-- What vocabularies that scripts lead to have in common. -/
structure Sound (s : Session) : Prop where
  consistent : s.vocabulary.Consistent
  inherits : s.vocabulary.Inherits
  constrained : s.vocabulary.Constrained

/-- What scripts lead to is sound. -/
lemma sound_compileAll_start (settings : Settings) (scripts : List String) :
    ((start settings).compileAll scripts).Sound where
  consistent := consistent_compileAll (consistent_start settings) scripts
  inherits := (evolves_compileAll_start settings scripts).preserves (.empty _)
    Vocabulary.inherits_of_change
  constrained := constrained_compileAll_start settings scripts

/-- Declaring a clause keeps a session sound. -/
lemma Sound.declares (hs : s.Sound) (ha : Script.ArePlain [a]) (h : s.Declares a t) : t.Sound := by
  obtain ⟨outcome, h⟩ := h
  obtain rfl : (s.declare (.factType [a])).2 = t := congrArg Prod.snd h
  exact ⟨consistent_declare hs.consistent ha,
    (evolves_declare hs.consistent _).preserves hs.inherits Vocabulary.inherits_of_change,
    constrained_declare hs.consistent hs.inherits hs.constrained ha⟩

namespace InvokingRun

variable (run : s.InvokingRun a)

/-- Entering a clause that invokes a reading adds no object type. -/
lemma vocabulary_eq (hs : s.Sound) (ha : Script.ArePlain [a]) :
    run.bound.vocabulary = s.vocabulary :=
  run.invokes.vocabulary_of_enter hs.consistent.toWellFormed run.enter_eq
    (ready_of_enter hs.consistent ha run.enter_eq).valid.consistent.toWellFormed

/-- **A clause is declared just in case it agrees** with the role names and the bounds that are
there. Then what it states is recorded. -/
theorem exists_declares_iff (hs : s.Sound) (ha : Script.ArePlain [a]) :
    ((∃ t, s.Declares a t) ↔ Agrees s.vocabulary run.aligned run.entered) ∧
      ∀ t, s.Declares a t → Records s.vocabulary run.aligned run.entered t.vocabulary ∧
        t = { s with vocabulary := t.vocabulary } := by
  have hvocabulary := run.vocabulary_eq hs ha
  have hready := ready_of_enter hs.consistent ha run.enter_eq
  have hinherits : run.bound.vocabulary.Inherits := hvocabulary.symm ▸ hs.inherits
  have hconstrained : run.bound.vocabulary.Constrained := hvocabulary.symm ▸ hs.constrained
  have hsplit := derivationSplit?_singleton a
  have hdefinition : ∀ {t}, s.Declares a t → ∃ f created ds z,
      (defineFactType [run.entered]).perform run.bound = (.ok (f, created, ds), z) ∧
        t = { s with vocabulary := z.vocabulary } := by
    rintro t ⟨outcome, h⟩
    obtain ⟨definition, -, rfl⟩ := exists_definitionRun_factType hsplit h
    have hdefine := definition.define_eq
    obtain ⟨hentered, hbound⟩ := Prod.mk.inj (definition.enter_eq.symm.trans run.enter_eq)
    rw [Option.elim_none, Except.ok.inj hentered, hbound] at hdefine
    exact ⟨_, _, _, _, hdefine, rfl⟩
  rw [← hvocabulary, ← run.invokes.exists_defineFactType_iff hready hinherits hconstrained]
  refine ⟨⟨?_, ?_⟩, fun t h => ?_⟩
  · rintro ⟨t, h⟩
    obtain ⟨f, created, ds, z, hdefine, -⟩ := hdefinition h
    exact ⟨_, z, hdefine⟩
  · rintro ⟨⟨f, created, ds⟩, z, hdefine⟩
    let definition : DefinitionRun s none [a] :=
      ⟨_, _, f, created, ds, z, run.enter_eq, hdefine⟩
    exact ⟨_, _, definition.declare_eq hsplit⟩
  · obtain ⟨f, created, ds, z, hdefine, rfl⟩ := hdefinition h
    exact ⟨run.invokes.records hready hinherits hconstrained hdefine, rfl⟩

/-- A clause invokes the same reading in the same way after another one has been declared. -/
def after (run : s.InvokingRun b) (hs : s.Sound) (hb : Script.ArePlain [b]) {w : Vocabulary}
    (hgrows : s.vocabulary.Grows w) (hsame : SameReadings s.vocabulary w) (hw : w.WellFormed) :
    InvokingRun { s with vocabulary := w } b where
  entered := run.entered
  bound := run.bound.onto w
  alignment := run.alignment
  aligned := run.aligned.onto w
  enter_eq := by
    have hvalid := (ready_of_enter hs.consistent hb run.enter_eq).valid
    have hvocabulary := run.vocabulary_eq hs hb
    refine perform_enter_over (valid_context hs.consistent) run.enter_eq
      (hvalid.completedBy (hvocabulary.symm ▸ hgrows) hw ?_)
    rw [hvocabulary, Vocabulary.objectTypeIds, hsame.objectTypes_eq, Vocabulary.objectTypeIds]
  invokes := by
    have hvalid := (ready_of_enter hs.consistent hb run.enter_eq).valid
    have hvocabulary := run.vocabulary_eq hs hb
    exact run.invokes.onto hvalid.consistent.toWellFormed (hvocabulary.symm ▸ hgrows)
      (hvocabulary.symm ▸ hsame)

/-- Over a vocabulary with the same readings the clause agrees just in case it does where it is. -/
lemma agrees_onto_iff (hs : s.Sound) (ha : Script.ArePlain [a]) {w : Vocabulary}
    (hgrows : s.vocabulary.Grows w) (hsame : SameReadings s.vocabulary w) :
    Agrees w (run.aligned.onto w) run.entered ↔ Agrees w run.aligned run.entered := by
  have hready := ready_of_enter hs.consistent ha run.enter_eq
  have hvocabulary := (run.invokes.vocabulary_eq).trans (run.vocabulary_eq hs ha)
  have hsaid : run.aligned.SaysAs run.entered (run.aligned.onto w) run.entered :=
    ⟨rfl, rfl, fun _ _ => rfl, fun _ _ => rfl⟩
  have hring := hsaid.ringStated_iff (fun r hr => by
    obtain ⟨m, hm, hrole⟩ := List.mem_filterMap.1 hr
    exact run.invokes.mem_roleIds hready m hm r hrole)
    (hvocabulary.symm ▸ hsame.matchesAs hgrows hs.consistent.toWellFormed)
  constructor
  · exact fun h => ⟨fun m hm r name hdeclares => h.names m hm r name (declares_onto.2 hdeclares),
      h.bounds, hring.1 h.ring⟩
  · exact fun h => ⟨fun m hm r name hdeclares => h.names m hm r name (declares_onto.1 hdeclares),
      h.bounds, hring.2 h.ring⟩

variable (other : s.InvokingRun b)

/-- **Two clauses are declared one after the other** just in case each agrees with what is there,
and they are compatible. Then what they state is recorded, one after the other. -/
theorem exists_declaresBoth_iff (hs : s.Sound) (ha : Script.ArePlain [a])
    (hb : Script.ArePlain [b]) :
    ((∃ t, s.DeclaresBoth a b t) ↔ Agrees s.vocabulary run.aligned run.entered ∧
      Agrees s.vocabulary other.aligned other.entered ∧
        run.aligned.Compatible run.entered other.aligned other.entered) ∧
      ∀ u t, s.Declares a u → u.Declares b t →
        Records s.vocabulary run.aligned run.entered u.vocabulary ∧
          Records u.vocabulary other.aligned other.entered t.vocabulary := by
  obtain ⟨hfirst, hrecords⟩ := run.exists_declares_iff hs ha
  have hsecond : ∀ u, s.Declares a u →
      ((∃ t, u.Declares b t) ↔ Agrees u.vocabulary other.aligned other.entered) ∧
        ∀ t, u.Declares b t → Records u.vocabulary other.aligned other.entered t.vocabulary := by
    intro u hu
    have hsound := hs.declares ha hu
    obtain ⟨hrecorded, hsession⟩ := hrecords u hu
    generalize u.vocabulary = w at *
    subst hsession
    obtain ⟨hiff, hlater⟩ := (other.after hs hb hrecorded.grows hrecorded.sameReadings
      hsound.consistent.toWellFormed).exists_declares_iff hsound hb
    refine ⟨hiff.trans (other.agrees_onto_iff hs hb hrecorded.grows hrecorded.sameReadings),
      fun t ht => ?_⟩
    obtain ⟨hnext, -⟩ := hlater t ht
    refine { hnext with name_iff := fun r name => ?_ }
    rw [hnext.name_iff]
    refine or_congr_right (exists_congr fun m => and_congr_right fun _ => declares_onto)
  refine ⟨⟨?_, ?_⟩, fun u t hu ht => ⟨(hrecords u hu).1, (hsecond u hu).2 t ht⟩⟩
  · rintro ⟨t, u, hu, ht⟩
    exact ⟨hfirst.1 ⟨u, hu⟩, (hrecords u hu).1.agrees_iff.1 ((hsecond u hu).1.1 ⟨t, ht⟩)⟩
  · rintro ⟨hagrees, hrest⟩
    obtain ⟨u, hu⟩ := hfirst.2 hagrees
    obtain ⟨t, ht⟩ := (hsecond u hu).1.2 ((hrecords u hu).1.agrees_iff.2 hrest)
    exact ⟨t, u, hu, ht⟩

end InvokingRun

/-- A clause without nested clauses that is declared without a new fact type invokes a reading. -/
lemma exists_invokingRun (hs : s.Sound) (ha : Script.ArePlain [a]) (hflat : a.IsFlat)
    {f : FactTypeId}
    {reports : List ClauseReport}
    (h : s.declare (.factType [a]) = (.ok (.factType f false reports), t)) :
    Nonempty (s.InvokingRun a) := by
  obtain ⟨run, houtcome, -⟩ := exists_definitionRun_factType (derivationSplit?_singleton a) h
  obtain ⟨rfl, hcreated, -⟩ := Outcome.factType.inj houtcome
  have hentered := perform_enter_singleton (valid_context hs.consistent) run.enter_eq
  have henter := hentered ▸ run.enter_eq
  have hdefine := run.define_eq
  rw [Option.elim_none, hentered, ← hcreated] at hdefine
  obtain ⟨y, hstate, -⟩ := perform_defineFactType_eq_ok.1 hdefine
  have hready := ready_of_enter hs.consistent ha henter
  obtain ⟨hflat', -, -⟩ := hflat.adopt s.context
  obtain ⟨alignment, z, hinvokes⟩ :=
    exists_invokes hflat' (hready.unmatched _ List.mem_cons_self).1 hstate
  exact ⟨⟨_, _, alignment, z, henter, hinvokes⟩⟩

/-- **Either order.** After any scripts let two declarations that scripts contain, each of one
clause without nested clauses, restate readings. They compile one after the other in one order just
in case they do in the other one. Then the roles have the same names in both orders, there is a
constraint over all roles that either of the two states bounds about, and constraints over the same
roles have the same minimum and the same maximum, and both are mandatory or neither is. A constraint
that was not there before has the enforcement of the first declaration, if this states bounds about
its roles.

**Proof sketch.** A declaration compiles just in case its role names and its bounds agree with those
that are there, and then it records them. So both orders ask for the same: each declaration agrees
with what there was, and the two agree with each other, which is symmetric. What is recorded in the
end is what either of them states. -/
theorem declare_either_order (settings : Settings) (scripts : List String) {source source' : String}
    {ds ds' : List Script.Declaration} {a b : Script.Clause} (hparse : Script.parse source = .ok ds)
    (ha : .factType [a] ∈ ds) (hparse' : Script.parse source' = .ok ds') (hb : .factType [b] ∈ ds')
    (run : ((start settings).compileAll scripts).InvokingRun a)
    (other : ((start settings).compileAll scripts).InvokingRun b) :
    let s := (start settings).compileAll scripts
    ((∃ t, s.DeclaresBoth a b t) ↔ ∃ t, s.DeclaresBoth b a t) ∧
    ∀ t t', s.DeclaresBoth a b t → s.DeclaresBoth b a t' →
      (∀ r, (t.vocabulary.role r).name = (t'.vocabulary.role r).name) ∧
      (∀ rs q, run.Tells rs q ∨ other.Tells rs q →
        (∃ p, t.vocabulary.Spans p rs) ∧ ∃ p, t'.vocabulary.Spans p rs) ∧
      (∀ rs p p', t.vocabulary.Spans p rs → t'.vocabulary.Spans p' rs →
        (t'.vocabulary.presenceConstraint p').min = (t.vocabulary.presenceConstraint p).min ∧
        (t'.vocabulary.presenceConstraint p').max = (t.vocabulary.presenceConstraint p).max ∧
        (t'.vocabulary.presenceConstraint p').isMandatory =
          (t.vocabulary.presenceConstraint p).isMandatory) ∧
      ∀ rs q p, run.Tells rs q → (∀ p, ¬s.vocabulary.Spans p rs) → t.vocabulary.Spans p rs →
        (t.vocabulary.presenceConstraint p).enforcement = q.enforcement := by
  intro s
  have hs : s.Sound := sound_compileAll_start settings scripts
  have ha : Script.ArePlain [a] := Script.arePlain_iff.2 (Script.isPlain_of_parse hparse _ ha)
  have hb : Script.ArePlain [b] := Script.arePlain_iff.2 (Script.isPlain_of_parse hparse' _ hb)
  obtain ⟨hforth, hrecords⟩ := run.exists_declaresBoth_iff other hs ha hb
  obtain ⟨hback, hrecords'⟩ := other.exists_declaresBoth_iff run hs hb ha
  refine ⟨hforth.trans (Iff.trans ?_ hback.symm), ?_⟩
  · exact ⟨fun ⟨hx, hy, hxy⟩ => ⟨hy, hx, hxy.symm⟩, fun ⟨hy, hx, hyx⟩ => ⟨hx, hy, hyx.symm⟩⟩
  rintro t t' ⟨u, hu, ht⟩ ⟨u', hu', ht'⟩
  obtain ⟨hfirst, hsecond⟩ := hrecords u t hu ht
  obtain ⟨hfirst', hsecond'⟩ := hrecords' u' t' hu' ht'
  have hsoundU := hs.declares ha hu
  have hsound := hsoundU.declares hb ht
  have hsound' := (hs.declares hb hu').declares ha ht'
  -- Bounds are those that were there, and those that either clause states.
  have hbounds : ∀ rs b n, t.vocabulary.IsBoundedOver rs b n ↔
    t'.vocabulary.IsBoundedOver rs b n := by
    intro rs b n
    rw [hsecond.bound_iff, hfirst.bound_iff, hsecond'.bound_iff, hfirst'.bound_iff]
    exact or_right_comm
  refine ⟨fun r => ?_, fun rs q htells => ?_, fun rs p p' hp hp' => ?_,
    fun rs q p htells hnew hp => ?_⟩
  · ext name
    rw [hsecond.name_iff, hfirst.name_iff, hsecond'.name_iff, hfirst'.name_iff]
    exact or_right_comm
  · obtain ⟨b, n, hn⟩ : ∃ b n, t.vocabulary.IsBoundedOver rs b n := by
      rcases htells with htells | htells <;> obtain ⟨b, n, hn⟩ := htells.exists_frequency <;>
        refine ⟨b, n, ?_⟩ <;> rw [hsecond.bound_iff, hfirst.bound_iff]
      · exact .inl (.inr ⟨rs, q, htells, .refl _, hn⟩)
      · exact .inr ⟨rs, q, htells, .refl _, hn⟩
    exact ⟨hn.exists_spans, ((hbounds rs b n).1 hn).exists_spans⟩
  · exact Vocabulary.bounds_eq_of_isBoundedOver_iff hsound.constrained hsound'.constrained hbounds
      hp.mem hp'.mem (hp.perm.trans hp'.perm.symm)
  · obtain ⟨-, -, -, hfills, -⟩ := run.invokes.told (ready_of_enter hs.consistent ha run.enter_eq)
    have hwf := hsoundU.consistent.toWellFormed
    obtain ⟨p', hp'⟩ := hfirst.exists_spans htells
    obtain rfl := (hp'.grows hsecond.grows hwf).unique hp hsound.constrained
    rw [(hsecond.grows.presenceConstraint hp'.mem).enforcement_eq]
    exact hfirst.enforcement_eq hs.consistent.toWellFormed hfills htells hnew hp'

/-- The clause of `A sees at least one B;`. -/
def seesAtLeastOne : Script.Clause :=
  { phrases := [.mention { term := "A" }, .word "sees",
      .mention { quantifier := some { min := some 1 }, term := "B" }] }

/-- The clause of `A sees at most one (otherwise alert B) B;`. -/
def seesAtMostOne : Script.Clause :=
  { phrases := [.mention { term := "A" }, .word "sees",
      .mention { quantifier := some { max := some 1, enforcement := some ⟨"alert", some "B"⟩ }
                 term := "B" }] }

/-- The two texts read as their clauses. -/
lemma parse_sees :
    Script.parse "A sees at least one B;" = .ok [.factType [seesAtLeastOne]] ∧
      Script.parse "A sees at most one (otherwise alert B) B;" = .ok [.factType [seesAtMostOne]] :=
  by constructor <;> rw [Script.parse_ofList] <;> rfl

/-- The two clauses are declared in both orders, and leave a constraint over the same roles. -/
lemma declaresBoth_sees :
    let s := (start {}).compileAll ["entity type A; entity type B; A sees B;"]
    let a := seesAtLeastOne
    let b := seesAtMostOne
    let t := ((s.declare (.factType [a])).2.declare (.factType [b])).2
    let t' := ((s.declare (.factType [b])).2.declare (.factType [a])).2
    s.DeclaresBoth a b t ∧ s.DeclaresBoth b a t' ∧ (Nonempty (s.InvokingRun a) ∧
      Nonempty (s.InvokingRun b)) ∧ s.vocabulary.presenceConstraintIds = [] ∧
        t.vocabulary.spannedRoles ⟨0⟩ = t'.vocabulary.spannedRoles ⟨0⟩ ∧
          (t.vocabulary.presenceConstraint ⟨0⟩).enforcement = none ∧
            (t'.vocabulary.presenceConstraint ⟨0⟩).enforcement = some ⟨"alert", some "B"⟩ := by
  intro s a b t t'
  have hcomputed : (s.declare (.factType [a])).1.toOption =
        some (.factType ⟨0⟩ false [⟨"A sees B", some ⟨0⟩, some ⟨0⟩, 0, none⟩]) ∧
      (s.declare (.factType [b])).1.toOption =
        some (.factType ⟨0⟩ false [⟨"A sees B", some ⟨0⟩, some ⟨0⟩, 0, none⟩]) ∧
      ((s.declare (.factType [a])).2.declare (.factType [b])).1.toOption =
        some (.factType ⟨0⟩ false [⟨"A sees B", some ⟨0⟩, some ⟨0⟩, 0, none⟩]) ∧
      ((s.declare (.factType [b])).2.declare (.factType [a])).1.toOption =
        some (.factType ⟨0⟩ false [⟨"A sees B", some ⟨0⟩, some ⟨0⟩, 0, none⟩]) ∧
      s.vocabulary.presenceConstraintIds = [] ∧
      t.vocabulary.spannedRoles ⟨0⟩ = t'.vocabulary.spannedRoles ⟨0⟩ ∧
      (t.vocabulary.presenceConstraint ⟨0⟩).enforcement = none ∧
      (t'.vocabulary.presenceConstraint ⟨0⟩).enforcement = some ⟨"alert", some "B"⟩ := by
    unfold t t' s
    rw [compileAll_cons, compile_ofList, compileAll_nil]
    decide +kernel
  obtain ⟨hfirst, hsecond, hforth, hback, hrest⟩ := hcomputed
  have hs := sound_compileAll_start {} ["entity type A; entity type B; A sees B;"]
  have hflat : a.IsFlat ∧ b.IsFlat := by
    simp [a, b, seesAtLeastOne, seesAtMostOne, Script.Clause.IsFlat, Script.Phrase.IsFlat]
  have hplain : Script.ArePlain [a] ∧ Script.ArePlain [b] :=
    ⟨Script.arePlain_iff.2 (Script.isPlain_of_parse parse_sees.1 _ List.mem_cons_self),
      Script.arePlain_iff.2 (Script.isPlain_of_parse parse_sees.2 _ List.mem_cons_self)⟩
  exact ⟨⟨_, ⟨_, declare_eq_of_toOption hfirst⟩, _, declare_eq_of_toOption hforth⟩,
    ⟨_, ⟨_, declare_eq_of_toOption hsecond⟩, _, declare_eq_of_toOption hback⟩,
    ⟨exists_invokingRun hs hplain.1 hflat.1 (declare_eq_of_toOption hfirst),
      exists_invokingRun hs hplain.2 hflat.2 (declare_eq_of_toOption hsecond)⟩, hrest⟩

/-- What is seen at least once and at most once is bounded in either order. -/
theorem declare_either_order_sees :
    let s := (start {}).compileAll ["entity type A; entity type B; A sees B;"]
    let a := seesAtLeastOne
    let b := seesAtMostOne
    ((∃ t, s.DeclaresBoth a b t) ↔ ∃ t, s.DeclaresBoth b a t) ∧ ∃ t, s.DeclaresBoth a b t := by
  intro s a b
  obtain ⟨hforth, -, ⟨⟨run⟩, ⟨other⟩⟩, -⟩ := declaresBoth_sees
  exact ⟨(declare_either_order {} _ parse_sees.1 List.mem_cons_self parse_sees.2
    List.mem_cons_self run other).1, _, hforth⟩

/-- The enforcement of a constraint is that of the first declaration: it is none, or to alert
somebody. -/
theorem exists_enforcement_of_first :
    let s := (start {}).compileAll ["entity type A; entity type B; A sees B;"]
    ∃ a b t t', Script.parse "A sees at least one B;" = .ok [.factType [a]] ∧
      Script.parse "A sees at most one (otherwise alert B) B;" = .ok [.factType [b]] ∧
      s.vocabulary.presenceConstraintIds = [] ∧ s.DeclaresBoth a b t ∧ s.DeclaresBoth b a t' ∧
        t.vocabulary.spannedRoles ⟨0⟩ = t'.vocabulary.spannedRoles ⟨0⟩ ∧
          (t.vocabulary.presenceConstraint ⟨0⟩).enforcement ≠
            (t'.vocabulary.presenceConstraint ⟨0⟩).enforcement := by
  intro s
  obtain ⟨hforth, hback, -, hnone, hspanned, henforcement, henforcement'⟩ := declaresBoth_sees
  refine ⟨_, _, _, _, parse_sees.1, parse_sees.2, hnone, hforth, hback, hspanned, fun hsame => ?_⟩
  cases henforcement.symm.trans (hsame.trans henforcement')

end Session

end FactModel
