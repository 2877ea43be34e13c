import FactModel.Proofs.Context.Reentering
import FactModel.Proofs.Definition.Repeating
import FactModel.Proofs.Session.Bounding
set_option autoImplicit false

/-!
# Declaring a fact type again

A fact type that has been declared can be declared by the same clauses again, which invoke what they
invoked or created the first time, and all that they state is there. Clauses that became readings
have to mention a player for each role, and no two of them may be in the same words. One clause by
itself does.

## Main definitions

* `FactModel.Session.Repeats` — what lets clauses declare a fact type twice.

## Main results

* `FactModel.Session.declare_all_again` — the same declaration adds nothing but role sequences.
* `FactModel.Session.declare_again` — so does a declaration of one clause, whatever it has done.
* `FactModel.Session.exists_refused_again` — a declaration that mentions fewer players than there
  are roles may be refused.
-/

namespace FactModel

open Attempt Compile Context

namespace Session

variable {s : Session} {clauses : List Script.Clause}

/-- A definition without a `where` is all that its declaration does. -/
lemma DefinitionRun.declare_eq (run : s.DefinitionRun none clauses)
    (hsplit : derivationSplit? clauses = none) :
    s.declare (.factType clauses) =
      (.ok (.factType run.factType run.created (run.head.map run.defined.report)),
        { s with vocabulary := run.defined.vocabulary }) := by
  refine declare_eq_ok.2 ⟨run.defined, ?_, rfl⟩
  rw [declaration, hsplit]
  dsimp only
  rw [← bind_pure_comp]
  refine perform_bind_eq_ok.2 ⟨(run.factType, _), run.defined, ?_, rfl⟩
  exact perform_bind_eq_ok.2 ⟨_, _, run.enter_eq, perform_bind_eq_ok.2 ⟨_, _, run.define_eq, rfl⟩⟩

/-- A declaration of a fact type without a `where` consists of its definition. -/
lemma exists_definitionRun_factType (hsplit : derivationSplit? clauses = none) {outcome : Outcome}
    {t : Session} (h : s.declare (.factType clauses) = (.ok outcome, t)) :
    ∃ run : s.DefinitionRun none clauses,
      outcome = .factType run.factType run.created (run.head.map run.defined.report) ∧
        t = { s with vocabulary := run.defined.vocabulary } := by
  have hdefinition : definition? (.factType clauses) = some (clauses, none) := by
    rw [definition?, hsplit]
  obtain ⟨run, -, -⟩ := exists_definitionRun_evolves hdefinition h
  obtain ⟨houtcome, hsession⟩ := Prod.ext_iff.1 (h.symm.trans (run.declare_eq hsplit))
  exact ⟨run, Except.ok.inj houtcome, hsession⟩

/-! ## What clauses write -/

/-- The mentions and the phrases of flat clauses that are entered are those that are written, and
the mentions declare the role names that are written. -/
lemma written_of_enter (hs : s.vocabulary.Consistent) (hflat : ∀ c ∈ clauses, c.IsFlat)
    {cs : List Clause} {y : Context} (h : (enter clauses).perform s.context = (.ok cs, y)) :
    (∀ c ∈ cs, c.IsFlat) ∧ List.Forall₂ (fun clause c =>
      c.phrases.length = clause.phrases.length ∧
      c.mentions.map (fun m => (y.mention m).declaredName?) =
        clause.records.map (·.declaredName?)) clauses cs := by
  obtain ⟨hcs, z, hidentify, hbind⟩ := perform_enter_eq_ok.1 h
  obtain ⟨hholds, htaken⟩ := holds_adoptAll hs s.context.forwardTerms hflat (Prod.ext hcs.symm rfl)
  have hfound := (hholds.identifies hidentify).found.mention_apply Mention.declaredName?
    fun _ _ _ => rfl
  have hbinds := bindsEach_of_bindEach (bindEach_of_bindClauses _ hbind)
  refine ⟨hholds.isFlat, htaken.imp fun clause c hc => ⟨?_, ?_⟩⟩
  · obtain ⟨k, hk⟩ := hc.exists_place
    rw [hk]
    exact Script.length_placePhrases k clause.phrases
  · rw [← hc.records_eq, List.map_map]
    refine List.map_congr_left fun m _ => ?_
    rw [hbinds.mention_eq m]
    exact hfound m

/-- What lets clauses declare a fact type twice. The fact type is plain, and its readings are in
different words. Each clause mentions a player for each role, with no more phrases than there may be
placeholders, and no clause costs anything. If there are several clauses, each role name is declared
for one term only, and it is declared by the first clause of a new fact type. -/
structure Repeats (clauses : List Script.Clause) (f : FactTypeId) (created : Bool)
    (reports : List ClauseReport) (v : Vocabulary) : Prop where
  kind_eq : (v.factType f).kind = .plain
  apart : ∀ q ∈ (v.factType f).readings, ∀ r ∈ (v.factType f).readings, v.SameWords q r → q = r
  mentions_ne_nil : ∀ c ∈ clauses, c.records ≠ []
  length_mentions : ∀ c ∈ clauses, c.records.length = (v.factType f).arity
  length_phrases : ∀ c ∈ clauses, c.phrases.length ≤ Template.placeLimit
  cost_eq : ∀ r ∈ reports, r.cost = 0
  namesFixed : 1 < clauses.length → Script.NamesFixed clauses
  unnamed : ∀ c ∈ if created then clauses.tail else clauses, ∀ m ∈ c.records,
    m.declaredName? = none

/-- Clauses that may be declared twice define their fact type in a way that can be repeated. -/
lemma Repeats.repeatable (run : s.DefinitionRun none clauses) (hs : s.vocabulary.Consistent)
    (hflat : ∀ c ∈ clauses, c.IsFlat)
    (h : Repeats clauses run.factType run.created (run.head.map run.defined.report)
      run.defined.vocabulary) :
    Repeatable run.bound run.entered run.head run.factType run.created run.defined := by
  obtain ⟨-, hwritten⟩ := written_of_enter hs hflat run.enter_eq
  have hrest : List.Forall₂ (fun clause c => c.mentions.map (fun m =>
      (run.bound.mention m).declaredName?) = clause.records.map (·.declaredName?))
      (if run.created then clauses.tail else clauses)
      (if run.created then run.entered.tail else run.entered) := by
    have hnames := hwritten.imp fun _ _ h => h.2
    split
    · rw [← List.drop_one, ← List.drop_one]
      exact List.forall₂_drop 1 hnames
    · exact hnames
  refine ⟨h.kind_eq, h.apart, fun c hc => ?_, fun d hd a ha => ?_, fun hlong => ?_,
    fun c hc m hm => ?_⟩
  · obtain ⟨clause, hclause, hphrases, hnames⟩ := exists_of_forall₂ hwritten hc
    have hlength := congrArg List.length hnames
    rw [List.length_map, List.length_map] at hlength
    refine ⟨fun hnil => h.mentions_ne_nil clause hclause ?_,
      hlength.trans (h.length_mentions clause hclause), hphrases ▸ h.length_phrases clause hclause⟩
    rw [hnil] at hlength
    exact List.length_eq_zero_iff.1 hlength.symm
  · have hcost := h.cost_eq _ (List.mem_map_of_mem hd)
    rw [Context.report, Option.mem_def.1 ha] at hcost
    exact hcost
  · exact playersAgree_of_enter (h.namesFixed (hwritten.length_eq ▸ hlong)) run.enter_eq
  · obtain ⟨clause, hclause, hnames⟩ := exists_of_forall₂ hrest hc
    obtain ⟨record, hrecord, hname⟩ := List.mem_map.1 (hnames ▸ List.mem_map_of_mem hm)
    exact hname ▸ h.unnamed clause hclause record hrecord

/-- A clause that is taken into a context has matched nothing yet. -/
lemma alignment_adopt (clause : Script.Clause) (x : Context) :
    (adopt clause x).1.alignment = none := by
  obtain ⟨phrases, qualifiers, certainty, conjunction⟩ := clause
  rw [Context.adopt]
  rfl

/-- Entering clauses adds no readings. -/
lemma readings_of_enter {cs : List Clause} {y : Context}
    (h : (enter clauses).perform s.context = (.ok cs, y)) :
    y.vocabulary.readings = s.vocabulary.readings :=
  ((leads_enter_through (R := Vocabulary.SparesReadings) (fun _ => ⟨rfl, rfl⟩)
    (fun v name => Vocabulary.sparesReadings_addForwardEntityType v name) clauses
    s.context).of_perform h).1.1

/-- **A run that can be repeated.** A declaration whose definition adds no readings or is repeatable
compiles again right afterwards. It is about the same fact type, which is not new, and adds nothing
but role sequences. -/
lemma DefinitionRun.exists_declare (run : s.DefinitionRun none clauses)
    (hs : s.vocabulary.Consistent) (hi : s.vocabulary.Inherits) (hc : s.vocabulary.Constrained)
    (hplain : Script.ArePlain clauses) (hsplit : derivationSplit? clauses = none)
    (hflat : ∀ c ∈ clauses, c.IsFlat)
    (h : run.defined.vocabulary.readings = run.bound.vocabulary.readings ∨
      Repeatable run.bound run.entered run.head run.factType run.created run.defined) :
    let t : Session := { s with vocabulary := run.defined.vocabulary }
    ∃ reports t', t.declare (.factType clauses) =
      (.ok (.factType run.factType false reports), t') ∧
        t.vocabulary.AddsSequences t'.vocabulary := by
  intro t
  have hvalid := valid_context hs
  have henter := run.enter_eq
  have hdefine := run.define_eq
  rw [Option.elim_none] at hdefine
  obtain ⟨hflat', -⟩ := written_of_enter hs hflat henter
  -- The first declaration.
  have hbound := evolvesSparing_of_enter henter
  have hready := ready_of_enter hs hplain henter
  have hinherits := hbound.evolves.preserves hi Vocabulary.inherits_of_change
  have hconstrained := hc.evolvesSparing hs.toWellFormed hi hbound
  have hroles : s.context.RolesOnly (fun _ => False) run.bound :=
    ((leads_enter_rolesOnly clauses s.context).of_perform henter).1
  obtain ⟨hdefined, -⟩ := adequate_defineFactType hready hinherits hconstrained hdefine
  have hgrows :=
    ((defines_evolving.defineFactType _ run.bound).of_perform hdefine).1.retains.toGrows
  -- The second one.
  have henter' := perform_enter_over hvalid henter
    (hready.valid.completedBy hgrows hdefined.valid.consistent.toWellFormed
      (objectTypeIds_defineFactType hflat' hdefine))
  have hready' := ready_of_enter (s := t) hdefined.valid.consistent hplain henter'
  obtain ⟨y, hrestates⟩ := exists_restates hready hinherits hconstrained (fun m => hroles m id)
    hflat' hdefine hready' h
  obtain ⟨es, z, hdefine', hadds⟩ := hrestates.exists_defineFactType
    (ne_nil_of_defineFactType hdefine) hflat' hready' hdefined.inherits hdefined.constrained
  let again : DefinitionRun t none clauses :=
    ⟨_, _, run.factType, false, es, z, henter', hdefine'⟩
  exact ⟨_, _, again.declare_eq hsplit, hadds⟩

/-- **Declaring again by several clauses.** Let a declaration that a script contains, without nested
clauses and without a `where`, compile after any scripts. It may have added no readings, or its
clauses mention a player for each role, invoke readings at no cost and become readings in different
words. Then the same declaration compiles again right afterwards. It is about the same fact type,
which is not new, and adds nothing but role sequences.

**Proof sketch.** The clauses are entered as before. If they have all invoked readings, what they
invoke is settled by types and readings, which have not changed. Otherwise each of them is in the
words of one reading of the fact type and in those of no other fact type, and it invokes this
one. -/
theorem declare_all_again (settings : Settings) (scripts : List String) {source : String}
    {ds : List Script.Declaration} {f : FactTypeId} {created : Bool} {reports : List ClauseReport}
    (hparse : Script.parse source = .ok ds) (hclauses : .factType clauses ∈ ds)
    (hsplit : derivationSplit? clauses = none) (hflat : ∀ c ∈ clauses, c.IsFlat) {t : Session}
    (hdeclare : ((start settings).compileAll scripts).declare (.factType clauses) =
      (.ok (.factType f created reports), t))
    (hrepeats : t.vocabulary.readings = ((start settings).compileAll scripts).vocabulary.readings ∨
      Repeats clauses f created reports t.vocabulary) :
    ∃ reports' t', t.declare (.factType clauses) = (.ok (.factType f false reports'), t') ∧
      t.vocabulary.AddsSequences t'.vocabulary := by
  have hs := consistent_compileAll (consistent_start settings) scripts
  have hi := (evolves_compileAll_start settings scripts).preserves (.empty _)
    Vocabulary.inherits_of_change
  have hc := constrained_compileAll_start settings scripts
  have hplain : Script.ArePlain clauses :=
    Script.arePlain_iff.2 (Script.isPlain_of_parse hparse _ hclauses)
  generalize (start settings).compileAll scripts = s at hs hi hc hdeclare hrepeats
  obtain ⟨run, houtcome, rfl⟩ := exists_definitionRun_factType hsplit hdeclare
  obtain ⟨rfl, rfl, rfl⟩ := Outcome.factType.inj houtcome
  refine run.exists_declare hs hi hc hplain hsplit hflat (hrepeats.imp (fun hsame => ?_)
    (Repeats.repeatable run hs hflat))
  exact hsame.trans (readings_of_enter run.enter_eq).symm

/-- What bounds one thing for each of another is declared again with a second reading. -/
theorem declare_all_again_seen :
    let s := (start {}).compileAll ["entity type A; entity type B;"]
    ∃ clauses t, Script.parse "A sees at most one B, B is seen by A;" =
        .ok [.factType clauses] ∧ (∃ reports,
      s.declare (.factType clauses) = (.ok (.factType ⟨0⟩ true reports), t)) ∧ ∃ reports' t',
        t.declare (.factType clauses) = (.ok (.factType ⟨0⟩ false reports'), t') ∧
          t.vocabulary.AddsSequences t'.vocabulary := by
  intro s
  let clauses : List Script.Clause := [
    { phrases := [.mention { term := "A" }, .word "sees",
        .mention { quantifier := some { max := some 1 }, term := "B" }] },
    { phrases := [.mention { term := "B" }, .word "is", .word "seen", .word "by",
        .mention { term := "A" }], conjunction := some .comma }]
  have hparse : Script.parse "A sees at most one B, B is seen by A;" =
      .ok [.factType clauses] := by
    rw [Script.parse_ofList]
    rfl
  let t := (s.declare (.factType clauses)).2
  have hcomputed : (s.declare (.factType clauses)).1.toOption = some (.factType ⟨0⟩ true
        [⟨"A sees B", some ⟨0⟩, some ⟨0⟩, 0, none⟩,
          ⟨"B is seen by A", some ⟨0⟩, some ⟨1⟩, 0, none⟩]) ∧
      (t.vocabulary.factType ⟨0⟩).kind = .plain ∧ (t.vocabulary.factType ⟨0⟩).arity = 2 ∧
      (t.vocabulary.factType ⟨0⟩).readings = [⟨0⟩, ⟨1⟩] ∧
      t.vocabulary.placedPlayers ⟨0⟩ ≠ t.vocabulary.placedPlayers ⟨1⟩ := by
    unfold t s
    rw [compileAll_cons, compile_ofList, compileAll_nil]
    decide +kernel
  obtain ⟨hoption, hkind, harity, hreadings, hplayers⟩ := hcomputed
  have hflat : ∀ c ∈ clauses, c.IsFlat := by
    simp [clauses, Script.Clause.IsFlat, Script.Phrase.IsFlat]
  have hdeclare := declare_eq_of_toOption hoption
  -- The two readings have their players in different places.
  have hapart : ∀ q ∈ (t.vocabulary.factType ⟨0⟩).readings,
      ∀ r ∈ (t.vocabulary.factType ⟨0⟩).readings, t.vocabulary.SameWords q r → q = r := by
    rw [hreadings]
    intro q hq r hr hsame
    have hsame' := hsame.placedPlayers_eq
    simp only [List.mem_cons, List.not_mem_nil, or_false] at hq hr
    rcases hq with rfl | rfl <;> rcases hr with rfl | rfl
    · rfl
    · exact absurd hsame' hplayers
    · exact absurd hsame'.symm hplayers
    · rfl
  obtain ⟨reports', t', hagain, hadds⟩ := declare_all_again {} ["entity type A; entity type B;"]
    hparse List.mem_cons_self rfl hflat hdeclare <| .inr
    { kind_eq := hkind
      apart := hapart
      mentions_ne_nil := by decide
      length_mentions := harity ▸ by decide
      length_phrases := by decide
      cost_eq := by decide
      namesFixed := fun _ => by decide
      unnamed := by decide }
  exact ⟨clauses, _, hparse, ⟨_, hdeclare⟩, reports', t', hagain, hadds⟩

/-- **Declaring again.** Let a declaration of one clause that a script contains, without nested
clauses, compile after any scripts. Placeholders have sixty-four bits, which bounds the phrases of
the clause. Then the same declaration compiles again right afterwards. It is about the same fact
type, which is not new, and adds nothing but role sequences.

**Proof sketch.** If the clause invoked a reading no readings have been added. If it became one this
is the only reading of its fact type, and the clause mentions a player for each role. -/
theorem declare_again (settings : Settings) (scripts : List String) {source : String}
    {ds : List Script.Declaration} {clause : Script.Clause} {f : FactTypeId} {created : Bool}
    {reports : List ClauseReport} (hparse : Script.parse source = .ok ds)
    (hclause : .factType [clause] ∈ ds) (hflat : clause.IsFlat)
    (hmention : ∃ m, .mention m ∈ clause.phrases)
    (hsize : clause.phrases.length ≤ Template.placeLimit) {t : Session}
    (hdeclare : ((start settings).compileAll scripts).declare (.factType [clause]) =
      (.ok (.factType f created reports), t)) :
    ∃ reports' t', t.declare (.factType [clause]) = (.ok (.factType f false reports'), t') ∧
      t.vocabulary.AddsSequences t'.vocabulary := by
  have hs := consistent_compileAll (consistent_start settings) scripts
  have hi := (evolves_compileAll_start settings scripts).preserves (.empty _)
    Vocabulary.inherits_of_change
  have hc := constrained_compileAll_start settings scripts
  have hclausePlain := Script.isPlain_of_parse hparse _ hclause
  have hplain : Script.ArePlain [clause] := Script.arePlain_iff.2 hclausePlain
  generalize (start settings).compileAll scripts = s at hs hi hc hdeclare
  have hsplit := derivationSplit?_singleton clause
  obtain ⟨run, houtcome, rfl⟩ := exists_definitionRun_factType hsplit hdeclare
  obtain ⟨rfl, rfl, -⟩ := Outcome.factType.inj houtcome
  refine run.exists_declare hs hi hc hplain hsplit (List.forall_mem_singleton.2 hflat) ?_
  have hvalid := valid_context hs
  have hready := ready_of_enter hs hplain run.enter_eq
  have hbound := evolvesSparing_of_enter run.enter_eq
  have hdefine := run.define_eq
  obtain ⟨hflat', -, hlength⟩ := hflat.adopt s.context
  rw [Option.elim_none] at hdefine
  rw [perform_enter_singleton hvalid run.enter_eq] at hready hdefine ⊢
  cases hcreated : run.created with
  | false =>
    rw [hcreated] at hdefine
    have hinherits := hbound.evolves.preserves hi Vocabulary.inherits_of_change
    exact .inl (readings_of_invokes hready hinherits
      (hc.evolvesSparing hs.toWellFormed hi hbound) hflat' hdefine)
  | true =>
    rw [hcreated] at hdefine
    exact .inr (repeatable_of_created hready hflat'
      (isAdopted_adopt clause s.context (hclausePlain clause List.mem_cons_self)).here
      (alignment_adopt clause _) (Script.Clause.mentions_adopt_ne_nil hmention _)
      (hlength ▸ hsize) hdefine)

/-- What bounds one thing for each of another is declared again. -/
theorem declare_again_sees :
    let s := (start {}).compileAll ["entity type A; entity type B;"]
    ∃ d t, Script.parse "A sees at most one B;" = .ok [d] ∧ (∃ reports,
      s.declare d = (.ok (.factType ⟨0⟩ true reports), t)) ∧ ∃ reports' t',
        t.declare d = (.ok (.factType ⟨0⟩ false reports'), t') ∧
          t.vocabulary.AddsSequences t'.vocabulary := by
  intro s
  let clause : Script.Clause := { phrases := [.mention { term := "A" }, .word "sees",
    .mention { quantifier := some { max := some 1 }, term := "B" }] }
  have hparse : Script.parse "A sees at most one B;" = .ok [.factType [clause]] := by
    rw [Script.parse_ofList]
    rfl
  have hcomputed : (s.declare (.factType [clause])).1.toOption =
      some (.factType ⟨0⟩ true [⟨"A sees B", some ⟨0⟩, some ⟨0⟩, 0, none⟩]) := by
    unfold s
    rw [compileAll_cons, compile_ofList, compileAll_nil]
    decide +kernel
  have hdeclare := declare_eq_of_toOption hcomputed
  have hflat : clause.IsFlat := by
    simp [clause, Script.Clause.IsFlat, Script.Phrase.IsFlat]
  obtain ⟨reports', t', hagain, hadds⟩ := declare_again {} ["entity type A; entity type B;"] hparse
    List.mem_cons_self hflat ⟨_, List.mem_cons_self⟩ (by decide) hdeclare
  exact ⟨_, _, hparse, ⟨_, hdeclare⟩, reports', t', hagain, hadds⟩

/-- Of several clauses one may become a reading that it cannot invoke, since it mentions fewer
players than there are roles. Then the declaration is refused when it is made again. -/
theorem exists_refused_again :
    let s := (start {}).compileAll ["entity type A; entity type B;"]
    ∃ clauses t, Script.parse "A sees B, A is happy;" = .ok [.factType clauses] ∧
      derivationSplit? clauses = none ∧
      (∃ f reports, s.declare (.factType clauses) = (.ok (.factType f true reports), t)) ∧
        ∃ fault, t.declare (.factType clauses) = (.error fault, t) := by
  intro s
  let clauses : List Script.Clause := [
    { phrases := [.mention { term := "A" }, .word "sees", .mention { term := "B" }] },
    { phrases := [.mention { term := "A" }, .word "is", .word "happy"], conjunction :=
      some .comma }]
  have hparse : Script.parse "A sees B, A is happy;" = .ok [.factType clauses] := by
    rw [Script.parse_ofList]
    rfl
  have hcomputed : (s.declare (.factType clauses)).1.toOption = some (.factType ⟨0⟩ true
        [⟨"A sees B", some ⟨0⟩, some ⟨0⟩, 0, none⟩, ⟨"A is happy", some ⟨0⟩, some ⟨1⟩, 0, none⟩]) ∧
      ((s.declare (.factType clauses)).2.declare (.factType clauses)).1.toOption = none := by
    unfold s
    rw [compileAll_cons, compile_ofList, compileAll_nil]
    decide +kernel
  obtain ⟨hfirst, hsecond⟩ := hcomputed
  exact ⟨clauses, _, hparse, rfl, ⟨⟨0⟩, _, declare_eq_of_toOption hfirst⟩,
    exists_fault_of_toOption hsecond⟩

end Session

end FactModel
