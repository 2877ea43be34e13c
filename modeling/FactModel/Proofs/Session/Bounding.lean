import FactModel.Proofs.Definition.Bounding
import FactModel.Proofs.Session.Constraints
set_option autoImplicit false

/-!
# The history of bounds

Every bound in a vocabulary that scripts lead to goes back to a quantifier of a declaration that was
accepted. A bound that is set stays as it is, and declarations that disagree with it are refused. A
minimum and a maximum are two bounds: they come from quantifiers independently, and are not
compared.

## Main definitions

* `FactModel.Session.Precedes` — a session becomes another one by declarations.
* `FactModel.Session.DefinitionRun.Tells` — a quantifier of a definition is about certain roles.
* `FactModel.Session.StatingRun` — the stages of a definition before constraints are embedded.

## Main results

* `FactModel.Session.owesBounds_declare` — a declaration sets bounds that its clauses tell.
* `FactModel.Session.bounds_told_and_kept` — bounds are told, kept and defended.
-/

namespace FactModel.Session

open Attempt Compile Context Vocabulary

variable {s t u : Session} {clauses : List Script.Clause} {split : Option Nat}

/-! ## What declarations tell -/

/-- A session becomes another one by declarations one after the other, whatever comes of each. -/
inductive Precedes (s : Session) : Session → Prop
  | refl : s.Precedes s
  | declare {t : Session} (h : s.Precedes t) (d : Script.Declaration) : s.Precedes (t.declare d).2

/-- A quantifier that states bounds stands on a mention of a clause that states the fact type, and
these are the roles of the other mentions of the clause. -/
def DefinitionRun.Tells (run : s.DefinitionRun split clauses) (rs : List RoleId) (q : Quantifier) :
    Prop :=
  ∃ c ∈ run.stated, 2 ≤ c.mentions.length ∧ ∃ m ∈ c.mentions,
    q ∈ (run.bound.mention m).quantifier ∧ q.isUnconstrained = false ∧
    rs = run.defined.otherRoles c m

/-- A declaration defines a fact type and tells something about certain roles. -/
def Tells (s : Session) (d : Script.Declaration) (rs : List RoleId) (q : Quantifier) : Prop :=
  ∃ clauses split, definition? d = some (clauses, split) ∧
    ∃ run : s.DefinitionRun split clauses, run.Tells rs q

/-- What the clauses of a definition tell in the end, they told from the beginning: definitions keep
mentions and their quantifiers. -/
lemma DefinitionRun.tells_of_tellsBounds (run : s.DefinitionRun split clauses)
    (hs : s.vocabulary.Consistent) (hplain : Script.ArePlain clauses)
    (hkeeps : List.Forall₂ Clause.KeepsMentions run.stated run.head) {e : Clause}
    (he : e ∈ run.head)
    {rs : List RoleId} {q : Quantifier} (h : run.defined.TellsBounds e rs q) : run.Tells rs q := by
  have hready := run.ready hs hplain
  have hsustains := ((defines_sustains run.bound.mentions.size).defineFactType run.stated
    hready.sustains).of_perform run.define_eq |>.1
  have hsame : run.head.map (·.mentions) = run.stated.map (·.mentions) := by
    rw [← List.forall₂_eq_eq_eq, List.forall₂_map_left_iff, List.forall₂_map_right_iff]
    exact hkeeps.flip.imp fun _ _ hcd => hcd.mentions_eq
  obtain ⟨c, hc, hmentions⟩ := List.mem_map.1 (hsame ▸ List.mem_map_of_mem he)
  replace hmentions : c.mentions = e.mentions := hmentions
  obtain ⟨hlength, m, hm, hq, hstated, rfl⟩ := h
  rw [← hmentions] at hlength hm
  have hlt := (hready.isBound m
    (mem_allMentions_of_mem hc (c.mentions_subset_allMentions hm))).index_lt
  rw [(hsustains.carries.continues m hlt).quantifier_eq] at hq
  refine ⟨c, hc, hlength, m, hm, hq, hstated, ?_⟩
  rw [otherRoles, otherRoles, hmentions]

/-- **Bounds are told.** After a declaration every bound was there before, or the declaration tells
it about the roles that are spanned. -/
theorem owesBounds_declare (hs : s.vocabulary.Consistent) (hi : s.vocabulary.Inherits)
    (hc : s.vocabulary.Constrained) {d : Script.Declaration} (hplain : Script.ArePlain d.clauses)
    {outcome : Outcome} (h : s.declare d = (.ok outcome, t)) :
    s.vocabulary.OwesBounds t.vocabulary (s.Tells d) := by
  rcases hdefinition : definition? d with _ | ⟨clauses, split⟩
  · exact owesBounds_of_eq (sparesConstraints_declare hdefinition h).presenceConstraints_eq
  obtain rfl := clauses_of_definition? hdefinition
  obtain ⟨run, -, hrun⟩ := exists_definitionRun_evolvesSparing hdefinition h
  have hbound := evolvesSparing_of_enter run.enter_eq
  obtain ⟨hdefined, hkeeps, -⟩ := run.adequate hs hi hc hplain
  have howes := owesBounds_defineFactType (run.ready hs hplain)
    (hbound.evolves.preserves hi inherits_of_change)
    (hc.evolvesSparing hs.toWellFormed hi hbound) run.define_eq
  have htells : run.bound.vocabulary.OwesBounds run.defined.vocabulary (s.Tells d) :=
    howes.mono fun rs q ⟨e, he, hq⟩ => ⟨d.clauses, split, hdefinition, run,
      run.tells_of_tellsBounds hs hplain hkeeps he hq⟩
  have hentered : s.vocabulary.OwesBounds run.bound.vocabulary (s.Tells d) :=
    owesBounds_of_eq hbound.spares.presenceConstraints_eq
  have hgrows := ((defines_evolving.defineFactType run.stated run.bound).of_perform
    run.define_eq).1.retains.toGrows
  exact (hentered.trans htells (run.ready hs hplain).valid.consistent.toWellFormed hgrows).trans
    (owesBounds_of_eq hrun.spares.presenceConstraints_eq) hdefined.valid.consistent.toWellFormed
    hrun.evolves.retains.toGrows

/-! ## Histories -/

/-- A bound goes back to a declaration that was accepted between two sessions, and told it about the
roles that are spanned. -/
def GoesBack (s t : Session) (p : PresenceConstraintId) (b : FrequencyBound) (n : Nat) : Prop :=
  ∃ u d outcome u', s.Precedes u ∧ u.declare d = (.ok outcome, u') ∧ u'.Precedes t ∧
    ∃ rs q, u.Tells d rs q ∧ (t.vocabulary.spannedRoles p).Perm rs ∧ q.frequency b = some n

/-- A declaration leaves behind what went back to declarations before it, and adds what goes back to
itself. -/
lemma goesBack_declare (hs : t.vocabulary.Consistent) (hi : t.vocabulary.Inherits)
    (hc : t.vocabulary.Constrained) (hst : s.Precedes t)
    (h : ∀ p b n, t.vocabulary.IsBounded p b n → s.GoesBack t p b n) {d : Script.Declaration}
    (hplain : Script.ArePlain d.clauses) {p : PresenceConstraintId} {b : FrequencyBound} {n : Nat}
    (hp : (t.declare d).2.vocabulary.IsBounded p b n) : s.GoesBack (t.declare d).2 p b n := by
  have hgrows := (evolves_declare hs d).retains.toGrows
  have hlater : t.vocabulary.IsBounded p b n → s.GoesBack (t.declare d).2 p b n := fun hbefore => by
    obtain ⟨u, e, outcome, u', hsu, hu, hut, rs, q, hq, hperm, hn⟩ := h p b n hbefore
    refine ⟨u, e, outcome, u', hsu, hu, hut.declare d, rs, q, hq, ?_, hn⟩
    rwa [hgrows.spannedRoles_eq hs.toWellFormed hbefore.1]
  rcases hd : t.declare d with ⟨fault | outcome, t'⟩
  · obtain rfl := eq_of_declare_eq_error hd
    rw [hd] at hlater hp
    exact hlater hp
  · rw [hd] at hlater hp
    rcases owesBounds_declare hs hi hc hplain hd p b n hp with hbefore | ⟨rs, q, hq, hperm, hn⟩
    · exact hlater hbefore
    · exact ⟨t, d, outcome, t', hst, hd, .refl, rs, q, hq, hperm, hn⟩

/-! ## Refusals -/

/-- The stages of a definition before its constraints are embedded: its clauses are entered, and
those in front of the `where` if there is one, or else all, come to state readings. -/
structure StatingRun (s : Session) (split : Option Nat) (clauses : List Script.Clause) where
  entered : List Clause
  /-- The context once all mentions have been bound. -/
  bound : Context
  factType : FactTypeId
  created : Bool
  /-- The clauses as they state readings. -/
  head : List Clause
  /-- The context once all clauses state readings. -/
  read : Context
  enter_eq : (enter clauses).perform s.context = (.ok entered, bound)
  state_eq : (stateAll (split.elim entered entered.take)).perform bound =
    (.ok (factType, created, head), read)

/-- **Bounds are defended.** A definition that disagrees with bounds that are there, or with itself,
is refused, and the session stays as it was. Qualifiers apart, bounds that disagree are the
reason. -/
theorem StatingRun.refuses (run : s.StatingRun split clauses) (hs : s.vocabulary.Consistent)
    (hi : s.vocabulary.Inherits) (hc : s.vocabulary.Constrained) {d : Script.Declaration}
    (hd : definition? d = some (clauses, split)) (hplain : Script.ArePlain clauses)
    (h : Disagrees s.vocabulary run.read run.head) :
    ∃ fault, s.declare d = (.error fault, s) ∧
      ((∀ c ∈ run.head, c.qualifiers = []) → fault.IsConflict) := by
  have hbound := evolvesSparing_of_enter run.enter_eq
  have hready : run.bound.Ready (split.elim run.entered run.entered.take) :=
    ready_elim_take (ready_of_enter hs hplain run.enter_eq) split
  obtain ⟨hread, -, hgrows, -, hstates⟩ := states_stateAll hready
    (hbound.evolves.preserves hi inherits_of_change) (hc.evolvesSparing hs.toWellFormed hi hbound)
    run.state_eq
  obtain ⟨fault, y, hembed⟩ := refuses_embed hread hs.toWellFormed
    (hbound.evolves.retains.toGrows.trans hgrows) hstates h
  refine ⟨fault, declare_eq_error_of_defineFactType hd run.enter_eq (y := y) ?_,
    fun hnone => failsBy_embed hnone _ _ _ hembed⟩
  rw [defineFactType_eq, perform_bind, run.state_eq]
  dsimp only
  rw [perform_bind, hembed]

/-- **Bounds are told, kept and defended.** Whatever scripts have been compiled, every bound of a
presence constraint goes back to an accepted declaration, a quantifier of which states it about the
roles that are spanned. A bound that is there is kept by any declaration. Where the clauses of a
definition state readings and a quantifier states another bound than the one that is there over the
roles of the other mentions, or than a quantifier of the same definition, the declaration is
refused, and the session stays as it was. Qualifiers apart, the reason is that the bounds disagree.

**Proof sketch.** Bounds are filled in by the quantifiers of definitions only. Since one constraint
at most spans the same roles, two bounds told of these would have to be the same. -/
theorem bounds_told_and_kept (settings : Settings) (scripts : List String) :
    let s := (start settings).compileAll scripts
    (∀ p b n, s.vocabulary.IsBounded p b n → (start settings).GoesBack s p b n) ∧
    ∀ script ds, Script.parse script = .ok ds → ∀ d ∈ ds,
      (∀ p b n, s.vocabulary.IsBounded p b n → (s.declare d).2.vocabulary.IsBounded p b n) ∧
      ∀ clauses split, definition? d = some (clauses, split) → ∀ run : s.StatingRun split clauses,
        Disagrees s.vocabulary run.read run.head → ∃ fault, s.declare d = (.error fault, s) ∧
          ((∀ c ∈ run.head, c.qualifiers = []) → fault.IsConflict) := by
  intro s
  have hs := consistent_compileAll (consistent_start settings) scripts
  have hi : s.vocabulary.Inherits :=
    (evolves_compileAll_start settings scripts).preserves (.empty _) inherits_of_change
  have hc := constrained_compileAll_start settings scripts
  refine ⟨?_, fun script ds hparse d hd =>
    ⟨fun p b n hp => ?_, fun clauses split hdefinition run h => ?_⟩⟩
  · exact (compileAll_induction (P := fun t => (t.vocabulary.Consistent ∧ t.vocabulary.Inherits ∧
        t.vocabulary.Constrained) ∧ (start settings).Precedes t ∧
          ∀ p b n, t.vocabulary.IsBounded p b n → (start settings).GoesBack t p b n)
      (fun t d ⟨⟨ht, hti, htc⟩, hprecedes, hback⟩ hplain =>
        ⟨⟨consistent_declare ht hplain, (evolves_declare ht d).preserves hti inherits_of_change,
          constrained_declare ht hti htc hplain⟩, hprecedes.declare d,
          fun _ _ _ => goesBack_declare ht hti htc hprecedes hback hplain⟩)
      ⟨⟨consistent_start settings, .empty _, constrained_empty _⟩, .refl,
        fun p _ _ hp => nomatch hp.1⟩ scripts).2.2
  · exact hp.grows (evolves_declare hs d).retains.toGrows
  · have hplain := Script.arePlain_iff.2 (Script.isPlain_of_parse hparse d hd)
    rw [clauses_of_definition? hdefinition] at hplain
    exact run.refuses hs hi hc hdefinition hplain h

/-- Whether a declaration gets as far as that all its clauses state readings, and what is asked of
these clauses is so. -/
def states (s : Session) (pick : Context → List Clause → Bool) (d : Script.Declaration) : Bool :=
  match definition? d with
  | some (clauses, split) =>
    match (enter clauses).perform s.context with
    | (.ok entered, bound) =>
      match (stateAll (split.elim entered entered.take)).perform bound with
      | (.ok (_, _, head), read) => pick read head
      | _ => false
    | _ => false
  | none => false

/-- A declaration whose clauses all state readings goes through the stages of a definition. -/
lemma exists_statingRun {pick : Context → List Clause → Bool} {d : Script.Declaration}
    (h : s.states pick d = true) : ∃ clauses split, definition? d = some (clauses, split) ∧
      ∃ run : s.StatingRun split clauses, pick run.read run.head = true := by
  unfold states at h
  split at h
  · next clauses split hdefinition =>
    split at h
    · next entered bound henter =>
      split at h
      · next f created head read hstate =>
        exact ⟨clauses, split, hdefinition,
          ⟨entered, bound, f, created, head, read, henter, hstate⟩, h⟩
      · cases h
    · cases h
  · cases h

/-- Where at most one thing is seen, at most two are refused. -/
theorem bounds_told_and_kept_sees :
    let s := (start {}).compileAll ["entity type A; entity type B; A sees at most 1 B;"]
    (start {}).GoesBack s ⟨0⟩ .maximum 1 ∧
      ∃ d fault, Script.parse "A sees at most 2 B;" = .ok [d] ∧
        s.declare d = (.error fault, s) ∧ fault.IsConflict := by
  intro s
  have hbounded : s.vocabulary.IsBounded ⟨0⟩ .maximum 1 := by
    have hcomputed : s.vocabulary.presenceConstraints[0]?.map (·.max) = some (some 1) := by
      unfold s
      rw [compileAll_cons, compile_ofList, compileAll_nil]
      decide +kernel
    obtain ⟨c, hc, hmax⟩ := Option.map_eq_some_iff.1 hcomputed
    exact isBounded_of_getElem? hc hmax
  obtain ⟨hback, hrest⟩ :=
    bounds_told_and_kept {} ["entity type A; entity type B; A sees at most 1 B;"]
  have hparse : Script.parse "A sees at most 2 B;" = .ok [.factType [{
      phrases := [.mention { term := "A" }, .word "sees",
        .mention { quantifier := some { max := some 2 }, term := "B" }] }]] := by
    rw [Script.parse_ofList]
    rfl
  have hstates : s.states (fun x cs => decide (cs.length = 1) && cs.all fun c =>
      decide (c.qualifiers = [] ∧ 2 ≤ c.mentions.length ∧ ⟨1⟩ ∈ c.mentions ∧
        (x.mention ⟨1⟩).quantifier = some { max := some 2 } ∧
          s.vocabulary.spannedRoles ⟨0⟩ = x.otherRoles c ⟨1⟩)) (.factType [{
        phrases := [.mention { term := "A" }, .word "sees",
          .mention { quantifier := some { max := some 2 }, term := "B" }] }]) = true := by
    unfold s
    rw [compileAll_cons, compile_ofList, compileAll_nil]
    decide +kernel
  obtain ⟨clauses, split, hdefinition, run, hpick⟩ := exists_statingRun hstates
  rcases hhead : run.head with _ | ⟨c, _ | ⟨c', cs⟩⟩
  · rw [hhead] at hpick
    cases hpick
  · rw [hhead] at hpick
    rw [List.all_cons, List.all_nil, Bool.and_true] at hpick
    obtain ⟨hnone, hlength, hm, hq, hroles⟩ := of_decide_eq_true hpick
    have hdisagrees : Disagrees s.vocabulary run.read run.head := by
      rw [hhead]
      refine ⟨c, List.mem_singleton_self c, run.read.otherRoles c ⟨1⟩, { max := some 2 },
        .maximum, 2,
        ⟨hlength, ⟨1⟩, hm, hq, rfl, rfl⟩, rfl, .inl ⟨⟨0⟩, 1, hbounded, ?_, by decide⟩⟩
      rw [hroles]
    obtain ⟨fault, hfault, hconflict⟩ :=
      (hrest _ _ hparse _ List.mem_cons_self).2 clauses split hdefinition run hdisagrees
    refine ⟨hback _ _ _ hbounded, _, fault, hparse, hfault, hconflict ?_⟩
    simp [hhead, hnone]
  · rw [hhead] at hpick
    cases hpick

/-- A minimum may exceed the maximum: the two ends of a range are not compared, and neither are
bounds that several declarations state. -/
theorem exists_minimum_above_maximum :
    (let v := ((start {}).compileAll ["entity type A; entity type B; A sees B;",
      "A sees from 3 to 1 B;"]).vocabulary
    ∃ p, v.IsBounded p .minimum 3 ∧ v.IsBounded p .maximum 1) ∧
    (let v := ((start {}).compileAll ["entity type A; entity type B; A sees B;",
      "A sees at least 3 B;", "A sees at most 1 B;"]).vocabulary
    ∃ p, v.IsBounded p .minimum 3 ∧ v.IsBounded p .maximum 1) := by
  have hbounded : ∀ v : Vocabulary,
      v.presenceConstraints[0]?.map (fun c => (c.min, c.max)) = some (some 3, some 1) →
        ∃ p, v.IsBounded p .minimum 3 ∧ v.IsBounded p .maximum 1 := by
    intro v hcomputed
    obtain ⟨c, hc, hrange⟩ := Option.map_eq_some_iff.1 hcomputed
    obtain ⟨hmin, hmax⟩ := Prod.mk.inj hrange
    exact ⟨⟨0⟩, isBounded_of_getElem? hc hmin, isBounded_of_getElem? hc hmax⟩
  constructor
  · refine hbounded _ ?_
    rw [compileAll_cons, compile_ofList, compileAll_cons, compile_ofList, compileAll_nil]
    decide +kernel
  · refine hbounded _ ?_
    rw [compileAll_cons, compile_ofList, compileAll_cons, compile_ofList, compileAll_cons,
      compile_ofList, compileAll_nil]
    decide +kernel

end FactModel.Session
