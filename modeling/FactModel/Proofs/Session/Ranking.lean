import FactModel.Proofs.Matching.ExactTypes
import FactModel.Proofs.Matching.Selection
import FactModel.Proofs.Session
set_option autoImplicit false

/-!
# Rankings and selection after scripts

## Main results

* `FactModel.Session.perm_rank_enter` — after any scripts, the ranking of a clause holds the
  alignments of the readings that its first player reaches, each once.
* `FactModel.Session.not_perm_rank_statedReadings` — it does not hold those of the others.
* `FactModel.Session.alignments_exactTypes_enter` — with exact types, the ranking holds just those
  that take no step between types.
* `FactModel.Session.select_cheapest` — after any scripts, a clause invokes the first of the
  cheapest alignments, if they agree.
-/

namespace FactModel.Session

/-- Entering clauses after any scripts leaves a consistent vocabulary. -/
lemma consistent_enter (settings : Settings) (scripts : List String)
    (clauses : List Script.Clause) :
    ((Compile.enter clauses).perform
      ((start settings).compileAll scripts).context).2.vocabulary.Consistent := by
  have hconsistent := consistent_compileAll (consistent_start settings) scripts
  exact (Compile.leads_enter (valid_context hconsistent) clauses).snd.valid.consistent

/-- **Rankings are complete.** Let clauses be entered after any scripts, and let `c` be a clause
that is no comparison. Its ranking holds, each once, the alignments of the readings of stated fact
types with a role for each mention that the first player reaches and that match. Where players stand
only for themselves these are all readings of such fact types that match.

**Proof sketch.** A reading that matches gives different roles to the players. So the search for an
assignment succeeds, and the reading is tried if the first player reaches its fact type. -/
theorem perm_rank_enter (settings : Settings) (scripts : List String)
    (clauses : List Script.Clause) (options : MatchOptions) (c : Clause)
    (hcomparison : c.comparison? = none) (hmentions : c.mentions ≠ []) :
    let x := ((Compile.enter clauses).perform ((start settings).compileAll scripts).context).2
    (x.rank options c).alignments.Perm
        ((x.reachedReadings options c).filterMap fun r => (x.align options c r).toOption) ∧
      (options.exactTypes → (x.rank options c).alignments.Perm
        ((x.statedReadings c).filterMap fun r => (x.align options c r).toOption)) := by
  have hconsistent := consistent_enter settings scripts clauses
  generalize ((Compile.enter clauses).perform ((start settings).compileAll scripts).context).2 = x
    at hconsistent
  have hperm := x.perm_rank_reachedReadings hconsistent.toWellFormed options hcomparison
  refine ⟨hperm, fun hexact => ?_⟩
  rwa [Context.reachedReadings_of_exactTypes hexact hmentions] at hperm

/-- A fact type of a supertype is ranked for a subtype. -/
theorem perm_rank_enter_supertype :
    let c : Clause := { phrases := [.slot ⟨⟨0⟩, []⟩, .word "works"] }
    let x := ((Compile.enter
      [{ phrases := [.mention { term := "Employee" }, .word "works"] }]).perform
      ((start {}).compileAll ["entity type Person; Employee is a kind of Person; Person works;"]
        ).context).2
    c.comparison? = none ∧ c.mentions ≠ [] ∧ (x.rank {} c).alignments.length = 1 ∧
      (x.rank {} c).alignments.Perm
        ((x.reachedReadings {} c).filterMap fun r => (x.align {} c r).toOption) :=
  ⟨rfl, by decide, by
    rw [compileAll_cons, compile_ofList, compileAll_nil]
    decide +kernel,
  (perm_rank_enter {}
    ["entity type Person; Employee is a kind of Person; Person works;"]
    [{ phrases := [.mention { term := "Employee" }, .word "works"] }] {}
    { phrases := [.slot ⟨⟨0⟩, []⟩, .word "works"] } rfl (by decide)).1⟩

/-- A fact type of one subtype is not ranked for another one, although its reading matches. -/
theorem not_perm_rank_statedReadings :
    let r := (Compile.enter
      [{ phrases := [.mention { term := "Customer" }, .word "works"] }]).perform
      ((start {}).compileAll ["entity type Person; Employee is a kind of Person; " ++
        "Customer is a kind of Person; Employee works;"]).context
    ∃ c ∈ r.1.toOption.getD [], c.comparison? = none ∧ c.mentions ≠ [] ∧
      ¬(r.2.rank {} c).alignments.Perm
        ((r.2.statedReadings c).filterMap fun q => (r.2.align {} c q).toOption) := by
  intro r
  have hlengths : ∃ c ∈ r.1.toOption.getD [], c.comparison? = none ∧ c.mentions ≠ [] ∧
      (r.2.rank {} c).alignments.length ≠
        ((r.2.statedReadings c).filterMap fun q => (r.2.align {} c q).toOption).length := by
    unfold r
    rw [← String.ofList_append, compileAll_cons, compile_ofList, compileAll_nil]
    decide +kernel
  obtain ⟨c, hc, hcomparison, hmentions, hlength⟩ := hlengths
  exact ⟨c, hc, hcomparison, hmentions, fun hperm => hlength hperm.length_eq⟩

/-- **Declarations and queries match by the same rules.** Let clauses be entered after any scripts.
The alignments of a clause with exact types are those of its ranking that take no step between
types, in the same order.

**Proof sketch.** A reading matches with exact types just in case it matches without a step between
types, and then the first player itself plays a role in its fact type. The fact types of the first
player are tried before those of the types related to it, so the same alignments are found in the
same order, and sorting by cost keeps the order of what costs the same. -/
theorem alignments_exactTypes_enter (settings : Settings) (scripts : List String)
    (clauses : List Script.Clause) (c : Clause) :
    let x := ((Compile.enter clauses).perform ((start settings).compileAll scripts).context).2
    (x.rank { exactTypes := true } c).alignments =
      (x.rank {} c).alignments.filter (·.subtypeSteps == 0) :=
  Context.alignments_exactTypes (consistent_enter settings scripts clauses).toWellFormed {}

/-- **Selection is by least cost.** Let clauses be entered after any scripts, and let `c` be a
clause. The readings that are tried for `c` and match give alignments, by the fact types that are
tried and by the readings of each. If there are any, and `k` is their least cost, the first one that
costs `k` is selected if all that cost `k` invoke one fact type or each of them is about kinds;
otherwise the selection fails and reports just these. If there are none, a reading that fails on
nothing but the steps between types is reported, and where there is no such reading either, nothing
is selected.

**Proof sketch.** Sorting is stable, so that the alignments of least cost come first and in the
order in which they were found. A walk never fails on a step between types, so that a reading
reported for such a step has been laid along the clause. -/
theorem select_cheapest (settings : Settings) (scripts : List String)
    (clauses : List Script.Clause) (options : MatchOptions) (c : Clause) :
    let x := ((Compile.enter clauses).perform ((start settings).compileAll scripts).context).2
    let tied (k : Nat) := (x.invocations options c).filter (·.cost == k)
    (c.comparison? = none →
      (x.candidates options c.slots).Nodup ∧
        x.invocations options c =
          (x.candidates options c.slots).flatMap (x.invocationsOf options c) ∧
        ∀ f, ∀ a ∈ x.invocationsOf options c f, a.factType = f) ∧
      (∀ k, IsLeast {n | ∃ a ∈ x.invocations options c, a.cost = n} k →
        (x.Unanimous (tied k) → x.select c (x.rank options c) = .ok (tied k).head?) ∧
        (¬x.Unanimous (tied k) →
          x.select c (x.rank options c) = .error (.ambiguousMatch (x.describeClause c)
            ((tied k).map fun a => (x.vocabulary.expandReading a.reading, a.cost))))) ∧
      (x.invocations options c = [] →
        ((∃ r ∈ x.triedReadings options c, x.FailsOnSteps options c r) →
          ∃ r ∈ x.triedReadings options c, x.FailsOnSteps options c r ∧
            x.select c (x.rank options c) = .error (.subtypeStepDirection (x.describeClause c)
              (x.vocabulary.describeFactType (x.vocabulary.reading r).factType))) ∧
        ((¬∃ r ∈ x.triedReadings options c, x.FailsOnSteps options c r) →
          x.select c (x.rank options c) = .ok none)) := by
  intro x tied
  have hconsistent := consistent_enter settings scripts clauses
  refine ⟨fun hcomparison => ?_, fun k hk => ?_, fun hnil => ?_⟩
  · exact Context.invocations_eq_flatMap hconsistent.toWellFormed hcomparison
  · exact Context.select_of_isLeast hk
  · exact Context.select_of_invocations_eq_nil hnil

end FactModel.Session
