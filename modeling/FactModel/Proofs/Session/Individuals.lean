import FactModel.Proofs.JoinGraph.Variables
import FactModel.Proofs.Matching.Borrowing
import FactModel.Proofs.Session
import FactModel.Proofs.Session.Entering
import FactModel.Proofs.Session.Runs
import Mathlib.Data.List.Chain
set_option autoImplicit false

/-!
# The individuals of a query

Mentions of one individual are bound with one key. Matching may strip them of different adjectives,
and then they stand for one variable of the join graph only if merging brings their bindings
together.

## Main definitions

* `FactModel.Session.QueryRun.Represents` — how two mentions that were bound with one key are
  represented.

## Main results

* `FactModel.Session.represents_declare_query` — mentions with one key have one variable, unless
  matching leaves them different adjectives and merging does not undo that.
-/

namespace FactModel

open Attempt Compile

namespace Session

variable {s : Session} {clauses : List Script.Clause}

/-! ## One variable for one key -/

/-- How two mentions that were bound with one key are represented in the join graph: by one variable
if no adjectives are part of the key, and otherwise just in case matching has left them one key or
their bindings are merged. -/
structure QueryRun.Represents (run : s.QueryRun clauses) (key : BindingKey) (m n : MentionId)
    (v w : VariableId) : Prop where
  left : run.draft.variableOf? m = some v
  right : run.draft.variableOf? n = some w
  left_lt : v.index < run.graph.vars.length
  right_lt : w.index < run.graph.vars.length
  eq_of_isSettled : key.isSettled = true → v = w
  eq_iff : v = w ↔ run.matched.bindingKey m = run.matched.bindingKey n ∨
    run.matched.MergesMentions m n

/-- Two mentions of the clauses that were bound with one key are represented. -/
lemma QueryRun.exists_represents (run : s.QueryRun clauses) (hbound : run.matched.Bound)
    (hunmerged : run.matched.Unmerged) {x : Context} {m n : MentionId}
    (h : x.BoundAlike run.matched m n) (hm : m ∈ allMentions run.resolved)
    (hn : n ∈ allMentions run.resolved) :
    ∃ v w, run.Represents (x.bindingKey m) m n v w := by
  obtain ⟨hvariable, hiff⟩ := Build.variableOf?_of_build run.build_eq
  have hexists : ∀ k ∈ allMentions run.resolved, run.matched.IsBound k →
      ∃ v, run.draft.variableOf? k = some v ∧ v.index < run.graph.vars.length := by
    intro k hk hkbound
    obtain ⟨b, hb⟩ := Option.isSome_iff_exists.1 hkbound.binding
    have heffective := run.matched.effectiveBinding?_mergeLoose hbound.toTied hunmerged k
    rw [hb] at heffective
    exact hvariable k hk _ heffective
      (run.matched.isSome_effectiveBinding?_mergeLoose hbound.toTied hunmerged k _ heffective)
  obtain ⟨v, hv, hvlt⟩ := hexists m hm h.left_of_carries
  obtain ⟨w, hw, hwlt⟩ := hexists n hn h.right_of_carries
  have heq : v = w ↔ _ := (hiff m n v w hv hw).trans
    (run.matched.effectiveBinding?_mergeLoose_eq_iff hbound.toTied hunmerged
      h.left_of_carries.binding h.right_of_carries.binding)
  exact ⟨v, w, hv, hw, hvlt, hwlt, fun hkey => heq.2 (.inl (h.bindingKey_eq hkey)), heq⟩

/-- **One variable for one key.** Let a query compile. Two of its mentions, at whatever depth, that
were bound with one key are represented by one variable of the stored join graph if no adjectives
are part of the key. Otherwise this is so just in case matching has left the mentions one key, or
their bindings are the only ones of their player without a role name and a literal and one of them
has a single mention, so that they are merged. The same holds of a mention that a clause has
borrowed and the mention of the clause before it that it is a copy of.

**Proof sketch.** Mentions are bound by their keys before matching and after it, so that those with
one key still have one binding unless their keys have parted. The variables are those of the
bindings that stand for mentions after merging. -/
theorem represents_declare_query {outcome : Outcome} {t : Session}
    (h : s.declare (.query clauses) = (.ok outcome, t)) :
    ∃ run : s.QueryRun clauses, outcome = run.outcome ∧ t = run.after ∧
      (∀ m ∈ allMentions run.entered, ∀ n ∈ allMentions run.entered,
        run.bound.bindingKey m = run.bound.bindingKey n →
          ∃ v w, run.Represents (run.bound.bindingKey m) m n v w) ∧
      run.resolved.IsChain fun previous c => ∀ side, c.contraction = some side →
        ∃ source copy, ∃ x : Context, side.source? previous = some source ∧
          side.borrowed? c = some copy ∧ x.BoundAlike run.matched source copy ∧
          ∃ v w, run.Represents (x.bindingKey source) source copy v w := by
  obtain ⟨run, houtcome, hafter⟩ := declare_query_eq_ok.1 h
  obtain ⟨hbound, hunmerged, hnone, hmentions⟩ := isBound_of_enter run.enter_eq
  obtain ⟨hcarries, hsubset, hresolved, hchain⟩ := resolveAll_eq_ok hunmerged hmentions hnone
    (fun p hp => by cases hp) run.resolveAll_eq
  have hmatched : run.matched.Bound := ((leads_resolveAll_of_completes (completes_bound {})
    s.settings.contraction none run.entered hbound).of_perform run.resolveAll_eq).1
  have hunmerged' := (hcarries 0 (Nat.zero_le _)).unmerged
  refine ⟨run, houtcome, hafter, fun m hm n hn hkey => ?_, ?_⟩
  · have halike : run.bound.BoundAlike run.matched m n :=
      ⟨hmentions m hm, hmentions n hn, hkey, hcarries _ (Nat.le_refl _)⟩
    exact run.exists_represents hmatched hunmerged' halike (hsubset hm) (hsubset hn)
  · have hchain' : run.resolved.IsChain run.matched.Borrows := hchain
    refine hchain'.imp_of_mem_imp fun p d hp hd hborrows side hside => ?_
    obtain ⟨source, copy, x, hsource, hborrowed, halike⟩ := hborrows side hside
    have hmem : ∀ e ∈ run.resolved, ∀ k ∈ e.mentions, k ∈ allMentions run.resolved := by
      intro e he k hk
      rw [allMentions_eq]
      exact List.mem_flatMap.2 ⟨e, he, e.mentions_subset_allMentions hk⟩
    refine ⟨source, copy, x, hsource, hborrowed, halike, run.exists_represents hmatched hunmerged'
      halike (hmem p hp source ?_) (hmem d hd copy ?_)⟩
    · cases side with
      | left => exact List.mem_of_getLast? hsource
      | right => exact List.mem_of_head? hsource
    · cases side with
      | left => exact List.mem_of_head? hborrowed
      | right => exact List.mem_of_getLast? hborrowed

/-- Two mentions of `A` stand for one variable. -/
theorem represents_declare_query_eats :
    let s := (start {}).compileAll ["entity type A; entity type B; A sees B; A eats B;"]
    let clauses : List Script.Clause :=
      [{ phrases := [.mention { term := "A" }, .word "sees", .mention { term := "B" }] },
        { phrases := [.mention { term := "A" }, .word "eats", .mention { term := "B" }]
          conjunction := some .and }]
    ∃ run : s.QueryRun clauses, ∃ v, run.draft.variableOf? ⟨0⟩ = some v ∧
      run.draft.variableOf? ⟨2⟩ = some v := by
  intro s clauses
  have hcomputed : (s.declare (.query clauses)).1.isOk = true ∧
      let r := (enter clauses).perform s.context
      ⟨0⟩ ∈ allMentions (r.1.toOption.getD []) ∧ ⟨2⟩ ∈ allMentions (r.1.toOption.getD []) ∧
        r.2.bindingKey ⟨0⟩ = r.2.bindingKey ⟨2⟩ ∧ (r.2.bindingKey ⟨0⟩).isSettled = true := by
    unfold s
    rw [compileAll_cons, compile_ofList, compileAll_nil]
    decide +kernel
  obtain ⟨hisOk, hm, hn, hkey, hsettled⟩ := hcomputed
  obtain ⟨_, _, hdeclare⟩ := exists_of_isOk hisOk
  obtain ⟨run, -, -, hentered, -⟩ := represents_declare_query hdeclare
  rw [← run.entered_eq] at hm hn
  rw [← run.bound_eq] at hkey hsettled
  obtain ⟨v, w, hrepresents⟩ := hentered ⟨0⟩ hm ⟨2⟩ hn hkey
  exact ⟨run, v, hrepresents.left, hrepresents.eq_of_isSettled hsettled ▸ hrepresents.right⟩

/-- Two mentions of `big- A` that were bound with one key are two variables: one of them has lost
its adjective to the reading that it matched, and the other one is not the last with the
adjective. -/
theorem exists_variableOf?_ne :
    let s := (start {}).compileAll ["entity type A; A likes A; big- A eats A;"]
    let big : Script.Phrase := .mention { term := "A", leading := some "big" }
    let clauses : List Script.Clause :=
      [{ phrases := [big, .word "likes", .mention { term := "A" }] },
        { phrases := [big, .word "likes", .mention { term := "A" }], conjunction := some .and },
        { phrases := [big, .word "eats", .mention { term := "A" }], conjunction := some .and }]
    Script.parse "big- A likes A and big- A likes A and big- A eats A?" = .ok [.query clauses] ∧
      ∃ run : s.QueryRun clauses, s.declare (.query clauses) = (.ok run.outcome, run.after) ∧
        ∃ m ∈ allMentions run.entered, ∃ n ∈ allMentions run.entered,
          run.bound.bindingKey m = run.bound.bindingKey n ∧
            run.draft.variableOf? m ≠ run.draft.variableOf? n := by
  intro s big clauses
  have hcomputed : (s.declare (.query clauses)).1.isOk = true ∧
      let r := (enter clauses).perform s.context
      let cs := r.1.toOption.getD []
      let q := (resolveAll s.settings.contraction none cs).perform r.2
      let d := ((Build.build (q.1.toOption.getD []) []).perform { context := q.2.mergeLoose }).2
      ⟨0⟩ ∈ allMentions cs ∧ ⟨4⟩ ∈ allMentions cs ∧ r.2.bindingKey ⟨0⟩ = r.2.bindingKey ⟨4⟩ ∧
        d.variableOf? ⟨0⟩ ≠ d.variableOf? ⟨4⟩ := by
    unfold s
    rw [compileAll_cons, compile_ofList, compileAll_nil]
    decide +kernel
  obtain ⟨hisOk, hm, hn, hkey, hvariables⟩ := hcomputed
  obtain ⟨_, _, hdeclare⟩ := exists_of_isOk hisOk
  obtain ⟨run, rfl, rfl⟩ := declare_query_eq_ok.1 hdeclare
  rw [← run.entered_eq] at hm hn
  rw [← run.entered_eq, ← run.bound_eq, ← run.resolved_eq, ← run.matched_eq, ← run.draft_eq]
    at hvariables
  rw [← run.bound_eq] at hkey
  exact ⟨rfl, run, hdeclare, ⟨0⟩, hm, ⟨4⟩, hn, hkey, hvariables⟩

end Session

end FactModel
