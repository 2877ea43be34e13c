import FactModel.Proofs.Context.Partners
import FactModel.Proofs.Session.Entering
set_option autoImplicit false

/-!
# Merges in the course of a declaration

A declaration binds its mentions, resolves its clauses and merges the loose bindings, in this order.
Then every merge ends at a binding that is there, after at most one step. The operations may be
performed in any order, though, and then merges need not end: a binding may lose its last mention
after another one has been merged into it, and three bindings may be merged in a circle.

## Main results

* `FactModel.Context.mergesTo_mergeLoose` — what merging comes to for players, bindings and
  mentions.
* `FactModel.merges_end` — merges end if bindings are merged last, and in any case no two bindings
  are merged into each other.
* `FactModel.exists_endless_merges` — otherwise merges need not end.
-/

namespace FactModel

open Attempt Compile

/-! ## Contexts in which nothing has been merged -/

/-- In the second context nothing has been merged, whatever the first one is. -/
def Context.StaysUnmerged (_ y : Context) : Prop :=
  y.Unmerged

instance : Trans Context.StaysUnmerged Context.StaysUnmerged Context.StaysUnmerged :=
  ⟨fun _ h => h⟩

open Context

variable {x : Context}

/-- Where nothing has been bound, nothing has been merged. -/
lemma Context.Unbound.unmerged (h : x.Unbound) : x.Unmerged := by
  intro b B hB
  rw [h.binding?_eq] at hB
  cases hB

/-- Entering clauses into the context of a declaration merges nothing, also where it fails. -/
theorem unmerged_enter (v : Vocabulary) (forwardTerms : List String)
    (clauses : List Script.Clause) :
    ((Compile.enter clauses).perform { vocabulary := v, forwardTerms }).2.Unmerged := by
  let x : Context := { vocabulary := v, forwardTerms }
  have hadopt : (adoptAll clauses x).2.Unbound :=
    (Unbound.of_declaration v forwardTerms).of_adopts (adopts_adoptAll clauses x)
  have hidentify := (composes_keeps (R := Unbound.Stays) fun h => h).identifyPlayers
    (fun m name _ h => Unbound.leads_identifyDeclaring h m name)
    (fun m _ h => Unbound.leads_identifyPlain h m) (adoptAll clauses x).1 hadopt
  have hrest : (do
      identifyPlayers (adoptAll clauses x).1
      bindClauses (adoptAll clauses x).1
      pure (adoptAll clauses x).1 : Compile (List Clause)).Leads StaysUnmerged
        (adoptAll clauses x).2 fun _ _ => True := by
    refine Leads.bind (hidentify.weaken fun _ h => Unbound.unmerged h) fun _ y hy _ => ?_
    have hbind := (composes_keeps (R := Carries 0) Carries.refl_right).bindClauses
      (fun m _ h => (leads_bind_carries h m).imp fun _ _ _ _ => trivial) (adoptAll clauses x).1
      (.refl (Nat.zero_le _) hy)
    exact Leads.bind (hbind.weaken fun _ h => h.unmerged) fun _ z hz _ => leads_pure hz trivial
  exact hrest.snd

/-- Only merging merges bindings. -/
theorem Operation.unmerged_run {operation : Operation} (hne : operation ≠ .mergeLoose)
    (h : x.Unmerged) : (operation.run x).Unmerged := by
  have hrefl : x.Carries 0 x := .refl (Nat.zero_le _) h
  have heverywhere : ∀ c : Clause, c.Everywhere fun _ => True :=
    Clause.everywhere_of_forall fun _ => trivial
  cases operation with
  | bind m => exact (leads_bind_carries hrefl m).snd.unmerged
  | unbind m => exact h.unbind m
  | rebind m => exact (leads_rebind_carries hrefl m).snd.unmerged
  | mergeLoose => exact absurd rfl hne
  | resolve options c =>
    exact ((completes_carries options 0 none).leads_resolve c hrefl (heverywhere c)).snd.unmerged
  | complete options previous c =>
    exact ((completes_carries options 0 c.factType).leads_complete previous hrefl (heverywhere c)
      rfl).snd.unmerged

/-! ## What merging leaves -/

/-- What merging makes of a context in which nothing has been merged. -/
structure Context.MergesTo (x y : Context) : Prop where
  /-- For each player, the bindings that only adjectives tell apart pair off. -/
  pairsOff : ∀ player, x.PairsOff y player
  /-- No other binding is merged. -/
  unmarked : ∀ b c, y.mergedInto? b = some c →
    ∃ B, x.binding? b = some B ∧ B.roleName = none ∧ B.literal = none
  /-- A mention is stood for by its binding, or by the one that this has been merged into. -/
  standsFor : ∀ m b, (x.mention m).binding = some b → ∃ c B C,
    y.effectiveBinding? m = some c ∧ y.binding? b = some B ∧ y.binding? c = some C ∧
      (B.reboundTo = none ∧ c = b ∨ B.reboundTo = some c) ∧
      C.player = B.player ∧ C.reboundTo = none
  /-- Merging once more changes nothing. -/
  settled : y.mergeLoose = y

/-- **What merging leaves.** Let no binding have been merged before. For each player the bindings
without role name and literal pair off, and no other binding is merged. A mention that has a binding
is then stood for by that binding, or by the one that it has been merged into; this one has the same
player and has not been merged itself. Merging once more changes nothing. -/
theorem Context.mergesTo_mergeLoose (h : x.Bound) (hx : x.Unmerged) : x.MergesTo x.mergeLoose := by
  refine ⟨pairsOff_player h.toTied hx, fun b c hbc => ?_, fun m b hm => ?_,
    mergeLoose_mergeLoose h.toTied hx⟩
  · rw [mergedInto?_mergeLoose h.toTied hx] at hbc
    obtain ⟨B, _, hB, -, hunmarked, -⟩ := h.exists_of_mergeTarget? hbc
    simp only [Binding.isUnmarked, Bool.and_eq_true, Option.isNone_iff_eq_none] at hunmarked
    exact ⟨B, hB, hunmarked⟩
  · have hm' : (x.mergeLoose.mention m).binding = some b := by rw [mention_mergeLoose, hm]
    obtain ⟨c, heffective, hstep, hc, hlive⟩ :=
      (ended_mergeLoose h.toTied hx).exists_effectiveBinding? h.mergeLoose.toTied hm'
    obtain ⟨B, hB, -⟩ := (h.mergeLoose.binding_iff m b).1 hm'
    obtain ⟨C, hC⟩ := Option.isSome_iff_exists.1 hlive
    have hinto : x.mergeLoose.mergedInto? b = B.reboundTo := by rw [mergedInto?, hB]; rfl
    have hplayer : C.player = B.player := by
      rcases hstep with ⟨-, rfl⟩ | hstep
      · rw [Option.some.inj (hB.symm.trans hC)]
      · rw [mergedInto?_mergeLoose h.toTied hx] at hstep
        obtain ⟨B₀, C₀, hB₀, hC₀, -, hplayer⟩ := h.exists_of_mergeTarget? hstep
        rw [mergeLoose_eq h.toTied hx, binding?_merged] at hB hC
        rw [hB₀] at hB
        rw [hC₀] at hC
        cases hB
        cases hC
        exact hplayer
    rw [hinto] at hstep
    refine ⟨c, B, C, heffective, hB, hC, hstep, hplayer, ?_⟩
    rwa [mergedInto?, hC] at hc

/-- Of two mentions of one term, one of them with an adjective, the first goes with the second. -/
theorem Context.mergesTo_mergeLoose_big :
    let x := ((Compile.enter [{ phrases := [.mention { term := "A" }, .word "likes",
      .mention { term := "A", leading := some "big" }] }]).perform
        { vocabulary := { name := "V" }, forwardTerms := ["A"] }).2
    (x.Bound ∧ x.Unmerged) ∧ x.mergeLoose.mergedInto? ⟨0⟩ = some ⟨1⟩ ∧ x.MergesTo x.mergeLoose := by
  intro x
  have hbound : x.Bound := bound_enter ..
  have hunmerged : x.Unmerged := unmerged_enter _ _ _
  exact ⟨⟨hbound, hunmerged⟩, by decide +kernel, mergesTo_mergeLoose hbound hunmerged⟩

/-! ## Binding after merging -/

/-- Binding a mention leaves all merges as they are, and drops no binding. -/
lemma Context.mergedInto?_bindAs (m : MentionId) (player : ObjectTypeId) (b : BindingId) :
    (x.bindAs m player).2.mergedInto? b = x.mergedInto? b ∧
      ((x.binding? b).isSome → ((x.bindAs m player).2.binding? b).isSome) := by
  have henlist : ∀ (y : Context) c, (y.enlist m c).mergedInto? b = y.mergedInto? b ∧
      ((y.binding? b).isSome → ((y.enlist m c).binding? b).isSome) := by
    intro y c
    rw [mergedInto?, binding?_enlist, mergedInto?, Option.isSome_map]
    refine ⟨?_, id⟩
    cases y.binding? b with
    | none => rfl
    | some B =>
      rw [Option.map_some, Option.bind_some, enlisted]
      split <;> rfl
  rw [Context.bindAs]
  split
  · exact henlist x _
  · refine ⟨(henlist _ _).1.trans ?_, fun hb => (henlist _ _).2 ?_⟩
    · rw [mergedInto?, binding?_pushBinding, mergedInto?]
      split
      · next hnew =>
        rw [hnew, binding?_size]
        rfl
      · rfl
    · rw [binding?_pushBinding]
      split
      · rfl
      · exact hb

/-- Binding a mention leaves all merges as they are, and drops no binding, whether or not the
mention has a player. -/
lemma mergedInto?_run_bind (m : MentionId) (b : BindingId) :
    ((Operation.bind m).run x).mergedInto? b = x.mergedInto? b ∧
      ((x.binding? b).isSome → (((Operation.bind m).run x).binding? b).isSome) := by
  have hends : (Compile.bind m).Leads (fun x y => y.mergedInto? b = x.mergedInto? b ∧
      ((x.binding? b).isSome → (y.binding? b).isSome)) x fun _ _ => True := by
    refine ends_bind_mention.2 ?_
    split
    · next player _ => exact ⟨mergedInto?_bindAs m player b, trivial⟩
    · exact ⟨rfl, id⟩
  exact hends.snd

/-- Merges still end if further mentions are bound. -/
lemma Context.Ended.run_bind (h : x.Ended) (m : MentionId) : ((Operation.bind m).run x).Ended := by
  intro b c hbc
  rw [(mergedInto?_run_bind m b).1] at hbc
  obtain ⟨hc, hlive⟩ := h b c hbc
  exact ⟨(mergedInto?_run_bind m c).1.trans hc, (mergedInto?_run_bind m c).2 hlive⟩

/-! ## Merging in both directions -/

/-- No binding has been merged into itself, and no two into each other. -/
def Context.Directed (x : Context) : Prop :=
  ∀ b c, x.mergedInto? b = some c → c ≠ b ∧ x.mergedInto? c ≠ some b

/-- Whether an operation only binds mentions, takes them out of their bindings or merges
bindings. -/
def Operation.isBinding : Operation → Bool
  | resolve .. => false
  | complete .. => false
  | _ => true

namespace Context.Directed

/-- Where no more is merged, merges go no way back. -/
lemma of_mergedInto? (h : x.Directed) {y : Context}
    (hy : ∀ b c, y.mergedInto? b = some c → x.mergedInto? b = some c) : y.Directed :=
  fun b c hbc => ⟨(h b c (hy b c hbc)).1, fun hcb => (h b c (hy b c hbc)).2 (hy c b hcb)⟩

/-- Binding a mention adds no merge. -/
lemma run_bind (h : x.Directed) (m : MentionId) : ((Operation.bind m).run x).Directed :=
  h.of_mergedInto? fun b _ hbc => (mergedInto?_run_bind m b).1.symm.trans hbc

/-- Bindings that are dropped are not merged any more. -/
lemma unbind (h : x.Directed) (m : MentionId) : (x.unbind m).Directed := by
  rw [Context.unbind]
  split
  · exact h
  next b _ =>
  rw [strike]
  split
  · exact h
  next B hB =>
  dsimp only
  split
  · refine h.of_mergedInto? fun c d hcd => ?_
    obtain ⟨C, hC, hd⟩ := mergedInto?_eq_some.1 hcd
    rw [binding?_dropBinding] at hC
    split at hC
    · cases hC
    · exact mergedInto?_eq_some.2 ⟨C, hC, hd⟩
  · refine h.of_mergedInto? fun c d hcd => ?_
    obtain ⟨C, hC, hd⟩ := mergedInto?_eq_some.1 hcd
    rw [binding?_modifyBinding] at hC
    split at hC
    · next hc =>
      obtain ⟨C₀, hC₀, rfl⟩ := Option.map_eq_some_iff.1 hC
      exact mergedInto?_eq_some.2 ⟨C₀, hc ▸ hC₀, hd⟩
    · exact mergedInto?_eq_some.2 ⟨C, hC, hd⟩

/-- A binding is never merged into one that has been merged into it. -/
lemma mergeBinding (h : x.Directed) (b : BindingId) : (x.mergeBinding b).Directed := by
  rw [Context.mergeBinding]
  split
  · exact h
  next B hB =>
  split
  · next other hpartner =>
    have hother : x.isPartner b B.player other = true := by
      refine (List.mem_filter.1 (?_ : other ∈ x.liveBindings.filter _)).2
      rw [hpartner]
      exact List.mem_singleton_self other
    obtain ⟨O, hO, hne, hback⟩ : ∃ O, x.binding? other = some O ∧ other ≠ b ∧
        O.reboundTo ≠ some b := by
      obtain ⟨O, hO, hall⟩ := (Option.any_eq_true ..).1 hother
      simp only [decide_eq_true_eq] at hall
      exact ⟨O, hO, hall.1, hall.2.2.2⟩
    have hinto : ∀ c, (x.modifyBinding b ({ · with reboundTo := some other })).mergedInto? c =
        if c = b then some other else x.mergedInto? c := by
      intro c
      rw [mergedInto?, binding?_modifyBinding, hB]
      split <;> rfl
    have hother' : x.mergedInto? other ≠ some b := by
      rw [mergedInto?, hO]
      exact hback
    intro c d hcd
    rw [hinto] at hcd ⊢
    by_cases hc : c = b
    · obtain rfl := hc
      rw [if_pos rfl] at hcd
      cases hcd
      exact ⟨hne, by rw [if_neg hne]; exact hother'⟩
    · rw [if_neg hc] at hcd
      refine ⟨(h c d hcd).1, ?_⟩
      split
      · next hd =>
        rintro heq
        cases heq
        exact hother' (hd ▸ hcd)
      · exact (h c d hcd).2
  · exact h

/-- No operation on bindings merges two of them into each other. -/
theorem run (h : x.Directed) {operation : Operation} (hbinding : operation.isBinding = true) :
    (operation.run x).Directed := by
  cases operation with
  | bind m => exact h.run_bind m
  | unbind m => exact h.unbind m
  | rebind m =>
    have hrun : (Operation.rebind m).run x = (Operation.bind m).run (x.unbind m) := rfl
    rw [hrun]
    exact (h.unbind m).run_bind m
  | mergeLoose => exact List.foldlRecOn _ _ h fun _ hy b _ => hy.mergeBinding b
  | resolve options c => cases hbinding
  | complete options previous c => cases hbinding

end Context.Directed

/-! ## Where merges end -/

/-- Merging any number of times leaves a bound context in which merges end. -/
lemma Context.ended_replicate_mergeLoose (h : x.Bound) (hx : x.Unmerged) (merges : Nat) :
    ((List.replicate merges Operation.mergeLoose).foldl Operation.run x).Bound ∧
      ((List.replicate merges Operation.mergeLoose).foldl Operation.run x).Ended := by
  have hsettled : ∀ n, (List.replicate n Operation.mergeLoose).foldl Operation.run x.mergeLoose =
      x.mergeLoose := by
    intro n
    induction n with
    | zero => rfl
    | succ n ih =>
      rw [List.replicate_succ, List.foldl_cons, Operation.run,
        mergeLoose_mergeLoose h.toTied hx, ih]
  cases merges with
  | zero => exact ⟨h, hx.ended⟩
  | succ merges =>
    rw [List.replicate_succ, List.foldl_cons, Operation.run, hsettled]
    exact ⟨h.mergeLoose, ended_mergeLoose h.toTied hx⟩

/-- **Merges end if bindings are merged last.** Whatever clauses are entered for a declaration, and
whatever is done with bindings afterwards, no binding is merged into itself and no two are merged
into each other. If nothing has been merged before, then after any number of merges, and after
further mentions have been bound, no merge is followed by another one, and every bound mention has a
binding that stands for it and is there.

**Proof sketch.** The first half is kept by each operation. For the second half nothing is merged at
first. The first merge pairs bindings off, further ones change nothing, and binding a mention drops
no binding and changes no merge. -/
theorem merges_end (v : Vocabulary) (forwardTerms : List String) (clauses : List Script.Clause)
    (operations : List Operation) :
    let x := operations.foldl Operation.run
      ((Compile.enter clauses).perform { vocabulary := v, forwardTerms }).2
    ((∀ o ∈ operations, o.isBinding = true) → x.Directed) ∧
    (Operation.mergeLoose ∉ operations → ∀ (merges : Nat) (ms : List MentionId),
      let y := (List.replicate merges Operation.mergeLoose ++ ms.map Operation.bind).foldl
        Operation.run x
      y.Ended ∧ ∀ m b, (y.mention m).binding = some b → ∃ c, y.effectiveBinding? m = some c ∧
        (y.mergedInto? b = none ∧ c = b ∨ y.mergedInto? b = some c) ∧
        y.mergedInto? c = none ∧ (y.binding? c).isSome) := by
  have hentered := bound_enter v forwardTerms clauses
  have hunmerged := unmerged_enter v forwardTerms clauses
  generalize ((Compile.enter clauses).perform { vocabulary := v, forwardTerms }).2 = x₀
    at hentered hunmerged
  intro x
  refine ⟨fun hbinding => ?_, fun hnone merges ms => ?_⟩
  · have hdirected : x₀.Directed := fun b c hbc => by
      cases (hunmerged.mergedInto?_eq_none b).symm.trans hbc
    exact List.foldlRecOn operations _ hdirected fun y hy o ho => hy.run (hbinding o ho)
  · have hx : x.Bound := List.foldlRecOn operations _ hentered fun y hy o _ => o.bound_run hy
    have hxunmerged : x.Unmerged := by
      refine List.foldlRecOn operations _ hunmerged fun y hy o ho => ?_
      exact Operation.unmerged_run (fun heq => hnone (heq ▸ ho)) hy
    have hended := ended_replicate_mergeLoose hx hxunmerged merges
    intro y
    have hy : y.Bound ∧ y.Ended := by
      unfold y
      rw [List.foldl_append]
      refine List.foldlRecOn (motive := fun z : Context => z.Bound ∧ z.Ended) _ _ hended
        fun z hz o ho => ?_
      obtain ⟨m, -, rfl⟩ := List.mem_map.1 ho
      exact ⟨Operation.bound_run hz.1 _, hz.2.run_bind m⟩
    exact ⟨hy.2, fun m b hm => hy.2.exists_effectiveBinding? hy.1.toTied hm⟩

/-- Of three mentions of one term, the last is taken out of its binding before the others are
merged, and is bound again afterwards. -/
theorem merges_end_tall :
    let person (adjective : Option String) : Script.Phrase :=
      .mention { term := "A", leading := adjective }
    let x := [Operation.unbind ⟨2⟩].foldl Operation.run ((Compile.enter [{ phrases := [person none,
      .word "likes", person "big", .word "and", person "tall"] }]).perform
        { vocabulary := { name := "V" }, forwardTerms := ["A"] }).2
    let y := (List.replicate 1 Operation.mergeLoose ++ [⟨2⟩].map Operation.bind).foldl
      Operation.run x
    ((∀ o ∈ [Operation.unbind ⟨2⟩], o.isBinding = true) ∧
        Operation.mergeLoose ∉ [Operation.unbind ⟨2⟩] ∧
        (y.mention ⟨0⟩).binding = some ⟨0⟩ ∧ y.effectiveBinding? ⟨0⟩ = some ⟨1⟩) ∧
      x.Directed ∧ y.Ended ∧ ∃ c, y.effectiveBinding? ⟨0⟩ = some c ∧
        (y.mergedInto? ⟨0⟩ = none ∧ c = ⟨0⟩ ∨ y.mergedInto? ⟨0⟩ = some c) ∧
        y.mergedInto? c = none ∧ (y.binding? c).isSome := by
  intro person x y
  have hcomputed : (y.mention ⟨0⟩).binding = some ⟨0⟩ ∧ y.effectiveBinding? ⟨0⟩ = some ⟨1⟩ := by
    decide +kernel
  have hbinding : ∀ o ∈ [Operation.unbind ⟨2⟩], o.isBinding = true := by simp [Operation.isBinding]
  have hnone : Operation.mergeLoose ∉ [Operation.unbind ⟨2⟩] := by simp
  have hend := merges_end { name := "V" } ["A"] [{ phrases := [person none, .word "likes",
    person "big", .word "and", person "tall"] }] [.unbind ⟨2⟩]
  have hmerged := hend.2 hnone 1 [⟨2⟩]
  exact ⟨⟨hbinding, hnone, hcomputed⟩, hend.1 hbinding, hmerged.1, hmerged.2 _ _ hcomputed.1⟩

/-- **Merges need not end.** If the third of the mentions is bound again and bindings are merged
once more, the three bindings are merged in a circle. And if the second one is taken out of its
binding after the first has been merged into that, the first is stood for by a binding that is
gone. -/
theorem exists_endless_merges :
    let person (adjective : Option String) : Script.Phrase :=
      .mention { term := "A", leading := adjective }
    let x := ((Compile.enter [{ phrases := [person none, .word "likes", person "big", .word "and",
      person "tall"] }]).perform { vocabulary := { name := "V" }, forwardTerms := ["A"] }).2
    let y := [Operation.unbind ⟨2⟩, .mergeLoose, .bind ⟨2⟩, .mergeLoose].foldl Operation.run x
    let z := [Operation.unbind ⟨2⟩, .mergeLoose, .unbind ⟨1⟩].foldl Operation.run x
    (y.mergedInto? ⟨0⟩ = some ⟨1⟩ ∧ y.mergedInto? ⟨1⟩ = some ⟨3⟩ ∧ y.mergedInto? ⟨3⟩ = some ⟨0⟩) ∧
      (z.mention ⟨0⟩).binding = some ⟨0⟩ ∧ z.effectiveBinding? ⟨0⟩ = some ⟨1⟩ ∧
        (z.binding? ⟨1⟩).isNone := by
  decide +kernel

end FactModel
