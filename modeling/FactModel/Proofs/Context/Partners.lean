import FactModel.Proofs.Context.Merging
set_option autoImplicit false

/-!
# What merging leaves

Merging goes through the loose bindings one by one, but what comes of it can be said for each player
apart. Only the bindings count that have no role name and no literal. If there are two of them, one
may be merged into the other; otherwise they all stay. So merging once more changes nothing.

## Main definitions

* `FactModel.Context.mergedInto?` — the binding that a binding has been merged into.
* `FactModel.Context.PairsOff` — what becomes of the bindings of one player.
* `FactModel.Context.Ended` — no merge is followed by another one, or ends at a binding that is
  gone.

## Main results

* `FactModel.Context.pairsOff_player` — the bindings of every player pair off.
* `FactModel.Context.mergeLoose_mergeLoose` — merging twice is merging once.
* `FactModel.Context.Ended.exists_effectiveBinding?` — a bound mention then has a binding that
  stands for it.
-/

namespace FactModel.Context

variable {x : Context}

/-- The binding that a binding has been merged into. -/
def mergedInto? (x : Context) (b : BindingId) : Option BindingId :=
  (x.binding? b).bind (·.reboundTo)

/-- A binding has been merged into another one if it is rebound to it. -/
lemma mergedInto?_eq_some {b c : BindingId} :
    x.mergedInto? b = some c ↔ ∃ B, x.binding? b = some B ∧ B.reboundTo = some c :=
  Option.bind_eq_some_iff

/-- Whether a binding has exactly one mention. -/
def hasOneMention (x : Context) (b : BindingId) : Bool :=
  (x.binding? b).any (·.mentions.length == 1)

/-- What becomes of the bindings of a player that only adjectives tell apart. Of two, the earlier
one is merged into the later one if it has one mention, or else the later one into the earlier one
if that has. More than two stay as they are, and so does a single one. -/
def PairsOff (x y : Context) (player : ObjectTypeId) : Prop :=
  match x.unmarkedBindings player with
  | [a, b] =>
    a.index < b.index ∧
      y.mergedInto? a = (if x.hasOneMention a then some b else none) ∧
      y.mergedInto? b = if ¬x.hasOneMention a ∧ x.hasOneMention b then some a else none
  | others => ∀ b ∈ others, y.mergedInto? b = none

/-! ## The bindings of one player -/

/-- Of the bindings that only adjectives tell apart those are loose that have one mention. -/
lemma Tied.isLoose_eq (h : x.Tied) {player : ObjectTypeId} {b : BindingId}
    (hb : b ∈ x.unmarkedBindings player) : x.isLoose b = x.hasOneMention b := by
  obtain ⟨B, hB, hunmarked, -⟩ := h.mem_unmarkedBindings.1 hb
  rw [isLoose, hasOneMention, hB, Option.any_some, Option.any_some, hunmarked, Bool.and_true]

/-- A binding is left alone unless there are just two of its player. -/
lemma Tied.mergeTarget?_eq_none (h : x.Tied) {player : ObjectTypeId} {b : BindingId}
    (hb : b ∈ x.unmarkedBindings player) (hne : ∀ c d, x.unmarkedBindings player ≠ [c, d]) :
    x.mergeTarget? b = none := by
  obtain ⟨B, hB, -, rfl⟩ := h.mem_unmarkedBindings.1 hb
  rw [mergeTarget?, hB, Option.map_some]
  split
  · next hpair => exact absurd (Option.some.inj hpair) (hne _ _)
  · rfl

/-- Merging merges a binding into what it is to be merged into. -/
lemma mergedInto?_mergeLoose (h : x.Tied) (hx : x.Unmerged) (b : BindingId) :
    x.mergeLoose.mergedInto? b = x.mergeTarget? b :=
  reboundTo_mergeLoose h hx b

/-- **Bindings pair off.** For each player, merging comes to what can be said of its unmarked
bindings alone. -/
theorem pairsOff_player (h : x.Tied) (hx : x.Unmerged) (player : ObjectTypeId) :
    x.PairsOff x.mergeLoose player := by
  have hinto := mergedInto?_mergeLoose h hx
  have hloose : ∀ b ∈ x.unmarkedBindings player, x.isLoose b = x.hasOneMention b :=
    fun b => h.isLoose_eq
  have hsorted := h.unmarkedBindings_pairwise player
  unfold PairsOff
  split
  · next a b hpair =>
    obtain ⟨ha, hb⟩ := h.mergeTarget?_of_pair hpair
    rw [hpair] at hloose hsorted
    rw [hloose a (by simp)] at ha hb
    rw [hloose b (by simp)] at hb
    refine ⟨by simpa using hsorted, (hinto a).trans ha, ?_⟩
    rw [hinto, hb]
    simp only [and_comm]
  · next hne =>
    intro b hb
    rw [hinto]
    exact h.mergeTarget?_eq_none hb hne

/-- What has a target is loose, and has the player of its target. -/
lemma Tied.exists_of_mergeTarget? (h : x.Tied) {b c : BindingId}
    (hbc : x.mergeTarget? b = some c) :
    ∃ B C, x.binding? b = some B ∧ x.binding? c = some C ∧ B.isUnmarked = true ∧
      C.player = B.player := by
  obtain ⟨-, ⟨player, hpair⟩, -⟩ := merges_of_mergeTarget? hbc
  have hmem : b ∈ x.unmarkedBindings player ∧ c ∈ x.unmarkedBindings player := by
    rcases hpair with hpair | hpair <;> simp [hpair]
  obtain ⟨B, hB, hunmarked, hplayer⟩ := h.mem_unmarkedBindings.1 hmem.1
  obtain ⟨C, hC, -, hplayer'⟩ := h.mem_unmarkedBindings.1 hmem.2
  exact ⟨B, C, hB, hC, hunmarked, hplayer'.trans hplayer.symm⟩

/-! ## Merging once more -/

/-- Merging leaves bindings as loose as they were. -/
lemma looseBindings_merged (done : List BindingId) :
    (x.merged done).looseBindings = x.looseBindings := by
  rw [looseBindings, liveBindings_merged, looseBindings]
  refine List.filter_congr fun b _ => ?_
  rw [binding?_merged]
  cases x.binding? b <;> rfl

/-- Merging twice is merging once: every loose binding finds the partner again that it was merged
into, and no other one. -/
theorem mergeLoose_mergeLoose (h : x.Tied) (hx : x.Unmerged) :
    x.mergeLoose.mergeLoose = x.mergeLoose := by
  rw [mergeLoose_eq h hx, mergeLoose, looseBindings_merged]
  refine List.foldlRecOn (motive := fun y => y = x.merged x.looseBindings) _ _ rfl ?_
  rintro _ rfl b hb
  have hloose := h.mem_looseBindings.1 hb
  rw [mergeBinding_merged hx h hloose fun o ho _ => h.mem_looseBindings.2 ho]
  exact merged_congr fun o => by simp [or_iff_left_of_imp fun ho : o = b => ho ▸ hb]

/-! ## Where merges end -/

/-- No merge is followed by another one, and none ends at a binding that is gone. -/
def Ended (x : Context) : Prop :=
  ∀ b c, x.mergedInto? b = some c → x.mergedInto? c = none ∧ (x.binding? c).isSome

/-- Where nothing is merged, no binding has been merged into another one. -/
lemma Unmerged.mergedInto?_eq_none (h : x.Unmerged) (b : BindingId) : x.mergedInto? b = none := by
  cases hb : x.mergedInto? b with
  | none => rfl
  | some c =>
    obtain ⟨B, hB, hc⟩ := mergedInto?_eq_some.1 hb
    cases (h b B hB).symm.trans hc

/-- Where nothing is merged, no merge is followed by another one. -/
lemma Unmerged.ended (h : x.Unmerged) : x.Ended := by
  intro b c hbc
  cases (h.mergedInto?_eq_none b).symm.trans hbc

/-- Merging ends after one step. -/
lemma ended_mergeLoose (h : x.Tied) (hx : x.Unmerged) : x.mergeLoose.Ended := by
  intro b c hbc
  rw [mergedInto?_mergeLoose h hx] at hbc ⊢
  obtain ⟨_, C, -, hC, -⟩ := h.exists_of_mergeTarget? hbc
  rw [mergeLoose_eq h hx, binding?_merged, hC]
  exact ⟨h.mergeTarget?_target hbc, rfl⟩

/-- A binding that is there is one of the context. -/
lemma index_lt_of_binding? {b : BindingId} (h : (x.binding? b).isSome) :
    b.index < x.bindings.size := by
  refine Decidable.of_not_not fun hlt => ?_
  rw [binding?, Array.getElem?_eq_none (Nat.le_of_not_lt hlt)] at h
  cases h

/-- Where merges end, a bound mention has a binding that stands for it: its own, or the one that
this has been merged into. -/
theorem Ended.exists_effectiveBinding? (h : x.Ended) (hx : x.Tied) {m : MentionId} {b : BindingId}
    (hm : (x.mention m).binding = some b) :
    ∃ c, x.effectiveBinding? m = some c ∧
      (x.mergedInto? b = none ∧ c = b ∨ x.mergedInto? b = some c) ∧
      x.mergedInto? c = none ∧ (x.binding? c).isSome := by
  obtain ⟨B, hB, -⟩ := (hx.binding_iff m b).1 hm
  have hlive : (x.binding? b).isSome := hB ▸ rfl
  have hstay : ∀ steps c, x.mergedInto? c = none → x.followMerges steps c = c := by
    intro steps c hc
    cases steps with
    | zero => rfl
    | succ steps => rw [followMerges, show (x.binding? c).bind (·.reboundTo) = none from hc]
  rw [effectiveBinding?, hm, Option.map_some]
  cases hb : x.mergedInto? b with
  | none => exact ⟨b, congrArg some (hstay _ b hb), .inl ⟨rfl, rfl⟩, hb, hlive⟩
  | some c =>
    obtain ⟨hc, hlive'⟩ := h b c hb
    obtain ⟨steps, hsteps⟩ := Nat.exists_eq_add_one_of_ne_zero
      (Nat.ne_zero_of_lt (index_lt_of_binding? hlive))
    refine ⟨c, congrArg some ?_, .inr rfl, hc, hlive'⟩
    rw [hsteps, followMerges, show (x.binding? b).bind (·.reboundTo) = some c from hb]
    exact hstay steps c hc

end FactModel.Context
