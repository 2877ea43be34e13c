import Mathlib.Data.List.Basic
import FactModel.Proofs.Context.Bindings
set_option autoImplicit false

/-!
# What becomes of loose bindings

Bindings are merged one after the other, and each merge looks at those before it. The outcome does
not depend on that: a binding is merged only if there are just two of its player that nothing but
adjectives tells apart, and then into the other one. Where both could go, the earlier one goes.

## Main definitions

* `FactModel.Context.unmarkedBindings` — the bindings of a player that only adjectives tell apart.
* `FactModel.Context.mergeTarget?` — the binding that a binding is merged into.
* `FactModel.Context.Merges`, `FactModel.Context.MergesMentions` — two bindings, or those of two
  mentions, are merged, one way or the other.

## Main results

* `FactModel.Context.mergeLoose_eq` — merging in closed form.
* `FactModel.Context.followMerges_mergeLoose` — a merge is followed by no other.
* `FactModel.Context.effectiveBinding?_mergeLoose_eq_iff` — the mentions that stand for one
  individual after merging.
-/

namespace FactModel.Context

variable {x : Context}

/-! ## Bindings in order -/

/-- The places of the bindings that have mentions. -/
lemma Tied.mem_liveBindings (h : x.Tied) {b : BindingId} :
    b ∈ x.liveBindings ↔ (x.binding? b).isSome := by
  have hplace : ∀ B : Binding, (∃ i : Nat, x.bindings.toList[i]? = some (some B)) →
      x.binding? B.id = some B := by
    rintro B ⟨i, hi⟩
    have hB : x.binding? ⟨i⟩ = some B := by
      rw [binding?, ← Array.getElem?_toList, hi]
      rfl
    rw [h.binding_id hB, hB]
  rw [liveBindings, List.mem_map]
  simp only [List.mem_filterMap, id]
  constructor
  · rintro ⟨B, ⟨_, hB, rfl⟩, rfl⟩
    rw [hplace B (List.mem_iff_getElem?.1 hB)]
    rfl
  · intro hb
    obtain ⟨B, hB⟩ := Option.isSome_iff_exists.1 hb
    refine ⟨B, ⟨some B, List.mem_iff_getElem?.2 ⟨b.index, ?_⟩, rfl⟩, h.binding_id hB⟩
    rw [Array.getElem?_toList]
    exact Option.join_eq_some_iff.1 hB

/-- The places of bindings come in their order. -/
lemma Tied.liveBindings_pairwise (h : x.Tied) :
    x.liveBindings.Pairwise (·.index < ·.index) := by
  rw [liveBindings, List.pairwise_map, List.pairwise_filterMap, List.pairwise_iff_getElem]
  intro i j hi hj hij B hB C hC
  have hplace : ∀ k (hk : k < x.bindings.toList.length) (D : Binding),
      id x.bindings.toList[k] = some D → D.id = ⟨k⟩ := by
    intro k hk D hD
    refine h.binding_id ?_
    rw [binding?, ← Array.getElem?_toList, List.getElem?_eq_getElem hk]
    exact hD
  rw [hplace i hi B hB, hplace j hj C hC]
  exact hij

/-- The bindings of a player that only adjectives tell apart, in order. -/
def unmarkedBindings (x : Context) (player : ObjectTypeId) : List BindingId :=
  x.liveBindings.filter fun b => (x.binding? b).any fun B => B.isUnmarked ∧ B.player = player

/-- Whether a binding has one mention, no role name and no literal. -/
def isLoose (x : Context) (b : BindingId) : Bool :=
  (x.binding? b).any fun B => B.mentions.length == 1 && B.isUnmarked

/-- The bindings of a player that only adjectives tell apart are listed in order. -/
lemma Tied.unmarkedBindings_pairwise (h : x.Tied) (player : ObjectTypeId) :
    (x.unmarkedBindings player).Pairwise (·.index < ·.index) :=
  h.liveBindings_pairwise.filter _

/-- They are those of the player that have neither a role name nor a literal. -/
lemma Tied.mem_unmarkedBindings (h : x.Tied) {player : ObjectTypeId} {b : BindingId} :
    b ∈ x.unmarkedBindings player ↔
      ∃ B, x.binding? b = some B ∧ B.isUnmarked = true ∧ B.player = player := by
  rw [unmarkedBindings, List.mem_filter, h.mem_liveBindings]
  cases x.binding? b <;> simp

/-- A binding is one of a single player. -/
lemma Tied.player_eq_of_mem (h : x.Tied) {player other : ObjectTypeId} {b : BindingId}
    (hb : b ∈ x.unmarkedBindings player) (hc : b ∈ x.unmarkedBindings other) : player = other := by
  obtain ⟨B, hB, -, rfl⟩ := h.mem_unmarkedBindings.1 hb
  obtain ⟨C, hC, -, rfl⟩ := h.mem_unmarkedBindings.1 hc
  rw [Option.some.inj (hB.symm.trans hC)]

/-- The loose bindings are those with one mention, no role name and no literal. -/
lemma Tied.mem_looseBindings (h : x.Tied) {b : BindingId} :
    b ∈ x.looseBindings ↔ x.isLoose b = true := by
  have hloose : x.looseBindings = x.liveBindings.filter x.isLoose := rfl
  rw [hloose, List.mem_filter, h.mem_liveBindings, isLoose]
  cases x.binding? b <;> simp

/-! ## Merging in closed form -/

/-- No binding has been merged into another one. -/
def Unmerged (x : Context) : Prop :=
  ∀ b, ∀ B ∈ x.binding? b, B.reboundTo = none

/-- What a binding is merged into: the other one of two that only adjectives tell apart, if it is
loose. Of two loose ones the earlier goes. -/
def mergeTarget? (x : Context) (b : BindingId) : Option BindingId :=
  match (x.binding? b).map fun B => x.unmarkedBindings B.player with
  | some [c, d] =>
    if b = c ∧ x.isLoose c then some d
    else if b = d ∧ x.isLoose d ∧ ¬x.isLoose c then some c
    else none
  | _ => none

/-- The context after the given bindings have been merged. -/
def merged (x : Context) (done : List BindingId) : Context :=
  { x with
    bindings := x.bindings.map (Option.map fun B =>
      { B with reboundTo := if B.id ∈ done then x.mergeTarget? B.id else B.reboundTo }) }

/-- Merging changes only what a binding is rebound to. -/
lemma binding?_merged (done : List BindingId) (b : BindingId) :
    (x.merged done).binding? b = (x.binding? b).map fun B =>
      { B with reboundTo := if B.id ∈ done then x.mergeTarget? B.id else B.reboundTo } := by
  simp only [binding?, merged, Array.getElem?_map]
  rcases x.bindings[b.index]? with _ | _ | B <;> rfl

/-- Merging leaves the bindings that are there. -/
lemma liveBindings_merged (done : List BindingId) :
    (x.merged done).liveBindings = x.liveBindings := by
  simp only [liveBindings, merged, Array.toList_map, List.filterMap_map, List.map_filterMap]
  congr 1
  funext B
  cases B <;> rfl

/-- Merging none changes nothing. -/
lemma merged_nil (x : Context) : x.merged [] = x := by
  have hmap : (Option.map fun B : Binding =>
      { B with reboundTo := if B.id ∈ [] then x.mergeTarget? B.id else B.reboundTo }) = id := by
    funext B
    cases B <;> simp
  rw [merged, hmap, Array.map_id]

/-- It does not matter in which order bindings have been merged. -/
lemma merged_congr {done done' : List BindingId} (h : ∀ b, b ∈ done ↔ b ∈ done') :
    x.merged done = x.merged done' := by
  simp only [merged, h]

/-- A binding that has no target is left alone. -/
lemma merged_of_target_eq_none (hx : x.Unmerged) {done : List BindingId}
    {b : BindingId} (hb : x.mergeTarget? b = none) : x.merged (done ++ [b]) = x.merged done := by
  refine congrArg (fun bindings => { x with bindings }) (Array.ext_getElem? fun i => ?_)
  rw [Array.getElem?_map, Array.getElem?_map]
  rcases hB : x.bindings[i]? with _ | _ | B
  · rfl
  · rfl
  have hlookup : x.binding? ⟨i⟩ = some B := by rw [binding?, hB]; rfl
  simp only [Option.map_some, List.mem_append, List.mem_singleton]
  by_cases hid : B.id = b
  · simp [hid, hb, hx _ B hlookup]
  · simp [hid]

/-- A merge into the target of a binding. -/
lemma modifyBinding_merged (h : x.Tied) {done : List BindingId} {b other : BindingId}
    (hb : x.mergeTarget? b = some other) :
    (x.merged done).modifyBinding b ({ · with reboundTo := some other }) =
      x.merged (done ++ [b]) := by
  refine congrArg (fun bindings => { x with bindings }) (Array.ext_getElem? fun i => ?_)
  rw [Array.getElem?_modify, Array.getElem?_map, merged, Array.getElem?_map]
  rcases hB : x.bindings[i]? with _ | _ | B
  · split <;> rfl
  · split <;> rfl
  have hid : B.id = ⟨i⟩ := h.binding_id (by rw [binding?, hB]; rfl)
  simp only [Option.map_some, List.mem_append, List.mem_singleton]
  split
  · next hi =>
    obtain rfl : B.id = b := by rw [hid, ← hi]
    simp [hb]
  · next hi =>
    have hne : B.id ≠ b := by
      rintro rfl
      exact hi (by rw [hid])
    simp [hne]

/-- The bindings that could stand for a binding after some have been merged: those of its player
that only adjectives tell apart, without itself and those merged into it. -/
lemma filter_isPartner_merged (hx : x.Unmerged) (h : x.Tied) (done : List BindingId)
    (b : BindingId) (player : ObjectTypeId) :
    (x.merged done).liveBindings.filter ((x.merged done).isPartner b player) =
      (x.unmarkedBindings player).filter fun o =>
        o ≠ b ∧ ¬(o ∈ done ∧ x.mergeTarget? o = some b) := by
  rw [liveBindings_merged, unmarkedBindings, List.filter_filter]
  refine List.filter_congr fun o _ => ?_
  rw [isPartner, binding?_merged]
  rcases hO : x.binding? o with _ | O
  · simp
  have hid := h.binding_id hO
  have hnone := hx o O hO
  simp only [Option.map_some, Option.any_some, hid, hnone, Binding.isUnmarked]
  by_cases ho : o ∈ done <;> simp [ho] <;> grind

/-- A list in order that has three items or more has two that are not a given one. -/
lemma two_le_length_filter_ne {c d e : BindingId} {rest : List BindingId}
    (h : (c :: d :: e :: rest).Pairwise (·.index < ·.index)) (b : BindingId) :
    2 ≤ ((c :: d :: e :: rest).filter (· ≠ b)).length := by
  simp only [List.pairwise_cons, List.mem_cons, forall_eq_or_imp] at h
  have hcd : c ≠ d := fun heq => absurd h.1.1 (by rw [heq]; exact Nat.lt_irrefl _)
  have hce : c ≠ e := fun heq => absurd h.1.2.1 (by rw [heq]; exact Nat.lt_irrefl _)
  have hde : d ≠ e := fun heq => absurd h.2.1.1 (by rw [heq]; exact Nat.lt_irrefl _)
  simp only [List.filter_cons]
  by_cases hc : c = b
  · have hd : d ≠ b := fun hd => hcd (hc.trans hd.symm)
    have he : e ≠ b := fun he => hce (hc.trans he.symm)
    simp [hc, hd, he]
  · by_cases hd : d = b
    · have he : e ≠ b := fun he => hde (hd.trans he.symm)
      simp [hc, hd, he]
    · simp [hc, hd]

/-- Merging one more binding, all loose ones before it being merged.

**Proof sketch.** The partners of the binding are those of its player without itself and those
merged into it. With three or more of them nothing was merged, and two are left at least. With two,
the other one is left unless it has gone into this one, which is so if it is loose and earlier. -/
lemma mergeBinding_merged (hx : x.Unmerged) (h : x.Tied) {done : List BindingId} {b : BindingId}
    (hb : x.isLoose b = true)
    (hdone : ∀ o, x.isLoose o = true → o.index < b.index → o ∈ done) :
    (x.merged done).mergeBinding b = x.merged (done ++ [b]) := by
  obtain ⟨B, hB⟩ : ∃ B, x.binding? b = some B := by
    cases hB : x.binding? b with
    | none => simp [isLoose, hB] at hb
    | some B => exact ⟨B, rfl⟩
  have hunmarked : B.isUnmarked = true := by
    rw [isLoose, hB, Option.any_some, Bool.and_eq_true] at hb
    exact hb.2
  have hmem : b ∈ x.unmarkedBindings B.player := h.mem_unmarkedBindings.2 ⟨B, hB, hunmarked, rfl⟩
  have hsorted := h.unmarkedBindings_pairwise B.player
  have htarget : ∀ o ∈ x.unmarkedBindings B.player, (x.binding? o).map
      (fun O => x.unmarkedBindings O.player) = some (x.unmarkedBindings B.player) := by
    intro o ho
    obtain ⟨O, hO, -, hplayer⟩ := h.mem_unmarkedBindings.1 ho
    rw [hO, Option.map_some, hplayer]
  have hpartners := filter_isPartner_merged hx h done b B.player
  rw [mergeBinding, binding?_merged, hB, Option.map_some]
  dsimp only
  rw [hpartners]
  rcases hG : x.unmarkedBindings B.player with _ | ⟨c, _ | ⟨d, _ | ⟨e, more⟩⟩⟩ <;>
    rw [hG] at hmem hsorted htarget
  · cases hmem
  · obtain rfl := List.mem_singleton.1 hmem
    have hnone : x.mergeTarget? b = none := by rw [mergeTarget?, htarget b hmem]
    simp [merged_of_target_eq_none hx hnone]
  · have hcd : c.index < d.index := by simpa using hsorted
    have hne : c ≠ d := fun heq => absurd hcd (by rw [heq]; exact Nat.lt_irrefl _)
    have htc := htarget c List.mem_cons_self
    have htd := htarget d (List.mem_cons_of_mem _ List.mem_cons_self)
    rcases List.mem_pair.1 hmem with rfl | rfl
    · have hsome : x.mergeTarget? b = some d := by simp [mergeTarget?, htc, hb]
      have hback : x.mergeTarget? d = none := by simp [mergeTarget?, htd, hne.symm, hb]
      simp [hne.symm, hback, modifyBinding_merged h hsome]
    · by_cases hc : x.isLoose c = true
      · have hcdone : c ∈ done := hdone c hc hcd
        have hinto : x.mergeTarget? c = some b := by simp [mergeTarget?, htc, hc]
        have hnone : x.mergeTarget? b = none := by simp [mergeTarget?, htd, hne.symm, hc]
        simp [hinto, hcdone, merged_of_target_eq_none hx hnone]
      · have hback : x.mergeTarget? c = none := by simp [mergeTarget?, htc, hc, hne]
        have hsome : x.mergeTarget? b = some c := by simp [mergeTarget?, htd, hne.symm, hb, hc]
        simp [hback, hne, modifyBinding_merged h hsome]
  · have hnone : ∀ o ∈ c :: d :: e :: more, x.mergeTarget? o = none := fun o ho => by
      rw [mergeTarget?, htarget o ho]
    have hfilter : (c :: d :: e :: more).filter
        (fun o => o ≠ b ∧ ¬(o ∈ done ∧ x.mergeTarget? o = some b)) =
        (c :: d :: e :: more).filter (· ≠ b) := by
      refine List.filter_congr fun o ho => ?_
      simp [hnone o ho]
    have hlength := two_le_length_filter_ne hsorted b
    rw [hfilter]
    split
    · next hone =>
      rw [hone] at hlength
      simp at hlength
    · exact (merged_of_target_eq_none hx (hnone b hmem)).symm

/-- **Merging in closed form.** After merging, a binding that was not merged before points to its
target, and nothing else has changed.

**Proof sketch.** By induction on the loose bindings that have been merged, in order. A binding that
is not loose has no target. -/
theorem mergeLoose_eq (h : x.Tied) (hx : x.Unmerged) : x.mergeLoose = x.merged x.looseBindings := by
  have hrun : ∀ rest done, x.looseBindings = done ++ rest →
      rest.foldl mergeBinding (x.merged done) = x.merged x.looseBindings := by
    intro rest
    induction rest with
    | nil =>
      intro done hdone
      rw [hdone, List.append_nil, List.foldl_nil]
    | cons b rest ih =>
      intro done hdone
      have hb : x.isLoose b = true := h.mem_looseBindings.1 (by rw [hdone]; simp)
      -- the loose bindings in front of this one have been merged
      have hbefore : ∀ o, x.isLoose o = true → o.index < b.index → o ∈ done := by
        intro o ho hlt
        have hsorted : x.looseBindings.Pairwise (·.index < ·.index) :=
          h.liveBindings_pairwise.filter _
        rw [hdone, List.pairwise_append, List.pairwise_cons] at hsorted
        rw [← h.mem_looseBindings, hdone, List.mem_append, List.mem_cons] at ho
        rcases ho with ho | rfl | ho
        · exact ho
        · exact absurd hlt (Nat.lt_irrefl _)
        · exact absurd (hsorted.2.1.1 o ho) (Nat.lt_asymm hlt)
      rw [List.foldl_cons, mergeBinding_merged hx h hb hbefore]
      exact ih _ (by rw [hdone, List.append_assoc]; rfl)
  have hstart := hrun x.looseBindings [] rfl
  rwa [merged_nil] at hstart

/-! ## The binding that stands for a mention -/

/-- Merging leaves the mentions as they are. -/
lemma mention_mergeLoose (x : Context) (m : MentionId) :
    x.mergeLoose.mention m = x.mention m := by
  have hmerge : ∀ (y : Context) b, (y.mergeBinding b).mention m = y.mention m := by
    intro y b
    unfold mergeBinding
    split
    · rfl
    · split <;> rfl
  exact List.foldlRecOn (motive := fun y : Context => y.mention m = x.mention m) x.looseBindings _
    rfl fun y hy b _ => (hmerge y b).trans hy

/-- Two bindings are merged, one way or the other: they are the only ones of their player that only
adjectives tell apart, and one of them is loose. -/
def Merges (x : Context) (b c : BindingId) : Prop :=
  (∃ player, x.unmarkedBindings player = [b, c] ∨ x.unmarkedBindings player = [c, b]) ∧
    (x.isLoose b = true ∨ x.isLoose c = true)

/-- Of two bindings that only adjectives tell apart the earlier one goes if it is loose, or else the
later one does. -/
lemma Tied.mergeTarget?_of_pair (h : x.Tied) {player : ObjectTypeId} {c d : BindingId}
    (hG : x.unmarkedBindings player = [c, d]) :
    x.mergeTarget? c = (if x.isLoose c then some d else none) ∧
      x.mergeTarget? d = if x.isLoose d ∧ ¬x.isLoose c then some c else none := by
  have hsorted := h.unmarkedBindings_pairwise player
  have hgroup : ∀ o ∈ x.unmarkedBindings player, (x.binding? o).map
      (fun O => x.unmarkedBindings O.player) = some [c, d] := by
    intro o ho
    obtain ⟨O, hO, -, hplayer⟩ := h.mem_unmarkedBindings.1 ho
    rw [hO, Option.map_some, hplayer, hG]
  rw [hG] at hsorted hgroup
  have hcd : c.index < d.index := by simpa using hsorted
  have hne : d ≠ c := fun heq => absurd hcd (by rw [heq]; exact Nat.lt_irrefl _)
  have hc := hgroup c List.mem_cons_self
  have hd := hgroup d (List.mem_cons_of_mem _ List.mem_cons_self)
  constructor
  · by_cases hloose : x.isLoose c = true <;> simp [mergeTarget?, hc, hloose, hne.symm]
  · simp [mergeTarget?, hd, hne]

/-- What has a target is loose, and one of two bindings that only adjectives tell apart. -/
lemma merges_of_mergeTarget? {b c : BindingId} (hbc : x.mergeTarget? b = some c) :
    x.isLoose b = true ∧ x.Merges b c := by
  unfold mergeTarget? at hbc
  split at hbc
  · next hgroup =>
    obtain ⟨B, -, hB⟩ := Option.map_eq_some_iff.1 hgroup
    split at hbc
    · next hfirst =>
      cases hbc
      obtain ⟨rfl, hloose⟩ := hfirst
      exact ⟨hloose, ⟨B.player, .inl hB⟩, .inl hloose⟩
    · split at hbc
      · next hsecond =>
        cases hbc
        obtain ⟨rfl, hloose, -⟩ := hsecond
        exact ⟨hloose, ⟨B.player, .inr hB⟩, .inl hloose⟩
      · cases hbc
  · cases hbc

/-- A target has no target itself. -/
lemma Tied.mergeTarget?_target (h : x.Tied) {b c : BindingId} (hbc : x.mergeTarget? b = some c) :
    x.mergeTarget? c = none := by
  obtain ⟨hloose, ⟨player, hG | hG⟩, -⟩ := merges_of_mergeTarget? hbc
  · rw [(h.mergeTarget?_of_pair hG).2, if_neg fun hc => hc.2 hloose]
  · obtain ⟨hc, hb⟩ := h.mergeTarget?_of_pair hG
    have hloose' : ¬x.isLoose c = true := by
      intro hc'
      rw [hbc, if_neg fun hb' => hb'.2 hc'] at hb
      cases hb
    rw [hc, if_neg hloose']

/-- Two bindings are merged one way or the other. -/
lemma Merges.symm {b c : BindingId} (h : x.Merges b c) : x.Merges c b := by
  obtain ⟨⟨player, hG⟩, hloose⟩ := h
  exact ⟨⟨player, hG.symm⟩, hloose.symm⟩

/-- Bindings end in one place just in case they are one or are merged.

**Proof sketch.** A target is one of two bindings of a player, and so is what has it. Two bindings
with one target are therefore the same. -/
lemma Tied.getD_mergeTarget?_eq_iff (h : x.Tied) {b c : BindingId} :
    (x.mergeTarget? b).getD b = (x.mergeTarget? c).getD c ↔ b = c ∨ x.Merges b c := by
  constructor
  · intro heq
    cases hb : x.mergeTarget? b with
    | none =>
      cases hc : x.mergeTarget? c with
      | none =>
        rw [hb, hc] at heq
        exact .inl heq
      | some d =>
        rw [hb, hc] at heq
        obtain rfl : b = d := heq
        exact .inr (merges_of_mergeTarget? hc).2.symm
    | some d =>
      cases hc : x.mergeTarget? c with
      | none =>
        rw [hb, hc] at heq
        obtain rfl : d = c := heq
        exact .inr (merges_of_mergeTarget? hb).2
      | some e =>
        rw [hb, hc] at heq
        obtain rfl : d = e := heq
        obtain ⟨-, ⟨player, hG⟩, -⟩ := merges_of_mergeTarget? hb
        obtain ⟨-, ⟨other, hH⟩, -⟩ := merges_of_mergeTarget? hc
        have hd : d ∈ x.unmarkedBindings player := by rcases hG with hG | hG <;> simp [hG]
        have hd' : d ∈ x.unmarkedBindings other := by rcases hH with hH | hH <;> simp [hH]
        obtain rfl := h.player_eq_of_mem hd hd'
        left
        rcases hG with hG | hG <;> rcases hH with hH | hH <;> rw [hG] at hH <;> simp_all
  · rintro (rfl | ⟨⟨player, hG | hG⟩, hloose⟩)
    · rfl
    · obtain ⟨hb, hc⟩ := h.mergeTarget?_of_pair hG
      by_cases hb' : x.isLoose b = true
      · simp [hb, hc, hb']
      · simp [hb, hc, hb', hloose.resolve_left hb']
    · obtain ⟨hc, hb⟩ := h.mergeTarget?_of_pair hG
      by_cases hc' : x.isLoose c = true
      · simp [hb, hc, hc']
      · simp [hb, hc, hc', hloose.resolve_right hc']

/-- After merging, a binding points to its target. -/
lemma reboundTo_mergeLoose (h : x.Tied) (hx : x.Unmerged) (b : BindingId) :
    (x.mergeLoose.binding? b).bind (·.reboundTo) = x.mergeTarget? b := by
  rw [mergeLoose_eq h hx, binding?_merged]
  rcases hB : x.binding? b with _ | B
  · simp [mergeTarget?, hB]
  rw [Option.map_some, Option.bind_some, h.binding_id hB]
  dsimp only
  split
  · rfl
  · next hloose =>
    rw [hx b B hB]
    cases hb : x.mergeTarget? b with
    | none => rfl
    | some c => exact absurd (h.mem_looseBindings.2 (merges_of_mergeTarget? hb).1) hloose

/-- A merge is followed by no other: of a binding that is there at most one step is taken. -/
lemma followMerges_mergeLoose (h : x.Tied) (hx : x.Unmerged) {b : BindingId}
    (hb : (x.binding? b).isSome) :
    x.mergeLoose.followMerges x.mergeLoose.bindings.size b = (x.mergeTarget? b).getD b := by
  have hsize : x.mergeLoose.bindings.size = x.bindings.size := by
    rw [mergeLoose_eq h hx, merged, Array.size_map]
  have hlt : b.index < x.bindings.size := by
    refine Decidable.of_not_not fun hlt => ?_
    rw [binding?, Array.getElem?_eq_none (Nat.le_of_not_lt hlt)] at hb
    cases hb
  have hone : ∀ steps c, x.mergeTarget? c = none → x.mergeLoose.followMerges steps c = c := by
    intro steps c hc
    cases steps with
    | zero => rfl
    | succ steps => rw [followMerges, reboundTo_mergeLoose h hx, hc]
  obtain ⟨steps, hsteps⟩ : ∃ steps, x.bindings.size = steps + 1 := ⟨x.bindings.size - 1, by omega⟩
  rw [hsize, hsteps, followMerges, reboundTo_mergeLoose h hx]
  cases htarget : x.mergeTarget? b with
  | none => rfl
  | some c => exact hone steps c (h.mergeTarget?_target htarget)

/-- After merging, the binding that stands for a mention is the target of its own, if that has
one. -/
lemma effectiveBinding?_mergeLoose (h : x.Tied) (hx : x.Unmerged) (m : MentionId) :
    x.mergeLoose.effectiveBinding? m =
      (x.mention m).binding.map fun b => (x.mergeTarget? b).getD b := by
  rw [effectiveBinding?, mention_mergeLoose]
  cases hm : (x.mention m).binding with
  | none => rfl
  | some b =>
    obtain ⟨B, hB, -⟩ := (h.binding_iff m b).1 hm
    exact congrArg some (followMerges_mergeLoose h hx (hB ▸ rfl))

/-- The binding that stands for a mention after merging is there. -/
lemma isSome_effectiveBinding?_mergeLoose (h : x.Tied) (hx : x.Unmerged) (m : MentionId) :
    ∀ b ∈ x.mergeLoose.effectiveBinding? m, (x.mergeLoose.binding? b).isSome := by
  intro b hb
  rw [effectiveBinding?_mergeLoose h hx] at hb
  obtain ⟨c, hc, rfl⟩ := Option.map_eq_some_iff.1 hb
  rw [mergeLoose_eq h hx, binding?_merged, Option.isSome_map]
  cases htarget : x.mergeTarget? c with
  | none =>
    obtain ⟨C, hC, -⟩ := (h.binding_iff m c).1 hc
    exact hC ▸ rfl
  | some d =>
    obtain ⟨-, ⟨player, hG⟩, -⟩ := merges_of_mergeTarget? htarget
    have hmem : d ∈ x.unmarkedBindings player := by rcases hG with hG | hG <;> simp [hG]
    obtain ⟨D, hD, -⟩ := h.mem_unmarkedBindings.1 hmem
    exact hD ▸ rfl

/-- The bindings of two mentions are merged. -/
def MergesMentions (x : Context) (m n : MentionId) : Prop :=
  ∃ b ∈ (x.mention m).binding, ∃ c ∈ (x.mention n).binding, x.Merges b c

/-- **Who stands for one individual.** After merging, one binding stands for two bound mentions just
in case their keys are equal or their bindings are merged. -/
theorem effectiveBinding?_mergeLoose_eq_iff (h : x.Tied) (hx : x.Unmerged) {m n : MentionId}
    (hm : (x.mention m).binding.isSome) (hn : (x.mention n).binding.isSome) :
    x.mergeLoose.effectiveBinding? m = x.mergeLoose.effectiveBinding? n ↔
      x.bindingKey m = x.bindingKey n ∨ x.MergesMentions m n := by
  rw [effectiveBinding?_mergeLoose h hx, effectiveBinding?_mergeLoose h hx,
    ← h.binding_eq_iff hm hn, MergesMentions]
  obtain ⟨b, hb⟩ := Option.isSome_iff_exists.1 hm
  obtain ⟨c, hc⟩ := Option.isSome_iff_exists.1 hn
  simp only [hb, hc, Option.map_some, Option.some.injEq, Option.mem_some_iff, exists_eq_left',
    h.getD_mergeTarget?_eq_iff]

end FactModel.Context
