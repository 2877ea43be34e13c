import Mathlib.Data.List.TakeWhile
import FactModel.Matching.Ranking
import FactModel.Proofs.Matching.Walk
set_option autoImplicit false

/-!
# Rankings

A ranking holds the alignments of the readings that are tried, in the order of their costs, and
what is selected is one of them.

## Main results

* `FactModel.Context.perm_rank` — a ranking is a rearrangement of the alignments of all readings
  that are tried.
* `FactModel.Context.mem_of_select` — what is selected is in the ranking.
* `FactModel.Context.select_of_cost_eq_zero` — what costs nothing is selected, unless it is
  ambiguous.
-/

namespace FactModel

/-- Inserting an alignment adds it and nothing else. -/
lemma perm_insertByCost (a : Alignment) (as : List Alignment) :
    (insertByCost a as).Perm (a :: as) := by
  induction as with
  | nil => exact .refl _
  | cons b as ih =>
    rw [insertByCost]
    split
    · exact .refl _
    · exact (ih.cons b).trans (.swap a b as)

/-- Sorting by cost only rearranges. -/
lemma perm_sortByCost (as : List Alignment) : (sortByCost as).Perm as := by
  induction as with
  | nil => exact .refl _
  | cons a as ih => exact (perm_insertByCost a _).trans (ih.cons a)

/-- Inserting an alignment by its cost keeps the order. -/
lemma pairwise_insertByCost (a : Alignment) {as : List Alignment}
    (h : as.Pairwise fun b d => b.cost ≤ d.cost) :
    (insertByCost a as).Pairwise fun b d => b.cost ≤ d.cost := by
  induction as with
  | nil => exact List.pairwise_singleton ..
  | cons b as ih =>
    obtain ⟨hb, has⟩ := List.pairwise_cons.1 h
    rw [insertByCost]
    split
    · next hab =>
      refine List.pairwise_cons.2 ⟨fun d hd => ?_, h⟩
      rcases List.mem_cons.1 hd with rfl | hd
      · exact hab
      · exact Nat.le_trans hab (hb d hd)
    · next hab =>
      refine List.pairwise_cons.2 ⟨fun d hd => ?_, ih has⟩
      rcases List.mem_cons.1 ((perm_insertByCost a as).mem_iff.1 hd) with rfl | hd
      · omega
      · exact hb d hd

/-- Sorting by cost puts no alignment behind one that costs more. -/
lemma pairwise_sortByCost (as : List Alignment) :
    (sortByCost as).Pairwise fun a b => a.cost ≤ b.cost := by
  induction as with
  | nil => exact .nil
  | cons a as ih => exact pairwise_insertByCost a ih

namespace Context

variable {x : Context} {options : MatchOptions} {c : Clause}

/-- A ranking is a rearrangement of the alignments of the readings that are tried. -/
theorem perm_rank (x : Context) (options : MatchOptions) (c : Clause) :
    (x.rank options c).alignments.Perm
      ((x.triedReadings options c).filterMap fun r => (x.align options c r).toOption) := by
  refine (perm_sortByCost _).trans ?_
  rw [List.filterMap_map]
  exact .refl _

/-- A reading has an alignment if the walk succeeds with it. -/
lemma toOption_align_eq_some {r : ReadingId} {a : Alignment} :
    (x.align options c r).toOption = some a ↔ x.align options c r = .ok a := by
  cases x.align options c r <;> simp [Except.toOption]

/-- An alignment says which reading it is of. -/
lemma reading_of_align {r : ReadingId} {a : Alignment} (h : x.align options c r = .ok a) :
    a.reading = r :=
  (align_eq_ok_iff.1 h).2.2.2.2.1

/-- The alignments of a ranking are those of the readings that are tried. -/
lemma mem_rank {a : Alignment} : a ∈ (x.rank options c).alignments ↔
    a.reading ∈ x.triedReadings options c ∧ x.align options c a.reading = .ok a := by
  rw [(perm_rank x options c).mem_iff, List.mem_filterMap]
  simp only [toOption_align_eq_some]
  constructor
  · rintro ⟨r, hr, hwalk⟩
    obtain rfl := reading_of_align hwalk
    exact ⟨hr, hwalk⟩
  · rintro ⟨hr, hwalk⟩
    exact ⟨_, hr, hwalk⟩

/-- What is selected is in the ranking. -/
lemma mem_of_select {ranking : Ranking} {a : Alignment} (h : x.select c ranking = .ok (some a)) :
    a ∈ ranking.alignments := by
  unfold select at h
  split at h
  · cases h
  · cases h
  · next best others hranking =>
    dsimp only at h
    split at h
    · cases h
      rw [hranking]
      exact List.mem_cons_self
    · cases h

/-- Where an alignment costs nothing and all that cost nothing invoke one fact type, such a one is
selected. -/
theorem select_of_cost_eq_zero {f : FactTypeId}
    (hexists : ∃ a ∈ (x.rank options c).alignments, a.cost = 0)
    (hall : ∀ a ∈ (x.rank options c).alignments, a.cost = 0 → a.factType = f) :
    ∃ b, x.select c (x.rank options c) = .ok (some b) ∧ b.factType = f ∧ b.cost = 0 := by
  obtain ⟨a, ha, hcost⟩ := hexists
  have hsorted := pairwise_sortByCost (((x.triedReadings options c).map fun r =>
    (r, x.align options c r)).filterMap fun walk => walk.2.toOption)
  change (x.rank options c).alignments.Pairwise _ at hsorted
  unfold select
  cases hranking : (x.rank options c).alignments with
  | nil =>
    rw [hranking] at ha
    cases ha
  | cons best others =>
    rw [hranking] at ha hall hsorted
    have hbest : best.cost = 0 := by
      rcases List.mem_cons.1 ha with rfl | ha
      · exact hcost
      · have hle := (List.pairwise_cons.1 hsorted).1 a ha
        omega
    have hcheapest : ∀ b ∈ cheapest (best :: others), b.factType = f := by
      intro b hb
      rcases List.mem_cons.1 hb with rfl | hb
      · exact hall b List.mem_cons_self hbest
      · have hcosts := List.mem_takeWhile_imp hb
        refine hall b (List.mem_cons_of_mem best (List.takeWhile_subset _ hb)) ?_
        rw [← hbest]
        exact eq_of_beq hcosts
    have hagree : x.agree (cheapest (best :: others)) := by
      refine Bool.or_eq_true_iff.2 (.inl (List.all_eq_true.2 fun b hb => ?_))
      refine List.all_eq_true.2 fun d hd => decide_eq_true ?_
      rw [hcheapest b hb, hcheapest d hd]
    refine ⟨best, ?_, hall best List.mem_cons_self hbest, hbest⟩
    dsimp only
    rw [if_pos hagree]

/-- A clause for which readings are tried has mentions, and the readings are those of fact
types. -/
lemma mem_triedReadings {r : ReadingId} (h : r ∈ x.triedReadings options c) :
    c.mentions ≠ [] ∧ ∃ f, r ∈ (x.vocabulary.factType f).readings := by
  unfold triedReadings at h
  split at h
  · cases h
  obtain ⟨f, hf, hr⟩ := List.mem_flatMap.1 h
  refine ⟨fun hnil => ?_, f, hr⟩
  rw [Clause.mentions, List.map_eq_nil_iff] at hnil
  rw [hnil] at hf
  cases hf

end Context

end FactModel
