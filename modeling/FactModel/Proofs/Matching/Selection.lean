import Mathlib.Order.Bounds.Defs
import FactModel.Proofs.Matching.ExactTypes
set_option autoImplicit false

/-!
# What is selected from a ranking

Sorting by cost brings the cheapest alignments to the front and keeps them in the order in which
they were found. So what is selected can be told without sorting: it is the first alignment of least
cost, provided that all those of least cost agree.

## Main definitions

* `FactModel.Context.invocations` — the alignments of the readings that are tried, in that order.
* `FactModel.Context.Unanimous` — alignments between which a choice does not matter.
* `FactModel.Context.FailsOnSteps` — a reading fails on the steps between types and on nothing else.

## Main results

* `FactModel.Context.cheapest_sortByCost` — the cheapest alignments of a ranking are those of least
  cost.
* `FactModel.Context.exists_isDirectionConflict_iff` — which readings are direction conflicts.
* `FactModel.Context.select_of_isLeast`, `FactModel.Context.select_of_invocations_eq_nil` — what is
  selected.
* `FactModel.Context.invocations_eq_flatMap` — the alignments of one fact type stand together.
-/

namespace FactModel

/-! ## The cheapest alignments -/

/-- Alignments that cost the same stay in their order. -/
lemma sortByCost_of_forall_cost_eq {k : Nat} {as : List Alignment} (h : ∀ a ∈ as, a.cost = k) :
    sortByCost as = as := by
  induction as with
  | nil => rfl
  | cons a as ih =>
    show insertByCost a (sortByCost as) = a :: as
    rw [ih fun b hb => h b (List.mem_cons_of_mem a hb)]
    apply insertByCost_of_forall_le
    intro b hb
    rw [h a List.mem_cons_self, h b (List.mem_cons_of_mem a hb)]

namespace Context

/-- Where the costs increase, those that cost no more than the first come before the others. -/
lemma cheapest_of_pairwise {a : Alignment} {as : List Alignment}
    (h : (a :: as).Pairwise fun b d => b.cost ≤ d.cost) :
    cheapest (a :: as) = (a :: as).filter (·.cost == a.cost) := by
  rw [List.filter_cons_of_pos (by simp), cheapest]
  congr 1
  obtain ⟨hle, hsorted⟩ := List.pairwise_cons.1 h
  clear h
  induction as with
  | nil => rfl
  | cons b as ih =>
    obtain ⟨hb, has⟩ := List.pairwise_cons.1 hsorted
    by_cases heq : b.cost = a.cost
    · rw [List.takeWhile_cons_of_pos (by simp [heq]), List.filter_cons_of_pos (by simp [heq]),
        ih (fun d hd => hle d (List.mem_cons_of_mem b hd)) has]
    · rw [List.takeWhile_cons_of_neg (by simp [heq])]
      apply Eq.symm
      rw [List.filter_eq_nil_iff]
      intro d hd
      have hlt := hle b List.mem_cons_self
      have hbd : b.cost ≤ d.cost := by
        rcases List.mem_cons.1 hd with rfl | hd
        · exact Nat.le_refl _
        · exact hb d hd
      simp only [beq_iff_eq]
      omega

/-- **Sorting is stable.** The cheapest alignments of a ranking are those of least cost, in the
order in which they were before it was sorted. -/
theorem cheapest_sortByCost {k : Nat} {as : List Alignment}
    (hk : IsLeast {n | ∃ a ∈ as, a.cost = n} k) :
    cheapest (sortByCost as) = as.filter (·.cost == k) := by
  obtain ⟨⟨a, ha, hcost⟩, hle⟩ := hk
  have hleast : ∀ b ∈ as, k ≤ b.cost := fun b hb => hle ⟨b, hb, rfl⟩
  have hperm := perm_sortByCost as
  cases hsorted : sortByCost as with
  | nil =>
    rw [hsorted] at hperm
    exact absurd (hperm.symm.subset ha) List.not_mem_nil
  | cons best others =>
    have hpairwise := pairwise_sortByCost as
    rw [hsorted] at hpairwise hperm
    have hbest : best.cost = k := by
      have hge := hleast best (hperm.subset List.mem_cons_self)
      rcases List.mem_cons.1 (hperm.symm.subset ha) with rfl | hmem
      · exact hcost
      · have := (List.pairwise_cons.1 hpairwise).1 a hmem
        omega
    rw [cheapest_of_pairwise hpairwise, ← hsorted, hbest, ← sortByCost_filter]
    apply sortByCost_of_forall_cost_eq (k := k)
    intro b hb
    simpa using (List.mem_filter.1 hb).2

/-! ## Selection -/

variable {x : Context} {options : MatchOptions} {c : Clause}

/-- The ways in which a clause invokes the readings that are tried for it, in the order in which
these are tried. -/
def invocations (x : Context) (options : MatchOptions) (c : Clause) : List Alignment :=
  (x.triedReadings options c).filterMap fun r => (x.align options c r).toOption

/-- A choice between alignments does not matter: all invoke one fact type, or each of them says that
one type is a kind of another. -/
def Unanimous (x : Context) (as : List Alignment) : Prop :=
  (∃ f, ∀ a ∈ as, a.factType = f) ∨
    ∀ a ∈ as, (x.vocabulary.factType a.factType).isTypeInheritance

/-- The alignments of least cost agree exactly where a choice between them does not matter. -/
lemma agree_iff_unanimous {as : List Alignment} : x.agree as ↔ x.Unanimous as := by
  unfold agree Unanimous
  rw [Bool.or_eq_true, List.all_eq_true, List.all_eq_true]
  apply or_congr_left
  constructor
  · intro h
    cases as with
    | nil => exact ⟨default, fun _ ha => absurd ha List.not_mem_nil⟩
    | cons b as =>
      exact ⟨b.factType, fun a ha =>
        of_decide_eq_true (List.all_eq_true.1 (h a ha) b List.mem_cons_self)⟩
  · rintro ⟨f, hf⟩ a ha
    rw [List.all_eq_true]
    intro b hb
    rw [decide_eq_true_eq, hf a ha, hf b hb]

/-- A ranking lists the ways to invoke readings by their cost. -/
lemma rank_alignments_eq (x : Context) (options : MatchOptions) (c : Clause) :
    (x.rank options c).alignments = sortByCost (x.invocations options c) := by
  simp only [rank, invocations, List.filterMap_map]
  rfl

/-- **The cheapest invocation is selected.** If alignments are of least cost, the first of them is
selected, unless it matters which one; then all of them are reported. -/
theorem select_of_isLeast {k : Nat}
    (hk : IsLeast {n | ∃ a ∈ x.invocations options c, a.cost = n} k) :
    (x.Unanimous ((x.invocations options c).filter (·.cost == k)) →
      x.select c (x.rank options c) = .ok ((x.invocations options c).filter (·.cost == k)).head?) ∧
    (¬x.Unanimous ((x.invocations options c).filter (·.cost == k)) →
      x.select c (x.rank options c) = .error (.ambiguousMatch (x.describeClause c)
        (((x.invocations options c).filter (·.cost == k)).map fun a =>
          (x.vocabulary.expandReading a.reading, a.cost)))) := by
  have hcheapest := cheapest_sortByCost hk
  rw [← rank_alignments_eq] at hcheapest
  unfold select
  cases halignments : (x.rank options c).alignments with
  | nil =>
    obtain ⟨⟨a, ha, -⟩, -⟩ := hk
    have hmem := (perm_rank x options c).symm.subset ha
    rw [halignments] at hmem
    exact absurd hmem List.not_mem_nil
  | cons best others =>
    rw [halignments] at hcheapest
    dsimp only
    rw [hcheapest]
    constructor
    · intro h
      rw [if_pos (agree_iff_unanimous.2 h), ← hcheapest]
      rfl
    · intro h
      rw [if_neg fun hagree => h (agree_iff_unanimous.1 hagree)]

/-! ## Readings that fail on steps between types only -/

/-- A reading of a fact type about kinds can be laid along a clause, but only with more than one
step between types or with one against the inheritance. -/
structure FailsOnSteps (x : Context) (options : MatchOptions) (c : Clause) (r : ReadingId) :
    Prop where
  certainty : (x.vocabulary.reading r).isNegative → c.certainty = .negated
  isTypeInheritance :
    (x.vocabulary.factType (x.vocabulary.reading r).factType).isTypeInheritance
  walks : ∃ placements negation,
    Walks x options (x.vocabulary.readingRefs r) (x.vocabulary.reading r).tokens
      (!(x.vocabulary.reading r).isNegative) ⟨0, c.phrases⟩ placements negation ∧
    (1 < (placements.filter (·.commonSupertype.isSome)).length ∨
      ∃ p ∈ placements, p.commonSupertype.isSome ∧ ¬x.stepsAlong p)

/-- A step between types is never what a walk fails on. -/
lemma walkWord_ne_conflict {expected : String} {mayNegate : Bool} {place : ClausePlace}
    {mismatch : Mismatch} (h : walkWord expected mayNegate place = .error mismatch) :
    mismatch.isDirectionConflict = false := by
  unfold walkWord at h
  repeat' split at h
  all_goals cases h <;> rfl

/-- The walk along a role does not fail for a conflict of directions. -/
lemma walkRole_ne_conflict {ref : RoleRef} {ordinal position : Nat} {intervening : List String}
    {s : Slot} {rest : List Phrase} {mismatch : Mismatch}
    (h : x.walkRole options ref ordinal position intervening s rest = .error mismatch) :
    mismatch.isDirectionConflict = false := by
  unfold walkRole at h
  dsimp only [bind, Except.bind] at h
  split at h
  · next hplayer =>
    cases h
    unfold walkPlayer at hplayer
    repeat' split at hplayer
    all_goals cases hplayer <;> rfl
  split at h
  · next hleading =>
    cases h
    unfold walkLeading at hleading
    dsimp only at hleading
    repeat' split at hleading
    all_goals cases hleading <;> rfl
  split at h
  · next htrailing =>
    cases h
    unfold walkTrailing at htrailing
    dsimp only at htrailing
    repeat' split at htrailing
    all_goals cases htrailing <;> rfl
  split at h
  · cases h
    rfl
  · cases h

/-- The walk along the tokens of a reading does not fail for a conflict of directions. -/
lemma walkTokens_ne_conflict {refs : List RoleRef} {tokens : List Template.Token}
    {mayNegate : Bool} {place : ClausePlace} {mismatch : Mismatch}
    (h : x.walkTokens options refs tokens mayNegate place = .error mismatch) :
    mismatch.isDirectionConflict = false := by
  induction tokens generalizing mayNegate place with
  | nil =>
    rw [walkTokens] at h
    split at h
    · cases h
    · cases h
      rfl
  | cons token tokens ih =>
    cases token with
    | word expected =>
      rw [walkTokens] at h
      dsimp only [bind, Except.bind] at h
      split at h
      · next hword =>
        cases h
        exact walkWord_ne_conflict hword
      split at h
      · next hrest =>
        cases h
        exact ih hrest
      · cases h
    | place ordinal =>
      rw [walkTokens] at h
      split at h
      · dsimp only [bind, Except.bind] at h
        split at h
        · next hrole =>
          cases h
          exact walkRole_ne_conflict hrole
        split at h
        · next hrest =>
          cases h
          exact ih hrest
        · cases h
      · cases h
        rfl

/-- Which placements the check of the steps between types refuses. -/
lemma checkSubtypeSteps_eq_error_iff {f : FactTypeId} {placements : List Placement} :
    (∃ mismatch, x.checkSubtypeSteps f placements = .error mismatch ∧
        mismatch.isDirectionConflict) ↔
      (x.vocabulary.factType f).isTypeInheritance ∧
        (1 < (placements.filter (·.commonSupertype.isSome)).length ∨
          ∃ p ∈ placements, p.commonSupertype.isSome ∧ ¬x.stepsAlong p) := by
  have hall : ((placements.filter (·.commonSupertype.isSome)).all x.stepsAlong = true) ↔
      ¬∃ p ∈ placements, p.commonSupertype.isSome ∧ ¬x.stepsAlong p := by
    simp only [List.all_eq_true, List.mem_filter]
    grind
  unfold checkSubtypeSteps
  dsimp only
  split
  · next hkind => simp_all
  · next hkind =>
    have hkind : (x.vocabulary.factType f).isTypeInheritance = true := by simpa using hkind
    split
    · next hmany => simp [hkind, hmany, Mismatch.isDirectionConflict]
    · next hone =>
      split
      · next halong => simp only [hkind, hone, hall.1 halong]; simp
      · next halong =>
        have hagainst := not_not.1 (mt hall.2 halong)
        exact ⟨fun _ => ⟨hkind, .inr hagainst⟩, fun _ => ⟨_, rfl, rfl⟩⟩

/-- A reading is a direction conflict just in case it fails on the steps between types and on
nothing else. -/
theorem exists_isDirectionConflict_iff {r : ReadingId} :
    (∃ mismatch, x.align options c r = .error mismatch ∧ mismatch.isDirectionConflict) ↔
      x.FailsOnSteps options c r := by
  unfold align
  dsimp only
  split
  · next hrefused =>
    constructor
    · rintro ⟨_, ⟨⟩, hconflict⟩
      cases hconflict
    · intro h
      exact absurd (h.certainty hrefused.1) hrefused.2
  next hallowed =>
  have hcertainty : (x.vocabulary.reading r).isNegative → c.certainty = .negated :=
    fun h => Decidable.of_not_not fun h' => hallowed ⟨h, h'⟩
  dsimp only [bind, Except.bind]
  split
  · next mismatch hwalk =>
    constructor
    · rintro ⟨_, ⟨⟩, hconflict⟩
      rw [walkTokens_ne_conflict hwalk] at hconflict
      cases hconflict
    · rintro ⟨-, -, placements, negation, hwalks, -⟩
      rw [walkTokens_eq_ok_iff.2 hwalks] at hwalk
      cases hwalk
  next walked hwalk =>
  obtain ⟨placements, negation⟩ := walked
  dsimp only
  have hwalks := walkTokens_eq_ok_iff.1 hwalk
  constructor
  · rintro ⟨mismatch, h, hconflict⟩
    split at h
    · next mismatch' hsteps =>
      cases h
      obtain ⟨hkind, hfails⟩ := checkSubtypeSteps_eq_error_iff.1 ⟨mismatch, hsteps, hconflict⟩
      exact ⟨hcertainty, hkind, placements, negation, hwalks, hfails⟩
    · cases h
  · rintro ⟨-, hkind, placements', negation', hwalks', hfails⟩
    obtain ⟨rfl, rfl⟩ : placements = placements' ∧ negation = negation' := by
      have := hwalk.symm.trans (walkTokens_eq_ok_iff.2 hwalks')
      simpa using this
    obtain ⟨mismatch, hsteps, hconflict⟩ := checkSubtypeSteps_eq_error_iff.2 ⟨hkind, hfails⟩
    refine ⟨mismatch, ?_, hconflict⟩
    rw [hsteps]

/-- The direction conflicts of a ranking are the readings that fail on steps only, in the order in
which they are tried. -/
lemma mem_directionConflicts {r : ReadingId} : r ∈ (x.rank options c).directionConflicts ↔
    r ∈ x.triedReadings options c ∧ x.FailsOnSteps options c r := by
  rw [← exists_isDirectionConflict_iff]
  simp only [rank, List.mem_map, List.mem_filter]
  constructor
  · rintro ⟨_, ⟨⟨q, hq, rfl⟩, hconflict⟩, rfl⟩
    refine ⟨hq, ?_⟩
    dsimp only at hconflict ⊢
    split at hconflict
    · cases hconflict
    · next mismatch hwalk => exact ⟨mismatch, hwalk, hconflict⟩
  · rintro ⟨hr, mismatch, hwalk, hconflict⟩
    refine ⟨(r, x.align options c r), ⟨⟨r, hr, rfl⟩, ?_⟩, rfl⟩
    rw [hwalk]
    exact hconflict

/-- **Nothing is selected from nothing.** If no reading that is tried matches, a step between types
is pointed out where it alone is in the way of a reading; otherwise nothing is selected. -/
theorem select_of_invocations_eq_nil (hnil : x.invocations options c = []) :
    ((∃ r ∈ x.triedReadings options c, x.FailsOnSteps options c r) →
      ∃ r ∈ x.triedReadings options c, x.FailsOnSteps options c r ∧
        x.select c (x.rank options c) = .error (.subtypeStepDirection (x.describeClause c)
          (x.vocabulary.describeFactType (x.vocabulary.reading r).factType))) ∧
    ((¬∃ r ∈ x.triedReadings options c, x.FailsOnSteps options c r) →
      x.select c (x.rank options c) = .ok none) := by
  have halignments : (x.rank options c).alignments = [] := by
    rw [rank_alignments_eq, hnil]
    rfl
  unfold select
  rw [halignments]
  cases hconflicts : (x.rank options c).directionConflicts with
  | nil =>
    refine ⟨?_, fun _ => rfl⟩
    rintro ⟨r, hr, hfails⟩
    have hmem := mem_directionConflicts.2 ⟨hr, hfails⟩
    rw [hconflicts] at hmem
    exact absurd hmem List.not_mem_nil
  | cons r rs =>
    have hmem : r ∈ (x.rank options c).directionConflicts := by
      rw [hconflicts]
      exact List.mem_cons_self
    obtain ⟨hr, hfails⟩ := mem_directionConflicts.1 hmem
    exact ⟨fun _ => ⟨r, hr, hfails, rfl⟩, fun h => absurd ⟨r, hr, hfails⟩ h⟩

/-! ## Alignments by fact type -/

/-- The ways in which a clause invokes the readings of one fact type, in the order of the
readings. -/
def invocationsOf (x : Context) (options : MatchOptions) (c : Clause) (f : FactTypeId) :
    List Alignment :=
  (x.vocabulary.factType f).readings.filterMap fun r => (x.align options c r).toOption

/-- The alignments of one fact type stand together, and the fact types are in the order in which
they are tried, each once. -/
theorem invocations_eq_flatMap (hv : x.vocabulary.WellFormed) (hcomparison : c.comparison? = none) :
    (x.candidates options c.slots).Nodup ∧
      x.invocations options c =
        (x.candidates options c.slots).flatMap (x.invocationsOf options c) ∧
      ∀ f, ∀ a ∈ x.invocationsOf options c f, a.factType = f := by
  refine ⟨?_, ?_, fun f a ha => ?_⟩
  · unfold candidates
    split
    · exact (nodup_eraseDups _).filter _
    · exact List.nodup_nil
  · rw [invocations, triedReadings, hcomparison, Option.isSome_none, if_neg Bool.false_ne_true,
      List.filterMap_flatMap]
    rfl
  · obtain ⟨r, hr, hwalk⟩ := List.mem_filterMap.1 ha
    rw [(align_eq_ok_iff.1 (toOption_align_eq_some.1 hwalk)).2.2.2.1]
    exact (hv.mem_readings.1 hr).2

end Context

end FactModel
