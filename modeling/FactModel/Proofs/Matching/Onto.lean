import FactModel.Proofs.Context.Replay
import FactModel.Proofs.Matching.Candidates
set_option autoImplicit false

/-!
# Matching over another vocabulary

What a ranking looks up of a vocabulary are the types with their inheritance, and the fact types,
roles and readings that are reached from them. Over any vocabulary in which these are the same a
clause has the same ranking.

## Main definitions

* `FactModel.Vocabulary.MatchesAs` — whatever rankings look up is the same in both vocabularies.

## Main results

* `FactModel.Context.rank_onto` — a clause has the same ranking over such a vocabulary.
-/

namespace FactModel

/-- Whatever rankings look up is in the second vocabulary as it is in the first one. -/
structure Vocabulary.MatchesAs (v w : Vocabulary) : Prop where
  acceptable_eq : w.acceptable = v.acceptable
  commonSupertype?_eq : w.commonSupertype? = v.commonSupertype?
  isSubtypeOf_eq : w.isSubtypeOf = v.isSubtypeOf
  filter_factTypesOf : ∀ exact players types,
    (w.factTypesOf types).filter (w.isEligible exact players) =
      (v.factTypesOf types).filter (v.isEligible exact players)
  factType_eq : ∀ f ∈ v.factTypeIds, w.factType f = v.factType f
  playerOf_eq : ∀ r ∈ v.roleIds, w.playerOf r = v.playerOf r
  ordinal_eq : ∀ r ∈ v.roleIds, (w.role r).ordinal = (v.role r).ordinal
  reading_eq : ∀ r ∈ v.readingIds, w.reading r = v.reading r
  readingRefs_eq : ∀ r ∈ v.readingIds, w.readingRefs r = v.readingRefs r

namespace Context

variable {x : Context} {w : Vocabulary} (h : x.vocabulary.MatchesAs w)

include h

/-- The walk finds the same player for a mention over the other vocabulary. -/
lemma walkPlayer_onto (options : MatchOptions) (s : Slot) (rolePlayer : ObjectTypeId) :
    (x.onto w).walkPlayer options s rolePlayer = x.walkPlayer options s rolePlayer := by
  unfold walkPlayer onto
  rw [h.commonSupertype?_eq]
  rfl

/-- Walking along a clause looks up the players of roles that were there. -/
lemma walkTokens_onto (options : MatchOptions) {refs : List RoleRef}
    (hrefs : ∀ ref ∈ refs, w.playerOf ref.role = x.vocabulary.playerOf ref.role)
    (tokens : List Template.Token) (mayNegate : Bool) (place : ClausePlace) :
    (x.onto w).walkTokens options refs tokens mayNegate place =
      x.walkTokens options refs tokens mayNegate place := by
  induction tokens generalizing mayNegate place with
  | nil => rfl
  | cons token tokens ih =>
    cases token with
    | word expected =>
      rw [walkTokens, walkTokens]
      simp only [ih]
    | place ordinal =>
      have hrole : ∀ ref, refs[ordinal]? = some ref → ∀ position intervening s rest,
          (x.onto w).walkRole options ref ordinal position intervening s rest =
            x.walkRole options ref ordinal position intervening s rest := by
        intro ref href position intervening s rest
        unfold walkRole
        rw [walkPlayer_onto h]
        change (x.walkPlayer options s (w.playerOf ref.role) >>= _) = _
        rw [hrefs ref (List.mem_of_getElem? href)]
        rfl
      rw [walkTokens, walkTokens]
      split
      · next ref intervening s rest href _ =>
        simp only [hrole ref href, ih]
      · rfl

/-- A placement takes the same steps between types over the other vocabulary. -/
lemma stepsAlong_onto (p : Placement) (hp : p.role ∈ x.vocabulary.roleIds) :
    (x.onto w).stepsAlong p = x.stepsAlong p := by
  unfold stepsAlong onto
  dsimp only
  rw [h.playerOf_eq _ hp, h.ordinal_eq _ hp, h.isSubtypeOf_eq]
  rfl

/-- The steps of placements are allowed or not as over the other vocabulary. -/
lemma checkSubtypeSteps_onto {f : FactTypeId} (hf : f ∈ x.vocabulary.factTypeIds)
    {placements : List Placement} (hp : ∀ p ∈ placements, p.role ∈ x.vocabulary.roleIds) :
    (x.onto w).checkSubtypeSteps f placements = x.checkSubtypeSteps f placements := by
  have hvocabulary : (x.onto w).vocabulary = w := rfl
  have hsteps : (placements.filter (·.commonSupertype.isSome)).all (x.onto w).stepsAlong =
      (placements.filter (·.commonSupertype.isSome)).all x.stepsAlong := by
    rw [Bool.eq_iff_iff, List.all_eq_true, List.all_eq_true]
    refine forall₂_congr fun p hmem => ?_
    rw [stepsAlong_onto h p (hp p (List.mem_of_mem_filter hmem))]
  unfold checkSubtypeSteps
  rw [hvocabulary, h.factType_eq f hf]
  simp only [hsteps]

/-- The candidates for slots are the same over the other vocabulary. -/
lemma candidates_onto (options : MatchOptions) (slots : List Slot) :
    (x.onto w).candidates options slots = x.candidates options slots := by
  have hvocabulary : (x.onto w).vocabulary = w := rfl
  have hmention : ∀ m, (x.onto w).mention m = x.mention m := fun _ => rfl
  unfold candidates
  simp only [hvocabulary, hmention, h.filter_factTypesOf, h.acceptable_eq]

/-- The readings that are tried for a clause are the same over the other vocabulary. -/
lemma triedReadings_onto (hx : x.vocabulary.WellFormed) (options : MatchOptions) (c : Clause) :
    (x.onto w).triedReadings options c = x.triedReadings options c := by
  unfold triedReadings
  rw [candidates_onto h]
  split
  · rfl
  refine List.flatMap_congr fun f hf => ?_
  obtain ⟨_, _, _, _, -, -, -, ⟨r, hr, -⟩, -⟩ := (mem_candidates_iff hx).1 hf
  obtain ⟨hmem, rfl⟩ := hx.mem_roles.1 hr
  exact congrArg FactType.readings (h.factType_eq _ (hx.role_factType_mem hmem))

/-- A reading matches a clause, or fails to, as before. -/
lemma align_onto (hx : x.vocabulary.WellFormed) (options : MatchOptions) (c : Clause)
    {r : ReadingId} (hr : r ∈ x.vocabulary.readingIds) :
    (x.onto w).align options c r = x.align options c r := by
  have hvocabulary : (x.onto w).vocabulary = w := rfl
  have hroles : ∀ ref ∈ x.vocabulary.readingRefs r, ref.role ∈ x.vocabulary.roleIds :=
    fun ref href => (hx.mem_roles.1 (hx.ref_mem_roles hr href)).1
  have hwalk := walkTokens_onto h options fun ref href => h.playerOf_eq _ (hroles ref href)
  have hcheck : ∀ {tokens mayNegate place placements negation},
      x.walkTokens options (x.vocabulary.readingRefs r) tokens mayNegate place =
        .ok (placements, negation) →
      (x.onto w).checkSubtypeSteps (x.vocabulary.reading r).factType placements =
        x.checkSubtypeSteps (x.vocabulary.reading r).factType placements := by
    intro tokens mayNegate place placements negation hok
    have hwalks := walkTokens_eq_ok_iff.1 hok
    refine checkSubtypeSteps_onto h (hx.reading_factType_mem hr) fun p hp => ?_
    obtain ⟨ref, href, hrole⟩ := hwalks.role_eq hp
    exact hrole ▸ hroles ref (List.mem_of_getElem? href)
  unfold align
  rw [hvocabulary, h.reading_eq r hr, h.readingRefs_eq r hr]
  simp only [hwalk]
  split
  · rfl
  · cases hok : x.walkTokens options (x.vocabulary.readingRefs r) (x.vocabulary.reading r).tokens
      (!(x.vocabulary.reading r).isNegative) ⟨0, c.phrases⟩ with
    | error mismatch => rfl
    | ok walk =>
      obtain ⟨placements, negation⟩ := walk
      simp only [bind, Except.bind, hcheck hok]

/-- A clause has the same ranking over a vocabulary in which whatever rankings look up is the
same. -/
theorem rank_onto (hx : x.vocabulary.WellFormed) (options : MatchOptions) (c : Clause) :
    (x.onto w).rank options c = x.rank options c := by
  have hwalks : (x.triedReadings options c).map (fun r => (r, (x.onto w).align options c r)) =
      (x.triedReadings options c).map fun r => (r, x.align options c r) := by
    refine List.map_congr_left fun r hr => ?_
    obtain ⟨-, f, hf⟩ := mem_triedReadings hr
    rw [align_onto h hx options c (hx.mem_readings.1 hf).1]
  unfold rank
  rw [triedReadings_onto h hx, hwalks]

end Context

end FactModel
