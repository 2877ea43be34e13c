import FactModel.Proofs.Matching.Candidates
import FactModel.Proofs.Matching.Verbatim
set_option autoImplicit false

/-!
# Matching with exact types

Where players stand only for themselves, fewer fact types are tried, and a walk stops at the first
player that is not the one of its role. What remains of a ranking are the alignments that take no
step between types, in the order they had.

## Main results

* `FactModel.sortByCost_filter` — alignments can be left out before or after they are sorted.
* `FactModel.Context.align_exactTypes_eq_ok_iff` — a reading matches with exact types just in case
  it matches without a step between types.
* `FactModel.Context.alignments_exactTypes` — the ranking with exact types is the part of the
  ranking without steps between types.
-/

namespace FactModel

/-- A type is the first of those that count as it. -/
lemma Vocabulary.acceptable_eq_cons (v : Vocabulary) (exact : Bool) (t : ObjectTypeId) :
    ∃ others, v.acceptable exact t = t :: others := by
  unfold acceptable relatedTypes
  obtain ⟨others, hothers⟩ := v.supertypes_eq_cons t
  rw [hothers]
  split
  · exact ⟨[], rfl⟩
  · exact ⟨_, rfl⟩

/-- The fact types of some types are those of the first and others in which it plays no role. -/
lemma Vocabulary.factTypesOf_cons (v : Vocabulary) (t : ObjectTypeId) (types : List ObjectTypeId) :
    ∃ others, v.factTypesOf (t :: types) = v.factTypesOf [t] ++ others ∧
      ∀ f ∈ others, f ∉ v.factTypesOf [t] := by
  unfold factTypesOf
  rw [List.flatMap_cons, List.map_append, List.eraseDups_append, List.flatMap_cons,
    List.flatMap_nil, List.append_nil]
  refine ⟨_, rfl, fun f hf => ?_⟩
  rw [List.mem_eraseDups, List.removeAll, List.mem_filter] at hf
  rw [List.mem_eraseDups]
  simpa using hf.2

/-! ## Parts of lists -/

/-- What yields nothing can be left out, or not, before what is yielded is joined. -/
lemma flatMap_filter_congr {α β : Type} (yields : α → List β) {as : List α} {p q : α → Bool}
    (h : ∀ a ∈ as, ∀ b ∈ yields a, p a = q a) :
    (as.filter p).flatMap yields = (as.filter q).flatMap yields := by
  induction as with
  | nil => rfl
  | cons a as ih =>
    have hrest := ih fun b hb => h b (List.mem_cons_of_mem a hb)
    cases hyields : yields a with
    | nil => cases hp : p a <;> cases hq : q a <;> simp [hp, hq, hyields, hrest]
    | cons b bs =>
      have hsame := h a List.mem_cons_self b (hyields ▸ List.mem_cons_self)
      rw [List.filter_cons, List.filter_cons, hsame]
      split
      · rw [List.flatMap_cons, List.flatMap_cons, hrest]
      · exact hrest

/-- An alignment that a filter drops may be inserted or not. -/
lemma filter_insertByCost_of_neg {p : Alignment → Bool} {a : Alignment} (h : p a = false)
    (as : List Alignment) : (insertByCost a as).filter p = as.filter p := by
  induction as with
  | nil => simp [insertByCost, h]
  | cons b as ih =>
    rw [insertByCost]
    split
    · rw [List.filter_cons_of_neg (by simp [h])]
    · rw [List.filter_cons, List.filter_cons, ih]

/-- What costs no more than every alignment is put in front of them. -/
lemma insertByCost_of_forall_le {a : Alignment} {as : List Alignment}
    (h : ∀ b ∈ as, a.cost ≤ b.cost) : insertByCost a as = a :: as := by
  cases as with
  | nil => rfl
  | cons b as => exact if_pos (h b List.mem_cons_self)

/-- Among alignments in the order of their costs, an alignment gets to the same place whether or not
some of the others are left out. -/
lemma filter_insertByCost_of_pos {p : Alignment → Bool} {a : Alignment} (h : p a = true)
    {as : List Alignment} (hsorted : as.Pairwise fun b d => b.cost ≤ d.cost) :
    (insertByCost a as).filter p = insertByCost a (as.filter p) := by
  induction as with
  | nil => simp [insertByCost, h]
  | cons b as ih =>
    obtain ⟨hb, has⟩ := List.pairwise_cons.1 hsorted
    rw [insertByCost]
    split
    · next hab =>
      rw [List.filter_cons_of_pos h, insertByCost_of_forall_le]
      intro d hd
      rcases List.mem_cons.1 (List.mem_of_mem_filter hd) with rfl | hd
      · exact hab
      · exact Nat.le_trans hab (hb d hd)
    · next hab =>
      rw [List.filter_cons, List.filter_cons, ih has]
      split
      · rw [insertByCost, if_neg hab]
      · rfl

/-- Alignments can be left out before or after they are sorted. -/
theorem sortByCost_filter (p : Alignment → Bool) (as : List Alignment) :
    sortByCost (as.filter p) = (sortByCost as).filter p := by
  induction as with
  | nil => rfl
  | cons a as ih =>
    change _ = (insertByCost a (sortByCost as)).filter p
    cases hp : p a with
    | true =>
      rw [List.filter_cons_of_pos hp, filter_insertByCost_of_pos hp (pairwise_sortByCost as), ← ih]
      rfl
    | false => rw [List.filter_cons_of_neg (by simp [hp]), filter_insertByCost_of_neg hp, ih]

/-- An alignment takes no step between types if none of its placements does. -/
lemma Alignment.subtypeSteps_eq_zero_iff {a : Alignment} :
    a.subtypeSteps = 0 ↔ ∀ p ∈ a.placements, p.commonSupertype = none := by
  rw [subtypeSteps, List.length_eq_zero_iff, List.filter_eq_nil_iff]
  simp

namespace Context

variable {x : Context} {options : MatchOptions} {c : Clause}

/-! ## Walks -/

/-- A player that stands only for itself takes the role of its own type, without a step. -/
lemma eq_of_walkPlayer_exactTypes {s : Slot} {t : ObjectTypeId} {supertype : Option ObjectTypeId}
    (h : x.walkPlayer { exactTypes := true } s t = .ok supertype) :
    supertype = none ∧ (x.mention s.mention).player = some t := by
  unfold walkPlayer at h
  split at h
  · cases h
  next player hplayer =>
  split at h
  · next heq =>
    cases h
    exact ⟨rfl, heq ▸ hplayer⟩
  · cases h

/-- A player of the type of a role takes it, whatever else it may stand for. -/
lemma walkPlayer_of_player {s : Slot} {t : ObjectTypeId}
    (h : (x.mention s.mention).player = some t) : x.walkPlayer options s t = .ok none := by
  unfold walkPlayer
  rw [h]
  exact if_pos rfl

/-- A walk with exact types takes no step between types, and goes the same way without them. -/
lemma Walks.of_exactTypes {refs : List RoleRef} {tokens : List Template.Token} {mayNegate : Bool}
    {place : ClausePlace} {placements : List Placement} {negation : Option Nat}
    (h : Walks x { exactTypes := true } refs tokens mayNegate place placements negation) :
    Walks x options refs tokens mayNegate place placements negation ∧
      ∀ p ∈ placements, p.commonSupertype = none := by
  induction h with
  | nil => exact ⟨.nil, fun _ hp => absurd hp List.not_mem_nil⟩
  | word _ ih => exact ⟨.word ih.1, ih.2⟩
  | negated hne _ ih => exact ⟨.negated hne ih.1, ih.2⟩
  | @place ordinal _ _ place _ _ _ ref intervening s rest p href hspan hrole _ ih =>
    obtain ⟨supertype, _, _, _, hplayer, -, -, hp, -, -⟩ := walkRole_eq_ok hrole
    obtain ⟨hnone, hmention⟩ := eq_of_walkPlayer_exactTypes hplayer
    have hsame : x.walkRole options ref ordinal place.position intervening s rest =
        x.walkRole { exactTypes := true } ref ordinal place.position intervening s rest := by
      unfold Context.walkRole
      rw [hplayer, hnone, walkPlayer_of_player hmention]
    refine ⟨.place href hspan (hsame.trans hrole) ih.1, fun q hq => ?_⟩
    rcases List.mem_cons.1 hq with rfl | hq
    · rw [hp]
      exact hnone
    · exact ih.2 q hq

/-- A reading matches with exact types just in case it matches without a step between types. -/
theorem align_exactTypes_eq_ok_iff (options : MatchOptions) {r : ReadingId} {a : Alignment} :
    x.align { exactTypes := true } c r = .ok a ↔
      x.align options c r = .ok a ∧ a.subtypeSteps = 0 := by
  rw [Alignment.subtypeSteps_eq_zero_iff]
  constructor
  · intro h
    obtain ⟨hcertainty, hwalks, -, hrest⟩ := align_eq_ok_iff.1 h
    obtain ⟨hwalks, hsteps⟩ := hwalks.of_exactTypes
    exact ⟨align_eq_ok_iff.2 ⟨hcertainty, hwalks, checkSubtypeSteps_of_forall hsteps, hrest⟩,
      hsteps⟩
  · rintro ⟨h, hsteps⟩
    obtain ⟨hcertainty, hwalks, hcheck, hrest⟩ := align_eq_ok_iff.1 h
    exact align_eq_ok_iff.2 ⟨hcertainty, hwalks.exactTypes (w := x.vocabulary) hsteps
      fun _ _ => rfl, hcheck, hrest⟩

/-- A clause matches with exact types exactly where it matches without a step between types, and in
the same way. -/
lemma toOption_align_exactTypes (options : MatchOptions) (r : ReadingId) :
    (x.align { exactTypes := true } c r).toOption =
      (x.align options c r).toOption.filter (·.subtypeSteps == 0) := by
  ext a
  rw [toOption_align_eq_some, align_exactTypes_eq_ok_iff options,
    Option.filter_eq_some_iff, toOption_align_eq_some, beq_iff_eq]

/-! ## Fact types -/

/-- The alignments of a fact type that match with exact types. -/
def exactAlignments (x : Context) (c : Clause) (f : FactTypeId) : List Alignment :=
  (x.vocabulary.factType f).readings.filterMap fun r =>
    (x.align { exactTypes := true } c r).toOption

/-- If a reading of a fact type matches with exact types, then the first player plays a role in the
fact type, and in either way of matching the players can fill its roles. -/
lemma of_mem_exactAlignments (hv : x.vocabulary.WellFormed) {f : FactTypeId} {a : Alignment}
    (ha : a ∈ x.exactAlignments c f) {first : Slot} {rest : List Slot}
    (hslots : c.slots = first :: rest) {player : ObjectTypeId} {players : List ObjectTypeId}
    (hplayers : (c.slots.mapM fun s => (x.mention s.mention).player) = some (player :: players)) :
    f ∈ x.vocabulary.factTypesOf [player] ∧
      ∀ exact, x.vocabulary.isEligible exact (player :: players) f =
        ((x.vocabulary.factType f).isStated &&
          (x.vocabulary.factType f).arity == (player :: players).length) := by
  obtain ⟨r, hr, ha⟩ := List.mem_filterMap.1 ha
  have halign := toOption_align_eq_some.1 ha
  obtain rfl := reading_of_align halign
  obtain ⟨hmem, rfl⟩ := hv.mem_readings.1 hr
  constructor
  · have hwalks := (align_eq_ok_iff.1 halign).2.1
    have htakes := hwalks.takes
    change List.Forall₂ _ c.slots a.placements at htakes
    rw [hslots] at htakes
    obtain ⟨p, placements, htake, -, hplacements⟩ := List.forall₂_cons_left_iff.1 htakes
    have hplayer := player_of_mapM (hslots ▸ hplayers)
    have heq : player = x.vocabulary.playerOf p.role :=
      Option.some.inj (hplayer.symm.trans (eq_of_walkPlayer_exactTypes htake.player).2)
    obtain ⟨ref, href, hrole⟩ := hwalks.role_eq (hplacements ▸ List.mem_cons_self)
    exact (Vocabulary.mem_factTypesOf hv).2 ⟨p.role,
      hrole ▸ hv.ref_mem_roles hmem (List.mem_of_getElem? href), heq ▸ List.mem_singleton_self _⟩
  · intro exact
    have halign' : x.align { exactTypes := exact } c a.reading = .ok a := by
      cases exact with
      | true => exact halign
      | false => exact ((align_exactTypes_eq_ok_iff _).1 halign).1
    obtain ⟨players', hplayers', -, hpossible⟩ := isPossible_of_align hv hmem halign'
    cases hplayers.symm.trans hplayers'
    rw [Vocabulary.isEligible, hpossible, Bool.and_true]

/-- Among the fact types of some types, only those of the first player have readings that match with
exact types. -/
lemma flatMap_exactAlignments (hv : x.vocabulary.WellFormed) {first : Slot} {rest : List Slot}
    (hslots : c.slots = first :: rest) {player : ObjectTypeId} {players : List ObjectTypeId}
    (hplayers : (c.slots.mapM fun s => (x.mention s.mention).player) = some (player :: players))
    (exact : Bool) (types : List ObjectTypeId) :
    ((x.vocabulary.factTypesOf (player :: types)).filter
        (x.vocabulary.isEligible exact (player :: players))).flatMap (x.exactAlignments c) =
      ((x.vocabulary.factTypesOf [player]).filter
        (x.vocabulary.isEligible true (player :: players))).flatMap (x.exactAlignments c) := by
  have hof := fun f a (ha : a ∈ x.exactAlignments c f) =>
    of_mem_exactAlignments hv ha hslots hplayers
  rw [flatMap_filter_congr (x.exactAlignments c) fun f _ a ha =>
    ((hof f a ha).2 exact).trans ((hof f a ha).2 true).symm]
  obtain ⟨others, hothers, hdisjoint⟩ := x.vocabulary.factTypesOf_cons player types
  rw [hothers, List.filter_append, List.flatMap_append, List.append_right_eq_self,
    List.flatMap_eq_nil_iff]
  intro f hf
  refine List.eq_nil_iff_forall_not_mem.2 fun a ha => ?_
  exact hdisjoint f (List.mem_of_mem_filter hf) (hof f a ha).1

/-- The readings that are tried with exact types and match are those of all that are tried. -/
lemma filterMap_triedReadings (hv : x.vocabulary.WellFormed) (options : MatchOptions) :
    ((x.triedReadings options c).filterMap fun r =>
        (x.align { exactTypes := true } c r).toOption) =
      (x.triedReadings { exactTypes := true } c).filterMap fun r =>
        (x.align { exactTypes := true } c r).toOption := by
  unfold triedReadings
  split
  · rfl
  rw [List.filterMap_flatMap, List.filterMap_flatMap]
  change List.flatMap (x.exactAlignments c) _ = List.flatMap (x.exactAlignments c) _
  unfold candidates
  split
  · next first rest player players hslots hplayers =>
    have hmatching := flatMap_exactAlignments hv hslots hplayers
    obtain ⟨types, htypes⟩ :=
      x.vocabulary.acceptable_eq_cons (options.exactTypes || first.isObjectified) player
    dsimp only
    rw [htypes, hmatching, Bool.true_or, Vocabulary.acceptable, if_pos rfl]
  · rfl

/-- **The two ways of matching agree.** The ranking with exact types is the part of the ranking
without steps between types, in the same order. -/
theorem alignments_exactTypes (hv : x.vocabulary.WellFormed) (options : MatchOptions) :
    (x.rank { exactTypes := true } c).alignments =
      (x.rank options c).alignments.filter (·.subtypeSteps == 0) := by
  unfold rank
  dsimp only
  rw [List.filterMap_map, List.filterMap_map, ← sortByCost_filter, List.filter_filterMap]
  congr 1
  refine (filterMap_triedReadings hv options).symm.trans (List.filterMap_congr fun r _ => ?_)
  rw [toOption_align_exactTypes options]
  rfl

end Context

end FactModel
