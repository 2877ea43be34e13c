import FactModel.Proofs.Matching.Walk
set_option autoImplicit false

/-!
# One more word in an adjective

A word that no reading has is left over wherever it stands in an adjective. So a clause in which
some mentions have one more such word invokes no reading that it does not invoke without the word,
and pays no less for it.

## Main definitions

* `FactModel.Adjective.Inserts` — an adjective has become another one by a word put in.
* `FactModel.Context.Plainer` — a context in which mentions lack a word that they have in another
  one.

## Main results

* `FactModel.Context.Plainer.walks` — a walk succeeds without the word if it does with it.
* `FactModel.Context.Plainer.align` — hence so does a reading, at no higher cost.
-/

namespace FactModel

/-! ## Adjectives -/

/-- An adjective has become another one by a word put in at one place. -/
def Adjective.Inserts (w : String) (before after : Option String) : Prop :=
  ∃ front back, Adjective.words before = front ++ back ∧ Adjective.words after = front ++ w :: back

/-- An adjective is made of words if there are any. -/
lemma Adjective.isSome_ofWords {ws : List String} : (ofWords ws).isSome ↔ ws ≠ [] := by
  unfold ofWords
  cases ws <;> simp

/-- A leading adjective that a role accounts for but for a word that it lacks. -/
lemma walkLeading_of_insert {m : MentionId} {w : String} {wanted front back : List String}
    {position : Nat} {intervening : List String} {residual : Option String} {absorbed : List Nat}
    (hw : w ∉ wanted)
    (h : walkLeading m wanted (front ++ w :: back) position intervening =
      .ok (residual, absorbed)) :
    ∃ less, walkLeading m wanted (front ++ back) position intervening = .ok (less, absorbed) ∧
      (less.isSome → residual.isSome) := by
  unfold walkLeading at h ⊢
  split at h
  · next hempty =>
    rw [if_pos hempty]
    split at h
    · next hsuffix =>
      obtain ⟨rest, hrest⟩ := List.isSuffixOf_iff_suffix.1 hsuffix
      -- the role lacks the word, so that the word is in front of what it accounts for
      have hback : ∃ more, back = more ++ wanted := by
        rcases List.append_eq_append_iff.1 hrest with ⟨as, hfront, hwanted⟩ | ⟨bs, hrest', hback⟩
        · rw [hwanted] at hw
          exact absurd (List.mem_append_right as List.mem_cons_self) hw
        · cases bs with
          | nil =>
            rw [List.nil_append] at hback
            rw [← hback] at hw
            exact absurd List.mem_cons_self hw
          | cons b bs =>
            obtain ⟨-, hback⟩ := List.cons.inj hback
            exact ⟨bs, hback⟩
      obtain ⟨more, rfl⟩ := hback
      have hsuffix' : wanted.isSuffixOf (front ++ (more ++ wanted)) = true :=
        List.isSuffixOf_iff_suffix.2 ⟨front ++ more, by simp⟩
      rw [if_pos hsuffix']
      cases h
      refine ⟨_, rfl, fun _ => Adjective.isSome_ofWords.2 ?_⟩
      simp only [ne_eq, List.take_eq_nil_iff, List.length_append, List.length_cons,
        List.append_eq_nil_iff,
        reduceCtorEq, and_false, or_false]
      omega
    · cases h
  · dsimp only at h
    generalize (if intervening.isPrefixOf wanted then intervening else splitHyphens intervening) =
      words at h
    split at h
    · next habsorbed =>
      -- words taken leave the role no other word to account for
      have hmem : w ∈ front ++ w :: back := by simp
      rw [habsorbed.2] at hmem
      exact absurd (List.mem_of_mem_drop hmem) hw
    · cases h

/-- A trailing adjective that a role accounts for but for a word that it lacks. -/
lemma walkTrailing_of_insert {m : MentionId} {w : String} {wanted front back : List String}
    {rest : List Phrase} {residual : Option String} {taken : Nat} (hw : w ∉ wanted)
    (h : walkTrailing m wanted (front ++ w :: back) rest = .ok (residual, taken)) :
    ∃ less, walkTrailing m wanted (front ++ back) rest = .ok (less, taken) ∧
      (less.isSome → residual.isSome) := by
  unfold walkTrailing at h
  split at h
  · next hlength =>
    split at h
    · next hprefix =>
      obtain ⟨left, hleft⟩ := List.isPrefixOf_iff_prefix.1 hprefix
      have hfront : ∃ more, front = wanted ++ more := by
        rcases List.append_eq_append_iff.1 hleft with ⟨as, hfront, -⟩ | ⟨bs, hwanted, hleft'⟩
        · exact ⟨as, hfront⟩
        · cases bs with
          | nil => exact ⟨[], by simpa using hwanted.symm⟩
          | cons b bs =>
            obtain ⟨rfl, -⟩ := List.cons.inj hleft'
            rw [hwanted] at hw
            exact absurd (List.mem_append_right front List.mem_cons_self) hw
      obtain ⟨more, rfl⟩ := hfront
      have hprefix' : wanted.isPrefixOf (wanted ++ more ++ back) = true :=
        List.isPrefixOf_iff_prefix.2 ⟨more ++ back, by simp⟩
      have hlength' : wanted.length ≤ (wanted ++ more ++ back).length := by simp
      unfold walkTrailing
      rw [if_pos hlength', if_pos hprefix']
      cases h
      refine ⟨_, rfl, fun _ => Adjective.isSome_ofWords.2 ?_⟩
      simp
    · cases h
  · dsimp only at h
    split at h
    · next hprefix =>
      have hmem := (List.isPrefixOf_iff_prefix.1 hprefix.1).subset (a := w) (by simp)
      exact absurd hmem hw
    · cases h

/-! ## One placeholder -/

namespace Context

variable {x x' : Context} {options : MatchOptions} {w : String}

/-- A context in which mentions lack a word of their adjectives that they have in another one, and
in which no fewer mentions share a binding. -/
structure Plainer (w : String) (x x' : Context) : Prop where
  vocabulary_eq : x'.vocabulary = x.vocabulary
  player_eq : ∀ m, (x'.mention m).player = (x.mention m).player
  shareCount_le : ∀ m, x'.shareCount m ≤ x.shareCount m
  leading : ∀ m, (x'.mention m).leading = (x.mention m).leading ∨
    Adjective.Inserts w (x.mention m).leading (x'.mention m).leading
  trailing : ∀ m, (x'.mention m).trailing = (x.mention m).trailing ∨
    Adjective.Inserts w (x.mention m).trailing (x'.mention m).trailing

/-- A placement that differs from another one at most in that less is left over. -/
structure LeavesLess (p p' : Placement) : Prop where
  mention_eq : p.mention = p'.mention
  role_eq : p.role = p'.role
  absorbedPrecursors_eq : p.absorbedPrecursors = p'.absorbedPrecursors
  absorbedFollowers_eq : p.absorbedFollowers = p'.absorbedFollowers
  commonSupertype_eq : p.commonSupertype = p'.commonSupertype
  hasResidue : p.hasResidue = true → p'.hasResidue = true

namespace Plainer

variable (h : x.Plainer w x')

include h

/-- A plainer mention has the player that the walk gives it. -/
lemma walkPlayer_eq (s : Slot) (t : ObjectTypeId) :
    x'.walkPlayer options s t = x.walkPlayer options s t := by
  unfold walkPlayer
  rw [h.player_eq, h.vocabulary_eq]

/-- A placeholder that is laid on a slot is also laid on it without the word. -/
lemma walkRole {ref : RoleRef} {ordinal position : Nat} {intervening : List String} {s : Slot}
    {rest : List Phrase} {p' : Placement} {place : ClausePlace}
    (hleading : w ∉ Adjective.words ref.leading) (htrailing : w ∉ Adjective.words ref.trailing)
    (hrole : x'.walkRole options ref ordinal position intervening s rest = .ok (p', place)) :
    ∃ p, x.walkRole options ref ordinal position intervening s rest = .ok (p, place) ∧
      LeavesLess p p' := by
  obtain ⟨supertype, residualLeading, residualTrailing, taken, hplayer, hlead, htrail, rfl, hshare,
    rfl⟩ := walkRole_eq_ok hrole
  have hlead' : ∃ less, walkLeading s.mention (Adjective.words ref.leading)
      (Adjective.words (x.mention s.mention).leading) position intervening =
        .ok (less, List.range' position intervening.length) ∧
      (less.isSome → residualLeading.isSome) := by
    rcases h.leading s.mention with heq | ⟨front, back, hbefore, hafter⟩
    · exact ⟨_, heq ▸ hlead, id⟩
    · rw [hafter] at hlead
      rw [hbefore]
      exact walkLeading_of_insert hleading hlead
  have htrail' : ∃ less, walkTrailing s.mention (Adjective.words ref.trailing)
      (Adjective.words (x.mention s.mention).trailing) rest = .ok (less, taken) ∧
      (less.isSome → residualTrailing.isSome) := by
    rcases h.trailing s.mention with heq | ⟨front, back, hbefore, hafter⟩
    · exact ⟨_, heq ▸ htrail, id⟩
    · rw [hafter] at htrail
      rw [hbefore]
      exact walkTrailing_of_insert htrailing htrail
  obtain ⟨lessLeading, hlead, hleadSome⟩ := hlead'
  obtain ⟨lessTrailing, htrail, htrailSome⟩ := htrail'
  let p : Placement :=
    { mention := s.mention, role := ref.role, roleRef := ordinal
      absorbedPrecursors := List.range' position intervening.length
      absorbedFollowers := List.range' (position + intervening.length + 1) taken
      commonSupertype := supertype, residualLeading := lessLeading
      residualTrailing := lessTrailing }
  have hless : LeavesLess p
      { mention := s.mention, role := ref.role, roleRef := ordinal
        absorbedPrecursors := List.range' position intervening.length
        absorbedFollowers := List.range' (position + intervening.length + 1) taken
        commonSupertype := supertype, residualLeading, residualTrailing } := by
    refine ⟨rfl, rfl, rfl, rfl, rfl, fun hresidue => ?_⟩
    simp only [Placement.hasResidue, Bool.or_eq_true] at hresidue ⊢
    exact hresidue.imp hleadSome htrailSome
  have hresidue : ¬(p.hasResidue = true ∧ x.shareCount s.mention ≤ 1) := by
    rintro ⟨hresidue, hle⟩
    exact hshare ⟨hless.hasResidue hresidue, Nat.le_trans (h.shareCount_le s.mention) hle⟩
  rw [h.walkPlayer_eq, h.vocabulary_eq] at hplayer
  exact ⟨p, walkRole_of hplayer hlead htrail hresidue, hless⟩

/-! ## All tokens -/

/-- **A walk without the word.** The tokens of a reading that are laid along phrases are also laid
along them if mentions lack a word that the reading does not have. Less may be left over. -/
theorem walks {refs : List RoleRef} (hleading : ∀ ref ∈ refs, w ∉ Adjective.words ref.leading)
    (htrailing : ∀ ref ∈ refs, w ∉ Adjective.words ref.trailing) {tokens : List Template.Token}
    {mayNegate : Bool} {place : ClausePlace} {placements' : List Placement} {negation : Option Nat}
    (hwalks : Walks x' options refs tokens mayNegate place placements' negation) :
    ∃ placements, Walks x options refs tokens mayNegate place placements negation ∧
      List.Forall₂ LeavesLess placements placements' := by
  induction hwalks with
  | nil => exact ⟨[], .nil, .nil⟩
  | word _ ih =>
    obtain ⟨placements, hwalks, hless⟩ := ih
    exact ⟨placements, .word hwalks, hless⟩
  | negated hne _ ih =>
    obtain ⟨placements, hwalks, hless⟩ := ih
    exact ⟨placements, .negated hne hwalks, hless⟩
  | place href hspan hrole _ ih =>
    obtain ⟨placements, hwalks, hless⟩ := ih
    have hmem := List.mem_of_getElem? href
    obtain ⟨p, hrole', hp⟩ := h.walkRole (hleading _ hmem) (htrailing _ hmem) hrole
    exact ⟨p :: placements, .place href hspan hrole' hwalks, .cons hp hless⟩

end Plainer

/-! ## Readings -/

/-- Placements that leave less over cost the same. -/
lemma placementCost_of_leavesLess {ps ps' : List Placement} (h : List.Forall₂ LeavesLess ps ps') :
    Alignment.placementCost ps = Alignment.placementCost ps' := by
  induction h with
  | nil => rfl
  | cons hp _ ih =>
    rw [Alignment.placementCost, Alignment.placementCost, ih, Placement.cost, Placement.cost,
      hp.absorbedPrecursors_eq, hp.absorbedFollowers_eq, hp.commonSupertype_eq]

/-- Where less is left over and something is, something was left over before. -/
lemma any_hasResidue_of_leavesLess {ps ps' : List Placement} (h : List.Forall₂ LeavesLess ps ps')
    (hany : ps.any (·.hasResidue) = true) : ps'.any (·.hasResidue) = true := by
  induction h with
  | nil => exact hany
  | cons hp _ ih =>
    rw [List.any_cons, Bool.or_eq_true] at hany ⊢
    exact hany.imp hp.hasResidue ih

/-- What steps between types a clause takes does not depend on what is left over. -/
lemma checkSubtypeSteps_of_leavesLess (hvocabulary : x'.vocabulary = x.vocabulary)
    (hplayer : ∀ m, (x'.mention m).player = (x.mention m).player) (f : FactTypeId)
    {ps ps' : List Placement} (h : List.Forall₂ LeavesLess ps ps') :
    x.checkSubtypeSteps f ps = x'.checkSubtypeSteps f ps' := by
  have hsteps : List.Forall₂ LeavesLess (ps.filter (·.commonSupertype.isSome))
      (ps'.filter (·.commonSupertype.isSome)) := by
    induction h with
    | nil => exact .nil
    | cons hp _ ih =>
      rw [List.filter_cons, List.filter_cons, hp.commonSupertype_eq]
      split
      · exact .cons hp ih
      · exact ih
  have halong : ∀ p p', LeavesLess p p' → x.stepsAlong p = x'.stepsAlong p' := by
    intro p p' hp
    unfold stepsAlong
    rw [hp.mention_eq, hp.role_eq, hplayer, hvocabulary]
  have hall : (ps.filter (·.commonSupertype.isSome)).all x.stepsAlong =
      (ps'.filter (·.commonSupertype.isSome)).all x'.stepsAlong := by
    generalize ps.filter (·.commonSupertype.isSome) = steps at hsteps
    generalize ps'.filter (·.commonSupertype.isSome) = steps' at hsteps
    induction hsteps with
    | nil => rfl
    | cons hp _ ih => rw [List.all_cons, List.all_cons, halong _ _ hp, ih]
  unfold checkSubtypeSteps
  dsimp only
  rw [hvocabulary, hsteps.length_eq, hall]

/-- **Costs are monotone.** A reading that matches a clause matches it if mentions lack a word that
the reading does not have, and it costs no more. -/
theorem Plainer.align (h : x.Plainer w x') {c : Clause} {r : ReadingId} {a' : Alignment}
    (hleading : ∀ ref ∈ x.vocabulary.readingRefs r, w ∉ Adjective.words ref.leading)
    (htrailing : ∀ ref ∈ x.vocabulary.readingRefs r, w ∉ Adjective.words ref.trailing)
    (ha' : x'.align options c r = .ok a') :
    ∃ a, x.align options c r = .ok a ∧ a.cost ≤ a'.cost := by
  obtain ⟨hcertainty, hwalks, hsteps, hfactType, hreading, hroleSequence⟩ := align_eq_ok_iff.1 ha'
  rw [h.vocabulary_eq] at hcertainty hwalks hsteps hfactType hroleSequence
  obtain ⟨placements, hwalks', hless⟩ := h.walks hleading htrailing hwalks
  rw [← checkSubtypeSteps_of_leavesLess h.vocabulary_eq h.player_eq _ hless] at hsteps
  refine ⟨{ a' with placements }, align_eq_ok_iff.2
    ⟨hcertainty, hwalks', hsteps, hfactType, hreading, hroleSequence⟩, ?_⟩
  have hcost := placementCost_of_leavesLess hless
  have hresidue : (placements.any (·.hasResidue)).toNat ≤
      (a'.placements.any (·.hasResidue)).toNat := by
    by_cases hany : placements.any (·.hasResidue) = true
    · have hany' := any_hasResidue_of_leavesLess hless hany
      exact Nat.le_of_eq (congrArg Bool.toNat (hany.trans hany'.symm))
    · rw [Bool.not_eq_true] at hany
      rw [hany]
      exact Nat.zero_le _
  unfold Alignment.cost Alignment.hasResidue
  rw [hcost]
  dsimp only
  omega

end Context

end FactModel
