import FactModel.Proofs.Matching.Onto
import FactModel.Proofs.Session.Growth
import FactModel.Proofs.Vocabulary.Implied
import FactModel.Proofs.Vocabulary.Sparing
set_option autoImplicit false

/-!
# Comparisons

The fact type of a comparison is made with a reading that lists its two roles, the left one first.
Readings that are added later stand behind that one, so a clause that invokes the comparison by its
first reading gives the left side the role of the left player, and the right side that of the right
player.

Two vocabularies that have grown from one need not number alike what has been added to them. A
comparison may be new in both; then it is the same if it has the same operator and players of the
same names.

## Main definitions

* `FactModel.Vocabulary.Compares` — the fact type of a comparison.
* `FactModel.Vocabulary.ReadsInOrder` — the first reading of a fact type lists its roles in order.
* `FactModel.Vocabulary.ComparisonsRead` — that of every comparison does.
* `FactModel.SameInvocation` — two clauses invoke the same over two vocabularies.

## Main results

* `FactModel.Vocabulary.Evolves.comparisonsRead` — changes leave it so that comparisons read in
  order.
* `FactModel.Vocabulary.compares_of_perform` — the comparison of two players has a role for each.
* `FactModel.sameInvocation_compared` — comparisons of the same players invoke the same.
* `FactModel.SameInvocation.grows` — and go on to do so while both vocabularies grow.
-/

namespace FactModel

namespace Vocabulary

open Attempt

variable {v w : Vocabulary} {f f' : FactTypeId} {a b : ObjectTypeId} {operator : String}

/-- A fact type compares two players by an operator. -/
structure Compares (v : Vocabulary) (f : FactTypeId) (operator : String)
    (a b : ObjectTypeId) : Prop where
  mem : f ∈ v.factTypeIds
  kind_eq : (v.factType f).kind = .comparison operator
  players_eq : (v.factType f).roles.map v.playerOf = [a, b]

namespace Compares

variable (h : v.Compares f operator a b)

include h

/-- There is one such fact type. -/
lemma eq (hv : v.Consistent) (h' : v.Compares f' operator a b) : f' = f := by
  have hlookup := (hv.comparisons_iff operator a b f).2 ⟨h.mem, h.kind_eq, h.players_eq⟩
  have hlookup' := (hv.comparisons_iff operator a b f').2 ⟨h'.mem, h'.kind_eq, h'.players_eq⟩
  exact Option.some.inj (hlookup'.symm.trans hlookup)

/-- The sides of a comparison are object types of the vocabulary. -/
lemma player_mem (hv : v.WellFormed) : a ∈ v.objectTypeIds ∧ b ∈ v.objectTypeIds := by
  have hmem : ∀ t ∈ [a, b], t ∈ v.objectTypeIds := by
    rw [← h.players_eq]
    intro t ht
    obtain ⟨r, hr, rfl⟩ := List.mem_map.1 ht
    exact hv.role_player_mem (hv.mem_roles.1 hr).1
  exact ⟨hmem a (by simp), hmem b (by simp)⟩

/-- The fact type goes on to compare them. -/
lemma grows (hv : v.WellFormed) (hvw : v.Grows w) (hmatches : v.MatchesAs w) :
    w.Compares f operator a b where
  mem := hvw.mem_factTypeIds h.mem
  kind_eq := by rw [hmatches.factType_eq f h.mem, h.kind_eq]
  players_eq := by
    rw [hmatches.factType_eq f h.mem, ← h.players_eq]
    exact List.map_congr_left fun r hr => hmatches.playerOf_eq r (hv.mem_roles.1 hr).1

/-- A fact type that was there before compared the same players. -/
lemma of_matchesAs (hmatches : w.MatchesAs v) (hw : w.WellFormed) (hf : f ∈ w.factTypeIds) :
    w.Compares f operator a b where
  mem := hf
  kind_eq := by rw [← hmatches.factType_eq f hf, h.kind_eq]
  players_eq := by
    rw [← h.players_eq, hmatches.factType_eq f hf]
    exact (List.map_congr_left fun r hr => hmatches.playerOf_eq r (hw.mem_roles.1 hr).1).symm

end Compares

/-! ## Comparisons read their roles in order -/

/-- The first reading of a fact type. -/
def firstReading (v : Vocabulary) (f : FactTypeId) : ReadingId :=
  (v.factType f).readings.headD default

/-- The first reading of a fact type that matches as before is the one it was. -/
lemma firstReading_eq (h : v.MatchesAs w) (hf : f ∈ v.factTypeIds) :
    w.firstReading f = v.firstReading f := by
  rw [firstReading, h.factType_eq f hf, firstReading]

/-- A fact type has a reading, and the first one lists the roles of the fact type in order. -/
structure ReadsInOrder (v : Vocabulary) (f : FactTypeId) : Prop where
  head : ∃ r rest, (v.factType f).readings = r :: rest ∧ r ∈ v.readingIds ∧
    (v.reading r).roleSequence ∈ v.roleSequenceIds ∧
    (v.roleSequence (v.reading r).roleSequence).roles = (v.factType f).roles

/-- Every comparison reads its roles in order. -/
def ComparisonsRead (v : Vocabulary) : Prop :=
  ∀ f ∈ v.factTypeIds, ∀ operator, (v.factType f).kind = .comparison operator → v.ReadsInOrder f

/-- A fact type that reads its roles in order does so for ever. -/
lemma ReadsInOrder.retains (h : v.ReadsInOrder f) (hf : f ∈ v.factTypeIds) (hw : v.Retains w) :
    w.ReadsInOrder f := by
  obtain ⟨r, rest, hreadings, hr, hs, hroles⟩ := h.head
  obtain ⟨more, hmore⟩ := (hw.factType hf).readings
  refine ⟨r, rest ++ more, ?_, hw.mem_readingIds hr, ?_, ?_⟩
  · rw [← hmore, hreadings, List.cons_append]
  · rw [hw.reading_eq hr]
    exact hw.mem_roleSequenceIds hs
  · rw [hw.reading_eq hr, hw.roleSequence_eq hs, hroles, hw.roles_eq f hf]

/-! ## The comparison of two players -/

/-- The reading of a new fact type of two roles lists them in order. -/
lemma readsInOrder_withBinary (v : Vocabulary) (kind : FactTypeKind) (a b : ObjectTypeId)
    (text : String) : (v.withBinary kind a b text).ReadsInOrder ⟨v.factTypes.size⟩ := by
  refine ⟨⟨v.readings.size⟩, [], ?_, (mem_readingIds_withBinary ..).2 (.inl rfl), ?_, ?_⟩
  · rw [factType_withBinary, if_pos rfl]
  · rw [reading_withBinary]
    exact (mem_roleSequenceIds_withBinary ..).2 (.inl rfl)
  · rw [reading_withBinary, roleSequence_withBinary, factType_withBinary, if_pos rfl]
    rfl

/-- The indexes of implied fact types do not matter. -/
lemma ReadsInOrder.indexed (h : v.ReadsInOrder f)
    (links : List ((ObjectTypeId × RoleId) × FactTypeId))
    (comparisons : List ((String × ObjectTypeId × ObjectTypeId) × FactTypeId)) :
    ReadsInOrder { v with links, comparisons } f :=
  ⟨h.head⟩

/-- The comparison of two players is there afterwards: it has a role for the left one, and then one
for the right one. -/
lemma ends_comparisonFactType (hv : v.Consistent) (operator : String) (a b : ObjectTypeId) :
    (comparisonFactType operator a b).Ends v (fun f w => w.Compares f operator a b) fun _ =>
      False := by
  refine ends_bind.2 (ends_get.2 ?_)
  split
  · next existing hlookup =>
    obtain ⟨hmem, hkind, hplayers⟩ := (hv.comparisons_iff operator a b existing).1 hlookup
    exact ⟨hmem, hkind, hplayers⟩
  · next hlookup =>
    refine ends_bind.2 ((ends_of_perform (perform_addBinary ..)).2 (ends_bind.2 ?_))
    have hmem := (v.mem_factTypeIds_withBinary (.comparison operator) a b
      ("\x7b0\x7d " ++ operator ++ " \x7b1\x7d") _).2 (.inl rfl)
    have hfactType := (factType_withBinary (v := v) (.comparison operator) a b
      ("\x7b0\x7d " ++ operator ++ " \x7b1\x7d") _).trans (if_pos rfl)
    have hplayers := v.playerOf_withBinary (.comparison operator) a b
      ("\x7b0\x7d " ++ operator ++ " \x7b1\x7d")
    generalize v.withBinary (.comparison operator) a b _ = w at hmem hfactType hplayers ⊢
    refine ⟨hmem, ?_, ?_⟩
    · change (w.factType _).kind = _
      rw [hfactType]
    · change (w.factType _).roles.map w.playerOf = _
      rw [hfactType]
      exact hplayers

/-- The comparison of two players is always found or made. -/
lemma exists_comparisonFactType (hv : v.Consistent) (operator : String) (a b : ObjectTypeId) :
    ∃ f w, (comparisonFactType operator a b).perform v = (.ok f, w) := by
  have hends := ends_comparisonFactType hv operator a b
  rcases h : (comparisonFactType operator a b).perform v with ⟨fault | f, w⟩
  · unfold Ends at hends
    rw [h] at hends
    exact hends.elim
  · exact ⟨f, w, rfl⟩

/-- What adding the fact type of a comparison comes to. -/
lemma compares_of_perform (hv : v.Consistent)
    (h : (comparisonFactType operator a b).perform v = (.ok f, w)) :
    w.Compares f operator a b ∧ (∀ t, w.nameOf t = v.nameOf t) ∧ v.Grows w :=
  ⟨(ends_comparisonFactType hv operator a b).of_perform h,
    ((leads_comparisonFactType_nameOf operator a b v).of_perform h).1,
    ((evolves_comparisonFactType v operator a b).of_perform h).1.retains.toGrows⟩

/-! ## Changes -/

/-- A fact type that a change adds reads its roles in order if it is a comparison. -/
lemma readsInOrder_of_change (h : Change v w) (hf : f ∈ w.factTypeIds) (hnew : f ∉ v.factTypeIds)
    (hkind : (w.factType f).kind = .comparison operator) : w.ReadsInOrder f := by
  have hsame : w.factTypeIds = v.factTypeIds → w.ReadsInOrder f :=
    fun hids => absurd (hids ▸ hf) hnew
  have hbinary : ∀ {kind first second text} {links comparisons},
      f ∈ { v.withBinary kind first second text with links, comparisons }.factTypeIds →
        ReadsInOrder { v.withBinary kind first second text with links, comparisons } f := by
    intro kind first second text links comparisons hmem
    obtain rfl :=
      ((v.mem_factTypeIds_withBinary kind first second text f).1 hmem).resolve_right hnew
    exact (readsInOrder_withBinary v kind first second text).indexed links comparisons
  cases h with
  | objectType kind isForward _ => exact hsame rfl
  | declared isForward _ => exact hsame rfl
  | @subtype a b _ _ _ _ =>
    rw [factType_withSubtype_kind,
      if_pos ((mem_factTypeIds_withSubtype ..).1 hf |>.resolve_right hnew)] at hkind
    cases hkind
  | objectification _ _ => exact hsame (factTypeIds_linkObjectification ..)
  | factType players =>
    rw [factTypeIds_withFactType, mem_factTypeIds_pushFactType] at hf
    rw [factType_withFactType_apply v players FactType.kind fun _ _ => rfl, factType_pushFactType,
      if_pos (hf.resolve_right hnew)] at hkind
    cases hkind
  | roleSequence refs => exact hsame rfl
  | reading _ => exact hsame (factTypeIds_pushReading ..)
  | roleName name _ => exact hsame rfl
  | derivation g q => exact hsame (factTypeIds_modifyFactType ..)
  | query g => exact hsame rfl
  | link _ => exact hbinary hf
  | comparison _ => exact hbinary hf
  | presenceConstraint s min max enforcement => exact hsame rfl
  | restriction _ _ => exact hsame rfl
  | ringConstraint role otherRole kinds => exact hsame rfl

/-- A change keeps that comparisons read their roles in order. -/
lemma comparisonsRead_of_change (h : Change v w) (hv : v.ComparisonsRead) : w.ComparisonsRead := by
  intro f hf operator hkind
  by_cases hold : f ∈ v.factTypeIds
  · have hretains := retains_of_change h
    exact (hv f hold operator ((hretains.factType hold).kind_eq.symm.trans hkind)).retains hold
      hretains
  · exact readsInOrder_of_change h hf hold hkind

/-- Whatever becomes of a vocabulary, its comparisons read their roles in order. -/
theorem Evolves.comparisonsRead (h : v.Evolves w) (hv : v.ComparisonsRead) : w.ComparisonsRead :=
  h.preserves hv comparisonsRead_of_change

/-- An empty vocabulary has no comparisons. -/
lemma comparisonsRead_empty (name : String) : ComparisonsRead { name } :=
  fun _ hf => absurd hf List.not_mem_nil

end Vocabulary

/-! ## The same invocation over two vocabularies -/

/-- Over two vocabularies that have grown from one, the same reading is invoked of a fact type that
was there before, if any, or new comparisons of one operator, and of players with the same names, by
their first readings. -/
inductive SameInvocation (v w w' : Vocabulary) :
    Option FactTypeId → Option ReadingId → Option FactTypeId → Option ReadingId → Prop
  | known {f : Option FactTypeId} {r : Option ReadingId} (h : ∀ g ∈ f, g ∈ v.factTypeIds) :
    SameInvocation v w w' f r f r
  | compared {operator : String} {f f' : FactTypeId} {a b a' b' : ObjectTypeId}
    (h : w.Compares f operator a b) (h' : w'.Compares f' operator a' b')
    (hleft : w'.nameOf a' = w.nameOf a)
    (hright : w'.nameOf b' = w.nameOf b) (hnew : f ∉ v.factTypeIds) (hnew' : f' ∉ v.factTypeIds) :
    SameInvocation v w w' (some f) (some (w.firstReading f)) (some f') (some (w'.firstReading f'))

open Vocabulary

variable {v w w' u u' : Vocabulary} {f f' : FactTypeId} {operator : String}
    {a b a' b' : ObjectTypeId}

/-- A comparison that was there before both vocabularies grew is the same one in both. -/
lemma Vocabulary.Compares.eq_of_mem (h : w.Compares f operator a b)
    (h' : w'.Compares f' operator a' b')
    (hv : v.WellFormed) (hvw : v.Grows w) (hmatches : v.MatchesAs w) (hvw' : v.Grows w')
    (hmatches' : v.MatchesAs w') (hw' : w'.Consistent) (hleft : w'.nameOf a' = w.nameOf a)
    (hright : w'.nameOf b' = w.nameOf b) (hf : f ∈ v.factTypeIds) : f' = f := by
  have hold := h.of_matchesAs hmatches hv hf
  obtain ⟨ha, hb⟩ := hold.player_mem hv
  obtain ⟨ha', hb'⟩ := h'.player_mem hw'.toWellFormed
  obtain rfl : a' = a := hw'.toWellFormed.nameOf_injective ha' (hvw'.mem_objectTypeIds ha) (by
    rw [hleft, hvw.nameOf_eq ha, hvw'.nameOf_eq ha])
  obtain rfl : b' = b := hw'.toWellFormed.nameOf_injective hb' (hvw'.mem_objectTypeIds hb) (by
    rw [hright, hvw.nameOf_eq hb, hvw'.nameOf_eq hb])
  exact (hold.grows hv hvw' hmatches').eq hw' h'

/-- **Comparisons of the same players invoke the same.** -/
theorem sameInvocation_compared (h : w.Compares f operator a b) (h' : w'.Compares f' operator a' b')
    (hv : v.WellFormed) (hvw : v.Grows w) (hmatches : v.MatchesAs w) (hw : w.Consistent)
    (hvw' : v.Grows w')
    (hmatches' : v.MatchesAs w') (hw' : w'.Consistent) (hleft : w'.nameOf a' = w.nameOf a)
    (hright : w'.nameOf b' = w.nameOf b) :
    SameInvocation v w w' (some f) (some (w.firstReading f)) (some f')
      (some (w'.firstReading f')) := by
  by_cases hf : f ∈ v.factTypeIds
  · obtain rfl := h.eq_of_mem h' hv hvw hmatches hvw' hmatches' hw' hleft hright hf
    rw [firstReading_eq hmatches hf, firstReading_eq hmatches' hf]
    refine .known fun g hg => ?_
    cases hg
    exact hf
  · refine .compared h h' hleft hright hf fun hf' => hf ?_
    obtain rfl := h'.eq_of_mem h hv hvw' hmatches' hvw hmatches hw hleft.symm hright.symm hf'
    exact hf'

/-- **What has been invoked stays the same** while both vocabularies grow. -/
theorem SameInvocation.grows {g g' : Option FactTypeId} {r r' : Option ReadingId}
    (h : SameInvocation v w w' g r g' r') (hw : w.WellFormed) (hw' : w'.WellFormed)
    (hwu : w.Grows u)
    (hmatches : w.MatchesAs u) (hwu' : w'.Grows u') (hmatches' : w'.MatchesAs u') :
    SameInvocation v u u' g r g' r' := by
  cases h with
  | known h => exact .known h
  | @compared operator f f' a b a' b' h h' hleft hright hnew hnew' =>
    obtain ⟨ha, hb⟩ := h.player_mem hw
    obtain ⟨ha', hb'⟩ := h'.player_mem hw'
    rw [← firstReading_eq hmatches h.mem, ← firstReading_eq hmatches' h'.mem]
    refine .compared (h.grows hw hwu hmatches) (h'.grows hw' hwu' hmatches') ?_ ?_ hnew hnew'
    · rw [hwu'.nameOf_eq ha', hleft, hwu.nameOf_eq ha]
    · rw [hwu'.nameOf_eq hb', hright, hwu.nameOf_eq hb]

end FactModel
