import FactModel.Proofs.Session.Growth
set_option autoImplicit false

/-!
# Fact types that say that one type is a kind of another

Such a fact type has a role for the lower type and one for the upper type, and a reading in which
the lower type comes first. Readings that are added later may have the two in either order, but the
roles stay what they are.

## Main definitions

* `FactModel.Vocabulary.TellsKind` — the roles of a fact type, and a reading of it, say that one
  type is a kind of another.

## Main results

* `FactModel.Vocabulary.statesKind_of_change` — a change adds at most one fact type about kinds.
* `FactModel.Vocabulary.Evolves.kindsTold` — every fact type about kinds has such roles and such a
  reading.
-/

namespace FactModel

namespace Vocabulary

variable {v w : Vocabulary} {f : FactTypeId} {lower upper : RoleId} {r : ReadingId}
  {a b c d : ObjectTypeId}

/-- The tokens of the first reading of every fact type about kinds. -/
def kindTokens : List Template.Token :=
  [.place 0, .word "is", .word "a", .word "kind", .word "of", .place 1]

/-- A fact type has one role for the lower and one for the upper type, and a reading says in these
words that the lower one is a kind of the upper one. -/
structure TellsKind (v : Vocabulary) (f : FactTypeId) (lower upper : RoleId) (r : ReadingId)
    (a b : ObjectTypeId) : Prop where
  roles_eq : (v.factType f).roles = [lower, upper]
  lower_mem : lower ∈ v.roleIds
  upper_mem : upper ∈ v.roleIds
  lower_player : v.playerOf lower = a
  upper_player : v.playerOf upper = b
  reading_mem : r ∈ v.readingIds
  factType_eq : (v.reading r).factType = f
  tokens_eq : (v.reading r).tokens = kindTokens
  isNegative_eq : (v.reading r).isNegative = false
  sequence_mem : (v.reading r).roleSequence ∈ v.roleSequenceIds
  refs_eq : v.readingRefs r = [{ role := lower }, { role := upper }]

/-- What a fact type says of kinds it says for ever. -/
lemma TellsKind.retains (h : v.TellsKind f lower upper r a b) (hf : f ∈ v.factTypeIds)
    (hw : v.Retains w) : w.TellsKind f lower upper r a b := by
  have hreading : w.reading r = v.reading r := hw.reading_eq h.reading_mem
  exact {
    roles_eq := (hw.roles_eq f hf).trans h.roles_eq
    lower_mem := hw.mem_roleIds h.lower_mem
    upper_mem := hw.mem_roleIds h.upper_mem
    lower_player := (hw.playerOf_eq h.lower_mem).trans h.lower_player
    upper_player := (hw.playerOf_eq h.upper_mem).trans h.upper_player
    reading_mem := hw.mem_readingIds h.reading_mem
    factType_eq := hreading ▸ h.factType_eq
    tokens_eq := hreading ▸ h.tokens_eq
    isNegative_eq := hreading ▸ h.isNegative_eq
    sequence_mem := hreading ▸ hw.mem_roleSequenceIds h.sequence_mem
    refs_eq := by
      rw [readingRefs, hreading, hw.roleSequence_eq h.sequence_mem]
      exact h.refs_eq }

/-! ## A new fact type about kinds -/

/-- A fact type of two roles whose reading has these words says them of its players. -/
lemma tellsKind_withBinary (v : Vocabulary) (kind : FactTypeKind) (a b : ObjectTypeId) :
    (v.withBinary kind a b "\x7b0\x7d is a kind of \x7b1\x7d").TellsKind ⟨v.factTypes.size⟩
      ⟨v.roles.size⟩ ⟨v.roles.size + 1⟩ ⟨v.readings.size⟩ a b := by
  have hplayers := v.playerOf_withBinary kind a b "\x7b0\x7d is a kind of \x7b1\x7d"
  have hroles : ((v.withBinary kind a b "\x7b0\x7d is a kind of \x7b1\x7d").factType
      ⟨v.factTypes.size⟩).roles = [⟨v.roles.size⟩, ⟨v.roles.size + 1⟩] := by
    rw [factType_withBinary, if_pos rfl]
  have htokens : Template.tokens "\x7b0\x7d is a kind of \x7b1\x7d" = kindTokens := by
    decide +kernel
  exact {
    roles_eq := hroles
    lower_mem := (mem_roleIds_withBinary ..).2 (.inr (.inl rfl))
    upper_mem := (mem_roleIds_withBinary ..).2 (.inl rfl)
    lower_player := (List.cons.inj hplayers).1
    upper_player := (List.cons.inj (List.cons.inj hplayers).2).1
    reading_mem := (mem_readingIds_withBinary ..).2 (.inl rfl)
    factType_eq := by rw [reading_withBinary]
    tokens_eq := by rw [reading_withBinary, htokens]
    isNegative_eq := by rw [reading_withBinary]
    sequence_mem := by
      rw [reading_withBinary]
      exact (mem_roleSequenceIds_withBinary ..).2 (.inl rfl)
    refs_eq := readingRefs_withBinary .. }

/-- The fact type with which one type is made a kind of another has these roles and this reading. -/
lemma tellsKind_withSubtype (v : Vocabulary) (a b : ObjectTypeId) :
    (v.withSubtype a b).TellsKind ⟨v.factTypes.size⟩ ⟨v.roles.size⟩ ⟨v.roles.size + 1⟩
      ⟨v.readings.size⟩ a b := by
  let w := (v.linkSubtype a b).withBinary (.typeInheritance a b) a b
    "\x7b0\x7d is a kind of \x7b1\x7d"
  have hfirst : w.TellsKind ⟨v.factTypes.size⟩ ⟨v.roles.size⟩ ⟨v.roles.size + 1⟩
      ⟨v.readings.size⟩ a b := tellsKind_withBinary ..
  have hretains : w.Retains (v.withSubtype a b) := v.withSubtype_eq a b ▸
    ⟨w.grows_withReadings ⟨v.factTypes.size⟩ ⟨v.roleSequences.size⟩ _, fun f _ =>
      factType_withReadings_apply w FactType.roles (fun _ _ => rfl) _ _ _ f⟩
  exact hfirst.retains ((mem_factTypeIds_withBinary ..).2 (.inl rfl)) hretains

/-- A fact type about something else says nothing of kinds. -/
lemma statesKind_of_added (kind : FactTypeKind) (hother : ∀ c d, kind ≠ .typeInheritance c d)
    (hmem : f ∈ w.factTypeIds ↔ f = ⟨v.factTypes.size⟩ ∨ f ∈ v.factTypeIds)
    (hkind : (w.factType f).kind = if f = ⟨v.factTypes.size⟩ then kind else (v.factType f).kind)
    (hf : w.StatesKind f a b) : v.StatesKind f a b := by
  obtain ⟨hf, hab⟩ := hf
  rw [hkind] at hab
  split at hab
  · exact absurd hab (hother a b)
  · next hne => exact ⟨(hmem.1 hf).resolve_left hne, hab⟩

/-- A plain fact type says nothing about kinds. -/
lemma statesKind_withFactType {players : List (ObjectTypeId × Option String)}
    (hf : (v.withFactType players).StatesKind f a b) : v.StatesKind f a b := by
  refine statesKind_of_added .plain (fun _ _ => FactTypeKind.noConfusion) ?_ ?_ hf
  · rw [factTypeIds_withFactType, mem_factTypeIds_pushFactType]
  · rw [v.factType_withFactType_apply players FactType.kind fun _ _ => rfl, factType_pushFactType]
    exact apply_ite FactType.kind ..

/-- A link or a comparison says nothing about kinds. -/
lemma statesKind_withBinary {kind : FactTypeKind} (hother : ∀ c d, kind ≠ .typeInheritance c d)
    {first second : ObjectTypeId} {text : String}
    {links : List ((ObjectTypeId × RoleId) × FactTypeId)}
    {comparisons : List ((String × ObjectTypeId × ObjectTypeId) × FactTypeId)}
    (hf : { v.withBinary kind first second text with links, comparisons }.StatesKind f a b) :
    v.StatesKind f a b := by
  refine statesKind_of_added kind hother (v.mem_factTypeIds_withBinary kind first second text f)
    ?_ hf
  rw [factType_withBinary]
  exact apply_ite FactType.kind ..

/-- A change adds at most one fact type about kinds, and only by making one type a kind of
another. -/
lemma statesKind_of_change (h : Change v w) (hf : w.StatesKind f a b) :
    v.StatesKind f a b ∨ w = v.withSubtype a b ∧ f = ⟨v.factTypes.size⟩ := by
  have hsame : w.factTypeIds = v.factTypeIds →
      (w.factType f).kind = (v.factType f).kind → v.StatesKind f a b :=
    fun hids hkind => ⟨hids ▸ hf.1, hkind ▸ hf.2⟩
  cases h with
  | objectType kind isForward _ => exact .inl hf
  | declared isForward _ => exact .inl hf
  | @subtype c d _ _ _ _ =>
    refine (v.statesKind_withSubtype.1 hf).imp_right ?_
    rintro ⟨rfl, rfl, rfl⟩
    exact ⟨rfl, rfl⟩
  | @objectification e g _ _ =>
    exact .inl (hsame (factTypeIds_linkObjectification ..)
      (factType_linkObjectification_apply FactType.kind (fun _ _ => rfl) e g f))
  | factType players => exact .inl (statesKind_withFactType hf)
  | roleSequence refs => exact .inl hf
  | @reading g s text isNegative _ =>
    exact .inl (hsame (factTypeIds_pushReading ..)
      (factType_pushReading_apply FactType.kind (fun _ _ => rfl) g s text isNegative f))
  | roleName name _ => exact .inl hf
  | derivation g q =>
    exact .inl (hsame (factTypeIds_modifyFactType ..)
      (factType_modifyFactType_apply FactType.kind g (fun _ => by rfl) f))
  | query g => exact .inl hf
  | link _ => exact .inl (statesKind_withBinary (fun _ _ => FactTypeKind.noConfusion) hf)
  | comparison _ => exact .inl (statesKind_withBinary (fun _ _ => FactTypeKind.noConfusion) hf)
  | presenceConstraint s min max enforcement => exact .inl hf
  | restriction _ _ => exact .inl hf
  | ringConstraint role otherRole kinds => exact .inl hf

/-- Every fact type about kinds has a role for either type and a reading that says so. -/
def KindsTold (v : Vocabulary) : Prop :=
  ∀ {f a b}, v.StatesKind f a b → ∃ lower upper r, v.TellsKind f lower upper r a b

/-- A change keeps that fact types about kinds say so in their readings. -/
lemma kindsTold_of_change (h : Change v w) (hv : v.KindsTold) : w.KindsTold := by
  intro f a b hf
  rcases statesKind_of_change h hf with hf | ⟨rfl, rfl⟩
  · obtain ⟨lower, upper, r, htells⟩ := hv hf
    exact ⟨lower, upper, r, htells.retains hf.1 (retains_of_change h)⟩
  · exact ⟨_, _, _, tellsKind_withSubtype v a b⟩

/-- However a vocabulary has evolved, its fact types about kinds say so in their readings. -/
lemma Evolves.kindsTold {name : String} (h : Evolves { name } v) : v.KindsTold :=
  h.preserves (P := KindsTold) (fun {_ _ _} hf => absurd hf.1 (by simp)) kindsTold_of_change

end Vocabulary

end FactModel
