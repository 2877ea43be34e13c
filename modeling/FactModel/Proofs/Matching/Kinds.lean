import FactModel.Proofs.Matching.Candidates
import FactModel.Proofs.Matching.Verbatim
import FactModel.Proofs.Vocabulary.Kinds
set_option autoImplicit false

/-!
# Clauses about kinds

A clause that invokes a reading of a fact type about kinds has a mention for the lower type and one
for the upper type. Steps between types lead downwards from the one and upwards from the other, so
that the clause is true of the types of its mentions whenever it is ranked. Conversely a true clause
is ranked, because the first edge on the way up has a fact type of its own.

## Main results

* `FactModel.Context.kindOf_of_mem_rank` — what is ranked is true.
* `FactModel.Context.exists_mem_rank_of_kindOf` — what is true is ranked.
-/

namespace FactModel.Context

open Relation Vocabulary

variable {x : Context} {options : MatchOptions} {c : Clause}

/-! ## What is ranked is true -/

/-- A player takes the role of its own type, or it steps to a type above. -/
lemma eq_or_isSome_of_walkPlayer {s : Slot} {t : ObjectTypeId} {supertype : Option ObjectTypeId}
    (h : x.walkPlayer options s t = .ok supertype) :
    ∃ player, (x.mention s.mention).player = some player ∧ (player = t ∨ supertype.isSome) := by
  unfold walkPlayer at h
  split at h
  · cases h
  next player hplayer =>
  refine ⟨player, hplayer, ?_⟩
  split at h
  · next heq => exact .inl heq
  split at h
  · cases h
  split at h
  · cases h
    exact .inr rfl
  · cases h

/-- The player of a mention that takes a role of a fact type about kinds is the player of the role,
or below it if the role comes first, and else above it. -/
lemma along_of_align (hkinds : x.vocabulary.Inherits) {a : Alignment}
    (h : x.align options c a.reading = .ok a)
    (hkind : (x.vocabulary.factType a.factType).isTypeInheritance) {p : Placement}
    (hp : p ∈ a.placements) : ∃ player, (x.mention p.mention).player = some player ∧
      ((x.vocabulary.role p.role).ordinal = 0 →
        ReflTransGen x.vocabulary.IsKindOf player (x.vocabulary.playerOf p.role)) ∧
      ((x.vocabulary.role p.role).ordinal ≠ 0 →
        ReflTransGen x.vocabulary.IsKindOf (x.vocabulary.playerOf p.role) player) := by
  obtain ⟨-, hwalks, hcheck, hfactType, -, -⟩ := align_eq_ok_iff.1 h
  obtain ⟨s, -, htakes⟩ := hwalks.takes_of_mem hp
  obtain ⟨player, hplayer, hstep⟩ := eq_or_isSome_of_walkPlayer htakes.player
  rw [← htakes.mention_eq] at hplayer
  refine ⟨player, hplayer, ?_⟩
  rcases hstep with rfl | hstep
  · exact ⟨fun _ => .refl, fun _ => .refl⟩
  -- A step between types has been checked.
  have halong : x.stepsAlong p := by
    unfold checkSubtypeSteps at hcheck
    rw [← hfactType, hkind] at hcheck
    dsimp only at hcheck
    rw [Bool.not_true, if_neg Bool.false_ne_true] at hcheck
    split at hcheck
    · cases hcheck
    split at hcheck
    · next hall => exact List.all_eq_true.1 hall p (List.mem_filter.2 ⟨hp, hstep⟩)
    · cases hcheck
  unfold stepsAlong at halong
  rw [hplayer] at halong
  dsimp only at halong
  constructor
  · intro hfirst
    rw [if_pos hfirst] at halong
    exact hkinds.isSubtypeOf_iff.1 halong
  · intro hsecond
    rw [if_neg hsecond] at halong
    exact hkinds.isSubtypeOf_iff.1 halong

/-- A reading that is ranked is one of a fact type with a role for each mention. -/
lemma of_mem_rank (hx : x.vocabulary.WellFormed) {a : Alignment}
    (ha : a ∈ (x.rank options c).alignments) :
    x.align options c a.reading = .ok a ∧ a.reading ∈ x.vocabulary.readingIds ∧
      (x.vocabulary.factType a.factType).arity = c.mentions.length := by
  obtain ⟨htried, halign⟩ := mem_rank.1 ha
  have hcomparison : c.comparison? = none := by
    unfold triedReadings at htried
    split at htried
    · cases htried
    · next hnone => simpa using hnone
  have hreached := (mem_triedReadings_iff hx hcomparison halign).1 htried
  obtain ⟨hmem, hstated⟩ := List.mem_filter.1 (List.mem_filter.1 hreached).1
  refine ⟨halign, hmem, ?_⟩
  rw [(align_eq_ok_iff.1 halign).2.2.2.1]
  exact eq_of_beq (Bool.and_eq_true_iff.1 hstated).2

/-- A fact type about kinds says which type is a kind of which. -/
lemma statesKind_of_isTypeInheritance {v : Vocabulary} {f : FactTypeId}
    (h : (v.factType f).isTypeInheritance) : ∃ s t, v.StatesKind f s t := by
  have hf : f ∈ v.factTypeIds := Decidable.byContradiction fun hf => by
    rw [factType_of_not_mem hf] at h
    exact absurd h Bool.false_ne_true
  unfold FactType.isTypeInheritance at h
  split at h
  · next s t hkind => exact ⟨s, t, hf, hkind⟩
  · cases h

/-- Two placements for different roles of two are one for each. -/
lemma perm_of_roles {p q : Placement} {lower upper : RoleId} (hp : p.role ∈ [lower, upper])
    (hq : q.role ∈ [lower, upper]) (hne : p.role ≠ q.role) :
    ∃ p' q', [p, q].Perm [p', q'] ∧ p'.role = lower ∧ q'.role = upper := by
  rcases List.mem_pair.1 hp with hp | hp <;> rcases List.mem_pair.1 hq with hq | hq
  · exact absurd (hp.trans hq.symm) hne
  · exact ⟨p, q, .refl _, hp, hq⟩
  · exact ⟨q, p, .swap .., hq, hp⟩
  · exact absurd (hp.trans hq.symm) hne

/-- **What is ranked is true.** If a reading of a fact type about kinds is in the ranking of a
clause, then the clause has two mentions, and the type of the one that takes the first role is a
kind of the type of the other one. -/
theorem kindOf_of_mem_rank (hx : x.vocabulary.WellFormed) (hkinds : x.vocabulary.Inherits)
    (htold : x.vocabulary.KindsTold) {a : Alignment} (ha : a ∈ (x.rank options c).alignments)
    (hkind : (x.vocabulary.factType a.factType).isTypeInheritance) :
    ∃ p q s t, a.placements.Perm [p, q] ∧ (x.vocabulary.role p.role).ordinal = 0 ∧
      (x.vocabulary.role q.role).ordinal = 1 ∧ (x.mention p.mention).player = some s ∧
      (x.mention q.mention).player = some t ∧ TransGen x.vocabulary.IsKindOf s t := by
  obtain ⟨halign, hr, harity⟩ := of_mem_rank hx ha
  obtain ⟨-, hwalks, -, hfactType, -, -⟩ := align_eq_ok_iff.1 halign
  obtain ⟨b, d, hstates⟩ := statesKind_of_isTypeInheritance hkind
  obtain ⟨lower, upper, _, htells⟩ := htold hstates
  have hordinal := fun k r => (hx.roles_iff a.factType k r).1
  rw [htells.roles_eq] at hordinal
  -- There are two placements, for different roles.
  have hlength : a.placements.length = 2 := by
    have htaken : c.slots.length = a.placements.length := hwalks.takes.length_eq
    have hmentions : c.mentions.length = c.slots.length := List.length_map _
    rw [← htaken, ← hmentions]
    exact harity.symm.trans (congrArg List.length htells.roles_eq)
  obtain ⟨p, q, hplacements⟩ := List.length_eq_two.1 hlength
  have hrole : ∀ p ∈ a.placements, p.role ∈ [lower, upper] := by
    intro p hp
    obtain ⟨ref, href, hrole⟩ := hwalks.role_eq hp
    rw [← htells.roles_eq, hfactType, hrole]
    exact hx.ref_mem_roles hr (List.mem_of_getElem? href)
  have hp : p ∈ a.placements := hplacements ▸ List.mem_cons_self
  have hq : q ∈ a.placements := hplacements ▸ List.mem_cons_of_mem p List.mem_cons_self
  have hne : p.role ≠ q.role := by
    intro heq
    have hnodup : a.placements.Nodup :=
      List.Nodup.of_map (·.roleRef) (hwalks.roleRefs_eq ▸ hx.places_nodup _ hr)
    rw [hplacements] at hnodup
    have hsame := hwalks.eq_of_role_eq (hx.places_nodup _ hr) (hx.refs_nodup _ hr) hp hq heq
    exact (List.nodup_cons.1 hnodup).1 (hsame ▸ List.mem_cons_self)
  obtain ⟨p', q', hperm, hlower, hupper⟩ := perm_of_roles (hrole p hp) (hrole q hq) hne
  have hp' : p' ∈ a.placements := hplacements ▸ hperm.mem_iff.2 List.mem_cons_self
  have hq' : q' ∈ a.placements :=
    hplacements ▸ hperm.mem_iff.2 (List.mem_cons_of_mem p' List.mem_cons_self)
  have hzero : (x.vocabulary.role p'.role).ordinal = 0 := hlower ▸ (hordinal 0 lower rfl).2.2
  have hone : (x.vocabulary.role q'.role).ordinal = 1 := hupper ▸ (hordinal 1 upper rfl).2.2
  obtain ⟨s, hs, hbelow, -⟩ := along_of_align hkinds halign hkind hp'
  obtain ⟨t, ht, -, habove⟩ := along_of_align hkinds halign hkind hq'
  refine ⟨p', q', s, t, hplacements ▸ hperm, hzero, hone, hs, ht, ?_⟩
  have hsb : ReflTransGen x.vocabulary.IsKindOf s b :=
    htells.lower_player ▸ hlower ▸ hbelow hzero
  have hdt : ReflTransGen x.vocabulary.IsKindOf d t :=
    htells.upper_player ▸ hupper ▸ habove (hone ▸ Nat.one_ne_zero)
  have hbd : x.vocabulary.IsKindOf b d := hkinds.stated_iff.2 ⟨_, hstates⟩
  exact .trans_right hsb (.trans_left (.single hbd) hdt)

/-! ## What is true is ranked -/

/-- The words of a clause that says that the type of one mention is a kind of that of another. -/
def kindPhrases (m n : MentionId) : List Phrase :=
  [.slot ⟨m, []⟩, .word "is", .word "a", .word "kind", .word "of", .slot ⟨n, []⟩]

/-- A mention takes a role of a type below its own. -/
lemma walkPlayer_of_above (hkinds : x.vocabulary.Inherits) {n : MentionId} {s t : ObjectTypeId}
    (hn : (x.mention n).player = some t) (hst : ReflTransGen x.vocabulary.IsKindOf s t) :
    ∃ supertype, x.walkPlayer {} ⟨n, []⟩ s = .ok supertype := by
  unfold walkPlayer
  rw [hn]
  dsimp only
  split
  · exact ⟨none, rfl⟩
  refine ⟨some t, ?_⟩
  have habove : (x.vocabulary.supertypes s).contains t :=
    List.contains_iff_mem.2 (hkinds.mem_supertypes_iff.2 hst)
  obtain ⟨others, hothers⟩ := x.vocabulary.supertypes_eq_cons t
  rw [commonSupertype?, hothers, List.find?_cons_of_pos habove]
  rfl

/-- The clause that says that a type is a kind of another matches a reading that says so of the
first type and a type below the other. -/
lemma align_kindPhrases (hx : x.vocabulary.WellFormed) (hkinds : x.vocabulary.Inherits)
    {m n : MentionId} {s t u : ObjectTypeId} (hphrases : c.phrases = kindPhrases m n)
    (hm : (x.mention m).player = some s ∧ (x.mention m).leading = none ∧
      (x.mention m).trailing = none)
    (hn : (x.mention n).player = some t ∧ (x.mention n).leading = none ∧
      (x.mention n).trailing = none) {f : FactTypeId} {lower upper : RoleId} {r : ReadingId}
    (htells : x.vocabulary.TellsKind f lower upper r s u)
    (hut : ReflTransGen x.vocabulary.IsKindOf u t) : ∃ a, x.align {} c r = .ok a := by
  obtain ⟨supertype, hupper⟩ := walkPlayer_of_above hkinds hn.1 hut
  have hlower : x.walkPlayer {} ⟨m, []⟩ s = .ok none := by
    rw [walkPlayer, hm.1]
    exact if_pos rfl
  let p : Placement := ⟨m, lower, 0, [], [], none, none, none⟩
  let q : Placement := ⟨n, upper, 1, [], [], supertype, none, none⟩
  have hwalks : Walks x {} (x.vocabulary.readingRefs r) (x.vocabulary.reading r).tokens
      (!(x.vocabulary.reading r).isNegative) ⟨0, c.phrases⟩ [p, q] none := by
    rw [htells.tokens_eq, htells.refs_eq, hphrases]
    refine .place rfl rfl (walkRole_of_adjectives (congrArg _ hm.2.1.symm) (congrArg _ hm.2.2.symm)
      (htells.lower_player ▸ hlower) 0 0 _) (.word (.word (.word (.word ?_))))
    exact .place rfl rfl (walkRole_of_adjectives (congrArg _ hn.2.1.symm) (congrArg _ hn.2.2.symm)
      (htells.upper_player ▸ hupper) 1 5 _) .nil
  have hordinal : (x.vocabulary.role upper).ordinal = 1 :=
    ((hx.roles_iff f 1 upper).1 (htells.roles_eq ▸ rfl)).2.2
  have halong : x.stepsAlong q := by
    unfold stepsAlong
    rw [hn.1]
    dsimp only
    rw [if_neg (hordinal ▸ Nat.one_ne_zero), htells.upper_player]
    exact hkinds.isSubtypeOf_iff.2 hut
  have hcheck : x.checkSubtypeSteps f [p, q] = .ok () := by
    have hsteps : [p, q].filter (·.commonSupertype.isSome) <:+ [q] := by
      rw [List.filter_cons_of_neg Bool.false_ne_true]
      cases supertype with
      | none => exact List.nil_suffix
      | some _ => exact List.suffix_rfl
    unfold checkSubtypeSteps
    dsimp only
    split
    · rfl
    have hlength : ([p, q].filter (·.commonSupertype.isSome)).length ≤ 1 := hsteps.length_le
    rw [if_neg (Nat.not_lt.2 hlength), if_pos]
    exact List.all_eq_true.2 fun p hp => List.mem_singleton.1 (hsteps.subset hp) ▸ halong
  refine ⟨⟨f, r, (x.vocabulary.reading r).roleSequence, [p, q], none⟩, align_eq_ok_iff.2
    ⟨fun hnegative => ?_, hwalks, ?_, htells.factType_eq.symm, rfl, rfl⟩⟩
  · rw [htells.isNegative_eq] at hnegative
    exact absurd hnegative Bool.false_ne_true
  · rw [htells.factType_eq]
    exact hcheck

/-- **What is true is ranked.** If the type of one mention is a kind of that of another one, perhaps
through others, then the clause that says so has a reading of a fact type about kinds in its
ranking. -/
theorem exists_mem_rank_of_kindOf (hx : x.vocabulary.WellFormed) (hkinds : x.vocabulary.Inherits)
    (htold : x.vocabulary.KindsTold) {m n : MentionId} {s t : ObjectTypeId}
    (hphrases : c.phrases = kindPhrases m n)
    (hm : (x.mention m).player = some s ∧ (x.mention m).leading = none ∧
      (x.mention m).trailing = none)
    (hn : (x.mention n).player = some t ∧ (x.mention n).leading = none ∧
      (x.mention n).trailing = none) (hst : TransGen x.vocabulary.IsKindOf s t) :
    ∃ a ∈ (x.rank {} c).alignments, (x.vocabulary.factType a.factType).isTypeInheritance := by
  -- The first edge on the way up has a fact type, and the other mention is above its upper type.
  obtain ⟨u, hsu, hut⟩ := TransGen.head'_iff.1 hst
  obtain ⟨f, hf⟩ := hkinds.stated_iff.1 hsu
  obtain ⟨lower, upper, r, htells⟩ := htold hf
  obtain ⟨a, ha⟩ := align_kindPhrases hx hkinds hphrases hm hn htells hut
  obtain ⟨-, -, -, hfactType, hreading, -⟩ := align_eq_ok_iff.1 ha
  obtain rfl := hreading
  have hkind : (x.vocabulary.factType f).isTypeInheritance := by
    rw [FactType.isTypeInheritance, hf.2]
  have hstated : (x.vocabulary.factType f).isStated := by
    rw [FactType.isStated, hf.2]
  have hslots : c.slots = [⟨m, []⟩, ⟨n, []⟩] := by
    rw [Clause.slots, hphrases]
    rfl
  have hcomparison : c.comparison? = none := by
    rw [Clause.comparison?, hphrases]
    rfl
  have hreached : x.isReached {} c f := by
    unfold isReached
    rw [hslots]
    dsimp only
    rw [hm.1, htells.roles_eq, Option.any_some, List.any_cons, htells.lower_player,
      List.contains_iff_mem.2 (mem_relatedTypes_self _ s)]
    rfl
  rw [htells.factType_eq] at hfactType
  refine ⟨a, mem_rank.2 ⟨(mem_triedReadings_iff hx hcomparison ha).2 ?_, ha⟩, hfactType ▸ hkind⟩
  have harity : (x.vocabulary.factType f).arity = c.mentions.length := by
    rw [FactType.arity, htells.roles_eq, Clause.mentions, hslots]
    rfl
  refine List.mem_filter.2 ⟨List.mem_filter.2 ⟨htells.reading_mem, ?_⟩, ?_⟩
  · dsimp only
    rw [htells.factType_eq, hstated, harity, beq_self_eq_true]
    rfl
  · rw [htells.factType_eq]
    exact hreached

end FactModel.Context
