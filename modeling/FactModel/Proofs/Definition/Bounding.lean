import FactModel.Proofs.Definition.Constraining
set_option autoImplicit false

/-!
# Where bounds come from

A presence constraint has a bound because a quantifier states it about the roles that are spanned. A
bound that is set is never set anew: what disagrees with it is refused.

## Main definitions

* `FactModel.Vocabulary.IsBounded` — a presence constraint has a minimum or a maximum.
* `FactModel.Vocabulary.OwesBounds` — all bounds that a vocabulary has and another had not are told.
* `FactModel.Vocabulary.OwesEnforcement` — all constraints that a vocabulary has and another had not
  have the enforcement that is told.
* `FactModel.Context.TellsBounds` — a quantifier of a clause is about certain roles.
* `FactModel.Compile.Accounts` — a relation of vocabularies that what quantifiers tell accounts for.

## Main results

* `FactModel.Compile.Accounts.defineFactType` — what the clauses of a definition tell accounts for
  its constraints.
* `FactModel.Compile.owesBounds_defineFactType` — a definition sets bounds that its clauses tell.
* `FactModel.Compile.refuses_embed` — bounds that disagree are refused.
-/

namespace FactModel

open Attempt Compile Context

/-- What a quantifier says of one bound. -/
def Quantifier.frequency (q : Quantifier) : FrequencyBound → Option Nat
  | .maximum => q.max
  | .minimum => q.min

/-- One bound of a presence constraint. -/
def PresenceConstraint.frequency (c : PresenceConstraint) : FrequencyBound → Option Nat
  | .maximum => c.max
  | .minimum => c.min

/-- A fault that is about bounds that disagree. -/
def Fault.IsConflict (fault : Fault) : Prop :=
  ∃ b roles, fault = .conflictingFrequency b roles

namespace Vocabulary

variable {u v w : Vocabulary} {c p : PresenceConstraintId} {b : FrequencyBound} {n k : Nat}
  {Told Told' : List RoleId → Quantifier → Prop}

/-! ## Bounds of vocabularies -/

/-- A presence constraint has a certain minimum or maximum. -/
def IsBounded (v : Vocabulary) (p : PresenceConstraintId) (b : FrequencyBound) (n : Nat) : Prop :=
  p ∈ v.presenceConstraintIds ∧ (v.presenceConstraint p).frequency b = some n

/-- A presence constraint has the bounds that stand in it. -/
lemma isBounded_of_getElem? {c : PresenceConstraint} (hc : v.presenceConstraints[p.index]? = some c)
    (hn : c.frequency b = some n) : v.IsBounded p b n := by
  refine ⟨(mem_presenceConstraintIds v).2 (Array.getElem?_eq_some_iff.1 hc).1, ?_⟩
  rw [presenceConstraint, hc]
  exact hn

/-- What is bounded stays so while the vocabulary grows. -/
lemma IsBounded.grows (h : v.IsBounded p b n) (hw : v.Grows w) : w.IsBounded p b n := by
  have hgrows := hw.presenceConstraint h.1
  refine ⟨hw.mem_presenceConstraintIds h.1, ?_⟩
  cases b with
  | maximum => exact hgrows.max n h.2
  | minimum => exact hgrows.min n h.2

/-- A constraint has one minimum and one maximum at most. -/
lemma IsBounded.unique (h : v.IsBounded p b n) (h' : v.IsBounded p b k) : n = k :=
  Option.some.inj (h.2.symm.trans h'.2)

/-- The bounds that a quantifier states are bounds of the constraint that has them. -/
lemma Bounds.isBounded {rs : List RoleId} {q : Quantifier} (h : v.Bounds rs q p)
    (hn : q.frequency b = some n) : v.IsBounded p b n := by
  refine ⟨h.mem, ?_⟩
  cases b with
  | maximum => exact h.max n hn
  | minimum => exact h.min n hn

/-- Every bound was there before, or a quantifier tells it about the roles that are spanned. -/
def OwesBounds (v w : Vocabulary) (Told : List RoleId → Quantifier → Prop) : Prop :=
  ∀ p b n, w.IsBounded p b n → v.IsBounded p b n ∨
    ∃ rs q, Told rs q ∧ (w.spannedRoles p).Perm rs ∧ q.frequency b = some n

/-- Where no constraint changes, no bound is owed to what is told. -/
lemma owesBounds_of_eq (h : w.presenceConstraints = v.presenceConstraints) :
    v.OwesBounds w Told := by
  intro p b n hp
  rw [IsBounded, mem_presenceConstraintIds, presenceConstraint, h] at hp
  exact .inl ⟨(mem_presenceConstraintIds v).2 hp.1, hp.2⟩

/-- Bounds are owed to what more tells. -/
lemma OwesBounds.mono (h : v.OwesBounds w Told) (htold : ∀ rs q, Told rs q → Told' rs q) :
    v.OwesBounds w Told' := fun p b n hp =>
  (h p b n hp).imp_right fun ⟨rs, q, hq, hrest⟩ => ⟨rs, q, htold rs q hq, hrest⟩

/-- What is told in two stages is told in all. -/
lemma OwesBounds.trans (h : u.OwesBounds v Told) (h' : v.OwesBounds w Told) (hv : v.WellFormed)
    (hw : v.Grows w) : u.OwesBounds w Told := by
  intro p b n hp
  rcases h' p b n hp with hbefore | htold
  · rcases h p b n hbefore with hfirst | ⟨rs, q, hq, hperm, hn⟩
    · exact .inl hfirst
    · exact .inr ⟨rs, q, hq, hw.spannedRoles_eq hv hbefore.1 ▸ hperm, hn⟩
  · exact .inr htold

/-- Every constraint was there before, or a quantifier that tells something about the roles that are
spanned has its enforcement. -/
def OwesEnforcement (v w : Vocabulary) (Told : List RoleId → Quantifier → Prop) : Prop :=
  ∀ p ∈ w.presenceConstraintIds, p ∈ v.presenceConstraintIds ∨ ∃ rs q, Told rs q ∧
    (w.spannedRoles p).Perm rs ∧ (w.presenceConstraint p).enforcement = q.enforcement

/-- Where no constraint changes, no enforcement is owed to what is told. -/
lemma owesEnforcement_of_eq (h : w.presenceConstraints = v.presenceConstraints) :
    v.OwesEnforcement w Told := by
  intro p hp
  rw [mem_presenceConstraintIds, h, ← mem_presenceConstraintIds] at hp
  exact .inl hp

/-- Enforcements are owed to what more tells. -/
lemma OwesEnforcement.mono (h : v.OwesEnforcement w Told) (htold : ∀ rs q, Told rs q → Told' rs q) :
    v.OwesEnforcement w Told' := fun p hp =>
  (h p hp).imp_right fun ⟨rs, q, hq, hrest⟩ => ⟨rs, q, htold rs q hq, hrest⟩

/-- A constraint keeps its enforcement, so that what is told in two stages is told in all. -/
lemma OwesEnforcement.trans (h : u.OwesEnforcement v Told) (h' : v.OwesEnforcement w Told)
    (hv : v.WellFormed) (hw : v.Grows w) : u.OwesEnforcement w Told := by
  intro p hp
  rcases h' p hp with hbefore | htold
  · rcases h p hbefore with hfirst | ⟨rs, q, hq, hperm, henforcement⟩
    · exact .inl hfirst
    · refine .inr ⟨rs, q, hq, hw.spannedRoles_eq hv hbefore ▸ hperm, ?_⟩
      rw [(hw.presenceConstraint hbefore).enforcement_eq, henforcement]
  · exact .inr htold

/-- A bound that has been filled in was set before, or it is the one given. -/
lemma eq_of_orElse_eq_some {existing requested : Option Nat}
    (h : (existing <|> requested) = some n) : existing = some n ∨ requested = some n := by
  cases existing with
  | none => exact .inr h
  | some _ => exact .inl h

/-- Filling in bounds sets those that are given, of the constraint that they are given for. -/
lemma isBounded_of_withBounds {q : Quantifier}
    (h : (v.withBounds c q.min q.max).IsBounded p b n) :
    v.IsBounded p b n ∨ p = c ∧ q.frequency b = some n := by
  obtain ⟨hp, hn⟩ := h
  rw [presenceConstraintIds_withBounds] at hp
  rw [presenceConstraint_withBounds] at hn
  split at hn
  · next heq =>
    obtain ⟨rfl, -⟩ := heq
    cases b with
    | maximum => exact (eq_of_orElse_eq_some hn).imp (⟨hp, ·⟩) (⟨rfl, ·⟩)
    | minimum => exact (eq_of_orElse_eq_some hn).imp (⟨hp, ·⟩) (⟨rfl, ·⟩)
  · exact .inl ⟨hp, hn⟩

/-- A constraint that has been added has the bounds that it was given. -/
lemma isBounded_of_withPresenceConstraint {s : RoleSequenceId} {q : Quantifier}
    (h : (v.withPresenceConstraint s q.min q.max q.enforcement).IsBounded p b n) :
    v.IsBounded p b n ∨ p = ⟨v.presenceConstraints.size⟩ ∧ q.frequency b = some n := by
  obtain ⟨hp, hn⟩ := h
  rw [mem_presenceConstraintIds_withPresenceConstraint] at hp
  rw [presenceConstraint_withPresenceConstraint] at hn
  split at hn
  · next heq => cases b <;> exact .inr ⟨heq, hn⟩
  · next hne => exact .inl ⟨hp.resolve_left hne, hn⟩

/-- A constraint that has been added over new role references spans their roles. -/
lemma perm_spannedRoles_new (v : Vocabulary) (refs : List RoleRef) (q : Quantifier) :
    (((v.pushRoleSequence refs).withPresenceConstraint ⟨v.roleSequences.size⟩ q.min q.max
      q.enforcement).spannedRoles ⟨v.presenceConstraints.size⟩).Perm (refs.map (·.role)) := by
  have hroles : ((v.pushRoleSequence refs).roleSequence ⟨v.roleSequences.size⟩).roles =
      refs.map (·.role) := by
    rw [roleSequence_pushRoleSequence, if_pos rfl]
    rfl
  exact hroles ▸ (bounds_withPresenceConstraint (v := v.pushRoleSequence refs)
    ⟨v.roleSequences.size⟩ q).perm

end Vocabulary

namespace Context

variable {x y z : Context} {c : Clause} {rs : List RoleId} {q : Quantifier}

/-- A quantifier that states bounds stands on a mention of a clause of two or more, and these are
the roles of the other mentions. -/
def TellsBounds (x : Context) (c : Clause) (rs : List RoleId) (q : Quantifier) : Prop :=
  2 ≤ c.mentions.length ∧ ∃ m ∈ c.mentions, q ∈ (x.mention m).quantifier ∧
    q.isUnconstrained = false ∧ rs = x.otherRoles c m

/-- Embedding constraints does not change what quantifiers are about. -/
lemma SameButConstraints.tellsBounds_iff (h : x.SameButConstraints y) :
    y.TellsBounds c rs q ↔ x.TellsBounds c rs q := by
  have hquantifier : ∀ m, (y.mention m).quantifier = (x.mention m).quantifier := fun m => by
    obtain ⟨_, hm⟩ := h m
    rw [hm]
  simp only [TellsBounds, hquantifier, h.otherRoles_eq]

end Context

namespace Compile

variable {x y z : Context} {f : FactTypeId} {c d : Clause} {cs ds : List Clause}
  {refs : List RoleRef} {s : RoleSequenceId}

/-! ## Embedding bounds -/

/-- Bounding the players of different roles sets the bounds given, over these roles. -/
lemma owesBounds_boundPlayers (hx : x.Constrained) (hnodup : (refs.map (·.role)).Nodup)
    {q : Quantifier} {p : PresenceConstraintId} (h : (boundPlayers refs q).perform x = (.ok p, y)) :
    x.vocabulary.OwesBounds y.vocabulary fun rs q' => rs = refs.map (·.role) ∧ q' = q := by
  have hwf := hx.valid.consistent.toWellFormed
  have hgrows := ((defines_evolving.boundPlayers refs q x).of_perform h).1.retains.toGrows
  rw [boundPlayers, perform_get_bind] at h
  split at h
  · next existing hover =>
    obtain ⟨hp, hsame⟩ := Vocabulary.mem_of_presenceConstraintOver? hwf hover
    obtain ⟨_, z, hedit, hpure⟩ := perform_bind_eq_ok.1 h
    cases hpure
    obtain ⟨w, hrestrict, rfl⟩ := perform_within_eq_ok.1 hedit
    obtain ⟨-, -, rfl⟩ := Vocabulary.perform_restrictPresenceConstraint_eq_ok hrestrict
    have hspanned := (hx.constrained.presence p hp).nodup
    intro p' b n hbounded
    refine (Vocabulary.isBounded_of_withBounds hbounded).imp_right ?_
    rintro ⟨rfl, hn⟩
    refine ⟨_, q, ⟨rfl, rfl⟩, ?_, hn⟩
    rw [hgrows.spannedRoles_eq hwf hp]
    exact (List.perm_ext_iff_of_nodup hspanned hnodup).2
      ((Vocabulary.sameRoles_iff hspanned hnodup).1 hsame)
  · obtain ⟨s, z, hsequence, hconstraint⟩ := perform_bind_eq_ok.1 h
    cases hsequence
    cases hconstraint
    intro p' b n hbounded
    rcases Vocabulary.isBounded_of_withPresenceConstraint
      (v := x.vocabulary.pushRoleSequence refs) hbounded with hbefore | ⟨rfl, hn⟩
    · exact .inl hbefore
    · exact .inr ⟨_, q, ⟨rfl, rfl⟩, x.vocabulary.perm_spannedRoles_new refs q, hn⟩

/-- Bounding the players of different roles adds a constraint with the enforcement given, if it adds
one. -/
lemma owesEnforcement_boundPlayers {q : Quantifier} {p : PresenceConstraintId}
    (h : (boundPlayers refs q).perform x = (.ok p, y)) :
    x.vocabulary.OwesEnforcement y.vocabulary fun rs q' => rs = refs.map (·.role) ∧ q' = q := by
  rw [boundPlayers, perform_get_bind] at h
  split at h
  · obtain ⟨_, z, hedit, hpure⟩ := perform_bind_eq_ok.1 h
    cases hpure
    obtain ⟨w, hrestrict, rfl⟩ := perform_within_eq_ok.1 hedit
    obtain ⟨-, -, rfl⟩ := Vocabulary.perform_restrictPresenceConstraint_eq_ok hrestrict
    intro p' hp'
    change p' ∈ (x.vocabulary.withBounds _ q.min q.max).presenceConstraintIds at hp'
    rw [Vocabulary.presenceConstraintIds_withBounds] at hp'
    exact .inl hp'
  · obtain ⟨s, z, hsequence, hconstraint⟩ := perform_bind_eq_ok.1 h
    cases hsequence
    cases hconstraint
    intro p' hp'
    rcases (Vocabulary.mem_presenceConstraintIds_withPresenceConstraint
      (v := x.vocabulary.pushRoleSequence refs)).1 hp' with rfl | hbefore
    · refine .inr ⟨_, q, ⟨rfl, rfl⟩, x.vocabulary.perm_spannedRoles_new refs q, ?_⟩
      exact congrArg PresenceConstraint.enforcement
        (((x.vocabulary.pushRoleSequence refs).presenceConstraint_withPresenceConstraint _ q.min
          q.max
          q.enforcement _).trans (if_pos rfl))
    · exact .inl hbefore

/-! ## Accounting for constraints -/

/-- A relation of two vocabularies that what quantifiers tell about certain roles accounts for, as
it does where the players of these roles are bounded. -/
structure Accounts (R : Vocabulary → Vocabulary → (List RoleId → Quantifier → Prop) →
    Prop) : Prop where
  of_eq : ∀ {v w : Vocabulary} {Told : List RoleId → Quantifier → Prop},
    w.presenceConstraints = v.presenceConstraints → R v w Told
  mono : ∀ {v w : Vocabulary} {Told Told' : List RoleId → Quantifier → Prop}, R v w Told →
    (∀ rs q, Told rs q → Told' rs q) → R v w Told'
  trans : ∀ {u v w : Vocabulary} {Told : List RoleId → Quantifier → Prop}, R u v Told → R v w Told →
    v.WellFormed → v.Grows w → R u w Told
  boundPlayers : ∀ {x y : Context} {refs : List RoleRef} {q : Quantifier}
    {p : PresenceConstraintId},
    x.Constrained → (refs.map (·.role)).Nodup → (boundPlayers refs q).perform x = (.ok p, y) →
      R x.vocabulary y.vocabulary fun rs q' => rs = refs.map (·.role) ∧ q' = q

/-- What quantifiers tell accounts for bounds. -/
lemma accounts_owesBounds : Accounts Vocabulary.OwesBounds where
  of_eq := Vocabulary.owesBounds_of_eq
  mono := Vocabulary.OwesBounds.mono
  trans := Vocabulary.OwesBounds.trans
  boundPlayers hx hnodup h := owesBounds_boundPlayers hx hnodup h

/-- What quantifiers tell accounts for enforcements. -/
lemma accounts_owesEnforcement : Accounts Vocabulary.OwesEnforcement where
  of_eq := Vocabulary.owesEnforcement_of_eq
  mono := Vocabulary.OwesEnforcement.mono
  trans := Vocabulary.OwesEnforcement.trans
  boundPlayers _ _ h := owesEnforcement_boundPlayers h

/-- Embedding a ring constraint leaves presence constraints as they are. -/
lemma presenceConstraints_embedRingConstraint {o : Option RingConstraintId}
    (h : (embedRingConstraint c).perform x = (.ok o, y)) :
    y.vocabulary.presenceConstraints = x.vocabulary.presenceConstraints := by
  unfold embedRingConstraint at h
  split at h
  · cases h
    rfl
  obtain ⟨kinds, z, hkinds, hrest⟩ := perform_bind_eq_ok.1 h
  obtain ⟨-, rfl⟩ := perform_ofExcept_eq_ok.1 hkinds
  split at hrest
  · cases hrest
    rfl
  rw [perform_get_bind] at hrest
  dsimp only at hrest
  split at hrest
  · cases hrest
  split at hrest <;> cases hrest <;> rfl

namespace Accounts

variable {R : Vocabulary → Vocabulary → (List RoleId → Quantifier → Prop) → Prop} (hR : Accounts R)

include hR

/-- The quantifier of a mention is about the other roles. -/
lemma embedPresenceConstraint (hx : x.Constrained) (hnodup : (refs.map (·.role)).Nodup)
    {m : MentionId} {o : Option PresenceConstraintId}
    (h : (embedPresenceConstraint refs m).perform x = (.ok o, y)) :
    R x.vocabulary y.vocabulary fun rs q => q ∈ (x.mention m).quantifier ∧
      q.isUnconstrained = false ∧ ∃ r ∈ (x.mention m).role,
        rs = (refs.filter (·.role ≠ r)).map (·.role) := by
  rw [Compile.embedPresenceConstraint, perform_get_bind] at h
  dsimp only at h
  split at h
  · next q r hq hr =>
    split at h
    · cases h
      exact hR.of_eq rfl
    · next hstated =>
      obtain ⟨p, z, hbound, hrest⟩ := perform_bind_eq_ok.1 h
      cases hrest
      have hsub : ((refs.filter (·.role ≠ r)).map (·.role)).Sublist (refs.map (·.role)) :=
        List.filter_sublist.map _
      have htold := hR.boundPlayers hx (hnodup.sublist hsub) hbound
      refine hR.mono htold ?_
      rintro rs q' ⟨rfl, rfl⟩
      exact ⟨hq, Bool.eq_false_iff.2 hstated, r, hr, rfl⟩
  · cases h
    exact hR.of_eq rfl

/-- The quantifiers of mentions are about the other roles.

**Proof sketch.** By induction on the mentions, whose roles and quantifiers stay as they are. -/
lemma embedEach (hx : x.Constrained) (hf : f ∈ x.vocabulary.factTypeIds)
    (hlength : 2 ≤ refs.length) (hnodup : (refs.map (·.role)).Nodup)
    (hmem : ∀ r ∈ refs.map (·.role), r ∈ (x.vocabulary.factType f).roles) {ms : List MentionId}
    {ps : List PresenceConstraintId} (h : (embedEach refs ms).perform x = (.ok ps, y)) :
    R x.vocabulary y.vocabulary fun rs q => ∃ m ∈ ms, q ∈ (x.mention m).quantifier ∧
      q.isUnconstrained = false ∧ ∃ r ∈ (x.mention m).role,
        rs = (refs.filter (·.role ≠ r)).map (·.role) := by
  induction ms generalizing x ps with
  | nil =>
    cases h
    exact hR.of_eq rfl
  | cons m ms ih =>
    obtain ⟨o, z, hfirst, hrest⟩ := perform_bind_eq_ok.1 h
    obtain ⟨ps', w, hmore, hpure⟩ := perform_bind_eq_ok.1 hrest
    cases hpure
    have hz := (bounds_embedPresenceConstraint hx hf hlength hnodup hmem hfirst).1
    have hsame := (embeds_sameButConstraints.embedPresenceConstraint refs m (.refl x)).of_perform
      hfirst |>.1
    have hgrows := ((defines_evolving.embedPresenceConstraint refs m x).of_perform
      hfirst).1.retains.toGrows
    have hgrows' := ((defines_evolving.embedEach refs ms z).of_perform hmore).1.retains.toGrows
    refine hR.trans (hR.mono (hR.embedPresenceConstraint hx hnodup hfirst) fun rs q hq => ?_)
      (hR.mono (ih hz (hgrows.mem_factTypeIds hf) (fun r hr => (hgrows.factType hf).roles.subset
        (hmem r hr)) hmore) fun rs q hq => ?_) hz.valid.consistent.toWellFormed hgrows'
    · exact ⟨m, List.mem_cons_self, hq⟩
    · obtain ⟨n, hn, hq⟩ := hq
      obtain ⟨_, hmention⟩ := hsame n
      rw [hmention] at hq
      exact ⟨n, List.mem_cons_of_mem m hn, hq⟩

/-- What is accounted for when the presence constraints of a clause that states a reading are
embedded. -/
lemma embedPresenceConstraints (hx : x.Constrained) (hc : x.States f c s)
    {ps : List PresenceConstraintId} (h : (embedPresenceConstraints c).perform x = (.ok ps, y)) :
    R x.vocabulary y.vocabulary (x.TellsBounds c) := by
  rw [Compile.embedPresenceConstraints, hc.roleSequence_eq] at h
  dsimp only at h
  split at h
  · cases h
    exact hR.of_eq rfl
  · next hmany =>
    rw [perform_get_bind] at h
    refine hR.mono (hR.embedEach hx hc.factType_mem (hc.length_refs ▸ Nat.not_lt.1 hmany) hc.nodup
      hc.mem h) ?_
    rintro rs q ⟨m, hm, hq, hstated, r, hr, rfl⟩
    exact ⟨Nat.not_lt.1 hmany, m, hm, hq, hstated, (hc.otherRoles_eq hm hr).symm⟩

/-- What is accounted for when clauses that state readings are embedded.

**Proof sketch.** By induction on the clauses, which still state what they stated. -/
theorem embed (hx : x.Constrained) (hcs : ∀ c ∈ cs, ∃ s, x.States f c s) {u : Unit}
    (h : (cs.forM fun c => do
      let _ ← Compile.embedPresenceConstraints c
      let _ ← embedRingConstraint c).perform x = (.ok u, y)) :
    R x.vocabulary y.vocabulary fun rs q => ∃ c ∈ cs, x.TellsBounds c rs q := by
  induction cs generalizing x with
  | nil =>
    cases h
    exact hR.of_eq rfl
  | cons c cs ih =>
    rw [List.forM] at h
    obtain ⟨_, z, hfirst, hrest⟩ := perform_bind_eq_ok.1 h
    obtain ⟨s, hs⟩ := hcs c List.mem_cons_self
    obtain ⟨hz, -, hgives, hsame⟩ := adequate_embed_clause hx hs hfirst
    have hgrows := ((defines_evolving.embed cs z).of_perform hrest).1.retains.toGrows
    have htold : R x.vocabulary z.vocabulary (x.TellsBounds c) := by
      obtain ⟨ps, w, hpresence, hring⟩ := perform_bind_eq_ok.1 hfirst
      obtain ⟨o, _, hring, hpure⟩ := perform_bind_eq_ok.1 hring
      cases hpure
      have hw := (adequate_embedPresenceConstraints hx hs hpresence).1
      exact hR.trans (hR.embedPresenceConstraints hx hs hpresence)
        (hR.of_eq (presenceConstraints_embedRingConstraint hring))
        hw.valid.consistent.toWellFormed
        ((defines_evolving.embedRingConstraint c w).of_perform hring).1.retains.toGrows
    refine hR.trans (hR.mono htold fun rs q hq => ⟨c, List.mem_cons_self, hq⟩)
      (hR.mono (ih hz (fun d hd => ?_) hrest) ?_) hz.valid.consistent.toWellFormed hgrows
    · obtain ⟨t, ht⟩ := hcs d (List.mem_cons_of_mem c hd)
      exact ⟨t, ht.gives hgives fun _ _ => id⟩
    · rintro rs q ⟨d, hd, hq⟩
      exact ⟨d, List.mem_cons_of_mem c hd, hsame.tellsBounds_iff.1 hq⟩

/-- **What the clauses of a definition tell accounts for its constraints.** -/
theorem defineFactType {created : Bool} (hx : x.Ready cs) (hi : x.vocabulary.Inherits)
    (hc : x.vocabulary.Constrained)
    (h : (defineFactType cs).perform x = (.ok (f, created, ds), y)) :
    R x.vocabulary y.vocabulary fun rs q => ∃ d ∈ ds, y.TellsBounds d rs q := by
  obtain ⟨z, hstate, hembed⟩ := perform_defineFactType_eq_ok.1 h
  obtain ⟨hz, hspares, -, -, hstates⟩ := states_stateAll hx hi hc hstate
  have hsame := (embeds_sameButConstraints.embed ds (.refl z)).of_perform hembed |>.1
  have hgrows := ((defines_evolving.embed ds z).of_perform hembed).1.retains.toGrows
  refine hR.trans (hR.of_eq hspares.presenceConstraints_eq)
    (hR.mono (hR.embed hz hstates hembed) ?_) hz.valid.consistent.toWellFormed hgrows
  rintro rs q ⟨d, hd, hq⟩
  exact ⟨d, hd, hsame.tellsBounds_iff.2 hq⟩

end Accounts

/-- **Definitions set what their clauses tell.** After a definition every bound was there before, or
a quantifier of its clauses tells it about the roles that are spanned. -/
theorem owesBounds_defineFactType {created : Bool} (hx : x.Ready cs) (hi : x.vocabulary.Inherits)
    (hc : x.vocabulary.Constrained)
    (h : (defineFactType cs).perform x = (.ok (f, created, ds), y)) :
    x.vocabulary.OwesBounds y.vocabulary fun rs q => ∃ d ∈ ds, y.TellsBounds d rs q :=
  accounts_owesBounds.defineFactType hx hi hc h

/-! ## Refusing bounds -/

/-- Filling in bounds is refused where they disagree. -/
lemma failsBy_restrictPresenceConstraint (p : PresenceConstraintId) (min max : Option Nat) :
    (Vocabulary.restrictPresenceConstraint p min max).FailsBy Fault.IsConflict := by
  refine failsBy_get_bind fun v => ?_
  dsimp only
  split
  · exact .bind (failsBy_throw ⟨.maximum, _, rfl⟩) fun _ => by
      split
      · exact .bind (failsBy_throw ⟨.minimum, _, rfl⟩) fun _ => failsBy_modify _
      · exact failsBy_modify _
  split
  · exact .bind (failsBy_throw ⟨.minimum, _, rfl⟩) fun _ => failsBy_modify _
  · exact failsBy_modify _

/-- Bounding players fails only by bounds that disagree. -/
lemma failsBy_boundPlayers (refs : List RoleRef) (q : Quantifier) :
    (boundPlayers refs q).FailsBy Fault.IsConflict := by
  refine failsBy_get_bind fun x => ?_
  split
  · exact .bind (FailsBy.within (failsBy_restrictPresenceConstraint _ _ _)) fun _ => failsBy_pure _
  · exact .bind (FailsBy.within (failsBy_extend _ _)) fun _ => FailsBy.within (failsBy_extend _ _)

/-- Embedding a presence constraint fails only by bounds that disagree. -/
lemma failsBy_embedPresenceConstraint (refs : List RoleRef) (m : MentionId) :
    (embedPresenceConstraint refs m).FailsBy Fault.IsConflict := by
  refine failsBy_get_bind fun x => ?_
  dsimp only
  split
  · split
    · exact failsBy_pure _
    · exact .bind (failsBy_boundPlayers _ _) fun _ => .bind (failsBy_modify _) fun _ =>
        failsBy_pure _
  · exact failsBy_pure _

/-- Embedding presence constraints fails only by bounds that disagree. -/
lemma failsBy_embedEach (refs : List RoleRef) (ms : List MentionId) :
    (embedEach refs ms).FailsBy Fault.IsConflict := by
  induction ms with
  | nil => exact failsBy_pure _
  | cons m ms ih =>
    exact .bind (failsBy_embedPresenceConstraint refs m) fun _ => .bind ih fun _ => failsBy_pure _

/-- Presence constraints are refused for bounds that disagree only. -/
lemma failsBy_embedPresenceConstraints (c : Clause) :
    (embedPresenceConstraints c).FailsBy Fault.IsConflict := by
  unfold embedPresenceConstraints
  split
  · exact failsBy_pure _
  split
  · exact failsBy_pure _
  · exact failsBy_get_bind fun x => failsBy_embedEach _ _

/-- Where no clause has qualifiers, constraints are refused for bounds that disagree only. -/
lemma failsBy_embed (hcs : ∀ c ∈ cs, c.qualifiers = []) :
    (cs.forM fun c => do
      let _ ← embedPresenceConstraints c
      let _ ← embedRingConstraint c : Compile Unit).FailsBy Fault.IsConflict := by
  refine .forM fun c hc => .bind (failsBy_embedPresenceConstraints c) fun _ => ?_
  rw [embedRingConstraint, hcs c hc]
  exact .bind (failsBy_pure _) fun _ => failsBy_pure _

/-- What clauses tell disagrees with a bound of a vocabulary, or with what else they tell. -/
def Disagrees (v : Vocabulary) (x : Context) (cs : List Clause) : Prop :=
  ∃ c ∈ cs, ∃ rs q b n, x.TellsBounds c rs q ∧ q.frequency b = some n ∧
    ((∃ p k, v.IsBounded p b k ∧ (v.spannedRoles p).Perm rs ∧ k ≠ n) ∨
      ∃ d ∈ cs, ∃ rs' q' k, x.TellsBounds d rs' q' ∧ rs'.Perm rs ∧ q'.frequency b = some k ∧ k ≠ n)

/-- What a clause tells is embedded once it is adequate. -/
lemma exists_isBounded_of_adequate (h : x.Adequate c) {rs : List RoleId} {q : Quantifier}
    (htells : x.TellsBounds c rs q) {b : FrequencyBound} {n : Nat} (hn : q.frequency b = some n) :
    ∃ p, x.vocabulary.IsBounded p b n ∧ (x.vocabulary.spannedRoles p).Perm rs := by
  obtain ⟨hlength, m, hm, hq, hstated, rfl⟩ := htells
  obtain ⟨p, hp⟩ := h hlength m hm q hq hstated
  exact ⟨p, hp.isBounded hn, hp.perm⟩

/-- **Bounds that disagree are refused.** Clauses that disagree with bounds that are there, or with
each other, cannot be embedded.

**Proof sketch.** Were they embedded, then a constraint over the roles would have the one bound and
a constraint over the same roles the other. But there is only one. -/
theorem refuses_embed {v : Vocabulary} (hx : x.Constrained) (hv : v.WellFormed)
    (hvx : v.Grows x.vocabulary) (hcs : ∀ c ∈ cs, ∃ s, x.States f c s) (h : Disagrees v x cs) :
    ∃ fault y, (cs.forM fun c => do
      let _ ← embedPresenceConstraints c
      let _ ← embedRingConstraint c).perform x = (.error fault, y) := by
  rcases hperform : (cs.forM fun c => do
      let _ ← embedPresenceConstraints c
      let _ ← embedRingConstraint c : Compile Unit).perform x with ⟨fault | u, y⟩
  · exact ⟨fault, y, rfl⟩
  · obtain ⟨hy, hadequate⟩ := adequate_embed hx hcs hperform
    have hsame := (embeds_sameButConstraints.embed cs (.refl x)).of_perform hperform |>.1
    have hgrows := ((defines_evolving.embed cs x).of_perform hperform).1.retains.toGrows
    obtain ⟨c, hc, rs, q, b, n, htells, hn, hother⟩ := h
    obtain ⟨p, hp, hperm⟩ :=
      exists_isBounded_of_adequate (hadequate c hc) (hsame.tellsBounds_iff.2 htells) hn
    have hbounded : ∃ p' k, y.vocabulary.IsBounded p' b k ∧
        (y.vocabulary.spannedRoles p').Perm rs ∧ k ≠ n := by
      rcases hother with ⟨p', k, hp', hperm', hne⟩ | ⟨d, hd, rs', q', k, htells', hrs, hk, hne⟩
      · have hlater := hvx.trans hgrows
        refine ⟨p', k, hp'.grows hlater, ?_, hne⟩
        rwa [hlater.spannedRoles_eq hv hp'.1]
      · obtain ⟨p', hp', hperm'⟩ :=
          exists_isBounded_of_adequate (hadequate d hd) (hsame.tellsBounds_iff.2 htells') hk
        exact ⟨p', k, hp', hperm'.trans hrs, hne⟩
    obtain ⟨p', k, hp', hperm', hne⟩ := hbounded
    have hsamePresence : p' = p := hy.constrained.presence_unique p' hp'.1 p hp.1 fun r =>
      (hperm'.trans hperm.symm).mem_iff
    exact absurd ((hsamePresence ▸ hp').unique hp) hne

end Compile

end FactModel
