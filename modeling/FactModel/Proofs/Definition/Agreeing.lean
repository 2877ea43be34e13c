import Mathlib.Data.List.Find
import FactModel.Proofs.Definition.Bounding
import FactModel.Proofs.Definition.Naming
set_option autoImplicit false

/-!
# What is stated agrees with what is there

A clause that invokes a reading is adjusted to it, and its constraints are embedded. It is accepted
if the role names and the bounds that it states agree with those that are there, and it changes
nothing but role sequences if they are there already.

## Main definitions

* `FactModel.Vocabulary.Accepts` — the bounds of a quantifier agree with those that are there.
* `FactModel.Vocabulary.AddsSequences` — nothing but role sequences is added.
* `FactModel.Context.RingStated`, `FactModel.Context.RingSettled` — the qualifiers of a clause state
  a ring constraint, and it is there.

## Main results

* `FactModel.Compile.exists_adjust` — a clause whose role names agree is adjusted.
* `FactModel.Compile.exists_embed` — a clause whose bounds agree is embedded.
* `FactModel.Compile.adjust_of_named`, `FactModel.Compile.embed_of_adequate` — what is there already
  changes nothing.
-/

namespace FactModel

open Attempt Compile Context

/-! ## Changes that do not fail -/

/-- A change that fails by nothing yields a value. -/
lemma Attempt.exists_of_failsBy {σ α : Type} {attempt : Attempt σ α}
    (h : attempt.FailsBy fun _ => False) (s : σ) : ∃ a t, attempt.perform s = (.ok a, t) := by
  rcases hperform : attempt.perform s with ⟨fault | a, t⟩
  · exact (h s fault t hperform).elim
  · exact ⟨a, t, rfl⟩

namespace Vocabulary

variable {u v w : Vocabulary} {rs ss : List RoleId} {q : Quantifier} {p : PresenceConstraintId}

/-- Nothing but role sequences is added. -/
def AddsSequences (v w : Vocabulary) : Prop :=
  ∃ more, w = { v with roleSequences := v.roleSequences ++ more }

/-- Adding nothing adds nothing but role sequences. -/
lemma AddsSequences.refl (v : Vocabulary) : v.AddsSequences v :=
  ⟨#[], by rw [Array.append_empty]⟩

/-- Adding a role sequence adds nothing else. -/
lemma addsSequences_pushRoleSequence (v : Vocabulary) (refs : List RoleRef) :
    v.AddsSequences (v.pushRoleSequence refs) :=
  ⟨#[⟨⟨v.roleSequences.size⟩, refs⟩], by rw [pushRoleSequence, Array.push_eq_append]⟩

/-- The bounds that a quantifier states agree with those of the constraints over these roles. -/
def Accepts (v : Vocabulary) (rs : List RoleId) (q : Quantifier) : Prop :=
  ∀ p b n k, v.IsBounded p b n → (v.spannedRoles p).Perm rs → q.frequency b = some k → n = k

/-- Bounds that agree do not conflict. -/
lemma Accepts.not_conflicting (h : v.Accepts rs q) (hp : p ∈ v.presenceConstraintIds)
    (hperm : (v.spannedRoles p).Perm rs) :
    conflicting (v.presenceConstraint p).min q.min = false ∧
      conflicting (v.presenceConstraint p).max q.max = false := by
  have hagree : ∀ b, conflicting ((v.presenceConstraint p).frequency b)
    (q.frequency b) = false := by
    intro b
    cases hn : (v.presenceConstraint p).frequency b with
    | none => rfl
    | some n =>
      cases hk : q.frequency b with
      | none => rfl
      | some k =>
        obtain rfl := h p b n k ⟨hp, hn⟩ hperm hk
        simp [conflicting]
  exact ⟨hagree .minimum, hagree .maximum⟩

/-- Filling in bounds that do not conflict succeeds. -/
lemma perform_restrictPresenceConstraint {min max : Option Nat}
    (hmin : conflicting (v.presenceConstraint p).min min = false)
    (hmax : conflicting (v.presenceConstraint p).max max = false) :
    (restrictPresenceConstraint p min max).perform v = (.ok ⟨⟩, v.withBounds p min max) := by
  rw [restrictPresenceConstraint, perform_get_bind]
  dsimp only
  rw [hmax, if_neg Bool.false_ne_true, hmin, if_neg Bool.false_ne_true]
  rfl

/-- A constraint that has the bounds stated is left as it is when they are filled in. -/
lemma withBounds_eq_self (hv : v.Constrained) (h : v.Bounds rs q p) :
    v.withBounds p q.min q.max = v := by
  have hmin : ((v.presenceConstraint p).min <|> q.min) = (v.presenceConstraint p).min := by
    cases hq : q.min with
    | none => cases (v.presenceConstraint p).min <;> rfl
    | some n => rw [h.min n hq]; rfl
  have hmax : ((v.presenceConstraint p).max <|> q.max) = (v.presenceConstraint p).max := by
    cases hq : q.max with
    | none => cases (v.presenceConstraint p).max <;> rfl
    | some n => rw [h.max n hq]; rfl
  have hmandatory :
      isMandatory (v.presenceConstraint p).min = (v.presenceConstraint p).isMandatory := by
    rw [Bool.eq_iff_iff, isMandatory_iff, (hv.presence p h.mem).isMandatory_iff]
  have hsame : v.presenceConstraints.modify p.index (fun constraint =>
      { constraint with
        min := constraint.min <|> q.min, max := constraint.max <|> q.max
        isMandatory := isMandatory (constraint.min <|> q.min) }) = v.presenceConstraints := by
    refine Array.ext_getElem? fun i => ?_
    rw [Array.getElem?_modify]
    split
    · next heq =>
      subst heq
      have hget : v.presenceConstraints[p.index]? = some (v.presenceConstraint p) := by
        have hlt := (mem_presenceConstraintIds v).1 h.mem
        rw [presenceConstraint, Array.getElem?_eq_getElem hlt]
        rfl
      rw [hget, Option.map_some, hmin, hmax, hmandatory]
    · rfl
  rw [withBounds, hsame]

/-- The roles of a relation are found over the same players. -/
lemma MatchesAs.relatedPair?_eq (h : v.MatchesAs w) {roles : List RoleId}
    (hroles : ∀ r ∈ roles, r ∈ v.roleIds) : w.relatedPair? roles = v.relatedPair? roles := by
  induction roles with
  | nil => rfl
  | cons role others ih =>
    have hothers : ∀ r ∈ others, r ∈ v.roleIds :=
      fun r hr => hroles r (List.mem_cons_of_mem role hr)
    have hfind :
      others.find? (fun o => (w.commonSupertype? (w.playerOf role) (w.playerOf o)).isSome) =
        others.find? fun o => (v.commonSupertype? (v.playerOf role) (v.playerOf o)).isSome := by
      refine List.find?_congr fun o ho => ?_
      rw [h.commonSupertype?_eq, h.playerOf_eq role (hroles role List.mem_cons_self),
        h.playerOf_eq o (hothers o ho)]
    rw [relatedPair?, relatedPair?, hfind, ih hothers]

end Vocabulary

/-! ## Adjusting -/

namespace Context

variable {x y : Context} {c : Clause} {f : FactTypeId} {s : RoleSequenceId}

/-- Mentions that have roles have role references for them. -/
lemma exists_residualRefs (c : Clause) {ms : List MentionId}
    (h : ∀ m ∈ ms, (x.mention m).role.isSome) : ∃ refs, x.residualRefs c ms = .ok refs := by
  induction ms with
  | nil => exact ⟨[], rfl⟩
  | cons m ms ih =>
    obtain ⟨refs, hrefs⟩ := ih fun n hn => h n (List.mem_cons_of_mem m hn)
    obtain ⟨r, hr⟩ := Option.isSome_iff_exists.1 (h m List.mem_cons_self)
    rw [residualRefs, hr]
    dsimp only
    rw [hrefs]
    exact ⟨_, rfl⟩

/-- Mentions that fill a fact type have roles. -/
lemma Fills.role_isSome {ms : List MentionId} (h : x.Fills f ms) :
    ∀ m ∈ ms, (x.mention m).role.isSome := by
  intro m hm
  obtain ⟨r, hr, -⟩ := h.role m hm
  exact Option.isSome_iff_exists.2 ⟨r, hr⟩

/-- The qualifiers of a clause, if there are any, state a ring constraint over two roles of it. -/
def RingStated (x : Context) (c : Clause) : Prop :=
  c.qualifiers = [] ∨ (∃ kinds, c.qualifiers.mapM RingKind.ofName = .ok kinds) ∧
    (x.vocabulary.relatedPair? (x.rolesOf c)).isSome

/-- The qualifiers of a clause, if there are any, state a ring constraint that is there. -/
def RingSettled (x : Context) (c : Clause) : Prop :=
  c.qualifiers = [] ∨ (∃ kinds, c.qualifiers.mapM RingKind.ofName = .ok kinds) ∧
    ∃ r s, x.vocabulary.relatedPair? (x.rolesOf c) = some (r, s) ∧
      (x.vocabulary.ringConstraintOver? r s).isSome

end Context

namespace Compile

variable {x y z : Context} {c d : Clause} {f : FactTypeId} {s : RoleSequenceId}
  {refs : List RoleRef} {m : MentionId} {ms : List MentionId}

/-- Placing mentions in a role sequence does not fail. -/
lemma failsBy_placeMentions (s : RoleSequenceId) (ms : List MentionId) :
    (placeMentions s ms).FailsBy fun _ => False :=
  .forM fun _ _ => failsBy_modify _

/-- What follows once roles have been named: the clause has the roles in order, or it gets a role
sequence of its own. -/
lemma exists_adjust_named (hs : c.roleSequence = some s)
    (hroles : ∀ m ∈ c.mentions, (x.mention m).role.isSome)
    (hnamed : (c.mentions.forM nameMatchedRole).perform x = (.ok ⟨⟩, y))
    (hsame : ∀ m ∈ c.mentions, (y.mention m).role = (x.mention m).role) :
    ∃ d z, (adjust c).perform x = (.ok d, z) ∧ y.vocabulary.AddsSequences z.vocabulary := by
  rw [adjust, hs]
  dsimp only
  rw [perform_bind, hnamed]
  dsimp only
  rw [perform_get_bind]
  split
  · exact ⟨c, y, rfl, .refl _⟩
  · obtain ⟨refs, hrefs⟩ := exists_residualRefs (x := y) c fun m (hm : m ∈ c.mentions) => by
      rw [hsame m hm]
      exact hroles m hm
    rw [hrefs]
    obtain ⟨_, z, hplaces⟩ := exists_of_failsBy
      (failsBy_placeMentions ⟨y.vocabulary.roleSequences.size⟩ c.mentions)
      { y with vocabulary := y.vocabulary.pushRoleSequence refs }
    have hvocabulary : y.vocabulary.pushRoleSequence refs = z.vocabulary :=
      ((leads_placeMentions_same _ c.mentions _).of_perform hplaces).1
    refine ⟨_, z, perform_bind_eq_ok.2 ⟨refs, y, rfl, perform_bind_eq_ok.2 ⟨_, _, rfl,
      perform_bind_eq_ok.2 ⟨_, z, hplaces, rfl⟩⟩⟩, hvocabulary ▸ ?_⟩
    exact y.vocabulary.addsSequences_pushRoleSequence refs

/-- **A clause whose role names agree is adjusted.** -/
theorem exists_adjust (hs : c.roleSequence.isSome) (hfills : x.Fills f c.mentions)
    (hagree : ∀ m ∈ c.mentions, ∀ r name, x.Declares m r name →
      ∀ k ∈ (x.vocabulary.role r).name, k = name) : ∃ d z, (adjust c).perform x = (.ok d, z) := by
  obtain ⟨s, hs⟩ := Option.isSome_iff_exists.1 hs
  obtain ⟨w, hnamed⟩ := exists_nameMatchedRoles hfills.nodup hagree
  obtain ⟨d, z, hadjust, -⟩ := exists_adjust_named hs hfills.role_isSome hnamed fun _ _ => rfl
  exact ⟨d, z, hadjust⟩

/-- A clause the role names of which are there adds no more than a role sequence. -/
theorem adjust_of_named (hs : c.roleSequence.isSome) (hfills : x.Fills f c.mentions)
    (hnamed : ∀ m ∈ c.mentions, ∀ r name, x.Declares m r name →
      (x.vocabulary.role r).name = some name) :
    ∃ d z, (adjust c).perform x = (.ok d, z) ∧ x.vocabulary.AddsSequences z.vocabulary := by
  obtain ⟨s, hs⟩ := Option.isSome_iff_exists.1 hs
  exact exists_adjust_named hs hfills.role_isSome (nameMatchedRoles_of_named hnamed) fun _ _ => rfl

/-! ## Embedding bounds that agree -/

/-- Bounds that agree are embedded. -/
lemma exists_boundPlayers (hx : x.Constrained) (hnodup : (refs.map (·.role)).Nodup) {q : Quantifier}
    (hagree : x.vocabulary.Accepts (refs.map (·.role)) q) :
    ∃ p y, (boundPlayers refs q).perform x = (.ok p, y) := by
  rw [boundPlayers, perform_get_bind]
  split
  · next p hover =>
    obtain ⟨hp, hsame⟩ :=
      Vocabulary.mem_of_presenceConstraintOver? hx.valid.consistent.toWellFormed hover
    have hspanned := (hx.constrained.presence p hp).nodup
    have hperm := (List.perm_ext_iff_of_nodup hspanned hnodup).2
      ((Vocabulary.sameRoles_iff hspanned hnodup).1 hsame)
    obtain ⟨hmin, hmax⟩ := hagree.not_conflicting hp hperm
    have hrestrict := Vocabulary.perform_restrictPresenceConstraint hmin hmax
    exact ⟨p, _, perform_bind_eq_ok.2 ⟨⟨⟩, _, perform_within_eq_ok.2 ⟨_, hrestrict, rfl⟩, rfl⟩⟩
  · exact ⟨_, _, rfl⟩

/-- The bounds of a mention are embedded if they agree with those over the other roles. -/
lemma exists_embedPresenceConstraint (hx : x.Constrained) (hnodup : (refs.map (·.role)).Nodup)
    (hagree : ∀ q ∈ (x.mention m).quantifier, q.isUnconstrained = false → ∀ r ∈ (x.mention m).role,
      x.vocabulary.Accepts ((refs.filter (·.role ≠ r)).map (·.role)) q) :
    ∃ o y, (embedPresenceConstraint refs m).perform x = (.ok o, y) := by
  rw [embedPresenceConstraint, perform_get_bind]
  dsimp only
  split
  · next q r hq hr =>
    split
    · exact ⟨none, x, rfl⟩
    · next hstated =>
      have hsub : ((refs.filter (·.role ≠ r)).map (·.role)).Sublist (refs.map (·.role)) :=
        List.filter_sublist.map _
      obtain ⟨p, y, hbound⟩ := exists_boundPlayers hx (hnodup.sublist hsub)
        (hagree q hq (Bool.eq_false_iff.2 hstated) r hr)
      exact ⟨some p, _, perform_bind_eq_ok.2 ⟨p, y, hbound, rfl⟩⟩
  · exact ⟨none, x, rfl⟩

/-- The bounds of mentions of different roles are embedded if each agrees with what is there.

**Proof sketch.** By induction on the mentions. What the first one bounds is over roles without its
own one, and for any other mention this role is among the others: the two bound different roles. -/
lemma exists_embedEach (hx : x.Constrained) (hf : f ∈ x.vocabulary.factTypeIds)
    (hlength : 2 ≤ refs.length) (hnodup : (refs.map (·.role)).Nodup)
    (hmem : ∀ r ∈ refs.map (·.role), r ∈ (x.vocabulary.factType f).roles)
    (hms : (ms.map fun m => (x.mention m).role).Nodup)
    (hroles : ∀ m ∈ ms, ∀ r ∈ (x.mention m).role, r ∈ refs.map (·.role))
    (hagree : ∀ m ∈ ms, ∀ q ∈ (x.mention m).quantifier, q.isUnconstrained = false →
      ∀ r ∈ (x.mention m).role,
        x.vocabulary.Accepts ((refs.filter (·.role ≠ r)).map (·.role)) q) :
    ∃ ps y, (embedEach refs ms).perform x = (.ok ps, y) := by
  induction ms generalizing x with
  | nil => exact ⟨[], x, rfl⟩
  | cons m ms ih =>
    rw [List.map_cons, List.nodup_cons] at hms
    obtain ⟨o, y, hfirst⟩ :=
      exists_embedPresenceConstraint hx hnodup (hagree m List.mem_cons_self)
    obtain ⟨hy, -⟩ := bounds_embedPresenceConstraint hx hf hlength hnodup hmem hfirst
    have howes := accounts_owesBounds.embedPresenceConstraint hx hnodup hfirst
    have hsame := (embeds_sameButConstraints.embedPresenceConstraint refs m (.refl x)).of_perform
      hfirst |>.1
    have hgrows := ((defines_evolving.embedPresenceConstraint refs m x).of_perform
      hfirst).1.retains.toGrows
    have hrole : ∀ n, (y.mention n).role = (x.mention n).role := fun n => by
      obtain ⟨_, hn⟩ := hsame n
      rw [hn]
    have hquantifier : ∀ n, (y.mention n).quantifier = (x.mention n).quantifier := fun n => by
      obtain ⟨_, hn⟩ := hsame n
      rw [hn]
    simp only [← hrole] at hms
    obtain ⟨ps, z, hrest⟩ := ih hy (hgrows.mem_factTypeIds hf)
      (fun r hr => (hgrows.factType hf).roles.subset (hmem r hr)) hms.2
      (fun n hn r hr => hroles n (List.mem_cons_of_mem m hn) r (hrole n ▸ hr))
      fun n hn q hq hstated r hr => by
        rw [hquantifier] at hq
        intro p b k l hp hperm hl
        have hrn : (x.mention n).role = some r := hrole n ▸ hr
        rcases howes p b k hp with hbefore | ⟨rs, q', ⟨-, -, r', hr', rfl⟩, hperm', -⟩
        · rw [hgrows.spannedRoles_eq hx.valid.consistent.toWellFormed hbefore.1] at hperm
          exact hagree n (List.mem_cons_of_mem m hn) q hq hstated r hrn p b k l hbefore hperm hl
        · -- The role of the first mention would be among its own other roles.
          have hne : r' ≠ r := fun heq => hms.1 (List.mem_map.2 ⟨n, hn, by
            rw [hrole n, hrole m, hrn, Option.mem_def.1 hr', heq]⟩)
          obtain ⟨ref, href, rfl⟩ := List.mem_map.1 (hroles m List.mem_cons_self r' hr')
          have hmem' : ref.role ∈ (refs.filter (·.role ≠ r)).map (·.role) :=
            List.mem_map_of_mem (List.mem_filter.2 ⟨href, decide_eq_true hne⟩)
          obtain ⟨ref', href', heq⟩ := List.mem_map.1 ((hperm.symm.trans hperm').subset hmem')
          exact absurd heq (of_decide_eq_true (List.mem_filter.1 href').2)
    exact ⟨_, z, perform_bind_eq_ok.2 ⟨o, y, hfirst, perform_bind_eq_ok.2 ⟨ps, z, hrest, rfl⟩⟩⟩

/-- Embedding presence constraints gives no roles. -/
lemma givesRoles_embedPresenceConstraints (hx : x.Constrained) {ps : List PresenceConstraintId}
    (h : (embedPresenceConstraints c).perform x = (.ok ps, y)) :
    x.GivesRoles (fun _ => False) y ∧ y.rolesOf c = x.rolesOf c := by
  have hsame := (embeds_sameButConstraints.embedPresenceConstraints c (.refl x)).of_perform h |>.1
  refine ⟨⟨((leads_embedPresenceConstraints hx.valid c).of_perform h).1,
    ((embeds_rolesOnly.embedPresenceConstraints c) (.refl x)).of_perform h |>.1⟩, ?_⟩
  unfold rolesOf
  congr 1
  funext m
  obtain ⟨_, hm⟩ := hsame m
  rw [hm]

/-- Whether the qualifiers of a clause can be embedded depends on its roles only. -/
lemma exists_embedRingConstraint_iff (hc : x.States f c s) :
    (∃ o y, (embedRingConstraint c).perform x = (.ok o, y)) ↔ x.RingStated c := by
  rw [RingStated, hc.rolesOf_eq]
  unfold embedRingConstraint
  split
  · next hempty =>
    rw [List.isEmpty_iff] at hempty
    exact ⟨fun _ => .inl hempty, fun _ => ⟨none, x, rfl⟩⟩
  next hqualifiers =>
  rw [List.isEmpty_iff] at hqualifiers
  simp only [hqualifiers, false_or, hc.roleSequence_eq]
  cases hkinds : c.qualifiers.mapM RingKind.ofName with
  | error fault =>
    constructor
    · rintro ⟨o, y, h⟩
      cases h
    · rintro ⟨⟨_, ⟨⟩⟩, -⟩
  | ok kinds =>
    have hrun : ∀ next : List RingKind → Compile (Option RingConstraintId),
        (MonadExcept.ofExcept (.ok kinds) >>= next).perform x = (next kinds).perform x :=
      fun next => rfl
    rw [hrun, perform_get_bind]
    cases x.vocabulary.relatedPair? (x.vocabulary.roleSequence s).roles with
    | none =>
      constructor
      · rintro ⟨o, y, h⟩
        cases h
      · rintro ⟨-, ⟨⟩⟩
    | some pair =>
      refine ⟨fun _ => ⟨⟨kinds, rfl⟩, rfl⟩, fun _ => ?_⟩
      obtain ⟨r, r'⟩ := pair
      dsimp only
      split <;> exact ⟨_, _, rfl⟩

/-- **A clause whose bounds agree is embedded.** -/
theorem exists_embed (hx : x.Constrained) (hc : x.States f c s)
    (hagree : ∀ rs q, x.TellsBounds c rs q → x.vocabulary.Accepts rs q) (hring : x.RingStated c) :
    ∃ y, ([c].forM fun d => do
      let _ ← embedPresenceConstraints d
      let _ ← embedRingConstraint d).perform x = (.ok ⟨⟩, y) := by
  obtain ⟨ps, y, hpresence⟩ : ∃ ps y, (embedPresenceConstraints c).perform x = (.ok ps, y) := by
    rw [embedPresenceConstraints, hc.roleSequence_eq]
    dsimp only
    split
    · exact ⟨[], x, rfl⟩
    · next hmany =>
      rw [perform_get_bind]
      have hlength := Nat.not_lt.1 hmany
      refine exists_embedEach hx hc.factType_mem (hc.length_refs ▸ hlength) hc.nodup hc.mem
        hc.fills.nodup (fun m hm r hr => ?_) fun m hm q hq hstated r hr => ?_
      · change r ∈ (x.vocabulary.roleSequence s).roles
        rw [← hc.rolesOf_eq]
        exact List.mem_filterMap.2 ⟨m, hm, hr⟩
      · rw [← hc.otherRoles_eq hm hr]
        exact hagree _ q ⟨hlength, m, hm, hq, hstated, rfl⟩
  obtain ⟨hgives, hroles⟩ := givesRoles_embedPresenceConstraints hx hpresence
  have hgrows := hgives.grows
  have hreadings := ((embeds_sameReadings.embedPresenceConstraints c x).of_perform hpresence).1
  have hring' : y.RingStated c := by
    rwa [RingStated, hroles, (hreadings.matchesAs hgrows
      hx.valid.consistent.toWellFormed).relatedPair?_eq]
    intro r hr
    rw [hc.rolesOf_eq] at hr
    exact (hx.valid.consistent.mem_roles.1 (hc.mem r hr)).1
  obtain ⟨o, z, hembed⟩ :=
    (exists_embedRingConstraint_iff (hc.gives hgives fun _ _ => id)).2 hring'
  refine ⟨z, perform_bind_eq_ok.2 ⟨⟨⟩, z, ?_, rfl⟩⟩
  exact perform_bind_eq_ok.2 ⟨ps, y, hpresence, perform_bind_eq_ok.2 ⟨o, z, hembed, rfl⟩⟩

/-! ## Embedding bounds that are there -/

/-- Bounds that are there are left as they are. -/
lemma boundPlayers_of_bounds (hx : x.Constrained) (hnodup : (refs.map (·.role)).Nodup)
    {q : Quantifier}
    {p : PresenceConstraintId} (h : x.vocabulary.Bounds (refs.map (·.role)) q p) :
    (boundPlayers refs q).perform x = (.ok p, x) := by
  have hsame : ∀ p' ∈ x.vocabulary.presenceConstraintIds,
      Vocabulary.sameRoles (x.vocabulary.spannedRoles p') (refs.map (·.role)) ↔ p' = p := by
    intro p' hp'
    have hspanned := (hx.constrained.presence p' hp').nodup
    rw [Vocabulary.sameRoles_iff hspanned hnodup]
    constructor
    · intro hiff
      refine hx.constrained.presence_unique p' hp' p h.mem fun r => ?_
      rw [hiff, h.perm.mem_iff]
    · rintro rfl r
      exact h.perm.mem_iff
  rw [boundPlayers, perform_get_bind]
  split
  · next p' hover =>
    obtain ⟨hp', hsame'⟩ :=
      Vocabulary.mem_of_presenceConstraintOver? hx.valid.consistent.toWellFormed hover
    obtain rfl := (hsame p' hp').1 hsame'
    have hconflicts : x.vocabulary.Accepts (refs.map (·.role)) q := by
      intro p'' b n k hn hperm hk
      have hp'' : p'' = p' := hx.constrained.presence_unique p'' hn.1 p' hp' fun r => by
        rw [hperm.mem_iff, h.perm.mem_iff]
      exact (hp'' ▸ hn).unique (h.isBounded hk)
    obtain ⟨hmin, hmax⟩ := hconflicts.not_conflicting hp' h.perm
    have hrestrict := Vocabulary.perform_restrictPresenceConstraint hmin hmax
    rw [Vocabulary.withBounds_eq_self hx.constrained h] at hrestrict
    exact perform_bind_eq_ok.2 ⟨⟨⟩, x, perform_within_eq_ok.2 ⟨_, hrestrict, rfl⟩, rfl⟩
  · next hnone =>
    exact absurd ((hsame p h.mem).2 rfl)
      (Vocabulary.not_sameRoles_of_presenceConstraintOver? hnone h.mem)

/-- Mentions whose bounds are there change nothing of the vocabulary. -/
lemma embedEach_of_bounds (hx : x.Constrained) (hnodup : (refs.map (·.role)).Nodup)
    (hbounds : ∀ m ∈ ms, ∀ q ∈ (x.mention m).quantifier, q.isUnconstrained = false →
      ∀ r ∈ (x.mention m).role,
        ∃ p, x.vocabulary.Bounds ((refs.filter (·.role ≠ r)).map (·.role)) q p) :
    ∃ ps y, (embedEach refs ms).perform x = (.ok ps, y) ∧ y.vocabulary = x.vocabulary := by
  induction ms generalizing x with
  | nil => exact ⟨[], x, rfl, rfl⟩
  | cons m ms ih =>
    obtain ⟨o, y, hfirst, hy⟩ : ∃ o y, (embedPresenceConstraint refs m).perform x = (.ok o, y) ∧
        (y = x ∨ ∃ p, y = x.modifyMention m ({ · with presenceConstraint := some p })) := by
      rw [embedPresenceConstraint, perform_get_bind]
      dsimp only
      split
      · next q r hq hr =>
        split
        · exact ⟨none, x, rfl, .inl rfl⟩
        · next hstated =>
          obtain ⟨p, hp⟩ := hbounds m List.mem_cons_self q hq (Bool.eq_false_iff.2 hstated) r hr
          have hsub : ((refs.filter (·.role ≠ r)).map (·.role)).Sublist (refs.map (·.role)) :=
            List.filter_sublist.map _
          have hbound := boundPlayers_of_bounds hx (hnodup.sublist hsub) hp
          exact ⟨some p, _, perform_bind_eq_ok.2 ⟨p, x, hbound, rfl⟩, .inr ⟨p, rfl⟩⟩
      · exact ⟨none, x, rfl, .inl rfl⟩
    have hnoted : y.Constrained ∧ y.vocabulary = x.vocabulary ∧ x.SameButConstraints y := by
      rcases hy with rfl | ⟨p, rfl⟩
      · exact ⟨hx, rfl, .refl _⟩
      · refine ⟨constrained_note hx m p, rfl, fun n => ?_⟩
        rw [mention_modifyMention]
        split
        · next heq => exact ⟨some p, by rw [heq.1]⟩
        · exact ⟨_, rfl⟩
    obtain ⟨hy, hvocabulary, hsame⟩ := hnoted
    obtain ⟨ps, z, hrest, hz⟩ := ih hy fun n hn q hq hstated r hr => by
      obtain ⟨_, hn'⟩ := hsame n
      rw [hn'] at hq hr
      rw [hvocabulary]
      exact hbounds n (List.mem_cons_of_mem m hn) q hq hstated r hr
    exact ⟨_, z, perform_bind_eq_ok.2 ⟨o, y, hfirst, perform_bind_eq_ok.2 ⟨ps, z, hrest, rfl⟩⟩,
      hz.trans hvocabulary⟩

/-- A ring constraint that is there is kept. -/
lemma embedRingConstraint_of_settled (hc : x.States f c s) (h : x.RingSettled c) :
    ∃ o, (embedRingConstraint c).perform x = (.ok o, x) := by
  rw [RingSettled, hc.rolesOf_eq] at h
  unfold embedRingConstraint
  split
  · exact ⟨none, rfl⟩
  next hqualifiers =>
  rw [List.isEmpty_iff] at hqualifiers
  obtain ⟨⟨kinds, hkinds⟩, r, r', hpair, hover⟩ := h.resolve_left hqualifiers
  obtain ⟨p, hp⟩ := Option.isSome_iff_exists.1 hover
  refine ⟨some p, perform_bind_eq_ok.2 ⟨kinds, x, perform_ofExcept_eq_ok.2 ⟨hkinds, rfl⟩, ?_⟩⟩
  rw [hc.roleSequence_eq]
  dsimp only
  rw [perform_get_bind, hpair]
  dsimp only
  rw [hp]
  rfl

/-- Once the qualifiers of a clause have been embedded, their ring constraint is there. -/
lemma settled_of_embedRingConstraint (hx : x.Constrained) (hc : x.States f c s)
    {o : Option RingConstraintId} (h : (embedRingConstraint c).perform x = (.ok o, y)) :
    y.RingSettled c := by
  obtain hempty | ⟨hkinds, -⟩ := (exists_embedRingConstraint_iff hc).1 ⟨o, y, h⟩
  · exact .inl hempty
  by_cases hempty : c.qualifiers = []
  · exact .inl hempty
  refine .inr ⟨hkinds, ?_⟩
  rw [embedRingConstraint, if_neg (by rwa [List.isEmpty_iff])] at h
  obtain ⟨kinds, x', hkinds', hrest⟩ := perform_bind_eq_ok.1 h
  obtain ⟨-, rfl⟩ := perform_ofExcept_eq_ok.1 hkinds'
  rw [hc.roleSequence_eq] at hrest
  dsimp only at hrest
  rw [perform_get_bind] at hrest
  split at hrest
  · cases hrest
  next r r' hpair =>
  rw [← hc.rolesOf_eq] at hpair
  split at hrest
  · next p hover =>
    cases hrest
    exact ⟨r, r', hpair, by rw [hover]; rfl⟩
  · cases hrest
    have hmatches : x'.vocabulary.MatchesAs { x'.vocabulary with
        ringConstraints := x'.vocabulary.ringConstraints.push
          ⟨⟨x'.vocabulary.ringConstraints.size⟩, r, r', kinds⟩ } :=
      SameReadings.matchesAs ⟨rfl, rfl, rfl⟩ (x'.vocabulary.grows_pushRingConstraint _)
        hx.valid.consistent.toWellFormed
    refine ⟨r, r', (hmatches.relatedPair?_eq fun q hq => ?_).trans hpair, ?_⟩
    · change q ∈ x'.rolesOf c at hq
      rw [hc.rolesOf_eq] at hq
      exact (hx.valid.consistent.mem_roles.1 (hc.mem q hq)).1
    rw [Vocabulary.ringConstraintOver?, Option.isSome_map, List.find?_isSome]
    refine ⟨_, Array.mem_toList_iff.2 (Array.mem_push_self), ?_⟩
    simp [Vocabulary.sameRoles]

/-- **What is there already changes nothing.** Constraints that a clause states are left as they are
if they are there. -/
theorem embed_of_adequate (hx : x.Constrained) (hc : x.States f c s) (hadequate : x.Adequate c)
    (hring : x.RingSettled c) :
    ∃ y, ([c].forM fun d => do
      let _ ← embedPresenceConstraints d
      let _ ← embedRingConstraint d).perform x = (.ok ⟨⟩, y) ∧ y.vocabulary = x.vocabulary := by
  obtain ⟨ps, y, hpresence, hy⟩ : ∃ ps y, (embedPresenceConstraints c).perform x = (.ok ps, y) ∧
      y.vocabulary = x.vocabulary := by
    rw [embedPresenceConstraints, hc.roleSequence_eq]
    dsimp only
    split
    · exact ⟨[], x, rfl, rfl⟩
    · next hmany =>
      rw [perform_get_bind]
      refine embedEach_of_bounds hx hc.nodup fun m hm q hq hstated r hr => ?_
      rw [← hc.otherRoles_eq hm hr]
      exact hadequate (Nat.not_lt.1 hmany) m hm q hq hstated
  obtain ⟨hgives, hroles⟩ := givesRoles_embedPresenceConstraints hx hpresence
  obtain ⟨o, hembed⟩ := embedRingConstraint_of_settled (hc.gives hgives fun _ _ => id)
    (by rwa [RingSettled, hroles, hy])
  refine ⟨y, perform_bind_eq_ok.2 ⟨⟨⟩, y, ?_, rfl⟩, hy⟩
  exact perform_bind_eq_ok.2 ⟨ps, y, hpresence, perform_bind_eq_ok.2 ⟨o, y, hembed, rfl⟩⟩

end Compile

end FactModel
