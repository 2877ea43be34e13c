import FactModel.Proofs.Definition.Redefining
set_option autoImplicit false

/-!
# What a clause that invokes a reading records

A definition by one clause that invokes a reading goes through just in case the role names and the
bounds that the clause states agree with those that are there, and then these are recorded, and
nothing else is. What one clause records agrees with another clause just in case the two are
compatible, which is symmetric. So two such clauses can define one after the other in both orders or
in neither.

## Main definitions

* `FactModel.Vocabulary.Spans` — a presence constraint spans certain roles.
* `FactModel.Vocabulary.IsBoundedOver` — a constraint over certain roles has a minimum or a maximum.
* `FactModel.Context.Agrees` — what a clause states agrees with a vocabulary.
* `FactModel.Context.Compatible` — what two clauses state agrees.
* `FactModel.Compile.Records` — what a clause states has been recorded in a vocabulary.

## Main results

* `FactModel.Compile.Invokes.exists_defineFactType_iff` — a clause defines just in case it agrees.
* `FactModel.Compile.Invokes.records` — a definition records what its clause states.
* `FactModel.Compile.Records.agrees_iff` — another clause agrees then just in case it did before and
  is compatible.
-/

namespace FactModel

open Attempt Compile Context

/-! ## Bounds over roles -/

namespace Vocabulary

variable {v w : Vocabulary} {rs ss : List RoleId} {q : Quantifier} {p : PresenceConstraintId}
  {b : FrequencyBound} {n k : Nat}

/-- A presence constraint over exactly these roles has a certain minimum or maximum. -/
def IsBoundedOver (v : Vocabulary) (rs : List RoleId) (b : FrequencyBound) (n : Nat) : Prop :=
  ∃ p, v.IsBounded p b n ∧ (v.spannedRoles p).Perm rs

/-- A presence constraint spans exactly these roles. -/
structure Spans (v : Vocabulary) (p : PresenceConstraintId) (rs : List RoleId) : Prop where
  mem : p ∈ v.presenceConstraintIds
  perm : (v.spannedRoles p).Perm rs

/-- Roles over which there is a bound are spanned by a constraint. -/
lemma IsBoundedOver.exists_spans (h : v.IsBoundedOver rs b n) : ∃ p, v.Spans p rs := by
  obtain ⟨p, hp, hperm⟩ := h
  exact ⟨p, hp.1, hperm⟩

/-- Roles are spanned by one constraint at most. -/
lemma Spans.unique {p' : PresenceConstraintId} (h : v.Spans p rs) (h' : v.Spans p' rs)
    (hv : v.Constrained) : p = p' :=
  hv.presence_unique p h.mem p' h'.mem fun _ => (h.perm.trans h'.perm.symm).mem_iff

/-- A constraint spans the same roles in a vocabulary that has grown. -/
lemma Spans.grows (h : v.Spans p rs) (hw : v.Grows w) (hv : v.WellFormed) : w.Spans p rs :=
  ⟨hw.mem_presenceConstraintIds h.mem, hw.spannedRoles_eq hv h.mem ▸ h.perm⟩

/-- A quantifier is accepted exactly where its bounds agree with those over the roles. -/
lemma accepts_iff :
    v.Accepts rs q ↔ ∀ b n k, v.IsBoundedOver rs b n → q.frequency b = some k → n = k := by
  constructor
  · rintro h b n k ⟨p, hp, hperm⟩ hk
    exact h p b n k hp hperm hk
  · intro h p b n k hp hperm hk
    exact h b n k ⟨p, hp, hperm⟩ hk

/-- A bound over roles is one over them in any order. -/
lemma IsBoundedOver.perm (h : v.IsBoundedOver rs b n) (hperm : rs.Perm ss) :
    v.IsBoundedOver ss b n := by
  obtain ⟨p, hp, hrs⟩ := h
  exact ⟨p, hp, hrs.trans hperm⟩

/-- A bound over roles is one in a vocabulary that has grown. -/
lemma IsBoundedOver.grows (h : v.IsBoundedOver rs b n) (hw : v.Grows w) (hv : v.WellFormed) :
    w.IsBoundedOver rs b n := by
  obtain ⟨p, hp, hrs⟩ := h
  refine ⟨p, hp.grows hw, ?_⟩
  rwa [hw.spannedRoles_eq hv hp.1]

/-- Over the same roles there is one minimum and one maximum at most. -/
lemma IsBoundedOver.unique (h : v.IsBoundedOver rs b n) (h' : v.IsBoundedOver rs b k)
    (hv : v.Constrained) : n = k := by
  obtain ⟨p, hp, hrs⟩ := h
  obtain ⟨p', hp', hrs'⟩ := h'
  obtain rfl := hv.presence_unique p hp.1 p' hp'.1 fun r => (hrs.trans hrs'.symm).mem_iff
  exact hp.unique hp'

/-- What bounds the roles that a constraint spans are its own bounds. -/
lemma frequency_eq_some_iff (hv : v.Constrained) (hp : p ∈ v.presenceConstraintIds) :
    (v.presenceConstraint p).frequency b = some n ↔ v.IsBoundedOver (v.spannedRoles p) b n := by
  constructor
  · exact fun hn => ⟨p, ⟨hp, hn⟩, .refl _⟩
  · rintro ⟨p', hp', hperm⟩
    obtain rfl := hv.presence_unique p' hp'.1 p hp fun r => hperm.mem_iff
    exact hp'.2

/-- Constraints are the same over the same roles where the bounds over all roles are. -/
lemma bounds_eq_of_isBoundedOver_iff (hv : v.Constrained) (hw : w.Constrained)
    (h : ∀ rs b n, v.IsBoundedOver rs b n ↔ w.IsBoundedOver rs b n)
    (hp : p ∈ v.presenceConstraintIds)
    {p' : PresenceConstraintId} (hp' : p' ∈ w.presenceConstraintIds)
    (hperm : (v.spannedRoles p).Perm (w.spannedRoles p')) :
    (w.presenceConstraint p').min = (v.presenceConstraint p).min ∧
      (w.presenceConstraint p').max = (v.presenceConstraint p).max ∧
        (w.presenceConstraint p').isMandatory = (v.presenceConstraint p).isMandatory := by
  have hfrequency : ∀ b,
    (w.presenceConstraint p').frequency b = (v.presenceConstraint p).frequency b := by
    intro b
    ext n
    rw [frequency_eq_some_iff hw hp', frequency_eq_some_iff hv hp, ← h]
    exact ⟨fun hn => hn.perm hperm.symm, fun hn => hn.perm hperm⟩
  have hmin : (w.presenceConstraint p').min = (v.presenceConstraint p).min := hfrequency .minimum
  refine ⟨hmin, hfrequency .maximum, ?_⟩
  rw [Bool.eq_iff_iff, (hw.presence p' hp').isMandatory_iff, (hv.presence p hp).isMandatory_iff,
    hmin]

/-- Where constraints are spared, bounds are the same over the same roles. -/
lemma SparesConstraints.isBoundedOver_iff (h : v.SparesConstraints w) (hgrows : v.Grows w)
    (hv : v.WellFormed) : w.IsBoundedOver rs b n ↔ v.IsBoundedOver rs b n := by
  refine ⟨?_, fun hbefore => hbefore.grows hgrows hv⟩
  rintro ⟨p, hp, hperm⟩
  have hold : v.IsBounded p b n := by
    rwa [IsBounded, mem_presenceConstraintIds, presenceConstraint, h.presenceConstraints_eq,
      ← presenceConstraint, ← mem_presenceConstraintIds] at hp
  exact ⟨p, hold, hgrows.spannedRoles_eq hv hold.1 ▸ hperm⟩

/-- Nothing but role sequences and constraints has changed. -/
def Constrains (v w : Vocabulary) : Prop :=
  ∃ roleSequences presenceConstraints ringConstraints,
    w = { v with roleSequences, presenceConstraints, ringConstraints }

/-- Changing nothing changes nothing but constraints. -/
lemma Constrains.refl (v : Vocabulary) : v.Constrains v :=
  ⟨_, _, _, rfl⟩

instance : Trans Constrains Constrains Constrains where
  trans := by
    rintro u v w ⟨_, _, _, rfl⟩ ⟨_, _, _, rfl⟩
    exact ⟨_, _, _, rfl⟩

/-- Where nothing but constraints changes, roles are as they were. -/
lemma Constrains.role_eq (h : v.Constrains w) (r : RoleId) : w.role r = v.role r := by
  obtain ⟨_, _, _, rfl⟩ := h
  rfl

end Vocabulary

namespace Context

variable {v : Vocabulary} {x y z : Context} {c d : Clause}

/-- A quantifier that states bounds has a minimum or a maximum. -/
lemma TellsBounds.exists_frequency {rs : List RoleId} {q : Quantifier} (h : x.TellsBounds c rs q) :
    ∃ b n, q.frequency b = some n := by
  obtain ⟨-, m, -, -, hstated, -⟩ := h
  cases hmin : q.min with
  | some n => exact ⟨.minimum, n, hmin⟩
  | none =>
    cases hmax : q.max with
    | some n => exact ⟨.maximum, n, hmax⟩
    | none =>
      rw [Quantifier.isUnconstrained, hmin, hmax] at hstated
      cases hstated

/-- A clause whose mentions have different roles tells one thing only about the same roles. -/
lemma Fills.tellsBounds_unique {f : FactTypeId} (hc : x.Fills f c.mentions) {rs rs' : List RoleId}
    {q q' : Quantifier} (h : x.TellsBounds c rs q) (h' : x.TellsBounds c rs' q')
    (hperm : rs.Perm rs') :
    q = q' := by
  obtain ⟨-, m, hm, hq, -, rfl⟩ := h
  obtain ⟨-, m', hm', hq', -, rfl⟩ := h'
  suffices hsame : m = m' by
    subst hsame
    exact Option.some.inj (hq.symm.trans hq')
  by_contra hne
  obtain ⟨r, hr, -⟩ := hc.role m hm
  -- The first mention is not the second one, so that its role is among the others of that.
  have hmem : r ∈ x.otherRoles c m' :=
    List.mem_filterMap.2 ⟨m, List.mem_filter.2 ⟨hm, decide_eq_true hne⟩, hr⟩
  obtain ⟨n, hn, hrole⟩ := List.mem_filterMap.1 (hperm.mem_iff.2 hmem)
  obtain ⟨hn, hother⟩ := List.mem_filter.1 hn
  exact of_decide_eq_true hother
    (List.inj_on_of_nodup_map hc.nodup hn hm (hrole.trans (Option.mem_def.1 hr).symm))

/-! ## Agreement -/

/-- The role names and the bounds that a clause states agree with those of a vocabulary, and its
qualifiers can state a ring constraint. -/
structure Agrees (v : Vocabulary) (x : Context) (c : Clause) : Prop where
  names : ∀ m ∈ c.mentions, ∀ r name, x.Declares m r name → ∀ k ∈ (v.role r).name, k = name
  bounds : ∀ rs q, x.TellsBounds c rs q → v.Accepts rs q
  ring : x.RingStated c

/-- The role names and the bounds that two clauses state agree. -/
structure Compatible (x : Context) (c : Clause) (y : Context) (d : Clause) : Prop where
  names : ∀ m ∈ c.mentions, ∀ n ∈ d.mentions, ∀ r name name',
    x.Declares m r name → y.Declares n r name' → name = name'
  bounds : ∀ rs rs' q q', x.TellsBounds c rs q → y.TellsBounds d rs' q' → rs.Perm rs' →
    ∀ b n k, q.frequency b = some n → q'.frequency b = some k → n = k

/-- Being compatible goes both ways. -/
lemma Compatible.symm (h : x.Compatible c y d) : y.Compatible d x c where
  names n hn m hm r name name' hy hx := (h.names m hm n hn r name' name hx hy).symm
  bounds rs rs' q q' hy hx hperm b n k hn hk :=
    (h.bounds rs' rs q' q hx hy hperm.symm b k n hk hn).symm

/-- Whether a ring constraint can be stated is settled by what a clause says and by types. -/
lemma SaysAs.ringStated_iff (h : x.SaysAs c y d)
    (hroles : ∀ r ∈ x.rolesOf c, r ∈ x.vocabulary.roleIds)
    (hmatches : x.vocabulary.MatchesAs y.vocabulary) : y.RingStated d ↔ x.RingStated c := by
  unfold RingStated
  rw [h.qualifiers_eq, h.rolesOf_eq, hmatches.relatedPair?_eq hroles]

end Context

namespace Compile

variable {v w : Vocabulary} {x y z : Context} {c d : Clause} {a : Alignment} {f : FactTypeId}
  {s : RoleSequenceId}

/-! ## Definitions by clauses that invoke readings -/

/-- Embedding constraints changes nothing but role sequences and constraints. -/
lemma embeds_constrains : Embeds (KeepsThrough Vocabulary.Constrains) := by
  refine embeds_through Vocabulary.Constrains.refl (fun _ _ => leads_extend ⟨_, _, _, rfl⟩ trivial)
    (fun _ _ _ _ _ => leads_extend ⟨_, _, _, rfl⟩ trivial) (fun v k min max => ?_)
    fun _ _ _ _ => leads_extend ⟨_, _, _, rfl⟩ trivial
  refine leads_get_bind ?_
  dsimp only
  split
  · exact leads_throw_bind (.refl v)
  split
  · exact leads_throw_bind (.refl v)
  · exact leads_set ⟨_, _, _, rfl⟩ trivial

/-- A clause that has been embedded states a ring constraint if it has qualifiers. -/
lemma ringStated_of_embed (hx : x.Constrained) (hc : x.States f c s) {u : Unit}
    (h : ([c].forM fun d => do
      let _ ← embedPresenceConstraints d
      let _ ← embedRingConstraint d).perform x = (.ok u, y)) : x.RingStated c := by
  obtain ⟨_, _, hfirst, -⟩ := perform_bind_eq_ok.1 h
  obtain ⟨ps, z, hpresence, hrest⟩ := perform_bind_eq_ok.1 hfirst
  obtain ⟨o, w, hring, -⟩ := perform_bind_eq_ok.1 hrest
  obtain ⟨hgives, -⟩ := givesRoles_embedPresenceConstraints hx hpresence
  have hsaid := ((embeds_sameButConstraints.embedPresenceConstraints c (.refl x)).of_perform
    hpresence |>.1).saysAs c
  have hmatches :=
    ((embeds_sameReadings.embedPresenceConstraints c x).of_perform hpresence).1.matchesAs
    hgives.grows hx.valid.consistent.toWellFormed
  refine (hsaid.ringStated_iff (hc.fills.mem_roleIds_of_rolesOf hx.valid.consistent.toWellFormed)
    hmatches).1 ?_
  exact (exists_embedRingConstraint_iff (hc.gives hgives fun _ _ => id)).1 ⟨o, w, hring⟩

/-- What a clause states has been recorded in a vocabulary: its role names and its bounds are there
besides those that were there before, and there are no others. New constraints have the enforcement
stated. -/
structure Records (v : Vocabulary) (x : Context) (c : Clause) (w : Vocabulary) : Prop where
  grows : v.Grows w
  sameReadings : SameReadings v w
  name_iff : ∀ r name, (w.role r).name = some name ↔
    (v.role r).name = some name ∨ ∃ m ∈ c.mentions, x.Declares m r name
  bound_iff : ∀ rs b n, w.IsBoundedOver rs b n ↔ v.IsBoundedOver rs b n ∨
    ∃ rs' q, x.TellsBounds c rs' q ∧ rs'.Perm rs ∧ q.frequency b = some n
  owesEnforcement : v.OwesEnforcement w (x.TellsBounds c)

namespace Invokes

variable (h : Invokes x c a y) (hx : x.Ready [c]) (hi : x.vocabulary.Inherits)
  (hc : x.vocabulary.Constrained)

include h hx hi hc

/-- **A definition records what its clause states.**

**Proof sketch.** Role names are recorded when the clause is adjusted, and bounds when it is
embedded. Neither touches what the other one records. -/
theorem records {created : Bool} {ds : List Clause}
    (hdefine : (defineFactType [c]).perform x = (.ok (f, created, ds), z)) :
    Records x.vocabulary y c z.vocabulary := by
  obtain ⟨z', hstate, hembed⟩ := perform_defineFactType_eq_ok.1 hdefine
  obtain ⟨rfl, rfl, d, rfl, hadjust⟩ := h.perform_stateAll_eq_ok.1 hstate
  have hadjusted := h.adjusted hx hi hc hadjust
  have hgrows : z'.vocabulary.Grows z.vocabulary :=
    ((defines_evolving.embed [d] z').of_perform hembed).1.retains.toGrows
  have hkept := (embeds_sameButConstraints.embed [d] (.refl z')).of_perform hembed |>.1
  have hnames : z'.vocabulary.Constrains z.vocabulary :=
    ((embeds_constrains.embed [d] z').of_perform hembed).1
  have hwf := hx.valid.consistent.toWellFormed
  have hsaid := hadjusted.saysAs.trans (hkept.saysAs d)
  have hstates : ∀ e ∈ [d], ∃ s, z'.States a.factType e s :=
    List.forall_mem_singleton.2 hadjusted.states
  have htold : ∀ rs q, (∃ e ∈ [d], z'.TellsBounds e rs q) → y.TellsBounds c rs q := by
    rintro rs q ⟨e, he, htells⟩
    obtain rfl := List.mem_singleton.1 he
    exact hadjusted.saysAs.symm.tellsBounds htells
  refine ⟨hadjusted.grows.trans hgrows, Trans.trans hadjusted.sameReadings
    ((embeds_sameReadings.embed [d] z').of_perform hembed).1, fun r name => ?_,
    fun rs b n => ⟨?_, ?_⟩, ?_⟩
  · rw [hnames.role_eq]
    exact hadjusted.name_iff r name
  · rintro ⟨p, hp, hperm⟩
    rcases accounts_owesBounds.embed hadjusted.constrained hstates hembed p b n hp with
      hbefore | ⟨rs', q, htells, hperm', hn⟩
    · refine .inl ((hadjusted.spares.isBoundedOver_iff hadjusted.grows hwf).1 ⟨p, hbefore, ?_⟩)
      rwa [← hgrows.spannedRoles_eq hadjusted.constrained.valid.consistent.toWellFormed hbefore.1]
    · exact .inr ⟨rs', q, htold rs' q htells, hperm'.symm.trans hperm, hn⟩
  · rintro (hbefore | ⟨rs', q, htells, hperm, hn⟩)
    · exact hbefore.grows (hadjusted.grows.trans hgrows) hwf
    · obtain ⟨-, -, hheads⟩ := adequate_defineFactType hx hi hc hdefine
      obtain ⟨p, hp, hspanned⟩ := exists_isBounded_of_adequate (hheads d List.mem_cons_self).2
        (hsaid.tellsBounds htells) hn
      exact ⟨p, hp, hspanned.trans hperm⟩
  · exact (Vocabulary.owesEnforcement_of_eq hadjusted.spares.presenceConstraints_eq).trans
      ((accounts_owesEnforcement.embed hadjusted.constrained hstates hembed).mono htold)
      hadjusted.constrained.valid.consistent.toWellFormed hgrows

/-- **A clause defines just in case it agrees.** A clause that invokes a reading can define its fact
type if and only if its role names and its bounds agree with those that are there, and its
qualifiers can state a ring constraint. -/
theorem exists_defineFactType_iff :
    (∃ r z, (defineFactType [c]).perform x = (.ok r, z)) ↔ Agrees x.vocabulary y c := by
  obtain ⟨hmentions, hy, -, hfills, -⟩ := h.told hx
  have hwf := hx.valid.consistent.toWellFormed
  have hroles : ∀ r ∈ y.rolesOf c, r ∈ y.vocabulary.roleIds :=
    hfills.mem_roleIds_of_rolesOf hy.consistent.toWellFormed
  have hring : ∀ {d z}, Adjusted x c a.factType y d z → (z.RingStated d ↔ y.RingStated c) := by
    intro d z hadjusted
    refine hadjusted.saysAs.ringStated_iff hroles ?_
    rw [h.vocabulary_eq]
    exact hadjusted.sameReadings.matchesAs hadjusted.grows hwf
  constructor
  · rintro ⟨⟨f, created, ds⟩, z, hdefine⟩
    have hrecords := h.records hx hi hc hdefine
    obtain ⟨hz, -, -⟩ := adequate_defineFactType hx hi hc hdefine
    refine ⟨fun m hm r name hdeclares k hk => ?_, fun rs q htells => ?_, ?_⟩
    · have hname := (hrecords.name_iff r name).2 (.inr ⟨m, hm, hdeclares⟩)
      have hold := (hrecords.name_iff r k).2 (.inl hk)
      exact Option.some.inj (hold.symm.trans hname)
    · rw [Vocabulary.accepts_iff]
      intro b n k hn hk
      exact ((hrecords.bound_iff rs b n).2 (.inl hn)).unique
        ((hrecords.bound_iff rs b k).2 (.inr ⟨rs, q, htells, .refl _, hk⟩)) hz.constrained
    · obtain ⟨z', hstate, hembed⟩ := perform_defineFactType_eq_ok.1 hdefine
      obtain ⟨rfl, rfl, d, rfl, hadjust⟩ := h.perform_stateAll_eq_ok.1 hstate
      have hadjusted := h.adjusted hx hi hc hadjust
      obtain ⟨s, hs⟩ := hadjusted.states
      exact (hring hadjusted).1 (ringStated_of_embed hadjusted.constrained hs hembed)
  · intro hagrees
    obtain ⟨d, z, hadjust⟩ := exists_adjust (c := c.aligned a)
      (x := y) rfl (hmentions.symm ▸ hfills)
      fun m hm r name hdeclares => by
        rw [h.vocabulary_eq]
        exact hagrees.names m (hmentions ▸ hm) r name hdeclares
    have hadjusted := h.adjusted hx hi hc hadjust
    obtain ⟨s, hs⟩ := hadjusted.states
    have haccepts : ∀ rs q, z.TellsBounds d rs q → z.vocabulary.Accepts rs q := by
      intro rs q htells
      rw [Vocabulary.accepts_iff]
      intro b n k hn hk
      rw [hadjusted.spares.isBoundedOver_iff hadjusted.grows hwf] at hn
      exact Vocabulary.accepts_iff.1
        (hagrees.bounds rs q (hadjusted.saysAs.symm.tellsBounds htells))
        b n k hn hk
    obtain ⟨z', hembed⟩ := exists_embed hadjusted.constrained hs haccepts
      ((hring hadjusted).2 hagrees.ring)
    exact ⟨_, z', perform_defineFactType_eq_ok.2 ⟨z, h.perform_stateAll_eq_ok.2 ⟨rfl, rfl, d, rfl,
      hadjust⟩, hembed⟩⟩

end Invokes

/-- **Another clause agrees with what has been recorded** just in case it agreed before and is
compatible with the clause that recorded it. -/
theorem Records.agrees_iff (h : Records v x c w) :
    Agrees w y d ↔ Agrees v y d ∧ x.Compatible c y d := by
  constructor
  · intro hagrees
    refine ⟨⟨fun m hm r name hdeclares k hk => ?_, fun rs q htells => ?_, hagrees.ring⟩,
      ⟨fun m hm n hn r name name' hx hy => ?_, fun rs rs' q q' hx hy hperm b n k hn hk => ?_⟩⟩
    · exact hagrees.names m hm r name hdeclares k ((h.name_iff r k).2 (.inl hk))
    · rw [Vocabulary.accepts_iff]
      intro b n k hn hk
      exact Vocabulary.accepts_iff.1 (hagrees.bounds rs q htells) b n k
        ((h.bound_iff rs b n).2 (.inl hn)) hk
    · exact hagrees.names n hn r name' hy name ((h.name_iff r name).2 (.inr ⟨m, hm, hx⟩))
    · exact Vocabulary.accepts_iff.1 (hagrees.bounds rs' q' hy) b n k
        ((h.bound_iff rs' b n).2 (.inr ⟨rs, q, hx, hperm, hn⟩)) hk
  · rintro ⟨hagrees, hcompatible⟩
    refine ⟨fun m hm r name hdeclares k hk => ?_, fun rs q htells => ?_, hagrees.ring⟩
    · rcases (h.name_iff r k).1 hk with hbefore | ⟨n, hn, hother⟩
      · exact hagrees.names m hm r name hdeclares k hbefore
      · exact hcompatible.names n hn m hm r k name hother hdeclares
    · rw [Vocabulary.accepts_iff]
      intro b n k hn hk
      rcases (h.bound_iff rs b n).1 hn with hbefore | ⟨rs', q', hother, hperm, hn'⟩
      · exact Vocabulary.accepts_iff.1 (hagrees.bounds rs q htells) b n k hbefore hk
      · exact hcompatible.bounds rs' rs q' q hother htells hperm b n k hn' hk

/-- Bounds that a clause states are those of a constraint over the same roles. -/
lemma Records.exists_spans (h : Records v x c w) {rs : List RoleId} {q : Quantifier}
    (htells : x.TellsBounds c rs q) : ∃ p, w.Spans p rs := by
  obtain ⟨b, n, hn⟩ := htells.exists_frequency
  exact ((h.bound_iff rs b n).2 (.inr ⟨rs, q, htells, .refl _, hn⟩)).exists_spans

/-- A new constraint has the enforcement of the quantifier that tells it. -/
lemma Records.enforcement_eq (h : Records v x c w) (hv : v.WellFormed) (hc : x.Fills f c.mentions)
    {rs : List RoleId} {q : Quantifier} {p : PresenceConstraintId} (htells : x.TellsBounds c rs q)
    (hnew : ∀ p, ¬v.Spans p rs) (hp : w.Spans p rs) :
    (w.presenceConstraint p).enforcement = q.enforcement := by
  rcases h.owesEnforcement p hp.mem with hbefore | ⟨rs', q', htells', hperm, henforcement⟩
  · exact absurd ⟨hbefore, h.grows.spannedRoles_eq hv hbefore ▸ hp.perm⟩ (hnew p)
  · rw [henforcement, hc.tellsBounds_unique htells' htells (hperm.symm.trans hp.perm)]

end Compile

end FactModel
