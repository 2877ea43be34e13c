import FactModel.Proofs.Definition.Stating
import FactModel.Proofs.Session.Sparing
import FactModel.Proofs.Vocabulary.Constraints
set_option autoImplicit false

/-!
# Embedding constraints

A constraint is looked for before one is added, so that none is there twice, and bounds that are
there already are only filled in, so that what clauses state agrees.

## Main definitions

* `FactModel.Context.Constrained` — a context whose constraints are well posed.
* `FactModel.Context.otherRoles` — the roles of the other mentions of a clause.
* `FactModel.Context.Adequate` — what the quantifiers of a clause state is embedded.
* `FactModel.Compile.stateAll` — the stages of a definition before constraints are embedded.

## Main results

* `FactModel.Compile.bounds_boundPlayers` — the players of roles are bounded as stated.
* `FactModel.Compile.adequate_embed` — what the quantifiers of all clauses state is embedded.
* `FactModel.Compile.adequate_defineFactType` — after a definition it is.
-/

namespace FactModel

open Attempt Compile

namespace Context

variable {x y z : Context} {f : FactTypeId} {c : Clause} {s : RoleSequenceId}

/-- A context whose constraints are well posed. -/
structure Constrained (x : Context) : Prop where
  valid : x.Valid
  inherits : x.vocabulary.Inherits
  constrained : x.vocabulary.Constrained

/-- Constraints stay well posed while the vocabulary evolves and they are spared. -/
lemma Constrained.evolves (h : x.Constrained) (hextends : x.Extends y)
    (hevolves : x.vocabulary.Evolves y.vocabulary)
    (hspares : x.vocabulary.SparesConstraints y.vocabulary) : y.Constrained := by
  have hinherits := hevolves.preserves h.inherits Vocabulary.inherits_of_change
  exact ⟨hextends.valid, hinherits, h.constrained.retains h.valid.consistent.toWellFormed h.inherits
    hinherits hevolves.retains hspares⟩

/-- The mentions differ in the constraints that they state at most. -/
def SameButConstraints (x y : Context) : Prop :=
  ∀ m, ∃ presenceConstraint, y.mention m = { x.mention m with presenceConstraint }

/-- The mentions of a context do not differ. -/
lemma SameButConstraints.refl (x : Context) : x.SameButConstraints x :=
  fun _ => ⟨_, rfl⟩

instance : Trans SameButConstraints SameButConstraints SameButConstraints where
  trans h h' m := by
    obtain ⟨constraint, hy⟩ := h m
    obtain ⟨constraint', hz⟩ := h' m
    exact ⟨constraint', by rw [hz, hy]⟩

/-- The roles of the mentions of a clause other than one, in order. -/
def otherRoles (x : Context) (c : Clause) (m : MentionId) : List RoleId :=
  (c.mentions.filter (· ≠ m)).filterMap fun n => (x.mention n).role

/-- The roles of the other mentions do not depend on the constraints that mentions state. -/
lemma SameButConstraints.otherRoles_eq (h : x.SameButConstraints y) (c : Clause) (m : MentionId) :
    y.otherRoles c m = x.otherRoles c m := by
  unfold otherRoles
  congr 1
  funext n
  obtain ⟨_, hn⟩ := h n
  rw [hn]

/-- What the quantifiers of a clause of two or more mentions state is embedded: there is a presence
constraint over the roles of the other mentions that has the bounds stated. -/
def Adequate (x : Context) (c : Clause) : Prop :=
  2 ≤ c.mentions.length → ∀ m ∈ c.mentions, ∀ q ∈ (x.mention m).quantifier,
    q.isUnconstrained = false → ∃ p, x.vocabulary.Bounds (x.otherRoles c m) q p

/-- What is embedded stays embedded while further constraints are. -/
lemma Adequate.later (h : x.Adequate c) (hx : x.Valid) (hgrows : x.vocabulary.Grows y.vocabulary)
    (hsame : x.SameButConstraints y) : y.Adequate c := by
  intro hlength m hm q hq hstated
  obtain ⟨constraint, hmention⟩ := hsame m
  rw [hmention] at hq
  obtain ⟨p, hp⟩ := h hlength m hm q hq hstated
  exact ⟨p, hsame.otherRoles_eq c m ▸ hp.grows hgrows hx.consistent.toWellFormed⟩

/-- The role sequence of a clause has a place for each mention. -/
lemma States.length_refs (h : x.States f c s) :
    (x.vocabulary.roleSequence s).refs.length = c.mentions.length := by
  have hlengths := congrArg List.length h.roles_eq
  rw [List.length_map, List.length_map, RoleSequence.roles, List.length_map] at hlengths
  exact hlengths.symm

/-- The roles of the mentions of a clause, in order. -/
def rolesOf (x : Context) (c : Clause) : List RoleId :=
  c.mentions.filterMap fun m => (x.mention m).role

/-- The mentions of a clause that states a reading have the roles of its role sequence. -/
lemma States.rolesOf_eq (h : x.States f c s) :
    x.rolesOf c = (x.vocabulary.roleSequence s).roles := by
  have hmapped := congrArg (List.filterMap id) h.roles_eq
  rw [List.filterMap_map, List.filterMap_map] at hmapped
  exact hmapped.trans List.filterMap_some

/-- The roles of the other mentions are those of the role sequence without that of the mention. -/
lemma States.otherRoles_eq (h : x.States f c s) {m : MentionId} (hm : m ∈ c.mentions) {r : RoleId}
    (hr : (x.mention m).role = some r) :
    x.otherRoles c m =
      ((x.vocabulary.roleSequence s).refs.filter (·.role ≠ r)).map (·.role) := by
  have hfilter : c.mentions.filter (· ≠ m) =
      c.mentions.filter fun n => (x.mention n).role ≠ some r := by
    refine List.filter_congr fun n hn => ?_
    refine decide_eq_decide.2 (not_congr ⟨fun heq => heq ▸ hr, fun heq => ?_⟩)
    exact List.inj_on_of_nodup_map h.fills.nodup hn hm (heq.trans hr.symm)
  have hsplit : ∀ role : Option RoleId, (if role ≠ some r then role else none) =
      role.filter (· ≠ r) := fun role => by
    cases role with
    | none => rfl
    | some q => by_cases hq : q = r <;> simp [Option.filter, hq]
  calc x.otherRoles c m
      = c.mentions.filterMap fun n => ((x.mention n).role).filter (· ≠ r) := by
        rw [otherRoles, hfilter, List.filterMap_filter]
        exact congrArg (List.filterMap · c.mentions) (funext fun n => by simpa using hsplit _)
    _ = (x.vocabulary.roleSequence s).roles.filter (· ≠ r) := by
        rw [← h.rolesOf_eq, rolesOf, List.filter_filterMap]
    _ = ((x.vocabulary.roleSequence s).refs.filter (·.role ≠ r)).map (·.role) := by
        rw [RoleSequence.roles, List.filter_map]
        rfl

end Context

namespace Vocabulary

variable {v w : Vocabulary} {f : FactTypeId}

/-- A bound that is stated agrees with the one that is there, or it is filled in. -/
lemma orElse_of_not_conflicting {existing requested : Option Nat} {n : Nat}
    (h : conflicting existing requested = false) (hn : n ∈ requested) :
    (existing <|> requested) = some n := by
  obtain rfl := Option.mem_def.1 hn
  cases existing with
  | none => rfl
  | some k =>
    have hk : k = n := by simpa [conflicting] using h
    rw [hk]
    rfl

/-- Restricting a constraint fills in its bounds, with which those given agree. -/
lemma perform_restrictPresenceConstraint_eq_ok {c : PresenceConstraintId} {min max : Option Nat}
    {u : Unit} (h : (restrictPresenceConstraint c min max).perform v = (.ok u, w)) :
    conflicting (v.presenceConstraint c).min min = false ∧
      conflicting (v.presenceConstraint c).max max = false ∧ w = v.withBounds c min max := by
  rw [restrictPresenceConstraint, perform_get_bind] at h
  dsimp only at h
  split at h
  · cases h
  next hmax =>
  split at h
  · cases h
  next hmin =>
  cases h
  exact ⟨Bool.eq_false_iff.2 hmin, Bool.eq_false_iff.2 hmax, rfl⟩

/-- The bounds of a constraint, after they have been filled in. -/
lemma bounds_withBounds (hv : v.Constrained) (hwf : v.WellFormed) {rs : List RoleId}
    (hnodup : rs.Nodup) {q : Quantifier} {c : PresenceConstraintId}
    (hc : c ∈ v.presenceConstraintIds) (hsame : sameRoles (v.spannedRoles c) rs)
    (hmin : conflicting (v.presenceConstraint c).min q.min = false)
    (hmax : conflicting (v.presenceConstraint c).max q.max = false) :
    (v.withBounds c q.min q.max).Bounds rs q c := by
  have hgrows : v.Grows (v.withBounds c q.min q.max) :=
    (retains_of_change (Change.restriction hmin hmax)).toGrows
  have hconstraint := v.presenceConstraint_withBounds c q.min q.max c
  rw [if_pos ⟨rfl, hc⟩] at hconstraint
  refine ⟨hgrows.mem_presenceConstraintIds hc, ?_, fun n hn => ?_, fun n hn => ?_⟩
  · rw [hgrows.spannedRoles_eq hwf hc]
    exact (List.perm_ext_iff_of_nodup (hv.presence c hc).nodup hnodup).2
      ((sameRoles_iff (hv.presence c hc).nodup hnodup).1 hsame)
  · rw [hconstraint]
    exact orElse_of_not_conflicting hmin hn
  · rw [hconstraint]
    exact orElse_of_not_conflicting hmax hn

/-- The bounds of a constraint that has been added. -/
lemma bounds_withPresenceConstraint (s : RoleSequenceId) (q : Quantifier) :
    (v.withPresenceConstraint s q.min q.max q.enforcement).Bounds (v.roleSequence s).roles q
      ⟨v.presenceConstraints.size⟩ := by
  have hconstraint := v.presenceConstraint_withPresenceConstraint s q.min q.max q.enforcement
    ⟨v.presenceConstraints.size⟩
  rw [if_pos rfl] at hconstraint
  refine ⟨mem_presenceConstraintIds_withPresenceConstraint.2 (.inl rfl), ?_, fun n hn => ?_,
    fun n hn => ?_⟩
  · rw [spannedRoles, hconstraint]
    rfl
  · rw [hconstraint]
    exact hn
  · rw [hconstraint]
    exact hn

end Vocabulary

open Context

namespace Compile

variable {x y z : Context} {f : FactTypeId} {c d : Clause} {cs ds : List Clause}
  {refs : List RoleRef} {s : RoleSequenceId}

/-! ## Presence constraints -/

/-- Bounding the players of different roles of a fact type leaves constraints well posed, and then
one of them has the bounds stated. -/
theorem bounds_boundPlayers (hx : x.Constrained) (hf : f ∈ x.vocabulary.factTypeIds)
    (hne : refs ≠ []) (hnodup : (refs.map (·.role)).Nodup)
    (hmem : ∀ r ∈ refs.map (·.role), r ∈ (x.vocabulary.factType f).roles) {q : Quantifier}
    {p : PresenceConstraintId} (h : (boundPlayers refs q).perform x = (.ok p, y)) :
    y.Constrained ∧ y.vocabulary.Bounds (refs.map (·.role)) q p := by
  have hwf := hx.valid.consistent.toWellFormed
  have hrefs : ∀ ref ∈ refs, ref.role ∈ x.vocabulary.roleIds := fun ref href =>
    (hwf.mem_roles.1 (hmem _ (List.mem_map_of_mem href))).1
  have hextends := ((leads_boundPlayers hx.valid hrefs q).of_perform h).1
  have hevolves := ((defines_evolving.boundPlayers refs q x).of_perform h).1
  have hinherits := hevolves.preserves hx.inherits Vocabulary.inherits_of_change
  rw [boundPlayers, perform_get_bind] at h
  split at h
  · next existing hover =>
    obtain ⟨hc, hsame⟩ := Vocabulary.mem_of_presenceConstraintOver? hwf hover
    obtain ⟨_, z, hedit, hpure⟩ := perform_bind_eq_ok.1 h
    cases hpure
    obtain ⟨w, hrestrict, rfl⟩ := perform_within_eq_ok.1 hedit
    obtain ⟨hmin, hmax, rfl⟩ := Vocabulary.perform_restrictPresenceConstraint_eq_ok hrestrict
    exact ⟨⟨hextends.valid, hinherits, hx.constrained.withBounds hwf hx.inherits hmin hmax⟩,
      Vocabulary.bounds_withBounds hx.constrained hwf hnodup hc hsame hmin hmax⟩
  · next hover =>
    obtain ⟨s, z, hsequence, hconstraint⟩ := perform_bind_eq_ok.1 h
    cases hsequence
    cases hconstraint
    have hz : Context.Constrained
        { x with vocabulary := x.vocabulary.pushRoleSequence refs } :=
      hx.evolves ((leads_edit hx.valid (Vocabulary.leads_addRoleSequence
        hx.valid.consistent hrefs)).of_perform rfl).1
          (Vocabulary.Change.roleSequence refs).evolves ⟨rfl, rfl⟩
    have hroles : ((x.vocabulary.pushRoleSequence refs).roleSequence
        ⟨x.vocabulary.roleSequences.size⟩).roles = refs.map (·.role) := by
      rw [Vocabulary.roleSequence_pushRoleSequence, if_pos rfl]
      rfl
    have hadded :=
      hz.constrained.withPresenceConstraint hz.valid.consistent.toWellFormed hz.inherits
      (s := ⟨x.vocabulary.roleSequences.size⟩) (f := f) (hroles ▸ by simpa using hne)
      (hroles ▸ hnodup) hf (hroles ▸ hmem) (fun c hc hsame => by
        rw [hroles] at hsame
        refine Vocabulary.not_sameRoles_of_presenceConstraintOver? hover hc ?_
        rwa [(x.vocabulary.grows_pushRoleSequence refs).spannedRoles_eq hwf hc] at hsame)
      q.min q.max q.enforcement
    have hbounds := Vocabulary.bounds_withPresenceConstraint
      (v := x.vocabulary.pushRoleSequence refs) ⟨x.vocabulary.roleSequences.size⟩ q
    rw [hroles] at hbounds
    exact ⟨⟨hextends.valid, hinherits, hadded⟩, hbounds⟩

/-- Embedding constraints tells mentions the constraints that they state, and nothing else. -/
lemma embeds_sameButConstraints : Embeds fun change => change.Keeps SameButConstraints :=
  have hedit : ∀ {α : Type} (change : Vocabulary.Edit α),
      (edit change).Keeps SameButConstraints := fun change x _ =>
    Leads.within (leads_true change x.vocabulary) (fun _ _ _ => ⟨_, rfl⟩) fun _ _ _ _ => trivial
  { toComposes := composes_keeps fun _ => .refl _
    look := fun hnext x hx => leads_get_bind (hnext x hx)
    note := fun m constraint x _ => leads_modify (fun n => by
      rw [mention_modifyMention]
      split
      · next heq => exact ⟨some constraint, by rw [heq.1]⟩
      · exact ⟨_, rfl⟩) trivial
    roleSequence := fun refs => hedit (Vocabulary.addRoleSequence refs)
    presenceConstraint := fun s min max enforcement =>
      hedit (Vocabulary.addPresenceConstraint s min max enforcement)
    restriction := fun c min max => hedit (Vocabulary.restrictPresenceConstraint c min max)
    ringConstraint := fun r s kinds => hedit (Vocabulary.addRingConstraint r s kinds) }

/-- Recording a constraint with a mention leaves constraints well posed. -/
lemma constrained_note (hx : x.Constrained) (m : MentionId) (p : PresenceConstraintId) :
    (x.modifyMention m ({ · with presenceConstraint := some p })).Constrained := by
  refine ⟨?_, hx.inherits, hx.constrained⟩
  exact ((leads_modifyMention hx.valid m ({ · with presenceConstraint := some p })
    (hx.valid.player_mem m) (hx.valid.role_mem m)).of_perform rfl).1.valid

/-- The constraint that a quantifier states about different roles of a fact type is embedded. -/
lemma bounds_embedPresenceConstraint (hx : x.Constrained) (hf : f ∈ x.vocabulary.factTypeIds)
    (hlength : 2 ≤ refs.length) (hnodup : (refs.map (·.role)).Nodup)
    (hmem : ∀ r ∈ refs.map (·.role), r ∈ (x.vocabulary.factType f).roles) {m : MentionId}
    {o : Option PresenceConstraintId}
    (h : (embedPresenceConstraint refs m).perform x = (.ok o, y)) :
    y.Constrained ∧ ∀ q ∈ (x.mention m).quantifier, q.isUnconstrained = false →
      ∀ r ∈ (x.mention m).role,
        ∃ p, y.vocabulary.Bounds ((refs.filter (·.role ≠ r)).map (·.role)) q p := by
  rw [embedPresenceConstraint, perform_get_bind] at h
  dsimp only at h
  split at h
  · next q r hq hr =>
    rw [hq, hr]
    split at h
    · next hfree =>
      cases h
      refine ⟨hx, ?_⟩
      rintro _ ⟨⟩ hstated
      rw [hfree] at hstated
      cases hstated
    · have hsub : ((refs.filter (·.role ≠ r)).map (·.role)).Sublist (refs.map (·.role)) :=
        List.filter_sublist.map _
      have hne : refs.filter (·.role ≠ r) ≠ [] := by
        intro hnil
        have hall : ∀ ref ∈ refs, ref.role = r := by
          simpa [List.filter_eq_nil_iff] using hnil
        have heq : refs.map (·.role) = List.replicate refs.length r := by
          rw [List.eq_replicate_iff]
          refine ⟨List.length_map .., fun q hq => ?_⟩
          obtain ⟨ref, href, rfl⟩ := List.mem_map.1 hq
          exact hall ref href
        rw [heq, List.nodup_replicate] at hnodup
        omega
      obtain ⟨p, z, hbound, hrest⟩ := perform_bind_eq_ok.1 h
      cases hrest
      obtain ⟨hz, hbounds⟩ := bounds_boundPlayers hx hf hne (hnodup.sublist hsub)
        (fun q hq => hmem q (hsub.subset hq)) hbound
      refine ⟨constrained_note hz m p, ?_⟩
      rintro _ ⟨⟩ _ _ ⟨⟩
      exact ⟨p, hbounds⟩
  · next hother =>
    cases h
    refine ⟨hx, fun q hq _ r hr => ?_⟩
    exact absurd hr (hother q r hq)

/-- What the quantifiers of mentions state is embedded, and stays so while those of further mentions
are.

**Proof sketch.** By induction on the mentions. Embedding changes neither the roles of mentions nor
their quantifiers, and a bound that a constraint has it has for ever. -/
lemma bounds_embedEach (hx : x.Constrained) (hf : f ∈ x.vocabulary.factTypeIds)
    (hlength : 2 ≤ refs.length) (hnodup : (refs.map (·.role)).Nodup)
    (hmem : ∀ r ∈ refs.map (·.role), r ∈ (x.vocabulary.factType f).roles) {ms : List MentionId}
    {ps : List PresenceConstraintId} (h : (embedEach refs ms).perform x = (.ok ps, y)) :
    y.Constrained ∧ ∀ m ∈ ms, ∀ q ∈ (x.mention m).quantifier, q.isUnconstrained = false →
      ∀ r ∈ (x.mention m).role,
        ∃ p, y.vocabulary.Bounds ((refs.filter (·.role ≠ r)).map (·.role)) q p := by
  induction ms generalizing x ps with
  | nil =>
    cases h
    exact ⟨hx, List.forall_mem_nil _⟩
  | cons m ms ih =>
    obtain ⟨o, z, hfirst, hrest⟩ := perform_bind_eq_ok.1 h
    obtain ⟨ps', w, hmore, hpure⟩ := perform_bind_eq_ok.1 hrest
    cases hpure
    obtain ⟨hz, hbounds⟩ := bounds_embedPresenceConstraint hx hf hlength hnodup hmem hfirst
    have hsame := (embeds_sameButConstraints.embedPresenceConstraint refs m (.refl x)).of_perform
      hfirst |>.1
    have hgrows := ((defines_evolving.embedPresenceConstraint refs m x).of_perform
      hfirst).1.retains.toGrows
    have hgrows' := ((defines_evolving.embedEach refs ms z).of_perform hmore).1.retains.toGrows
    obtain ⟨hy, hbounds'⟩ := ih hz (hgrows.mem_factTypeIds hf)
      (fun r hr => (hgrows.factType hf).roles.subset (hmem r hr)) hmore
    refine ⟨hy, List.forall_mem_cons.2 ⟨fun q hq hstated r hr => ?_, fun n hn => ?_⟩⟩
    · obtain ⟨p, hp⟩ := hbounds q hq hstated r hr
      exact ⟨p, hp.grows hgrows' hz.valid.consistent.toWellFormed⟩
    · obtain ⟨constraint, hmention⟩ := hsame n
      have hlater := hbounds' n hn
      rwa [hmention] at hlater

/-- What the quantifiers of a clause state is embedded. -/
lemma adequate_embedPresenceConstraints (hx : x.Constrained) (hc : x.States f c s)
    {ps : List PresenceConstraintId} (h : (embedPresenceConstraints c).perform x = (.ok ps, y)) :
    y.Constrained ∧ y.Adequate c := by
  have hsame := (embeds_sameButConstraints.embedPresenceConstraints c (.refl x)).of_perform h |>.1
  rw [embedPresenceConstraints, hc.roleSequence_eq] at h
  dsimp only at h
  split at h
  · next hfew =>
    cases h
    exact ⟨hx, fun hmany => absurd hmany (Nat.not_le.2 hfew)⟩
  · next hmany =>
    rw [perform_get_bind] at h
    obtain ⟨hy, hbounds⟩ := bounds_embedEach hx hc.factType_mem
      (hc.length_refs ▸ Nat.not_lt.1 hmany) hc.nodup hc.mem h
    refine ⟨hy, fun _ m hm q hq hstated => ?_⟩
    obtain ⟨_, hmention⟩ := hsame m
    rw [hmention] at hq
    obtain ⟨r, hr, hrole⟩ := List.mem_map.1
      (hc.roles_eq ▸ List.mem_map_of_mem (f := fun n => (x.mention n).role) hm)
    obtain ⟨p, hp⟩ := hbounds m hm q hq hstated r (Option.mem_def.2 hrole.symm)
    refine ⟨p, ?_⟩
    rw [hsame.otherRoles_eq, hc.otherRoles_eq hm hrole.symm]
    exact hp

/-! ## Ring constraints -/

/-- The roles that a ring constraint is over come one behind the other, and their players share a
supertype. -/
lemma related_of_relatedPair? {v : Vocabulary} {roles : List RoleId} {r r' : RoleId}
    (h : v.relatedPair? roles = some (r, r')) : [r, r'].Sublist roles ∧ v.Related r r' := by
  induction roles with
  | nil => cases h
  | cons role others ih =>
    rw [Vocabulary.relatedPair?] at h
    split at h
    · next other hfind =>
      cases h
      have hsome := List.find?_some hfind
      obtain ⟨t, ht⟩ := Option.isSome_iff_exists.1 hsome
      refine ⟨(List.singleton_sublist.2 (List.mem_of_find?_eq_some hfind)).cons_cons r, t, ?_⟩
      exact Vocabulary.mem_supertypes_of_commonSupertype? ht
    · obtain ⟨hsub, hrelated⟩ := ih h
      exact ⟨hsub.cons role, hrelated⟩

/-- Embedding the ring constraint of a clause leaves constraints well posed. -/
lemma constrained_embedRingConstraint (hx : x.Constrained) (hc : x.States f c s)
    {o : Option RingConstraintId} (h : (embedRingConstraint c).perform x = (.ok o, y)) :
    y.Constrained := by
  have hextends := ((leads_embedRingConstraint hx.valid c).of_perform h).1
  have hevolves := ((defines_evolving.embedRingConstraint c x).of_perform h).1
  refine ⟨hextends.valid, hevolves.preserves hx.inherits Vocabulary.inherits_of_change, ?_⟩
  unfold embedRingConstraint at h
  split at h
  · cases h
    exact hx.constrained
  obtain ⟨kinds, z, hkinds, hrest⟩ := perform_bind_eq_ok.1 h
  obtain ⟨-, rfl⟩ := perform_ofExcept_eq_ok.1 hkinds
  rw [hc.roleSequence_eq] at hrest
  dsimp only at hrest
  rw [perform_get_bind] at hrest
  split at hrest
  · cases hrest
  next role other hpair =>
  split at hrest
  · cases hrest
    exact hx.constrained
  next hnone =>
  cases hrest
  obtain ⟨hsub, hrelated⟩ := related_of_relatedPair? hpair
  have hne : role ≠ other := by simpa using hc.nodup.sublist hsub
  exact hx.constrained.withRingConstraint hx.valid.consistent.toWellFormed hx.inherits hne
    hc.factType_mem (hc.mem role (hsub.subset List.mem_cons_self))
    (hc.mem other (hsub.subset (List.mem_cons_of_mem role List.mem_cons_self))) hrelated
    (fun p hp => Vocabulary.not_sameRoles_of_ringConstraintOver? hnone hp) kinds

/-! ## All constraints of a declaration -/

/-- Embedding the constraints of a clause that states a reading leaves constraints well posed, gives
no roles, and embeds all that the quantifiers of the clause state. -/
lemma adequate_embed_clause (hx : x.Constrained) (hc : x.States f c s) {u : Unit}
    (h : (do
      let _ ← embedPresenceConstraints c
      let _ ← embedRingConstraint c : Compile Unit).perform x = (.ok u, z)) :
    z.Constrained ∧ z.Adequate c ∧ x.GivesRoles (fun _ => False) z ∧ x.SameButConstraints z := by
  obtain ⟨ps, w, hpresence, hring⟩ := perform_bind_eq_ok.1 h
  obtain ⟨o, z', hring, hpure⟩ := perform_bind_eq_ok.1 hring
  cases hpure
  have hroles : ∀ {a b : Context} {α : Type} {change : Compile α} {r : α},
      change.Keeps (RolesOnly fun _ => False) → change.perform a = (.ok r, b) → a.Extends b →
        a.GivesRoles (fun _ => False) b := fun hkeeps hrun hextends =>
    ⟨hextends, ((hkeeps (.refl _)).of_perform hrun).1⟩
  have hxw := hroles (embeds_rolesOnly.embedPresenceConstraints c) hpresence
    ((leads_embedPresenceConstraints hx.valid c).of_perform hpresence).1
  have hsame := (embeds_sameButConstraints.embedPresenceConstraints c (.refl x) |>.of_perform
    hpresence).1
  obtain ⟨hw, hadequate⟩ := adequate_embedPresenceConstraints hx hc hpresence
  have hwz := hroles (embeds_rolesOnly.embedRingConstraint c) hring
    ((leads_embedRingConstraint hw.valid c).of_perform hring).1
  have hsame' := (embeds_sameButConstraints.embedRingConstraint c (.refl w) |>.of_perform hring).1
  exact ⟨constrained_embedRingConstraint hw (hc.gives hxw fun _ _ => id) hring,
    hadequate.later hw.valid hwz.grows hsame', hxw.trans hwz, Trans.trans hsame hsame'⟩

/-- Embedding the constraints of clauses that state readings leaves constraints well posed, and all
that the quantifiers of the clauses state is embedded.

**Proof sketch.** By induction on the clauses. Embedding gives no roles, so the clauses behind still
state what they stated, and what is embedded stays embedded. -/
theorem adequate_embed (hx : x.Constrained) (hcs : ∀ c ∈ cs, ∃ s, x.States f c s) {u : Unit}
    (h : (cs.forM fun c => do
      let _ ← embedPresenceConstraints c
      let _ ← embedRingConstraint c).perform x = (.ok u, y)) :
    y.Constrained ∧ ∀ c ∈ cs, y.Adequate c := by
  induction cs generalizing x with
  | nil =>
    cases h
    exact ⟨hx, List.forall_mem_nil _⟩
  | cons c cs ih =>
    rw [List.forM] at h
    obtain ⟨_, z, hfirst, hrest⟩ := perform_bind_eq_ok.1 h
    obtain ⟨s, hs⟩ := hcs c List.mem_cons_self
    obtain ⟨hz, hadequate, hgives, -⟩ := adequate_embed_clause hx hs hfirst
    have hsame := (embeds_sameButConstraints.embed cs (.refl z) |>.of_perform hrest).1
    have hgrows := ((defines_evolving.embed cs z).of_perform hrest).1.retains.toGrows
    obtain ⟨hy, hadequate'⟩ := ih hz (fun d hd => by
      obtain ⟨t, ht⟩ := hcs d (List.mem_cons_of_mem c hd)
      exact ⟨t, ht.gives hgives fun _ _ => id⟩) hrest
    exact ⟨hy, List.forall_mem_cons.2 ⟨hadequate.later hz.valid hgrows hsame, hadequate'⟩⟩

/-- The stages of a definition before constraints are embedded: all clauses come to state
readings. -/
def stateAll (clauses : List Clause) : Compile (FactTypeId × Bool × List Clause) := do
  let clauses ← resolveAllStated clauses
  let (factType, created, clauses) ← statedFactType clauses
  let clauses ← stateReadings factType clauses
  pure (factType, created, clauses)

/-- In a definition clauses come to state readings, then constraints are embedded. -/
lemma defineFactType_eq (cs : List Clause) :
    defineFactType cs = (do
      let r ← stateAll cs
      r.2.2.forM fun c => do
        let _ ← embedPresenceConstraints c
        let _ ← embedRingConstraint c
      pure r) := by
  simp only [defineFactType, stateAll, bind_assoc, pure_bind]

/-- Defining a fact type is coming to state its readings and then embedding what each clause
says. -/
lemma perform_defineFactType_eq_ok {created : Bool} :
    (defineFactType cs).perform x = (.ok (f, created, ds), z) ↔
      ∃ y, (stateAll cs).perform x = (.ok (f, created, ds), y) ∧
        (ds.forM fun c => do
          let _ ← embedPresenceConstraints c
          let _ ← embedRingConstraint c).perform y = (.ok ⟨⟩, z) := by
  rw [defineFactType_eq, perform_bind_eq_ok]
  constructor
  · rintro ⟨r, y, hstate, hrest⟩
    obtain ⟨_, _, hembed, hpure⟩ := perform_bind_eq_ok.1 hrest
    cases hpure
    exact ⟨y, hstate, hembed⟩
  · rintro ⟨y, hstate, hembed⟩
    exact ⟨_, y, hstate, perform_bind_eq_ok.2 ⟨_, _, hembed, rfl⟩⟩

/-- Until all clauses state readings, no constraint is touched. -/
theorem states_stateAll {created : Bool} (hx : x.Ready cs) (hi : x.vocabulary.Inherits)
    (hc : x.vocabulary.Constrained)
    (h : (stateAll cs).perform x = (.ok (f, created, ds), y)) :
    y.Constrained ∧ x.vocabulary.SparesConstraints y.vocabulary ∧
      x.vocabulary.Grows y.vocabulary ∧ List.Forall₂ Clause.KeepsMentions cs ds ∧
        ∀ d ∈ ds, ∃ s, y.States f d s := by
  obtain ⟨resolved, y₁, hresolve, hrest⟩ := perform_bind_eq_ok.1 h
  obtain ⟨⟨g, isNew, stated⟩, y₂, hstated, hrest⟩ := perform_bind_eq_ok.1 hrest
  obtain ⟨read, y₃, hread, hpure⟩ := perform_bind_eq_ok.1 hrest
  cases hpure
  obtain ⟨hy₂, hf, hkeeps₂, hfills⟩ := told_stated hx hresolve hstated
  obtain ⟨hsustains, hmentions, -⟩ := isBound_stated hx hresolve hstated
  obtain ⟨hgives₃, hkeeps₃, hstates⟩ := states_stateReadings hy₂ hsustains.refl_right hf hfills
    (hmentions ▸ hx.nodup) (fun m hm => (hx.isBound m (hmentions ▸ hm)).index_lt) hread
  have hspares := Trans.trans (Trans.trans
    ((states_sparing Vocabulary.Spares.sparesConstraints).resolveAllStated cs x |>.of_perform
      hresolve).1
    ((states_sparing Vocabulary.Spares.sparesConstraints).statedFactType resolved y₁ |>.of_perform
      hstated).1)
    ((states_sparing Vocabulary.Spares.sparesConstraints).stateReadings f stated y₂ |>.of_perform
      hread).1
  have hevolves := Trans.trans (Trans.trans
    (defines_evolving.resolveAllStated cs x |>.of_perform hresolve).1
    (defines_evolving.statedFactType resolved y₁ |>.of_perform hstated).1)
    (defines_evolving.stateReadings f stated y₂ |>.of_perform hread).1
  have hextends : x.Extends y := ⟨hevolves.retains.toGrows, hgives₃.valid⟩
  exact ⟨Context.Constrained.evolves ⟨hx.valid, hi, hc⟩ hextends hevolves hspares, hspares,
    hextends.grows, keepsMentions_trans hkeeps₂ hkeeps₃, hstates⟩

/-- **Definitions embed what their clauses state.** After a definition constraints are well posed.
The mentions of every clause have different roles of the fact type, and what the quantifiers of the
clause state about them is embedded.

**Proof sketch.** Until all clauses state readings, no constraints are touched. From then on they
are all that changes. -/
theorem adequate_defineFactType {created : Bool} (hx : x.Ready cs) (hi : x.vocabulary.Inherits)
    (hc : x.vocabulary.Constrained)
    (h : (defineFactType cs).perform x = (.ok (f, created, ds), y)) :
    y.Constrained ∧ List.Forall₂ Clause.KeepsMentions cs ds ∧
      ∀ d ∈ ds, (∃ s, y.States f d s) ∧ y.Adequate d := by
  obtain ⟨z, hstate, hembed⟩ := perform_defineFactType_eq_ok.1 h
  obtain ⟨hz, -, -, hkeeps, hstates⟩ := states_stateAll hx hi hc hstate
  obtain ⟨hy, hadequate⟩ := adequate_embed hz hstates hembed
  have hembedded : z.GivesRoles (fun _ => False) y :=
    ⟨((leads_embed hz.valid ds).of_perform hembed).1,
      (embeds_rolesOnly.embed ds (.refl z)).of_perform hembed |>.1⟩
  refine ⟨hy, hkeeps, fun d hd => ⟨?_, hadequate d hd⟩⟩
  obtain ⟨s, hs⟩ := hstates d hd
  exact ⟨s, hs.gives hembedded fun _ _ => id⟩

end Compile

end FactModel
