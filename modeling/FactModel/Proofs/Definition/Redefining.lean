import FactModel.Proofs.Definition.Agreeing
import FactModel.Proofs.Definition.Following
import FactModel.Proofs.Matching.Conservation
import FactModel.Proofs.Session.Restating
set_option autoImplicit false

/-!
# Defining a fact type again

What clauses state is there once they have defined a fact type: their role names, their bounds and
their ring constraints. If the clauses invoke readings of the fact type from then on, and their
mentions get the roles again that they have got, then to define again by them adds nothing but role
sequences.

## Main definitions

* `FactModel.Context.SaysAs` — a clause says in one context what another one says in another.
* `FactModel.Compile.Restates` — clauses invoke readings of a fact type, and what they state is
  there.

## Main results

* `FactModel.Compile.Restates.exists_defineFactType` — to define by such clauses adds role
  sequences.
* `FactModel.Compile.restates_of_roles` — clauses that get the same roles again restate what they
  have stated.
-/

namespace FactModel

open Attempt Compile Context

namespace Vocabulary

variable {u v w : Vocabulary}

/-- Adding role sequences grows a vocabulary. -/
lemma AddsSequences.grows (h : v.AddsSequences w) : v.Grows w := by
  obtain ⟨more, rfl⟩ := h
  refine { Grows.refl v with roleSequences := fun i s hs => ⟨s, ?_, rfl⟩ }
  exact (Array.getElem?_append_left (Array.getElem?_eq_some_iff.1 hs).1).trans hs

/-- Adding role sequences adds no reading. -/
lemma AddsSequences.sameReadings (h : v.AddsSequences w) : SameReadings v w := by
  obtain ⟨_, rfl⟩ := h
  exact ⟨rfl, rfl, rfl⟩

/-- Adding role sequences changes no role. -/
lemma AddsSequences.role_eq (h : v.AddsSequences w) (r : RoleId) : w.role r = v.role r := by
  obtain ⟨_, rfl⟩ := h
  rfl

/-- Adding role sequences changes no fact type. -/
lemma AddsSequences.factType_eq (h : v.AddsSequences w) (f : FactTypeId) :
    w.factType f = v.factType f := by
  obtain ⟨_, rfl⟩ := h
  rfl

/-- Role sequences may be added twice. -/
lemma AddsSequences.trans (h : u.AddsSequences v) (h' : v.AddsSequences w) : u.AddsSequences w := by
  obtain ⟨more, rfl⟩ := h
  obtain ⟨others, rfl⟩ := h'
  exact ⟨more ++ others, by rw [Array.append_assoc]⟩

/-- A ring constraint that is there stays there. -/
lemma Grows.isSome_ringConstraintOver? (h : v.Grows w) {r s : RoleId}
    (hover : (v.ringConstraintOver? r s).isSome) : (w.ringConstraintOver? r s).isSome := by
  rw [ringConstraintOver?, Option.isSome_map, List.find?_isSome] at hover ⊢
  obtain ⟨c, hc, hsame⟩ := hover
  obtain ⟨i, hi⟩ := Array.mem_iff_getElem?.1 (Array.mem_toList_iff.1 hc)
  obtain ⟨d, hd, rfl⟩ := h.ringConstraints i c hi
  exact ⟨c, Array.mem_toList_iff.2 (Array.mem_of_getElem? hd), hsame⟩

end Vocabulary

/-! ## Saying the same -/

namespace Context

variable {x y z : Context} {c d e : Clause} {m : MentionId}

/-- A clause says in one context what another one says in another: the mentions are the same and
have the same roles and quantifiers, and the qualifiers are the same. -/
structure SaysAs (x : Context) (c : Clause) (y : Context) (d : Clause) : Prop where
  mentions_eq : d.mentions = c.mentions
  qualifiers_eq : d.qualifiers = c.qualifiers
  role_eq : ∀ m ∈ c.mentions, (y.mention m).role = (x.mention m).role
  quantifier_eq : ∀ m ∈ c.mentions, (y.mention m).quantifier = (x.mention m).quantifier

namespace SaysAs

/-- Saying the same goes both ways. -/
lemma symm (h : x.SaysAs c y d) : y.SaysAs d x c where
  mentions_eq := h.mentions_eq.symm
  qualifiers_eq := h.qualifiers_eq.symm
  role_eq m hm := (h.role_eq m (h.mentions_eq ▸ hm)).symm
  quantifier_eq m hm := (h.quantifier_eq m (h.mentions_eq ▸ hm)).symm

/-- Saying the same goes on. -/
lemma trans (h : x.SaysAs c y d) (h' : y.SaysAs d z e) : x.SaysAs c z e where
  mentions_eq := h'.mentions_eq.trans h.mentions_eq
  qualifiers_eq := h'.qualifiers_eq.trans h.qualifiers_eq
  role_eq m hm := (h'.role_eq m (h.mentions_eq.symm ▸ hm)).trans (h.role_eq m hm)
  quantifier_eq m hm := (h'.quantifier_eq m (h.mentions_eq.symm ▸ hm)).trans (h.quantifier_eq m hm)

/-- Clauses that say the same have the same roles. -/
lemma rolesOf_eq (h : x.SaysAs c y d) : y.rolesOf d = x.rolesOf c := by
  rw [rolesOf, rolesOf, h.mentions_eq]
  exact List.filterMap_congr h.role_eq

/-- Clauses that say the same have the same roles but for those of a mention. -/
lemma otherRoles_eq (h : x.SaysAs c y d) (m : MentionId) : y.otherRoles d m = x.otherRoles c m := by
  rw [otherRoles, otherRoles, h.mentions_eq]
  exact List.filterMap_congr fun n hn => h.role_eq n (List.mem_filter.1 hn).1

/-- What is told is told by either clause. -/
lemma tellsBounds (h : x.SaysAs c y d) {rs : List RoleId} {q : Quantifier}
    (htells : x.TellsBounds c rs q) : y.TellsBounds d rs q := by
  obtain ⟨hlength, m, hm, hq, hstated, rfl⟩ := htells
  refine ⟨h.mentions_eq ▸ hlength, m, h.mentions_eq ▸ hm, ?_, hstated, (h.otherRoles_eq m).symm⟩
  rwa [h.quantifier_eq m hm]

/-- What is embedded for one clause is so for the other. -/
lemma adequate (h : x.SaysAs c y d) (hc : x.Adequate c) (hx : x.vocabulary.WellFormed)
    (hgrows : x.vocabulary.Grows y.vocabulary) : y.Adequate d := by
  intro hlength m hm q hq hstated
  rw [h.mentions_eq] at hlength hm
  rw [h.quantifier_eq m hm] at hq
  obtain ⟨p, hp⟩ := hc hlength m hm q hq hstated
  exact ⟨p, h.otherRoles_eq m ▸ hp.grows hgrows hx⟩

/-- A ring constraint that is there for one clause is there for the other. -/
lemma ringSettled (h : x.SaysAs c y d) (hc : x.RingSettled c)
    (hroles : ∀ r ∈ x.rolesOf c, r ∈ x.vocabulary.roleIds)
    (hmatches : x.vocabulary.MatchesAs y.vocabulary)
    (hgrows : x.vocabulary.Grows y.vocabulary) : y.RingSettled d := by
  unfold RingSettled at hc ⊢
  rw [h.qualifiers_eq, h.rolesOf_eq, hmatches.relatedPair?_eq hroles]
  refine hc.imp_right fun ⟨hkinds, r, s, hpair, hover⟩ => ⟨hkinds, r, s, hpair, ?_⟩
  exact hgrows.isSome_ringConstraintOver? hover

end SaysAs

/-- A clause that keeps its mentions and its qualifiers says the same as long as only marks change,
and its roles do not. -/
lemma SameButMarks.saysAs (h : x.SameButMarks y) (hmentions : d.mentions = c.mentions)
    (hqualifiers : d.qualifiers = c.qualifiers)
    (hroles : ∀ m ∈ c.mentions, (y.mention m).role = (x.mention m).role) : x.SaysAs c y d := by
  refine ⟨hmentions, hqualifiers, hroles, fun m _ => ?_⟩
  obtain ⟨_, _, _, hm⟩ := h m
  rw [hm]

/-- Mentions declare the same role names as long as only marks change, and roles do not. -/
lemma SameButMarks.declares_iff (h : x.SameButMarks y) {r : RoleId} {name : String}
    (hrole : (y.mention m).role = (x.mention m).role) :
    y.Declares m r name ↔ x.Declares m r name := by
  obtain ⟨_, _, _, hm⟩ := h m
  have hname : (y.mention m).declaredName? = (x.mention m).declaredName? := by
    rw [hm]
    rfl
  exact ⟨fun h => ⟨hrole ▸ h.role_eq, hname ▸ h.declaredName?_eq⟩,
    fun h => ⟨hrole ▸ h.role_eq, hname ▸ h.declaredName?_eq⟩⟩

/-- Mentions still fill a fact type after role sequences have been added. -/
lemma Fills.addsSequences {f : FactTypeId} {ms : List MentionId} (h : x.Fills f ms)
    (hroles : ∀ m ∈ ms, (y.mention m).role = (x.mention m).role)
    (hadds : x.vocabulary.AddsSequences y.vocabulary) : y.Fills f ms := by
  refine ⟨fun m hm => ?_, ?_⟩
  · rw [hroles m hm, hadds.factType_eq]
    exact h.role m hm
  · rw [List.map_congr_left hroles]
    exact h.nodup

/-- Constraints that are noted on mentions do not change what a clause says. -/
lemma SameButConstraints.saysAs (h : x.SameButConstraints y) (c : Clause) : x.SaysAs c y c := by
  refine ⟨rfl, rfl, fun m _ => ?_, fun m _ => ?_⟩ <;>
    · obtain ⟨_, hm⟩ := h m
      rw [hm]

/-- The roles of a clause that fills a fact type are roles of the vocabulary. -/
lemma Fills.mem_roleIds_of_rolesOf {f : FactTypeId} (h : x.Fills f c.mentions)
    (hx : x.vocabulary.WellFormed) :
    ∀ r ∈ x.rolesOf c, r ∈ x.vocabulary.roleIds := by
  intro r hr
  obtain ⟨m, hm, hrole⟩ := List.mem_filterMap.1 hr
  obtain ⟨r', hr', hmem⟩ := h.role m hm
  obtain rfl := Option.some.inj ((Option.mem_def.1 hr').symm.trans hrole)
  exact (hx.mem_roles.1 hmem).1

/-- A ring constraint that is there stays while constraints are noted and added. -/
lemma RingSettled.later (h : x.RingSettled c) (hx : x.Valid) {f : FactTypeId} {s : RoleSequenceId}
    (hc : x.States f c s) (hgrows : x.vocabulary.Grows y.vocabulary)
    (hsame : SameReadings x.vocabulary y.vocabulary)
    (hkept : x.SameButConstraints y) : y.RingSettled c := by
  have hwf := hx.consistent.toWellFormed
  exact (hkept.saysAs c).ringSettled h (hc.fills.mem_roleIds_of_rolesOf hwf)
    (hsame.matchesAs hgrows hwf) hgrows

/-- The mentions of clauses that are ready are mentions of the context. -/
lemma Ready.index_lt {cs : List Clause} (hx : x.Ready cs) (hc : c ∈ cs) :
    ∀ m ∈ c.mentions, m.index < x.mentions.size := fun m hm =>
  (hx.isBound m (mem_allMentions_of_mem hc (c.mentions_subset_allMentions hm))).index_lt

end Context

namespace Compile

variable {x y z : Context} {c d : Clause} {cs ds : List Clause} {a : Alignment} {f : FactTypeId}
  {s : RoleSequenceId} {r : ReadingId} {n : Nat}

/-! ## What adjusting leaves as it is -/

/-- Adjusting a clause changes no more than its role sequence. -/
lemma adjust_eq (h : (adjust c).perform x = (.ok d, y)) :
    ∃ roleSequence, d = { c with roleSequence } := by
  unfold adjust at h
  split at h
  · cases h
    exact ⟨c.roleSequence, by cases c; rfl⟩
  · obtain ⟨_, z, -, hrest⟩ := perform_bind_eq_ok.1 h
    rw [perform_get_bind] at hrest
    split at hrest
    · cases hrest
      exact ⟨c.roleSequence, by cases c; rfl⟩
    · obtain ⟨refs, z', -, hrest⟩ := perform_bind_eq_ok.1 hrest
      obtain ⟨s, w, -, hrest⟩ := perform_bind_eq_ok.1 hrest
      obtain ⟨_, u, -, hpure⟩ := perform_bind_eq_ok.1 hrest
      cases hpure
      exact ⟨_, rfl⟩

/-- A clause that is adjusted still says the same. -/
lemma saysAs_adjust (hx : x.Sustains n x) (hsize : ∀ m ∈ c.mentions, m.index < n)
    (h : (adjust c).perform x = (.ok d, y)) : x.SaysAs c y d := by
  have hroles : x.RolesOnly (fun _ => False) y := ((leads_adjust_rolesOnly c x).of_perform h).1
  have hsustains := ((defines_sustains n).adjust c hx).of_perform h |>.1
  obtain ⟨s, rfl⟩ := adjust_eq h
  exact ⟨rfl, rfl, fun m _ => hroles m id,
    fun m hm => (hsustains.carries.continues m (hsize m hm)).quantifier_eq⟩

/-- Names that mentions declare are there once the clause has been adjusted, and there are no others
than before. Types and readings are the same. -/
lemma names_adjust (hs : c.roleSequence.isSome)
    (hroles : ∀ m ∈ c.mentions, ∀ r ∈ (x.mention m).role, r ∈ x.vocabulary.roleIds)
    (h : (adjust c).perform x = (.ok d, y)) :
    SameReadings x.vocabulary y.vocabulary ∧
      (∀ m ∈ c.mentions, ∀ r name, x.Declares m r name → (y.vocabulary.role r).name = some name) ∧
      ∀ r name, (y.vocabulary.role r).name = some name →
        (x.vocabulary.role r).name = some name ∨ ∃ m ∈ c.mentions, x.Declares m r name := by
  obtain ⟨s, hs⟩ := Option.isSome_iff_exists.1 hs
  rw [adjust, hs] at h
  obtain ⟨_, z, hnamed, hrest⟩ := perform_bind_eq_ok.1 h
  obtain ⟨w, rfl, -, hsame, hthere, howed⟩ := names_of_nameMatchedRoles hroles hnamed
  suffices hadds : w.AddsSequences y.vocabulary by
    obtain ⟨more, hy⟩ := hadds
    rw [hy]
    exact ⟨⟨hsame.1, hsame.2, hsame.3⟩, hthere, howed⟩
  rw [perform_get_bind] at hrest
  split at hrest
  · cases hrest
    exact .refl w
  · obtain ⟨refs, z', hrefs, hrest⟩ := perform_bind_eq_ok.1 hrest
    obtain ⟨-, rfl⟩ := perform_ofExcept_eq_ok.1 hrefs
    obtain ⟨s', z'', hsequence, hrest⟩ := perform_bind_eq_ok.1 hrest
    cases hsequence
    obtain ⟨_, u, hplaces, hpure⟩ := perform_bind_eq_ok.1 hrest
    cases hpure
    have hvocabulary : w.pushRoleSequence refs = y.vocabulary :=
      ((leads_placeMentions_same _ c.mentions _).of_perform hplaces).1
    exact hvocabulary ▸ w.addsSequences_pushRoleSequence refs

/-! ## What embedding leaves behind -/

/-- Once the constraints of a clause have been embedded, its ring constraint is there. -/
lemma settled_embed_clause (hx : x.Constrained) (hc : x.States f c s) {u : Unit}
    (h : (do
      let _ ← embedPresenceConstraints c
      let _ ← embedRingConstraint c : Compile Unit).perform x = (.ok u, z)) : z.RingSettled c := by
  obtain ⟨ps, w, hpresence, hrest⟩ := perform_bind_eq_ok.1 h
  obtain ⟨o, w', hring, hpure⟩ := perform_bind_eq_ok.1 hrest
  cases hpure
  obtain ⟨hgives, -⟩ := givesRoles_embedPresenceConstraints hx hpresence
  obtain ⟨hw, -⟩ := adequate_embedPresenceConstraints hx hc hpresence
  exact settled_of_embedRingConstraint hw (hc.gives hgives fun _ _ => id) hring

/-- Once the constraints of clauses have been embedded, their ring constraints are there. -/
lemma settled_embed (hx : x.Constrained) (hcs : ∀ c ∈ cs, ∃ s, x.States f c s) {u : Unit}
    (h : (cs.forM fun c => do
      let _ ← embedPresenceConstraints c
      let _ ← embedRingConstraint c).perform x = (.ok u, y)) : ∀ c ∈ cs, y.RingSettled c := by
  induction cs generalizing x with
  | nil => exact List.forall_mem_nil _
  | cons c cs ih =>
    rw [List.forM] at h
    obtain ⟨_, z, hfirst, hrest⟩ := perform_bind_eq_ok.1 h
    obtain ⟨s, hs⟩ := hcs c List.mem_cons_self
    obtain ⟨hz, -, hgives, -⟩ := adequate_embed_clause hx hs hfirst
    refine List.forall_mem_cons.2 ⟨?_, ih hz (fun d hd => ?_) hrest⟩
    · exact (settled_embed_clause hx hs hfirst).later hz.valid (hs.gives hgives fun _ _ => id)
        ((defines_evolving.embed cs z).of_perform hrest).1.retains.toGrows
        ((embeds_sameReadings.embed cs z).of_perform hrest).1
        ((embeds_sameButConstraints.embed cs (.refl z)).of_perform hrest).1
    · obtain ⟨t, ht⟩ := hcs d (List.mem_cons_of_mem c hd)
      exact ⟨t, ht.gives hgives fun _ _ => id⟩

/-- Once a fact type has been defined by clauses, the ring constraints of the clauses are there. -/
lemma settled_defineFactType (hx : x.Ready cs) (hi : x.vocabulary.Inherits)
    (hc : x.vocabulary.Constrained) {created : Bool}
    (h : (defineFactType cs).perform x = (.ok (f, created, ds), z)) :
    ∀ d ∈ ds, z.RingSettled d := by
  obtain ⟨y, hstate, hembed⟩ := perform_defineFactType_eq_ok.1 h
  obtain ⟨hy, -, -, -, hstates⟩ := states_stateAll hx hi hc hstate
  exact settled_embed hy hstates hembed

/-- Constraints that clauses state are left as they are if they are there. -/
lemma embed_of_forall_adequate (hx : x.Constrained)
    (hcs : ∀ c ∈ cs, (∃ s, x.States f c s) ∧ x.Adequate c ∧ x.RingSettled c) :
    ∃ y, (cs.forM fun d => do
      let _ ← embedPresenceConstraints d
      let _ ← embedRingConstraint d).perform x = (.ok ⟨⟩, y) ∧ y.vocabulary = x.vocabulary := by
  induction cs generalizing x with
  | nil => exact ⟨x, rfl, rfl⟩
  | cons c cs ih =>
    obtain ⟨⟨s, hs⟩, hadequate, hring⟩ := hcs c List.mem_cons_self
    obtain ⟨z, hembed, hz⟩ := embed_of_adequate hx hs hadequate hring
    obtain ⟨_, z', hfirst, hnil⟩ := perform_bind_eq_ok.1 hembed
    cases hnil
    obtain ⟨hconstrained, -, hgives, hkept⟩ := adequate_embed_clause hx hs hfirst
    have hsame : SameReadings x.vocabulary z.vocabulary := hz ▸ .refl _
    obtain ⟨y, hrest, hy⟩ := ih hconstrained fun d hd => by
      obtain ⟨⟨t, ht⟩, hadequate', hring'⟩ := hcs d (List.mem_cons_of_mem c hd)
      exact ⟨⟨t, ht.gives hgives fun _ _ => id⟩, hadequate'.later hx.valid hgives.grows hkept,
        hring'.later hx.valid ht hgives.grows hsame hkept⟩
    exact ⟨y, perform_bind_eq_ok.2 ⟨_, z, hfirst, hrest⟩, hy.trans hz⟩

/-! ## Defining by a clause that invokes a reading -/

namespace Invokes

variable (h : Invokes x c a y)

include h

/-- What an invoking clause leaves behind when it has been put into the words of the reading. -/
lemma told (hx : x.Ready [c]) :
    (c.aligned a).mentions = c.mentions ∧ y.Valid ∧ a.factType ∈ y.vocabulary.factTypeIds ∧
      y.Fills a.factType c.mentions ∧ x.Sustains x.mentions.size y := by
  obtain ⟨hgives, hkeeps, htold⟩ := told_resolveStated hx h.resolveStated_eq
  obtain ⟨f, hf, hmem, hfills, -⟩ := htold.fills rfl
  obtain rfl : f = a.factType := (Option.mem_def.1 hf).symm.trans rfl |> Option.some.inj
  have hsustains := ((defines_sustains x.mentions.size).resolveStated c hx.sustains).of_perform
    h.resolveStated_eq |>.1
  exact ⟨hkeeps.mentions_eq, hgives.valid, hmem, hkeeps.mentions_eq ▸ hfills, hsustains⟩

/-- In the words of its reading the clause says what it said. -/
lemma saysAs_aligned (hx : x.Ready [c]) : y.SaysAs c y (c.aligned a) :=
  ⟨(h.told hx).1, rfl, fun _ _ => rfl, fun _ _ => rfl⟩

/-- Roles of the mentions of an invoking clause are roles of the vocabulary. -/
lemma mem_roleIds (hx : x.Ready [c]) : ∀ m ∈ c.mentions, ∀ r ∈ (y.mention m).role,
    r ∈ y.vocabulary.roleIds := by
  intro m hm r hr
  obtain ⟨-, hy, -, hfills, -⟩ := h.told hx
  exact hfills.mem_roleIds_of_rolesOf hy.consistent.toWellFormed r
    (List.mem_filterMap.2 ⟨m, hm, hr⟩)

end Invokes

/-- A clause has been adjusted to the reading that it invokes: it states the reading and says what
it said, its role names are there, and no constraints have changed. -/
structure Adjusted (x : Context) (c : Clause) (f : FactTypeId) (y : Context) (d : Clause)
    (z : Context) :
    Prop where
  constrained : z.Constrained
  spares : x.vocabulary.SparesConstraints z.vocabulary
  grows : x.vocabulary.Grows z.vocabulary
  sameReadings : SameReadings x.vocabulary z.vocabulary
  saysAs : y.SaysAs c z d
  states : ∃ s, z.States f d s
  name_iff : ∀ r name, (z.vocabulary.role r).name = some name ↔
    (x.vocabulary.role r).name = some name ∨ ∃ m ∈ c.mentions, y.Declares m r name

/-- What adjusting leaves behind for a clause that invokes a reading. -/
theorem Invokes.adjusted (h : Invokes x c a y) (hx : x.Ready [c]) (hi : x.vocabulary.Inherits)
    (hc : x.vocabulary.Constrained) (hadjust : (adjust (c.aligned a)).perform y = (.ok d, z)) :
    Adjusted x c a.factType y d z := by
  obtain ⟨hmentions, -, -, -, hsustains⟩ := h.told hx
  have hstate : (stateAll [c]).perform x = (.ok (a.factType, false, [d]), z) :=
    h.perform_stateAll_eq_ok.2 ⟨rfl, rfl, d, rfl, hadjust⟩
  obtain ⟨hz, hspares, hgrows, -, hstates⟩ := states_stateAll hx hi hc hstate
  obtain ⟨hsame, hdeclared, hothers⟩ := names_adjust (c := c.aligned a) rfl
    (fun m hm => h.mem_roleIds hx m (hmentions ▸ hm)) hadjust
  rw [h.vocabulary_eq] at hsame hothers
  rw [hmentions] at hdeclared hothers
  have hsize := hx.index_lt List.mem_cons_self
  refine ⟨hz, hspares, hgrows, hsame, (h.saysAs_aligned hx).trans (saysAs_adjust
    hsustains.refl_right (hmentions.symm ▸ hsize) hadjust), hstates d List.mem_cons_self, ?_⟩
  intro r name
  refine ⟨hothers r name, ?_⟩
  rintro (hname | ⟨m, hm, hdeclares⟩)
  · refine (hgrows.role (by_contra fun hr => ?_)).name name hname
    rw [Vocabulary.role_of_not_mem hr] at hname
    cases hname
  · exact hdeclared m hm r name hdeclares

/-! ## What clauses keep -/

section Field

variable {β : Type} (field : Clause → β)
  (hfield : ∀ c : Clause, ∀ factType reading roleSequence,
    field { c with factType, reading, roleSequence } = field c)

include hfield

/-- What does not depend on the reading of a clause is kept when clauses come to state readings. -/
lemma map_stateReadings (h : (stateReadings f cs).perform x = (.ok ds, y)) :
    ds.map field = cs.map field := by
  induction cs generalizing x ds with
  | nil =>
    cases h
    rfl
  | cons c cs ih =>
    obtain ⟨d, z, es, rfl, hmore, hfirst⟩ := stateReadings_cons_eq_ok h
    have hown : field d = field c := by
      rcases hfirst with ⟨-, hadjust⟩ | ⟨-, r, hmake⟩
      · obtain ⟨s, rfl⟩ := adjust_eq hadjust
        exact hfield c c.factType c.reading s
      · obtain ⟨_, _, -, -, rfl, -⟩ := perform_makeReading_eq_ok hmake
        exact hfield c ..
    rw [List.map_cons, List.map_cons, hown, ih hmore]

/-- What does not depend on the fact type of a clause is kept when that of clauses is found or
made. -/
lemma map_statedFactType {created : Bool}
    (h : (statedFactType cs).perform x = (.ok (f, created, ds), y)) :
    ds.map field = cs.map field := by
  unfold statedFactType at h
  split at h
  · cases h
    rfl
  · obtain ⟨⟨g, first⟩, z, hmake, hpure⟩ := perform_bind_eq_ok.1 h
    cases hpure
    obtain ⟨-, rfl, -⟩ := casts_makeFactType hmake
    exact congrArg (· :: _) (hfield _ _ _ _)
  · cases h
  · rw [perform_get_bind] at h
    cases h

end Field

/-- Clauses without nested clauses keep their qualifiers when a fact type is defined by them. -/
lemma qualifiers_stateAll (hflat : ∀ c ∈ cs, c.IsFlat) {created : Bool}
    (h : (stateAll cs).perform x = (.ok (f, created, ds), y)) :
    ds.map (·.qualifiers) = cs.map (·.qualifiers) := by
  obtain ⟨resolved, y₁, hresolve, hrest⟩ := perform_bind_eq_ok.1 h
  obtain ⟨⟨g, isNew, stated⟩, y₂, hstated, hrest⟩ := perform_bind_eq_ok.1 hrest
  obtain ⟨read, y₃, hread, hpure⟩ := perform_bind_eq_ok.1 hrest
  cases hpure
  obtain ⟨os, hfinds, rfl⟩ := (perform_resolveAllStated_eq_ok hflat).1 hresolve
  have hkept : ∀ c : Clause, ∀ factType reading roleSequence,
      { c with factType, reading, roleSequence }.qualifiers = c.qualifiers := fun _ _ _ _ => rfl
  rw [map_stateReadings _ hkept hread, map_statedFactType _ hkept hstated]
  exact hfinds.map_found (·.qualifiers) fun _ _ => rfl

/-- Clauses keep their mentions and their qualifiers when they come to state readings of a fact
type. -/
lemma keepsText_stateAll (hx : x.Ready cs) (hi : x.vocabulary.Inherits)
    (hc : x.vocabulary.Constrained) (hflat : ∀ c ∈ cs, c.IsFlat) {created : Bool}
    (h : (stateAll cs).perform x = (.ok (f, created, ds), y)) :
    List.Forall₂ (fun c d => d.mentions = c.mentions ∧ d.qualifiers = c.qualifiers) cs ds := by
  obtain ⟨-, -, -, hkeeps, -⟩ := states_stateAll hx hi hc h
  have hsame : List.Forall₂ Eq (ds.map (·.qualifiers)) (cs.map (·.qualifiers)) := by
    rw [qualifiers_stateAll hflat h, List.forall₂_eq_eq_eq]
  rw [List.forall₂_map_left_iff, List.forall₂_map_right_iff] at hsame
  exact hkeeps.mp (fun c d hkept hsame => ⟨hkept.mentions_eq, hsame⟩) hsame.flip

/-! ## Clauses that restate readings -/

/-- Clauses invoke readings of a fact type, and what they state is there: their role names, their
bounds and their ring constraints. -/
structure Restates (x : Context) (cs : List Clause) (f : FactTypeId) (y : Context) : Prop where
  finds : ∃ as : List Alignment, (∀ a ∈ as, a.factType = f) ∧ Finds x cs (as.map some) y
  named : ∀ c ∈ cs, ∀ m ∈ c.mentions, ∀ r name, y.Declares m r name →
    (y.vocabulary.role r).name = some name
  adequate : ∀ c ∈ cs, y.Adequate c
  ringSettled : ∀ c ∈ cs, y.RingSettled c

/-- What is found is the clause itself, or the clause in the words of its reading. -/
lemma exists_of_mem_found {os : List (Option Alignment)} (hd : d ∈ List.zipWith found cs os) :
    ∃ c ∈ cs, ∃ o ∈ os, d = found c o := by
  rw [← List.map_uncurry_zip_eq_zipWith] at hd
  obtain ⟨⟨c, o⟩, hmem, rfl⟩ := List.mem_map.1 hd
  exact ⟨c, (List.of_mem_zip hmem).1, o, (List.of_mem_zip hmem).2, rfl⟩

/-- Clauses that invoke readings of one fact type state this fact type. -/
lemma perform_statedFactType (hne : cs ≠ []) (hcs : ∀ c ∈ cs, c.factType = some f) :
    (statedFactType cs).perform x = (.ok (f, false, cs), x) := by
  obtain ⟨c, others, rfl⟩ := List.exists_cons_of_ne_nil hne
  obtain ⟨hfirst, hothers⟩ := List.forall_mem_cons.1 hcs
  have hsingle : ((c :: others).filterMap (·.factType)).eraseDups = [f] := by
    rw [List.filterMap_cons, hfirst, List.eraseDups_cons, List.filter_eq_nil_iff.2,
      List.eraseDups_nil]
    intro g hg
    obtain ⟨d, hd, hg⟩ := List.mem_filterMap.1 hg
    obtain rfl := Option.some.inj ((hothers d hd).symm.trans hg)
    simp
  unfold statedFactType
  rw [hsingle]
  rfl

/-- Clauses whose role names are there add no more than role sequences. -/
lemma stateReadings_of_named (hcs : ∀ c ∈ cs, c.reading.isSome ∧ c.roleSequence.isSome ∧
      x.Fills f c.mentions ∧ ∀ m ∈ c.mentions, ∀ r name, x.Declares m r name →
        (x.vocabulary.role r).name = some name) :
    ∃ ds y, (stateReadings f cs).perform x = (.ok ds, y) ∧
      x.vocabulary.AddsSequences y.vocabulary := by
  induction cs generalizing x with
  | nil => exact ⟨[], x, rfl, .refl _⟩
  | cons c cs ih =>
    obtain ⟨hread, hs, hfills, hnamed⟩ := hcs c List.mem_cons_self
    obtain ⟨d, z, hadjust, hadds⟩ := adjust_of_named hs hfills hnamed
    have hroles : x.RolesOnly (fun _ => False) z :=
      ((leads_adjust_rolesOnly c x).of_perform hadjust).1
    have hmarks := ((keeps_adjust_sameButMarks c (.refl x)).of_perform hadjust).1
    obtain ⟨ds, y, hrest, hadds'⟩ := ih fun e he => by
      obtain ⟨hread', hs', hfills', hnamed'⟩ := hcs e (List.mem_cons_of_mem c he)
      refine ⟨hread', hs', hfills'.addsSequences (fun m _ => hroles m id) hadds,
        fun m hm r name hdeclares => ?_⟩
      rw [hadds.role_eq]
      exact hnamed' m hm r name ((hmarks.declares_iff (hroles m id)).1 hdeclares)
    refine ⟨d :: ds, y, ?_, hadds.trans hadds'⟩
    rw [stateReadings, if_pos hread]
    exact perform_bind_eq_ok.2 ⟨d, z, hadjust, perform_bind_eq_ok.2 ⟨ds, y, hrest, rfl⟩⟩

/-- Clauses that all invoke readings keep their roles when they come to state them. -/
lemma rolesOnly_stateReadings (hcs : ∀ c ∈ cs, c.reading.isSome)
    (h : (stateReadings f cs).perform x = (.ok ds, y)) : x.RolesOnly (fun _ => False) y := by
  refine ((leads_stateReadings_rolesOnly (fun c hc hunread => ?_) f x).of_perform h).1
  have hread := hcs c hc
  rw [hunread] at hread
  cases hread

/-- **To define again adds nothing.** A definition by clauses that restate readings of a fact type
is about this fact type and adds nothing but role sequences. -/
theorem Restates.exists_defineFactType (h : Restates x cs f y) (hne : cs ≠ [])
    (hflat : ∀ c ∈ cs, c.IsFlat) (hx : x.Ready cs) (hi : x.vocabulary.Inherits)
    (hc : x.vocabulary.Constrained) :
    ∃ ds z, (defineFactType cs).perform x = (.ok (f, false, ds), z) ∧
      x.vocabulary.AddsSequences z.vocabulary := by
  obtain ⟨as, hfactTypes, hfinds⟩ := h.finds
  have hvocabulary := hfinds.vocabulary_eq
  have hresolve := (perform_resolveAllStated_eq_ok hflat).2 ⟨_, hfinds, rfl⟩
  obtain ⟨hgives, hkeeps, htold⟩ := told_resolveAllStated hx hresolve
  have hwf := hgives.valid.consistent.toWellFormed
  have hread : ∀ d ∈ List.zipWith found cs (as.map some),
      d.reading.isSome ∧ d.factType = some f := by
    intro d hd
    obtain ⟨c, -, o, ho, rfl⟩ := exists_of_mem_found hd
    obtain ⟨a, ha, rfl⟩ := List.mem_map.1 ho
    exact ⟨rfl, congrArg some (hfactTypes a ha)⟩
  have hfills : ∀ d ∈ List.zipWith found cs (as.map some),
      y.Fills f d.mentions ∧ d.roleSequence.isSome := by
    intro d hd
    obtain ⟨g, hg, -, hfills, hs⟩ := (htold d hd).fills (hread d hd).1
    obtain rfl := Option.some.inj ((Option.mem_def.1 hg).symm.trans (hread d hd).2)
    exact ⟨hfills, hs⟩
  have hstated : (statedFactType (List.zipWith found cs (as.map some))).perform y =
      (.ok (f, false, List.zipWith found cs (as.map some)), y) := by
    refine perform_statedFactType (fun hnil => hne ?_) fun d hd => (hread d hd).2
    exact List.length_eq_zero_iff.1 (hkeeps.length_eq.trans (congrArg List.length hnil))
  obtain ⟨ds, z, hreads, hadds⟩ := stateReadings_of_named (f := f) fun d hd =>
    ⟨(hread d hd).1, (hfills d hd).2, (hfills d hd).1, fun m hm => by
      obtain ⟨c, hc, hkept⟩ := exists_of_forall₂ hkeeps hd
      exact h.named c hc m (hkept.mentions_eq ▸ hm)⟩
  have hstate : (stateAll cs).perform x = (.ok (f, false, ds), z) :=
    perform_bind_eq_ok.2 ⟨_, y, hresolve, perform_bind_eq_ok.2 ⟨_, y, hstated,
      perform_bind_eq_ok.2 ⟨ds, z, hreads, rfl⟩⟩⟩
  obtain ⟨hz, -, -, hkept, hstates⟩ := states_stateAll hx hi hc hstate
  -- What the clauses say has not changed, so that it is there already.
  have hmarks := ((keeps_stateReadings_sameButMarks f _ (.refl y)).of_perform hreads).1
  have hroles := rolesOnly_stateReadings (fun d hd => (hread d hd).1) hreads
  have hsaid := (keepsText_stateAll hx hi hc hflat hstate).imp fun c d hkept =>
    hmarks.saysAs hkept.1 hkept.2 fun m _ => hroles m id
  obtain ⟨z', hembed, hz'⟩ := embed_of_forall_adequate hz fun d hd => by
    obtain ⟨c, hc, hsays⟩ := exists_of_forall₂ hsaid hd
    refine ⟨hstates d hd, hsays.adequate (h.adequate c hc) hwf hadds.grows,
      hsays.ringSettled (h.ringSettled c hc) ?_ (hadds.sameReadings.matchesAs hadds.grows hwf)
        hadds.grows⟩
    obtain ⟨e, he, hkept⟩ := exists_of_forall₂ hkeeps.flip hc
    exact Fills.mem_roleIds_of_rolesOf (hkept.mentions_eq ▸ (hfills e he).1) hwf
  refine ⟨ds, z', perform_defineFactType_eq_ok.2 ⟨z, hstate, hembed⟩, ?_⟩
  rw [hz', ← hvocabulary]
  exact hadds

/-- **Clauses in the same roles restate what they have stated.** Over the vocabulary that a
definition leads to, let its clauses invoke readings of the fact type that give their mentions the
roles that they have got, and let the role names that they declare be there. Then what they state
is there. -/
theorem restates_of_roles (hx : x.Ready cs) (hi : x.vocabulary.Inherits)
    (hconstrained : x.vocabulary.Constrained) (hflat : ∀ c ∈ cs, c.IsFlat) {created : Bool}
    (hdefine : (defineFactType cs).perform x = (.ok (f, created, ds), z))
    (hagain : (x.onto z.vocabulary).Ready cs) {as : List Alignment}
    (hfactTypes : ∀ a ∈ as, a.factType = f)
    (hfinds : Finds (x.onto z.vocabulary) cs (as.map some) y)
    (hroles : ∀ c ∈ cs, ∀ m ∈ c.mentions, (y.mention m).role = (z.mention m).role)
    (hnamed : ∀ c ∈ cs, ∀ m ∈ c.mentions, ∀ r name, z.Declares m r name →
      (z.vocabulary.role r).name = some name) :
    Restates (x.onto z.vocabulary) cs f y := by
  have hvocabulary : y.vocabulary = z.vocabulary := hfinds.vocabulary_eq
  obtain ⟨hz, -, hheads⟩ := adequate_defineFactType hx hi hconstrained hdefine
  have hwf := hz.valid.consistent.toWellFormed
  have hgrows : z.vocabulary.Grows y.vocabulary := hvocabulary ▸ .refl _
  have hmatches : z.vocabulary.MatchesAs y.vocabulary :=
    hvocabulary ▸ (SameReadings.refl z.vocabulary).matchesAs (.refl _) hwf
  have hsustains := ((defines_sustains x.mentions.size).defineFactType cs hx.sustains).of_perform
    hdefine |>.1
  have hsustains' := ((defines_sustains _).resolveAllStated cs hagain.sustains).of_perform
    ((perform_resolveAllStated_eq_ok hflat).2 ⟨_, hfinds, rfl⟩) |>.1
  have hcontinues : ∀ c ∈ cs, ∀ m ∈ c.mentions, (x.mention m).Continues (z.mention m) ∧
      (x.mention m).Continues (y.mention m) := fun c hc m hm =>
    ⟨hsustains.carries.continues m (hx.index_lt hc m hm),
      hsustains'.carries.continues m (hagain.index_lt hc m hm)⟩
  have hsaid : ∀ c ∈ cs, ∃ d ∈ ds, z.SaysAs d y c := by
    intro c hc
    obtain ⟨z', hstate, -⟩ := perform_defineFactType_eq_ok.1 hdefine
    obtain ⟨d, hd, hmentions, hqualifiers⟩ :=
      exists_of_forall₂ (keepsText_stateAll hx hi hconstrained hflat hstate).flip hc
    refine ⟨d, hd, hmentions.symm, hqualifiers.symm, fun m hm => hroles c hc m (hmentions ▸ hm),
      fun m hm => ?_⟩
    obtain ⟨hz', hy'⟩ := hcontinues c hc m (hmentions ▸ hm)
    exact hy'.quantifier_eq.trans hz'.quantifier_eq.symm
  refine ⟨⟨as, hfactTypes, hfinds⟩, fun c hc m hm r name hdeclares => ?_, fun c hc => ?_,
    fun c hc => ?_⟩
  · rw [hvocabulary]
    refine hnamed c hc m hm r name ⟨hroles c hc m hm ▸ hdeclares.role_eq, ?_⟩
    obtain ⟨hz', hy'⟩ := hcontinues c hc m hm
    have hname := hdeclares.declaredName?_eq
    rwa [Mention.declaredName?, hy'.roleName_eq, ← hz'.roleName_eq] at hname
  · obtain ⟨d, hd, hsays⟩ := hsaid c hc
    exact hsays.adequate (hheads d hd).2 hwf hgrows
  · obtain ⟨d, hd, hsays⟩ := hsaid c hc
    obtain ⟨⟨s, hs⟩, -⟩ := hheads d hd
    exact hsays.ringSettled (settled_defineFactType hx hi hconstrained hdefine d hd)
      (hs.fills.mem_roleIds_of_rolesOf hwf) hmatches hgrows

end Compile

end FactModel
