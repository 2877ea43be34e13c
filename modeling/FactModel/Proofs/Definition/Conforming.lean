import FactModel.Proofs.Definition.Apart
import FactModel.Proofs.Definition.Invoking
import FactModel.Proofs.Matching.Conservation
import FactModel.Proofs.Matching.Renaming
import FactModel.Proofs.Session.Restating
set_option autoImplicit false

/-!
# Clauses in the words of one reading

A clause conforms to a reading of a fact type if it is in its words and in those of no other fact
type. Then it invokes a reading of the fact type, and where no two readings of the fact type are in
the same words it invokes this one. A clause that has invoked a reading at no cost conforms to it,
and so does a clause that has become a reading with a place for each role.

## Main definitions

* `FactModel.Context.Conforms` — a clause is in the words of a reading, and in those of no other
  fact type.
* `FactModel.Context.Reads` — and its mentions have the roles that the reading gives to them.

## Main results

* `FactModel.Compile.exists_finds` — clauses that conform to readings invoke these.
* `FactModel.Compile.reads_resolveAllStated` — clauses conform to what they have invoked.
* `FactModel.Compile.reads_stateReadings` — clauses conform to the readings that they become.
-/

namespace FactModel

open Attempt Compile Context

/-- The roles that the placeholders of a reading stand for, in the order of its words. -/
def Vocabulary.placedRoles (v : Vocabulary) (r : ReadingId) : List (Option RoleId) :=
  (Template.places (v.reading r).tokens).map fun k => ((v.readingRefs r)[k]?).map (·.role)

/-- A reading that is retained has its placeholders for the same roles. -/
lemma Vocabulary.Retains.placedRoles_eq {v w : Vocabulary} (hvw : v.Retains w) (hv : v.WellFormed)
    {r : ReadingId} (hr : r ∈ v.readingIds) : w.placedRoles r = v.placedRoles r := by
  rw [placedRoles, hvw.reading_eq hr, hvw.readingRefs_eq hv hr, placedRoles]

/-- A clause is in the words of a reading of a fact type that clauses invoke. The other readings in
whose words it is, and which clauses invoke, belong to the same fact type or are negative while the
clause is not negated. -/
structure Context.Conforms (x : Context) (c : Clause) (f : FactTypeId) (r : ReadingId) : Prop where
  reading_mem : r ∈ x.vocabulary.readingIds
  factType_eq : (x.vocabulary.reading r).factType = f
  isInvocable : x.vocabulary.IsInvocable r
  echo : x.Echo c r
  certainty : (x.vocabulary.reading r).isNegative → c.certainty = .negated
  mayState : x.MayState f c

/-- A clause has a mention for each role of a fact type, and no more phrases than there may be
placeholders. -/
structure Context.MentionsAll (x : Context) (f : FactTypeId) (c : Clause) : Prop where
  mentions_ne_nil : c.mentions ≠ []
  length_mentions : c.mentions.length = (x.vocabulary.factType f).arity
  length_phrases : c.phrases.length ≤ Template.placeLimit

namespace Context

variable {x y : Context} {c d : Clause} {f : FactTypeId} {r : ReadingId}

/-- A clause has a mention for each role just in case it had before. -/
lemma mentionsAll_iff_of_retains (hf : f ∈ x.vocabulary.factTypeIds)
    (hretains : x.vocabulary.Retains y.vocabulary) : y.MentionsAll f c ↔ x.MentionsAll f c := by
  have harity : (y.vocabulary.factType f).arity = (x.vocabulary.factType f).arity :=
    congrArg List.length (hretains.roles_eq f hf)
  exact ⟨fun h => ⟨h.1, harity ▸ h.2, h.3⟩, fun h => ⟨h.1, harity.symm ▸ h.2, h.3⟩⟩

/-- Of a clause only its words matter. -/
lemma MentionsAll.of_phrases_eq (h : x.MentionsAll f c) (hphrases : d.phrases = c.phrases) :
    x.MentionsAll f d := by
  have hmentions : d.mentions = c.mentions := by
    rw [Clause.mentions, Clause.slots, hphrases]
    rfl
  exact ⟨hmentions ▸ h.1, hmentions ▸ h.2, hphrases ▸ h.3⟩

namespace Conforms

variable (h : x.Conforms c f r)

include h

/-- A clause stays in the words of a reading while other readings are added that belong to the fact
type or are not invoked. -/
lemma later (hx : x.vocabulary.WellFormed) (hxy : x.vocabulary.Retains y.vocabulary)
    (hworded : x.WordedAs c y)
    (hnew : ∀ q ∈ y.vocabulary.readingIds, q ∉ x.vocabulary.readingIds →
      (y.vocabulary.reading q).factType = f) : y.Conforms c f r where
  reading_mem := hxy.toGrows.mem_readingIds h.reading_mem
  factType_eq := hxy.reading_eq h.reading_mem ▸ h.factType_eq
  isInvocable := (hxy.isInvocable_iff hx h.reading_mem).2 h.isInvocable
  echo := (echo_iff_of_retains hx hxy hworded h.reading_mem).2 h.echo
  certainty := hxy.reading_eq h.reading_mem ▸ h.certainty
  mayState := h.mayState.later hx hxy hworded fun q hq hq' _ => hnew q hq hq'

/-- Of a clause only its words and its certainty matter. -/
lemma of_phrases_eq (hphrases : d.phrases = c.phrases) (hcertainty : d.certainty = c.certainty) :
    x.Conforms d f r where
  reading_mem := h.reading_mem
  factType_eq := h.factType_eq
  isInvocable := h.isInvocable
  echo := by
    unfold Echo
    rw [hphrases]
    exact h.echo
  certainty hnegative := hcertainty.trans (h.certainty hnegative)
  mayState := h.mayState.of_phrases_eq hphrases hcertainty

/-- The mentions of a clause in the words of a reading are mentions of the context. -/
lemma index_lt : ∀ m ∈ c.mentions, m.index < x.mentions.size := by
  intro m hm
  obtain ⟨s, hs, rfl⟩ := List.mem_map.1 hm
  obtain ⟨ref, -, hplayer⟩ := exists_player_of_echoes h.echo hs
  exact lt_of_player hplayer

/-- If no two readings of the fact type are in the same words, then a clause is in the words of one
of them at most. -/
lemma unique (hx : x.vocabulary.WellFormed)
    (hapart : ∀ q ∈ (x.vocabulary.factType f).readings, ∀ q' ∈ (x.vocabulary.factType f).readings,
      x.vocabulary.SameWords q q' → q = q') {q : ReadingId} (hq : x.Conforms c f q) : q = r :=
  hapart q (hx.mem_readings.2 ⟨hq.reading_mem, hq.factType_eq⟩) r
    (hx.mem_readings.2 ⟨h.reading_mem, h.factType_eq⟩) (sameWords_of_echo hq.echo h.echo)

end Conforms

end Context

/-- In one context a clause is in the words of a reading over the vocabulary of another one, and in
this one its mentions have the roles that the reading gives to them. -/
def Context.Reads (x : Context) (c : Clause) (f : FactTypeId) (y : Context) : Prop :=
  ∃ r, (x.onto y.vocabulary).Conforms c f r ∧
    c.mentions.map (fun m => (y.mention m).role) = y.vocabulary.placedRoles r

namespace Context.Reads

variable {x x' y z : Context} {c d : Clause} {f : FactTypeId} (h : x.Reads c f y)

include h

/-- A clause goes on to be in the words of its reading while roles are kept, and readings are added
of the fact type only. -/
lemma later (hy : y.vocabulary.WellFormed) (hretains : y.vocabulary.Retains z.vocabulary)
    (hroles : ∀ m ∈ c.mentions, (z.mention m).role = (y.mention m).role)
    (hnew : ∀ q ∈ z.vocabulary.readingIds, q ∉ y.vocabulary.readingIds →
      (z.vocabulary.reading q).factType = f) : x.Reads c f z := by
  obtain ⟨r, hr, hplaced⟩ := h
  refine ⟨r, hr.later (y := x.onto z.vocabulary) hy hretains (fun m _ => ⟨rfl, rfl, rfl⟩) hnew, ?_⟩
  rw [hretains.placedRoles_eq hy hr.reading_mem, ← hplaced]
  exact List.map_congr_left hroles

/-- Only the words of the mentions matter where a clause is in the words of its reading. -/
lemma reworded (hy : y.vocabulary.WellFormed) (hworded : x.WordedAs c x') : x'.Reads c f y := by
  obtain ⟨r, hr, hplaced⟩ := h
  exact ⟨r, hr.later (y := x'.onto y.vocabulary) hy (.refl _) hworded
    fun q hq hq' => absurd hq hq', hplaced⟩

/-- Of a clause only its words and its certainty matter. -/
lemma of_phrases_eq (hphrases : d.phrases = c.phrases) (hcertainty : d.certainty = c.certainty) :
    x.Reads d f y := by
  obtain ⟨r, hr, hplaced⟩ := h
  refine ⟨r, hr.of_phrases_eq hphrases hcertainty, ?_⟩
  rwa [Clause.mentions, Clause.slots, hphrases]

end Context.Reads

namespace Compile

variable {x y z : Context} {c d : Clause} {cs ds : List Clause} {a : Alignment} {f : FactTypeId}
  {r : ReadingId}

/-! ## Roles that readings give -/

/-- A walk gives mentions the roles that the placeholders stand for. -/
lemma roles_of_walks {options : MatchOptions} {refs : List RoleRef}
    {tokens : List Template.Token} {mayNegate : Bool} {place : ClausePlace}
    {placements : List Placement} {negation : Option Nat}
    (h : Walks x options refs tokens mayNegate place placements negation) :
    placements.map (fun p => some p.role) =
      (Template.places tokens).map fun k => (refs[k]?).map (·.role) := by
  rw [← h.roleRefs_eq, List.map_map]
  refine List.map_congr_left fun p hp => ?_
  obtain ⟨ref, href, hrole⟩ := h.role_eq hp
  rw [Function.comp_apply, href, hrole]
  rfl

/-- The mentions of a clause that invokes a reading get the roles that its placeholders stand
for. -/
lemma Invokes.roles_eq (h : Invokes x c a y) (hnodup : c.mentions.Nodup)
    (hsize : ∀ m ∈ c.mentions, m.index < x.mentions.size) :
    c.mentions.map (fun m => (y.mention m).role) = x.vocabulary.placedRoles a.reading := by
  obtain ⟨-, halign⟩ := mem_rank.1 (mem_of_select h.select_eq)
  obtain ⟨-, hwalks, -⟩ := align_eq_ok_iff.1 halign
  obtain ⟨-, -, hroles⟩ := (ends_applyAlignment_role halign hnodup hsize).of_perform h.apply_eq
  rw [Clause.mentions, Clause.slots_aligned halign, ← Clause.mentions] at hroles
  exact hroles.trans (roles_of_walks hwalks)

/-! ## Clauses in the words of one reading -/

/-- A clause that invokes a reading at no cost is in the words of this reading, and in those of no
other fact type. -/
lemma Invokes.conforms (h : Invokes x c a y) (hx : x.vocabulary.WellFormed) (hcost : a.cost = 0)
    (hkind : ¬(x.vocabulary.factType a.factType).isTypeInheritance) :
    x.Conforms c a.factType a.reading := by
  have ha := mem_of_select h.select_eq
  obtain ⟨hecho, hinvocable⟩ := echo_of_mem_rank hx ha hcost
  obtain ⟨hmem, halign, -⟩ := align_of_mem_rank hx ha
  obtain ⟨hcertainty, -, -, hfactType, -⟩ := align_eq_ok_iff.1 halign
  refine ⟨hmem, hfactType.symm, hinvocable, hecho, hcertainty, fun q hq hq' hechoq => ?_⟩
  by_contra hnot
  rw [not_or, not_and, not_not] at hnot
  -- The other reading would have been as good, so that it would have mattered which to invoke.
  obtain ⟨b, hb, rfl, hzero⟩ :=
    exists_mem_rank_of_echo hx hq hq' hechoq hnot.2 { exactTypes := true }
  obtain ⟨-, hunanimous, hhead⟩ := isLeast_of_select h.select_eq
  have hb' : b ∈ (x.invocations { exactTypes := true } c).filter (·.cost == a.cost) := by
    refine List.mem_filter.2 ⟨(perm_rank x _ c).subset hb, ?_⟩
    rw [hcost, hzero]
    rfl
  obtain ⟨-, halignb, -⟩ := align_of_mem_rank hx hb
  rcases hunanimous with ⟨g, hg⟩ | hall
  · refine hnot.1 ((align_eq_ok_iff.1 halignb).2.2.2.1.symm.trans ?_)
    exact (hg b hb').trans (hg a (List.mem_of_head? hhead)).symm
  · exact hkind (hall a (List.mem_of_head? hhead))

/-- A clause in the words of one reading of a fact type, and in those of no other one, invokes this
reading. -/
lemma exists_invokes_of_conforms (h : x.Conforms c f r) (hx : x.vocabulary.WellFormed)
    (hflat : c.IsFlat) (hwords : c.phrases.all (·.word?.isNone) = false)
    (hapart : ∀ q ∈ (x.vocabulary.factType f).readings, ∀ q' ∈ (x.vocabulary.factType f).readings,
      x.vocabulary.SameWords q q' → q = q') :
    ∃ a y, Invokes x c a y ∧ a.factType = f ∧ a.reading = r := by
  obtain ⟨b, hb, -, hzero⟩ := exists_mem_rank_of_echo hx h.reading_mem h.isInvocable h.echo
    h.certainty { exactTypes := true }
  -- What the clause matches at no cost belongs to the fact type.
  have hall : ∀ a ∈ (x.rank { exactTypes := true } c).alignments, a.cost = 0 →
      a.factType = f := by
    intro a ha hcost
    obtain ⟨hecho, hinvocable⟩ := echo_of_mem_rank hx ha hcost
    obtain ⟨hmem, halign, -⟩ := align_of_mem_rank hx ha
    obtain ⟨hcertainty, -, -, hfactType, -⟩ := align_eq_ok_iff.1 halign
    rcases h.mayState _ hmem hinvocable hecho with hf | ⟨hnegative, hnot⟩
    · exact hfactType.trans hf
    · exact absurd (hcertainty hnegative) hnot
  obtain ⟨a, hselect, hfactType, hcost⟩ := select_of_cost_eq_zero ⟨b, hb, hzero⟩ hall
  have ha := mem_of_select hselect
  obtain ⟨hecho, -⟩ := echo_of_mem_rank hx ha hcost
  obtain ⟨hmem, halign, -⟩ := align_of_mem_rank hx ha
  obtain ⟨y, happly⟩ := applyAlignment_eq_ok halign
  have hreading := (align_eq_ok_iff.1 halign).2.2.2.1
  refine ⟨a, y, ⟨hflat, hwords, hselect, happly⟩, hfactType, ?_⟩
  exact hapart a.reading (hx.mem_readings.2 ⟨hmem, hreading.symm.trans hfactType⟩) r
    (hx.mem_readings.2 ⟨h.reading_mem, h.factType_eq⟩) (sameWords_of_echo hecho h.echo)

/-- **Clauses in the words of readings find them.** If no two readings of a fact type are in the
same words, then clauses that are in the words of readings of it, and of no other fact type, invoke
these, which give roles to their mentions.

**Proof sketch.** By induction on the clauses. What a clause invokes changes its own mentions only,
so that those behind it are still in the words of their readings. -/
theorem exists_finds (hx : x.vocabulary.WellFormed)
    (hapart : ∀ q ∈ (x.vocabulary.factType f).readings, ∀ q' ∈ (x.vocabulary.factType f).readings,
      x.vocabulary.SameWords q q' → q = q') (hnodup : (cs.flatMap Clause.mentions).Nodup)
    (hcs : ∀ c ∈ cs, c.IsFlat ∧ c.phrases.all (·.word?.isNone) = false ∧ ∃ r, x.Conforms c f r) :
    ∃ (as : List Alignment) (y : Context), Finds x cs (as.map some) y ∧
      (∀ a ∈ as, a.factType = f) ∧
      ∀ c ∈ cs, ∀ r, x.Conforms c f r →
        c.mentions.map (fun m => (y.mention m).role) = x.vocabulary.placedRoles r := by
  induction cs generalizing x with
  | nil => exact ⟨[], x, .nil x, List.forall_mem_nil _, List.forall_mem_nil _⟩
  | cons c cs ih =>
    obtain ⟨⟨hflat, hwords, r, hr⟩, hothers⟩ := List.forall_mem_cons.1 hcs
    rw [List.flatMap_cons, List.nodup_append'] at hnodup
    obtain ⟨a, z, hinvokes, hfactType, rfl⟩ :=
      exists_invokes_of_conforms hr hx hflat hwords hapart
    have hvocabulary := hinvokes.vocabulary_eq
    have hlater : ∀ e ∈ cs, ∀ q, x.Conforms e f q → z.Conforms e f q := by
      intro e he q hq
      refine hq.later hx (hvocabulary ▸ .refl _) (hinvokes.changesOnly.wordedAs fun m hm hm' => ?_)
        fun q hq hnew => absurd (hvocabulary ▸ hq) hnew
      exact hnodup.2.2 hm' (List.mem_flatMap.2 ⟨e, he, hm⟩)
    obtain ⟨as, y, hfinds, hfactTypes, hroles⟩ := ih (hvocabulary ▸ hx) (hvocabulary ▸ hapart)
      hnodup.2.1 fun e he => by
        obtain ⟨hflat', hwords', q, hq⟩ := hothers e he
        exact ⟨hflat', hwords', q, hlater e he q hq⟩
    refine ⟨a :: as, y, .invokes hinvokes hfinds, List.forall_mem_cons.2 ⟨hfactType, hfactTypes⟩,
      List.forall_mem_cons.2 ⟨fun q hq => ?_, fun e he q hq => ?_⟩⟩
    · obtain rfl := hr.unique hx hapart hq
      rw [← hinvokes.roles_eq hnodup.1 hr.index_lt]
      refine List.map_congr_left fun m hm => ?_
      rw [hfinds.changesOnly m fun hm' => hnodup.2.2 hm hm']
    · rw [← hvocabulary]
      exact hroles e he q (hlater e he q hq)

namespace Finds

variable {os : List (Option Alignment)} (h : Finds x cs os y)

include h

/-- Clauses that find readings, or none, have words. -/
lemma words : ∀ c ∈ cs, c.phrases.all (·.word?.isNone) = false := by
  induction h with
  | nil => exact List.forall_mem_nil _
  | misses _ hwords _ _ ih => exact List.forall_mem_cons.2 ⟨hwords, ih⟩
  | invokes hfirst _ ih => exact List.forall_mem_cons.2 ⟨hfirst.words, ih⟩

/-- Where no clause finds a reading nothing changes. -/
lemma eq_of_unmatched (hnone : ∀ d ∈ List.zipWith found cs os, d.factType = none) :
    List.zipWith found cs os = cs ∧ y = x := by
  induction h with
  | nil => exact ⟨rfl, rfl⟩
  | misses _ _ _ _ ih =>
    obtain ⟨hcs, hy⟩ := ih fun d hd => hnone d (List.mem_cons_of_mem _ hd)
    exact ⟨congrArg (_ :: ·) hcs, hy⟩
  | invokes => cases hnone _ List.mem_cons_self

end Finds

/-- **Clauses that have been resolved are in the words of what they invoke**, if this is a plain
fact type and costs nothing. Otherwise they are left as they are.

**Proof sketch.** By induction on the clauses. What a clause invokes changes its own mentions
only. -/
theorem reads_resolveAllStated (hx : x.vocabulary.WellFormed) (hflat : ∀ c ∈ cs, c.IsFlat)
    (hnodup : (cs.flatMap Clause.mentions).Nodup)
    (hplain : f ∈ x.vocabulary.factTypeIds → (x.vocabulary.factType f).kind = .plain)
    (h : (resolveAllStated cs).perform x = (.ok ds, y))
    (hds : ∀ d ∈ ds, d.reading.isSome → d.factType = some f ∧ ∀ a ∈ d.alignment, a.cost = 0) :
    List.Forall₂ (fun c d => d.reading.isSome ∧ x.Reads c f y ∨
      d = c ∧ ∀ m ∈ c.mentions, y.mention m = x.mention m) cs ds := by
  obtain ⟨os, hfinds, rfl⟩ := (perform_resolveAllStated_eq_ok hflat).1 h
  clear h hflat
  induction hfinds with
  | nil => exact .nil
  | misses _ _ _ hrest ih =>
    rw [List.flatMap_cons, List.nodup_append'] at hnodup
    obtain ⟨-, hds⟩ := List.forall_mem_cons.1 hds
    refine .cons (.inr ⟨rfl, fun m hm => ?_⟩) (ih hx hnodup.2.1 hplain hds)
    exact hrest.changesOnly m fun hm' => hnodup.2.2 hm hm'
  | @invokes x z y c a cs os hfirst hrest ih =>
    rw [List.flatMap_cons, List.nodup_append'] at hnodup
    obtain ⟨hown, hds⟩ := List.forall_mem_cons.1 hds
    obtain ⟨hfactType, hexact⟩ := hown rfl
    obtain rfl : a.factType = f := Option.some.inj hfactType
    have hz := hfirst.vocabulary_eq
    have hy := hrest.vocabulary_eq.trans hz
    have hmem := hfirst.reading_mem hx
    have hread := (align_eq_ok_iff.1 (mem_rank.1 (mem_of_select hfirst.select_eq)).2).2.2.2.1
    have hkind : ¬(x.vocabulary.factType a.factType).isTypeInheritance := by
      rw [FactType.isTypeInheritance, hplain (hread ▸ hx.reading_factType_mem hmem)]
      exact Bool.false_ne_true
    have hconforms := hfirst.conforms hx (hexact a rfl) hkind
    refine .cons (.inl ⟨rfl, a.reading, ?_, ?_⟩) ?_
    · rw [hy]
      exact hconforms
    · rw [hy, ← hfirst.roles_eq hnodup.1 hconforms.index_lt]
      refine List.map_congr_left fun m hm => ?_
      rw [hrest.changesOnly m fun hm' => hnodup.2.2 hm hm']
    · have hothers := (List.forall₂_and_left cs _).2
        ⟨fun e he => he, ih (hz ▸ hx) hnodup.2.1 (hz ▸ hplain) hds⟩
      refine hothers.imp fun e d he => ?_
      have hkept : ∀ m ∈ e.mentions, z.mention m = x.mention m := fun m hm =>
        hfirst.changesOnly m fun hm' => hnodup.2.2 hm' (List.mem_flatMap.2 ⟨e, he.1, hm⟩)
      refine he.2.imp (fun hd => ⟨hd.1, hd.2.reworded (hy ▸ hx) fun m hm => ?_⟩)
        fun hd => ⟨hd.1, fun m hm => (hd.2 m hm).trans (hkept m hm)⟩
      rw [hkept m hm]
      exact ⟨rfl, rfl, rfl⟩

/-! ## Clauses that become readings -/

/-- A clause that becomes a reading spells it. The placeholders are for its mentions in order, and
these get the roles that the placeholders stand for. -/
lemma spelled_makeReading (hplain : ∀ p ∈ c.phrases, p.IsPlain)
    (hsize : c.phrases.length ≤ Template.placeLimit) (hnodup : c.mentions.Nodup)
    (hindex : ∀ m ∈ c.mentions, m.index < x.mentions.size)
    (h : (makeReading c f).perform x = (.ok (r, d), y)) :
    (y.vocabulary.reading r).tokens = spelledTokens c.phrases 0 ∧
      Template.places (y.vocabulary.reading r).tokens = List.range' 0 c.mentions.length ∧
      c.mentions.map (fun m => (y.mention m).role) = y.vocabulary.placedRoles r := by
  obtain ⟨-, -, -, -, -, htokens⟩ := reading_makeReading h
  obtain ⟨tokens, refs, hparts, -⟩ := perform_makeReading_eq_ok h
  have hstated := (assigns_of_readingParts hparts).isStated
  have hspelled : (y.vocabulary.reading r).tokens = spelledTokens c.phrases 0 := by
    refine htokens.trans (Template.tokens_render (isPlain_spelledTokens hplain ?_))
    rw [Nat.zero_add]
    exact (length_slots_le hstated).trans hsize
  have hplaces : Template.places (y.vocabulary.reading r).tokens =
      List.range' 0 c.mentions.length := by
    rw [hspelled, places_spelledTokens hstated, Clause.mentions, List.length_map]
    rfl
  obtain ⟨refs, hrefers, hrefs, -, hroles⟩ := refers_makeReading hnodup hindex h
  refine ⟨hspelled, hplaces, hroles.trans ?_⟩
  have hlength : c.mentions.length = refs.length := by
    rw [Clause.mentions, List.length_map, hrefers.length_eq]
  rw [Vocabulary.placedRoles, hplaces, hrefs, hlength]
  refine List.ext_getElem (by simp) fun i hi hi' => ?_
  rw [List.length_map] at hi
  simp [hi]

/-- A clause with a mention for each role of a stated fact type becomes a reading that clauses
invoke. -/
lemma isInvocable_makeReading (hplain : ∀ p ∈ c.phrases, p.IsPlain)
    (hsize : c.phrases.length ≤ Template.placeLimit) (hnodup : c.mentions.Nodup)
    (hindex : ∀ m ∈ c.mentions, m.index < x.mentions.size) (hf : f ∈ x.vocabulary.factTypeIds)
    (hstated : (x.vocabulary.factType f).isStated) (hmentions : c.mentions ≠ [])
    (harity : c.mentions.length = (x.vocabulary.factType f).arity)
    (h : (makeReading c f).perform x = (.ok (r, d), y)) : y.vocabulary.IsInvocable r := by
  obtain ⟨hretains, -, -, hfactType, -, -⟩ := reading_makeReading h
  obtain ⟨-, hplaces, -⟩ := spelled_makeReading hplain hsize hnodup hindex h
  refine ⟨?_, ?_, ?_⟩
  · rwa [hfactType, FactType.isStated, (hretains.factType hf).kind_eq]
  · rw [hfactType, FactType.arity, hretains.roles_eq f hf, ← FactType.arity, ← harity, hplaces,
      List.length_range']
  · rw [hplaces]
    intro hnil
    have hzero := congrArg List.length hnil
    rw [List.length_range'] at hzero
    exact hmentions (List.length_eq_zero_iff.1 hzero)

/-- A clause that voices the reading that it becomes, with a mention for each role of a stated fact
type, is in the words of this reading, which gives roles to its mentions. -/
lemma reads_makeReading (hx : x.vocabulary.WellFormed) (hplain : ∀ p ∈ c.phrases, p.IsPlain)
    (hnodup : c.mentions.Nodup) (hindex : ∀ m ∈ c.mentions, m.index < x.mentions.size)
    (hf : f ∈ x.vocabulary.factTypeIds) (hstated : (x.vocabulary.factType f).isStated)
    (hall : x.MentionsAll f c) (hmay : x.MayState f c)
    (h : (makeReading c f).perform x = (.ok (r, d), y))
    (hvoices : List.Forall₂ ((x.onto y.vocabulary).Voices · ·) c.slots
      (y.vocabulary.readingRefs r)) : x.Reads c f y := by
  obtain ⟨hmentions, harity, hsize⟩ := hall
  obtain ⟨hretains, hmem, -, hfactType, hnegative, -⟩ := reading_makeReading h
  obtain ⟨hspelled, -, hroles⟩ := spelled_makeReading hplain hsize hnodup hindex h
  obtain ⟨tokens, refs, hparts, -⟩ := perform_makeReading_eq_ok h
  have hinvocable :=
    isInvocable_makeReading hplain hsize hnodup hindex hf hstated hmentions harity h
  have honto : (x.onto y.vocabulary).vocabulary = y.vocabulary := rfl
  refine ⟨r, ⟨(hmem r).2 (.inl rfl), hfactType, hinvocable, ?_, fun hisNegative => ?_, ?_⟩, hroles⟩
  · unfold Echo
    rw [honto, hspelled]
    exact echoes_spelledTokens (assigns_of_readingParts hparts).isStated hvoices
  · rw [honto, hnegative] at hisNegative
    exact of_decide_eq_true hisNegative
  · refine hmay.later hx hretains (fun m _ => ⟨rfl, rfl, rfl⟩) fun q hq hnew _ => ?_
    rw [((hmem q).1 hq).resolve_right hnew]
    exact hfactType

/-- **Clauses with a mention for each role become readings in their words.** The readings that
clauses come to state are readings of the fact type, and each clause that becomes one is in the
words of it, which gives roles to its mentions.

**Proof sketch.** By induction on the clauses. The readings that the clauses behind one become
belong to the fact type as well, so that the clause is still in the words of its own one and in
those of no other fact type. -/
theorem reads_stateReadings (hx : x.WellCast) (hf : f ∈ x.vocabulary.factTypeIds)
    (hstated : (x.vocabulary.factType f).isStated) (hcs : ∀ c ∈ cs, c.InRange x.vocabulary)
    (hmay : ∀ c ∈ cs, c.reading = none → x.MayState f c)
    (hall : ∀ c ∈ cs, c.reading = none → x.MentionsAll f c) (hnodup : (allMentions cs).Nodup)
    (hm : ∀ m ∈ allMentions cs, x.IsBound m)
    (h : (stateReadings f cs).perform x = (.ok ds, y)) :
    (∀ q ∈ y.vocabulary.readingIds, q ∉ x.vocabulary.readingIds →
      (y.vocabulary.reading q).factType = f) ∧
      ∀ c ∈ cs, c.reading = none → x.Reads c f y := by
  induction cs generalizing x ds with
  | nil =>
    cases h
    exact ⟨fun q hq hnew => absurd hq hnew, List.forall_mem_nil _⟩
  | cons c cs ih =>
    have hv := hx.valid.consistent.toWellFormed
    have hsplit := List.nodup_append'.1 (allMentions_cons c cs ▸ hnodup)
    have hown : c.mentions.Nodup :=
      (List.nodup_append'.1 (c.perm_allMentions.nodup_iff.1 hsplit.1)).1
    have hbound : ∀ m ∈ c.mentions, x.IsBound m := fun m hmem =>
      hm m (mem_allMentions_of_mem List.mem_cons_self (c.mentions_subset_allMentions hmem))
    have hrange := hcs c List.mem_cons_self
    obtain ⟨d, z, es, rfl, hmore, hfirst⟩ := stateReadings_cons_eq_ok h
    obtain ⟨⟨hgives, hsustains, hchanges⟩, hretains, hnew⟩ :=
      StatesReading.spares hfirst hx hf hrange hown hbound
    have hworded : ∀ e ∈ cs, x.WordedAs e z := fun e he => hchanges.wordedAs fun m hm hmem =>
      hsplit.2.2 (c.mentions_subset_allMentions hmem)
        (mem_allMentions_of_mem he (e.mentions_subset_allMentions hm))
    -- The clauses behind it.
    obtain ⟨hothers, hreads⟩ := ih (hx.later hgives hsustains) (hgives.grows.mem_factTypeIds hf)
      (by rwa [FactType.isStated, (hretains.factType hf).kind_eq])
      (fun e he => (hcs e (List.mem_cons_of_mem c he)).grows hgives.grows)
      (fun e he hread => (hmay e (List.mem_cons_of_mem c he) hread).later hv hretains
        (hworded e he) fun r hr hr' _ => hnew r hr hr')
      (fun e he hread =>
        (mentionsAll_iff_of_retains hf hretains).2 (hall e (List.mem_cons_of_mem c he) hread))
      hsplit.2.1 (fun m hmem => by
        have hm' := hm m (allMentions_cons c cs ▸ List.mem_append_right _ hmem)
        exact hsustains.carries.isBound hm'.index_lt hm') hmore
    have hretains' := ((defines_evolving.stateReadings f cs z).of_perform hmore).1.retains
    have hy := ((leads_stateReadings hx.valid hf hcs).of_perform h).1.valid
    refine ⟨fun q hq hq' => ?_, List.forall_mem_cons.2 ⟨fun hread => ?_, fun e he hread => ?_⟩⟩
    · by_cases hmid : q ∈ z.vocabulary.readingIds
      · rw [hretains'.reading_eq hmid]
        exact hnew q hmid hq'
      · exact hothers q hq hmid
    · obtain ⟨hsome, -⟩ | ⟨-, r, hmake⟩ := hfirst
      · rw [hread] at hsome
        cases hsome
      have hlater : z.ChangesOnly (· ∈ allMentions cs) y :=
        ((leads_stateReadings_changesOnly (fun _ => id) f z).of_perform hmore).1
      refine (reads_makeReading hv hrange.isPlain hown (fun m hm => (hbound m hm).index_lt) hf
        hstated (hall c List.mem_cons_self hread) (hmay c List.mem_cons_self hread) hmake
        (voices_makeReading hx hrange.isPlain hf hown hbound hmake hstated)).later
        hgives.valid.consistent.toWellFormed hretains' (fun m hm => ?_) hothers
      rw [hlater m fun hm' => hsplit.2.2 (c.mentions_subset_allMentions hm) hm']
    · refine (hreads e he hread).reworded hy.consistent.toWellFormed fun m hm => ?_
      obtain ⟨hleading, htrailing, hplayer⟩ := hworded e he m hm
      exact ⟨hleading.symm, htrailing.symm, hplayer.symm⟩

end Compile

end FactModel
