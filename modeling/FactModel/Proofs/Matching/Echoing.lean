import FactModel.Proofs.Matching.Candidates
import FactModel.Proofs.Matching.Verbatim
import FactModel.Proofs.Vocabulary.Apart
set_option autoImplicit false

/-!
# What a clause in the words of a reading invokes

The readings that a clause invokes at no cost are those whose words it has, as far as clauses invoke
them at all: a reading must have as many placeholders as its fact type has roles, and a negative one
is for negated clauses only.

## Main results

* `FactModel.Context.exists_mem_rank_of_echo`, `FactModel.Context.echo_of_mem_rank` — a clause has
  the readings in whose words it is in its ranking at no cost, and no others.
* `FactModel.Context.sameWords_of_echo`, `FactModel.Context.Echo.of_sameWords` — a clause cannot
  tell readings in the same words apart.
* `FactModel.Context.invokes_iff_isFull` — a clause in the words of a reading has the reading in its
  ranking just in case the reading is full.
-/

namespace FactModel.Context

open Vocabulary

variable {x : Context} {c : Clause} {r r' : ReadingId} {options : MatchOptions}

/-! ## Readings in the same words -/

/-- Phrases that echo tokens echo no others but those that are the same. -/
lemma sameToken_of_echoes {refs refs' : List RoleRef} {t t' : Template.Token} {p : Phrase}
    (h : x.EchoesToken refs t p) (h' : x.EchoesToken refs' t' p) :
    x.vocabulary.SameToken refs refs' t t' := by
  cases h with
  | word text =>
    cases h'
    exact .word text
  | place href hs =>
    cases h' with
    | place href' hs' =>
      refine .place href href' ⟨hs.leading_eq.trans hs'.leading_eq.symm,
        hs.trailing_eq.trans hs'.trailing_eq.symm, ?_⟩
      exact Option.some.inj (hs.player_eq.symm.trans hs'.player_eq)

/-- Two readings in whose words one clause is are in the same words. -/
theorem sameWords_of_echo (h : x.Echo c r) (h' : x.Echo c r') : x.vocabulary.SameWords r r' := by
  unfold Echo at h h'
  unfold SameWords
  generalize (x.vocabulary.reading r).tokens = tokens at h ⊢
  generalize (x.vocabulary.reading r').tokens = tokens' at h' ⊢
  generalize c.phrases = ps at h h'
  induction h generalizing tokens' with
  | nil =>
    cases h'
    exact .nil
  | cons hfirst _ ih =>
    obtain ⟨t', rest, hfirst', hrest, rfl⟩ := List.forall₂_cons_right_iff.1 h'
    exact .cons (sameToken_of_echoes hfirst hfirst') (ih rest hrest)

/-- A phrase that echoes a token echoes one that is the same. -/
lemma EchoesToken.of_sameToken {refs refs' : List RoleRef} {t t' : Template.Token} {p : Phrase}
    (h : x.EchoesToken refs' t' p) (hsame : x.vocabulary.SameToken refs refs' t t') :
    x.EchoesToken refs t p := by
  cases h with
  | word text =>
    cases hsame
    exact .word text
  | place href hs =>
    cases hsame with
    | place href' href'' halike =>
      obtain rfl := Option.some.inj (href.symm.trans href'')
      refine .place href' ⟨halike.leading_eq.trans hs.leading_eq,
        halike.trailing_eq.trans hs.trailing_eq, ?_⟩
      rw [hs.player_eq, halike.player_eq]

/-- A clause in the words of a reading is in those of a reading in the same words. -/
theorem Echo.of_sameWords (h : x.Echo c r') (hsame : x.vocabulary.SameWords r r') : x.Echo c r := by
  unfold Echo at h ⊢
  unfold SameWords at hsame
  generalize (x.vocabulary.reading r).tokens = tokens at hsame ⊢
  generalize (x.vocabulary.reading r').tokens = tokens' at h hsame
  generalize c.phrases = ps at h ⊢
  induction hsame generalizing ps with
  | nil =>
    cases h
    exact .nil
  | cons hfirst _ ih =>
    obtain ⟨p, rest, hp, hrest, rfl⟩ := List.forall₂_cons_left_iff.1 h
    exact .cons (hp.of_sameToken hfirst) (ih rest hrest)

/-! ## Clauses in the words of a reading -/

/-- Phrases that echo tokens have a mention for each placeholder. -/
lemma length_slots_of_echoes {refs : List RoleRef} {tokens : List Template.Token} {ps : List Phrase}
    (h : List.Forall₂ (x.EchoesToken refs) tokens ps) :
    (ps.flatMap Phrase.slots).length = (Template.places tokens).length := by
  induction h with
  | nil => rfl
  | cons hfirst _ ih =>
    rw [List.flatMap_cons, List.length_append, ih]
    cases hfirst with
    | word text => exact Nat.zero_add _
    | place href hs => exact Nat.add_comm ..

/-- A clause that echoes a reading has a mention for each placeholder. -/
lemma Echo.length_mentions (h : x.Echo c r) :
    c.mentions.length = (Template.places (x.vocabulary.reading r).tokens).length := by
  rw [Clause.mentions, List.length_map, Clause.slots]
  exact length_slots_of_echoes h

/-- A clause in the words of a reading is no comparison. -/
lemma Echo.comparison?_eq_none (h : x.Echo c r) : c.comparison? = none := by
  unfold Clause.comparison?
  split
  · next hphrases =>
    unfold Echo at h
    rw [hphrases] at h
    obtain ⟨_, _, hfirst, -⟩ := List.forall₂_cons_right_iff.1 h
    cases hfirst
  · rfl

/-- The mentions of a clause in the words of a reading have players of its roles. -/
lemma exists_player_of_echoes {refs : List RoleRef} {tokens : List Template.Token}
    {ps : List Phrase}
    (h : List.Forall₂ (x.EchoesToken refs) tokens ps) {s : Slot}
    (hs : s ∈ ps.flatMap Phrase.slots) :
    ∃ ref ∈ refs, (x.mention s.mention).player = some (x.vocabulary.playerOf ref.role) := by
  induction h with
  | nil => cases hs
  | cons hfirst _ ih =>
    rcases List.mem_append.1 hs with hs | hs
    · cases hfirst with
      | word text => cases hs
      | place href hecho =>
        obtain rfl := List.mem_singleton.1 hs
        exact ⟨_, List.mem_of_getElem? href, hecho.player_eq⟩
    · exact ih hs

/-- A clause in the words of a reading reaches the fact type of the reading. -/
lemma isReached_of_echo (hv : x.vocabulary.WellFormed) (hr : r ∈ x.vocabulary.readingIds)
    (h : x.Echo c r) (hmentions : c.mentions ≠ []) (options : MatchOptions) :
    x.isReached options c (x.vocabulary.reading r).factType := by
  unfold isReached
  split
  · next hslots =>
    rw [Clause.mentions, hslots] at hmentions
    exact absurd rfl hmentions
  · next first rest hslots =>
    have hfirst : first ∈ c.phrases.flatMap Phrase.slots := by
      rw [← Clause.slots, hslots]
      exact List.mem_cons_self
    obtain ⟨ref, href, hplayer⟩ := exists_player_of_echoes h hfirst
    rw [hplayer, Option.any_some, Bool.or_eq_true]
    exact .inr (List.any_eq_true.2 ⟨ref.role, hv.ref_mem_roles hr href,
      List.contains_iff_mem.2 (mem_relatedTypes_self _ _)⟩)

/-- What a clause has in its ranking: readings of stated fact types with a role for each mention. -/
lemma align_of_mem_rank (hv : x.vocabulary.WellFormed) {a : Alignment}
    (ha : a ∈ (x.rank options c).alignments) :
    a.reading ∈ x.vocabulary.readingIds ∧ x.align options c a.reading = .ok a ∧ c.mentions ≠ [] ∧
      (x.vocabulary.factType (x.vocabulary.reading a.reading).factType).isStated ∧
      (x.vocabulary.factType (x.vocabulary.reading a.reading).factType).arity =
        c.mentions.length := by
  obtain ⟨htried, halign⟩ := mem_rank.1 ha
  have hcomparison : c.comparison? = none := by
    unfold triedReadings at htried
    split at htried
    · cases htried
    · next hnone => simpa using hnone
  obtain ⟨hstated, -⟩ := List.mem_filter.1 ((mem_triedReadings_iff hv hcomparison halign).1 htried)
  obtain ⟨hmem, hfactType⟩ := List.mem_filter.1 hstated
  obtain ⟨hkind, harity⟩ := Bool.and_eq_true_iff.1 hfactType
  exact ⟨hmem, halign, (mem_triedReadings htried).1, hkind, beq_iff_eq.1 harity⟩

/-- A clause has readings in whose words it is in its ranking, at no cost, if clauses invoke
them. -/
theorem exists_mem_rank_of_echo (hv : x.vocabulary.WellFormed) (hr : r ∈ x.vocabulary.readingIds)
    (hinvocable : x.vocabulary.IsInvocable r) (h : x.Echo c r)
    (hcertainty : (x.vocabulary.reading r).isNegative → c.certainty = .negated)
    (options : MatchOptions) :
    ∃ a ∈ (x.rank options c).alignments, a.reading = r ∧ a.cost = 0 := by
  have hlength := h.length_mentions
  have hmentions : c.mentions ≠ [] := fun hnil => hinvocable.places_ne_nil <|
    List.length_eq_zero_iff.1 (hlength.symm.trans (congrArg List.length hnil))
  obtain ⟨a, ha, hcost⟩ := align_of_echo h hcertainty options
  have hreached : r ∈ x.reachedReadings options c := by
    refine List.mem_filter.2 ⟨List.mem_filter.2 ⟨hr, ?_⟩,
      isReached_of_echo hv hr h hmentions options⟩
    exact Bool.and_eq_true_iff.2 ⟨hinvocable.isStated,
      beq_iff_eq.2 (hinvocable.arity_eq.trans hlength.symm)⟩
  exact ⟨a, (x.perm_rank_reachedReadings hv options h.comparison?_eq_none).symm.subset
    (List.mem_filterMap.2 ⟨r, hreached, toOption_align_eq_some.2 ha⟩), reading_of_align ha, hcost⟩

/-- The readings that a clause has in its ranking at no cost are in its words, and clauses invoke
them. -/
theorem echo_of_mem_rank (hv : x.vocabulary.WellFormed) {a : Alignment}
    (ha : a ∈ (x.rank options c).alignments) (hcost : a.cost = 0) :
    x.Echo c a.reading ∧ x.vocabulary.IsInvocable a.reading := by
  obtain ⟨-, halign, hmentions, hstated, harity⟩ := align_of_mem_rank hv ha
  have hecho := echo_of_align halign hcost
  refine ⟨hecho, hstated, harity.trans hecho.length_mentions, fun hnil => hmentions ?_⟩
  rw [← List.length_eq_zero_iff, hecho.length_mentions, hnil]
  rfl

/-- **Clauses invoke full readings.** A clause in the words of a reading of a stated fact type, with
a mention for each place of the reading, has the reading in its ranking just in case the reading is
full; and then at no cost. -/
theorem invokes_iff_isFull (hv : x.vocabulary.WellFormed) (hr : r ∈ x.vocabulary.readingIds)
    (hstated : (x.vocabulary.factType (x.vocabulary.reading r).factType).isStated)
    (hplaces : (Template.places (x.vocabulary.reading r).tokens).length =
      (x.vocabulary.readingRefs r).length)
    (hmentions : c.mentions ≠ []) (h : x.Echo c r)
    (hcertainty : (x.vocabulary.reading r).isNegative → c.certainty = .negated)
    (options : MatchOptions) :
    (x.vocabulary.IsFull r ↔ ∃ a ∈ (x.rank options c).alignments, a.reading = r) ∧
      (x.vocabulary.IsFull r → ∃ a ∈ (x.rank options c).alignments, a.reading = r ∧
        a.cost = 0) := by
  have hlength := h.length_mentions
  have hfull : x.vocabulary.IsFull r → ∃ a ∈ (x.rank options c).alignments,
      a.reading = r ∧ a.cost = 0 := by
    intro hfull
    rw [hv.isFull_iff hr, ← hplaces] at hfull
    refine exists_mem_rank_of_echo hv hr ⟨hstated, hfull.symm, fun hnil => hmentions ?_⟩ h
      hcertainty
      options
    rw [← List.length_eq_zero_iff, hlength, hnil]
    rfl
  refine ⟨⟨fun h => (hfull h).imp fun a ha => ⟨ha.1, ha.2.1⟩, ?_⟩, hfull⟩
  rintro ⟨a, ha, rfl⟩
  obtain ⟨-, -, -, -, harity⟩ := align_of_mem_rank hv ha
  rw [hv.isFull_iff hr, ← hplaces, ← hlength]
  exact harity.symm

end FactModel.Context
