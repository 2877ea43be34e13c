import Mathlib.Data.List.Forall2
import Mathlib.Tactic.Lemma
import FactModel.Matching.Walk
import FactModel.Proofs.Vocabulary.WellFormed
set_option autoImplicit false

/-!
# Walks as derivations

A walk that succeeds lays the tokens of a reading one after the other, each in one of a few ways.
What it says of the clause and of the reading is shown along these ways.

## Main definitions

* `FactModel.Context.Walks` — the ways in which the tokens of a reading are laid along phrases.
* `FactModel.Context.Takes` — what one placement says of the slot that takes a role.

## Main results

* `FactModel.Context.walkTokens_eq_ok_iff` — a walk succeeds just in case there is a derivation.
* `FactModel.Context.Walks.takes` — every slot of the clause takes a role, in order.
* `FactModel.Context.Walks.roleRefs_eq` — every placeholder of the reading is taken, in order.
* `FactModel.Context.Walks.nodup_taken` — no word is taken twice.
* `FactModel.Context.Walks.word_of_mem_taken` — only words are taken out of the clause.
* `FactModel.Context.align_eq_ok_iff` — when a reading matches a clause.
-/

namespace FactModel

/-! ## Words between slots -/

/-- The words at the beginning of phrases and what follows are the phrases. -/
lemma spanWords_append (ps : List Phrase) :
    (spanWords ps).1.map Phrase.word ++ (spanWords ps).2 = ps := by
  induction ps with
  | nil => rfl
  | cons p ps ih =>
    cases p with
    | word text =>
      simp only [spanWords, List.map_cons, List.cons_append, ih]
    | slot s => rfl
    | comparison operator left right => rfl

/-- The words at the beginning of phrases that begin with words and a slot. -/
lemma spanWords_words (ws : List String) (s : Slot) (rest : List Phrase) :
    spanWords (ws.map Phrase.word ++ .slot s :: rest) = (ws, .slot s :: rest) := by
  induction ws with
  | nil => rfl
  | cons w ws ih => rw [List.map_cons, List.cons_append, spanWords, ih]

/-- Phrases of a word have no slots. -/
lemma flatMap_slots_words (ws : List String) : (ws.map Phrase.word).flatMap Phrase.slots = [] := by
  induction ws with
  | nil => rfl
  | cons w ws ih => exact ih

/-- Where words stand among phrases there is a word. -/
lemma getElem?_words (before after : List Phrase) (ws : List String) {i : Nat}
    (hlow : before.length ≤ i) (hhigh : i < before.length + ws.length) :
    ∃ text, (before ++ ws.map Phrase.word ++ after)[i]? = some (.word text) := by
  have hi : i - before.length < ws.length := by omega
  refine ⟨ws[i - before.length], ?_⟩
  rw [List.getElem?_append_left (by simpa using hhigh), List.getElem?_append_right hlow,
    List.getElem?_map, List.getElem?_eq_getElem hi]
  rfl

/-- The words that a leading adjective takes are those between the slots. -/
lemma walkLeading_positions {m : MentionId} {wanted explicit : List String} {position : Nat}
    {intervening : List String} {residual : Option String} {absorbed : List Nat}
    (h : walkLeading m wanted explicit position intervening = .ok (residual, absorbed)) :
    absorbed = List.range' position intervening.length := by
  unfold walkLeading at h
  split at h
  · next hempty =>
    split at h
    · cases h
      rw [List.isEmpty_iff.1 hempty]
      rfl
    · cases h
  · dsimp only at h
    generalize (if intervening.isPrefixOf wanted then intervening else splitHyphens intervening) =
      words at h
    split at h
    · cases h
      rfl
    · cases h

/-- As many phrases as texts are taken from their beginning are words, if the texts are. -/
lemma take_eq_words {ws : List String} {ps : List Phrase}
    (h : ws <+: (ps.take ws.length).filterMap Phrase.word?) :
    ps.take ws.length = ws.map Phrase.word := by
  induction ws generalizing ps with
  | nil => rfl
  | cons w ws ih =>
    cases ps with
    | nil => cases List.prefix_nil.1 h
    | cons p ps =>
      rw [List.length_cons, List.take_succ_cons] at h ⊢
      cases p with
      | word text =>
        obtain ⟨rfl, htail⟩ := List.cons_prefix_cons.1 h
        rw [ih htail, List.map_cons]
      | slot s =>
        have hlength := h.length_le
        have hle := List.length_filterMap_le Phrase.word? (ps.take ws.length)
        have htake := List.length_take_le ws.length ps
        change ws.length + 1 ≤ ((ps.take ws.length).filterMap Phrase.word?).length at hlength
        omega
      | comparison operator left right =>
        have hlength := h.length_le
        have hle := List.length_filterMap_le Phrase.word? (ps.take ws.length)
        have htake := List.length_take_le ws.length ps
        change ws.length + 1 ≤ ((ps.take ws.length).filterMap Phrase.word?).length at hlength
        omega

/-- The phrases that a trailing adjective takes are words. -/
lemma walkTrailing_words {m : MentionId} {wanted explicit : List String} {rest : List Phrase}
    {residual : Option String} {taken : Nat}
    (h : walkTrailing m wanted explicit rest = .ok (residual, taken)) :
    ∃ ws : List String, rest.take taken = ws.map Phrase.word ∧ ws.length = taken := by
  unfold walkTrailing at h
  split at h
  · split at h
    · cases h
      exact ⟨[], rfl, rfl⟩
    · cases h
  · dsimp only at h
    split at h
    · next hprefix =>
      cases h
      exact ⟨_, take_eq_words (List.isPrefixOf_iff_prefix.1 hprefix.2), rfl⟩
    · cases h

namespace Context

variable {x : Context} {options : MatchOptions} {refs : List RoleRef}

/-! ## One placeholder -/

/-- What laying a placeholder on a slot consists of. -/
lemma walkRole_eq_ok {ref : RoleRef} {ordinal position : Nat} {intervening : List String}
    {s : Slot} {rest : List Phrase} {p : Placement} {place : ClausePlace}
    (h : x.walkRole options ref ordinal position intervening s rest = .ok (p, place)) :
    ∃ supertype residualLeading residualTrailing taken,
      x.walkPlayer options s (x.vocabulary.playerOf ref.role) = .ok supertype ∧
      walkLeading s.mention (Adjective.words ref.leading)
        (Adjective.words (x.mention s.mention).leading) position intervening =
          .ok (residualLeading, List.range' position intervening.length) ∧
      walkTrailing s.mention (Adjective.words ref.trailing)
        (Adjective.words (x.mention s.mention).trailing) rest = .ok (residualTrailing, taken) ∧
      p = { mention := s.mention, role := ref.role, roleRef := ordinal
            absorbedPrecursors := List.range' position intervening.length
            absorbedFollowers := List.range' (position + intervening.length + 1) taken
            commonSupertype := supertype, residualLeading, residualTrailing } ∧
      ¬(p.hasResidue ∧ x.shareCount s.mention ≤ 1) ∧
      place = ⟨position + intervening.length + 1 + taken, rest.drop taken⟩ := by
  unfold walkRole at h
  dsimp only [bind, Except.bind] at h
  split at h
  · cases h
  next supertype hplayer =>
  split at h
  · cases h
  next leading hleading =>
  split at h
  · cases h
  next trailing htrailing =>
  obtain ⟨residualLeading, absorbed⟩ := leading
  obtain ⟨residualTrailing, taken⟩ := trailing
  obtain rfl := walkLeading_positions hleading
  dsimp only at h
  split at h
  · cases h
  next hresidue =>
  cases h
  exact ⟨supertype, residualLeading, residualTrailing, taken, hplayer, hleading, htrailing, rfl,
    hresidue, rfl⟩

/-- Laying a placeholder on a slot takes the words in front of the slot and some behind it, and goes
on behind those. -/
lemma walkRole_positions {ref : RoleRef} {ordinal position : Nat} {intervening : List String}
    {s : Slot} {rest : List Phrase} {p : Placement} {place : ClausePlace}
    (h : x.walkRole options ref ordinal position intervening s rest = .ok (p, place)) :
    ∃ taken, place.position = position + intervening.length + 1 + taken ∧
      p.absorbedPrecursors = List.range' position intervening.length ∧
      p.absorbedFollowers = List.range' (position + intervening.length + 1) taken := by
  obtain ⟨_, _, _, taken, -, -, -, rfl, -, rfl⟩ := walkRole_eq_ok h
  exact ⟨taken, rfl, rfl, rfl⟩

/-- A placeholder is laid on a slot if its player and its adjectives are, and if what is left over
of these tells the mention from another one. -/
lemma walkRole_of {ref : RoleRef} {ordinal position : Nat} {intervening : List String} {s : Slot}
    {rest : List Phrase} {supertype : Option ObjectTypeId}
    {residualLeading residualTrailing : Option String} {absorbed : List Nat} {taken : Nat}
    (hplayer : x.walkPlayer options s (x.vocabulary.playerOf ref.role) = .ok supertype)
    (hleading : walkLeading s.mention (Adjective.words ref.leading)
      (Adjective.words (x.mention s.mention).leading) position intervening =
        .ok (residualLeading, absorbed))
    (htrailing : walkTrailing s.mention (Adjective.words ref.trailing)
      (Adjective.words (x.mention s.mention).trailing) rest = .ok (residualTrailing, taken))
    (hresidue : ¬((residualLeading.isSome || residualTrailing.isSome) = true ∧
      x.shareCount s.mention ≤ 1)) :
    x.walkRole options ref ordinal position intervening s rest =
      .ok ({ mention := s.mention, role := ref.role, roleRef := ordinal
             absorbedPrecursors := absorbed
             absorbedFollowers := List.range' (position + intervening.length + 1) taken
             commonSupertype := supertype, residualLeading, residualTrailing },
        ⟨position + intervening.length + 1 + taken, rest.drop taken⟩) := by
  unfold walkRole
  dsimp only [bind, Except.bind]
  rw [hplayer]
  dsimp only
  rw [hleading]
  dsimp only
  rw [htrailing]
  exact if_neg hresidue

/-- What a placement says of the slot that takes a role: the role is the one of a reference, and
the player of the mention goes with the player of the role. -/
structure Takes (x : Context) (options : MatchOptions) (refs : List RoleRef) (s : Slot)
    (p : Placement) : Prop where
  mention_eq : p.mention = s.mention
  role_eq : ∃ ref, refs[p.roleRef]? = some ref ∧ p.role = ref.role
  player : x.walkPlayer options s (x.vocabulary.playerOf p.role) = .ok p.commonSupertype

/-! ## All tokens -/

/-- The ways in which the tokens of a reading are laid along phrases: each word on an equal word,
one of them perhaps behind a `not` that is passed over, and each placeholder on the next slot. -/
inductive Walks (x : Context) (options : MatchOptions) (refs : List RoleRef) :
    List Template.Token → Bool → ClausePlace → List Placement → Option Nat → Prop
  | nil {mayNegate : Bool} {position : Nat} :
    Walks x options refs [] mayNegate ⟨position, []⟩ [] none
  | word {text : String} {tokens : List Template.Token} {mayNegate : Bool} {position : Nat}
      {rest : List Phrase} {placements : List Placement} {negation : Option Nat}
      (h : Walks x options refs tokens mayNegate ⟨position + 1, rest⟩ placements negation) :
    Walks x options refs (.word text :: tokens) mayNegate ⟨position, .word text :: rest⟩
      placements negation
  | negated {text : String} {tokens : List Template.Token} {position : Nat}
      {rest : List Phrase} {placements : List Placement} (hne : "not" ≠ text)
      (h : Walks x options refs tokens false ⟨position + 2, rest⟩ placements none) :
    Walks x options refs (.word text :: tokens) true
      ⟨position, .word "not" :: .word text :: rest⟩ placements (some position)
  | place {ordinal : Nat} {tokens : List Template.Token} {mayNegate : Bool}
      {place next : ClausePlace} {placements : List Placement} {negation : Option Nat}
      {ref : RoleRef} {intervening : List String} {s : Slot} {rest : List Phrase} {p : Placement}
      (href : refs[ordinal]? = some ref)
      (hspan : spanWords place.rest = (intervening, .slot s :: rest))
      (hrole : x.walkRole options ref ordinal place.position intervening s rest = .ok (p, next))
      (h : Walks x options refs tokens mayNegate next placements negation) :
    Walks x options refs (.place ordinal :: tokens) mayNegate place (p :: placements) negation

/-- A word of a reading is laid on an equal word, with a `not` before it at most, if the clause may
be negated. -/
lemma walkWord_eq_ok {expected : String} {mayNegate : Bool} {place next : ClausePlace}
    {negation : Option Nat} (h : walkWord expected mayNegate place = .ok (next, negation)) :
    (∃ rest, place.rest = .word expected :: rest ∧ next = ⟨place.position + 1, rest⟩ ∧
      negation = none) ∨
    (∃ rest, place.rest = .word "not" :: .word expected :: rest ∧ "not" ≠ expected ∧
      mayNegate = true ∧ next = ⟨place.position + 2, rest⟩ ∧ negation = some place.position) := by
  unfold walkWord at h
  split at h
  · next text rest hrest =>
    split at h
    · next heq =>
      cases h
      exact .inl ⟨rest, heq ▸ hrest, rfl, rfl⟩
    · next hne =>
      split at h
      · next hnot =>
        split at h
        · next following more =>
          split at h
          · next heq =>
            cases h
            obtain ⟨rfl, hmay⟩ := hnot
            exact .inr ⟨more, heq ▸ hrest, hne, hmay, rfl, rfl⟩
          · cases h
        · cases h
      · cases h
  · cases h

/-- A walk that may not pass over a `not` passes over none. -/
lemma Walks.negation_eq_none {tokens : List Template.Token} {place : ClausePlace}
    {placements : List Placement} {negation : Option Nat}
    (h : Walks x options refs tokens false place placements negation) : negation = none := by
  generalize hmay : false = mayNegate at h
  induction h with
  | nil => rfl
  | word _ ih => exact ih hmay
  | negated => cases hmay
  | place _ _ _ _ ih => exact ih hmay

/-- A walk that succeeds is a derivation. -/
lemma walks_of_walkTokens {tokens : List Template.Token} {mayNegate : Bool} {place : ClausePlace}
    {placements : List Placement} {negation : Option Nat}
    (h : x.walkTokens options refs tokens mayNegate place = .ok (placements, negation)) :
    Walks x options refs tokens mayNegate place placements negation := by
  induction tokens generalizing mayNegate place placements negation with
  | nil =>
    rw [walkTokens] at h
    split at h
    · next hempty =>
      cases h
      obtain ⟨position, rest⟩ := place
      obtain rfl := List.isEmpty_iff.1 hempty
      exact .nil
    · cases h
  | cons token tokens ih =>
    cases token with
    | word expected =>
      rw [walkTokens] at h
      dsimp only [bind, Except.bind] at h
      split at h
      · cases h
      next passed hword =>
      split at h
      · cases h
      next later hlater =>
      cases h
      have hwalks := ih hlater
      obtain ⟨position, rest⟩ := place
      obtain ⟨next, passedNegation⟩ := passed
      rcases walkWord_eq_ok hword with ⟨more, rfl, rfl, rfl⟩ | ⟨more, rfl, hne, rfl, rfl, rfl⟩
      · rw [Option.isNone_none, Bool.and_true] at hwalks
        exact .word hwalks
      · have hnone : later.2 = none := hwalks.negation_eq_none
        rw [hnone] at hwalks
        exact .negated hne hwalks
    | place ordinal =>
      rw [walkTokens] at h
      split at h
      · next ref intervening s rest href hspan =>
        dsimp only [bind, Except.bind] at h
        split at h
        · cases h
        next taken hrole =>
        split at h
        · cases h
        next later hlater =>
        cases h
        exact .place href hspan hrole (ih hlater)
      · cases h

/-- A derivation is a walk that succeeds. -/
lemma Walks.walkTokens_eq {tokens : List Template.Token} {mayNegate : Bool} {place : ClausePlace}
    {placements : List Placement} {negation : Option Nat}
    (h : Walks x options refs tokens mayNegate place placements negation) :
    x.walkTokens options refs tokens mayNegate place = .ok (placements, negation) := by
  induction h with
  | nil => rfl
  | @word text _ mayNegate _ _ _ _ _ ih =>
    have hword : ∀ position rest, walkWord text mayNegate ⟨position, .word text :: rest⟩ =
        .ok (⟨position + 1, rest⟩, none) := by
      intro position rest
      simp [walkWord]
    rw [walkTokens, hword]
    dsimp only [bind, Except.bind]
    rw [Option.isNone_none, Bool.and_true, ih]
    rfl
  | @negated text _ _ _ _ hne _ ih =>
    have hword : ∀ position rest,
        walkWord text true ⟨position, .word "not" :: .word text :: rest⟩ =
          .ok (⟨position + 2, rest⟩, some position) := by
      intro position rest
      simp [walkWord, hne]
    rw [walkTokens, hword]
    dsimp only [bind, Except.bind]
    rw [Option.isNone_some, Bool.and_false, ih]
    rfl
  | place href hspan hrole _ ih =>
    rw [walkTokens, href, hspan]
    dsimp only [bind, Except.bind]
    rw [hrole]
    dsimp only
    rw [ih]
    rfl

/-- A walk succeeds just in case there is a derivation. -/
theorem walkTokens_eq_ok_iff {tokens : List Template.Token} {mayNegate : Bool}
    {place : ClausePlace} {placements : List Placement} {negation : Option Nat} :
    x.walkTokens options refs tokens mayNegate place = .ok (placements, negation) ↔
      Walks x options refs tokens mayNegate place placements negation :=
  ⟨walks_of_walkTokens, Walks.walkTokens_eq⟩

/-! ## What a walk says -/

namespace Walks

variable {tokens : List Template.Token} {mayNegate : Bool} {place : ClausePlace}
  {placements : List Placement} {negation : Option Nat}

/-- Every slot takes a role, in order. -/
theorem takes (h : Walks x options refs tokens mayNegate place placements negation) :
    List.Forall₂ (Takes x options refs) (place.rest.flatMap Phrase.slots) placements := by
  induction h with
  | nil => exact .nil
  | word _ ih => exact ih
  | negated _ _ ih => exact ih
  | @place ordinal _ _ place _ _ _ ref intervening s rest p href hspan hrole _ ih =>
    obtain ⟨supertype, residualLeading, residualTrailing, taken, hplayer, -, htrailing, rfl, -,
      rfl⟩ := walkRole_eq_ok hrole
    obtain ⟨ws, hws, -⟩ := walkTrailing_words htrailing
    have hslots : place.rest.flatMap Phrase.slots =
        s :: (rest.drop taken).flatMap Phrase.slots := by
      rw [← spanWords_append place.rest, hspan, ← List.take_append_drop taken rest, hws]
      simp only [List.flatMap_append, flatMap_slots_words, List.flatMap_cons, Phrase.slots,
        List.nil_append, List.singleton_append]
      rw [← hws, List.take_append_drop]
    rw [hslots]
    exact .cons ⟨rfl, ⟨ref, href, rfl⟩, hplayer⟩ ih

/-- Every placeholder is taken, in order. -/
theorem roleRefs_eq (h : Walks x options refs tokens mayNegate place placements negation) :
    placements.map (·.roleRef) = Template.places tokens := by
  induction h with
  | nil => rfl
  | word _ ih => exact ih
  | negated _ _ ih => exact ih
  | place _ _ hrole _ ih =>
    obtain ⟨_, _, _, _, -, -, -, rfl, -, -⟩ := walkRole_eq_ok hrole
    exact congrArg (_ :: ·) ih

/-- The mentions of the placements are those of the slots, in order. -/
lemma mentions_eq (h : Walks x options refs tokens mayNegate place placements negation) :
    placements.map (·.mention) = (place.rest.flatMap Phrase.slots).map (·.mention) := by
  have hsame : List.Forall₂ (· = ·) (placements.map (·.mention))
      ((place.rest.flatMap Phrase.slots).map (·.mention)) :=
    List.forall₂_map_left_iff.2 (List.forall₂_map_right_iff.2
      (h.takes.imp fun _ _ htakes => htakes.mention_eq).flip)
  exact List.forall₂_eq_eq_eq ▸ hsame

/-- A placement is that of a slot. -/
lemma takes_of_mem (h : Walks x options refs tokens mayNegate place placements negation)
    {p : Placement} (hp : p ∈ placements) :
    ∃ s ∈ place.rest.flatMap Phrase.slots, Takes x options refs s p := by
  obtain ⟨i, hi, rfl⟩ := List.mem_iff_getElem.1 hp
  have hlt : i < (place.rest.flatMap Phrase.slots).length := h.takes.length_eq ▸ hi
  exact ⟨_, List.getElem_mem hlt, h.takes.get (i := i) hlt hi⟩

/-- The role of a placement is that of the reference for its placeholder. -/
lemma role_eq (h : Walks x options refs tokens mayNegate place placements negation)
    {p : Placement} (hp : p ∈ placements) :
    ∃ ref, refs[p.roleRef]? = some ref ∧ p.role = ref.role :=
  (h.takes_of_mem hp).elim fun _ htakes => htakes.2.role_eq

/-- No two placements are for one role, if the placeholders are different and so are their roles. -/
lemma eq_of_role_eq (h : Walks x options refs tokens mayNegate place placements negation)
    (hplaces : (Template.places tokens).Nodup) (hrefs : (refs.map (·.role)).Nodup)
    {p q : Placement} (hp : p ∈ placements) (hq : q ∈ placements) (hrole : p.role = q.role) :
    p = q := by
  obtain ⟨ref, href, hpref⟩ := h.role_eq hp
  obtain ⟨ref', href', hqref⟩ := h.role_eq hq
  have hlt := (List.getElem?_eq_some_iff.1 href).1
  have hroleRef : p.roleRef = q.roleRef := by
    have hsame : (refs.map (·.role))[p.roleRef]? = (refs.map (·.role))[q.roleRef]? := by
      rw [List.getElem?_map, List.getElem?_map, href, href', Option.map_some, Option.map_some,
        ← hpref, ← hqref, hrole]
    exact (List.getElem?_inj (by simpa using hlt) hrefs).1 hsame
  have hnodup : (placements.map (·.roleRef)).Nodup := h.roleRefs_eq ▸ hplaces
  exact List.inj_on_of_nodup_map hnodup hp hq hroleRef

/-- The roles of the placements are different, if the placeholders are and so are their roles. -/
lemma roles_nodup (h : Walks x options refs tokens mayNegate place placements negation)
    (hplaces : (Template.places tokens).Nodup) (hrefs : (refs.map (·.role)).Nodup) :
    (placements.map (·.role)).Nodup := by
  have hnodup : placements.Nodup := List.Nodup.of_map (·.roleRef) (h.roleRefs_eq ▸ hplaces)
  exact hnodup.map_on fun p hp q hq => h.eq_of_role_eq hplaces hrefs hp hq

/-- No position in front of the place is taken. -/
lemma position_le (h : Walks x options refs tokens mayNegate place placements negation) {i : Nat}
    (hi : i ∈ placements.flatMap (·.absorbed) ++ negation.toList) : place.position ≤ i := by
  induction h with
  | nil => cases hi
  | word _ ih => exact Nat.le_of_succ_le (ih hi)
  | @negated _ _ position _ _ _ _ ih =>
    rcases List.mem_append.1 hi with hi | hi
    · have hlater : position + 2 ≤ i := ih (List.mem_append_left _ hi)
      exact Nat.le_trans (Nat.le_add_right position 2) hlater
    · exact Nat.le_of_eq (List.mem_singleton.1 hi).symm
  | place href hspan hrole _ ih =>
    obtain ⟨taken, hnext, hprecursors, hfollowers⟩ := walkRole_positions hrole
    rw [List.flatMap_cons, List.append_assoc, List.mem_append, Placement.absorbed, hprecursors,
      hfollowers, List.mem_append, List.mem_range'_1, List.mem_range'_1] at hi
    rcases hi with (hi | hi) | hi
    · exact hi.1
    · omega
    · have hlater := ih hi
      omega

/-- No position is taken twice. -/
theorem nodup_taken (h : Walks x options refs tokens mayNegate place placements negation) :
    (placements.flatMap (·.absorbed) ++ negation.toList).Nodup := by
  induction h with
  | nil => exact List.nodup_nil
  | word _ ih => exact ih
  | @negated _ _ position _ _ _ hwalks ih =>
    refine List.nodup_append.2 ⟨(List.nodup_append.1 ih).1, List.nodup_singleton _, ?_⟩
    rintro i hi _ hj rfl
    obtain rfl := List.mem_singleton.1 hj
    have hlater : i + 2 ≤ i := hwalks.position_le (List.mem_append_left _ hi)
    omega
  | @place _ _ _ place next placements negation _ intervening _ _ p href hspan hrole hwalks ih =>
    obtain ⟨taken, hnext, hprecursors, hfollowers⟩ := walkRole_positions hrole
    rw [List.flatMap_cons, List.append_assoc]
    have habsorbed : ∀ i ∈ p.absorbed, i < next.position := by
      intro i hi
      rw [Placement.absorbed, hprecursors, hfollowers, List.mem_append, List.mem_range'_1,
        List.mem_range'_1] at hi
      omega
    have hnodup : p.absorbed.Nodup := by
      rw [Placement.absorbed, hprecursors, hfollowers]
      refine List.nodup_append.2 ⟨List.nodup_range', List.nodup_range', ?_⟩
      rintro i hi _ hj rfl
      rw [List.mem_range'_1] at hi hj
      omega
    refine List.nodup_append.2 ⟨hnodup, ih, ?_⟩
    rintro i hi _ hj rfl
    exact absurd (hwalks.position_le hj) (Nat.not_le.2 (habsorbed i hi))

/-- The positions that a walk takes out of the clause are those of words. -/
theorem word_of_mem_taken (h : Walks x options refs tokens mayNegate place placements negation)
    (before : List Phrase) (hbefore : before.length = place.position) {i : Nat}
    (hi : i ∈ placements.flatMap (·.absorbed) ++ negation.toList) :
    ∃ text, (before ++ place.rest)[i]? = some (.word text) := by
  induction h generalizing before with
  | nil => cases hi
  | @word text _ _ _ rest _ _ _ ih =>
    have hrest := ih (before ++ [.word text]) (by simp [hbefore]) hi
    rwa [List.append_assoc] at hrest
  | @negated text _ position rest placements _ _ ih =>
    rcases List.mem_append.1 hi with hi | hi
    · have hrest := ih (before ++ [.word "not", .word text]) (by simp [hbefore])
        (List.mem_append_left _ hi)
      rwa [List.append_assoc] at hrest
    · refine ⟨"not", ?_⟩
      have hlength : before.length = i := (List.mem_singleton.1 hi) ▸ hbefore
      rw [← hlength, List.getElem?_append_right (Nat.le_refl _), Nat.sub_self]
      rfl
  | @place ordinal _ _ place _ placements negation ref intervening s rest p href hspan hrole _ ih =>
    obtain ⟨_, _, _, taken, -, -, htrailing, rfl, -, rfl⟩ := walkRole_eq_ok hrole
    obtain ⟨ws, hws, hlength⟩ := walkTrailing_words htrailing
    have hrest : place.rest = intervening.map Phrase.word ++
        (.slot s :: (ws.map Phrase.word ++ rest.drop taken)) := by
      rw [← spanWords_append place.rest, hspan, ← hws, List.take_append_drop]
    have hmore := ih (before ++ intervening.map Phrase.word ++ .slot s :: ws.map Phrase.word)
      (by simp; omega)
    rw [hrest]
    rw [List.flatMap_cons, List.append_assoc, List.mem_append, Placement.absorbed, List.mem_append,
      List.mem_range'_1, List.mem_range'_1, List.mem_append] at hi
    rcases hi with (hi | hi) | hi | hi
    · have hword := getElem?_words before (.slot s :: (ws.map Phrase.word ++ rest.drop taken))
        intervening (hbefore ▸ hi.1) (hbefore ▸ hi.2)
      rwa [List.append_assoc] at hword
    · have hword := getElem?_words (before ++ intervening.map Phrase.word ++ [.slot s])
        (rest.drop taken) ws (i := i) (by simp; omega) (by simp; omega)
      simpa using hword
    · have hlater := hmore (List.mem_append_left _ hi)
      simpa using hlater
    · have hlater := hmore (List.mem_append_right _ hi)
      simpa using hlater

end Walks

/-! ## Alignments -/

/-- What a reading needs in order to match a clause, and what its alignment says then. -/
theorem align_eq_ok_iff {c : Clause} {r : ReadingId} {a : Alignment} :
    x.align options c r = .ok a ↔
      ((x.vocabulary.reading r).isNegative → c.certainty = .negated) ∧
      Walks x options (x.vocabulary.readingRefs r) (x.vocabulary.reading r).tokens
        (!(x.vocabulary.reading r).isNegative) ⟨0, c.phrases⟩ a.placements a.negation ∧
      x.checkSubtypeSteps (x.vocabulary.reading r).factType a.placements = .ok () ∧
      a.factType = (x.vocabulary.reading r).factType ∧ a.reading = r ∧
      a.roleSequence = (x.vocabulary.reading r).roleSequence := by
  unfold align
  dsimp only
  split
  · next hrefused =>
    constructor
    · intro h
      cases h
    · rintro ⟨hcertainty, -⟩
      exact absurd (hcertainty hrefused.1) hrefused.2
  next hallowed =>
  have hcertainty : (x.vocabulary.reading r).isNegative → c.certainty = .negated :=
    fun h => Decidable.of_not_not fun h' => hallowed ⟨h, h'⟩
  dsimp only [bind, Except.bind]
  constructor
  · intro h
    split at h
    · cases h
    next placements hwalk =>
    split at h
    · cases h
    next _ hsteps =>
    cases h
    exact ⟨hcertainty, walkTokens_eq_ok_iff.1 hwalk, hsteps, rfl, rfl, rfl⟩
  · rintro ⟨-, hwalks, hsteps, hfactType, hreading, hroleSequence⟩
    rw [walkTokens_eq_ok_iff.2 hwalks]
    dsimp only
    rw [hsteps, ← hfactType, ← hroleSequence]
    obtain ⟨f, _, s, placements, negation⟩ := a
    cases hreading
    rfl

end Context

end FactModel
