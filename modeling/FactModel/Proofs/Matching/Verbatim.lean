import FactModel.Proofs.Context.Replay
import FactModel.Proofs.Matching.Ranking
set_option autoImplicit false

/-!
# Clauses in the words of a reading

A clause in the very words of a reading costs nothing: its words are words of the template, and its
mentions have the players and the adjectives of the roles. A match that costs nothing takes no step
between types, so it is also a match where players stand only for themselves.

## Main definitions

* `FactModel.Placement.IsVerbatim` — a mention takes a role as the reading has it.
* `FactModel.spelledTokens` — the tokens of phrases, with numbered placeholders.
* `FactModel.Context.Voices` — the slots of a clause voice the roles of a reading.

## Main results

* `FactModel.Alignment.cost_eq_zero_iff` — what costs nothing is verbatim.
* `FactModel.Context.align_of_voices` — a clause matches the reading whose words it has.
* `FactModel.Context.align_exactTypes_of_onto` — a match without steps between types does not depend
  on what the vocabulary has gained.
-/

namespace FactModel

/-! ## What costs nothing -/

/-- A mention takes a role as the reading has it: no words are absorbed, no adjectives are left
over, and the player is that of the role. -/
structure Placement.IsVerbatim (p : Placement) : Prop where
  precursors : p.absorbedPrecursors = []
  followers : p.absorbedFollowers = []
  supertype : p.commonSupertype = none
  leading : p.residualLeading = none
  trailing : p.residualTrailing = none

namespace Alignment

/-- Placements cost nothing together if each of them costs nothing. -/
lemma placementCost_eq_zero_iff {ps : List Placement} :
    placementCost ps = 0 ↔ ∀ p ∈ ps, p.cost = 0 := by
  induction ps with
  | nil => simp [placementCost]
  | cons p ps ih => simp [placementCost, ih]

/-- What costs nothing is verbatim and passes over no `not`. -/
theorem cost_eq_zero_iff {a : Alignment} :
    a.cost = 0 ↔ a.negation = none ∧ ∀ p ∈ a.placements, p.IsVerbatim := by
  have hnegation : (if a.negation.isSome then 2 else 0) = 0 ↔ a.negation = none := by
    cases a.negation <;> simp
  have hresidue : a.hasResidue.toNat = 0 ↔ ∀ p ∈ a.placements, p.hasResidue = false := by
    rw [Bool.toNat_eq_zero, hasResidue, List.any_eq_false]
    simp
  have hplacement : ∀ p : Placement, p.cost = 0 ∧ p.hasResidue = false ↔ p.IsVerbatim := by
    intro p
    simp only [Placement.cost, Placement.hasResidue, Nat.add_eq_zero_iff, List.length_eq_zero_iff,
      Bool.or_eq_false_iff, Option.isSome_eq_false_iff, Option.isNone_iff_eq_none,
      Option.toList_eq_nil_iff]
    exact ⟨fun h => ⟨h.1.1.1, h.1.1.2, h.1.2, h.2.1, h.2.2⟩,
      fun h => ⟨⟨⟨h.precursors, h.followers⟩, h.supertype⟩, h.leading, h.trailing⟩⟩
  rw [cost, Nat.add_eq_zero_iff, Nat.add_eq_zero_iff, placementCost_eq_zero_iff, hresidue,
    hnegation, and_comm]
  simp only [← hplacement]
  exact and_congr_right fun _ => ⟨fun h p hp => ⟨h.1 p hp, h.2 p hp⟩,
    fun h => ⟨fun p hp => (h p hp).1, fun p hp => (h p hp).2⟩⟩

end Alignment

/-! ## The words of a clause -/

/-- The tokens of phrases, the placeholders numbered from a number on. -/
def spelledTokens : List Phrase → Nat → List Template.Token
  | [], _ => []
  | .word text :: ps, n => .word text :: spelledTokens ps n
  | .slot _ :: ps, n => .place n :: spelledTokens ps (n + 1)
  | .comparison .. :: ps, n => spelledTokens ps n

/-- Whether the phrase is no comparison. -/
def Phrase.isStated : Phrase → Bool
  | .comparison .. => false
  | _ => true

/-- The tokens of plain phrases are plain, if there are not too many slots to be numbered. -/
lemma isPlain_spelledTokens {ps : List Phrase} (hps : ∀ p ∈ ps, p.IsPlain) {n : Nat}
    (hn : n + (ps.flatMap Phrase.slots).length ≤ Template.placeLimit) :
    ∀ t ∈ spelledTokens ps n, t.IsPlain := by
  induction ps generalizing n with
  | nil => exact fun _ ht => absurd ht List.not_mem_nil
  | cons p ps ih =>
    obtain ⟨hp, hrest⟩ := List.forall_mem_cons.1 hps
    rw [List.flatMap_cons, List.length_append] at hn
    cases p with
    | word text =>
      exact List.forall_mem_cons.2 ⟨hp, ih hrest (by simpa [Phrase.slots] using hn)⟩
    | slot s =>
      have hlength : (Phrase.slot s).slots.length = 1 := rfl
      refine List.forall_mem_cons.2 ⟨?_, ih hrest (by omega)⟩
      change n < Template.placeLimit
      omega
    | comparison operator left right =>
      exact ih hrest (by omega)

/-- The placeholders of spelled tokens are numbered in order. -/
lemma places_spelledTokens {ps : List Phrase} (hstated : ∀ p ∈ ps, p.isStated) (n : Nat) :
    Template.places (spelledTokens ps n) = List.range' n (ps.flatMap Phrase.slots).length := by
  induction ps generalizing n with
  | nil => rfl
  | cons p ps ih =>
    obtain ⟨hp, hps⟩ := List.forall_mem_cons.1 hstated
    cases p with
    | word text => exact ih hps n
    | slot s =>
      have hrest := ih hps (n + 1)
      rw [List.flatMap_cons, List.length_append]
      change n :: Template.places (spelledTokens ps (n + 1)) = List.range' n (1 + _)
      rw [hrest, Nat.add_comm 1, List.range'_succ]
    | comparison operator left right => cases hp

/-! ## Adjectives that are used up -/

/-- Only no words are no adjective. -/
lemma ofWords_eq_none_iff {ws : List String} : Adjective.ofWords ws = none ↔ ws = [] := by
  cases ws <;> simp [Adjective.ofWords]

/-- Where neither words in front are taken nor adjectives left over, the adjectives are equal. -/
lemma eq_of_walkLeading {m : MentionId} {wanted explicit : List String} {position : Nat}
    {absorbed : List Nat} (h : walkLeading m wanted explicit position [] = .ok (none, absorbed)) :
    wanted = explicit := by
  unfold walkLeading at h
  rw [if_pos List.isEmpty_nil] at h
  split at h
  · next hsuffix =>
    have hnone : Adjective.ofWords (explicit.take (explicit.length - wanted.length)) = none :=
      (Prod.ext_iff.1 (Except.ok.inj h)).1
    have hlength := congrArg List.length (ofWords_eq_none_iff.1 hnone)
    rw [List.length_take, List.length_nil] at hlength
    exact (List.isSuffixOf_iff_suffix.1 hsuffix).eq_of_length_le (by omega)
  · cases h

/-- Where neither words behind are taken nor adjectives left over, the adjectives are equal. -/
lemma eq_of_walkTrailing {m : MentionId} {wanted explicit : List String} {rest : List Phrase}
    (h : walkTrailing m wanted explicit rest = .ok (none, 0)) : wanted = explicit := by
  unfold walkTrailing at h
  split at h
  · split at h
    · next hwanted =>
      have hnone : Adjective.ofWords (explicit.drop wanted.length) = none :=
        (Prod.ext_iff.1 (Except.ok.inj h)).1
      have hlength := congrArg List.length (ofWords_eq_none_iff.1 hnone)
      rw [List.length_drop, List.length_nil] at hlength
      exact (List.isPrefixOf_iff_prefix.1 hwanted).eq_of_length_le (by omega)
    · cases h
  · next hshort =>
    dsimp only at h
    split at h
    · have hnone : (wanted.drop explicit.length).length = 0 :=
        (Prod.ext_iff.1 (Except.ok.inj h)).2
      rw [List.length_drop] at hnone
      omega
    · cases h

namespace Context

variable {x : Context} {options : MatchOptions} {refs : List RoleRef}

/-- A mention voices a role reference: it has its adjectives, and its player is that of the role. -/
structure Voices (x : Context) (s : Slot) (ref : RoleRef) : Prop where
  leading_eq : ref.leading = (x.mention s.mention).leading
  trailing_eq : ref.trailing = (x.mention s.mention).trailing
  player_eq : (x.mention s.mention).player = some (x.vocabulary.playerOf ref.role)

/-- A mention echoes a role reference: its adjectives have the same words, and its player is that of
the role. -/
structure Echoes (x : Context) (s : Slot) (ref : RoleRef) : Prop where
  leading_eq : Adjective.words ref.leading = Adjective.words (x.mention s.mention).leading
  trailing_eq : Adjective.words ref.trailing = Adjective.words (x.mention s.mention).trailing
  player_eq : (x.mention s.mention).player = some (x.vocabulary.playerOf ref.role)

/-- A mention that voices a role reference echoes it. -/
lemma Voices.echoes {s : Slot} {ref : RoleRef} (h : x.Voices s ref) : x.Echoes s ref :=
  ⟨congrArg _ h.leading_eq, congrArg _ h.trailing_eq, h.player_eq⟩

/-- A phrase echoes a token: it is the word, or its mention echoes the role reference that the
placeholder is for. -/
inductive EchoesToken (x : Context) (refs : List RoleRef) : Template.Token → Phrase → Prop
  | word (text : String) : EchoesToken x refs (.word text) (.word text)
  | place {ordinal : Nat} {ref : RoleRef} {s : Slot} (href : refs[ordinal]? = some ref)
      (h : x.Echoes s ref) : EchoesToken x refs (.place ordinal) (.slot s)

/-- A clause echoes a reading if its phrases echo the tokens, one by one. -/
def Echo (x : Context) (c : Clause) (r : ReadingId) : Prop :=
  List.Forall₂ (x.EchoesToken (x.vocabulary.readingRefs r))
    (x.vocabulary.reading r).tokens c.phrases

/-- A placeholder without words in front is laid on a mention with the adjectives of its role
reference. -/
lemma walkRole_of_adjectives {s : Slot} {ref : RoleRef} {supertype : Option ObjectTypeId}
    (hleading : Adjective.words ref.leading = Adjective.words (x.mention s.mention).leading)
    (htrailing : Adjective.words ref.trailing = Adjective.words (x.mention s.mention).trailing)
    (hplayer : x.walkPlayer options s (x.vocabulary.playerOf ref.role) = .ok supertype)
    (ordinal position : Nat) (rest : List Phrase) :
    x.walkRole options ref ordinal position [] s rest =
      .ok (⟨s.mention, ref.role, ordinal, [], [], supertype, none, none⟩,
        ⟨position + 1, rest⟩) := by
  have hlead : walkLeading s.mention (Adjective.words ref.leading)
      (Adjective.words (x.mention s.mention).leading) position [] = .ok (none, []) := by
    simp [walkLeading, hleading, Adjective.ofWords]
  have htrail : walkTrailing s.mention (Adjective.words ref.trailing)
      (Adjective.words (x.mention s.mention).trailing) rest = .ok (none, 0) := by
    simp [walkTrailing, htrailing, Adjective.ofWords]
  exact walkRole_of hplayer hlead htrail fun hresidue => absurd hresidue.1 Bool.false_ne_true

/-- A placeholder is laid on the mention that echoes its role reference. -/
lemma Echoes.walkRole {s : Slot} {ref : RoleRef} (h : x.Echoes s ref) (options : MatchOptions)
    (ordinal position : Nat) (rest : List Phrase) :
    ∃ p : Placement, p.IsVerbatim ∧
      x.walkRole options ref ordinal position [] s rest = .ok (p, ⟨position + 1, rest⟩) := by
  have hplayer : x.walkPlayer options s (x.vocabulary.playerOf ref.role) = .ok none := by
    rw [walkPlayer, h.player_eq]
    exact if_pos rfl
  exact ⟨⟨s.mention, ref.role, ordinal, [], [], none, none, none⟩, ⟨rfl, rfl, rfl, rfl, rfl⟩,
    walkRole_of_adjectives h.leading_eq h.trailing_eq hplayer ordinal position rest⟩

/-- Tokens are laid along the phrases that echo them.

**Proof sketch.** By induction on the tokens. No words are left over in front of a slot, because
each was laid on an equal word of the template. -/
theorem walks_of_echoes (options : MatchOptions) {tokens : List Template.Token} {ps : List Phrase}
    (h : List.Forall₂ (x.EchoesToken refs) tokens ps) (mayNegate : Bool) (position : Nat) :
    ∃ placements, Walks x options refs tokens mayNegate ⟨position, ps⟩ placements none ∧
      ∀ p ∈ placements, p.IsVerbatim := by
  induction h generalizing position with
  | nil => exact ⟨[], .nil, List.forall_mem_nil _⟩
  | @cons token phrase tokens ps hfirst _ ih =>
    obtain ⟨placements, hwalks, hverbatim⟩ := ih (position + 1)
    cases hfirst with
    | word text => exact ⟨placements, .word hwalks, hverbatim⟩
    | @place ordinal ref s href hs =>
      obtain ⟨p, hp, hrole⟩ := hs.walkRole options ordinal position ps
      exact ⟨p :: placements, .place href rfl hrole hwalks,
        List.forall_mem_cons.2 ⟨hp, hverbatim⟩⟩

/-- A player that takes no step between types is the player of the role. -/
lemma player_of_walkPlayer {s : Slot} {t : ObjectTypeId}
    (h : x.walkPlayer options s t = .ok none) : (x.mention s.mention).player = some t := by
  unfold walkPlayer at h
  split at h
  · cases h
  next player hplayer =>
  split at h
  · next heq => exact heq ▸ hplayer
  split at h
  · cases h
  split at h <;> cases h

/-- What a placement that is verbatim was laid on: a slot right behind the place. -/
lemma echoes_of_walkRole {ref : RoleRef} {ordinal : Nat} {place next : ClausePlace}
    {intervening : List String} {s : Slot} {rest : List Phrase} {p : Placement}
    (hspan : spanWords place.rest = (intervening, .slot s :: rest))
    (h : x.walkRole options ref ordinal place.position intervening s rest = .ok (p, next))
    (hp : p.IsVerbatim) :
    x.Echoes s ref ∧ place.rest = .slot s :: rest ∧ next = ⟨place.position + 1, rest⟩ := by
  obtain ⟨supertype, residualLeading, residualTrailing, taken, hplayer, hleading, htrailing, rfl, -,
    rfl⟩ := walkRole_eq_ok h
  obtain rfl : intervening = [] := by
    have hnone := congrArg List.length hp.precursors
    rw [List.length_range'] at hnone
    exact List.length_eq_zero_iff.1 hnone
  obtain rfl : taken = 0 := by
    have hnone := congrArg List.length hp.followers
    rwa [List.length_range'] at hnone
  obtain rfl : residualLeading = none := hp.leading
  obtain rfl : residualTrailing = none := hp.trailing
  obtain rfl : supertype = none := hp.supertype
  have hplace : place.rest = .slot s :: rest := by
    rw [← spanWords_append place.rest, hspan]
    rfl
  exact ⟨⟨eq_of_walkLeading hleading, eq_of_walkTrailing htrailing, player_of_walkPlayer hplayer⟩,
    hplace, rfl⟩

/-- The phrases along which tokens are laid verbatim echo them. -/
theorem Walks.echoes {tokens : List Template.Token} {mayNegate : Bool} {place : ClausePlace}
    {placements : List Placement}
    (h : Walks x options refs tokens mayNegate place placements none)
    (hverbatim : ∀ p ∈ placements, p.IsVerbatim) :
    List.Forall₂ (x.EchoesToken refs) tokens place.rest := by
  generalize hnegation : (none : Option Nat) = negation at h
  induction h with
  | nil => exact .nil
  | word _ ih => exact .cons (.word _) (ih hverbatim hnegation)
  | negated => cases hnegation
  | place href hspan hrole _ ih =>
    obtain ⟨hp, hrest⟩ := List.forall_mem_cons.1 hverbatim
    obtain ⟨hechoes, hplace, rfl⟩ := echoes_of_walkRole hspan hrole hp
    rw [hplace]
    exact .cons (.place href hechoes) (ih hrest hnegation)

/-- The phrases that tokens are spelled by echo them, if their slots voice the role references that
the placeholders are for. -/
lemma echoes_spelledTokens {ps : List Phrase} (hstated : ∀ p ∈ ps, p.isStated) {n : Nat}
    (hvoices : List.Forall₂ (x.Voices · ·) (ps.flatMap Phrase.slots) (refs.drop n)) :
    List.Forall₂ (x.EchoesToken refs) (spelledTokens ps n) ps := by
  induction ps generalizing n with
  | nil => exact .nil
  | cons p ps ih =>
    have hps := fun q hq => hstated q (List.mem_cons_of_mem p hq)
    cases p with
    | word text => exact .cons (.word text) (ih hps hvoices)
    | slot s =>
      obtain ⟨ref, later, hvoice, hrest, hdrop⟩ := List.forall₂_cons_left_iff.1 hvoices
      have href : refs[n]? = some ref := by
        rw [← List.head?_drop, hdrop]
        rfl
      have hlater : refs.drop (n + 1) = later := by
        rw [← List.tail_drop, hdrop]
        rfl
      exact .cons (.place href hvoice.echoes) (ih hps (hlater ▸ hrest))
    | comparison operator left right =>
      exact absurd (hstated _ List.mem_cons_self) Bool.false_ne_true

/-- Without steps between types there is nothing to check about them. -/
lemma checkSubtypeSteps_of_forall {f : FactTypeId} {placements : List Placement}
    (h : ∀ p ∈ placements, p.commonSupertype = none) :
    x.checkSubtypeSteps f placements = .ok () := by
  have hnone : placements.filter (·.commonSupertype.isSome) = [] := by
    rw [List.filter_eq_nil_iff]
    intro p hp
    simp [h p hp]
  unfold checkSubtypeSteps
  rw [hnone]
  simp

/-- A clause matches any reading that it echoes, and at no cost. -/
theorem align_of_echo {c : Clause} {r : ReadingId} (h : x.Echo c r)
    (hcertainty : (x.vocabulary.reading r).isNegative → c.certainty = .negated)
    (options : MatchOptions) : ∃ a, x.align options c r = .ok a ∧ a.cost = 0 := by
  obtain ⟨placements, hwalks, hverbatim⟩ :=
    walks_of_echoes options h (!(x.vocabulary.reading r).isNegative) 0
  refine ⟨⟨(x.vocabulary.reading r).factType, r, (x.vocabulary.reading r).roleSequence, placements,
    none⟩, ?_, Alignment.cost_eq_zero_iff.2 ⟨rfl, hverbatim⟩⟩
  exact align_eq_ok_iff.2 ⟨hcertainty, hwalks,
    checkSubtypeSteps_of_forall fun p hp => (hverbatim p hp).supertype, rfl, rfl, rfl⟩

/-- A clause echoes every reading that it matches at no cost. -/
theorem echo_of_align {c : Clause} {r : ReadingId} {a : Alignment}
    (h : x.align options c r = .ok a) (hcost : a.cost = 0) : x.Echo c r := by
  obtain ⟨hnegation, hverbatim⟩ := Alignment.cost_eq_zero_iff.1 hcost
  obtain ⟨-, hwalks, -⟩ := align_eq_ok_iff.1 h
  rw [hnegation] at hwalks
  exact hwalks.echoes hverbatim

/-- A clause matches the reading whose words it has, and at no cost. -/
theorem align_of_voices {c : Clause} {r : ReadingId} (hstated : ∀ p ∈ c.phrases, p.isStated)
    (hcertainty : (x.vocabulary.reading r).isNegative → c.certainty = .negated)
    (htokens : (x.vocabulary.reading r).tokens = spelledTokens c.phrases 0)
    (hvoices : List.Forall₂ (x.Voices · ·) c.slots (x.vocabulary.readingRefs r)) :
    ∃ a, x.align options c r = .ok a ∧ a.cost = 0 := by
  refine align_of_echo ?_ hcertainty options
  unfold Echo
  rw [htokens]
  exact echoes_spelledTokens hstated hvoices

/-! ## Matches without steps between types -/

/-- A slot whose player does not step to another type takes its role wherever the two are the
same. -/
lemma walkPlayer_exactTypes {s : Slot} {t : ObjectTypeId}
    (h : x.walkPlayer options s t = .ok none) (w : Vocabulary) :
    (x.onto w).walkPlayer { exactTypes := true } s t = .ok none := by
  have hplayer := player_of_walkPlayer h
  change ((x.onto w).mention s.mention).player = some t at hplayer
  rw [walkPlayer, hplayer]
  exact if_pos rfl

/-- A walk without steps between types goes the same way over another vocabulary in which the roles
have the same players, also where players stand only for themselves. -/
lemma Walks.exactTypes {w : Vocabulary} {tokens : List Template.Token} {mayNegate : Bool}
    {place : ClausePlace} {placements : List Placement} {negation : Option Nat}
    (h : Walks x options refs tokens mayNegate place placements negation)
    (hsteps : ∀ p ∈ placements, p.commonSupertype = none)
    (hplayers : ∀ ref ∈ refs, w.playerOf ref.role = x.vocabulary.playerOf ref.role) :
    Walks (x.onto w) { exactTypes := true } refs tokens mayNegate place placements negation := by
  induction h with
  | nil => exact .nil
  | word _ ih => exact .word (ih hsteps)
  | negated hne _ ih => exact .negated hne (ih hsteps)
  | @place ordinal _ _ place _ _ _ ref intervening s rest p href hspan hrole _ ih =>
    refine .place href hspan ?_ (ih fun q hq => hsteps q (List.mem_cons_of_mem p hq))
    obtain ⟨supertype, residualLeading, residualTrailing, taken, hplayer, hleading, htrailing, rfl,
      hresidue, rfl⟩ := walkRole_eq_ok hrole
    obtain rfl : supertype = none := hsteps _ List.mem_cons_self
    have hplayer' : (x.onto w).walkPlayer { exactTypes := true } s
        ((x.onto w).vocabulary.playerOf ref.role) = .ok none := by
      have hsame : (x.onto w).vocabulary.playerOf ref.role = x.vocabulary.playerOf ref.role :=
        hplayers ref (List.mem_of_getElem? href)
      rw [hsame]
      exact walkPlayer_exactTypes hplayer w
    exact walkRole_of hplayer' hleading htrailing hresidue

/-- A match without steps between types does not depend on what the vocabulary has gained since the
reading was added, and it is also a match where players stand only for themselves. -/
theorem align_exactTypes_of_onto {v w : Vocabulary} {c : Clause} {r : ReadingId} {a : Alignment}
    (h : (x.onto w).align options c r = .ok a)
    (hsteps : ∀ p ∈ a.placements, p.commonSupertype = none) (hv : v.Consistent) (hgrows : v.Grows w)
    (hr : r ∈ v.readingIds) : (x.onto v).align { exactTypes := true } c r = .ok a := by
  obtain ⟨hcertainty, hwalks, -, hfactType, hreading, hsequence⟩ := align_eq_ok_iff.1 h
  have hsame : w.reading r = v.reading r := hgrows.reading_eq hr
  have hrefs : w.readingRefs r = v.readingRefs r := by
    rw [Vocabulary.readingRefs, Vocabulary.readingRefs, hsame,
      hgrows.roleSequence_eq (hv.reading_roleSequence_mem r hr)]
  have hplayers : ∀ ref ∈ v.readingRefs r, v.playerOf ref.role = w.playerOf ref.role :=
    fun ref href => (hgrows.playerOf_eq (hv.ref_mem _ ref href)).symm
  change (w.reading r).isNegative → _ at hcertainty
  change Walks (x.onto w) options (w.readingRefs r) (w.reading r).tokens _ _ _ _ at hwalks
  change a.factType = (w.reading r).factType at hfactType
  change a.roleSequence = (w.reading r).roleSequence at hsequence
  rw [hsame] at hcertainty hfactType hsequence
  rw [hrefs] at hwalks
  refine align_eq_ok_iff.2 ⟨hcertainty, ?_, checkSubtypeSteps_of_forall hsteps, hfactType, hreading,
    hsequence⟩
  have hexact := hwalks.exactTypes (w := v) hsteps hplayers
  change Walks (x.onto v) _ (v.readingRefs r) (w.reading r).tokens
    (!(w.reading r).isNegative) _ _ _ at hexact
  rwa [hsame] at hexact

end Context

end FactModel
