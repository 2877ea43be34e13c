import FactModel.Proofs.Matching.Changing
import FactModel.Proofs.Matching.Conservation
import FactModel.Proofs.Matching.Verbatim
set_option autoImplicit false

/-!
# Adjectives spelled as words

The words of an adjective may stand in a clause as plain words: the first words of a leading
adjective in front of the mention, the last words of a trailing adjective behind it. However the
adjectives of a reading are spelled in a clause, the clause matches the reading, at a cost of one
for each plain word, and applying the match leaves the same.

## Main definitions

* `FactModel.Context.Spells` — phrases spell a template, with so many words of adjectives among
  them.
* `FactModel.Standing` — what a match settles of a mention.
* `FactModel.Context.Alike` — two phrases differ at most in the mention.

## Main results

* `FactModel.Compile.ends_applyPlacements_mention` — what the placements of a match make of
  mentions.
* `FactModel.Context.align_of_spells` — a clause that spells a reading matches it.
* `FactModel.Context.align_spelling` — any two spellings come to the same.
-/

namespace FactModel

open Attempt

/-! ## Adjectives -/

/-- The first words of a leading adjective are taken from in front of the mention that has the
others. -/
lemma walkLeading_append (m : MentionId) (front explicit : List String) (position : Nat) :
    walkLeading m (front ++ explicit) explicit position front =
      .ok (none, List.range' position front.length) := by
  cases front with
  | nil => simp [walkLeading, Adjective.ofWords]
  | cons w front =>
    have hstarts : (w :: front).isPrefixOf (w :: front ++ explicit) = true :=
      List.isPrefixOf_iff_prefix.2 (List.prefix_append ..)
    unfold walkLeading
    rw [if_neg (by simp), if_pos hstarts]
    exact if_pos ⟨hstarts, List.drop_left.symm⟩

/-- The last words of a trailing adjective are taken from behind the mention that has the others. -/
lemma walkTrailing_append (m : MentionId) (explicit back : List String) (rest : List Phrase) :
    walkTrailing m (explicit ++ back) explicit (back.map Phrase.word ++ rest) =
      .ok (none, back.length) := by
  unfold walkTrailing
  cases back with
  | nil => simp [Adjective.ofWords]
  | cons w back =>
    have hlong : ¬(explicit ++ w :: back).length ≤ explicit.length := by simp
    have htake : ((w :: back).map Phrase.word ++ rest).take (w :: back).length =
        (w :: back).map Phrase.word := by
      rw [← List.length_map (f := Phrase.word), List.take_left]
    have hwords : ((w :: back).map Phrase.word).filterMap Phrase.word? = w :: back := by
      rw [List.filterMap_map]
      exact List.filterMap_some
    rw [if_neg hlong, List.drop_left]
    dsimp only
    rw [htake, hwords]
    exact if_pos ⟨List.isPrefixOf_iff_prefix.2 (List.prefix_append ..),
      List.isPrefixOf_iff_prefix.2 (List.prefix_refl _)⟩

/-! ## Mentions -/

/-- A mention takes a role without a step between types, and no adjectives are left over. -/
structure Placement.IsSettled (p : Placement) : Prop where
  supertype : p.commonSupertype = none
  leading : p.residualLeading = none
  trailing : p.residualTrailing = none

/-- What a match settles of a mention. -/
structure Standing where
  role : Option RoleId := none
  roleRef : Option (RoleSequenceId × Nat) := none
  leading : Option String := none
  trailing : Option String := none
  residualLeading : Option String := none
  residualTrailing : Option String := none
deriving DecidableEq

/-- What has been settled of a mention. -/
def Mention.standing (m : Mention) : Standing :=
  { role := m.role, roleRef := m.roleRef, leading := m.leading, trailing := m.trailing
    residualLeading := m.residualLeading, residualTrailing := m.residualTrailing }

/-- What the mention of a placement in a role sequence has in the end. -/
def Placement.standing (s : RoleSequenceId) (p : Placement) : Standing :=
  { role := some p.role, roleRef := some (s, p.roleRef)
    leading := p.residualLeading, trailing := p.residualTrailing
    residualLeading := p.residualLeading, residualTrailing := p.residualTrailing }

namespace Context

variable {x y : Context} {options : MatchOptions} {refs : List RoleRef}

/-! ## Spellings -/

/-- Phrases spell a template, with so many plain words that belong to adjectives. For each
placeholder there is a mention with the player of the role. Of the role's leading adjective the
first words stand in front of the mention, of its trailing adjective the last words behind, and the
mention has the others. -/
inductive Spells (x : Context) (refs : List RoleRef) :
    List Template.Token → List Phrase → Nat → Prop
  | nil : Spells x refs [] [] 0
  | word {text : String} {tokens : List Template.Token} {ps : List Phrase} {n : Nat}
      (h : Spells x refs tokens ps n) :
    Spells x refs (.word text :: tokens) (.word text :: ps) n
  | place {ordinal : Nat} {tokens : List Template.Token} {ps : List Phrase} {n : Nat}
      {ref : RoleRef}
      {s : Slot} {front back : List String} (href : refs[ordinal]? = some ref)
      (hleading : Adjective.words ref.leading =
        front ++ Adjective.words (x.mention s.mention).leading)
      (htrailing : Adjective.words ref.trailing =
        Adjective.words (x.mention s.mention).trailing ++ back)
      (hplayer : (x.mention s.mention).player = some (x.vocabulary.playerOf ref.role))
      (h : Spells x refs tokens ps n) :
    Spells x refs (.place ordinal :: tokens)
      (front.map Phrase.word ++ .slot s :: (back.map Phrase.word ++ ps))
      (front.length + back.length + n)

/-- A template is laid along phrases that spell it. The plain words of adjectives are taken, and
nothing is left over.

**Proof sketch.** By induction on the spelling. Between a mention and the next token there stand the
last words of its own trailing adjective and then the first words of the next mention's leading
adjective, if the next token is a placeholder. The first of these are taken with the mention in
front, so that the others are what stands between the next token and its mention. -/
theorem Spells.walks {tokens : List Template.Token} {ps : List Phrase} {n : Nat}
    (h : x.Spells refs tokens ps n) (options : MatchOptions) (mayNegate : Bool) (position : Nat) :
    ∃ placements, Walks x options refs tokens mayNegate ⟨position, ps⟩ placements none ∧
      (∀ p ∈ placements, p.IsSettled) ∧ Alignment.placementCost placements = n := by
  induction h generalizing position with
  | nil => exact ⟨[], .nil, List.forall_mem_nil _, rfl⟩
  | word _ ih =>
    obtain ⟨placements, hwalks, hsettled, hcost⟩ := ih (position + 1)
    exact ⟨placements, .word hwalks, hsettled, hcost⟩
  | @place ordinal tokens ps n ref s front back href hleading htrailing hplayer _ ih =>
    obtain ⟨placements, hwalks, hsettled, hcost⟩ := ih (position + front.length + 1 + back.length)
    have hsame : x.walkPlayer options s (x.vocabulary.playerOf ref.role) = .ok none := by
      rw [walkPlayer, hplayer]
      exact if_pos rfl
    have hlead := walkLeading_append s.mention front
      (Adjective.words (x.mention s.mention).leading) position
    have htrail := walkTrailing_append s.mention (Adjective.words (x.mention s.mention).trailing)
      back ps
    rw [← hleading] at hlead
    rw [← htrailing] at htrail
    have hrole : x.walkRole options ref ordinal position front s (back.map Phrase.word ++ ps) = _ :=
      walkRole_of hsame hlead htrail fun hresidue => absurd hresidue.1 Bool.false_ne_true
    have hdrop : (back.map Phrase.word ++ ps).drop back.length = ps := by
      rw [← List.length_map (f := Phrase.word), List.drop_left]
    rw [hdrop] at hrole
    refine ⟨_, .place href (spanWords_words ..) hrole hwalks,
      List.forall_mem_cons.2 ⟨⟨rfl, rfl, rfl⟩, hsettled⟩, ?_⟩
    rw [Alignment.placementCost, hcost, Placement.cost]
    simp

/-- **A clause that spells a reading matches it**, at the cost of the plain words that belong to
adjectives. -/
theorem align_of_spells {c : Clause} {r : ReadingId} {n : Nat}
    (h : x.Spells (x.vocabulary.readingRefs r) (x.vocabulary.reading r).tokens c.phrases n)
    (hcertainty : (x.vocabulary.reading r).isNegative → c.certainty = .negated)
    (options : MatchOptions) :
    ∃ a, x.align options c r = .ok a ∧ a.cost = n ∧ ∀ p ∈ a.placements, p.IsSettled := by
  obtain ⟨placements, hwalks, hsettled, hcost⟩ :=
    h.walks options (!(x.vocabulary.reading r).isNegative) 0
  refine ⟨⟨(x.vocabulary.reading r).factType, r, (x.vocabulary.reading r).roleSequence, placements,
    none⟩, ?_, ?_, hsettled⟩
  · exact align_eq_ok_iff.2 ⟨hcertainty, hwalks,
      checkSubtypeSteps_of_forall fun p hp => (hsettled p hp).supertype, rfl, rfl, rfl⟩
  · have hresidue : placements.any (·.hasResidue) = false := by
      rw [List.any_eq_false]
      intro p hp
      rw [Placement.hasResidue, (hsettled p hp).leading, (hsettled p hp).trailing]
      exact Bool.false_ne_true
    rw [Alignment.cost, Alignment.hasResidue, hcost]
    dsimp only
    rw [hresidue]
    rfl

/-! ## What is left -/

/-- A mention has taken the role of a placeholder, and its adjectives are used up. -/
def Settles (y : Context) (s : RoleSequenceId) (refs : List RoleRef) (slot : Slot)
    (ordinal : Nat) : Prop :=
  ∃ ref, refs[ordinal]? = some ref ∧ (y.mention slot.mention).standing =
    { role := some ref.role, roleRef := some (s, ordinal) }

/-- Two phrases of clauses in two contexts are alike: they are the same word, or mentions with the
same role, place and adjectives. -/
inductive Alike (x y : Context) : Phrase → Phrase → Prop
  | word (text : String) : Alike x y (.word text) (.word text)
  | slot {s t : Slot} (h : (x.mention s.mention).standing = (y.mention t.mention).standing) :
    Alike x y (.slot s) (.slot t)

/-- A template reads alike with any mentions that have taken the roles of its placeholders. -/
lemma alike_phrases {x y : Context} {s : RoleSequenceId} {tokens : List Template.Token}
    {slots slots' : List Slot}
    (h : List.Forall₂ (x.Settles s refs) slots (Template.places tokens))
    (h' : List.Forall₂ (y.Settles s refs) slots' (Template.places tokens)) :
    List.Forall₂ (x.Alike y) (Template.phrases tokens slots) (Template.phrases tokens slots') := by
  induction tokens generalizing slots slots' with
  | nil => exact .nil
  | cons token tokens ih =>
    cases token with
    | word text => exact .cons (.word text) (ih h h')
    | place ordinal =>
      obtain ⟨slot, slots, ⟨ref, href, hslot⟩, hslots, rfl⟩ := List.forall₂_cons_right_iff.1 h
      obtain ⟨slot', slots', ⟨ref', href', hslot'⟩, hslots', rfl⟩ :=
        List.forall₂_cons_right_iff.1 h'
      obtain rfl : ref = ref' := Option.some.inj (href.symm.trans href')
      exact .cons (.slot (hslot.trans hslot'.symm)) (ih hslots hslots')

/-- Applying a match in which nothing is left over uses up the adjectives of all mentions. -/
lemma settles_of_align {c : Clause} {r : ReadingId} {a : Alignment}
    (h : x.align options c r = .ok a) (hsettled : ∀ p ∈ a.placements, p.IsSettled)
    (hnodup : c.mentions.Nodup) :
    ∃ y, (Compile.applyAlignment c a).perform x = (.ok (c.aligned a), y) ∧
      List.Forall₂ (y.Settles (x.vocabulary.reading r).roleSequence (x.vocabulary.readingRefs r))
        c.slots (Template.places (x.vocabulary.reading r).tokens) := by
  obtain ⟨y, hy⟩ := Compile.applyAlignment_eq_ok h
  obtain ⟨-, hwalks, -, -, -, hsequence⟩ := align_eq_ok_iff.1 h
  have hmentions : a.placements.map (·.mention) = c.mentions := hwalks.mentions_eq
  have hreverse : (a.placements.reverse.map (·.mention)).Nodup := by
    rw [List.map_reverse, List.nodup_reverse, hmentions]
    exact hnodup
  have hsize : ∀ p ∈ a.placements.reverse, p.mention.index < x.mentions.size := by
    intro p hp
    obtain ⟨s, -, htakes⟩ := hwalks.takes_of_mem (List.mem_reverse.1 hp)
    have hplayer := player_of_walkPlayer
      ((hsettled p (List.mem_reverse.1 hp)).supertype ▸ htakes.player)
    exact htakes.mention_eq ▸ lt_of_player hplayer
  have hstanding : (Compile.applyAlignment c a).Ends x (fun _ y => ∀ p ∈ a.placements,
      (y.mention p.mention).standing = p.standing a.roleSequence) fun _ => True := by
    refine ends_bind.2 ((Compile.ends_applyPlacements_mention Mention.standing (fun _ _ => rfl)
      a.roleSequence (Placement.standing a.roleSequence) (fun _ _ => rfl) hreverse hsize).imp
        (fun _ z hz => ?_) fun _ => id)
    exact fun p hp => hz p (List.mem_reverse.2 hp)
  refine ⟨y, hy, ?_⟩
  rw [← hwalks.roleRefs_eq, List.forall₂_map_right_iff, ← hsequence]
  obtain ⟨hlength, htakes⟩ := List.forall₂_iff_zip.1 hwalks.takes
  refine List.forall₂_iff_zip.2 ⟨hlength, fun {slot p} hmem => ?_⟩
  have hp := (List.of_mem_zip hmem).2
  obtain ⟨hmention, ⟨ref, href, hrole⟩, -⟩ := htakes hmem
  refine ⟨ref, href, ?_⟩
  rw [← hmention, hstanding.of_perform hy p hp, Placement.standing, (hsettled p hp).leading,
    (hsettled p hp).trailing, hrole]

/-- **Adjectives may be spelled as plain words.** However a clause spells the template of a reading,
it matches the reading (if it is negated, should the reading be negative), and the cost is the
number of plain words that belong to adjectives. The match can be applied. Another clause that
spells the reading in another way, for instance with all adjectives on its mentions, then reads
alike: word for word the same, with mentions of the same roles, places and adjectives.

**Proof sketch.** Nothing is left over where a clause spells a reading. So what is left of the
clause is the template with the mentions for the placeholders, each of which has its role and no
adjectives. -/
theorem align_spelling {x x' : Context} {c c' : Clause} {r : ReadingId} {n n' : Nat}
    (hvocabulary : x'.vocabulary = x.vocabulary)
    (h : x.Spells (x.vocabulary.readingRefs r) (x.vocabulary.reading r).tokens c.phrases n)
    (h' : x'.Spells (x.vocabulary.readingRefs r) (x.vocabulary.reading r).tokens c'.phrases n')
    (hcertainty : (x.vocabulary.reading r).isNegative → c.certainty = .negated)
    (hcertainty' : (x.vocabulary.reading r).isNegative → c'.certainty = .negated)
    (hnodup : c.mentions.Nodup) (hnodup' : c'.mentions.Nodup) (options options' : MatchOptions) :
    ∃ a a', (x.align options c r = .ok a ∧ a.cost = n) ∧
      (x'.align options' c' r = .ok a' ∧ a'.cost = n') ∧
      ∃ y y', (Compile.applyAlignment c a).perform x = (.ok (c.aligned a), y) ∧
        (Compile.applyAlignment c' a').perform x' = (.ok (c'.aligned a'), y') ∧
        List.Forall₂ (y.Alike y') (c.aligned a).phrases (c'.aligned a').phrases := by
  obtain ⟨a, ha, hcost, hsettled⟩ := align_of_spells h hcertainty options
  rw [← hvocabulary] at h' hcertainty'
  obtain ⟨a', ha', hcost', hsettled'⟩ := align_of_spells h' hcertainty' options'
  obtain ⟨y, hy, hslots⟩ := settles_of_align ha hsettled hnodup
  obtain ⟨y', hy', hslots'⟩ := settles_of_align ha' hsettled' hnodup'
  have hphrases := phrases_aligned ha
  have hphrases' := phrases_aligned ha'
  refine ⟨a, a', ⟨ha, hcost⟩, ⟨ha', hcost'⟩, y, y', hy, hy', ?_⟩
  rw [hvocabulary] at hslots' hphrases'
  rw [hphrases, hphrases']
  exact alike_phrases hslots hslots'

/-- The adjectives of a mention are written around it, or on it. -/
theorem align_spelling_big_tall : ∃ (x x' : Context) (c c' : Clause),
    (x.vocabulary = ((Session.start {}).compileAll
        ["entity type A; entity type B; big- A -tall sees B;"]).vocabulary ∧
      x'.vocabulary = x.vocabulary ∧
      c.phrases = [.word "big", .slot ⟨⟨0⟩, []⟩, .word "tall", .word "sees", .slot ⟨⟨1⟩, []⟩] ∧
      c'.phrases = [.slot ⟨⟨0⟩, []⟩, .word "sees", .slot ⟨⟨1⟩, []⟩]) ∧
    (x.Spells (x.vocabulary.readingRefs ⟨0⟩) (x.vocabulary.reading ⟨0⟩).tokens c.phrases 2 ∧
      x'.Spells (x.vocabulary.readingRefs ⟨0⟩) (x.vocabulary.reading ⟨0⟩).tokens c'.phrases 0 ∧
      c.mentions.Nodup ∧ c'.mentions.Nodup) ∧
    ∃ a a', (x.align {} c ⟨0⟩ = .ok a ∧ a.cost = 2) ∧ (x'.align {} c' ⟨0⟩ = .ok a' ∧ a'.cost = 0) ∧
      ∃ y y', (Compile.applyAlignment c a).perform x = (.ok (c.aligned a), y) ∧
        (Compile.applyAlignment c' a').perform x' = (.ok (c'.aligned a'), y') ∧
        List.Forall₂ (y.Alike y') (c.aligned a).phrases (c'.aligned a').phrases := by
  let big : RoleRef := { role := ⟨0⟩, leading := some "big", trailing := some "tall" }
  have hcomputed :
      let v := ((Session.start {}).compileAll
        ["entity type A; entity type B; big- A -tall sees B;"]).vocabulary
      v.readingRefs ⟨0⟩ = [big, { role := ⟨1⟩ }] ∧
        (v.reading ⟨0⟩).tokens = [.place 0, .word "sees", .place 1] ∧
        (v.reading ⟨0⟩).isNegative = false ∧ v.playerOf ⟨0⟩ = ⟨0⟩ ∧ v.playerOf ⟨1⟩ = ⟨1⟩ := by
    rw [Session.compileAll_cons, Session.compile_ofList, Session.compileAll_nil]
    decide +kernel
  generalize ((Session.start {}).compileAll
    ["entity type A; entity type B; big- A -tall sees B;"]).vocabulary = v at hcomputed ⊢
  obtain ⟨hrefs, htokens, hpositive, hplayer, hplayer'⟩ := hcomputed
  let x : Context := { vocabulary := v, mentions :=
    #[{ term := "A", player := some ⟨0⟩ }, { term := "B", player := some ⟨1⟩ }] }
  let x' : Context := { vocabulary := v, mentions :=
    #[{ term := "A", leading := some "big", trailing := some "tall", player := some ⟨0⟩ },
      { term := "B", player := some ⟨1⟩ }] }
  let c : Clause := { phrases := [.word "big", .slot ⟨⟨0⟩, []⟩, .word "tall", .word "sees",
    .slot ⟨⟨1⟩, []⟩] }
  let c' : Clause := { phrases := [.slot ⟨⟨0⟩, []⟩, .word "sees", .slot ⟨⟨1⟩, []⟩] }
  have hplays : some ⟨0⟩ = some (v.playerOf big.role) ∧
      some ⟨1⟩ = some (v.playerOf (RoleRef.mk ⟨1⟩ none none).role) :=
    ⟨congrArg some hplayer.symm, congrArg some hplayer'.symm⟩
  have hwords : Adjective.words (some "big") = ["big"] ∧
    Adjective.words (some "tall") = ["tall"] := by
    decide +kernel
  have hspells : x.Spells (v.readingRefs ⟨0⟩) (v.reading ⟨0⟩).tokens c.phrases 2 := by
    rw [hrefs, htokens]
    have hsecond := @Spells.place x [big, { role := ⟨1⟩ }] 1 [] [] 0 { role := ⟨1⟩ } ⟨⟨1⟩, []⟩ [] []
      rfl rfl rfl hplays.2 .nil
    exact @Spells.place x [big, { role := ⟨1⟩ }] 0 _ _ 0 big ⟨⟨0⟩, []⟩ ["big"] ["tall"] rfl
      hwords.1 hwords.2 hplays.1 hsecond.word
  have hspells' : x'.Spells (v.readingRefs ⟨0⟩) (v.reading ⟨0⟩).tokens c'.phrases 0 := by
    rw [hrefs, htokens]
    have hsecond := @Spells.place x' [big, { role := ⟨1⟩ }] 1 [] [] 0 { role := ⟨1⟩ } ⟨⟨1⟩, []⟩
      [] []
      rfl rfl rfl hplays.2 .nil
    exact @Spells.place x' [big, { role := ⟨1⟩ }] 0 _ _ 0 big ⟨⟨0⟩, []⟩ [] [] rfl
      rfl (List.append_nil _).symm hplays.1 hsecond.word
  have hnodup : c.mentions.Nodup ∧ c'.mentions.Nodup := by decide
  have hcertainty : ∀ d : Clause, (v.reading ⟨0⟩).isNegative → d.certainty = .negated := by
    rw [hpositive]
    exact fun _ h => nomatch h
  exact ⟨x, x', c, c', ⟨rfl, rfl, rfl, rfl⟩, ⟨hspells, hspells', hnodup⟩, @align_spelling x x' c c'
    ⟨0⟩ 2 0 rfl hspells hspells' (hcertainty c) (hcertainty c') hnodup.1 hnodup.2 {} {}⟩

end Context

end FactModel
