import Mathlib.Data.List.Infix
import FactModel.Proofs.Context.Lookup
import FactModel.Proofs.Matching.Operations
import FactModel.Proofs.Matching.Ranking
import FactModel.Proofs.Session
set_option autoImplicit false

/-!
# What a match takes and what it leaves

An alignment takes words out of its clause and adjectives off its mentions. Nothing is lost in this
and nothing invented. Without the words taken, the clause is the template of the reading, with its
slots for the placeholders; and the words taken, together with the adjectives that a mention had,
are the adjectives that its role bears in the reading, together with those left over.

## Main definitions

* `FactModel.Template.phrases` — what a template reads as with slots for its placeholders.
* `FactModel.wordsAt` — the words that stand at certain positions.
* `FactModel.Context.Balances` — the adjectives of a placement are neither lost nor invented.

## Main results

* `FactModel.Context.Walks.dropFrom_taken` — what a walk leaves is the template.
* `FactModel.Context.Walks.balances` — every placement balances.
* `FactModel.Compile.applyAlignment_eq_ok` — an alignment can always be applied.
* `FactModel.Context.align_conserves` — all of it together.
-/

namespace FactModel

open Attempt

/-! ## Templates as phrases -/

/-- What a template reads as if slots stand for its placeholders, one after the other. -/
def Template.phrases : List Template.Token → List Slot → List Phrase
  | [], _ => []
  | .word text :: tokens, slots => .word text :: phrases tokens slots
  | .place _ :: tokens, s :: slots => .slot s :: phrases tokens slots
  | .place _ :: _, [] => []

/-! ## Words of adjectives -/

/-- The words of a text are words. -/
lemma Text.isSolid_of_mem_words {s w : String} (h : w ∈ Text.words s) : Text.IsSolid w := by
  obtain ⟨piece, hpiece, rfl⟩ := List.mem_map.1 h
  obtain ⟨hmem, hne⟩ := List.mem_filter.1 hpiece
  refine ⟨?_, fun c hc => ?_⟩
  · rintro hnil
    have hempty : piece = [] := by simpa using congrArg String.toList hnil
    simp [hempty] at hne
  · rw [String.toList_ofList] at hc
    exact Text.not_isSeparator_of_mem_pieces hmem c hc

/-- The words of an adjective have no blanks. -/
lemma Adjective.isSolid_of_mem_words {adjective : Option String} {w : String}
    (h : w ∈ Adjective.words adjective) : Text.IsSolid w := by
  cases adjective with
  | none => cases h
  | some adjective => exact Text.isSolid_of_mem_words h

/-- An adjective that is made of words has them. -/
lemma Adjective.words_ofWords {ws : List String} (h : ∀ w ∈ ws, Text.IsSolid w) :
    Adjective.words (Adjective.ofWords ws) = ws := by
  unfold Adjective.ofWords
  split
  · next hempty =>
    rw [List.isEmpty_iff.1 hempty]
    rfl
  · exact Text.words_unwords h

/-! ## Phrases at positions -/

/-- The words that stand at certain positions of phrases. -/
def wordsAt (phrases : List Phrase) (positions : List Nat) : List String :=
  positions.filterMap fun i => phrases[i]?.bind Phrase.word?

/-- The words in a row behind some phrases. -/
lemma wordsAt_range' (before after : List Phrase) (ws : List String) :
    wordsAt (before ++ (ws.map Phrase.word ++ after))
      (List.range' before.length ws.length) = ws := by
  induction ws generalizing before with
  | nil => rfl
  | cons w ws ih =>
    have hrest := ih (before ++ [.word w])
    rw [List.append_assoc, List.length_append] at hrest
    rw [List.length_cons, List.range'_succ, wordsAt, List.filterMap_cons,
      List.getElem?_append_right (Nat.le_refl _), Nat.sub_self]
    exact congrArg (w :: ·) hrest

/-! ## Adjectives of one placeholder -/

/-- The words taken for a leading adjective as they count for it: between their hyphens, unless the
adjective begins with them as they are. -/
def absorbedWords (wanted taken : List String) : List String :=
  if taken.isPrefixOf wanted then taken else splitHyphens taken

/-- A leading adjective is made of the words taken and those of the mention, less those left
over. -/
lemma walkLeading_balances {m : MentionId} {wanted explicit : List String} {position : Nat}
    {intervening : List String} {residual : Option String} {absorbed : List Nat}
    (hexplicit : ∀ w ∈ explicit, Text.IsSolid w)
    (h : walkLeading m wanted explicit position intervening = .ok (residual, absorbed)) :
    absorbedWords wanted intervening ++ explicit = Adjective.words residual ++ wanted := by
  unfold walkLeading at h
  split at h
  · next hempty =>
    obtain rfl := List.isEmpty_iff.1 hempty
    split at h
    · next hsuffix =>
      cases h
      obtain ⟨ws, rfl⟩ := List.isSuffixOf_iff_suffix.1 hsuffix
      have htake : (ws ++ wanted).take ((ws ++ wanted).length - wanted.length) = ws := by
        rw [List.length_append, Nat.add_sub_cancel, List.take_left]
      rw [htake, Adjective.words_ofWords fun w hw => hexplicit w (List.mem_append_left _ hw)]
      rfl
    · cases h
  · dsimp only at h
    change (if (absorbedWords wanted intervening).isPrefixOf wanted ∧
      explicit = wanted.drop (absorbedWords wanted intervening).length then _ else _) = _ at h
    split at h
    · next hwanted =>
      cases h
      rw [hwanted.2]
      exact (List.prefix_append_drop (List.isPrefixOf_iff_prefix.1 hwanted.1)).symm
    · cases h

/-- A trailing adjective is made of the words of the mention and those taken, less those left
over. -/
lemma walkTrailing_balances {m : MentionId} {wanted explicit : List String} {rest : List Phrase}
    {residual : Option String} {taken : Nat} (hexplicit : ∀ w ∈ explicit, Text.IsSolid w)
    (h : walkTrailing m wanted explicit rest = .ok (residual, taken)) :
    ∃ ws : List String, rest.take taken = ws.map Phrase.word ∧ ws.length = taken ∧
      explicit ++ ws = wanted ++ Adjective.words residual := by
  unfold walkTrailing at h
  split at h
  · split at h
    · next hprefix =>
      cases h
      obtain ⟨ws, rfl⟩ := List.isPrefixOf_iff_prefix.1 hprefix
      refine ⟨[], rfl, rfl, ?_⟩
      rw [List.drop_left, List.append_nil,
        Adjective.words_ofWords fun w hw => hexplicit w (List.mem_append_right _ hw)]
    · cases h
  · dsimp only at h
    split at h
    · next hprefix =>
      cases h
      obtain ⟨ws, rfl⟩ := List.isPrefixOf_iff_prefix.1 hprefix.1
      have hfollowing := take_eq_words (List.isPrefixOf_iff_prefix.1 hprefix.2)
      rw [List.drop_left] at hfollowing ⊢
      exact ⟨ws, hfollowing, rfl, (List.append_nil _).symm⟩
    · cases h

namespace Context

variable {x : Context} {options : MatchOptions} {refs : List RoleRef}

/-- The adjectives of a placement are neither lost nor invented: what its mention has and the words
taken for it are what its role bears in the reading and what is left over. -/
structure Balances (x : Context) (phrases : List Phrase) (ref : RoleRef)
    (p : Placement) : Prop where
  leading :
    absorbedWords (Adjective.words ref.leading) (wordsAt phrases p.absorbedPrecursors) ++
        Adjective.words (x.mention p.mention).leading =
      Adjective.words p.residualLeading ++ Adjective.words ref.leading
  trailing :
    Adjective.words (x.mention p.mention).trailing ++ wordsAt phrases p.absorbedFollowers =
      Adjective.words ref.trailing ++ Adjective.words p.residualTrailing

/-- What a placeholder is laid on: words in front of a slot, the slot, and words behind it. Those
words are the ones taken, the placement balances, and the walk goes on behind them. -/
lemma walkRole_splits {ref : RoleRef} {ordinal : Nat} {place next : ClausePlace}
    {intervening : List String} {s : Slot} {rest : List Phrase} {p : Placement}
    (hspan : spanWords place.rest = (intervening, .slot s :: rest))
    (h : x.walkRole options ref ordinal place.position intervening s rest = .ok (p, next)) :
    ∃ followers : List String,
      place.rest = intervening.map Phrase.word ++
        .slot s :: (followers.map Phrase.word ++ next.rest) ∧
      next.position = place.position + intervening.length + 1 + followers.length ∧
      p.mention = s.mention ∧ p.roleRef = ordinal ∧
      p.absorbedPrecursors = List.range' place.position intervening.length ∧
      p.absorbedFollowers =
        List.range' (place.position + intervening.length + 1) followers.length ∧
      absorbedWords (Adjective.words ref.leading) intervening ++
          Adjective.words (x.mention p.mention).leading =
        Adjective.words p.residualLeading ++ Adjective.words ref.leading ∧
      Adjective.words (x.mention p.mention).trailing ++ followers =
        Adjective.words ref.trailing ++ Adjective.words p.residualTrailing := by
  obtain ⟨_, _, _, taken, -, hleading, htrailing, rfl, -, rfl⟩ := walkRole_eq_ok h
  obtain ⟨followers, hfollowers, rfl, hbalance⟩ :=
    walkTrailing_balances (fun _ => Adjective.isSolid_of_mem_words) htrailing
  refine ⟨followers, ?_, rfl, rfl, rfl, rfl, rfl,
    walkLeading_balances (fun _ => Adjective.isSolid_of_mem_words) hleading, hbalance⟩
  rw [← spanWords_append place.rest, hspan, ← hfollowers, List.take_append_drop]

namespace Walks

variable {tokens : List Template.Token} {mayNegate : Bool} {place : ClausePlace}
  {placements : List Placement} {negation : Option Nat}

/-- There are as many slots as placeholders. -/
lemma length_slots (h : Walks x options refs tokens mayNegate place placements negation) :
    (place.rest.flatMap Phrase.slots).length = (Template.places tokens).length := by
  rw [h.takes.length_eq, ← h.roleRefs_eq, List.length_map]

/-- What a walk leaves is the template, with the slots in order for its placeholders.

**Proof sketch.** By induction on the walk. Of the phrases that one token is laid on, those that the
walk does not take are the token itself, or the slot that stands for it. Further tokens only take
positions behind them, so it does not matter whether the positions of this token are given as
well. -/
theorem dropFrom_taken (h : Walks x options refs tokens mayNegate place placements negation) :
    dropFrom place.position (placements.flatMap (·.absorbed) ++ negation.toList) place.rest =
      Template.phrases tokens (place.rest.flatMap Phrase.slots) := by
  induction h with
  | nil => rfl
  | @word text _ _ position rest _ _ hwalks ih =>
    rw [dropFrom_cons_of_not_mem fun hmem => ?_, List.flatMap_cons]
    · exact congrArg (Phrase.word text :: ·) ih
    · have hlater : position + 1 ≤ position := hwalks.position_le hmem
      omega
  | @negated text tokens position rest placements _ hwalks ih =>
    dsimp only
    rw [Option.toList_some,
      dropFrom_cons_of_mem (List.mem_append_right _ (List.mem_singleton_self _)),
      dropFrom_cons_of_not_mem fun hmem => ?_, List.flatMap_cons, List.flatMap_cons]
    · refine congrArg (Phrase.word text :: ·) ((dropFrom_congr fun i hi => ?_).trans ih)
      have hne : i ≠ position := by omega
      simp [hne]
    · rcases List.mem_append.1 hmem with hmem | hmem
      · have hlater : position + 2 ≤ position + 1 :=
          hwalks.position_le (List.mem_append_left _ hmem)
        omega
      · exact absurd (List.mem_singleton.1 hmem) (by simp)
  | @place _ tokens _ place next placements negation _ intervening s rest p href hspan hrole hwalks
      ih =>
    obtain ⟨followers, hrest, hnext, -, -, hprecursors, hfollowers, -, -⟩ :=
      walkRole_splits hspan hrole
    have hmem : ∀ i, i ∈ p.absorbed ↔
        (place.position ≤ i ∧ i < place.position + intervening.length) ∨
          (place.position + intervening.length + 1 ≤ i ∧ i < next.position) := by
      intro i
      rw [Placement.absorbed, hprecursors, hfollowers, List.mem_append, List.mem_range'_1,
        List.mem_range'_1, hnext]
    rw [List.flatMap_cons, List.append_assoc, hrest]
    have hprecede : dropFrom place.position
        (p.absorbed ++ (placements.flatMap (·.absorbed) ++ negation.toList))
          (intervening.map Phrase.word) = [] := by
      apply dropFrom_eq_nil
      intro i hlow hhigh
      rw [List.length_map] at hhigh
      exact List.mem_append_left _ ((hmem i).2 (.inl ⟨hlow, hhigh⟩))
    have hslot : place.position + intervening.length ∉
        p.absorbed ++ (placements.flatMap (·.absorbed) ++ negation.toList) := by
      intro hin
      rcases List.mem_append.1 hin with hin | hin
      · rw [hmem] at hin
        omega
      · have hlater := hwalks.position_le hin
        omega
    have hfollow : dropFrom (place.position + intervening.length + 1)
        (p.absorbed ++ (placements.flatMap (·.absorbed) ++ negation.toList))
          (followers.map Phrase.word) = [] := by
      apply dropFrom_eq_nil
      intro i hlow hhigh
      rw [List.length_map] at hhigh
      exact List.mem_append_left _ ((hmem i).2 (.inr ⟨hlow, by omega⟩))
    have hlater : dropFrom next.position
        (p.absorbed ++ (placements.flatMap (·.absorbed) ++ negation.toList)) next.rest =
          Template.phrases tokens (next.rest.flatMap Phrase.slots) := by
      rw [← ih]
      apply dropFrom_congr
      intro i hi
      rw [List.mem_append, hmem, or_iff_right]
      omega
    rw [dropFrom_append, hprecede, List.nil_append, List.length_map, dropFrom_cons_of_not_mem hslot,
      dropFrom_append, hfollow, List.nil_append, List.length_map, ← hnext, hlater,
      List.flatMap_append, flatMap_slots_words, List.flatMap_cons, List.flatMap_append,
      flatMap_slots_words]
    rfl

/-- Every placement balances. -/
theorem balances (h : Walks x options refs tokens mayNegate place placements negation)
    (before : List Phrase) (hbefore : before.length = place.position) {p : Placement}
    (hp : p ∈ placements) :
    ∃ ref, refs[p.roleRef]? = some ref ∧ x.Balances (before ++ place.rest) ref p := by
  induction h generalizing before with
  | nil => cases hp
  | @word text _ _ _ _ _ _ _ ih =>
    have hrest := ih (before ++ [.word text]) (by simp [hbefore]) hp
    rwa [List.append_assoc] at hrest
  | @negated text _ _ _ _ _ _ ih =>
    have hrest := ih (before ++ [.word "not", .word text]) (by simp [hbefore]) hp
    rwa [List.append_assoc] at hrest
  | @place ordinal _ _ place next placements _ ref intervening s rest q href hspan hrole _ ih =>
    obtain ⟨followers, hrest, hnext, -, hordinal, hprecursors, hfollowers, hleading, htrailing⟩ :=
      walkRole_splits hspan hrole
    rcases List.mem_cons.1 hp with rfl | hp
    · have hbehind := wordsAt_range' (before ++ intervening.map Phrase.word ++ [Phrase.slot s])
        next.rest followers
      have hlength : (before ++ intervening.map Phrase.word ++ [Phrase.slot s]).length =
          place.position + intervening.length + 1 := by
        simp [hbefore, Nat.add_assoc]
      rw [hlength, ← hfollowers, List.append_assoc, List.append_assoc, List.singleton_append,
        ← hrest] at hbehind
      have hfront := wordsAt_range' before
        (.slot s :: (followers.map Phrase.word ++ next.rest)) intervening
      rw [hbefore, ← hprecursors, ← hrest] at hfront
      refine ⟨ref, hordinal ▸ href, ?_, ?_⟩
      · rw [hfront]
        exact hleading
      · rw [hbehind]
        exact htrailing
    · have hlater := ih (before ++ intervening.map Phrase.word ++
        Phrase.slot s :: followers.map Phrase.word) (by simp; omega) hp
      rw [List.append_assoc, List.append_assoc, List.cons_append, ← hrest] at hlater
      exact hlater

end Walks

end Context

/-! ## Applying an alignment -/

namespace Compile

open Context

variable {x : Context}

/-- Binding a mention changes no player. -/
lemma player_bindAs {m : MentionId} (hm : m.index < x.mentions.size) (player : ObjectTypeId)
    (n : MentionId) : ((x.bindAs m player).2.mention n).player = (x.mention n).player := by
  unfold Context.bindAs
  split
  · rw [mention_enlist hm]
    split
    · next h => rw [h]
    · rfl
  · have hpushed := mention_enlist
      (x := x.pushBinding (x.bindingKey m) player (x.mention m).literal) hm ⟨x.bindings.size⟩ n
    refine (congrArg Mention.player hpushed).trans ?_
    split
    · next h =>
      rw [h]
      rfl
    · rfl

/-- Binding a mention anew does not fail if its player is known, and changes no player. -/
lemma ends_rebind_player {m : MentionId} (hm : (x.mention m).player.isSome) :
    (rebind m).Ends x (fun _ y => ∀ n, (y.mention n).player = (x.mention n).player)
      fun _ => False := by
  have hunbind : ∀ n, ((x.unbind m).mention n).player = (x.mention n).player := by
    intro n
    rw [Context.unbind]
    split
    · rfl
    · rw [mention_strike]
      refine mention_modifyMention_apply _ m ?_ n
      intro mention
      rfl
  obtain ⟨player, hplayer⟩ := Option.isSome_iff_exists.1 ((hunbind m).symm ▸ hm)
  refine ends_bind.2 (ends_modify.2 (ends_bind.2 ?_))
  refine ends_bind.2 (ends_get.2 (ends_ofExcept.2 ?_))
  rw [Context.playerOf, hplayer]
  exact fun n => (player_bindAs (lt_of_player hplayer) player n).trans (hunbind n)

/-- A placement can be applied if the player of its mention is known, and changes no player. -/
lemma ends_applyPlacement_player {p : Placement} (s : RoleSequenceId)
    (hp : (x.mention p.mention).player.isSome) :
    (applyPlacement s p).Ends x (fun _ y => ∀ n, (y.mention n).player = (x.mention n).player)
      fun _ => False := by
  refine ends_bind.2 (ends_get.2 (ends_bind.2 (ends_modify.2 (ends_bind.2 (ends_get.2 ?_)))))
  dsimp only
  have hkeeps : ∀ change : Mention → Mention, (∀ m, (change m).player = m.player) →
      ∀ n, ((x.modifyMention p.mention change).mention n).player = (x.mention n).player :=
    fun change hchange => mention_modifyMention_apply _ _ hchange
  split
  · refine ends_bind.2 ((ends_rebind_player ?_).imp (fun _ y hy => ?_) fun _ => id)
    · rw [hkeeps]
      · exact hp
      · intro m
        rfl
    · refine ends_pure _ |>.2 fun n => (hy n).trans (hkeeps _ ?_ n)
      intro m
      rfl
  · refine ends_pure _ |>.2 (hkeeps _ ?_)
    intro m
    rfl

/-- Placements can be applied one after the other if the players of their mentions are known. -/
lemma ends_applyPlacements_player {ps : List Placement} (s : RoleSequenceId)
    (hps : ∀ p ∈ ps, (x.mention p.mention).player.isSome) :
    (ps.forM (applyPlacement s)).Ends x (fun _ _ => True) fun _ => False := by
  induction ps generalizing x with
  | nil => exact trivial
  | cons p ps ih =>
    refine ends_bind.2
      ((ends_applyPlacement_player s (hps p List.mem_cons_self)).imp ?_ fun _ => id)
    intro _ y hy
    exact ih fun q hq => (hy q.mention).symm ▸ hps q (List.mem_cons_of_mem p hq)

/-- An alignment can be applied to its clause. -/
theorem applyAlignment_eq_ok {options : MatchOptions} {c : Clause} {r : ReadingId} {a : Alignment}
    (h : x.align options c r = .ok a) :
    ∃ y, (applyAlignment c a).perform x = (.ok (c.aligned a), y) := by
  obtain ⟨-, hwalks, -⟩ := align_eq_ok_iff.1 h
  have hplayers : ∀ p ∈ a.placements.reverse, (x.mention p.mention).player.isSome := by
    intro p hp
    obtain ⟨s, -, htakes⟩ := hwalks.takes_of_mem (List.mem_reverse.1 hp)
    have hplayer := htakes.player
    rw [walkPlayer, ← htakes.mention_eq] at hplayer
    split at hplayer
    · cases hplayer
    · next hsome =>
      rw [hsome]
      rfl
  have happlied := ends_applyPlacements_player a.roleSequence hplayers
  rw [applyAlignment]
  unfold Ends at happlied
  split at happlied
  · next y hy => exact ⟨y, perform_bind_eq_ok.2 ⟨_, y, hy, rfl⟩⟩
  · exact happlied.elim

end Compile

/-! ## Alignments -/

namespace Context

/-- What is left of a clause when its alignment has been applied is the template of the reading,
each slot at its placeholder. -/
lemma phrases_aligned {x : Context} {options : MatchOptions} {c : Clause} {r : ReadingId}
    {a : Alignment}
    (h : x.align options c r = .ok a) :
    (c.aligned a).phrases = Template.phrases (x.vocabulary.reading r).tokens c.slots :=
  (Clause.phrases_aligned_eq_dropFrom h).trans (align_eq_ok_iff.1 h).2.1.dropFrom_taken

/-- **A match loses and invents nothing.** The mentions of an alignment are those of the clause. Its
positions hold words, and none is taken twice. It can be applied; the clause is then the template of
the reading, each slot at its placeholder. And the adjectives of every placement balance. -/
theorem align_conserves {x : Context} {options : MatchOptions} {c : Clause} {r : ReadingId}
    {a : Alignment} (h : x.align options c r = .ok a) :
    a.placements.map (·.mention) = c.mentions ∧
    (a.takenPositions.Nodup ∧
      ∀ i ∈ a.takenPositions, ∃ text, c.phrases[i]? = some (.word text)) ∧
    ((∃ y, (Compile.applyAlignment c a).perform x = (.ok (c.aligned a), y)) ∧
      c.slots.length = (Template.places (x.vocabulary.reading r).tokens).length ∧
      (c.aligned a).phrases = Template.phrases (x.vocabulary.reading r).tokens c.slots) ∧
    ∀ p ∈ a.placements, ∃ ref, (x.vocabulary.readingRefs r)[p.roleRef]? = some ref ∧
      x.Balances c.phrases ref p := by
  obtain ⟨-, hwalks, -⟩ := align_eq_ok_iff.1 h
  refine ⟨hwalks.mentions_eq, ⟨hwalks.nodup_taken, ?_⟩,
    ⟨Compile.applyAlignment_eq_ok h, hwalks.length_slots, phrases_aligned h⟩, ?_⟩
  · intro i hi
    exact hwalks.word_of_mem_taken [] rfl hi
  · intro p hp
    exact hwalks.balances [] rfl hp

/-- Words on both sides of the slots and a `not` are taken out of a clause. -/
theorem align_conserves_not_sees :
    let c : Clause := { phrases := [.word "big", .slot ⟨⟨0⟩, []⟩, .word "not", .word "sees",
      .slot ⟨⟨1⟩, []⟩, .word "tall"] }
    let x := ((Compile.enter [{ phrases := [.word "big", .mention { term := "A" }, .word "not",
      .word "sees", .mention { term := "B" }, .word "tall"] }]).perform
        ((Session.start {}).compileAll
          ["entity type A; entity type B; big- A sees B -tall;"]).context).2
    ∃ a, x.align {} c ⟨0⟩ = .ok a ∧ a.takenPositions = [0, 5, 2] ∧
      (a.placements.map (·.mention) = c.mentions ∧
        (a.takenPositions.Nodup ∧
          ∀ i ∈ a.takenPositions, ∃ text, c.phrases[i]? = some (.word text)) ∧
        ((∃ y, (Compile.applyAlignment c a).perform x = (.ok (c.aligned a), y)) ∧
          c.slots.length = (Template.places (x.vocabulary.reading ⟨0⟩).tokens).length ∧
          (c.aligned a).phrases = Template.phrases (x.vocabulary.reading ⟨0⟩).tokens c.slots) ∧
        ∀ p ∈ a.placements, ∃ ref, (x.vocabulary.readingRefs ⟨0⟩)[p.roleRef]? = some ref ∧
          x.Balances c.phrases ref p) := by
  intro c x
  have htaken : ((x.align {} c ⟨0⟩).toOption.map (·.takenPositions)) = some [0, 5, 2] := by
    unfold x
    rw [Session.compileAll_cons, Session.compile_ofList, Session.compileAll_nil]
    decide +kernel
  obtain ⟨a, ha, htaken⟩ := Option.map_eq_some_iff.1 htaken
  have halign : x.align {} c ⟨0⟩ = .ok a := toOption_align_eq_some.1 ha
  exact ⟨a, halign, htaken, align_conserves halign⟩

end Context

end FactModel
