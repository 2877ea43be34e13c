import FactModel.Proofs.Matching.Selection
import FactModel.Proofs.Vocabulary.Hierarchy
set_option autoImplicit false

/-!
# Clauses with other mentions

The same clause may be entered at different places of a declaration, so that it has other mentions,
which are written alike. What a walk along the clause looks up of a mention are its player and its
adjectives, and how many mentions share its binding only matters where adjectives are left over.

## Main definitions

* `FactModel.Phrase.renamed`, `FactModel.Alignment.renamed` — mentions are exchanged for others.
* `FactModel.Clause.Renames` — two clauses differ in their mentions at most.
* `FactModel.Context.LooksLike` — a walk takes one mention for the other.

## Main results

* `FactModel.Context.LooksAlike.align` — a reading matches the one clause as it matches the other,
  if mentions that keep adjectives share their bindings.
-/

namespace FactModel

/-! ## Exchanging mentions -/

section Renaming

variable (f : MentionId → MentionId)

/-- The slot with another mention. -/
def Slot.renamed (s : Slot) : Slot :=
  { s with mention := f s.mention }

/-- The phrase with other mentions. -/
def Phrase.renamed : Phrase → Phrase
  | .word text => .word text
  | .slot s => .slot (s.renamed f)
  | .comparison operator left right => .comparison operator (left.renamed f) (right.renamed f)

/-- The placement of another mention. -/
def Placement.renamed (p : Placement) : Placement :=
  { p with mention := f p.mention }

/-- The alignment of other mentions. -/
def Alignment.renamed (a : Alignment) : Alignment :=
  { a with placements := a.placements.map (Placement.renamed f) }

/-- The second clause has the phrases of the first one, but for their mentions. -/
structure Clause.Renames (c d : Clause) : Prop where
  phrases_eq : d.phrases = c.phrases.map (Phrase.renamed f)
  certainty_eq : d.certainty = c.certainty

/-- The slots of a phrase with other mentions are its slots with other mentions. -/
@[simp]
lemma Phrase.slots_renamed (p : Phrase) : (p.renamed f).slots = p.slots.map (Slot.renamed f) := by
  cases p <;> rfl

/-- A phrase with other mentions is the same word, if it is one. -/
@[simp]
lemma Phrase.word?_renamed (p : Phrase) : (p.renamed f).word? = p.word? := by
  cases p <;> rfl

/-- A placement of another mention costs the same. -/
@[simp]
lemma Placement.cost_renamed (p : Placement) : (p.renamed f).cost = p.cost :=
  rfl

/-- An alignment of other mentions costs the same. -/
@[simp]
lemma Alignment.cost_renamed (a : Alignment) : (a.renamed f).cost = a.cost := by
  have hplacements : ∀ ps : List Placement,
      placementCost (ps.map (Placement.renamed f)) = placementCost ps := by
    intro ps
    induction ps with
    | nil => rfl
    | cons p ps ih => rw [List.map_cons, placementCost, placementCost, ih, Placement.cost_renamed]
  have hresidue : (a.renamed f).hasResidue = a.hasResidue := by
    simp only [hasResidue, renamed, List.any_map]
    rfl
  rw [cost, cost, hresidue, renamed]
  dsimp only
  rw [hplacements]

/-- Mentions may be exchanged back. -/
lemma Alignment.renamed_renamed {g : MentionId → MentionId} {a : Alignment}
    (h : ∀ p ∈ a.placements, g (f p.mention) = p.mention) : (a.renamed f).renamed g = a := by
  have hplacements : (a.placements.map (Placement.renamed f)).map (Placement.renamed g) =
      a.placements := by
    rw [List.map_map]
    refine (List.map_congr_left fun p hp => ?_).trans (List.map_id _)
    have hback := h p hp
    cases p
    exact congrArg (fun m => Placement.mk m _ _ _ _ _ _ _) hback
  cases a
  exact congrArg (fun ps => Alignment.mk _ _ _ ps _) hplacements

/-- An alignment of the same mentions is the same. -/
lemma Alignment.renamed_id (a : Alignment) : a.renamed id = a := by
  have hplacements : a.placements.map (Placement.renamed id) = a.placements :=
    List.map_id a.placements
  rw [renamed, hplacements]

/-- The slots of phrases with other mentions are their slots with other mentions. -/
lemma flatMap_slots_renamed (ps : List Phrase) :
    (ps.map (Phrase.renamed f)).flatMap Phrase.slots =
      (ps.flatMap Phrase.slots).map (Slot.renamed f) := by
  simp only [List.flatMap_map, Phrase.slots_renamed, List.map_flatMap]

/-- The words in front of phrases stay. -/
lemma spanWords_renamed (ps : List Phrase) :
    spanWords (ps.map (Phrase.renamed f)) =
      ((spanWords ps).1, (spanWords ps).2.map (Phrase.renamed f)) := by
  induction ps with
  | nil => rfl
  | cons p ps ih =>
    cases p with
    | word text =>
      rw [List.map_cons, Phrase.renamed, spanWords, spanWords, ih]
    | slot s => rfl
    | comparison operator left right => rfl

/-- Splicing goes by positions, whatever is there. -/
lemma splice_map (g : Phrase → Phrase) (positions : List Nat) (ps : List Phrase) :
    splice positions (ps.map g) = (splice positions ps).map g := by
  rw [splice, splice]
  induction positions.mergeSort.reverse generalizing ps with
  | nil => rfl
  | cons i positions ih => rw [List.foldl_cons, List.eraseIdx_map, ih, List.foldl_cons]

end Renaming

namespace Clause.Renames

variable {f g : MentionId → MentionId} {c d : Clause} (h : c.Renames f d)

include h

/-- Clauses that differ in their mentions at most have the slots of each other, but for the
mentions. -/
lemma slots_eq : d.slots = c.slots.map (Slot.renamed f) := by
  rw [slots, h.phrases_eq, flatMap_slots_renamed, slots]

/-- Their mentions are in the same places. -/
lemma mentions_eq : d.mentions = c.mentions.map f := by
  rw [mentions, h.slots_eq, mentions, List.map_map, List.map_map]
  rfl

/-- Both are comparisons with one operator, or neither is one. -/
lemma comparison?_eq :
    d.comparison? = c.comparison?.map fun (operator, left, right) =>
      (operator, left.renamed f, right.renamed f) := by
  unfold comparison?
  rw [h.phrases_eq]
  rcases c.phrases with _ | ⟨_ | _ | _, _ | ⟨q, ps⟩⟩ <;> rfl

/-- A clause is put into the words of a reading in the same way. -/
lemma aligned (a : Alignment) : (c.aligned a).Renames f (d.aligned (a.renamed f)) where
  phrases_eq := by
    have hspliced : (a.renamed f).spliced = a.spliced := by
      simp only [Alignment.spliced, Alignment.renamed, ← List.map_reverse, List.flatMap_map]
      rfl
    rw [Clause.aligned, Clause.aligned, hspliced, h.phrases_eq, splice_map]
  certainty_eq := by
    rw [Clause.aligned, Clause.aligned, h.certainty_eq]
    rfl

/-- Mentions may be exchanged back. -/
lemma symm (hg : ∀ m ∈ c.mentions, g (f m) = m) : d.Renames g c where
  phrases_eq := by
    have hslot : ∀ s ∈ c.slots, (s.renamed f).renamed g = s := by
      intro s hs
      have hm := hg s.mention (List.mem_map_of_mem hs)
      cases s
      exact congrArg (Slot.mk · _) hm
    rw [h.phrases_eq, List.map_map]
    refine (List.map_id c.phrases).symm.trans (List.map_congr_left fun p hp => Eq.symm ?_)
    have hslots : ∀ s ∈ p.slots, s ∈ c.slots := fun s hs => List.mem_flatMap.2 ⟨p, hp, hs⟩
    cases p with
    | word text => rfl
    | slot s => exact congrArg Phrase.slot (hslot s (hslots s List.mem_cons_self))
    | comparison operator left right =>
      have hleft := hslot left (hslots left List.mem_cons_self)
      have hright := hslot right (hslots right (List.mem_cons_of_mem _ List.mem_cons_self))
      change Phrase.comparison operator _ _ = Phrase.comparison operator left right
      rw [hleft, hright]
  certainty_eq := h.certainty_eq.symm

end Clause.Renames

/-- What many clauses mention is exchanged in order. -/
lemma flatMap_mentions_eq {f : MentionId → MentionId} {cs ds : List Clause}
    (h : List.Forall₂ (fun c d => d.mentions = c.mentions.map f) cs ds) :
    ds.flatMap Clause.mentions = (cs.flatMap Clause.mentions).map f := by
  induction h with
  | nil => rfl
  | cons hcd _ ih => rw [List.flatMap_cons, List.flatMap_cons, List.map_append, hcd, ih]

/-! ## Walking along other mentions -/

/-- A leading adjective is laid on words in the same way, whatever mention it belongs to. -/
lemma walkLeading_eq_ok {m : MentionId} (n : MentionId) {wanted explicit : List String}
    {position : Nat} {intervening : List String} {r : Option String × List Nat}
    (h : walkLeading m wanted explicit position intervening = .ok r) :
    walkLeading n wanted explicit position intervening = .ok r := by
  unfold walkLeading at h ⊢
  dsimp only at h ⊢
  generalize (if intervening.isPrefixOf wanted then intervening else splitHyphens intervening) =
    absorbed at h ⊢
  split at h
  · next hempty =>
    rw [if_pos hempty]
    split at h
    · next hsuffix => rwa [if_pos hsuffix]
    · cases h
  · next hempty =>
    rw [if_neg hempty]
    split at h
    · next hprefix => rwa [if_pos hprefix]
    · cases h

/-- So is a trailing one, whatever mentions stand behind it. -/
lemma walkTrailing_renamed (f : MentionId → MentionId) {m : MentionId} (n : MentionId)
    {wanted explicit : List String} {rest : List Phrase} {r : Option String × Nat}
    (h : walkTrailing m wanted explicit rest = .ok r) :
    walkTrailing n wanted explicit (rest.map (Phrase.renamed f)) = .ok r := by
  have htake : ∀ k, ((rest.map (Phrase.renamed f)).take k).filterMap Phrase.word? =
      (rest.take k).filterMap Phrase.word? := by
    intro k
    rw [← List.map_take, List.filterMap_map]
    exact List.filterMap_congr fun q _ => Phrase.word?_renamed f q
  unfold walkTrailing at h ⊢
  dsimp only at h ⊢
  split at h
  · next hlength =>
    rw [if_pos hlength]
    split at h
    · next hprefix => rwa [if_pos hprefix]
    · cases h
  · next hlength =>
    rw [if_neg hlength, htake]
    split at h
    · next hprefix => rwa [if_pos hprefix]
    · cases h

namespace Vocabulary

variable {v : Vocabulary} {t u s : ObjectTypeId}

/-- The types above a type exist if it does. -/
lemma Inherits.mem_of_mem_supertypes (h : v.Inherits) (ht : t ∈ v.objectTypeIds)
    (hs : s ∈ v.supertypes t) : s ∈ v.objectTypeIds := by
  rcases Relation.ReflTransGen.cases_tail (h.mem_supertypes_iff.1 hs) with rfl | ⟨_, -, hstep⟩
  · exact ht
  · exact (h.mem hstep).2

/-- A type that shares a supertype with one that exists does so, too. -/
lemma Inherits.mem_of_commonSupertype? (h : v.Inherits) (hu : u ∈ v.objectTypeIds)
    (hs : v.commonSupertype? t u = some s) : t ∈ v.objectTypeIds := by
  obtain ⟨hst, hsu⟩ := mem_supertypes_of_commonSupertype? hs
  have hmem := h.mem_of_mem_supertypes hu hsu
  rcases Relation.ReflTransGen.cases_head (h.mem_supertypes_iff.1 hst) with rfl | ⟨_, hstep, -⟩
  · exact hmem
  · exact (h.mem hstep).1

end Vocabulary

namespace Context

variable {f : MentionId → MentionId} {x z : Context} {options : MatchOptions}

/-- A walk over the vocabulary of the first context takes a mention of the one for a mention of the
other: they have the same adjectives, and the same player if it exists there. -/
structure LooksLike (x z : Context) (m n : MentionId) : Prop where
  player_iff : ∀ t ∈ x.vocabulary.objectTypeIds,
    (z.mention n).player = some t ↔ (x.mention m).player = some t
  leading_eq : (z.mention n).leading = (x.mention m).leading
  trailing_eq : (z.mention n).trailing = (x.mention m).trailing

/-- A player that takes a role exists. -/
lemma player_mem_of_walkPlayer (hx : x.vocabulary.Inherits) {s : Slot} {t : ObjectTypeId}
    (ht : t ∈ x.vocabulary.objectTypeIds) {supertype : Option ObjectTypeId}
    (h : x.walkPlayer options s t = .ok supertype) :
    ∃ u ∈ x.vocabulary.objectTypeIds, (x.mention s.mention).player = some u := by
  unfold walkPlayer at h
  split at h
  · cases h
  next u hu =>
  refine ⟨u, ?_, hu⟩
  split at h
  · next heq => rwa [heq]
  split at h
  · cases h
  split at h
  · next hcommon => exact hx.mem_of_commonSupertype? ht hcommon
  · cases h

/-- The walk finds the same player for a mention that looks like another one. -/
lemma LooksLike.walkPlayer (hvocabulary : z.vocabulary = x.vocabulary) (hx : x.vocabulary.Inherits)
    {s : Slot} (h : x.LooksLike z s.mention (f s.mention)) {t : ObjectTypeId}
    (ht : t ∈ x.vocabulary.objectTypeIds) {supertype : Option ObjectTypeId}
    (hwalk : x.walkPlayer options s t = .ok supertype) :
    z.walkPlayer options (s.renamed f) t = .ok supertype := by
  obtain ⟨u, hu, hplayer⟩ := player_mem_of_walkPlayer hx ht hwalk
  have hplayer' : (z.mention (s.renamed f).mention).player = some u := (h.player_iff u hu).2 hplayer
  unfold Context.walkPlayer at hwalk ⊢
  rw [hplayer] at hwalk
  rw [hplayer', hvocabulary]
  dsimp only at hwalk ⊢
  split at hwalk
  · next heq => rw [if_pos heq, hwalk]
  next hne =>
  rw [if_neg hne]
  split at hwalk
  · cases hwalk
  next hfree =>
  have hfree' : ¬(options.exactTypes || (s.renamed f).isObjectified) = true := hfree
  rw [if_neg hfree']
  split at hwalk
  · exact hwalk
  · cases hwalk

/-- **Walks along other mentions.** The tokens of a reading that are laid along phrases are laid
along the same phrases with other mentions, if a walk takes these for the former ones and those that
keep adjectives share their bindings. -/
theorem Walks.renamed (hvocabulary : z.vocabulary = x.vocabulary) (hx : x.vocabulary.Inherits)
    {refs : List RoleRef}
    (hrefs : ∀ ref ∈ refs, x.vocabulary.playerOf ref.role ∈ x.vocabulary.objectTypeIds)
    {tokens : List Template.Token} {mayNegate : Bool} {place : ClausePlace}
    {placements : List Placement} {negation : Option Nat}
    (h : Walks x options refs tokens mayNegate place placements negation)
    (hlooks : ∀ s ∈ place.rest.flatMap Phrase.slots, x.LooksLike z s.mention (f s.mention))
    (hshare : ∀ p ∈ placements, p.hasResidue → 1 < z.shareCount (f p.mention)) :
    Walks z options refs tokens mayNegate
      ⟨place.position, place.rest.map (Phrase.renamed f)⟩ (placements.map (Placement.renamed f))
      negation := by
  induction h with
  | nil => exact .nil
  | word _ ih => exact .word (ih hlooks hshare)
  | negated hne _ ih => exact .negated hne (ih hlooks hshare)
  | @place ordinal tokens mayNegate place next placements negation ref intervening s rest p href
      hspan
      hrole _ ih =>
    obtain ⟨supertype, residualLeading, residualTrailing, taken, hplayer, hleading, htrailing, rfl,
      -, rfl⟩ := walkRole_eq_ok hrole
    -- the slots of the phrases are that of the mention and those behind the words taken
    have hslots : place.rest.flatMap Phrase.slots = s :: rest.flatMap Phrase.slots := by
      rw [← spanWords_append place.rest, hspan, List.flatMap_append, flatMap_slots_words]
      rfl
    rw [hslots] at hlooks
    have hs := hlooks s List.mem_cons_self
    have hspan' : spanWords (place.rest.map (Phrase.renamed f)) =
        (intervening, .slot (s.renamed f) :: rest.map (Phrase.renamed f)) := by
      rw [spanWords_renamed, hspan]
      rfl
    have hplayer' := hs.walkPlayer hvocabulary hx (hrefs ref (List.mem_of_getElem? href)) hplayer
    rw [← hvocabulary] at hplayer'
    rw [← hs.leading_eq] at hleading
    rw [← hs.trailing_eq] at htrailing
    have hresidue : ¬((residualLeading.isSome || residualTrailing.isSome) = true ∧
        z.shareCount (s.renamed f).mention ≤ 1) := by
      rintro ⟨hresidue, hle⟩
      exact Nat.not_lt.2 hle (hshare _ List.mem_cons_self hresidue)
    refine .place href hspan' (walkRole_of hplayer' (walkLeading_eq_ok _ hleading)
      (walkTrailing_renamed f _ htrailing) hresidue) ?_
    have hdrop : (rest.map (Phrase.renamed f)).drop taken =
      (rest.drop taken).map (Phrase.renamed f) :=
      List.map_drop.symm
    rw [hdrop]
    refine ih (fun s' hs' => hlooks s' (List.mem_cons_of_mem _ ?_)) fun p hp =>
      hshare p (List.mem_cons_of_mem _ hp)
    rw [← List.take_append_drop taken rest, List.flatMap_append]
    exact List.mem_append_right _ hs'

/-! ## Readings -/

/-- Two clauses in two contexts over one vocabulary differ in their mentions at most, and a walk
takes those of the one for those of the other. -/
structure LooksAlike (f g : MentionId → MentionId) (c d : Clause) (x z : Context) : Prop where
  renames : c.Renames f d
  back : ∀ m ∈ c.mentions, g (f m) = m
  vocabulary_eq : z.vocabulary = x.vocabulary
  looksLike : ∀ m ∈ c.mentions, x.LooksLike z m (f m)

/-- All mentions that keep adjectives share their bindings. -/
def KeepsShared (x : Context) (a : Alignment) : Prop :=
  ∀ p ∈ a.placements, p.hasResidue → 1 < x.shareCount p.mention

instance (x : Context) (a : Alignment) : Decidable (x.KeepsShared a) :=
  inferInstanceAs (Decidable (∀ p ∈ a.placements, _))

/-- In any way to walk a clause, mentions that keep adjectives share their bindings. -/
lemma Walks.keepsShared {refs : List RoleRef} {tokens : List Template.Token} {mayNegate : Bool}
    {place : ClausePlace} {placements : List Placement} {negation : Option Nat}
    (h : Walks x options refs tokens mayNegate place placements negation) :
    ∀ p ∈ placements, p.hasResidue → 1 < x.shareCount p.mention := by
  induction h with
  | nil => exact fun _ hp => nomatch hp
  | word _ ih => exact ih
  | negated _ _ ih => exact ih
  | place _ _ hrole _ ih =>
    obtain ⟨_, _, _, _, -, -, -, rfl, hresidue, -⟩ := walkRole_eq_ok hrole
    intro p hp hkeeps
    rcases List.mem_cons.1 hp with rfl | hp
    · exact Nat.lt_of_not_le fun hle => hresidue ⟨hkeeps, hle⟩
    · exact ih p hp hkeeps

section Readings

variable (hv : x.vocabulary.WellFormed) (hi : x.vocabulary.Inherits) {c : Clause} {r : ReadingId}
  (hr : r ∈ x.vocabulary.readingIds) {a : Alignment} (ha : x.align options c r = .ok a)

include ha in
/-- In an alignment, mentions that keep adjectives share their bindings. -/
lemma keepsShared_of_align : x.KeepsShared a :=
  ((align_eq_ok_iff.1 ha).2.1).keepsShared

include ha in
/-- The mentions that an alignment places are those of the clause. -/
lemma mention_mem_of_align {p : Placement} (hp : p ∈ a.placements) : p.mention ∈ c.mentions := by
  obtain ⟨s, hs, htakes⟩ := ((align_eq_ok_iff.1 ha).2.1).takes_of_mem hp
  exact htakes.mention_eq ▸ List.mem_map_of_mem hs

include hv hr

/-- The roles of a reading are played by object types of the vocabulary. -/
lemma playerOf_ref_mem : ∀ ref ∈ x.vocabulary.readingRefs r,
    x.vocabulary.playerOf ref.role ∈ x.vocabulary.objectTypeIds :=
  fun _ href => hv.role_player_mem (hv.mem_roles.1 (hv.ref_mem_roles hr href)).1

include hi ha

/-- Mentions that take roles of a reading have players that exist. -/
lemma player_mem_of_align :
    ∀ m ∈ c.mentions, ∃ t ∈ x.vocabulary.objectTypeIds, (x.mention m).player = some t := by
  have hrefs := playerOf_ref_mem hv hr
  have hplayers : List.Forall₂ (fun s p => (∃ t ∈ x.vocabulary.objectTypeIds,
      (x.mention s.mention).player = some t) ∧ Takes x options (x.vocabulary.readingRefs r) s p)
      c.slots a.placements := by
    refine ((align_eq_ok_iff.1 ha).2.1).takes.imp fun s p htakes => ⟨?_, htakes⟩
    obtain ⟨ref, href, hrole⟩ := htakes.role_eq
    have hplayer := hrefs ref (List.mem_of_getElem? href)
    exact player_mem_of_walkPlayer hi (hrole ▸ hplayer) htakes.player
  intro m hm
  obtain ⟨s, hs, rfl⟩ := List.mem_map.1 hm
  exact ((List.forall₂_and_left _ _).1 hplayers).1 s hs

end Readings

namespace LooksAlike

variable {g : MentionId → MentionId} {c d : Clause} (h : LooksAlike f g c d x z)

include h

/-- If clauses look alike, they do so the other way around. -/
lemma symm : LooksAlike g f d c z x where
  renames := h.renames.symm h.back
  back n hn := by
    rw [h.renames.mentions_eq] at hn
    obtain ⟨m, hm, rfl⟩ := List.mem_map.1 hn
    rw [h.back m hm]
  vocabulary_eq := h.vocabulary_eq.symm
  looksLike n hn := by
    rw [h.renames.mentions_eq] at hn
    obtain ⟨m, hm, rfl⟩ := List.mem_map.1 hn
    have hlooks := h.looksLike m hm
    rw [h.back m hm]
    refine ⟨fun t ht => ?_, hlooks.leading_eq.symm, hlooks.trailing_eq.symm⟩
    rw [h.vocabulary_eq] at ht
    exact (hlooks.player_iff t ht).symm

section Players

variable (hplayers : ∀ m ∈ c.mentions, ∃ t ∈ x.vocabulary.objectTypeIds,
  (x.mention m).player = some t)

include hplayers

/-- Mentions of clauses that look alike have the same player. -/
lemma player_eq {m : MentionId} (hm : m ∈ c.mentions) :
    (z.mention (f m)).player = (x.mention m).player := by
  obtain ⟨t, ht, hplayer⟩ := hplayers m hm
  rw [((h.looksLike m hm).player_iff t ht).2 hplayer, hplayer]

/-- The same readings are tried for both clauses. -/
lemma triedReadings_eq (options : MatchOptions) :
    z.triedReadings options d = x.triedReadings options c := by
  have hslots : d.slots = c.slots.map (Slot.renamed f) := h.renames.slots_eq
  have hplayer : ∀ s ∈ c.slots, (z.mention (s.renamed f).mention).player =
      (x.mention s.mention).player :=
    fun s hs => h.player_eq hplayers (List.mem_map_of_mem hs)
  have hmapM : (d.slots.mapM fun s => (z.mention s.mention).player) =
      c.slots.mapM fun s => (x.mention s.mention).player := by
    rw [hslots]
    clear hslots
    revert hplayer
    generalize c.slots = slots
    intro hplayer
    induction slots with
    | nil => rfl
    | cons s ss ih =>
      rw [List.map_cons, List.mapM_cons, List.mapM_cons, hplayer s List.mem_cons_self,
        ih fun s' hs' => hplayer s' (List.mem_cons_of_mem _ hs')]
  have hcomparison : d.comparison?.isSome = c.comparison?.isSome := by
    rw [h.renames.comparison?_eq, Option.isSome_map]
  have hcandidates : z.candidates options d.slots = x.candidates options c.slots := by
    unfold candidates
    rw [hmapM, h.vocabulary_eq, hslots]
    generalize (c.slots.mapM fun s => (x.mention s.mention).player) = players
    cases c.slots <;> rcases players with _ | _ | _ <;> rfl
  unfold triedReadings
  rw [hcomparison, hcandidates, h.vocabulary_eq]

/-- Steps between types are as many, and run along the inheritance as they did. -/
lemma checkSubtypeSteps_eq (factType : FactTypeId) {placements : List Placement}
    (hplacements : ∀ p ∈ placements, p.mention ∈ c.mentions) :
    z.checkSubtypeSteps factType (placements.map (Placement.renamed f)) =
      x.checkSubtypeSteps factType placements := by
  have hfilter : (placements.map (Placement.renamed f)).filter (·.commonSupertype.isSome) =
      (placements.filter (·.commonSupertype.isSome)).map (Placement.renamed f) := by
    rw [List.filter_map]
    rfl
  have hsteps : ((placements.filter (·.commonSupertype.isSome)).map (Placement.renamed f)).all
      z.stepsAlong = (placements.filter (·.commonSupertype.isSome)).all x.stepsAlong := by
    rw [List.all_map, Bool.eq_iff_iff, List.all_eq_true, List.all_eq_true]
    refine forall₂_congr fun p hp => ?_
    have hplayer := h.player_eq hplayers (hplacements p (List.mem_of_mem_filter hp))
    have halong : z.stepsAlong (p.renamed f) = x.stepsAlong p := by
      unfold stepsAlong
      rw [show (z.mention (p.renamed f).mention).player = _ from hplayer, h.vocabulary_eq]
      rfl
    exact iff_of_eq (congrArg (· = true) halong)
  unfold checkSubtypeSteps
  dsimp only
  rw [hfilter, hsteps, List.length_map, h.vocabulary_eq]

end Players

/-- **A reading matches the one clause** as it matches the other, if the mentions of this that keep
adjectives share their bindings. -/
theorem align (hv : x.vocabulary.WellFormed) (hi : x.vocabulary.Inherits) {r : ReadingId}
    (hr : r ∈ x.vocabulary.readingIds) {a : Alignment} (ha : x.align options c r = .ok a)
    (hshare : z.KeepsShared (a.renamed f)) : z.align options d r = .ok (a.renamed f) := by
  have hplayers := player_mem_of_align hv hi hr ha
  obtain ⟨hcertainty, hwalks, hsteps, hfactType, hreading, hsequence⟩ := align_eq_ok_iff.1 ha
  have hslot : ∀ s ∈ c.slots, x.LooksLike z s.mention (f s.mention) :=
    fun s hs => h.looksLike s.mention (List.mem_map_of_mem hs)
  have hwalks' := hwalks.renamed h.vocabulary_eq hi (playerOf_ref_mem hv hr) hslot
    fun p hp => hshare _ (List.mem_map_of_mem hp)
  refine align_eq_ok_iff.2 ⟨?_, ?_, ?_, ?_, hreading, ?_⟩
  · rw [h.vocabulary_eq, h.renames.certainty_eq]
    exact hcertainty
  · rw [h.vocabulary_eq, h.renames.phrases_eq]
    exact hwalks'
  · rw [h.vocabulary_eq]
    exact (h.checkSubtypeSteps_eq hplayers _ fun p => mention_mem_of_align ha).trans hsteps
  · rw [h.vocabulary_eq]
    exact hfactType
  · rw [h.vocabulary_eq]
    exact hsequence

section Shared

variable (hv : x.vocabulary.WellFormed) (hi : x.vocabulary.Inherits)
  (hshared : ∀ m ∈ c.mentions, 1 < x.shareCount m)

include hv hi hshared

/-- A reading that matches the clause with the other mentions matches the first one, where all
mentions share their bindings. -/
lemma exists_align {r : ReadingId} (hr : r ∈ x.vocabulary.readingIds) {b : Alignment}
    (hb : z.align options d r = .ok b) : ∃ a, x.align options c r = .ok a ∧ a.renamed f = b := by
  have hexists : ∀ p ∈ b.placements, ∃ m ∈ c.mentions, f m = p.mention := by
    intro p hp
    have hmem := mention_mem_of_align hb hp
    rw [h.renames.mentions_eq] at hmem
    obtain ⟨m, hm, heq⟩ := List.mem_map.1 hmem
    exact ⟨m, hm, heq⟩
  have hv' : z.vocabulary.WellFormed := h.vocabulary_eq.symm ▸ hv
  have hi' : z.vocabulary.Inherits := h.vocabulary_eq.symm ▸ hi
  have hr' : r ∈ z.vocabulary.readingIds := h.vocabulary_eq.symm ▸ hr
  refine ⟨b.renamed g, h.symm.align hv' hi' hr' hb fun q hq _ => ?_, Alignment.renamed_renamed _ ?_⟩
  · obtain ⟨p, hp, rfl⟩ := List.mem_map.1 hq
    obtain ⟨m, hm, heq⟩ := hexists p hp
    have hback : (p.renamed g).mention = m := by
      rw [Placement.renamed, ← heq, h.back m hm]
    exact hback ▸ hshared m hm
  · intro p hp
    obtain ⟨m, hm, heq⟩ := hexists p hp
    rw [← heq, h.back m hm]

/-- How a reading matches the clause with the other mentions. -/
lemma toOption_align_eq {r : ReadingId} (hr : r ∈ x.vocabulary.readingIds) :
    (z.align options d r).toOption =
      ((x.align options c r).toOption.filter fun a => z.KeepsShared (a.renamed f)).map
        (Alignment.renamed f) := by
  cases hx : x.align options c r with
  | error mismatch =>
    cases hz : z.align options d r with
    | error mismatch => rfl
    | ok b =>
      obtain ⟨a, ha, -⟩ := h.exists_align hv hi hshared hr hz
      rw [hx] at ha
      cases ha
  | ok a =>
    by_cases hkeeps : z.KeepsShared (a.renamed f)
    · rw [h.align hv hi hr hx hkeeps]
      simp [Except.toOption, hkeeps]
    · cases hz : z.align options d r with
      | error mismatch => simp [Except.toOption, hkeeps]
      | ok b =>
        obtain ⟨a', ha', rfl⟩ := h.exists_align hv hi hshared hr hz
        rw [hx] at ha'
        cases ha'
        exact absurd (keepsShared_of_align hz) hkeeps

/-- **What the clause with the other mentions invokes.** It is what the first clause invokes, where
all mentions share their bindings, but for that in which mentions keep adjectives and do not share
theirs. -/
theorem invocations_eq (options : MatchOptions) :
    z.invocations options d =
      ((x.invocations options c).filter fun a => z.KeepsShared (a.renamed f)).map
        (Alignment.renamed f) := by
  have hreadings : ∀ r ∈ x.triedReadings options c, r ∈ x.vocabulary.readingIds := by
    intro r hr
    obtain ⟨-, f, hf⟩ := mem_triedReadings hr
    exact (hv.mem_readings.1 hf).1
  by_cases hplayers : ∀ m ∈ c.mentions, ∃ t ∈ x.vocabulary.objectTypeIds,
      (x.mention m).player = some t
  · unfold invocations
    rw [h.triedReadings_eq hplayers, List.filter_filterMap, List.map_filterMap]
    refine List.filterMap_congr fun r hr => ?_
    exact h.toOption_align_eq hv hi hshared (hreadings r hr)
  · have hnone : x.invocations options c = [] := by
      refine List.filterMap_eq_nil_iff.2 fun r hr => ?_
      cases hx : x.align options c r with
      | error mismatch => rfl
      | ok a => exact absurd (player_mem_of_align hv hi (hreadings r hr) hx) hplayers
    have hnone' : z.invocations options d = [] := by
      refine List.filterMap_eq_nil_iff.2 fun r hr => ?_
      cases hz : z.align options d r with
      | error mismatch => rfl
      | ok b =>
        have hr' : r ∈ x.vocabulary.readingIds := by
          obtain ⟨-, f, hf⟩ := mem_triedReadings hr
          rw [h.vocabulary_eq] at hf
          exact (hv.mem_readings.1 hf).1
        obtain ⟨a, ha, -⟩ := h.exists_align hv hi hshared hr' hz
        exact absurd (player_mem_of_align hv hi hr' ha) hplayers
    rw [hnone, hnone']
    rfl

end Shared

end LooksAlike

/-! ## Selection -/

/-- What is selected is the first of those alignments that cost least, and it does not matter which
one of them is. -/
lemma isLeast_of_select {c : Clause} {a : Alignment}
    (h : x.select c (x.rank options c) = .ok (some a)) :
    IsLeast {n | ∃ b ∈ x.invocations options c, b.cost = n} a.cost ∧
      x.Unanimous ((x.invocations options c).filter (·.cost == a.cost)) ∧
      ((x.invocations options c).filter (·.cost == a.cost)).head? = some a := by
  have hmem : a ∈ x.invocations options c := (perm_rank x options c).subset (mem_of_select h)
  obtain ⟨k, hk⟩ : ∃ k, IsLeast {n | ∃ b ∈ x.invocations options c, b.cost = n} k := by
    classical
    have hexists : ∃ n, ∃ b ∈ x.invocations options c, b.cost = n := ⟨a.cost, a, hmem, rfl⟩
    exact ⟨Nat.find hexists, Nat.find_spec hexists, fun _ hn => Nat.find_min' hexists hn⟩
  obtain ⟨hsome, hnone⟩ := select_of_isLeast hk
  by_cases hunanimous : x.Unanimous ((x.invocations options c).filter (·.cost == k))
  · have hhead := (hsome hunanimous).symm.trans h
    have hhead' : ((x.invocations options c).filter (·.cost == k)).head? = some a :=
      Except.ok.inj hhead
    have hcost : a.cost = k := by
      simpa using (List.mem_filter.1 (List.mem_of_head? hhead')).2
    exact hcost ▸ ⟨hk, hunanimous, hhead'⟩
  · rw [hnone hunanimous] at h
    cases h

/-- **Selection among other mentions.** Let a clause select an alignment. The clause with other
mentions selects the same one, if of the alignments that cost no more, where all mentions share
their bindings, the same are left where they need not. -/
theorem LooksAlike.select {g : MentionId → MentionId} {c d : Clause} {y : Context}
    (hx : LooksAlike id id c c y x) (hz : LooksAlike f g c d y z) (hv : y.vocabulary.WellFormed)
    (hi : y.vocabulary.Inherits) (hshared : ∀ m ∈ c.mentions, 1 < y.shareCount m) {a : Alignment}
    (hsteady : ∀ b ∈ y.invocations options c, b.cost ≤ a.cost →
      (x.KeepsShared b ↔ z.KeepsShared (b.renamed f)))
    (h : x.select c (x.rank options c) = .ok (some a)) :
    z.select d (z.rank options d) = .ok (some (a.renamed f)) := by
  obtain ⟨⟨-, hleast⟩, hunanimous, hhead⟩ := isLeast_of_select h
  have hinvocations : x.invocations options c =
      (y.invocations options c).filter fun b => x.KeepsShared b := by
    have hid : Alignment.renamed id = id := funext Alignment.renamed_id
    rw [hx.invocations_eq hv hi hshared options, hid, List.map_id]
    rfl
  have hinvocations' := hz.invocations_eq hv hi hshared options
  -- those that cost least are the same
  have hfilter : (z.invocations options d).filter (·.cost == a.cost) =
      ((x.invocations options c).filter (·.cost == a.cost)).map (Alignment.renamed f) := by
    rw [hinvocations, hinvocations', List.filter_map, List.filter_filter, List.filter_filter]
    congr 1
    refine List.filter_congr fun b hb => ?_
    have hcost' : ((·.cost == a.cost) ∘ Alignment.renamed f) b = (b.cost == a.cost) :=
      congrArg (· == a.cost) (Alignment.cost_renamed f b)
    rw [hcost', Bool.eq_iff_iff, Bool.and_eq_true, Bool.and_eq_true, beq_iff_eq, decide_eq_true_iff,
      decide_eq_true_iff]
    refine and_congr_right fun hcost => ?_
    exact (hsteady b hb hcost.le).symm
  have hleast' : IsLeast {n | ∃ b ∈ z.invocations options d, b.cost = n} a.cost := by
    have hmem := List.mem_of_head? hhead
    constructor
    · have hmem' : a.renamed f ∈ (z.invocations options d).filter (·.cost == a.cost) :=
        hfilter ▸ List.mem_map_of_mem hmem
      exact ⟨_, List.mem_of_mem_filter hmem', Alignment.cost_renamed f a⟩
    · rintro _ ⟨b', hb', rfl⟩
      rw [hinvocations'] at hb'
      obtain ⟨b, hb, rfl⟩ := List.mem_map.1 hb'
      obtain ⟨hb, hkeeps⟩ := List.mem_filter.1 hb
      rw [Alignment.cost_renamed]
      refine Nat.le_of_not_lt fun hlt => Nat.not_lt.2 (hleast ⟨b, ?_, rfl⟩) hlt
      rw [hinvocations]
      have hkeeps' := (hsteady b hb hlt.le).2 (of_decide_eq_true hkeeps)
      exact List.mem_filter.2 ⟨hb, decide_eq_true hkeeps'⟩
  have hunanimous' : z.Unanimous ((z.invocations options d).filter (·.cost == a.cost)) := by
    rw [hfilter]
    unfold Unanimous at hunanimous ⊢
    simp only [List.forall_mem_map]
    rw [hz.vocabulary_eq, ← hx.vocabulary_eq]
    exact hunanimous
  rw [(select_of_isLeast hleast').1 hunanimous', hfilter, List.head?_map, hhead]
  rfl

end Context

end FactModel
