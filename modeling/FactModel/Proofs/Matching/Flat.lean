import Mathlib.Data.List.Range
import FactModel.Proofs.Context.Adoption
import FactModel.Proofs.Matching.Ranking
import FactModel.Proofs.Matching.Resolution
set_option autoImplicit false

/-!
# Clauses without nested clauses

The mentions of such a clause take the next places of the context, one behind the other, and
resolving the clause is only about the clause itself. One that states a reading and invokes none is
left as it was.

## Main definitions

* `FactModel.Script.Clause.IsFlat`, `FactModel.Clause.IsFlat` — no clauses are nested in a clause.
* `FactModel.Context.Numbered` — slots whose mentions were taken into a context one by one.

## Main results

* `FactModel.Context.numbered_adoptPhrases` — phrases without nested clauses are numbered.
* `FactModel.Clause.IsFlat.ofResolved_resolve` — a flat clause is resolved by itself.
* `FactModel.Compile.invokes_nothing` — a clause that states a reading, but invokes none, is left as
  it was.
-/

namespace FactModel

open Attempt

namespace Script

/-- No clauses are nested under an operand. -/
def Operand.IsFlat : Operand → Prop
  | .mention m => m.nested = []
  | .literal _ => True

/-- No clauses are nested in a phrase. -/
def Phrase.IsFlat : Phrase → Prop
  | .word _ => True
  | .mention m => m.nested = []
  | .comparison _ left right => left.IsFlat ∧ right.IsFlat

/-- No clauses are nested in a clause. -/
def Clause.IsFlat (c : Clause) : Prop :=
  ∀ p ∈ c.phrases, p.IsFlat

end Script

/-- No clauses are nested in a clause. -/
def Clause.IsFlat (c : Clause) : Prop :=
  ∀ s ∈ c.slots, s.nested = []

/-! ## Taking flat clauses into a context -/

namespace Context

/-- Slots without nested clauses whose mentions were taken into a context one behind the other, and
the context after that. -/
structure Numbered (x : Context) (slots : List Slot) (y : Context) : Prop where
  nested_eq : ∀ s ∈ slots, s.nested = []
  size_eq : y.mentions.size = x.mentions.size + slots.length
  index_eq : slots.map (·.mention.index) = List.range' x.mentions.size slots.length

variable {x y z : Context} {slots : List Slot}

/-- No slots need no mentions. -/
lemma numbered_nil (x : Context) : Numbered x [] x :=
  ⟨fun _ hs => (nomatch hs), rfl, rfl⟩

/-- Numbered slots may be followed by further ones. -/
lemma Numbered.append {more : List Slot} (h : Numbered x slots y) (h' : Numbered y more z) :
    Numbered x (slots ++ more) z where
  nested_eq s hs := (List.mem_append.1 hs).elim (h.nested_eq s) (h'.nested_eq s)
  size_eq := by
    rw [h'.size_eq, h.size_eq, List.length_append, Nat.add_assoc]
  index_eq := by
    rw [List.map_append, h.index_eq, h'.index_eq, h.size_eq, List.length_append,
      List.range'_append_1]

/-- No two slots have one mention. -/
lemma Numbered.nodup (h : Numbered x slots y) : (slots.map (·.mention)).Nodup := by
  refine List.Nodup.of_map MentionId.index ?_
  rw [List.map_map]
  exact h.index_eq ▸ List.nodup_range'

/-- A mention without nested clauses is taken in as the next one. -/
lemma numbered_adoptMention {m : Script.Mention} (hm : m.nested = []) (x : Context) :
    Numbered x [(adoptMention m x).1] (adoptMention m x).2 := by
  obtain ⟨term, leading, trailing, roleName, quantifier, literal, nested⟩ := m
  obtain rfl : nested = [] := hm
  rw [adoptMention, adoptAll]
  refine ⟨fun s hs => ?_, ?_, rfl⟩
  · rw [List.mem_singleton.1 hs]
    rfl
  · exact Array.size_push ..

/-- A side of a comparison without nested clauses is taken in as the next mention. -/
lemma numbered_adoptOperand (other : Script.Operand) {operand : Script.Operand}
    (h : operand.IsFlat) (x : Context) :
    Numbered x [(adoptOperand other operand x).1] (adoptOperand other operand x).2 := by
  cases operand with
  | mention m =>
    rw [adoptOperand]
    exact numbered_adoptMention h x
  | literal value =>
    rw [adoptOperand]
    refine ⟨fun s hs => ?_, Array.size_push .., rfl⟩
    rw [List.mem_singleton.1 hs]
    rfl

/-- The mentions of a flat phrase are taken in as the next ones. -/
lemma numbered_adoptPhrase {p : Script.Phrase} (hp : p.IsFlat) (x : Context) :
    Numbered x (adoptPhrase p x).1.slots (adoptPhrase p x).2 := by
  cases p with
  | word text =>
    rw [adoptPhrase]
    exact numbered_nil x
  | mention m =>
    rw [adoptPhrase]
    exact numbered_adoptMention hp x
  | comparison operator left right =>
    rw [adoptPhrase]
    exact (numbered_adoptOperand right hp.1 x).append (numbered_adoptOperand left hp.2 _)

/-- Phrases without nested clauses are taken into a context one behind the other. -/
theorem numbered_adoptPhrases {ps : List Script.Phrase} (hps : ∀ p ∈ ps, p.IsFlat) (x : Context) :
    Numbered x ((adoptPhrases ps x).1.flatMap Phrase.slots) (adoptPhrases ps x).2 ∧
      (adoptPhrases ps x).1.length = ps.length := by
  induction ps generalizing x with
  | nil =>
    rw [adoptPhrases]
    exact ⟨numbered_nil x, rfl⟩
  | cons p ps ih =>
    rw [adoptPhrases]
    obtain ⟨hnumbered, hlength⟩ := ih (fun q hq => hps q (List.mem_cons_of_mem p hq))
      (adoptPhrase p x).2
    exact ⟨(numbered_adoptPhrase (hps p List.mem_cons_self) x).append hnumbered,
      congrArg (· + 1) hlength⟩

/-- A phrase that is no word has slots. -/
lemma slots_adoptPhrase_ne_nil {p : Script.Phrase} (hp : ∀ text, p ≠ .word text) (x : Context) :
    (adoptPhrase p x).1.slots ≠ [] := by
  cases p with
  | word text => exact absurd rfl (hp text)
  | mention m =>
    rw [adoptPhrase]
    exact List.cons_ne_nil _ _
  | comparison operator left right =>
    rw [adoptPhrase]
    exact List.cons_ne_nil _ _

/-- Phrases of which one is no word have a slot. -/
lemma slots_adoptPhrases_ne_nil {ps : List Script.Phrase}
    (hps : ∃ p ∈ ps, ∀ text, p ≠ .word text) (x : Context) :
    (adoptPhrases ps x).1.flatMap Phrase.slots ≠ [] := by
  obtain ⟨p, hp, hword⟩ := hps
  induction ps generalizing x with
  | nil => cases hp
  | cons q qs ih =>
    rw [adoptPhrases]
    intro hnil
    obtain ⟨hq, hqs⟩ := List.append_eq_nil_iff.1 hnil
    rcases List.mem_cons.1 hp with rfl | hp
    · exact slots_adoptPhrase_ne_nil hword x hq
    · exact ih _ hp hqs

end Context

/-! ## Resolving flat clauses -/

open Compile

/-- A slot with nothing nested in it is resolved as it is. -/
lemma ofResolved_resolveSlot_flat (options : MatchOptions) {s : Slot} (hs : s.nested = []) :
    ofResolved (resolveSlot options s) = pure (s, ()) := by
  obtain ⟨m, nested⟩ := s
  obtain rfl : nested = [] := hs
  rfl

/-- A phrase with nothing nested in it is resolved as it is. -/
lemma ofResolved_resolvePhrase_flat (options : MatchOptions) {p : Phrase}
    (hp : ∀ s ∈ p.slots, s.nested = []) : ofResolved (resolvePhrase options p) = pure (p, ()) := by
  cases p with
  | word text => rfl
  | slot s =>
    rw [ofResolved_resolvePhrase_slot,
      ofResolved_resolveSlot_flat options (hp s List.mem_cons_self)]
    rfl
  | comparison operator left right =>
    rw [ofResolved_resolvePhrase_comparison,
      ofResolved_resolveSlot_flat options (hp left List.mem_cons_self),
      ofResolved_resolveSlot_flat options (hp right (List.mem_cons_of_mem _ List.mem_cons_self))]
    rfl

/-- Phrases with nothing nested in them are resolved as they are. -/
lemma ofResolved_resolvePhrases_flat (options : MatchOptions) {ps : List Phrase}
    (hps : ∀ s ∈ ps.flatMap Phrase.slots, s.nested = []) :
    ofResolved (resolvePhrases options ps) = pure (ps, ()) := by
  induction ps with
  | nil => rfl
  | cons p ps ih =>
    rw [ofResolved_resolvePhrases_cons,
      ofResolved_resolvePhrase_flat options fun s hs => hps s (List.mem_append_left _ hs),
      ih fun s hs => hps s (List.mem_append_right _ hs)]
    rfl

/-- A flat clause is resolved by itself. -/
theorem Clause.IsFlat.ofResolved_resolve {c : Clause} (h : c.IsFlat) (options : MatchOptions) :
    ofResolved (resolve options c) = ofResolved (resolveItself options c) := by
  rw [Compile.ofResolved_resolve, ofResolved_resolvePhrases_flat options h, pure_bind]
  cases c
  rfl

namespace Compile

variable {x y : Context} {c d : Clause} {options : MatchOptions}

/-- A clause with words is no comparison. -/
lemma comparison?_of_word (h : ∃ p ∈ c.phrases, p.word?.isSome) : c.comparison? = none := by
  obtain ⟨p, hp, hword⟩ := h
  unfold Clause.comparison?
  split
  · next hphrases =>
    rw [hphrases] at hp
    obtain rfl := List.mem_singleton.1 hp
    cases hword
  · rfl

/-- A clause with words does more than name an individual. -/
lemma isExistential_of_word (x : Context) (h : ∃ p ∈ c.phrases, p.word?.isSome) :
    x.isExistential c = false := by
  obtain ⟨p, hp, hword⟩ := h
  unfold Context.isExistential
  split
  · next hphrases =>
    rw [hphrases] at hp
    obtain rfl := List.mem_singleton.1 hp
    cases hword
  · rfl

/-- Nothing is selected only where nothing is ranked. -/
lemma alignments_eq_nil_of_select {ranking : Ranking} (h : x.select c ranking = .ok none) :
    ranking.alignments = [] := by
  unfold Context.select at h
  split at h
  · next halignments _ => exact halignments
  · cases h
  · dsimp only at h
    split at h <;> cases h

/-- What invoking a reading consists of. -/
lemma perform_invokeReading_eq_ok {options : MatchOptions} {r : Option Clause} :
    (invokeReading options c).perform x = (.ok r, y) ↔
      (x.select c (x.rank options c) = .ok none ∧ r = none ∧ y = x) ∨
        ∃ a, x.select c (x.rank options c) = .ok (some a) ∧ r = some (c.aligned a) ∧
          (applyAlignment c a).perform x = (.ok (c.aligned a), y) := by
  have hvalue : ∀ {a d z}, (applyAlignment c a).perform x = (.ok d, z) → d = c.aligned a := by
    intro a d z h
    obtain ⟨_, _, -, hpure⟩ := perform_bind_eq_ok.1 h
    cases hpure
    rfl
  rw [invokeReading, perform_get_bind, perform_bind_eq_ok]
  constructor
  · rintro ⟨selected, z, hselect, hrest⟩
    obtain ⟨hselect, rfl⟩ := perform_ofExcept_eq_ok.1 hselect
    cases selected with
    | none =>
      cases hrest
      exact .inl ⟨hselect, rfl, rfl⟩
    | some a =>
      dsimp only at hrest
      rw [← bind_pure_comp] at hrest
      obtain ⟨d, z, happly, hpure⟩ := perform_bind_eq_ok.1 hrest
      cases hpure
      obtain rfl := hvalue happly
      exact .inr ⟨a, hselect, rfl, happly⟩
  · rintro (⟨hselect, rfl, rfl⟩ | ⟨a, hselect, rfl, happly⟩)
    · exact ⟨none, y, perform_ofExcept_eq_ok.2 ⟨hselect, rfl⟩, rfl⟩
    · refine ⟨some a, x, perform_ofExcept_eq_ok.2 ⟨hselect, rfl⟩, ?_⟩
      dsimp only
      rw [← bind_pure_comp]
      exact perform_bind_eq_ok.2 ⟨_, y, happly, rfl⟩

/-- A flat clause that states a reading has words, and is left as it was if it invokes none. -/
lemma perform_resolveStated_eq_ok (hflat : c.IsFlat) :
    (resolveStated c).perform x = (.ok d, y) ↔ c.phrases.all (·.word?.isNone) = false ∧
      ∃ r, (invokeReading { exactTypes := true } c).perform x = (.ok r, y) ∧ d = r.getD c := by
  unfold resolveStated
  split
  · next hnone =>
    rw [perform_get_bind]
    constructor
    · rintro ⟨⟩
    · rintro ⟨hwords, -⟩
      rw [hnone] at hwords
      cases hwords
  next hwords =>
  have hword : ∃ p ∈ c.phrases, p.word?.isSome := by
    simpa [Option.isSome_iff_ne_none] using hwords
  have hself : (resolveFlat { exactTypes := true } c).perform x =
      (invokeReading { exactTypes := true } c).perform x := by
    rw [resolveFlat, comparison?_of_word hword]
    dsimp only
    rw [perform_get_bind, isExistential_of_word x hword, if_neg Bool.false_ne_true]
  rw [hflat.ofResolved_resolve, ofResolved_resolveItself]
  constructor
  · intro h
    obtain ⟨_, z, hresolve, hpure⟩ := perform_bind_eq_ok.1 h
    cases hpure
    obtain ⟨r, z, hinvoke, hresult⟩ := perform_bind_eq_ok.1 hresolve
    refine ⟨Bool.eq_false_iff.2 hwords, r, ?_⟩
    cases r <;> cases hresult <;> exact ⟨hself.symm.trans hinvoke, rfl⟩
  · rintro ⟨-, r, hinvoke, rfl⟩
    refine perform_bind_eq_ok.2 ⟨(r.getD c, r.isSome), y, perform_bind_eq_ok.2 ⟨r, y, ?_, ?_⟩, rfl⟩
    · exact hself.trans hinvoke
    · cases r <;> rfl

/-- A flat clause that states a reading and invokes none is left as it was: it has words, it is no
comparison, and no reading matches it. -/
theorem invokes_nothing (hflat : c.IsFlat)
    (h : (resolveStated c).perform x = (.ok d, y)) (hd : d.factType = none) :
    d = c ∧ y = x ∧ c.comparison? = none ∧
      (x.rank { exactTypes := true } c).alignments = [] := by
  obtain ⟨hwords, r, hinvoke, rfl⟩ := (perform_resolveStated_eq_ok hflat).1 h
  rcases perform_invokeReading_eq_ok.1 hinvoke with ⟨hselect, rfl, rfl⟩ | ⟨a, -, rfl, -⟩
  · have hword : ∃ p ∈ c.phrases, p.word?.isSome := by
      simpa [Option.isSome_iff_ne_none] using hwords
    exact ⟨rfl, rfl, comparison?_of_word hword, alignments_eq_nil_of_select hselect⟩
  · cases hd

end Compile

end FactModel
