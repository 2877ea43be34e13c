import FactModel.Proofs.Context.Validity
import FactModel.Proofs.Matching.Completion
import FactModel.Proofs.Matching.Ranking
import FactModel.Proofs.Vocabulary.Implied
set_option autoImplicit false

/-!
# Resolution keeps contexts valid

An aligned clause invokes a reading of the vocabulary, and its mentions take roles of that reading.
A comparison gets a fact type that the vocabulary has then. So what resolved clauses refer to
exists. The words that an alignment takes are removed from the last one on, which leaves the phrases
at other positions.

## Main definitions

* `FactModel.dropFrom` — phrases without those at certain positions.

## Main results

* `FactModel.splice_eq_dropFrom` — splicing leaves the phrases at other positions.
* `FactModel.Clause.slots_aligned` — an aligned clause keeps its slots.
* `FactModel.Clause.Valid.aligned` — an aligned clause is valid.
* `FactModel.completes_valid` — resolution and completion keep contexts and clauses valid.
-/

namespace FactModel

open Attempt Compile Context

/-! ## Splicing -/

/-- The phrases without those at the given positions, counted from a number on. -/
def dropFrom (n : Nat) (positions : List Nat) (phrases : List Phrase) : List Phrase :=
  ((phrases.zipIdx n).filter fun (_, i) => !positions.contains i).map (·.1)

/-- The positions of the words that an alignment takes out of its clause. -/
def Alignment.takenPositions (a : Alignment) : List Nat :=
  a.placements.flatMap (·.absorbed) ++ a.negation.toList

section dropFrom

variable {n : Nat} {positions others : List Nat} {ps qs : List Phrase}

/-- Phrases are dropped part by part. -/
lemma dropFrom_append :
    dropFrom n positions (ps ++ qs) =
      dropFrom n positions ps ++ dropFrom (n + ps.length) positions qs := by
  rw [dropFrom, List.zipIdx_append, List.filter_append, List.map_append]
  rfl

/-- A phrase whose position is not given stays. -/
lemma dropFrom_cons_of_not_mem {p : Phrase} (h : n ∉ positions) :
    dropFrom n positions (p :: ps) = p :: dropFrom (n + 1) positions ps := by
  rw [dropFrom, List.zipIdx_cons, List.filter_cons_of_pos (by simpa using h), List.map_cons]
  rfl

/-- A phrase whose position is given is gone. -/
lemma dropFrom_cons_of_mem {p : Phrase} (h : n ∈ positions) :
    dropFrom n positions (p :: ps) = dropFrom (n + 1) positions ps := by
  rw [dropFrom, List.zipIdx_cons, List.filter_cons_of_neg (by simpa using h)]
  rfl

/-- Phrases whose positions are all given are gone. -/
lemma dropFrom_eq_nil (h : ∀ i, n ≤ i → i < n + ps.length → i ∈ positions) :
    dropFrom n positions ps = [] := by
  induction ps generalizing n with
  | nil => rfl
  | cons p ps ih =>
    rw [List.length_cons] at h
    rw [dropFrom_cons_of_mem (h n (Nat.le_refl n) (by omega))]
    exact ih fun i hlow hhigh => h i (by omega) (by omega)

/-- Only positions from the number on matter. -/
lemma dropFrom_congr (h : ∀ i, n ≤ i → (i ∈ positions ↔ i ∈ others)) :
    dropFrom n positions ps = dropFrom n others ps := by
  induction ps generalizing n with
  | nil => rfl
  | cons p ps ih =>
    have hrest : dropFrom (n + 1) positions ps = dropFrom (n + 1) others ps :=
      ih fun i hi => h i (by omega)
    by_cases hn : n ∈ positions
    · rw [dropFrom_cons_of_mem hn, dropFrom_cons_of_mem ((h n (Nat.le_refl n)).1 hn), hrest]
    · rw [dropFrom_cons_of_not_mem hn,
        dropFrom_cons_of_not_mem (mt (h n (Nat.le_refl n)).2 hn), hrest]

/-- If only positions in front of the phrases are given, all of them stay. -/
lemma dropFrom_eq_self (h : ∀ i ∈ positions, i < n) : dropFrom n positions ps = ps := by
  induction ps generalizing n with
  | nil => rfl
  | cons p ps ih =>
    rw [dropFrom_cons_of_not_mem fun hn => Nat.lt_irrefl n (h n hn),
      ih fun i hi => Nat.lt_succ_of_lt (h i hi)]

/-- Dropping phrases keeps whatever they do not have. -/
lemma flatMap_dropFrom {α : Type} (parts : Phrase → List α)
    (h : ∀ i p, ps[i]? = some p → n + i ∈ positions → parts p = []) :
    (dropFrom n positions ps).flatMap parts = ps.flatMap parts := by
  induction ps generalizing n with
  | nil => rfl
  | cons p ps ih =>
    have hrest : (dropFrom (n + 1) positions ps).flatMap parts = ps.flatMap parts :=
      ih fun i q hq hi => h (i + 1) q hq (by rwa [← Nat.add_assoc, Nat.add_right_comm])
    by_cases hn : n ∈ positions
    · rw [dropFrom_cons_of_mem hn, hrest, List.flatMap_cons, h 0 p rfl hn, List.nil_append]
    · rw [dropFrom_cons_of_not_mem hn, List.flatMap_cons, hrest, List.flatMap_cons]

/-- Removing the last phrase that is to be dropped first makes no difference for the others. -/
lemma dropFrom_eraseIdx {i : Nat} (h : ∀ j ∈ positions, j < n + i) :
    dropFrom n positions (ps.eraseIdx i) = dropFrom n ((n + i) :: positions) ps := by
  induction ps generalizing n i with
  | nil => rfl
  | cons p ps ih =>
    cases i with
    | zero =>
      have hlast : ∀ j ∈ n :: positions, j < n + 1 :=
        List.forall_mem_cons.2 ⟨Nat.lt_succ_self n, fun j hj => Nat.lt_succ_of_lt (h j hj)⟩
      rw [Nat.add_zero] at h ⊢
      rw [List.eraseIdx_cons_zero, dropFrom_eq_self h,
        dropFrom_cons_of_mem List.mem_cons_self, dropFrom_eq_self hlast]
    | succ i =>
      have hrest := ih (n := n + 1) (i := i) fun j hj => by
        have hlt := h j hj
        omega
      have hplace : n + 1 + i = n + (i + 1) := by omega
      rw [hplace] at hrest
      have hne : n ≠ n + (i + 1) := by omega
      rw [List.eraseIdx_cons_succ]
      by_cases hn : n ∈ positions
      · rw [dropFrom_cons_of_mem hn, dropFrom_cons_of_mem (List.mem_cons_of_mem _ hn), hrest]
      · rw [dropFrom_cons_of_not_mem hn, hrest,
          dropFrom_cons_of_not_mem fun hn' => (List.mem_cons.1 hn').elim hne hn]

/-- Removing phrases one by one, from the last one on, leaves those at other positions. -/
lemma foldl_eraseIdx_eq_dropFrom (h : positions.Pairwise (· > ·)) :
    positions.foldl List.eraseIdx ps = dropFrom 0 positions ps := by
  induction positions generalizing ps with
  | nil => exact (dropFrom_eq_self fun i hi => absurd hi List.not_mem_nil).symm
  | cons i positions ih =>
    obtain ⟨hlast, hrest⟩ := List.pairwise_cons.1 h
    have herase : dropFrom 0 positions (ps.eraseIdx i) = dropFrom 0 ((0 + i) :: positions) ps :=
      dropFrom_eraseIdx fun j hj => by simpa using hlast j hj
    rw [List.foldl_cons, ih hrest, herase, Nat.zero_add]

/-- **Splicing leaves the phrases at other positions,** if no position is given twice.

**Proof sketch.** The positions are gone through in descending order, so that those still to come
are in front of what is removed. -/
theorem splice_eq_dropFrom (h : positions.Nodup) :
    splice positions ps = dropFrom 0 positions ps := by
  have hperm : positions.mergeSort.reverse.Perm positions :=
    (List.reverse_perm _).trans (List.mergeSort_perm _ _)
  have hsorted : positions.mergeSort.Pairwise (· ≤ ·) := by
    have htrans : ∀ i j k : Nat, decide (i ≤ j) = true → decide (j ≤ k) = true →
      decide (i ≤ k) = true :=
      fun i j k hij hjk =>
        decide_eq_true (Nat.le_trans (of_decide_eq_true hij) (of_decide_eq_true hjk))
    have htotal : ∀ i j : Nat, (decide (i ≤ j) || decide (j ≤ i)) = true :=
      fun i j => by simpa using Nat.le_total i j
    exact (List.pairwise_mergeSort htrans htotal positions).imp of_decide_eq_true
  have hdescending : positions.mergeSort.reverse.Pairwise (· > ·) := by
    refine List.pairwise_reverse.2
      ((hsorted.and (hperm.nodup_iff.2 h |> List.nodup_reverse.1)).imp ?_)
    exact fun hle => Nat.lt_of_le_of_ne hle.1 hle.2
  rw [splice, foldl_eraseIdx_eq_dropFrom hdescending]
  exact dropFrom_congr fun i _ => hperm.mem_iff

end dropFrom

/-! ## Aligned clauses -/

variable {x : Context} {options : MatchOptions} {c : Clause} {a : Alignment}

/-- What is left of a clause when its alignment has been applied are the phrases that are not
taken. -/
lemma Clause.phrases_aligned_eq_dropFrom {r : ReadingId} (h : x.align options c r = .ok a) :
    (c.aligned a).phrases = dropFrom 0 a.takenPositions c.phrases := by
  have htaken : a.takenPositions.Nodup := (align_eq_ok_iff.1 h).2.1.nodup_taken
  have hperm : a.spliced.Perm a.takenPositions :=
    ((List.reverse_perm a.placements).flatMap_right _).append_right _
  rw [Clause.aligned, splice_eq_dropFrom (hperm.nodup_iff.2 htaken)]
  exact dropFrom_congr fun i _ => hperm.mem_iff

/-- An aligned clause keeps whatever words do not have. -/
lemma Clause.flatMap_phrases_aligned {α : Type} (parts : Phrase → List α)
    (hword : ∀ text, parts (.word text) = []) (h : x.align options c a.reading = .ok a) :
    (c.aligned a).phrases.flatMap parts = c.phrases.flatMap parts := by
  rw [Clause.phrases_aligned_eq_dropFrom h]
  refine flatMap_dropFrom parts fun i p hp hi => ?_
  rw [Nat.zero_add] at hi
  obtain ⟨text, htext⟩ := (align_eq_ok_iff.1 h).2.1.word_of_mem_taken [] rfl hi
  rw [List.nil_append] at htext
  rw [Option.some.inj (hp.symm.trans htext), hword]

/-- An aligned clause keeps its slots. -/
theorem Clause.slots_aligned (h : x.align options c a.reading = .ok a) :
    (c.aligned a).slots = c.slots :=
  c.flatMap_phrases_aligned Phrase.slots (fun _ => rfl) h

/-- The roles that an alignment gives to mentions are those of its reading. -/
lemma Context.role_of_mem_placements (h : x.align options c a.reading = .ok a) {p : Placement}
    (hp : p ∈ a.placements) : ∃ ref ∈ x.vocabulary.readingRefs a.reading, p.role = ref.role := by
  obtain ⟨ref, href, hrole⟩ := (align_eq_ok_iff.1 h).2.1.role_eq hp
  exact ⟨ref, List.mem_of_getElem? href, hrole⟩

/-- An aligned clause is valid if the clause is. -/
theorem Clause.Valid.aligned (hx : x.Valid) (hc : c.Valid x.vocabulary)
    (hmem : a ∈ (x.rank options c).alignments) : (c.aligned a).Valid x.vocabulary := by
  obtain ⟨htried, halign⟩ := mem_rank.1 hmem
  obtain ⟨-, -, -, hfactType, -, hroleSequence⟩ := align_eq_ok_iff.1 halign
  obtain ⟨hmentions, f, hf⟩ := mem_triedReadings htried
  have hreading := (hx.consistent.mem_readings.1 hf).1
  refine ⟨⟨fun p hp => ?_, ?_, ?_⟩, ?_, fun f hf => ?_⟩
  · exact hc.isPlain p ((splice_sublist _ _).subset hp)
  · rintro r ⟨⟩
    exact hreading
  · rintro s ⟨⟩
    rw [hroleSequence]
    exact hx.consistent.reading_roleSequence_mem _ hreading
  · rintro f ⟨⟩
    rw [hfactType]
    exact hx.consistent.reading_factType_mem hreading
  · rwa [Clause.mentions, Clause.slots_aligned halign]

/-- A clause that compares two slots consists of the comparison. -/
lemma Clause.phrases_of_comparison? {operator : String} {left right : Slot}
    (h : c.comparison? = some (operator, left, right)) :
    c.phrases = [.comparison operator left right] := by
  unfold Clause.comparison? at h
  split at h
  · next heq =>
    cases h
    exact heq
  · cases h

/-! ## Changes of the context -/

namespace Compile

/-- Applying a placement on a role of the vocabulary keeps a context valid. -/
lemma leads_applyPlacement (h : x.Valid) (s : RoleSequenceId) {p : Placement}
    (hrole : p.role ∈ x.vocabulary.roleIds) :
    (applyPlacement s p).Leads Extends x fun _ y => y.Extends y := by
  refine leads_get_bind (Leads.bind (leads_modifyMention h p.mention _ (h.player_mem _) ?_)
    fun _ y hy _ => leads_get_bind ?_)
  · rintro r ⟨⟩
    exact hrole
  · dsimp only
    split
    · exact Leads.bind (leads_rebind hy.valid p.mention) fun _ z hz _ =>
        leads_pure hz.valid.extends hz.valid.extends
    · exact leads_pure hy.valid.extends hy.valid.extends

/-- Applying an alignment from the ranking of a valid clause makes a valid clause. -/
lemma leads_applyAlignment (h : x.Valid) (hc : c.Valid x.vocabulary)
    (hmem : a ∈ (x.rank options c).alignments) :
    (applyAlignment c a).Leads Extends x fun d y => d.Valid y.vocabulary := by
  have hrole : ∀ p ∈ a.placements, p.role ∈ x.vocabulary.roleIds := by
    intro p hp
    obtain ⟨ref, href, hrole⟩ := role_of_mem_placements (mem_rank.1 hmem).2 hp
    rw [hrole]
    exact h.consistent.ref_mem _ ref href
  refine Leads.bind (Leads.forM h.extends fun p hp y hy => ?_) fun _ y hy _ => ?_
  · exact leads_applyPlacement hy.valid a.roleSequence
      (hy.grows.mem_roleIds (hrole p (List.mem_reverse.1 hp)))
  · exact leads_pure hy.valid.extends ((Clause.Valid.aligned h hc hmem).grows hy.grows)

/-- Giving the mentions of a comparison their roles keeps a context valid. -/
lemma leads_giveComparisonRoles (h : x.Valid) (s : RoleSequenceId)
    (items : List ((MentionId × RoleId) × Nat))
    (hroles : ∀ item ∈ items, item.1.2 ∈ x.vocabulary.roleIds) :
    (items.forM fun ((m, role), ordinal) =>
      modifyMention m ({ · with role := some role, roleRef := some (s, ordinal) })).Leads Extends x
        fun _ _ => True := by
  refine Leads.forM h.extends fun item hitem y hy => ?_
  refine (leads_modifyMention hy.valid item.1.1 _ (hy.valid.player_mem _) ?_).imp
    fun _ z hz _ => hz.valid.extends
  rintro r ⟨⟩
  exact hy.grows.mem_roleIds (hroles item hitem)

/-- Resolving a valid comparison makes a valid clause. -/
lemma leads_resolveComparison (h : x.Valid) (hc : c.Valid x.vocabulary) {operator : String}
    {left right : Slot} (hcomparison : c.comparison? = some (operator, left, right)) :
    (resolveComparison c operator left right).Leads Extends x fun d y => d.Valid y.vocabulary := by
  have hphrases := Clause.phrases_of_comparison? hcomparison
  have hoperator : Template.IsWord operator :=
    hc.isPlain (.comparison operator left right) (by rw [hphrases]; exact List.mem_cons_self)
  refine Leads.bind (leads_playerOf_mem h left.mention) fun leftPlayer y hy hleft => ?_
  refine Leads.bind (leads_playerOf_mem hy.valid right.mention) fun rightPlayer z hz hright => ?_
  have hleft' := hz.grows.mem_objectTypeIds hleft
  refine Leads.bind (leads_edit hz.valid (Vocabulary.leads_comparisonFactType hz.valid.consistent
    hoperator hleft' hright)) fun f w hw hf => leads_get_bind ?_
  obtain ⟨hf, hreadings⟩ := hf
  obtain ⟨r, more, hr⟩ := List.exists_cons_of_ne_nil hreadings
  have hmem : r ∈ w.vocabulary.readingIds :=
    (hw.valid.consistent.mem_readings.1 (hr ▸ List.mem_cons_self)).1
  have hhead : (w.vocabulary.factType f).readings.headD default = r := by rw [hr]; rfl
  dsimp only
  rw [hhead]
  have hroles : ∀ item ∈ ([left.mention, right.mention].zip (w.vocabulary.roleSequence
      (w.vocabulary.reading r).roleSequence).roles).zipIdx, item.1.2 ∈ w.vocabulary.roleIds := by
    intro item hitem
    have hrole := (List.of_mem_zip (List.fst_mem_of_mem_zipIdx hitem)).2
    obtain ⟨ref, href, hrefrole⟩ := List.mem_map.1 hrole
    exact hrefrole ▸ hw.valid.consistent.ref_mem _ ref href
  refine Leads.bind (leads_giveComparisonRoles hw.valid _ _ hroles) fun _ u hu _ => ?_
  refine leads_pure hu.valid.extends ⟨⟨hc.isPlain, ?_, ?_⟩, ?_, fun _ _ => ?_⟩
  · rintro g ⟨⟩
    exact hu.grows.mem_readingIds hmem
  · rintro g ⟨⟩
    exact hu.grows.mem_roleSequenceIds (hw.valid.consistent.reading_roleSequence_mem r hmem)
  · rintro g ⟨⟩
    exact hu.grows.mem_factTypeIds hf
  · simp [Clause.mentions, Clause.slots, hphrases, Phrase.slots]

/-- Resolving a valid clause makes a valid clause if anything matches it. -/
lemma leads_resolveFlat (h : x.Valid) (hc : c.Valid x.vocabulary) (options : MatchOptions) :
    (resolveFlat options c).Leads Extends x fun r y => ∀ d ∈ r, d.Valid y.vocabulary := by
  unfold resolveFlat
  split
  · next hcomparison =>
    refine Leads.map ((leads_resolveComparison h hc hcomparison).imp fun d y _ hd => ?_)
    rintro e ⟨⟩
    exact hd
  · refine leads_get_bind ?_
    split
    · refine leads_pure h.extends ?_
      rintro e ⟨⟩
      exact hc
    · refine leads_get_bind (leads_ofExcept_bind h.extends fun r hselect => ?_)
      cases r with
      | none => exact leads_pure h.extends fun _ hd => nomatch hd
      | some a =>
        refine Leads.map ((leads_applyAlignment h hc (mem_of_select hselect)).imp
          fun d y _ hd => ?_)
        rintro e ⟨⟩
        exact hd

/-- Copying a mention keeps a context valid. -/
lemma leads_copyMention (h : x.Valid) (source : MentionId) :
    (copyMention source).Leads Extends x fun _ _ => True := by
  refine leads_get_bind ?_
  have hpush := h.pushMention
    { term := (x.mention source).term, leading := (x.mention source).leading
      trailing := (x.mention source).trailing, roleName := (x.mention source).roleName
      literal := (x.mention source).literal, player := (x.mention source).player
      playerByRoleName := (x.mention source).playerByRoleName } (h.player_mem source)
    fun _ hr => nomatch hr
  exact leads_extend_bind hpush (Leads.bind (leads_bind hpush.valid _) fun _ z hz _ =>
    leads_pure hz.valid.extends trivial)

end Compile

/-! ## Resolution and completion -/

/-- A phrase is plain or not without what is nested in it. -/
lemma Phrase.isPlain_bare (p : Phrase) : p.bare.IsPlain ↔ p.IsPlain := by
  cases p <;> exact Iff.rfl

/-- What is nested in phrases does not matter for their words. -/
lemma SameBare.isPlain {ps qs : List Phrase} (h : SameBare ps qs) (hps : ∀ p ∈ ps, p.IsPlain) :
    ∀ q ∈ qs, q.IsPlain := by
  intro q hq
  have hbare : q.bare ∈ ps.map Phrase.bare := h ▸ List.mem_map.2 ⟨q, hq, rfl⟩
  obtain ⟨p, hp, hpq⟩ := List.mem_map.1 hbare
  rw [← q.isPlain_bare, ← hpq, p.isPlain_bare]
  exact hps p hp

/-- Resolution and completion keep a context valid, and the clauses that come out are valid. -/
theorem completes_valid (options : MatchOptions) :
    Completes options Extends (fun x c => c.Valid x.vocabulary) none (fun _ => True) where
  refl h := h.valid.extends
  mono h hc := hc.grows h.grows
  bare {x c phrases} hbare hc := by
    refine hc.withPhrases (hbare.isPlain hc.isPlain) fun hne hnil => hne ?_
    rw [Clause.mentions, Clause.slots, hbare.mentions_eq, hnil]
    rfl
  flat h hc := leads_resolveFlat h.valid hc.here _
  copy m h := leads_copyMention h.valid m
  unbind m _ h := h.valid.unbind m
  extended {x c} side m hc := by
    cases side with
    | left =>
      refine hc.withPhrases (fun p hp => ?_) fun _ => List.cons_ne_nil _ _
      rcases List.mem_cons.1 hp with rfl | hp
      · exact trivial
      · exact hc.isPlain p hp
    | right =>
      refine hc.withPhrases (fun p hp => ?_) fun _ hnil => ?_
      · rcases List.mem_append.1 hp with hp | hp
        · exact hc.isPlain p hp
        · rw [List.mem_singleton.1 hp]
          exact trivial
      · rw [List.flatMap_append, List.append_eq_nil_iff] at hnil
        exact absurd hnil.2 (List.cons_ne_nil _ _)
  without {x c} m hnone hc :=
    { hc with
      isPlain := fun p hp => hc.isPlain p (List.mem_filter.1 hp).1
      mentions_ne_nil := fun f hf => by
        change f ∈ c.factType at hf
        rw [hnone] at hf
        cases hf }
  contraction _ hc := { hc with }

end FactModel
