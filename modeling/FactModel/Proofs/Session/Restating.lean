import FactModel.Proofs.Definition.Creation
import FactModel.Proofs.Matching.Candidates
import FactModel.Proofs.Script.Words
set_option autoImplicit false

/-!
# Stating a reading again

A clause that has created a fact type invokes this fact type from then on: its own reading matches
it at no cost, and no other reading does so.

## Main results

* `FactModel.Compile.Creates.rank_onto` — what the ranking of such a clause holds at no cost.
* `FactModel.Session.select_restated` — a clause that created a fact type, stated again after the
  declaration, invokes that fact type.
-/

namespace FactModel

open Attempt Compile Context

/-! ## Rankings after a fact type was created -/

/-- A clause without comparisons has no more slots than phrases. -/
lemma length_slots_le {ps : List Phrase} (h : ∀ p ∈ ps, p.isStated) :
    (ps.flatMap Phrase.slots).length ≤ ps.length := by
  induction ps with
  | nil => exact Nat.le_refl _
  | cons p ps ih =>
    obtain ⟨hp, hps⟩ := List.forall_mem_cons.1 h
    have hone : p.slots.length ≤ 1 := by
      cases p with
      | word text => exact Nat.zero_le _
      | slot s => exact Nat.le_refl _
      | comparison operator left right => cases hp
    rw [List.flatMap_cons, List.length_append, List.length_cons]
    have hrest := ih hps
    omega

/-- A vocabulary without further object types has all terms that a context refers to. -/
lemma Context.Valid.completedBy {x : Context} (hx : x.Valid) {w : Vocabulary}
    (hgrows : x.vocabulary.Grows w) (hw : w.WellFormed)
    (hsame : w.objectTypeIds = x.vocabulary.objectTypeIds) : x.CompletedBy w := by
  refine ⟨hgrows, hw, fun term hterm _ => Option.eq_none_iff_forall_ne_some.2 ?_⟩
  intro t ht
  obtain ⟨hmem, hname⟩ := (hw.findObjectType?_iff term t).1 ht
  rw [hsame] at hmem
  rw [hgrows.nameOf_eq hmem] at hname
  have hsome := (hx.consistent.findObjectType?_iff term t).2 ⟨hmem, hname⟩
  rw [hterm] at hsome
  cases hsome

namespace Compile.Creates

variable {x : Context} {c : Clause} {f : FactTypeId} {r : ReadingId} {w : Vocabulary}

/-- The tokens of the reading are spelled by the phrases of the clause. -/
lemma tokens_eq_spelledTokens (h : Creates x c f r w) (hplain : ∀ p ∈ c.phrases, p.IsPlain)
    (hsize : c.phrases.length ≤ Template.placeLimit) :
    (w.reading r).tokens = spelledTokens c.phrases 0 := by
  refine h.tokens_eq.trans (Template.tokens_render (isPlain_spelledTokens hplain ?_))
  rw [Nat.zero_add]
  exact (length_slots_le h.isStated).trans hsize

/-- The clause matches its reading at no cost. -/
lemma align_onto (h : Creates x c f r w) (hplain : ∀ p ∈ c.phrases, p.IsPlain)
    (hsize : c.phrases.length ≤ Template.placeLimit) (options : MatchOptions) :
    ∃ a, (x.onto w).align options c r = .ok a ∧ a.cost = 0 :=
  align_of_voices h.isStated h.isNegative_iff.1 (h.tokens_eq_spelledTokens hplain hsize) h.voices

/-- The new fact type is reached: its first role is played by the first player. -/
lemma isReached_onto (h : Creates x c f r w) (hw : w.WellFormed) (hmentions : c.mentions ≠ [])
    (options : MatchOptions) : (x.onto w).isReached options c f := by
  have hvoices := h.voices
  unfold isReached
  cases hslots : c.slots with
  | nil =>
    rw [Clause.mentions, hslots] at hmentions
    exact absurd rfl hmentions
  | cons first rest =>
    rw [hslots] at hvoices
    obtain ⟨ref, refs, hvoice, -, hrefs⟩ := List.forall₂_cons_left_iff.1 hvoices
    have hrole : ref.role ∈ (w.factType f).roles :=
      h.factType_eq ▸ hw.ref_mem_roles h.reading_mem (hrefs ▸ List.mem_cons_self)
    dsimp only
    rw [hvoice.player_eq, Option.any_some, Bool.or_eq_true]
    refine .inr (List.any_eq_true.2 ⟨ref.role, hrole, List.contains_iff_mem.2 ?_⟩)
    exact Vocabulary.mem_relatedTypes_self _ _

/-- No reading that was there before matches the clause without a step between types.

**Proof sketch.** It would have matched before too, where players stand only for themselves; but
then the clause would have invoked it. -/
lemma not_align_old (h : Creates x c f r w) (hx : x.Valid) (hmentions : c.mentions ≠ [])
    {options : MatchOptions} {a : Alignment} (hold : a.reading ∈ x.vocabulary.readingIds)
    (hstated : a.reading ∈ (x.onto w).statedReadings c)
    (ha : (x.onto w).align options c a.reading = .ok a) :
    ¬∀ p ∈ a.placements, p.commonSupertype = none := by
  intro hsteps
  have hexact := align_exactTypes_of_onto ha hsteps hx.consistent h.retains.toGrows hold
  have hperm := x.perm_rank_reachedReadings hx.consistent.toWellFormed { exactTypes := true }
    h.comparison_eq
  rw [reachedReadings_of_exactTypes rfl hmentions, h.unmatched] at hperm
  have hmem : a.reading ∈ x.statedReadings c := by
    refine List.mem_filter.2 ⟨hold, ?_⟩
    have hreading : w.reading a.reading = x.vocabulary.reading a.reading :=
      h.retains.reading_eq hold
    have hf := hx.consistent.reading_factType_mem hold
    have hgrows := h.retains.factType hf
    have hkind : (w.factType (x.vocabulary.reading a.reading).factType).isStated =
        (x.vocabulary.factType (x.vocabulary.reading a.reading).factType).isStated := by
      rw [FactType.isStated, hgrows.kind_eq, FactType.isStated]
    have harity : (w.factType (x.vocabulary.reading a.reading).factType).arity =
        (x.vocabulary.factType (x.vocabulary.reading a.reading).factType).arity :=
      congrArg List.length (h.retains.roles_eq _ hf)
    have hthere := (List.mem_filter.1 hstated).2
    change ((w.factType (w.reading a.reading).factType).isStated &&
      (w.factType (w.reading a.reading).factType).arity == c.mentions.length) = true at hthere
    rwa [hreading, hkind, harity] at hthere
  have hnone := hperm.symm.subset (List.mem_filterMap.2
    ⟨a.reading, hmem, toOption_align_eq_some.2 hexact⟩)
  exact absurd hnone List.not_mem_nil

/-- At no cost the ranking of the clause holds its reading, and none of another fact type. -/
theorem rank_onto (h : Creates x c f r w) (hx : x.Valid) (hw : w.WellFormed)
    (hplain : ∀ p ∈ c.phrases, p.IsPlain) (hmentions : c.mentions ≠ [])
    (hsize : c.phrases.length ≤ Template.placeLimit) (options : MatchOptions) :
    (∃ a ∈ ((x.onto w).rank options c).alignments, a.reading = r ∧ a.cost = 0) ∧
      ∀ a ∈ ((x.onto w).rank options c).alignments, a.cost = 0 → a.factType = f := by
  have hperm := (x.onto w).perm_rank_reachedReadings hw options h.comparison_eq
  constructor
  · obtain ⟨a, ha, hcost⟩ := h.align_onto hplain hsize options
    have hreached : r ∈ (x.onto w).reachedReadings options c := by
      refine List.mem_filter.2 ⟨List.mem_filter.2 ⟨h.reading_mem, ?_⟩, ?_⟩
      · change ((w.factType (w.reading r).factType).isStated &&
          (w.factType (w.reading r).factType).arity == c.mentions.length) = true
        rw [h.factType_eq, h.arity_eq, FactType.isStated, h.kind_eq]
        simp
      · change (x.onto w).isReached options c (w.reading r).factType = true
        rw [h.factType_eq]
        exact h.isReached_onto hw hmentions options
    refine ⟨a, hperm.symm.subset (List.mem_filterMap.2 ⟨r, hreached, ?_⟩), ?_, hcost⟩
    · exact toOption_align_eq_some.2 ha
    · exact reading_of_align ha
  · intro a ha hcost
    obtain ⟨q, hq, halign⟩ := List.mem_filterMap.1 (hperm.subset ha)
    have halign := toOption_align_eq_some.1 halign
    obtain rfl := reading_of_align halign
    have hstated := (List.mem_filter.1 hq).1
    rcases h.reading_cases _ (List.mem_filter.1 hstated).1 with heq | hold
    · have hfactType : a.factType = (w.reading a.reading).factType :=
        (align_eq_ok_iff.1 halign).2.2.2.1
      rw [hfactType, heq, h.factType_eq]
    · have hverbatim := (Alignment.cost_eq_zero_iff.1 hcost).2
      exact absurd (fun p hp => (hverbatim p hp).supertype)
        (h.not_align_old hx hmentions hold hstated halign)

/-- Over the vocabulary with the new fact type the clauses of the declaration can be entered
again. -/
lemma completedBy (h : Creates x c f r w) (hx : x.Valid) (hw : w.WellFormed) : x.CompletedBy w :=
  hx.completedBy h.retains.toGrows hw h.objectTypeIds_eq

end Compile.Creates

/-! ## After the declaration -/

/-- A single clause that is entered, as it is then. -/
lemma Compile.perform_enter_singleton {x y : Context} {clause : Script.Clause} {cs : List Clause}
    (hx : x.Valid) (h : (enter [clause]).perform x = (.ok cs, y)) :
    cs = [(adopt clause x).1] := by
  obtain ⟨-, hcs⟩ := (leads_enter hx [clause]).of_perform h
  rw [hcs, adoptAll, adoptAll]
  rfl

/-- A flat clause that has been taken into a context is flat, and no mention is in it twice. -/
lemma Script.Clause.IsFlat.adopt {clause : Script.Clause} (h : clause.IsFlat) (x : Context) :
    (Context.adopt clause x).1.IsFlat ∧ (Context.adopt clause x).1.mentions.Nodup ∧
      (Context.adopt clause x).1.phrases.length = clause.phrases.length := by
  obtain ⟨phrases, qualifiers, certainty, conjunction⟩ := clause
  obtain ⟨hnumbered, hlength⟩ := numbered_adoptPhrases h x
  rw [Context.adopt]
  exact ⟨hnumbered.nested_eq, hnumbered.nodup, hlength⟩

/-- A clause with a mention has mentions when it has been taken into a context. -/
lemma Script.Clause.mentions_adopt_ne_nil {clause : Script.Clause}
    (h : ∃ m, .mention m ∈ clause.phrases) (x : Context) :
    (Context.adopt clause x).1.mentions ≠ [] := by
  obtain ⟨phrases, qualifiers, certainty, conjunction⟩ := clause
  obtain ⟨m, hm⟩ := h
  have hslots := slots_adoptPhrases_ne_nil ⟨_, hm, fun _ => Script.Phrase.noConfusion⟩ x
  rw [Context.adopt]
  exact fun hnil => hslots (List.map_eq_nil_iff.1 hnil)

/-- One clause has nothing in front of a `where`. -/
lemma Compile.derivationSplit?_singleton (clause : Script.Clause) :
    derivationSplit? [clause] = none := by
  rw [derivationSplit?, List.findIdx?_cons]
  split <;> rfl

/-- A declaration that creates a fact type by one flat clause: the clause is entered, and then it
creates the fact type. -/
lemma Compile.creates_declaration {x y : Context} (hx : x.Valid) (contraction : Bool)
    {clause : Script.Clause} (hplain : clause.IsPlain) (hflat : clause.IsFlat) {f : FactTypeId}
    {reports : List ClauseReport}
    (h : (declaration contraction (.factType [clause])).perform x =
      (.ok (.factType f true reports), y)) :
    ∃ z r, (enter [clause]).perform x = (.ok [(adopt clause x).1], z) ∧ z.Valid ∧
      (adopt clause x).1.IsAdopted ∧ Creates z (adopt clause x).1 f r y.vocabulary ∧
      reports.map (·.reading) = [some r] := by
  rw [declaration, derivationSplit?_singleton] at h
  dsimp only at h
  rw [← bind_pure_comp] at h
  obtain ⟨result, y', hdeclare, hpure⟩ := perform_bind_eq_ok.1 h
  obtain ⟨cs, z, henter, hrest⟩ := perform_bind_eq_ok.1 hdeclare
  obtain rfl := perform_enter_singleton hx henter
  obtain ⟨⟨g, created, ds⟩, y'', hdefine, hreports⟩ := perform_bind_eq_ok.1 hrest
  rw [perform_get_bind] at hreports
  cases hreports
  cases hpure
  have hz := ((leads_enter hx [clause]).of_perform henter).1.valid
  have hadopted := (isAdopted_adopt clause x hplain).here
  obtain ⟨hflat', hnodup, -⟩ := hflat.adopt x
  obtain ⟨r, hcreates, hreading⟩ := creates_defineFactType hz hflat' hnodup hadopted hdefine
  refine ⟨z, r, henter, hz, hadopted, hcreates, ?_⟩
  rw [List.map_map]
  exact hreading

namespace Session

/-- **A new reading matches the clause it was made of.** Let a declaration of one clause that a
script contains, without nested clauses, create a fact type after any scripts. Entered again over
the vocabulary that results, the clause finds the new reading at no cost, with no words absorbed, no
adjectives left over, no step between types and no `not` passed over; and what is selected for it
invokes the new fact type. Placeholders have sixty-four bits, which bounds the phrases of the
clause.

**Proof sketch.** The clause becomes a template that its words and mentions fit as they stand. Had a
reading of another fact type matched at no cost too, then it would have matched in the declaration,
where players stand only for themselves, and no fact type would have been created. -/
theorem select_restated (settings : Settings) (scripts : List String) {source : String}
    {ds : List Script.Declaration} {clause : Script.Clause} {f : FactTypeId}
    {reports : List ClauseReport} (hparse : Script.parse source = .ok ds)
    (hclause : .factType [clause] ∈ ds) (hflat : clause.IsFlat)
    (hmention : ∃ m, .mention m ∈ clause.phrases)
    (hsize : clause.phrases.length ≤ Template.placeLimit)
    (hdeclare : (((start settings).compileAll scripts).declare (.factType [clause])).1 =
      .ok (.factType f true reports)) :
    let s := (((start settings).compileAll scripts).declare (.factType [clause])).2
    ∃ c x, (Compile.enter [clause]).perform s.context = (.ok [c], x) ∧
      ∃ r ∈ (s.vocabulary.factType f).readings, reports.map (·.reading) = [some r] ∧
        ∀ options,
          (∃ a ∈ (x.rank options c).alignments, a.reading = r ∧ a.cost = 0 ∧ a.negation = none ∧
            ∀ p ∈ a.placements, p.IsVerbatim) ∧
          ∃ a, x.select c (x.rank options c) = .ok (some a) ∧ a.factType = f := by
  intro s
  have hconsistent := consistent_compileAll (consistent_start settings) scripts
  have hplain := Script.isPlain_of_parse hparse _ hclause clause List.mem_cons_self
  have hs : s = (((start settings).compileAll scripts).declare (.factType [clause])).2 := rfl
  generalize (start settings).compileAll scripts = s₀ at hconsistent hdeclare hs
  have hvalid := valid_context hconsistent
  obtain ⟨y, hperform, hafter⟩ := exists_of_declare hdeclare
  have hcontext : s.context = s₀.context.onto y.vocabulary := by
    rw [hs, hafter]
    rfl
  have hvocabulary : s.vocabulary = y.vocabulary := by
    rw [hs, hafter]
  obtain ⟨z, r, henter, hz, hadopted, hcreates, hreports⟩ :=
    creates_declaration hvalid s₀.settings.contraction hplain hflat hperform
  have hy : y.vocabulary.Consistent := by
    rw [← hvocabulary, hs]
    exact consistent_declare hconsistent (Script.arePlain_iff.2
      (Script.isPlain_of_parse hparse _ hclause))
  have hagain := perform_enter_over hvalid henter (hcreates.completedBy hz hy.toWellFormed)
  have hmentions : (adopt clause s₀.context).1.mentions ≠ [] :=
    Script.Clause.mentions_adopt_ne_nil hmention _
  have hlength := (hflat.adopt s₀.context).2.2
  rw [hcontext, hvocabulary]
  refine ⟨_, _, hagain, r, hy.mem_readings.2 ⟨hcreates.reading_mem, hcreates.factType_eq⟩, hreports,
    fun options => ?_⟩
  obtain ⟨⟨a, ha, hreading, hcost⟩, hall⟩ := hcreates.rank_onto hz hy.toWellFormed
    hadopted.isPlain hmentions (hlength ▸ hsize) options
  obtain ⟨hnegation, hverbatim⟩ := Alignment.cost_eq_zero_iff.1 hcost
  obtain ⟨b, hselect, hfactType, -⟩ := select_of_cost_eq_zero ⟨a, ha, hcost⟩ hall
  exact ⟨⟨a, ha, hreading, hcost, hnegation, hverbatim⟩, b, hselect, hfactType⟩

/-- A fact type of two players is invoked by the clause that created it. -/
theorem select_restated_directs :
    let s := (((start {}).compileAll ["entity type Person; entity type Company;"]).declare
      (.factType [{ phrases := [.mention { term := "Person" }, .word "directs",
        .mention { term := "Company" }] }])).2
    ∃ c x, (Compile.enter [{ phrases := [.mention { term := "Person" }, .word "directs",
        .mention { term := "Company" }] }]).perform s.context = (.ok [c], x) ∧
      ∃ a, x.select c (x.rank {} c) = .ok (some a) ∧ a.factType = ⟨0⟩ := by
  have hparse : Script.parse "Person directs Company;" =
      .ok [.factType [{ phrases := [.mention { term := "Person" }, .word "directs",
        .mention { term := "Company" }] }]] := by
    rw [Script.parse_ofList]
    rfl
  have hdeclare : (((start {}).compileAll ["entity type Person; entity type Company;"]).declare
      (.factType [{ phrases := [.mention { term := "Person" }, .word "directs",
        .mention { term := "Company" }] }])).1 =
      .ok (.factType ⟨0⟩ true [⟨"Person directs Company", some ⟨0⟩, some ⟨0⟩, 0, none⟩]) := by
    rw [compileAll_cons, compile_ofList, compileAll_nil]
    decide +kernel
  obtain ⟨c, x, henter, r, -, -, hall⟩ := select_restated {}
    ["entity type Person; entity type Company;"] hparse List.mem_cons_self
    (by simp [Script.Clause.IsFlat, Script.Phrase.IsFlat]) ⟨_, List.mem_cons_self⟩ (by decide)
    hdeclare
  exact ⟨c, x, henter, (hall {}).2⟩

end Session

end FactModel
