import FactModel.Proofs.Definition.Creation
import FactModel.Proofs.Script.Spelling
import FactModel.Proofs.Session.Restating
set_option autoImplicit false

/-!
# The wording of readings

A clause that becomes a reading is written into a template, from which its words and mentions are
read back when other clauses are compared with it. Because clauses are well spelled nothing is lost.

## Main definitions

* `FactModel.Script.spelling` — the words of a clause, with a numbered placeholder for each mention.

## Main results

* `FactModel.Compile.text_of_makeReading` — a reading has the tokens of its clause.
* `FactModel.Script.spelled_and_read_back` — parsed clauses are well formed, and those without
  comparisons are read back from the templates that are made of them.
-/

namespace FactModel

open Attempt Compile Context

/-! ## The tokens of a reading -/

/-- The text of a reading is a template of the tokens of its clause. -/
lemma Compile.text_of_makeReading {x y : Context} {c made : Clause} {f : FactTypeId}
    {r : ReadingId} (h : (makeReading c f).perform x = (.ok (r, made), y)) :
    (y.vocabulary.reading r).text = Template.render (spelledTokens c.phrases 0) := by
  obtain ⟨tokens, refs, hparts, rfl, -, hvocabulary⟩ := perform_makeReading_eq_ok h
  rw [hvocabulary, Vocabulary.reading_pushReading, (assigns_of_readingParts hparts).tokens_eq]
  exact congrArg Reading.text (if_pos rfl)

/-! ## Clauses as they are written -/

namespace Script

/-- The words of phrases, with a placeholder for each mention, numbered from a number on. -/
def spelling : List Phrase → Nat → List Template.Token
  | [], _ => []
  | .word text :: ps, n => .word text :: spelling ps n
  | .mention _ :: ps, n => .place n :: spelling ps (n + 1)
  | .comparison .. :: ps, n => spelling ps n

/-- Taking a clause into a context keeps its wording. -/
lemma spelledTokens_adoptPhrases (ps : List Phrase) (n : Nat) (x : Context) :
    spelledTokens (adoptPhrases ps x).1 n = spelling ps n := by
  induction ps generalizing n x with
  | nil => rw [adoptPhrases]; rfl
  | cons p ps ih =>
    rw [adoptPhrases]
    cases p with
    | word text =>
      rw [spelling, ← ih n (adoptPhrase (.word text) x).2]
      change spelledTokens ((adoptPhrase (.word text) x).1 :: _) n = _
      rw [adoptPhrase]
      rfl
    | mention m =>
      rw [spelling, ← ih (n + 1) (adoptPhrase (.mention m) x).2]
      change spelledTokens ((adoptPhrase (.mention m) x).1 :: _) n = _
      rw [adoptPhrase]
      rfl
    | comparison operator left right =>
      rw [spelling, ← ih n (adoptPhrase (.comparison operator left right) x).2]
      change spelledTokens ((adoptPhrase (.comparison operator left right) x).1 :: _) n = _
      rw [adoptPhrase]
      rfl

/-- A word of a reading is read back from a template. -/
lemma IsReadingWord.isWord {s : String} (h : IsReadingWord s) : Template.IsWord s := by
  obtain ⟨first, rest, hs, hfirst, hrest, -⟩ := h.isSmallWord
  exact isWord_of_chars hs hfirst hrest

/-- The tokens of a well-spelled clause are read back, if there are not too many mentions. -/
lemma isPlain_spelling {ps : List Phrase} (hps : ∀ p ∈ ps, p.IsWellSpelled) {n : Nat}
    (hn : n + ps.length ≤ Template.placeLimit) : ∀ t ∈ spelling ps n, t.IsPlain := by
  induction ps generalizing n with
  | nil => exact fun _ ht => nomatch ht
  | cons p ps ih =>
    obtain ⟨hp, hrest⟩ := List.forall_mem_cons.1 hps
    rw [List.length_cons] at hn
    cases p with
    | word text =>
      have hword : IsReadingWord text := hp
      exact List.forall_mem_cons.2 ⟨hword.isWord, ih hrest (by omega)⟩
    | mention m =>
      refine List.forall_mem_cons.2 ⟨?_, ih hrest (by omega)⟩
      change n < Template.placeLimit
      omega
    | comparison operator left right => exact ih hrest (by omega)

/-- **Parsed clauses are well formed and survive templating.** In a script that can be read every
list of clauses, at any depth, is in the alphabet of the notation, and only its first clause is
joined to nothing. When a clause without comparisons becomes a reading, its words and numbered
placeholders are read back from the template. Placeholders have sixty-four bits, which bounds the
phrases of the clause.

**Proof sketch.** No word of the notation has blanks in it or looks like a placeholder, so the words
that are written into the template with one space between each two are the words that are read. -/
theorem spelled_and_read_back {source : String} {ds : List Declaration}
    (h : parse source = .ok ds) :
    ∀ d ∈ ds, ∀ l ∈ clauseLists d.clauses, IsWellJoined l ∧ ∀ c ∈ l, c.IsWellSpelled ∧
      (c.phrases.length ≤ Template.placeLimit →
        ∀ (x y z : Context) (f : FactTypeId) (r : ReadingId) (made : FactModel.Clause),
          (makeReading (adopt c x).1 f).perform y = (.ok (r, made), z) →
          Template.tokens (z.vocabulary.reading r).text = spelling c.phrases 0) := by
  intro d hd l hl
  obtain ⟨hjoined, hspelled⟩ := areWellFormed_of_parse h d hd l hl
  refine ⟨hjoined, fun c hc => ⟨hspelled c hc, fun hsize x y z f r made hmake => ?_⟩⟩
  have hphrases : (adopt c x).1.phrases = (adoptPhrases c.phrases x).1 := by
    cases c
    rw [adopt]
    rfl
  rw [text_of_makeReading hmake, hphrases, spelledTokens_adoptPhrases]
  exact Template.tokens_render (isPlain_spelling (hspelled c hc).phrase (by omega))

/-- A later reading of a fact type of two players is read back. -/
theorem spelled_and_read_back_director :
    let clause : Clause := { phrases := [.mention { term := "Company" }, .word "has",
      .word "director", .mention { term := "Person" }] }
    let x := ((Session.start {}).compileAll
      ["entity type Person; entity type Company; Person directs Company;"]).context
    ∃ r made z, (makeReading (adopt clause x).1 ⟨0⟩).perform ((enter [clause]).perform x).2 =
        (.ok (r, made), z) ∧
      Template.tokens (z.vocabulary.reading r).text =
        [.place 0, .word "has", .word "director", .place 1] := by
  intro clause x
  have hparse : parse "Company has director Person;" = .ok [.factType [clause]] := by
    rw [parse_ofList]
    rfl
  have hmake : ((makeReading (adopt clause x).1 ⟨0⟩).perform
      ((enter [clause]).perform x).2).1.isOk = true := by
    unfold x
    rw [Session.compileAll_cons, Session.compile_ofList, Session.compileAll_nil]
    decide +kernel
  rcases hrun : (makeReading (adopt clause x).1 ⟨0⟩).perform ((enter [clause]).perform x).2 with
    ⟨fault | ⟨r, made⟩, z⟩
  · rw [hrun] at hmake
    cases hmake
  · have hclause := (spelled_and_read_back hparse _ List.mem_cons_self _ List.mem_cons_self).2
      clause List.mem_cons_self
    exact ⟨r, made, z, rfl, hclause.2 (by decide) x _ z ⟨0⟩ r made hrun⟩

end Script

end FactModel
