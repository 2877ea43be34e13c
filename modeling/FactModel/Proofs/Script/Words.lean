import FactModel.Proofs.Peg.Yields
import FactModel.Proofs.Vocabulary.Template
import FactModel.Script.Parser
set_option autoImplicit false

/-!
# Words of parsed clauses

The notation has no words with blanks in them or that look like placeholders. So whatever a script
says, the words and the operators of its clauses can be written into a template and read back.

## Main definitions

* `FactModel.Script.Clause.IsPlain` — the words and operators of a clause and of the clauses nested
  in it are words of templates.
* `FactModel.Script.Declaration.clauses` — the clauses of a declaration.

## Main results

* `FactModel.Script.isPlain_of_parse` — all clauses of a script that can be read are plain.
-/

namespace FactModel.Script

/-! ## Clauses -/

mutual

/-- The words and operators of all clauses under a mention are words of templates. -/
def Mention.IsPlain : Mention → Prop
  | ⟨_, _, _, _, _, _, nested⟩ => ArePlain nested

/-- The words and operators under an operand are words of templates. -/
def Operand.IsPlain : Operand → Prop
  | .mention m => m.IsPlain
  | .literal _ => True

/-- The words and operators of a phrase, at any depth, are words of templates. -/
def Phrase.IsPlain : Phrase → Prop
  | .word text => Template.IsWord text
  | .mention m => m.IsPlain
  | .comparison operator left right => Template.IsWord operator ∧ left.IsPlain ∧ right.IsPlain

/-- The words and operators of phrases, at any depth, are words of templates. -/
def Phrase.ArePlain : List Phrase → Prop
  | [] => True
  | p :: ps => p.IsPlain ∧ Phrase.ArePlain ps

/-- The words and operators of a clause, at any depth, are words of templates. -/
def Clause.IsPlain : Clause → Prop
  | ⟨phrases, _, _, _⟩ => Phrase.ArePlain phrases

/-- The words and operators of clauses, at any depth, are words of templates. -/
def ArePlain : List Clause → Prop
  | [] => True
  | c :: cs => c.IsPlain ∧ ArePlain cs

end

/-- Clauses are plain if each of them is. -/
lemma arePlain_iff {cs : List Clause} : ArePlain cs ↔ ∀ c ∈ cs, c.IsPlain := by
  induction cs with
  | nil => simp [ArePlain]
  | cons c cs ih => simp [ArePlain, ih]

/-- Phrases are plain if each of them is. -/
lemma Phrase.arePlain_iff {ps : List Phrase} : Phrase.ArePlain ps ↔ ∀ p ∈ ps, p.IsPlain := by
  induction ps with
  | nil => simp [Phrase.ArePlain]
  | cons p ps ih => simp [Phrase.ArePlain, ih]

/-- A clause is plain if its phrases are. -/
lemma Clause.isPlain_iff {c : Clause} : c.IsPlain ↔ Phrase.ArePlain c.phrases := by
  cases c
  rw [Clause.IsPlain]

open Peg Peg.Expr

/-! ## Characters of words -/

/-- The characters of words are printing characters of the seven-bit set. -/
lemma toNat_of_isIdentChar {c : Char} (h : isIdentChar c) : 0x20 < c.toNat ∧ c.toNat < 0x85 := by
  have hval : c.toNat = c.val.toNat := rfl
  have halpha : c.isAlpha = (c.isUpper || c.isLower) := rfl
  have hupper : c.isUpper = decide (c.val ≥ 'A'.val ∧ c.val ≤ 'Z'.val) := rfl
  have hlower : c.isLower = (decide (c.val ≥ 'a'.val) && decide (c.val ≤ 'z'.val)) := rfl
  simp only [isIdentChar, isWordChar, Char.isAlphanum, halpha, hupper, hlower,
    Char.isDigit, Bool.or_eq_true, Bool.and_eq_true, decide_eq_true_eq, beq_iff_eq,
    UInt32.le_iff_toNat_le, ge_iff_le] at h
  rcases h with ((((h | h) | h) | rfl) | rfl)
  · have hA : 'A'.val.toNat = 65 := rfl
    have hZ : 'Z'.val.toNat = 90 := rfl
    omega
  · have ha : 'a'.val.toNat = 97 := rfl
    have hz : 'z'.val.toNat = 122 := rfl
    omega
  · have hzero : '0'.val.toNat = 48 := rfl
    have hnine : '9'.val.toNat = 57 := rfl
    omega
  · decide
  · decide

/-- A text of a small letter and then characters of words is a word of templates. -/
lemma isWord_of_chars {s : String} {first : Char} {rest : List Char} (hs : s.toList = first :: rest)
    (hfirst : first.isLower) (hrest : ∀ c ∈ rest, isIdentChar c) : Template.IsWord s := by
  have hident : isIdentChar first := by
    have halpha : first.isAlpha = (first.isUpper || first.isLower) := rfl
    simp [isIdentChar, isWordChar, Char.isAlphanum, halpha, hfirst]
  refine ⟨⟨?_, fun c hc => ?_⟩, ?_⟩
  · rintro rfl
    cases hs
  · have hc' : isIdentChar c := by
      rw [hs] at hc
      rcases List.mem_cons.1 hc with rfl | hc
      · exact hident
      · exact hrest c hc
    obtain ⟨hlow, hhigh⟩ := toNat_of_isIdentChar hc'
    exact Text.isBlank_eq_false hlow hhigh
  · rw [hs, Template.place?]
    rintro more ⟨⟩
    exact absurd hfirst (by decide)

/-! ## Words and operators -/

variable {N : List Clause → Prop}

/-- What stands in a word yields a word. -/
lemma yields_wordBody : wordBody.Yields N Template.IsWord := by
  have hmany : (Expr.many (.satisfy isWordChar <|> (the "-" *> .satisfy Char.isAlphanum)) :
      Form (List Unit)).Spells fun cs => ∀ c ∈ cs, isIdentChar c := by
    refine spells_many (spells_either (spells_imp (spells_satisfy _) ?_)
      (spells_map (spells_imp (spells_pair (spells_text _) (spells_satisfy _)) ?_))) ?_ ?_
    · rintro _ ⟨x, rfl, hx⟩ c hc
      rw [List.mem_singleton.1 hc, isIdentChar, hx, Bool.true_or]
    · rintro _ ⟨as, bs, rfl, rfl, x, rfl, hx⟩ c hc
      rcases List.mem_append.1 hc with hc | hc
      · rw [List.mem_singleton.1 hc]
        decide
      · rw [List.mem_singleton.1 hc, isIdentChar, isWordChar, hx]
        rfl
    · exact fun _ hc => nomatch hc
    · intro as bs has hbs c hc
      exact (List.mem_append.1 hc).elim (has c) (hbs c)
  refine fun _ _ _ hself _ _ _ _ s _ hrun => ?_
  obtain ⟨as, bs, hs, ⟨x, rfl, hx⟩, hbs⟩ := yields_word (N := N) Rule.wordBody
    (spells_map (spells_pair (spells_satisfy Char.isLower) hmany)) _ _ _ hself _ _ _ _ s _ hrun
  exact isWord_of_chars hs hx hbs

/-- A word yields a word. -/
lemma yields_wordRule : word.Yields N Template.IsWord :=
  yields_rule _ _ (yields_map (yields_pair (yields_true _) yields_wordBody) fun _ h => h.2)

/-- The signs of comparisons. -/
def comparators : List String :=
  ["<=", ">=", "<>", "!=", "=", "<", ">"]

/-- The operators are words. -/
lemma isWord_comparators : ∀ s ∈ comparators, Template.IsWord s := by
  have hchecks : ∀ s ∈ comparators, s ≠ "" ∧ s.toList.all (! Text.isBlank ·) = true ∧
      Template.place? s.toList = none := by
    decide
  intro s hs
  obtain ⟨hne, hblank, hplace⟩ := hchecks s hs
  exact ⟨⟨hne, fun c hc => by simpa using List.all_eq_true.1 hblank c hc⟩, hplace⟩

/-- An operator yields a word. -/
lemma yields_comparator : comparator.Yields N Template.IsWord := by
  have hthe : ∀ s ∈ comparators, (the s : Form Unit).Spells (· ∈ comparators.map String.toList) :=
    fun s hs => spells_imp (spells_text _) fun cs hcs => hcs ▸ List.mem_map.2 ⟨s, hs, rfl⟩
  have hspells : (the "<=" <|> the ">=" <|> the "<>" <|> the "!=" <|> the "=" <|> the "<" <|>
      the ">" : Form Unit).Spells (· ∈ comparators.map String.toList) := by
    refine spells_either (hthe _ ?_) (spells_either (hthe _ ?_) (spells_either (hthe _ ?_)
      (spells_either (hthe _ ?_) (spells_either (hthe _ ?_) (spells_either (hthe _ ?_)
        (hthe _ ?_)))))) <;> decide
  refine fun _ _ _ hself _ _ _ _ s _ hrun => ?_
  have hs := yields_word (N := N) Rule.comparator hspells _ _ _ hself _ _ _ _ s _ hrun
  obtain ⟨t, ht, hst⟩ := List.mem_map.1 hs
  rw [← String.toList_inj.1 hst]
  exact isWord_comparators t ht

/-! ## The grammar -/

/-- Nested clauses yield plain ones if they are assumed to. -/
lemma yields_nested : nested.Yields ArePlain ArePlain :=
  yields_rule _ _ (yields_map (yields_pair (yields_map (yields_pair (yields_true _) yields_recur)
    fun _ h => h.2) (yields_true _)) fun _ h => h.1)

/-- A reference yields a plain mention. -/
lemma yields_reference : reference.Yields ArePlain Mention.IsPlain := by
  refine yields_rule _ _ (yields_map (yields_pair (yields_true _) (yields_pair (yields_true _)
    (yields_pair (yields_true _) (yields_pair (yields_true _) (yields_pair (yields_true _)
      (yields_pair (yields_true _) (yields_optional yields_nested))))))) ?_)
  rintro ⟨q, l, t, tr, r, lit, n⟩ h
  change ArePlain (n.getD [])
  cases n with
  | none => exact trivial
  | some cs => exact h.2.2.2.2.2.2 cs rfl

/-- A side of a comparison yields a plain one. -/
lemma yields_operand : operand.Yields ArePlain Operand.IsPlain :=
  yields_either (yields_map yields_reference fun _ h => h)
    (yields_map (yields_true _) fun _ _ => trivial)

/-- A comparison yields a plain phrase. -/
lemma yields_comparison : comparison.Yields ArePlain Phrase.IsPlain :=
  yields_rule _ _ (yields_map (yields_pair yields_operand (yields_pair yields_comparator
    yields_operand)) fun _ h => ⟨h.2.1, h.1, h.2.2⟩)

/-- A list of one item and more has a property of all items. -/
lemma yields_cons {α : Type} {e : Form α} {d : Form (List α)} {P : α → Prop}
    (he : e.Yields N P) (hd : d.Yields N fun as => ∀ a ∈ as, P a) :
    ((fun (first, more) => first :: more) <$> .pair e d : Form (List α)).Yields N
      fun as => ∀ a ∈ as, P a := by
  refine yields_map (yields_pair he hd) ?_
  rintro ⟨first, more⟩ h a ha
  rcases List.mem_cons.1 ha with rfl | ha
  · exact h.1
  · exact h.2 a ha

/-- The phrases of a clause are plain. -/
lemma yields_phrases : phrases.Yields ArePlain fun ps => ∀ p ∈ ps, p.IsPlain := by
  have hphrase : (Phrase.mention <$> reference <|> Phrase.word <$> word : Form Phrase).Yields
      ArePlain Phrase.IsPlain :=
    yields_either (yields_map yields_reference fun _ h => h)
      (yields_map yields_wordRule fun _ h => h)
  exact yields_rule _ _ (yields_cons hphrase (yields_many hphrase))

/-- A clause yields a plain one. -/
lemma yields_clause : clause.Yields ArePlain Clause.IsPlain := by
  refine yields_rule _ _ (yields_map (yields_pair (yields_true _) (yields_pair
    (yields_either (yields_map yields_comparison ?_) yields_phrases) (yields_true _))) ?_)
  · intro p hp q hq
    rwa [List.mem_singleton.1 hq]
  · rintro ⟨certainty, phrases, qualifiers⟩ h
    exact Clause.isPlain_iff.2 (Phrase.arePlain_iff.2 h.2.1)

/-- A clause with its conjunction yields a plain one. -/
lemma yields_joinedClause : joinedClause.Yields ArePlain Clause.IsPlain := by
  refine yields_map (yields_pair (yields_true _) yields_clause) ?_
  rintro ⟨conjunction, next⟩ h
  have hphrases : Phrase.ArePlain next.phrases := Clause.isPlain_iff.1 h.2
  exact Clause.isPlain_iff.2 hphrases

/-- A list of clauses yields plain ones if what is nested does. -/
lemma yields_clauseList : clauseList.Yields ArePlain ArePlain := by
  have hlist := yields_rule (R := Rule) Rule.clauseList .plain
    (yields_cons yields_clause (yields_many yields_joinedClause))
  exact fun blanks self start hself m c attempts after cs rest hrun =>
    arePlain_iff.2 (hlist blanks self start hself m c attempts after cs rest hrun)

/-- The clauses of a declaration. -/
def Declaration.clauses : Declaration → List Clause
  | .entityType _ | .valueType _ | .subtype _ _ => []
  | .factType clauses | .objectification _ clauses | .query clauses => clauses

/-- A declaration yields plain clauses. -/
lemma yields_declaration : declaration.Yields ArePlain fun d => ArePlain d.clauses := by
  have hclosed : ∀ mark, (clauseList <* the mark : Form (List Clause)).Yields ArePlain ArePlain :=
    fun mark => yields_map (yields_pair yields_clauseList (yields_true _)) fun _ h => h.1
  have hnone : ∀ {α : Type} (e : Form α) (f : α → Declaration), (∀ a, (f a).clauses = []) →
      (f <$> e : Form Declaration).Yields ArePlain fun d => ArePlain d.clauses := by
    intro α e f hf
    refine yields_map (yields_true _) fun a _ => ?_
    rw [hf]
    exact trivial
  refine yields_either (yields_rule _ _ (hnone _ _ fun _ => rfl)) (yields_either
    (yields_rule _ _ (hnone _ _ fun _ => rfl))
    (yields_either (yields_rule _ _ (hnone _ _ fun _ => rfl))
      (yields_either ?_ (yields_either ?_ ?_))))
  · exact yields_rule _ _ (yields_map (yields_pair (yields_true _) (hclosed ";")) fun _ h => h.2)
  · exact yields_rule _ _ (yields_map (hclosed "?") fun _ h => h)
  · exact yields_rule _ _ (yields_map (hclosed ";") fun _ h => h)

/-- A script yields declarations of plain clauses. -/
lemma yields_script : script.Yields ArePlain fun ds => ∀ d ∈ ds, ArePlain d.clauses := by
  have hmany : (the "" *> .many declaration : Form (List Declaration)).Yields ArePlain
      fun ds => ∀ d ∈ ds, ArePlain d.clauses :=
    yields_map (yields_pair (yields_true _) (yields_many yields_declaration)) fun _ h => h.2
  exact yields_rule _ _ (yields_map (yields_pair hmany (yields_true _)) fun _ h => h.1)

/-- **Parsed words are plain.** Every word and every operator in the clauses of a script that can be
read is a word of templates, also in nested clauses.

**Proof sketch.** The nonterminal that may refer to itself yields clauses, so by induction on its
depth they are plain if the clauses nested in them are; every other rule yields what its parts
yield. Words are spelled with characters that are neither blank nor braces. -/
theorem isPlain_of_parse {source : String} {ds : List Declaration} (h : parse source = .ok ds) :
    ∀ d ∈ ds, ∀ c ∈ d.clauses, c.IsPlain := by
  unfold parse at h
  split at h
  · next declarations _ hread =>
    cases h
    have hself := yields_fixpoint (R := Rule) yields_clauseList blanks (source.toList.length + 1)
    have hds := yields_script blanks _ 0 hself _ _ _ _ _ _ hread
    exact fun d hd => arePlain_iff.1 (hds d hd)
  · cases h
  · cases h

end FactModel.Script
