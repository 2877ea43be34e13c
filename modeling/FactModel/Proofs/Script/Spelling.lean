import FactModel.Proofs.Peg.DeadEnds
import FactModel.Proofs.Script.Words
set_option autoImplicit false

/-!
# The spelling of parsed clauses

What a script says is spelled in the alphabet of the notation: words of readings, terms, adjectives
and texts each have a form of their own, and each list of clauses begins with one that is not joined
to anything.

Words that join clauses are no words of a reading. The notation compares whole words only, and so
takes the first word of `and- Name` for an adjective. Where nothing but the hyphen follows, as in
`and-`, it would even take it for a word of the reading; but no text goes on with such a hyphen.

## Main definitions

* `FactModel.Script.IsReadingWord`, `FactModel.Script.IsTerm`, `FactModel.Script.IsAdjective` — the
  forms of words, terms and adjectives.
* `FactModel.Script.Clause.IsWellSpelled` — a clause in the alphabet of the notation.
* `FactModel.Script.IsWellJoined` — a list of clauses, each joined to the one before it.
* `FactModel.Script.clauseLists` — a list of clauses and the lists nested in it, at any depth.

## Main results

* `FactModel.Script.areWellFormed_of_parse` — all clauses of a script that can be read are well
  spelled and well joined.
-/

namespace FactModel

/-! ## Forms -/

namespace Script

/-- The words that join clauses or qualify them. -/
def keywords : List String :=
  ["and", "or", "where", "that", "who", "maybe"]

/-- A small letter, then letters, digits, underscores and hyphens, no hyphen at the end. -/
def IsSmallWord (s : String) : Prop :=
  ∃ first rest, s.toList = first :: rest ∧ first.isLower ∧ (∀ c ∈ rest, isIdentChar c) ∧
    s.toList.getLast? ≠ some '-'

/-- A word of a reading: a small word that neither joins clauses nor qualifies them. -/
structure IsReadingWord (s : String) : Prop where
  isSmallWord : IsSmallWord s
  not_keyword : s ∉ keywords

/-- An adjective: small words with one space between each two, one word at least. -/
def IsAdjective (s : String) : Prop :=
  ∃ ws, ws ≠ [] ∧ s = Text.unwords ws ∧ ∀ w ∈ ws, IsSmallWord w

/-- A capital letter, then letters, digits and underscores. -/
def IsCapitalWord (s : String) : Prop :=
  ∃ first rest, s.toList = first :: rest ∧ first.isUpper ∧ ∀ c ∈ rest, isWordChar c

/-- A term: capitalised words with one space between each two, one word at least. -/
def IsTerm (s : String) : Prop :=
  ∃ ws, ws ≠ [] ∧ s = Text.unwords ws ∧ ∀ w ∈ ws, IsCapitalWord w

end Script

/-- A text has no quotation marks. -/
def Literal.IsWellSpelled : Literal → Prop
  | .number _ => True
  | .text value => '\'' ∉ value.toList

/-- A name is a term. -/
def RoleName.IsWellSpelled : RoleName → Prop
  | .named name => Script.IsTerm name
  | .subscript _ => True

/-- The action is a word and the agent is a term. -/
def Quantifier.IsWellSpelled (q : Quantifier) : Prop :=
  ∀ e ∈ q.enforcement, Script.IsReadingWord e.action ∧ ∀ agent ∈ e.agent, Script.IsTerm agent

namespace Script

/-- A mention in the alphabet of the notation. -/
structure Mention.IsWellSpelled (m : Mention) : Prop where
  term : IsTerm m.term
  leading : ∀ a ∈ m.leading, IsAdjective a
  trailing : ∀ a ∈ m.trailing, IsAdjective a
  roleName : ∀ r ∈ m.roleName, r.IsWellSpelled
  quantifier : ∀ q ∈ m.quantifier, q.IsWellSpelled
  literal : ∀ l ∈ m.literal, l.IsWellSpelled

/-- A side of a comparison in the alphabet of the notation. -/
def Operand.IsWellSpelled : Operand → Prop
  | .mention m => m.IsWellSpelled
  | .literal l => l.IsWellSpelled

/-- A phrase in the alphabet of the notation. -/
def Phrase.IsWellSpelled : Phrase → Prop
  | .word text => IsReadingWord text
  | .mention m => m.IsWellSpelled
  | .comparison _ left right => left.IsWellSpelled ∧ right.IsWellSpelled

/-- Whether the phrase is a word or a mention. -/
def Phrase.isStated : Phrase → Bool
  | .word _ | .mention _ => true
  | .comparison .. => false

/-- A clause in the alphabet of the notation. It is one comparison or has words and mentions. -/
structure Clause.IsWellSpelled (c : Clause) : Prop where
  phrases_ne_nil : c.phrases ≠ []
  shape : (∃ operator left right, c.phrases = [.comparison operator left right]) ∨
    ∀ p ∈ c.phrases, p.isStated
  phrase : ∀ p ∈ c.phrases, p.IsWellSpelled

/-- The first clause is joined to nothing and each other one to the clause before it. -/
def IsWellJoined : List Clause → Prop
  | [] => True
  | first :: more => first.conjunction = none ∧ ∀ c ∈ more, c.conjunction ≠ none

mutual

/-- The lists of clauses under a mention, at any depth. -/
def Mention.clauseLists : Mention → List (List Clause)
  | ⟨_, _, _, _, _, _, nested⟩ => nested :: nestedLists nested

/-- The lists of clauses under an operand, at any depth. -/
def Operand.clauseLists : Operand → List (List Clause)
  | .mention m => m.clauseLists
  | .literal _ => []

/-- The lists of clauses under a phrase, at any depth. -/
def Phrase.clauseLists : Phrase → List (List Clause)
  | .word _ => []
  | .mention m => m.clauseLists
  | .comparison _ left right => left.clauseLists ++ right.clauseLists

/-- The lists of clauses under phrases, at any depth. -/
def Phrase.allClauseLists : List Phrase → List (List Clause)
  | [] => []
  | p :: ps => p.clauseLists ++ Phrase.allClauseLists ps

/-- The lists of clauses nested in a clause, at any depth. -/
def Clause.nestedLists : Clause → List (List Clause)
  | ⟨phrases, _, _, _⟩ => Phrase.allClauseLists phrases

/-- The lists of clauses nested in clauses, at any depth. -/
def nestedLists : List Clause → List (List Clause)
  | [] => []
  | c :: cs => c.nestedLists ++ nestedLists cs

end

/-- A list of clauses and the lists nested in it, at any depth. A mention without nested clauses has
the empty list. -/
def clauseLists (cs : List Clause) : List (List Clause) :=
  cs :: nestedLists cs

/-- A list of clauses in the alphabet of the notation, each joined to the one before it. -/
structure IsWellFormed (cs : List Clause) : Prop where
  isWellJoined : IsWellJoined cs
  isWellSpelled : ∀ c ∈ cs, c.IsWellSpelled

/-- All lists of clauses, at any depth, are well formed. -/
def AreWellFormed (cs : List Clause) : Prop :=
  ∀ l ∈ clauseLists cs, IsWellFormed l

/-- The lists of clauses within a mention are those of what is nested in it. -/
lemma Mention.clauseLists_eq (m : Mention) : m.clauseLists = Script.clauseLists m.nested := by
  cases m
  rw [Mention.clauseLists, Script.clauseLists]

/-- A list of clauses stands in phrases if it stands in one of them. -/
lemma Phrase.mem_allClauseLists {ps : List Phrase} {l : List Clause} :
    l ∈ Phrase.allClauseLists ps ↔ ∃ p ∈ ps, l ∈ p.clauseLists := by
  induction ps with
  | nil => simp [Phrase.allClauseLists]
  | cons p ps ih => simp [Phrase.allClauseLists, ih]

/-- A list of clauses is nested in a clause if it stands in one of its phrases. -/
lemma Clause.mem_nestedLists {c : Clause} {l : List Clause} :
    l ∈ c.nestedLists ↔ ∃ p ∈ c.phrases, l ∈ p.clauseLists := by
  cases c
  rw [Clause.nestedLists, Phrase.mem_allClauseLists]

/-- A list of clauses is nested in clauses if it is nested in one of them. -/
lemma mem_nestedLists {cs : List Clause} {l : List Clause} :
    l ∈ nestedLists cs ↔ ∃ c ∈ cs, l ∈ c.nestedLists := by
  induction cs with
  | nil => simp [nestedLists]
  | cons c cs ih => simp [nestedLists, ih]

/-- No clauses at all are well formed. -/
lemma areWellFormed_nil : AreWellFormed [] := by
  intro l hl
  obtain rfl := List.mem_singleton.1 hl
  exact ⟨trivial, fun _ hc => nomatch hc⟩

open Peg Peg.Expr

/-! ## Stray hyphens -/

/-- A hyphen that neither goes on with a word nor begins a number. -/
def IsStray : List Char → Prop
  | '-' :: rest => ∀ c ∈ rest.head?, c.isAlphanum = false
  | _ => False

/-- What does not begin with a hyphen is not stray. -/
lemma not_isStray_cons {c : Char} (hc : c ≠ '-') (rest : List Char) : ¬IsStray (c :: rest) := by
  intro h
  rw [IsStray.eq_def] at h
  split at h
  · next heq => exact hc (List.cons.inj heq).1
  · exact h

/-- A hyphen with a letter or digit behind it is not stray. -/
lemma not_isStray_hyphen {c : Char} (hc : c.isAlphanum) (rest : List Char) :
    ¬IsStray ('-' :: c :: rest) := by
  intro h
  have hnot := h c rfl
  rw [hc] at hnot
  cases hnot

/-- There are no blanks in front of a stray hyphen. -/
lemma blanks_of_isStray (c : Cursor) (h : IsStray c.rest) : blanks c = c := by
  obtain ⟨offset, rest⟩ := c
  rw [IsStray.eq_def] at h
  split at h
  · next more heq =>
    have hrest : rest = '-' :: more := heq
    subst hrest
    rfl
  · cases h

/-- A small letter is a letter or digit. -/
lemma isAlphanum_of_isLower {c : Char} (h : c.isLower) : c.isAlphanum := by
  have halpha : c.isAlpha = (c.isUpper || c.isLower) := rfl
  simp [Char.isAlphanum, halpha, h]

/-- A letter or digit is no hyphen. -/
lemma ne_hyphen_of_isAlphanum {c : Char} (h : c.isAlphanum) : c ≠ '-' := by
  rintro rfl
  exact absurd h (by decide)

/-! ## Words -/

section Words

variable {N : List Clause → Prop}

/-- What follows a word does not continue it. -/
def IsWordEnd (rest : List Char) : Prop :=
  (∀ c ∈ rest.head?, isWordChar c = false) ∧
    ∀ c more, rest = '-' :: c :: more → c.isAlphanum = false

/-- The characters of a small word behind the first. -/
def IsWordTail (cs : List Char) : Prop :=
  (∀ c ∈ cs, isIdentChar c) ∧ cs.getLast? ≠ some '-'

/-- One character of a word, or a hyphen inside it with the character behind it. -/
def wordStep : Form Unit :=
  .satisfy isWordChar <|> (the "-" *> .satisfy Char.isAlphanum)

/-- One step of a word spells some of its tail. -/
lemma spells_wordStep : wordStep.Spells fun cs => cs ≠ [] ∧ IsWordTail cs := by
  refine spells_either (spells_imp (spells_satisfy _) ?_)
    (spells_map (spells_imp (spells_pair (spells_text _) (spells_satisfy _)) ?_))
  · rintro _ ⟨x, rfl, hx⟩
    refine ⟨List.cons_ne_nil _ _, fun c hc => ?_, ?_⟩
    · rw [List.mem_singleton.1 hc, isIdentChar, hx, Bool.true_or]
    · rintro ⟨⟩
      exact absurd hx (by decide)
  · rintro _ ⟨as, bs, rfl, rfl, x, rfl, hx⟩
    refine ⟨List.append_ne_nil_of_right_ne_nil _ (List.cons_ne_nil _ _), fun c hc => ?_, ?_⟩
    · rcases List.mem_append.1 hc with hc | hc
      · rw [List.mem_singleton.1 hc]
        decide
      · rw [List.mem_singleton.1 hc, isIdentChar, isWordChar, hx]
        rfl
    · rw [List.getLast?_append]
      rintro ⟨⟩
      exact absurd hx (by decide)

/-- Steps of a word spell its tail. -/
lemma spells_wordSteps : (Expr.many wordStep).Spells IsWordTail := by
  refine spells_many (spells_imp spells_wordStep fun _ h => h.2)
    ⟨fun _ hc => (nomatch hc), nofun⟩ ?_
  intro as bs has hbs
  refine ⟨fun c hc => (List.mem_append.1 hc).elim (has.1 c) (hbs.1 c), ?_⟩
  rw [List.getLast?_append]
  intro hlast
  rcases Option.or_eq_some_iff.1 hlast with hlast | ⟨-, hlast⟩
  · exact hbs.2 hlast
  · exact has.2 hlast

/-- Where a word cannot be continued it has ended. -/
lemma isWordEnd_of_failed {blanks : Cursor → Cursor} {self : Runner Rule Misread (List Clause)}
    {start : Nat} {m : Mode} {c : Cursor} {tried : Attempts Rule} (hm : m.atomicity = .atomic)
    (h : (run blanks self start wordStep m c tried).1 = .failed) : IsWordEnd c.rest := by
  obtain ⟨offset, rest⟩ := c
  change (run blanks self start (.either (.satisfy isWordChar)
    (.map Prod.snd (.pair (.text ['-']) (.satisfy Char.isAlphanum)))) m _ tried).1 = _ at h
  have hmode : ¬m.atomicity = .spaced := by rw [hm]; exact fun h => nomatch h
  constructor
  · intro x hx
    cases rest with
    | nil => cases hx
    | cons y more =>
      obtain rfl := Option.some.inj hx
      refine Bool.eq_false_iff.2 fun hword => ?_
      simp [run, hword] at h
  · rintro x more hrest
    have hrest : rest = '-' :: x :: more := hrest
    subst hrest
    refine Bool.eq_false_iff.2 fun hword => ?_
    have hhyphen : isWordChar '-' = false := rfl
    simp [run, hword, hhyphen, hmode, Cursor.advance] at h

/-- A small word is as long as it can be.

**Proof sketch.** Its tail is a repetition, which goes on until it fails. -/
lemma run_wordBody {blanks : Cursor → Cursor} {self : Runner Rule Misread (List Clause)}
    {start : Nat} {m : Mode} {c after : Cursor} {attempts rest : Attempts Rule} {s : String}
    (h : run blanks self start wordBody m c attempts = (.matched after (.ok s), rest)) :
    IsSmallWord s ∧ c.rest = s.toList ++ after.rest ∧ IsWordEnd after.rest := by
  have hspells : (.satisfy Char.isLower <* .many wordStep : Form Unit).Spells fun cs =>
      ∃ first more, cs = first :: more ∧ first.isLower ∧ IsWordTail more := by
    refine spells_map (spells_imp (spells_pair (spells_satisfy _) spells_wordSteps) ?_)
    rintro _ ⟨_, more, rfl, ⟨first, rfl, hfirst⟩, hmore⟩
    exact ⟨first, more, rfl, hfirst, hmore⟩
  obtain ⟨_, ⟨⟩, ⟨first, more, hs, hfirst, hmore⟩, hrest, _, _, hinner⟩ := run_word hspells h
  refine ⟨⟨first, more, hs, hfirst, hmore.1, ?_⟩, hrest, ?_⟩
  · rw [hs, List.getLast?_cons]
    intro hlast
    rcases hlast' : more.getLast? with _ | last
    · rw [hlast'] at hlast
      cases hlast
      exact absurd hfirst (by decide)
    · rw [hlast'] at hlast
      exact hmore.2 (hlast'.trans hlast)
  · -- the tail is the second part of the match
    obtain ⟨_, hpair, -⟩ := part_of_map hinner
    obtain ⟨_, _, _, _, _, -, -, htail, -⟩ := parts_of_pair hpair
    obtain ⟨tried, hfailed⟩ := failed_of_many
      (spells_imp spells_wordStep fun _ hcs => hcs.1) rfl htail
    exact isWordEnd_of_failed rfl hfailed

/-- What stands in a word yields a small word. -/
lemma yields_smallWord : wordBody.Yields N IsSmallWord :=
  fun _ _ _ _ _ _ _ _ _ _ hrun => (run_wordBody hrun).1

/-- Where a word is looked ahead for in vain no such word stands.

**Proof sketch.** None of the words is the beginning of another one, so the first of them that the
text begins with is the word itself, and then the choice is made. -/
lemma not_keyword_of_failed {blanks : Cursor → Cursor} {self : Runner Rule Misread (List Clause)}
    {start : Nat} {m : Mode} {c : Cursor} {attempts : Attempts Rule} {s : String}
    {rest : List Char} (hrest : c.rest = s.toList ++ rest)
    (hend : ∀ x ∈ rest.head?, isIdentChar x = false)
    (h : (run blanks self start keyword m c attempts).1 = .failed) : s ∉ keywords := by
  obtain ⟨offset, text⟩ := c
  have htext : text = s.toList ++ rest := hrest
  subst htext
  have hnext : ∀ (m : Mode) (offset : Nat) (attempts : Attempts Rule),
      ∃ tried, run blanks self start (.notFollowedBy (.satisfy isIdentChar)) m ⟨offset, rest⟩
        attempts = (.matched ⟨offset, rest⟩ (.ok ()), tried) := by
    intro m offset attempts
    cases rest with
    | nil => exact ⟨_, rfl⟩
    | cons x more =>
      refine ⟨attempts, ?_⟩
      simp [run, hend x rfl]
  intro hs
  have hwhole : ∀ m tried, (∃ left, run blanks self start
      (the "and" <|> the "or" <|> the "where" <|> the "that" <|> the "who" <|> the "maybe" :
        Form Unit) m ⟨offset, s.toList ++ rest⟩ tried =
          (.matched ⟨offset + s.toList.length, rest⟩ (.ok ()), left)) := by
    intro m tried
    refine ⟨tried, ?_⟩
    change run blanks self start (.either (.text ['a', 'n', 'd']) (.either (.text ['o', 'r'])
      (.either (.text ['w', 'h', 'e', 'r', 'e']) (.either (.text ['t', 'h', 'a', 't'])
        (.either (.text ['w', 'h', 'o']) (.text ['m', 'a', 'y', 'b', 'e'])))))) m _ tried = _
    simp only [keywords, List.mem_cons, List.not_mem_nil, or_false] at hs
    rcases hs with rfl | rfl | rfl | rfl | rfl | rfl <;>
      simp [run, Cursor.advance]
  obtain ⟨left, hchoice⟩ := hwhole (m.inside .atomic) attempts
  obtain ⟨tried, hlook⟩ := hnext (m.inside .atomic) (offset + s.toList.length) left
  have hpair : run blanks self start (.pair (the "and" <|> the "or" <|> the "where" <|>
      the "that" <|> the "who" <|> the "maybe" : Form Unit) (.notFollowedBy (.satisfy isIdentChar)))
        (m.inside .atomic) ⟨offset, s.toList ++ rest⟩ attempts =
          (.matched ⟨offset + s.toList.length, rest⟩ (.ok ((), ())), tried) := by
    rw [run, hchoice]
    dsimp only
    rw [if_neg (show ¬(m.inside .atomic).atomicity = .spaced by rintro ⟨⟩), hlook]
    rfl
  have hbody : run blanks self start (whole (the "and" <|> the "or" <|> the "where" <|>
      the "that" <|> the "who" <|> the "maybe")) (m.inside .atomic) ⟨offset, s.toList ++ rest⟩
        attempts = (.matched ⟨offset + s.toList.length, rest⟩ (.ok ()), tried) := by
    change run blanks self start (.map Prod.fst _) _ _ _ = _
    rw [run, hpair]
    rfl
  rw [keyword, run, hbody] at h
  cases h

/-- A word of a reading does not join clauses, unless it ends at a stray hyphen.

**Proof sketch.** It ends where it cannot go on. If a hyphen stands there then no letter or digit
follows, which makes it a stray one; otherwise the word is followed by nothing that could continue a
word, and had it been one of those that join clauses it would have been recognised as such. -/
lemma yieldsUnless_word : word.YieldsUnless IsStray N IsReadingWord := by
  intro blanks self start hblanks hself m c attempts after s rest hrun hafter
  obtain ⟨_, hbody⟩ := part_of_rule hrun
  obtain ⟨p, hpair, hvalue⟩ := part_of_map hbody
  obtain ⟨between, _, _, _, y, hlook, hnext, hword, rfl⟩ := parts_of_pair hpair
  rw [if_neg (show ¬(m.inside .atomic).atomicity = .spaced from fun h => nomatch h)] at hnext
  subst hnext
  rw [run] at hlook
  split at hlook
  · next hkeyword =>
    cases hlook
    cases y with
    | error _ => cases hvalue
    | ok t =>
      cases hvalue
      obtain ⟨hsmall, hrest, hend⟩ := run_wordBody hword
      refine ⟨?_, hsmall, not_keyword_of_failed hrest ?_ (congrArg Prod.fst hkeyword)⟩
      · obtain ⟨first, more, hs, hfirst, -⟩ := hsmall
        rw [hrest, hs]
        exact not_isStray_cons (ne_hyphen_of_isAlphanum (isAlphanum_of_isLower hfirst)) _
      · intro y hy
        rw [isIdentChar, hend.1 y hy, Bool.false_or]
        refine Bool.eq_false_iff.2 fun hhyphen => hafter ?_
        rw [eq_of_beq hhyphen] at hy
        obtain ⟨more, hmore⟩ := List.head?_eq_some_iff.1 hy
        rw [hmore]
        intro z hz
        obtain ⟨more', hmore'⟩ := List.head?_eq_some_iff.1 hz
        exact hend.2 z more' (hmore.trans (congrArg _ hmore'))
  · cases hlook

/-! ## Terms and adjectives -/

/-- Words put together are the first one and then each with a blank before it. -/
lemma toList_unwords_cons (w : String) (ws : List String) :
    (Text.unwords (w :: ws)).toList = w.toList ++ ws.flatMap fun v => ' ' :: v.toList := by
  induction ws generalizing w with
  | nil => simp [Text.unwords]
  | cons v vs ih =>
    have hcons : Text.unwords (w :: v :: vs) = w ++ " " ++ Text.unwords (v :: vs) := by
      simp [Text.unwords, String.intercalate_cons_cons]
    rw [hcons, String.toList_append, String.toList_append, ih, List.flatMap_cons]
    simp

/-- A capitalised word spells one. -/
lemma spells_capWord : capWord.Spells fun cs => ∃ w : String, w.toList = cs ∧ IsCapitalWord w := by
  have hmany : (Expr.many (.satisfy isWordChar) : Form (List Unit)).Spells
      fun cs => ∀ c ∈ cs, isWordChar c := by
    refine spells_many (spells_imp (spells_satisfy _) ?_) (fun _ hc => nomatch hc)
      fun as bs has hbs c hc => (List.mem_append.1 hc).elim (has c) (hbs c)
    rintro _ ⟨x, rfl, hx⟩ c hc
    rwa [List.mem_singleton.1 hc]
  refine spells_atomic _ (spells_map (spells_imp (spells_pair (spells_satisfy _) hmany) ?_))
  rintro _ ⟨_, more, rfl, ⟨first, rfl, hfirst⟩, hmore⟩
  refine ⟨String.ofList (first :: more), String.toList_ofList, first, more, ?_, hfirst, hmore⟩
  exact String.toList_ofList

/-- A term spells one. -/
lemma spells_term : (capWord <* .many (the " " *> capWord) : Form Unit).Spells
    fun cs => IsTerm (String.ofList cs) := by
  have hmany : (Expr.many (the " " *> capWord) : Form (List Unit)).Spells fun cs =>
      ∃ ws : List String, cs = (ws.flatMap fun v => ' ' :: v.toList) ∧
        ∀ w ∈ ws, IsCapitalWord w := by
    refine spells_many (spells_map (spells_imp (spells_pair (spells_text _) spells_capWord) ?_))
      ⟨[], rfl, fun _ hw => nomatch hw⟩ ?_
    · rintro _ ⟨_, _, rfl, rfl, w, rfl, hw⟩
      refine ⟨[w], by simp, fun v hv => ?_⟩
      rwa [List.mem_singleton.1 hv]
    · rintro _ _ ⟨vs, rfl, hvs⟩ ⟨ws, rfl, hws⟩
      refine ⟨vs ++ ws, by rw [List.flatMap_append], fun w hw => ?_⟩
      exact (List.mem_append.1 hw).elim (hvs w) (hws w)
  refine spells_map (spells_imp (spells_pair spells_capWord hmany) ?_)
  rintro _ ⟨_, _, rfl, ⟨w, rfl, hw⟩, ws, rfl, hws⟩
  refine ⟨w :: ws, List.cons_ne_nil _ _, ?_, List.forall_mem_cons.2 ⟨hw, hws⟩⟩
  rw [← String.toList_inj, String.toList_ofList, toList_unwords_cons]

/-- What begins with a term is not stray. -/
lemma not_isStray_term {cs : List Char} (h : IsTerm (String.ofList cs)) (rest : List Char) :
    ¬IsStray (cs ++ rest) := by
  obtain ⟨ws, hne, hs, hws⟩ := h
  cases ws with
  | nil => exact absurd rfl hne
  | cons w ws =>
    obtain ⟨first, more, hw, hfirst, -⟩ := hws w List.mem_cons_self
    have hcs : cs = first :: more ++ ws.flatMap fun v => ' ' :: v.toList := by
      rw [← hw, ← toList_unwords_cons, ← hs, String.toList_ofList]
    rw [hcs]
    refine not_isStray_cons ?_ _
    rintro rfl
    exact absurd hfirst (by decide)

/-- A term yields one. -/
lemma yieldsUnless_term : term.YieldsUnless IsStray N IsTerm := by
  refine yieldsUnless_of_avoids (fun _ _ _ hself _ _ _ _ s _ hrun => ?_)
    (avoids_atomic _ (spells_token spells_term) fun cs rest h => not_isStray_term h rest)
  have hs : IsTerm (String.ofList s.toList) :=
    yields_word Rule.term spells_term _ _ _ hself _ _ _ _ s _ hrun
  rwa [String.ofList_toList] at hs

/-- What begins with other characters than hyphens begins no stray hyphen. -/
lemma avoids_the {s : String} {c : Char} {cs : List Char} (hs : s.toList = c :: cs)
    (hc : c ≠ '-') : (the s : Form Unit).Avoids IsStray :=
  avoids_text fun rest => hs ▸ not_isStray_cons hc (cs ++ rest)

/-- A text that begins with another character than a hyphen. -/
lemma yieldsUnless_the {s : String} {c : Char} {cs : List Char} (hs : s.toList = c :: cs)
    (hc : c ≠ '-') : (the s : Form Unit).YieldsUnless IsStray N fun _ => True :=
  yieldsUnless_of_avoids (yields_true _) (avoids_the hs hc)

/-- What stands in a word is not stray. -/
lemma avoids_wordBody : wordBody.Avoids IsStray := by
  refine avoids_rule _ _ (avoids_token (avoids_map (avoids_pair (avoids_satisfy ?_))))
  exact fun x rest hx => not_isStray_cons (ne_hyphen_of_isAlphanum (isAlphanum_of_isLower hx)) rest

/-- Words that are looked ahead behind. -/
lemma yieldsUnless_inner {α : Type} (ahead : Form α) :
    (.many (word <* .followedBy ahead) : Form (List String)).YieldsUnless IsStray N
      fun ws => ∀ w ∈ ws, IsSmallWord w :=
  yieldsUnless_many (yieldsUnless_map
    (yieldsUnless_pair yieldsUnless_word (yieldsUnless_followedBy _)) fun _ h => h.1.isSmallWord)

/-- A leading adjective yields one. -/
lemma yieldsUnless_leadingAdjective : leadingAdjective.YieldsUnless IsStray N IsAdjective := by
  have hlead : leadWord.YieldsUnless IsStray N IsSmallWord :=
    yieldsUnless_of_avoids (yields_rule _ _ (yields_map (yields_pair yields_smallWord
      (yields_true _)) fun _ h => h.1)) (avoids_rule _ _ (avoids_map (avoids_pair avoids_wordBody)))
  refine yieldsUnless_rule _ _ (yieldsUnless_map
    (yieldsUnless_pair hlead (yieldsUnless_inner _)) ?_)
  rintro ⟨first, more⟩ h
  exact ⟨first :: more, List.cons_ne_nil _ _, rfl, List.forall_mem_cons.2 h⟩

/-- A word that a hyphen leads up to yields a small word. -/
lemma yieldsUnless_trailWord : trailWord.YieldsUnless IsStray N IsSmallWord := by
  refine yieldsUnless_of_avoids (yields_rule _ _ (yields_map (yields_pair (yields_true _)
    yields_smallWord) fun _ h => h.2)) ?_
  have hbody : wordBody.Spells fun cs => ∃ first more, cs = first :: more ∧ first.isLower := by
    refine spells_atomic _ (spells_token (spells_map (spells_imp
      (spells_pair (spells_satisfy _) spells_wordSteps) ?_)))
    rintro _ ⟨_, more, rfl, ⟨first, rfl, hfirst⟩, -⟩
    exact ⟨first, more, rfl, hfirst⟩
  refine avoids_atomic _ (spells_map (spells_pair (spells_text _) hbody)) ?_
  rintro _ rest ⟨_, _, rfl, rfl, first, more, rfl, hfirst⟩
  exact not_isStray_hyphen (isAlphanum_of_isLower hfirst) _

/-- A trailing adjective yields one. -/
lemma yieldsUnless_trailingAdjective : trailingAdjective.YieldsUnless IsStray N IsAdjective := by
  refine yieldsUnless_rule _ _ (yieldsUnless_map
    (yieldsUnless_pair (yieldsUnless_inner _) yieldsUnless_trailWord) ?_)
  rintro ⟨ws, last⟩ h
  refine ⟨ws ++ [last], by simp, rfl, fun w hw => ?_⟩
  rcases List.mem_append.1 hw with hw | hw
  · exact h.1 w hw
  · rw [List.mem_singleton.1 hw]
    exact h.2

/-! ## Marks of a mention -/

/-- Digits are not stray. -/
lemma avoids_digits : (digits : Form Unit).Avoids IsStray := by
  refine avoids_map (avoids_map (avoids_pair (avoids_satisfy fun x rest hx => ?_)))
  refine not_isStray_cons ?_ rest
  rintro rfl
  exact absurd hx (by decide)

/-- A subscript or a role name yields a well spelled one. -/
lemma yieldsUnless_roleSpec : roleSpec.YieldsUnless IsStray N RoleName.IsWellSpelled := by
  have hsubscript : (RoleName.subscript <$> .rule .subscript .atomic
      (.token (readNumber "a subscript") digits) : Form RoleName).YieldsUnless IsStray N
        RoleName.IsWellSpelled :=
    yieldsUnless_map (yieldsUnless_of_avoids (yields_true _)
      (avoids_rule _ _ (avoids_token avoids_digits))) fun _ _ => trivial
  have hname : (RoleName.named <$> .rule .roleNameDecl .plain (the "as" *> term) :
      Form RoleName).YieldsUnless IsStray N RoleName.IsWellSpelled :=
    yieldsUnless_map (yieldsUnless_rule _ _ (yieldsUnless_map (yieldsUnless_pair
      (yieldsUnless_the rfl (by decide)) yieldsUnless_term) fun _ h => h.2)) fun _ h => h
  exact yieldsUnless_rule _ _ (yieldsUnless_map (yieldsUnless_pair (yieldsUnless_map
    (yieldsUnless_pair (yieldsUnless_the rfl (by decide)) (yieldsUnless_either hsubscript hname))
      fun _ h => h.2) (yieldsUnless_the rfl (by decide))) fun _ h => h.1)

/-- A keyword that is not stray may be asked to end where a word ends. -/
lemma avoids_whole {keyword : Form Unit} (h : keyword.Avoids IsStray) :
    (whole keyword).Avoids IsStray :=
  avoids_map (avoids_pair h)

/-- A quantifier that is not stray as written is not stray. -/
lemma avoids_quantifierWord {rule : Rule} {written : String} {meaning : Quantifier}
    (h : (the written : Form Unit).Avoids IsStray) :
    (quantifierWord rule written meaning).Avoids IsStray :=
  avoids_rule _ _ (avoids_map (avoids_whole h))

/-- Bounds are not stray. -/
lemma avoids_bounds : bounds.Avoids IsStray := by
  refine avoids_either (avoids_rule _ _ (avoids_map (avoids_map (avoids_pair ?_))))
    (avoids_either (avoids_rule _ _ (avoids_map (avoids_map (avoids_pair (avoids_map
      (avoids_pair ?_)))))) (avoids_either (avoids_rule _ _ (avoids_map (avoids_map (avoids_pair
        (avoids_map (avoids_pair ?_)))))) (avoids_either (avoids_rule _ _ (avoids_map (avoids_map
          (avoids_pair ?_)))) (avoids_either (avoids_quantifierWord ?_) (avoids_either
            (avoids_quantifierWord ?_) (avoids_either (avoids_quantifierWord ?_)
              (avoids_quantifierWord ?_)))))))
  all_goals exact avoids_the rfl (by decide)

/-- An enforcement yields an action that is a word and an agent that is a term. -/
lemma yieldsUnless_enforcement : enforcement.YieldsUnless IsStray N fun e =>
    IsReadingWord e.action ∧ ∀ agent ∈ e.agent, IsTerm agent := by
  have hopened : (the "(" *> the "otherwise" : Form Unit).YieldsUnless IsStray N fun _ => True :=
    yieldsUnless_map (yieldsUnless_pair (yieldsUnless_the rfl (by decide))
      (yieldsUnless_the rfl (by decide))) fun _ _ => trivial
  have hinner := yieldsUnless_pair hopened (yieldsUnless_pair (N := N) yieldsUnless_word
    (yieldsUnless_optional yieldsUnless_term))
  exact yieldsUnless_rule _ _ (yieldsUnless_map (yieldsUnless_map (yieldsUnless_pair
    (yieldsUnless_map hinner fun _ h => h.2) (yieldsUnless_the rfl (by decide))) fun _ h => h.1)
      fun _ h => h)

/-- A quantifier yields a well spelled one. -/
lemma yieldsUnless_quantifier : quantifier.YieldsUnless IsStray N Quantifier.IsWellSpelled := by
  refine yieldsUnless_rule _ _ (yieldsUnless_map (yieldsUnless_pair
    (yieldsUnless_of_avoids (yields_true _) avoids_bounds)
      (yieldsUnless_optional yieldsUnless_enforcement)) ?_)
  rintro ⟨q, enforcement⟩ h
  exact h.2

/-- A quoted text yields a well spelled literal. -/
lemma yieldsUnless_quotedText : quotedText.YieldsUnless IsStray N Literal.IsWellSpelled := by
  refine yieldsUnless_of_avoids ?_ (avoids_rule _ _ (avoids_map (avoids_map (avoids_pair
    (avoids_map (avoids_pair (avoids_the rfl (by decide))))))))
  have hmany : (void (.many (.satisfy (· ≠ '\''))) : Form Unit).Spells fun cs => '\'' ∉ cs := by
    refine spells_map (spells_many (spells_imp (spells_satisfy _) ?_) List.not_mem_nil ?_)
    · rintro _ ⟨x, rfl, hx⟩ hmem
      rw [← List.mem_singleton.1 hmem] at hx
      exact absurd hx (by decide)
    · exact fun as bs has hbs hmem => (List.mem_append.1 hmem).elim has hbs
  exact yields_rule _ _ (yields_map (yields_map (yields_pair (yields_map (yields_pair
    (yields_true _) (yields_word _ hmany)) fun _ h => h.2) (yields_true _)) fun _ h => h.1)
      fun _ h => h)

/-- A number yields a well spelled literal. -/
lemma yieldsUnless_number : number.YieldsUnless IsStray N Literal.IsWellSpelled := by
  refine yieldsUnless_of_avoids (yields_map (yields_true _) fun _ _ => trivial) (avoids_map ?_)
  have hdigits : (digits : Form Unit).Spells
      fun cs => ∃ first more, cs = first :: more ∧ first.isDigit := by
    have hmany : (Expr.many (.satisfy Char.isDigit) : Form (List Unit)).Spells fun _ => True :=
      spells_many (spells_imp (spells_satisfy _) fun _ _ => trivial) trivial
        fun _ _ _ _ => trivial
    refine spells_map (spells_map (spells_imp (spells_pair (spells_satisfy _) hmany) ?_))
    rintro _ ⟨_, more, rfl, ⟨first, rfl, hfirst⟩, -⟩
    exact ⟨first, more, rfl, hfirst⟩
  have hisAlphanum : ∀ {c : Char}, c.isDigit → c.isAlphanum := by
    intro c hc
    rw [Char.isAlphanum, hc, Bool.or_true]
  refine avoids_atomic _ (spells_token (spells_map (spells_pair (spells_map (spells_pair
    (spells_optional (spells_text _)) hdigits)) (spells_optional (spells_map (spells_pair
      (spells_text _) hdigits)))))) ?_
  rintro _ rest ⟨_, tail, rfl, ⟨_, _, rfl, rfl | rfl, first, more, rfl, hfirst⟩, -⟩
  · exact not_isStray_cons (ne_hyphen_of_isAlphanum (hisAlphanum hfirst)) _
  · exact not_isStray_hyphen (hisAlphanum hfirst) _

end Words

/-! ## The grammar -/

/-- Nested clauses yield what is assumed of them. -/
lemma yieldsUnless_nested : nested.YieldsUnless IsStray AreWellFormed AreWellFormed := by
  have hwhich : (the "in" *> the "which" : Form Unit).YieldsUnless IsStray AreWellFormed
      fun _ => True :=
    yieldsUnless_map (yieldsUnless_pair (yieldsUnless_the rfl (by decide))
      (yieldsUnless_the rfl (by decide))) fun _ _ => trivial
  have hopened : (the "(" *> (the "where" <|> the "in" *> the "which") : Form Unit).YieldsUnless
      IsStray AreWellFormed fun _ => True :=
    yieldsUnless_map (yieldsUnless_pair (yieldsUnless_the rfl (by decide))
      (yieldsUnless_either (yieldsUnless_the rfl (by decide)) hwhich)) fun _ _ => trivial
  exact yieldsUnless_rule _ _ (yieldsUnless_map (yieldsUnless_pair (yieldsUnless_map
    (yieldsUnless_pair hopened yieldsUnless_recur) fun _ h => h.2)
      (yieldsUnless_the rfl (by decide))) fun _ h => h.1)

/-- A literal yields a well spelled one. -/
lemma yieldsUnless_literal {N : List Clause → Prop} :
    (quotedText <|> number : Form Literal).YieldsUnless IsStray N Literal.IsWellSpelled :=
  yieldsUnless_either yieldsUnless_quotedText yieldsUnless_number

/-- A reference yields a well spelled mention whose nested clauses are well formed. -/
lemma yieldsUnless_reference : reference.YieldsUnless IsStray AreWellFormed
    fun m => m.IsWellSpelled ∧ ∀ l ∈ m.clauseLists, IsWellFormed l := by
  refine yieldsUnless_rule _ _ (yieldsUnless_map
    (yieldsUnless_pair (yieldsUnless_optional yieldsUnless_quantifier)
    (yieldsUnless_pair (yieldsUnless_optional yieldsUnless_leadingAdjective)
    (yieldsUnless_pair yieldsUnless_term
    (yieldsUnless_pair (yieldsUnless_optional yieldsUnless_trailingAdjective)
    (yieldsUnless_pair (yieldsUnless_optional yieldsUnless_roleSpec)
    (yieldsUnless_pair (yieldsUnless_optional yieldsUnless_literal)
      (yieldsUnless_optional yieldsUnless_nested))))))) ?_)
  rintro ⟨q, l, t, tr, r, lit, n⟩ ⟨hq, hl, ht, htr, hr, hlit, hn⟩
  refine ⟨⟨ht, hl, htr, hr, hq, hlit⟩, ?_⟩
  rw [Mention.clauseLists_eq]
  change AreWellFormed (n.getD [])
  cases n with
  | none => exact areWellFormed_nil
  | some cs => exact hn cs rfl

/-- A side of a comparison yields a well spelled one whose nested clauses are well formed. -/
lemma yieldsUnless_operand : operand.YieldsUnless IsStray AreWellFormed
    fun o => o.IsWellSpelled ∧ ∀ l ∈ o.clauseLists, IsWellFormed l := by
  refine yieldsUnless_either (yieldsUnless_map yieldsUnless_reference fun m hm => ?_)
    (yieldsUnless_map yieldsUnless_literal fun l hl => ?_)
  · rw [Operand.clauseLists]
    exact hm
  · rw [Operand.clauseLists]
    exact ⟨hl, fun _ h => nomatch h⟩

/-- An operator is not stray. -/
lemma avoids_comparator : comparator.Avoids IsStray := by
  refine avoids_rule _ _ (avoids_token (avoids_either ?_ (avoids_either ?_ (avoids_either ?_
    (avoids_either ?_ (avoids_either ?_ (avoids_either ?_ ?_)))))))
  all_goals exact avoids_the rfl (by decide)

/-- A comparison yields a well spelled one whose nested clauses are well formed. -/
lemma yieldsUnless_comparison : comparison.YieldsUnless IsStray AreWellFormed
    fun p => (∃ operator left right, p = .comparison operator left right) ∧
      p.IsWellSpelled ∧ ∀ l ∈ p.clauseLists, IsWellFormed l := by
  refine yieldsUnless_rule _ _ (yieldsUnless_map (yieldsUnless_pair yieldsUnless_operand
    (yieldsUnless_pair (yieldsUnless_of_avoids (yields_true _) avoids_comparator)
      yieldsUnless_operand)) ?_)
  rintro ⟨left, operator, right⟩ ⟨hleft, -, hright⟩
  refine ⟨⟨operator, left, right, rfl⟩, ⟨hleft.1, hright.1⟩, ?_⟩
  rw [Phrase.clauseLists]
  intro l hl
  exact (List.mem_append.1 hl).elim (hleft.2 l) (hright.2 l)

/-- A list of one item and more has a property of all items and is not empty. -/
lemma yieldsUnless_cons {N : List Clause → Prop} {α : Type} {e : Form α} {d : Form (List α)}
    {P : α → Prop} (he : e.YieldsUnless IsStray N P)
    (hd : d.YieldsUnless IsStray N fun as => ∀ a ∈ as, P a) :
    ((fun (first, more) => first :: more) <$> .pair e d : Form (List α)).YieldsUnless IsStray N
      fun as => as ≠ [] ∧ ∀ a ∈ as, P a := by
  refine yieldsUnless_map (yieldsUnless_pair he hd) ?_
  rintro ⟨first, more⟩ h
  exact ⟨List.cons_ne_nil _ _, List.forall_mem_cons.2 h⟩

/-- The phrases of a clause are some, and they are stated and well spelled. -/
lemma yieldsUnless_phrases : phrases.YieldsUnless IsStray AreWellFormed
    fun ps => ps ≠ [] ∧ ∀ p ∈ ps, p.isStated ∧ p.IsWellSpelled ∧
      ∀ l ∈ p.clauseLists, IsWellFormed l := by
  have hphrase : (Phrase.mention <$> reference <|> Phrase.word <$> word : Form Phrase).YieldsUnless
      IsStray AreWellFormed fun p => p.isStated ∧ p.IsWellSpelled ∧
        ∀ l ∈ p.clauseLists, IsWellFormed l := by
    refine yieldsUnless_either (yieldsUnless_map yieldsUnless_reference fun m hm => ?_)
      (yieldsUnless_map yieldsUnless_word fun s hs => ?_)
    · rw [Phrase.clauseLists]
      exact ⟨rfl, hm⟩
    · rw [Phrase.clauseLists]
      exact ⟨rfl, hs, fun _ h => nomatch h⟩
  exact yieldsUnless_rule _ _ (yieldsUnless_cons hphrase (yieldsUnless_many hphrase))

/-- Qualifiers are not stray. -/
lemma avoids_qualifiers : qualifiers.Avoids IsStray :=
  avoids_rule _ _ (avoids_map (avoids_pair (avoids_map (avoids_pair
    (avoids_the rfl (by decide))))))

/-- A certainty is not stray. -/
lemma avoids_certainty : certainty.Avoids IsStray := by
  refine avoids_either (avoids_map (avoids_rule _ _ (avoids_whole ?_)))
    (avoids_map (avoids_rule _ _ (avoids_map (avoids_pair (avoids_map (avoids_pair
      (avoids_map (avoids_pair (avoids_map (avoids_pair (avoids_map (avoids_pair ?_))))))))))))
  all_goals exact avoids_the rfl (by decide)

/-- A clause before it is joined to another one. -/
lemma yieldsUnless_clause : clause.YieldsUnless IsStray AreWellFormed
    fun c => c.conjunction = none ∧ c.IsWellSpelled ∧ ∀ l ∈ c.nestedLists, IsWellFormed l := by
  have hphrases : ((fun p => [p]) <$> comparison <|> phrases : Form (List Phrase)).YieldsUnless
      IsStray AreWellFormed fun ps => ps ≠ [] ∧
        ((∃ operator left right, ps = [.comparison operator left right]) ∨
          ∀ p ∈ ps, p.isStated) ∧
        ∀ p ∈ ps, p.IsWellSpelled ∧ ∀ l ∈ p.clauseLists, IsWellFormed l := by
    refine yieldsUnless_either (yieldsUnless_map yieldsUnless_comparison ?_)
      (yieldsUnless_imp yieldsUnless_phrases ?_)
    · rintro _ ⟨⟨operator, left, right, rfl⟩, hp⟩
      refine ⟨List.cons_ne_nil _ _, .inl ⟨operator, left, right, rfl⟩, fun q hq => ?_⟩
      rwa [List.mem_singleton.1 hq]
    · exact fun ps hps => ⟨hps.1, .inr fun p hp => (hps.2 p hp).1, fun p hp => (hps.2 p hp).2⟩
  refine yieldsUnless_rule _ _ (yieldsUnless_map (yieldsUnless_pair
    (yieldsUnless_optional (yieldsUnless_of_avoids (yields_true _) avoids_certainty))
    (yieldsUnless_pair hphrases (yieldsUnless_optional
      (yieldsUnless_of_avoids (yields_true _) avoids_qualifiers)))) ?_)
  rintro ⟨certainty, phrases, qualifiers⟩ ⟨-, ⟨hne, hshape, hphrases⟩, -⟩
  refine ⟨rfl, ⟨hne, hshape, fun p hp => (hphrases p hp).1⟩, fun l hl => ?_⟩
  obtain ⟨p, hp, hl⟩ := Clause.mem_nestedLists.1 hl
  exact (hphrases p hp).2 l hl

/-- A conjunction is not stray. -/
lemma avoids_conjunction : conjunction.Avoids IsStray := by
  refine avoids_either (avoids_rule _ _ (avoids_map (avoids_whole ?_)))
    (avoids_either (avoids_rule _ _ (avoids_map (avoids_whole ?_)))
      (avoids_either (avoids_rule _ _ (avoids_map (avoids_whole ?_)))
        (avoids_either (avoids_rule _ _ (avoids_map (avoids_whole (avoids_either ?_ ?_))))
          (avoids_rule _ _ (avoids_map ?_)))))
  all_goals exact avoids_the rfl (by decide)

/-- A clause joined to the one before it. -/
lemma yieldsUnless_joinedClause : joinedClause.YieldsUnless IsStray AreWellFormed
    fun c => c.conjunction ≠ none ∧ c.IsWellSpelled ∧ ∀ l ∈ c.nestedLists, IsWellFormed l := by
  refine yieldsUnless_map (yieldsUnless_pair
    (yieldsUnless_of_avoids (yields_true _) avoids_conjunction) yieldsUnless_clause) ?_
  rintro ⟨conjunction, next⟩ ⟨-, -, hspelled, hlists⟩
  refine ⟨Option.some_ne_none _, ⟨hspelled.1, hspelled.2, hspelled.3⟩, fun l hl => ?_⟩
  obtain ⟨p, hp, hlp⟩ := Clause.mem_nestedLists.1 hl
  exact hlists l (Clause.mem_nestedLists.2 ⟨p, hp, hlp⟩)

/-- A list of clauses yields well formed ones if what is nested does. -/
lemma yieldsUnless_clauseList :
    clauseList.YieldsUnless IsStray AreWellFormed AreWellFormed := by
  refine yieldsUnless_rule _ _ (yieldsUnless_map
    (yieldsUnless_pair yieldsUnless_clause (yieldsUnless_many yieldsUnless_joinedClause)) ?_)
  rintro ⟨first, more⟩ ⟨⟨hfirst, hfirstSpelled, hfirstLists⟩, hmore⟩ l hl
  rcases List.mem_cons.1 hl with rfl | hl
  · exact ⟨⟨hfirst, fun c hc => (hmore c hc).1⟩,
      List.forall_mem_cons.2 ⟨hfirstSpelled, fun c hc => (hmore c hc).2.1⟩⟩
  · obtain ⟨c, hc, hlc⟩ := mem_nestedLists.1 hl
    rcases List.mem_cons.1 hc with rfl | hc
    · exact hfirstLists l hlc
    · exact (hmore c hc).2.2 l hlc

/-- A declaration yields well formed clauses. -/
lemma yieldsUnless_declaration :
    declaration.YieldsUnless IsStray AreWellFormed fun d => AreWellFormed d.clauses := by
  have hnone : ∀ {α : Type} {e : Form α} {f : α → Declaration}, e.Avoids IsStray →
      (∀ a, (f a).clauses = []) →
      (f <$> e : Form Declaration).YieldsUnless IsStray AreWellFormed
        fun d => AreWellFormed d.clauses := by
    intro α e f he hf
    refine yieldsUnless_map (yieldsUnless_of_avoids (yields_true _) he) fun a _ => ?_
    rw [hf]
    exact areWellFormed_nil
  have hterm : term.Avoids IsStray :=
    avoids_atomic _ (spells_token spells_term) fun cs rest h => not_isStray_term h rest
  have hclosed : ∀ {mark : String} {c : Char} {cs : List Char}, mark.toList = c :: cs → c ≠ '-' →
      (clauseList <* the mark : Form (List Clause)).YieldsUnless IsStray AreWellFormed
        AreWellFormed := fun hmark hc =>
    yieldsUnless_map (yieldsUnless_pair yieldsUnless_clauseList (yieldsUnless_the hmark hc))
      fun _ h => h.1
  refine yieldsUnless_either (yieldsUnless_rule _ _ (hnone (avoids_map (avoids_pair (avoids_map
    (avoids_pair (avoids_map (avoids_pair (avoids_the rfl (by decide))))))))
      fun _ => rfl)) (yieldsUnless_either ?_ (yieldsUnless_either ?_ (yieldsUnless_either ?_
        (yieldsUnless_either ?_ ?_))))
  · exact yieldsUnless_rule _ _ (hnone (avoids_map (avoids_pair (avoids_map
      (avoids_pair (avoids_map (avoids_pair (avoids_the rfl (by decide)))))))) fun _ => rfl)
  · refine yieldsUnless_rule _ _ (hnone (avoids_pair ?_) fun _ => rfl)
    exact avoids_map (avoids_pair (avoids_map (avoids_pair (avoids_map (avoids_pair
      (avoids_map (avoids_pair hterm)))))))
  · have hhead : (term <* the "is" <* the "where").YieldsUnless IsStray AreWellFormed
        fun _ => True :=
      yieldsUnless_of_avoids (yields_true _)
        (avoids_map (avoids_pair (avoids_map (avoids_pair hterm))))
    exact yieldsUnless_rule _ _ (yieldsUnless_map
      (yieldsUnless_pair hhead (hclosed rfl (by decide))) fun _ h => h.2)
  · exact yieldsUnless_rule _ _ (yieldsUnless_map (hclosed rfl (by decide)) fun _ h => h)
  · exact yieldsUnless_rule _ _ (yieldsUnless_map (hclosed rfl (by decide)) fun _ h => h)

/-- A script is read to its end. -/
lemma rest_of_script {blanks : Cursor → Cursor} {self : Runner Rule Misread (List Clause)}
    {start : Nat} {m : Mode} {c after : Cursor} {value : Except Misread (List Declaration)}
    {attempts tried : Attempts Rule}
    (h : run blanks self start script m c attempts = (.matched after value, tried)) :
    after.rest = [] := by
  obtain ⟨_, hbody⟩ := part_of_rule h
  obtain ⟨_, hmap, -⟩ := part_of_map hbody
  obtain ⟨_, _, _, next, _, -, -, hrule, -⟩ := parts_of_pair hmap
  obtain ⟨_, hend⟩ := part_of_rule hrule
  rw [run] at hend
  split at hend
  · next hempty =>
    cases hend
    exact List.isEmpty_iff.1 hempty
  · cases hend

/-- A script yields declarations of well formed clauses. -/
lemma yieldsUnless_script :
    script.YieldsUnless IsStray AreWellFormed fun ds => ∀ d ∈ ds, AreWellFormed d.clauses := by
  have hbegin : (the "" : Form Unit).YieldsUnless IsStray AreWellFormed fun _ => True := by
    rintro blanks self start - - m c attempts after a rest hrun hafter
    change run blanks self start (.text []) m c attempts = _ at hrun
    rw [run] at hrun
    cases hrun
    exact ⟨hafter, trivial⟩
  have hend : (Expr.rule .endOfInput .plain .endOfInput : Form Unit).YieldsUnless IsStray
      AreWellFormed fun _ => True := by
    refine yieldsUnless_rule _ _ ?_
    rintro blanks self start - - m c attempts after a rest hrun hafter
    rw [run] at hrun
    split at hrun
    · cases hrun
      exact ⟨hafter, trivial⟩
    · cases hrun
  have hall : (the "" *> .many declaration : Form (List Declaration)).YieldsUnless IsStray
      AreWellFormed fun ds => ∀ d ∈ ds, AreWellFormed d.clauses :=
    yieldsUnless_map (yieldsUnless_pair hbegin (yieldsUnless_many yieldsUnless_declaration))
      fun _ h => h.2
  exact yieldsUnless_rule _ _ (yieldsUnless_map (yieldsUnless_pair hall hend) fun _ h => h.1)

/-- **Parsed clauses are well spelled.** In a script that can be read every list of clauses, at any
depth, is well joined and its clauses are in the alphabet of the notation.

**Proof sketch.** The nonterminal that may refer to itself yields clauses, so by induction on its
depth they are well formed if the clauses nested in them are; every other rule yields what its parts
yield. A word that joins clauses is taken for a word of a reading only in front of a stray hyphen,
which no rule passes, and a script is read to its end. -/
theorem areWellFormed_of_parse {source : String} {ds : List Declaration}
    (h : parse source = .ok ds) : ∀ d ∈ ds, AreWellFormed d.clauses := by
  unfold parse at h
  split at h
  · next after declarations _ hread =>
    cases h
    have hself := yieldsUnless_fixpoint (R := Rule) yieldsUnless_clauseList blanks_of_isStray
      (source.toList.length + 1)
    have hafter : ¬IsStray after.rest := by
      rw [rest_of_script hread]
      exact id
    exact (yieldsUnless_script blanks _ 0 blanks_of_isStray hself _ _ _ _ _ _ hread hafter).2
  · cases h
  · cases h

end Script

end FactModel
