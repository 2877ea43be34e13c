import FactModel.Proofs.Script.Fences
set_option autoImplicit false

/-!
# Scripts one behind the other

A script is a sequence of declarations, each of which is read from its own text alone: a fenced text
is a declaration or it is none, whatever stands behind it. So two scripts that can be read can be
read together.

## Main definitions

* `FactModel.Script.Closed` — expressions that end with a fence.
* `FactModel.Script.Reads` — the declaration that a fenced text is.
* `FactModel.Script.Declares` — the declarations of a text.

## Main results

* `FactModel.Script.parse_eq_ok_iff` — reading a script finds the declarations of its text.
* `FactModel.Script.parse_append` — two scripts one behind the other have the declarations of both.
-/

namespace FactModel.Script

open Peg Peg.Expr

/-! ## The grammar is tame -/

section Grammar

variable {α β : Type} {e : Form α} {d : Form β}

/-- A sequence of tame forms is tame. -/
lemma tame_pair (he : Tame 0 0 e) (hd : Tame 0 0 d) : Tame 0 0 (.pair e d) :=
  .pair he hd

/-- A text without marks is tame. -/
lemma tame_the {s : String} (hs : s.toList.all isOpen = true) : Tame 0 0 (the s) :=
  .weaken (.text (List.all_eq_true.1 hs)) (Nat.le_refl _) (Nat.zero_le _)

/-- A character that may stand in a word is tame. -/
lemma tame_satisfy {belongs : Char → Bool} (h : ∀ c, belongs c → isIdentChar c) :
    Tame 0 0 (.satisfy belongs) :=
  .weaken (.satisfy fun c hc => isOpen_of_isIdentChar (h c hc)) (Nat.le_refl _) (Nat.zero_le _)

/-- A tame form may be repeated. -/
lemma tame_atLeastOnce (he : Tame 0 0 e) : Tame 0 0 (atLeastOnce e) :=
  .map _ (tame_pair he (.many he))

/-- A list of tame items with tame separators is tame. -/
lemma tame_separatedBy (he : Tame 0 0 e) (hd : Tame 0 0 d) : Tame 0 0 (separatedBy e d) :=
  .map _ (tame_pair he (.many (.map _ (tame_pair hd he))))

/-- A word with a tame inside is tame. -/
lemma tame_word (name : Rule) {inner : Form Unit} (h : Tame 0 0 inner) :
    Tame 0 0 (Expr.word name inner) :=
  .rule _ _ (.token (fun _ _ => rfl) h)

/-- A tame keyword may be asked to end where a word ends. -/
lemma tame_whole {keyword : Form Unit} (h : Tame 0 0 keyword) : Tame 0 0 (whole keyword) :=
  .map _ (tame_pair h (.notFollowedBy (tame_satisfy fun _ hc => hc)))

/-- A character of a word may stand in a word. -/
lemma isIdentChar_of_isWordChar {c : Char} (h : isWordChar c) : isIdentChar c := by
  rw [isIdentChar, h, Bool.true_or]

/-- Letters and digits are characters of a word. -/
lemma isWordChar_of_isAlphanum {c : Char} (h : c.isAlphanum) : isWordChar c := by
  rw [isWordChar, h, Bool.true_or]

/-- Letters may stand in a word. -/
lemma isIdentChar_of_isAlpha {c : Char} (h : c.isAlpha) : isIdentChar c :=
  isIdentChar_of_isWordChar (isWordChar_of_isAlphanum (by rw [Char.isAlphanum, h, Bool.true_or]))

/-- A small letter is tame. -/
lemma tame_lower : Tame 0 0 (.satisfy Char.isLower) :=
  tame_satisfy fun c hc => isIdentChar_of_isAlpha (by
    have halpha : c.isAlpha = (c.isUpper || c.isLower) := rfl
    rw [halpha, hc, Bool.or_true])

/-- A capital letter is tame. -/
lemma tame_upper : Tame 0 0 (.satisfy Char.isUpper) :=
  tame_satisfy fun c hc => isIdentChar_of_isAlpha (by
    have halpha : c.isAlpha = (c.isUpper || c.isLower) := rfl
    rw [halpha, hc, Bool.true_or])

/-- A character of a word is tame. -/
lemma tame_wordChar : Tame 0 0 (.satisfy isWordChar) :=
  tame_satisfy fun _ hc => isIdentChar_of_isWordChar hc

/-- The keywords are tame. -/
lemma tame_keyword : Tame 0 0 keyword :=
  .rule _ _ (tame_whole (.either (tame_the rfl) (.either (tame_the rfl) (.either (tame_the rfl)
    (.either (tame_the rfl) (.either (tame_the rfl) (tame_the rfl)))))))

/-- What stands in a word is tame. -/
lemma tame_wordBody : Tame 0 0 wordBody :=
  tame_word _ (.map _ (tame_pair tame_lower (.many (.either tame_wordChar (.map _
    (tame_pair (tame_the rfl) (tame_satisfy fun _ hc =>
      isIdentChar_of_isWordChar (isWordChar_of_isAlphanum hc))))))))

/-- A word is tame. -/
lemma tame_wordRule : Tame 0 0 word :=
  .rule _ _ (.map _ (tame_pair (.notFollowedBy tame_keyword) tame_wordBody))

/-- A capitalised word is tame. -/
lemma tame_capWord : Tame 0 0 capWord :=
  .rule _ _ (.map _ (tame_pair tame_upper (.many tame_wordChar)))

/-- A term is tame. -/
lemma tame_term : Tame 0 0 term :=
  tame_word _ (.map _ (tame_pair tame_capWord
    (.many (.map _ (tame_pair (tame_the rfl) tame_capWord)))))

/-- A leading adjective is tame. -/
lemma tame_leadingAdjective : Tame 0 0 leadingAdjective :=
  .rule _ _ (.map _ (tame_pair (.rule _ _ (.map _ (tame_pair tame_wordBody (tame_the rfl))))
    (.many (.map _ (tame_pair tame_wordRule
      (.followedBy (tame_pair (.many tame_wordRule) tame_term)))))))

/-- A word that a hyphen leads up to is tame. -/
lemma tame_trailWord : Tame 0 0 trailWord :=
  .rule _ _ (.map _ (tame_pair (tame_the rfl) tame_wordBody))

/-- A trailing adjective is tame. -/
lemma tame_trailingAdjective : Tame 0 0 trailingAdjective :=
  .rule _ _ (.map _ (tame_pair (.many (.map _ (tame_pair tame_wordRule
    (.followedBy (tame_pair (.many tame_wordRule) tame_trailWord))))) tame_trailWord))

/-- Digits are tame. -/
lemma tame_digits : Tame 0 0 (digits : Form Unit) :=
  .map _ (tame_atLeastOnce (tame_satisfy fun c hc => isIdentChar_of_isWordChar
    (isWordChar_of_isAlphanum (by rw [Char.isAlphanum, hc, Bool.or_true]))))

/-- What a number means does not depend on where it stands. -/
lemma isPlaceless_readNumber (wanted : String) : IsPlaceless (readNumber wanted) := by
  intro offset text
  unfold readNumber
  dsimp only
  split <;> rfl

/-- A subscript or a role name is tame. -/
lemma tame_roleSpec : Tame 0 0 roleSpec :=
  .rule _ _ (.map _ (tame_pair (.map _ (tame_pair (tame_the rfl) (.either
    (.map _ (.rule _ _ (.token (isPlaceless_readNumber _) tame_digits)))
    (.map _ (.rule _ _ (.map _ (tame_pair (tame_the rfl) tame_term)))))))
      (tame_the rfl)))

/-- A count is tame. -/
lemma tame_count : Tame 0 0 count :=
  .rule _ _ (.either (.map _ (tame_whole (tame_the rfl)))
    (.token (isPlaceless_readNumber _) tame_digits))

/-- An enforcement is tame. -/
lemma tame_enforcement : Tame 0 0 enforcement :=
  .rule _ _ (.map _ (.map _ (tame_pair (.map _ (tame_pair (.map _ (tame_pair (tame_the rfl)
    (tame_the rfl))) (tame_pair tame_wordRule (.optional tame_term)))) (tame_the rfl))))

/-- A quantifier written without marks is tame. -/
lemma tame_quantifierWord {rule : Rule} {written : String} {meaning : Quantifier}
    (h : written.toList.all isOpen = true) : Tame 0 0 (quantifierWord rule written meaning) :=
  .rule _ _ (.map _ (tame_whole (tame_the h)))

/-- Bounds are tame. -/
lemma tame_bounds : Tame 0 0 bounds :=
  .either (.rule _ _ (.map _ (.map _ (tame_pair (tame_the rfl) tame_count))))
    (.either (.rule _ _ (.map _ (.map _ (tame_pair
      (.map _ (tame_pair (tame_the rfl) (tame_the rfl))) tame_count))))
    (.either (.rule _ _ (.map _ (.map _ (tame_pair
      (.map _ (tame_pair (tame_the rfl) (tame_the rfl))) tame_count))))
    (.either (.rule _ _ (.map _ (.map _ (tame_pair (tame_the rfl) (tame_pair tame_count
      (.map _ (tame_pair (tame_the rfl) tame_count)))))))
    (.either (tame_quantifierWord rfl) (.either (tame_quantifierWord rfl)
      (.either (tame_quantifierWord rfl) (tame_quantifierWord rfl)))))))

/-- A quantifier is tame. -/
lemma tame_quantifier : Tame 0 0 quantifier :=
  .rule _ _ (.map _ (tame_pair tame_bounds (.optional tame_enforcement)))

/-- A literal is tame. -/
lemma tame_literal : Tame 0 0 (quotedText <|> number : Form Literal) :=
  .either .quotedText (.map _ (tame_word _ (.map _ (tame_pair (.map _ (tame_pair
    (.optional (tame_the rfl)) tame_digits))
      (.optional (.map _ (tame_pair (tame_the rfl) tame_digits)))))))

/-- The nonterminal refers to itself behind a bracket. -/
lemma tame_nested : Tame 0 0 nested := by
  have hbracket : Tame 0 1 (the "(") := .text (s := ['(']) fun c hc => List.mem_singleton.1 hc ▸ rfl
  have hwhich : Tame 0 0 (the "where" <|> the "in" *> the "which" : Form Unit) :=
    .either (tame_the rfl) (.map _ (tame_pair (tame_the rfl) (tame_the rfl)))
  have hopened : Tame 0 1 (the "(" *> (the "where" <|> the "in" *> the "which") : Form Unit) :=
    .map _ (.pair (l := 0) hbracket (.weaken hwhich (Nat.zero_le _) (Nat.le_refl _)))
  have hinner : Tame 0 1
      (the "(" *> (the "where" <|> the "in" *> the "which") *> .recur : Form (List Clause)) :=
    .map _ (.pair (l := 0) hopened .recur)
  refine .rule _ _ (.weaken (j := 0) (k := 1) (.map _ (.pair (l := 0) hinner ?_)) (Nat.le_refl _)
    (Nat.zero_le _))
  exact .weaken (tame_the rfl) (Nat.zero_le _) (Nat.le_refl _)

/-- A reference is tame. -/
lemma tame_reference : Tame 0 0 reference :=
  .rule _ _ (.map _ (tame_pair (.optional tame_quantifier) (tame_pair
    (.optional tame_leadingAdjective) (tame_pair tame_term (tame_pair
      (.optional tame_trailingAdjective) (tame_pair (.optional tame_roleSpec)
        (tame_pair (.optional tame_literal) (.optional tame_nested))))))))

/-- A side of a comparison is tame. -/
lemma tame_operand : Tame 0 0 operand :=
  .either (.map _ tame_reference) (.map _ tame_literal)

/-- A comparison is tame. -/
lemma tame_comparison : Tame 0 0 comparison :=
  .rule _ _ (.map _ (tame_pair tame_operand (tame_pair (tame_word _ (.either (tame_the rfl)
    (.either (tame_the rfl) (.either (tame_the rfl) (.either (tame_the rfl) (.either (tame_the rfl)
      (.either (tame_the rfl) (tame_the rfl)))))))) tame_operand)))

/-- The phrases of a clause are tame. -/
lemma tame_phrases : Tame 0 0 phrases :=
  .rule _ _ (tame_atLeastOnce (.either (.map _ tame_reference) (.map _ tame_wordRule)))

/-- Qualifiers are tame. -/
lemma tame_qualifiers : Tame 0 0 qualifiers :=
  .rule _ _ (.map _ (tame_pair (.map _ (tame_pair (tame_the rfl) (tame_separatedBy
    (.map _ (tame_word _ (.map _ (tame_atLeastOnce
      (tame_satisfy fun _ hc => isIdentChar_of_isAlpha hc))))) (tame_the rfl)))) (tame_the rfl)))

/-- A certainty is tame. -/
lemma tame_certainty : Tame 0 0 certainty :=
  .either (.map _ (.rule _ _ (tame_whole (tame_the rfl))))
    (.map _ (.rule _ _ (.map _ (tame_pair (.map _ (tame_pair (.map _ (tame_pair (.map _ (tame_pair
      (.map _ (tame_pair (tame_the rfl) (tame_the rfl))) (tame_the rfl))) (tame_the rfl)))
        (tame_the rfl))) (tame_the rfl)))))

/-- A clause is tame. -/
lemma tame_clause : Tame 0 0 clause :=
  .rule _ _ (.map _ (tame_pair (.optional tame_certainty) (tame_pair
    (.either (.map _ tame_comparison) tame_phrases) (.optional tame_qualifiers))))

/-- A conjunction is tame. -/
lemma tame_conjunction : Tame 0 0 conjunction :=
  .either (.rule _ _ (.map _ (tame_whole (tame_the rfl))))
    (.either (.rule _ _ (.map _ (tame_whole (tame_the rfl))))
      (.either (.rule _ _ (.map _ (tame_whole (tame_the rfl))))
        (.either (.rule _ _ (.map _ (tame_whole (.either (tame_the rfl) (tame_the rfl)))))
          (.rule _ _ (.map _ (tame_the rfl))))))

/-- A list of clauses is tame. -/
lemma tame_clauseList : Tame 0 0 clauseList :=
  .rule _ _ (.map _ (tame_pair tame_clause
    (.many (.map _ (tame_pair tame_conjunction tame_clause)))))

end Grammar

/-! ## Declarations -/

/-- Expressions that end with a fence, all of them tame up to it. -/
inductive Closed : {α : Type} → Form α → Prop
  | fence {c : Char} (hc : isFence c) : Closed (.text [c])
  | pair {α β : Type} {e : Form α} {d : Form β} (he : Tame 0 0 e) (hd : Closed d) :
      Closed (.pair e d)
  | either {α : Type} {e d : Form α} (he : Closed e) (hd : Closed d) : Closed (.either e d)
  | map {α β : Type} {e : Form α} (f : α → β) (he : Closed e) : Closed (.map f e)
  | rule {α : Type} {e : Form α} (name : Rule) (kind : RuleKind) (he : Closed e) :
      Closed (.rule name kind e)

/-- A tame form that ends in a mark is closed. -/
lemma closed_mark {α : Type} {e : Form α} {mark : String} {c : Char} (hmark : mark.toList = [c])
    (hc : isFence c) (he : Tame 0 0 e) : Closed (e <* the mark) := by
  have hthe : (the mark : Form Unit) = .text [c] := by rw [the, hmark]
  refine .map _ (.pair he ?_)
  dsimp only
  rw [hthe]
  exact .fence hc

/-- Every declaration ends with a fence. -/
lemma closed_declaration : Closed declaration := by
  refine .either (.rule _ _ (.map _ (closed_mark rfl rfl (.map _ (tame_pair (.map _ (tame_pair
    (tame_the rfl) (tame_the rfl))) tame_term))))) (.either (.rule _ _ (.map _ (closed_mark rfl rfl
      (.map _ (tame_pair (.map _ (tame_pair (tame_the rfl) (tame_the rfl))) tame_term)))))
        (.either ?_ (.either ?_ (.either ?_ ?_))))
  · exact .rule _ _ (.map _ (.pair (.map _ (tame_pair (.map _ (tame_pair (.map _ (tame_pair
      (.map _ (tame_pair tame_term (tame_the rfl))) (tame_the rfl))) (tame_the rfl)))
        (tame_the rfl))) (closed_mark rfl rfl (tame_separatedBy tame_term (tame_the rfl)))))
  · exact .rule _ _ (.map _ (.pair (.map _ (tame_pair (.map _ (tame_pair tame_term
      (tame_the rfl))) (tame_the rfl))) (closed_mark rfl rfl tame_clauseList)))
  · exact .rule _ _ (.map _ (closed_mark rfl rfl tame_clauseList))
  · exact .rule _ _ (.map _ (closed_mark rfl rfl tame_clauseList))

/-- A closed expression passes over a fenced text. -/
lemma fenceAhead_of_closed {α : Type} {e : Form α} (h : Closed e)
    {self : Runner Rule Misread (List Clause)} (hself : PassesNoFence self) {start : Nat} {m : Mode}
    {c after : Cursor} {attempts rest : Attempts Rule} {value : Except Misread α}
    (hrun : run blanks self start e m c attempts = (.matched after value, rest)) :
    FenceAhead after.rest c.rest := by
  induction h generalizing m c attempts rest with
  | fence hc => exact ⟨_, rest_of_text hrun, .fence hc⟩
  | pair he hd ih =>
    obtain ⟨_, _, _, next, _, hfirst, hnext, hsecond, -⟩ := parts_of_pair hrun
    refine passesNoFence_of_tame he hself start _ _ _ _ _ _ _ hfirst ?_
    have hahead := ih hsecond
    rw [hnext] at hahead
    split at hahead
    · exact fenceAhead_of_blanks hahead
    · exact hahead
  | either he hd ihe ihd =>
    rw [run] at hrun
    split at hrun
    · exact ihd hrun
    · next hfirst =>
      cases hrun
      exact ihe hfirst
  | map f he ih =>
    obtain ⟨_, hinner, -⟩ := part_of_map hrun
    exact ih hinner
  | rule name kind he ih =>
    obtain ⟨_, hbody⟩ := part_of_rule hrun
    exact ih hbody

/-- What a closed expression comes to at a fenced text: it fails or it passes over all of it. -/
def IsClosedAt {α : Type} (selves : Runner Rule Misread (List Clause) → Prop) (bound : Nat)
    (e : Form α) (w : List Char) : Prop :=
  ∀ m, ∃ verdict : Verdict α, (verdict = .fails ∨ ∃ value, verdict = .passes w [] value) ∧
    ∀ self, selves self → ∀ start offset, start + (bound - w.length) ≤ offset →
      ∀ v attempts, verdict.Holds offset v (run blanks self start e m ⟨offset, w ++ v⟩ attempts).1

/-- A fence is found where the fenced text ends. -/
lemma closedAt_fence {selves : Runner Rule Misread (List Clause) → Prop} {bound : Nat} {c : Char}
    (hc : isFence c) {w : List Char} (hw : IsFenced w) :
    IsClosedAt selves bound (.text [c]) w := by
  have hfails : ∀ {x : Char} {left : List Char}, c ≠ x →
      IsClosedAt selves bound (.text [c]) (x :: left) := by
    refine fun hne m => ⟨.fails, .inl rfl, fun self _ start offset _ v attempts => ?_⟩
    change _ = Result.failed
    simp [run, List.isPrefixOf, beq_false_of_ne hne]
  cases hw with
  | @fence x hx =>
    by_cases hne : c = x
    · subst hne
      refine fun m => ⟨.passes [c] [] (some ()), .inr ⟨_, rfl⟩,
        fun self _ start offset _ v attempts => ⟨.ok (), ?_, rfl⟩⟩
      simp [run, Cursor.advance]
    · exact hfails hne
  | cons hx h =>
    refine hfails ?_
    rintro rfl
    rw [(ne_of_isOpen hx).1] at hc
    cases hc
  | quoted ht h =>
    refine hfails ?_
    rintro rfl
    cases hc
  | comment ht h =>
    refine hfails ?_
    rintro rfl
    cases hc

/-- A tame expression in front of a closed one. -/
lemma closedAt_pair {α β : Type} {e : Form α} {d : Form β}
    {selves : Runner Rule Misread (List Clause) → Prop} {bound : Nat} {w : List Char}
    (hbound : w.length ≤ bound) (he : IsSettledAt selves bound e 0 w)
    (hd : ∀ next, IsFenced next → next.length ≤ bound → IsClosedAt selves bound d next) :
    IsClosedAt selves bound (.pair e d) w := by
  intro m
  obtain ⟨verdict, hsplits, hholds⟩ := he m
  cases verdict with
  | fails =>
    exact ⟨.fails, .inl rfl, fun self hself start offset hstart v attempts =>
      fst_run_pair_failed (hholds self hself start offset hstart v attempts)⟩
  | passes past between a =>
    obtain ⟨hpast, -, hbetween⟩ := hsplits
    obtain ⟨gap, next, hgap, hnext, hgapEq⟩ := hbetween.gap_eq m
    have hlength : w.length = past.length + (gap.length + next.length) := by
      rw [hpast, hgap, List.length_append, List.length_append]
    obtain ⟨verdict, hverdict, hholds'⟩ := hd next hnext (by omega) m
    rcases hverdict with rfl | ⟨b, rfl⟩
    · refine ⟨.fails, .inl rfl, fun self hself start offset hstart v attempts => ?_⟩
      obtain ⟨x, hx, -⟩ := hholds self hself start offset hstart v attempts
      obtain ⟨tried, hpair⟩ := fst_run_pair (d := d) hx
      have hsecond : _ = Result.failed :=
        hholds' self hself start (offset + past.length + gap.length) (by omega) v tried
      rw [hgapEq, hsecond] at hpair
      exact hpair
    · refine ⟨.passes w [] (a.bind fun x => b.map fun y => (x, y)), .inr ⟨_, rfl⟩,
        fun self hself start offset hstart v attempts => ?_⟩
      obtain ⟨x, hx, rfl⟩ := hholds self hself start offset hstart v attempts
      obtain ⟨tried, hpair⟩ := fst_run_pair (d := d) hx
      obtain ⟨y, hy, rfl⟩ :=
        hholds' self hself start (offset + past.length + gap.length) (by omega) v tried
      rw [hgapEq, hy] at hpair
      refine ⟨_, hpair.trans ?_, toOption_pair x y⟩
      rw [hlength, Nat.add_assoc, Nat.add_assoc]

/-- What a closed expression comes to at a fenced text does not depend on what follows. -/
theorem closedAt_of_closed {α : Type} {e : Form α} (h : Closed e)
    {selves : Runner Rule Misread (List Clause) → Prop} {bound : Nat}
    (hselves : ∀ w, IsFenced w → w.length < bound → AreSettledAt selves w) :
    ∀ w, IsFenced w → w.length ≤ bound → IsClosedAt selves bound e w := by
  induction h with
  | fence hc => exact fun w hw _ => closedAt_fence hc hw
  | pair he hd ih =>
    exact fun w hw hbound => closedAt_pair hbound (settled_of_tame he hselves w hw hbound) ih
  | either he hd ihe ihd =>
    intro w hw hbound m
    obtain ⟨verdict, hverdict, hholds⟩ := ihe w hw hbound m
    rcases hverdict with rfl | ⟨a, rfl⟩
    · obtain ⟨verdict, hverdict, hholds'⟩ := ihd w hw hbound m
      refine ⟨verdict, hverdict, fun self hself start offset hstart v attempts => ?_⟩
      obtain ⟨tried, hchoice⟩ :=
        fst_run_either_right (hholds self hself start offset hstart v attempts)
      rw [hchoice]
      exact hholds' self hself start offset hstart v tried
    · refine ⟨.passes w [] a, .inr ⟨a, rfl⟩, fun self hself start offset hstart v attempts => ?_⟩
      obtain ⟨x, hx, ha⟩ := hholds self hself start offset hstart v attempts
      exact ⟨x, fst_run_either_left hx, ha⟩
  | map f he ih =>
    intro w hw hbound m
    obtain ⟨verdict, hverdict, hholds⟩ := ih w hw hbound m
    rcases hverdict with rfl | ⟨a, rfl⟩
    · exact ⟨.fails, .inl rfl, fun self hself start offset hstart v attempts =>
        fst_run_map_failed f (hholds self hself start offset hstart v attempts)⟩
    · refine ⟨.passes w [] (a.map f), .inr ⟨_, rfl⟩,
        fun self hself start offset hstart v attempts => ?_⟩
      obtain ⟨x, hx, rfl⟩ := hholds self hself start offset hstart v attempts
      exact ⟨_, fst_run_map f hx, toOption_map f x⟩
  | rule name kind he ih =>
    intro w hw hbound m
    obtain ⟨verdict, hverdict, hholds⟩ := ih w hw hbound (m.inside kind)
    refine ⟨verdict, hverdict, fun self hself start offset hstart v attempts => ?_⟩
    rw [fst_run_rule]
    exact hholds self hself start offset hstart v attempts

/-! ## Scripts as sequences of declarations -/

/-- The way a declaration is read whose nonterminal may be nested so deep. -/
@[irreducible]
def readDeclaration (depth : Nat) : Runner Rule Misread Declaration :=
  run blanks (fixpoint blanks clauseList depth) 0 declaration

/-- Running the form of a declaration reads a declaration. -/
lemma run_declaration (depth : Nat) :
    run blanks (fixpoint blanks clauseList depth) 0 declaration = readDeclaration depth := by
  rw [readDeclaration]

/-- A fenced text is this declaration, whatever follows it and wherever it stands. -/
structure Reads (w : List Char) (d : Declaration) : Prop where
  isFenced : IsFenced w
  reads : ∀ depth, w.length ≤ depth → ∀ offset v attempts,
    (readDeclaration depth {} ⟨offset, w ++ v⟩ attempts).1 =
      .matched ⟨offset + w.length, v⟩ (.ok d)

/-- Where a declaration is read, a fenced text is this declaration. -/
lemma reads_of_matched {depth : Nat} {c after : Cursor} {attempts rest : Attempts Rule}
    {d : Declaration} (hdepth : c.rest.length ≤ depth)
    (h : readDeclaration depth {} c attempts = (.matched after (.ok d), rest)) :
    ∃ w, c.rest = w ++ after.rest ∧ Reads w d := by
  obtain ⟨w, hw, hfenced⟩ := fenceAhead_of_closed closed_declaration
    (passesNoFence_fixpoint tame_clauseList depth) (run_declaration depth ▸ h)
  have hlength := congrArg List.length hw
  rw [List.length_append] at hlength
  obtain ⟨verdict, hverdict, hholds⟩ := closedAt_of_closed closed_declaration
    (settled_fixpoint tame_clauseList w.length) w hfenced (Nat.le_refl _) {}
  have hhere := hholds _ ⟨depth, by omega, rfl⟩ 0 c.offset (by omega) after.rest attempts
  rw [← hw, run_declaration, h] at hhere
  rcases hverdict with rfl | ⟨value, rfl⟩
  · cases hhere
  obtain ⟨a, ha, rfl⟩ := hhere
  obtain ⟨-, rfl⟩ := Result.matched.inj ha
  refine ⟨w, hw, hfenced, fun depth hdepth offset v attempts => ?_⟩
  obtain ⟨b, hb, hvalue⟩ := hholds _ ⟨depth, hdepth, rfl⟩ 0 offset (by omega) v attempts
  rw [← run_declaration, hb]
  cases b with
  | error _ => cases hvalue
  | ok b =>
    cases hvalue
    rfl

/-- Nothing is declared where the text ends. -/
lemma readDeclaration_nil (depth offset : Nat) (attempts : Attempts Rule) :
    (readDeclaration depth {} ⟨offset, []⟩ attempts).1 = .failed := by
  rcases h : readDeclaration depth {} ⟨offset, []⟩ attempts with ⟨_ | ⟨after, value⟩, tried⟩
  · rfl
  · rw [← run_declaration] at h
    obtain ⟨w, hw, hfenced⟩ := fenceAhead_of_closed closed_declaration
      (passesNoFence_fixpoint tame_clauseList depth) h
    obtain ⟨rfl, -⟩ := List.append_eq_nil_iff.1 hw.symm
    cases hfenced

/-! ### Blanks -/

/-- What lies behind blanks does not depend on where they stand. -/
lemma rest_passBlanks (inComment : Bool) (offset : Nat) (rest : List Char) :
    (passBlanks inComment offset rest).rest = (passBlanks inComment 0 rest).rest := by
  induction rest generalizing inComment offset with
  | nil => rfl
  | cons c rest ih =>
    rw [passBlanks, passBlanks]
    split
    · rw [ih, ih _ (0 + 1)]
    split
    · rw [ih, ih _ (0 + 1)]
    split
    · rw [ih, ih _ (0 + 1)]
    · rfl

/-- What lies behind the blanks in front of a text. -/
def behindBlanks (rest : List Char) : List Char :=
  (passBlanks false 0 rest).rest

/-- What is left behind blanks is what is left without them. -/
lemma rest_blanks (c : Cursor) : (blanks c).rest = behindBlanks c.rest :=
  rest_passBlanks false c.offset c.rest

/-- Blanks are passed over as far as the characters go. -/
lemma offset_passBlanks (inComment : Bool) (offset : Nat) (rest : List Char) :
    (passBlanks inComment offset rest).offset +
      (passBlanks inComment offset rest).rest.length = offset + rest.length := by
  induction rest generalizing inComment offset with
  | nil => rfl
  | cons c rest ih =>
    rw [passBlanks, List.length_cons]
    have hstep : ∀ inComment, (passBlanks inComment (offset + 1) rest).offset +
        (passBlanks inComment (offset + 1) rest).rest.length = offset + (rest.length + 1) := by
      intro inComment
      rw [ih]
      omega
    split
    · exact hstep _
    split
    · exact hstep _
    split
    · exact hstep _
    · rfl

/-- There is no more behind blanks than before them. -/
lemma length_behindBlanks_le (rest : List Char) : (behindBlanks rest).length ≤ rest.length := by
  have hlength : ∀ inComment offset, (passBlanks inComment offset rest).rest.length ≤
      rest.length := by
    induction rest with
    | nil => exact fun _ _ => Nat.le_refl _
    | cons c rest ih =>
      intro inComment offset
      rw [passBlanks, List.length_cons]
      have hstep : ∀ inComment, (passBlanks inComment (offset + 1) rest).rest.length ≤
          rest.length + 1 := fun inComment => Nat.le_succ_of_le (ih inComment _)
      split
      · exact hstep _
      split
      · exact hstep _
      split
      · exact hstep _
      · exact Nat.le_refl _
  exact hlength false 0

/-- Blanks lead forwards. -/
lemma le_offset_blanks (c : Cursor) : c.offset ≤ (blanks c).offset := by
  have hsum := offset_passBlanks false c.offset c.rest
  have hle := length_behindBlanks_le c.rest
  rw [← rest_blanks] at hle
  unfold blanks at *
  omega

/-- There are no blanks behind blanks. -/
lemma behindBlanks_idem (rest : List Char) :
    behindBlanks (behindBlanks rest) = behindBlanks rest := by
  have hidem : ∀ inComment, behindBlanks (passBlanks inComment 0 rest).rest =
      (passBlanks inComment 0 rest).rest := by
    induction rest with
    | nil => exact fun _ => rfl
    | cons c rest ih =>
      intro inComment
      have hstep : ∀ inComment, behindBlanks (passBlanks inComment (0 + 1) rest).rest =
          (passBlanks inComment (0 + 1) rest).rest := by
        intro inComment
        rw [rest_passBlanks]
        exact ih inComment
      rw [passBlanks]
      split
      · exact hstep _
      split
      · exact hstep _
      split
      · exact hstep _
      · next hcomment hspacing hslashes =>
        rw [behindBlanks, passBlanks, if_neg Bool.false_ne_true, if_neg hspacing, if_neg hslashes]
  exact hidem false

/-- A line feed behind a text ends a comment at its end and is itself blank. -/
lemma behindBlanks_append (rest more : List Char) : behindBlanks (rest ++ '\n' :: more) =
    if behindBlanks rest = [] then behindBlanks more else behindBlanks rest ++ '\n' :: more := by
  have happend : ∀ inComment, (passBlanks inComment 0 (rest ++ '\n' :: more)).rest =
      if (passBlanks inComment 0 rest).rest = [] then behindBlanks more
      else (passBlanks inComment 0 rest).rest ++ '\n' :: more := by
    induction rest with
    | nil =>
      intro inComment
      rw [List.nil_append, if_pos (show (passBlanks inComment 0 []).rest = [] from rfl)]
      cases inComment <;> exact rest_passBlanks false 1 more
    | cons c rest ih =>
      intro inComment
      have hstep : ∀ inComment, (passBlanks inComment (0 + 1) (rest ++ '\n' :: more)).rest =
          if (passBlanks inComment (0 + 1) rest).rest = [] then behindBlanks more
          else (passBlanks inComment (0 + 1) rest).rest ++ '\n' :: more := by
        intro inComment
        rw [rest_passBlanks, rest_passBlanks inComment (0 + 1)]
        exact ih inComment
      have hhead : (rest ++ '\n' :: more).head? = some '/' ↔ rest.head? = some '/' := by
        cases rest <;> simp
      rw [List.cons_append, passBlanks, passBlanks]
      simp only [hhead]
      split
      · exact hstep _
      split
      · exact hstep _
      split
      · exact hstep _
      · rfl
  exact happend false

/-! ### The declarations of a text -/

/-- The declarations of a text: the first one stands behind blanks, and so on to the end. -/
inductive Declares : List Char → List Declaration → Prop
  | nil {rest : List Char} (h : behindBlanks rest = []) : Declares rest []
  | cons {rest w more : List Char} {d : Declaration} {ds : List Declaration}
    (h : behindBlanks rest = w ++ more) (hw : Reads w d) (hmore : Declares more ds) :
    Declares rest (d :: ds)

/-- Blanks in front of a text declare nothing. -/
lemma Declares.of_behindBlanks_eq {rest rest' : List Char} {ds : List Declaration}
    (h : Declares rest ds) (heq : behindBlanks rest' = behindBlanks rest) : Declares rest' ds := by
  cases h with
  | nil hrest => exact .nil (heq.trans hrest)
  | cons hrest hw hmore => exact .cons (heq.trans hrest) hw hmore

/-- A text in front of a line feed and another text declares what both of them do. -/
theorem Declares.append {rest rest' : List Char} {ds ds' : List Declaration}
    (h : Declares rest ds) (h' : Declares rest' ds') :
    Declares (rest ++ '\n' :: rest') (ds ++ ds') := by
  induction h with
  | @nil rest hrest =>
    refine h'.of_behindBlanks_eq ?_
    rw [behindBlanks_append, if_pos hrest]
  | @cons rest w more d ds hrest hw hmore ih =>
    refine .cons (w := w) ?_ hw ih
    have hne : ¬behindBlanks rest = [] := by
      intro hnil
      rw [hnil] at hrest
      obtain ⟨rfl, -⟩ := List.append_eq_nil_iff.1 hrest.symm
      cases hw.isFenced
    rw [behindBlanks_append, if_neg hne, hrest, List.append_assoc]

/-- The declarations that are read one behind the other are those of the text, if nothing but
blanks is left. -/
lemma declares_of_iterate {depth : Nat} (n : Nat) (c : Cursor) (attempts : Attempts Rule)
    {ds : List Declaration} (hdepth : c.rest.length ≤ depth)
    (hds : (iterate blanks (readDeclaration depth) {} n c attempts).2.1 = ds.map .ok)
    (hlast : behindBlanks (iterate blanks (readDeclaration depth) {} n c attempts).1.rest = []) :
    Declares c.rest ds := by
  induction n generalizing c attempts ds with
  | zero =>
    obtain rfl := List.map_eq_nil_iff.1 hds.symm
    exact .nil hlast
  | succ n ih =>
    rw [iterate, if_pos (show ({} : Mode).atomicity = .spaced from rfl)] at hds hlast
    have hblanks := rest_blanks c
    have hle : (blanks c).rest.length ≤ depth := by
      rw [hblanks]
      exact Nat.le_trans (length_behindBlanks_le _) hdepth
    split at hds
    · next hrun =>
      rw [hrun] at hlast
      obtain rfl := List.map_eq_nil_iff.1 hds.symm
      exact .nil hlast
    · next after value more hrun =>
      rw [hrun] at hlast
      dsimp only at hds hlast
      have hcons : ∀ {d ds}, value = .ok d → Declares after.rest ds →
          Declares c.rest (d :: ds) := by
        rintro d ds rfl hmore
        obtain ⟨w, hw, hreads⟩ := reads_of_matched hle hrun
        exact .cons (hblanks ▸ hw) hreads hmore
      split at hds
      · next hstop =>
        rw [if_pos hstop] at hlast
        obtain ⟨d, ds, rfl, hd, hrest⟩ := List.map_eq_cons_iff.1 hds.symm
        obtain rfl := List.map_eq_nil_iff.1 hrest
        exact hcons hd.symm (.nil hlast)
      · next hgo =>
        rw [if_neg hgo] at hlast
        obtain ⟨d, ds, rfl, hd, hrest⟩ := List.map_eq_cons_iff.1 hds.symm
        refine hcons hd.symm (ih after more ?_ hrest.symm hlast)
        obtain ⟨w, hw, -⟩ := reads_of_matched hle (hd ▸ hrun)
        rw [hw, List.length_append] at hle
        omega

/-- The declarations of a text are read one behind the other. -/
lemma iterate_of_declares {rest : List Char} {ds : List Declaration} (h : Declares rest ds)
    {depth n : Nat} (hdepth : rest.length ≤ depth) (hn : rest.length < n) (offset : Nat)
    (attempts : Attempts Rule) :
    (iterate blanks (readDeclaration depth) {} n ⟨offset, rest⟩ attempts).2.1 = ds.map .ok ∧
      behindBlanks (iterate blanks (readDeclaration depth) {} n ⟨offset, rest⟩
        attempts).1.rest = [] := by
  induction h generalizing n offset attempts with
  | @nil rest hrest =>
    obtain ⟨n, rfl⟩ : ∃ p, n = p + 1 := ⟨n - 1, by omega⟩
    have hfailed : (readDeclaration depth {} (blanks ⟨offset, rest⟩) attempts).1 = .failed := by
      have hnil : (blanks ⟨offset, rest⟩).rest = [] := (rest_blanks _).trans hrest
      rcases hblanks : blanks ⟨offset, rest⟩ with ⟨offset', rest'⟩
      rw [hblanks] at hnil
      obtain rfl : rest' = [] := hnil
      exact readDeclaration_nil depth offset' attempts
    rw [iterate, if_pos (show ({} : Mode).atomicity = .spaced from rfl)]
    rcases hrun : readDeclaration depth {} (blanks ⟨offset, rest⟩) attempts with ⟨result, tried⟩
    rw [hrun] at hfailed
    obtain rfl : result = .failed := hfailed
    exact ⟨rfl, hrest⟩
  | @cons rest w more d ds hrest hw hmore ih =>
    obtain ⟨n, rfl⟩ : ∃ p, n = p + 1 := ⟨n - 1, by omega⟩
    have hle := length_behindBlanks_le rest
    rw [hrest, List.length_append] at hle
    have hpos : 0 < w.length := by
      cases w with
      | nil => cases hw.isFenced
      | cons _ _ => exact Nat.succ_pos _
    have hoffset := le_offset_blanks ⟨offset, rest⟩
    have hmatched : (readDeclaration depth {} (blanks ⟨offset, rest⟩) attempts).1 =
        .matched ⟨(blanks ⟨offset, rest⟩).offset + w.length, more⟩ (.ok d) := by
      have hblanks : (blanks ⟨offset, rest⟩).rest = w ++ more := (rest_blanks _).trans hrest
      rcases hb : blanks ⟨offset, rest⟩ with ⟨offset', rest'⟩
      rw [hb] at hblanks
      obtain rfl : rest' = w ++ more := hblanks
      exact hw.reads depth (by omega) offset' more attempts
    rw [iterate, if_pos (show ({} : Mode).atomicity = .spaced from rfl)]
    rcases hrun : readDeclaration depth {} (blanks ⟨offset, rest⟩) attempts with ⟨result, tried⟩
    rw [hrun] at hmatched
    obtain rfl : result = _ := hmatched
    dsimp only at hoffset ⊢
    rw [if_neg (by omega)]
    obtain ⟨hds, hlast⟩ := ih (n := n) (by omega) (by omega)
      ((blanks ⟨offset, rest⟩).offset + w.length) tried
    exact ⟨by rw [hds]; rfl, hlast⟩

/-! ### Whole scripts -/

/-- Values that are all at hand are their sequence. -/
lemma sequence_map_ok {ε α : Type} (as : List α) :
    Peg.sequence (as.map (.ok : α → Except ε α)) = .ok as := by
  induction as with
  | nil => rfl
  | cons a as ih => rw [List.map_cons, Peg.sequence, ih]

/-- A repetition of declarations that begins behind blanks and leaves nothing else reads the
declarations of its text. -/
lemma declares_of_many {depth : Nat} {c after : Cursor} {attempts tried : Attempts Rule}
    {ds : List Declaration} (hdepth : c.rest.length ≤ depth)
    (hc : behindBlanks c.rest = c.rest) (hlast : behindBlanks after.rest = [])
    (h : run blanks (fixpoint blanks clauseList depth) 0 (.many declaration) {} c attempts =
      (.matched after (.ok ds), tried)) : Declares c.rest ds := by
  rw [run, run_declaration] at h
  split at h
  · cases h
    exact .nil hlast
  next next value more hrun =>
  dsimp only at h
  rw [Prod.mk.injEq, Result.matched.injEq] at h
  obtain ⟨d, ds, rfl, rfl, hds⟩ := List.map_eq_cons_iff.1 (sequence_ok h.1.2).symm
  obtain ⟨w, hw, hreads⟩ := reads_of_matched hdepth hrun
  have hlength := congrArg List.length hw
  rw [List.length_append] at hlength
  refine .cons (hc.trans hw) hreads
    (declares_of_iterate _ next more (by omega) hds.symm ?_)
  exact h.1.1 ▸ hlast

/-- The declarations of a text are what a repetition of declarations reads. -/
lemma many_of_declares {depth : Nat} (offset : Nat) {rest : List Char} {ds : List Declaration}
    (h : Declares rest ds) (hdepth : rest.length ≤ depth) (attempts : Attempts Rule) :
    ∃ after, (run blanks (fixpoint blanks clauseList depth) 0 (.many declaration) {}
        ⟨offset, behindBlanks rest⟩ attempts).1 = .matched after (.ok ds) ∧
      behindBlanks after.rest = [] := by
  cases h with
  | nil hrest =>
    rw [hrest]
    have hfailed := readDeclaration_nil depth offset attempts
    rcases hrun : readDeclaration depth {} ⟨offset, []⟩ attempts with ⟨result, tried⟩
    rw [hrun] at hfailed
    obtain rfl : result = .failed := hfailed
    refine ⟨⟨offset, []⟩, ?_, rfl⟩
    rw [run, run_declaration, hrun]
  | @cons _ w more d ds hrest hw hmore =>
    have hle := length_behindBlanks_le rest
    rw [hrest, List.length_append] at hle
    have hmatched := hw.reads depth (by omega) offset more attempts
    rcases hrun : readDeclaration depth {} ⟨offset, w ++ more⟩ attempts with ⟨result, tried⟩
    rw [hrun] at hmatched
    obtain rfl : result = _ := hmatched
    obtain ⟨hds, hlast⟩ := iterate_of_declares hmore (show more.length ≤ depth by omega)
      (Nat.lt_succ_self _) (offset + w.length) tried
    rw [hrest]
    rw [run, run_declaration, hrun]
    refine ⟨_, congrArg (Result.matched _) ?_, hlast⟩
    dsimp only
    rw [hds]
    exact sequence_map_ok (d :: ds)

/-- What a whole script declares. -/
lemma declares_of_read {source : List Char} {after : Cursor} {ds : List Declaration}
    {attempts : Attempts Rule} (h : read source = (.matched after (.ok ds), attempts)) :
    Declares source ds := by
  unfold read at h
  generalize hdepth : source.length + 1 = depth at h
  obtain ⟨_, hbody⟩ := part_of_rule h
  obtain ⟨value, hmap, hvalue⟩ := part_of_map hbody
  obtain ⟨between, all, _, next, u, hall, hnext, hend, rfl⟩ := parts_of_pair hmap
  obtain ⟨value, hpair, rfl⟩ := part_of_map hall
  obtain ⟨begin, u', _, first, declared, hbegin, hfirst, hmany, rfl⟩ := parts_of_pair hpair
  rw [if_pos (show (Mode.inside .plain {}).atomicity = .spaced from rfl)] at hnext hfirst
  have hsource : first.rest = behindBlanks source := by
    have hrest : source = begin.rest := rest_of_text hbegin
    rw [hfirst, rest_blanks, ← hrest]
  -- nothing but blanks is left
  have hlast : behindBlanks between.rest = [] := by
    rw [← rest_blanks, ← hnext]
    obtain ⟨_, hend⟩ := part_of_rule hend
    rw [run] at hend
    split at hend
    · next hempty => exact List.isEmpty_iff.1 hempty
    · cases hend
  cases declared with
  | error _ =>
    cases u' <;> cases u <;> cases hvalue
  | ok declared =>
    cases u' with
    | error _ => cases u <;> cases hvalue
    | ok _ =>
      cases u with
      | error _ => cases hvalue
      | ok _ =>
        cases hvalue
        have hle := length_behindBlanks_le source
        refine (declares_of_many (by rw [hsource]; omega) ?_ hlast hmany).of_behindBlanks_eq ?_
        · rw [hsource, behindBlanks_idem]
        · rw [hsource, behindBlanks_idem]

/-- What a text declares is read from it as a whole script. -/
lemma read_of_declares {source : List Char} {ds : List Declaration} (h : Declares source ds) :
    ∃ after, (read source).1 = .matched after (.ok ds) := by
  have hmode : (Mode.inside .plain {}).atomicity = .spaced := rfl
  obtain ⟨begin, hbegin⟩ : ∃ begin, blanks (.start source) = ⟨begin, behindBlanks source⟩ :=
    ⟨_, congrArg (Cursor.mk _) (rest_blanks (.start source))⟩
  have hnothing : (run blanks (fixpoint blanks clauseList (source.length + 1)) 0
      (the "" : Form Unit) (Mode.inside .plain {}) (.start source) {}).1 =
        .matched (.start source) (.ok ()) := rfl
  obtain ⟨tried, hpair⟩ := fst_run_pair (d := (.many declaration : Form _)) hnothing
  rw [if_pos hmode, hbegin] at hpair
  obtain ⟨after, hmany, hlast⟩ :=
    many_of_declares begin h (Nat.le_succ source.length) tried
  change (run _ _ _ _ (Mode.inside .plain {}) _ _).1 = _ at hmany
  rw [hmany] at hpair
  have hall := fst_run_map Prod.snd hpair
  obtain ⟨tried', hclosed⟩ :=
    fst_run_pair (d := (.rule .endOfInput .plain .endOfInput : Form Unit)) hall
  have hend : ∀ m attempts, (run blanks (fixpoint blanks clauseList (source.length + 1)) 0
      (.endOfInput : Form Unit) m (blanks after) attempts).1 =
        .matched (blanks after) (.ok ()) := by
    intro m attempts
    rw [run, if_pos (by rw [rest_blanks, hlast]; rfl)]
  rw [if_pos hmode, fst_run_rule, hend] at hclosed
  refine ⟨blanks after, ?_⟩
  unfold read
  rw [script, fst_run_rule]
  exact fst_run_map Prod.fst hclosed

/-- **A script is a sequence of declarations.** Reading a script finds the declarations of its text,
each read from a text of its own up to the first fence. -/
theorem parse_eq_ok_iff {source : String} {ds : List Declaration} :
    parse source = .ok ds ↔ Declares source.toList ds := by
  constructor
  · intro h
    unfold parse at h
    split at h
    · next hread =>
      cases h
      exact declares_of_read hread
    · cases h
    · cases h
  · intro h
    obtain ⟨after, hread⟩ := read_of_declares h
    rcases hrun : read source.toList with ⟨result, attempts⟩
    rw [hrun] at hread
    obtain rfl : result = _ := hread
    unfold parse
    rw [hrun]

/-- **Scripts compose.** Two scripts that can be read can be read one behind the other, with a line
feed between them, and have the declarations of both.

**Proof sketch.** The line feed ends a comment at the end of the first script. Each declaration is
read from the text up to its own fence, whatever stands behind it. -/
theorem parse_append {source source' : String} {ds ds' : List Declaration}
    (h : parse source = .ok ds) (h' : parse source' = .ok ds') :
    parse (source ++ "\n" ++ source') = .ok (ds ++ ds') := by
  have htext : (source ++ "\n" ++ source').toList = source.toList ++ '\n' :: source'.toList := by
    simp
  rw [parse_eq_ok_iff, htext]
  exact (parse_eq_ok_iff.1 h).append (parse_eq_ok_iff.1 h')

end FactModel.Script
