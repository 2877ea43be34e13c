import FactModel.Proofs.Peg.DeadEnds
import FactModel.Script.Parser
set_option autoImplicit false

/-!
# Fences

A declaration ends at the first semicolon or question mark that stands neither in a quoted text nor
in a comment. Nothing that stands behind this mark, the fence, decides how the text in front of it
is read: choices, repetitions and lookaheads of any length all end before it.

## Main definitions

* `FactModel.Script.IsFenced` — a text up to its first fence.
* `FactModel.Script.Tame` — expressions of characters that are no fences, and of quoted texts.
* `FactModel.Script.Verdict` — what an expression comes to at a text, whatever follows the text.

## Main results

* `FactModel.Script.passesNoFence_of_tame` — where a tame expression matches it passes over no
  fence.
* `FactModel.Script.settled_of_tame` — what a tame expression comes to at a fenced text does not
  depend on what follows.
-/

namespace FactModel.Script

open Peg Peg.Expr

/-! ## Texts up to a fence -/

/-- The marks that end declarations. -/
def isFence (c : Char) : Bool :=
  c == ';' || c == '?'

/-- Characters that neither end a declaration nor begin a quoted text or a comment. -/
def isOpen (c : Char) : Bool :=
  !isFence c && c != '\'' && c != '/'

/-- A text up to the first fence that stands neither in a quoted text nor in a comment. -/
inductive IsFenced : List Char → Prop
  | fence {c : Char} (hc : isFence c) : IsFenced [c]
  | cons {c : Char} {w : List Char} (hc : isOpen c) (h : IsFenced w) : IsFenced (c :: w)
  | quoted {t w : List Char} (ht : '\'' ∉ t) (h : IsFenced w) : IsFenced ('\'' :: (t ++ '\'' :: w))
  | comment {t w : List Char} (ht : '\n' ∉ t) (h : IsFenced w) :
    IsFenced ('/' :: '/' :: (t ++ '\n' :: w))

/-- A character that may stand in a word is no mark. -/
lemma isOpen_of_isIdentChar {c : Char} (h : isIdentChar c) : isOpen c := by
  have hne : ∀ d : Char, isIdentChar d = false → c ≠ d := by
    rintro d hd rfl
    rw [h] at hd
    cases hd
  simp [isOpen, isFence, hne ';' rfl, hne '?' rfl, hne '\'' rfl, hne '/' rfl]

/-- What is no mark is no fence, no quote and no slash. -/
lemma ne_of_isOpen {c : Char} (h : isOpen c) :
    isFence c = false ∧ c ≠ '\'' ∧ c ≠ '/' := by
  simpa [isOpen, and_assoc] using h

/-- Open characters in front of a fenced text. -/
lemma IsFenced.append {s w : List Char} (hs : ∀ c ∈ s, isOpen c) (h : IsFenced w) :
    IsFenced (s ++ w) := by
  induction s with
  | nil => exact h
  | cons c s ih =>
    obtain ⟨hc, hs⟩ := List.forall_mem_cons.1 hs
    exact .cons hc (ih hs)

/-- Open characters at the beginning of a fenced text are followed by a fenced text. -/
lemma IsFenced.of_append {s w : List Char} (hs : ∀ c ∈ s, isOpen c) (h : IsFenced (s ++ w)) :
    IsFenced w := by
  induction s with
  | nil => exact h
  | cons c s ih =>
    obtain ⟨hc, hs⟩ := List.forall_mem_cons.1 hs
    obtain ⟨hfence, hquote, hslash⟩ := ne_of_isOpen hc
    refine ih hs ?_
    rw [List.cons_append] at h
    generalize hr : c :: (s ++ w) = r at h
    cases h with
    | fence hmark =>
      obtain ⟨rfl, -⟩ := List.cons.inj hr
      rw [hfence] at hmark
      cases hmark
    | cons _ h =>
      obtain ⟨-, rfl⟩ := List.cons.inj hr
      exact h
    | quoted => exact absurd (List.cons.inj hr).1 hquote
    | comment => exact absurd (List.cons.inj hr).1 hslash

/-- Whether a fenced text begins with open characters does not depend on what follows it. -/
lemma IsFenced.isPrefixOf_append {s w : List Char} (hs : ∀ c ∈ s, isOpen c) (h : IsFenced w)
    (v : List Char) : s.isPrefixOf (w ++ v) = s.isPrefixOf w := by
  induction s generalizing w with
  | nil => simp
  | cons c s ih =>
    obtain ⟨hc, hs⟩ := List.forall_mem_cons.1 hs
    obtain ⟨hfence, hquote, hslash⟩ := ne_of_isOpen hc
    cases h with
    | @fence d hd =>
      have hne : c ≠ d := by
        rintro rfl
        rw [hfence] at hd
        cases hd
      simp [List.isPrefixOf, beq_false_of_ne hne]
    | cons hd h => simp [List.isPrefixOf, ih hs h]
    | quoted => simp [List.isPrefixOf, beq_false_of_ne hquote]
    | comment => simp [List.isPrefixOf, beq_false_of_ne hslash]

/-! ## Blanks -/

/-- A comment ends with its line. -/
lemma passBlanks_comment {t : List Char} (ht : '\n' ∉ t) (offset : Nat) (rest : List Char) :
    passBlanks true offset (t ++ '\n' :: rest) = passBlanks false (offset + t.length + 1) rest := by
  induction t generalizing offset with
  | nil => rfl
  | cons c t ih =>
    have hc : c ≠ '\n' := by
      rintro rfl
      exact ht List.mem_cons_self
    have ht : '\n' ∉ t := fun hmem => ht (List.mem_cons_of_mem c hmem)
    have hne : decide (c ≠ '\n') = true := decide_eq_true hc
    rw [List.cons_append, passBlanks, if_pos rfl, hne, ih ht, List.length_cons]
    congr 1
    omega

/-- Blanks in a fenced text end in front of its fence, whatever follows. -/
lemma IsFenced.blanks_eq {w : List Char} (h : IsFenced w) : ∃ past left, w = past ++ left ∧
    IsFenced left ∧ ∀ offset v, blanks ⟨offset, w ++ v⟩ = ⟨offset + past.length, left ++ v⟩ := by
  induction h with
  | @fence c hc =>
    refine ⟨[], [c], rfl, .fence hc, fun offset v => ?_⟩
    have hspacing : isSpacing c = false := by
      have hcases : c = ';' ∨ c = '?' := by simpa [isFence] using hc
      rcases hcases with rfl | rfl <;> rfl
    have hslash : c ≠ '/' := by
      rintro rfl
      cases hc
    simp [blanks, passBlanks, hspacing, hslash]
  | @cons c w hc h ih =>
    obtain ⟨-, -, hslash⟩ := ne_of_isOpen hc
    by_cases hspacing : isSpacing c
    · obtain ⟨past, left, rfl, hleft, hblanks⟩ := ih
      refine ⟨c :: past, left, rfl, hleft, fun offset v => ?_⟩
      have hstep : blanks ⟨offset, c :: (past ++ left) ++ v⟩ =
          blanks ⟨offset + 1, (past ++ left) ++ v⟩ := by
        simp [blanks, passBlanks, hspacing]
      rw [hstep, hblanks, List.length_cons]
      congr 1
      omega
    · refine ⟨[], c :: w, rfl, .cons hc h, fun offset v => ?_⟩
      simp [blanks, passBlanks, hspacing, hslash]
  | @quoted t w ht h =>
    exact ⟨[], _, rfl, .quoted ht h, fun _ _ => rfl⟩
  | @comment t w ht h ih =>
    obtain ⟨past, left, rfl, hleft, hblanks⟩ := ih
    refine ⟨'/' :: '/' :: (t ++ '\n' :: past), left, by simp, hleft, fun offset v => ?_⟩
    have hstep : blanks ⟨offset, '/' :: '/' :: (t ++ '\n' :: (past ++ left)) ++ v⟩ =
        passBlanks true (offset + 2) (t ++ '\n' :: ((past ++ left) ++ v)) := by
      simp [blanks, passBlanks, isSpacing]
    rw [hstep, passBlanks_comment ht]
    change blanks ⟨_, _⟩ = _
    rw [hblanks]
    congr 1
    simp only [List.length_cons, List.length_append]
    omega

/-- A fence lies ahead, with this text behind it. -/
def FenceAhead (v rest : List Char) : Prop :=
  ∃ w, rest = w ++ v ∧ IsFenced w

/-- What is no mark may come before a fence. -/
lemma FenceAhead.append {v s rest : List Char} (hs : ∀ c ∈ s, isOpen c) (h : FenceAhead v rest) :
    FenceAhead v (s ++ rest) := by
  obtain ⟨w, rfl, hw⟩ := h
  exact ⟨s ++ w, (List.append_assoc ..).symm, hw.append hs⟩

/-- Where a fence lies ahead of a place behind blanks, it lies ahead in front of them. In a comment
the rest of its line comes first. -/
lemma fenceAhead_of_passBlanks {v : List Char} (rest : List Char) (offset : Nat) :
    (FenceAhead v (passBlanks false offset rest).rest → FenceAhead v rest) ∧
      (FenceAhead v (passBlanks true offset rest).rest →
        ∃ t r, rest = t ++ '\n' :: r ∧ '\n' ∉ t ∧ FenceAhead v r) := by
  have hnil : ¬FenceAhead v [] := by
    rintro ⟨w, hw, hfenced⟩
    obtain ⟨rfl, -⟩ := List.append_eq_nil_iff.1 hw.symm
    cases hfenced
  induction rest generalizing offset with
  | nil => exact ⟨id, fun h => absurd h hnil⟩
  | cons c rest ih =>
    obtain ⟨hplain, hcomment⟩ := ih (offset + 1)
    constructor
    · intro h
      rw [passBlanks, if_neg Bool.false_ne_true] at h
      split at h
      · next hspacing =>
        refine (hplain h).append (s := [c]) fun d hd => ?_
        rw [List.mem_singleton.1 hd]
        have hcases : ((c = ' ' ∨ c = '\t') ∨ c = '\r') ∨ c = '\n' := by
          simpa [isSpacing] using hspacing
        rcases hcases with ((rfl | rfl) | rfl) | rfl <;> rfl
      split at h
      · next hslashes =>
        obtain ⟨rfl, hhead⟩ := hslashes
        obtain ⟨more, rfl⟩ := List.head?_eq_some_iff.1 hhead
        obtain ⟨t, r, hr, ht, w, rfl, hw⟩ := hcomment h
        cases t with
        | nil => cases hr
        | cons d t =>
          obtain ⟨rfl, rfl⟩ := List.cons.inj hr
          have ht' : '\n' ∉ t := fun hmem => ht (List.mem_cons_of_mem _ hmem)
          exact ⟨_, by simp, .comment ht' hw⟩
      · exact h
    · intro h
      rw [passBlanks, if_pos rfl] at h
      by_cases hc : c = '\n'
      · subst hc
        exact ⟨[], rest, rfl, List.not_mem_nil, hplain h⟩
      · rw [decide_eq_true (p := c ≠ '\n') hc] at h
        obtain ⟨t, r, rfl, ht, hr⟩ := hcomment h
        exact ⟨c :: t, r, rfl, List.not_mem_cons_of_ne_of_not_mem (Ne.symm hc) ht, hr⟩

/-- Blanks may come before a fence. -/
lemma fenceAhead_of_blanks {v : List Char} {c : Cursor} (h : FenceAhead v (blanks c).rest) :
    FenceAhead v c.rest :=
  (fenceAhead_of_passBlanks c.rest c.offset).1 h

/-! ## Tame expressions -/

/-- Whether a token is read the same way at every place, errors apart. -/
def IsPlaceless {α : Type} (read : Lexeme → Except Misread α) : Prop :=
  ∀ offset text, (read ⟨offset, text⟩).toOption = (read ⟨0, text⟩).toOption

/-- Expressions of open characters and of quoted texts. The first number says how many characters
behind its beginning the nonterminal must stand for the expression to be run there, the second one
how many characters the expression passes over at least. The nonterminal refers to itself only
behind its beginning. -/
inductive Tame : {α : Type} → Nat → Nat → Form α → Prop
  | text {s : List Char} (hs : ∀ c ∈ s, isOpen c) : Tame 0 s.length (.text s)
  | satisfy {belongs : Char → Bool} (h : ∀ c, belongs c → isOpen c) : Tame 0 1 (.satisfy belongs)
  | quotedText : Tame 0 0 quotedText
  | pair {α β : Type} {j k l : Nat} {e : Form α} {d : Form β} (he : Tame j k e)
      (hd : Tame (j + k) l d) : Tame j (k + l) (.pair e d)
  | either {α : Type} {j k : Nat} {e d : Form α} (he : Tame j k e) (hd : Tame j k d) :
      Tame j k (.either e d)
  | optional {α : Type} {j k : Nat} {e : Form α} (he : Tame j k e) : Tame j 0 (.optional e)
  | many {α : Type} {j k : Nat} {e : Form α} (he : Tame j k e) : Tame j 0 (.many e)
  | followedBy {α : Type} {j k : Nat} {e : Form α} (he : Tame j k e) : Tame j 0 (.followedBy e)
  | notFollowedBy {α : Type} {j k : Nat} {e : Form α} (he : Tame j k e) :
      Tame j 0 (.notFollowedBy e)
  | map {α β : Type} {j k : Nat} {e : Form α} (f : α → β) (he : Tame j k e) :
      Tame j k (.map f e)
  | token {α : Type} {j k : Nat} {e : Form Unit} {read : Lexeme → Except Misread α}
      (hread : IsPlaceless read) (he : Tame j k e) : Tame j k (.token read e)
  | rule {α : Type} {j k : Nat} {e : Form α} (name : Rule) (kind : RuleKind) (he : Tame j k e) :
      Tame j k (.rule name kind e)
  | recur : Tame 1 0 .recur
  | weaken {α : Type} {j j' k k' : Nat} {e : Form α} (he : Tame j k e) (hj : j ≤ j') (hk : k' ≤ k) :
      Tame j' k' e

/-! ## Quoted texts -/

/-- Characters that are no quotation marks. -/
lemma spells_quotedInner : (void (.many (.satisfy (· ≠ '\''))) : Form Unit).Spells ('\'' ∉ ·) := by
  refine spells_map (spells_many (spells_imp (spells_satisfy _) ?_) List.not_mem_nil ?_)
  · rintro _ ⟨x, rfl, hx⟩ hmem
    rw [← List.mem_singleton.1 hmem] at hx
    exact absurd hx (by decide)
  · exact fun as bs has hbs hmem => (List.mem_append.1 hmem).elim has hbs

section Quoted

variable {self : Runner Rule Misread (List Clause)} {start : Nat} {m : Mode}
  {attempts rest : Attempts Rule}

/-- A quoted text stands between two quotation marks. -/
lemma rest_of_quotedText {c after : Cursor} {value : Except Misread Literal}
    (h : run blanks self start quotedText m c attempts = (.matched after value, rest)) :
    ∃ t, '\'' ∉ t ∧ c.rest = '\'' :: (t ++ '\'' :: after.rest) := by
  have hmode : ¬(m.inside .compound).atomicity = .spaced := fun h => nomatch h
  obtain ⟨_, hbody⟩ := part_of_rule h
  obtain ⟨_, hclosed, -⟩ := part_of_map hbody
  obtain ⟨_, hpair, -⟩ := part_of_map hclosed
  obtain ⟨_, _, _, _, _, hopened, hnext, hquote, -⟩ := parts_of_pair hpair
  obtain ⟨_, hpair, -⟩ := part_of_map hopened
  obtain ⟨_, _, _, _, _, hquote', hnext', hword, -⟩ := parts_of_pair hpair
  rw [if_neg hmode] at hnext hnext'
  subst hnext hnext'
  obtain ⟨s, -, hs, hrest, -⟩ := run_word spells_quotedInner hword
  refine ⟨s.toList, hs, ?_⟩
  rw [rest_of_text hquote', hrest, rest_of_text hquote]
  rfl

/-- The repetition inside a quoted text goes on until the first quotation mark.

**Proof sketch.** It passes over no quotation mark, and it ends where it fails, which is at one. -/
lemma run_quotedInner (self : Runner Rule Misread (List Clause)) (start : Nat)
    (attempts : Attempts Rule) {t : List Char} (ht : '\'' ∉ t) (hm : m.atomicity = .atomic)
    (offset : Nat) (v : List Char) :
    ∃ value tried, run blanks self start (void (.many (.satisfy (· ≠ '\''))) : Form Unit) m
      ⟨offset, t ++ '\'' :: v⟩ attempts =
        (.matched ⟨offset + t.length, '\'' :: v⟩ value, tried) := by
  obtain ⟨after, value, tried, hmany⟩ := matched_many (.satisfy (· ≠ '\'')) blanks self start m
    ⟨offset, t ++ '\'' :: v⟩ attempts
  have hrun : run blanks self start (void (.many (.satisfy (· ≠ '\''))) : Form Unit) m
      ⟨offset, t ++ '\'' :: v⟩ attempts = (.matched after (value.map fun _ => ()), tried) := by
    change run blanks self start (.map _ _) _ _ _ = _
    rw [run, hmany]
  obtain ⟨cs, hcs, hoffset, hnot⟩ := spells_quotedInner _ _ _ _ _ _ _ _ _ hm hrun
  obtain ⟨_, hfailed⟩ := failed_of_many
    (spells_imp (spells_satisfy _) fun _ ⟨_, hx, _⟩ => hx ▸ List.cons_ne_nil _ _) hm hmany
  have hhead : ∀ x more, after.rest = x :: more → x = '\'' := by
    intro x more hrest
    refine Decidable.of_not_not fun hx => ?_
    rw [run, hrest] at hfailed
    simp [hx] at hfailed
  have heq : cs = t ∧ after.rest = '\'' :: v := by
    rcases List.append_eq_append_iff.1 hcs with ⟨more, rfl, hmore⟩ | ⟨more, rfl, hmore⟩
    · cases more with
      | nil => exact ⟨List.append_nil t, hmore.symm⟩
      | cons x more =>
        obtain ⟨rfl, -⟩ := List.cons.inj hmore
        exact absurd (List.mem_append_right t List.mem_cons_self) hnot
    · cases more with
      | nil => exact ⟨(List.append_nil cs).symm, hmore⟩
      | cons x more =>
        obtain rfl := hhead x _ hmore
        exact absurd (List.mem_append_right cs List.mem_cons_self) ht
  obtain ⟨rfl, hrest⟩ := heq
  obtain ⟨last, remaining⟩ := after
  obtain rfl : remaining = '\'' :: v := hrest
  obtain rfl : last = offset + cs.length := hoffset
  exact ⟨_, _, hrun⟩

/-- A text between two quotation marks is a quoted text. -/
lemma fst_run_quotedText {t : List Char} (ht : '\'' ∉ t) (offset : Nat) (v : List Char) :
    (run blanks self start quotedText m ⟨offset, '\'' :: (t ++ '\'' :: v)⟩ attempts).1 =
      .matched ⟨offset + t.length + 2, v⟩ (.ok (.text (String.ofList t))) := by
  have hmode : ¬(m.inside .compound).atomicity = .spaced := fun h => nomatch h
  have hword : ∀ attempts, (run blanks self start (Expr.word .quotedInner
      (void (.many (.satisfy (· ≠ '\''))))) (m.inside .compound) ⟨offset + 1, t ++ '\'' :: v⟩
        attempts).1 = .matched ⟨offset + 1 + t.length, '\'' :: v⟩ (.ok (String.ofList t)) := by
    intro attempts
    obtain ⟨value, tried, hinner⟩ := run_quotedInner self start attempts ht
      (m := (m.inside .compound).inside .atomic) rfl (offset + 1) v
    have htext : Cursor.textUpTo ⟨offset + 1, t ++ '\'' :: v⟩
        ⟨offset + 1 + t.length, '\'' :: v⟩ = String.ofList t := by
      simp [Cursor.textUpTo]
    rw [Expr.word, lexeme, fst_run_rule, fst_run_token _ (congrArg Prod.fst hinner), htext]
  have hopened : (run blanks self start (the "'" *> Expr.word .quotedInner
      (void (.many (.satisfy (· ≠ '\'')))) : Form String) (m.inside .compound)
        ⟨offset, '\'' :: (t ++ '\'' :: v)⟩ attempts).1 =
          .matched ⟨offset + 1 + t.length, '\'' :: v⟩ (.ok (String.ofList t)) := by
    have hquote : (run blanks self start (the "'" : Form Unit) (m.inside .compound)
        ⟨offset, '\'' :: (t ++ '\'' :: v)⟩ attempts).1 =
          .matched ⟨offset + 1, t ++ '\'' :: v⟩ (.ok ()) := rfl
    obtain ⟨tried, hpair⟩ := fst_run_pair (d := Expr.word .quotedInner
      (void (.many (.satisfy (· ≠ '\''))) : Form Unit)) hquote
    rw [if_neg hmode, hword] at hpair
    exact fst_run_map Prod.snd hpair
  obtain ⟨tried, hpair⟩ := fst_run_pair (d := (the "'" : Form Unit)) hopened
  rw [if_neg hmode] at hpair
  have hlast : offset + t.length + 2 = offset + 1 + t.length + 1 := by omega
  rw [quotedText, fst_run_rule, hlast]
  exact fst_run_map Literal.text (fst_run_map Prod.fst hpair)

/-- A text that does not begin with a quotation mark is no quoted text. -/
lemma fst_run_quotedText_failed {c : Cursor} (hc : ∀ more, c.rest ≠ '\'' :: more) :
    (run blanks self start quotedText m c attempts).1 = .failed := by
  have hquote : (run blanks self start (the "'" : Form Unit) (m.inside .compound) c
      attempts).1 = .failed := by
    change (run blanks self start (.text ['\'']) _ _ _).1 = _
    rw [run]
    split
    · next hprefix =>
      obtain ⟨more, hmore⟩ := List.isPrefixOf_iff_prefix.1 hprefix
      exact absurd hmore.symm (hc more)
    · rfl
  rw [quotedText, fst_run_rule]
  exact fst_run_map_failed _ (fst_run_map_failed _ (fst_run_pair_failed
    (fst_run_map_failed _ (fst_run_pair_failed hquote))))

end Quoted

/-! ## Matches pass over no fence -/

/-- Where a runner matches it passes over no fence: the fence that lies ahead afterwards has lain
ahead before. -/
def PassesNoFence {α : Type} (runner : Runner Rule Misread α) : Prop :=
  ∀ m c attempts after value rest v, runner m c attempts = (.matched after value, rest) →
    FenceAhead v after.rest → FenceAhead v c.rest

/-- Rounds pass over no fence if each of them passes over none. -/
lemma fenceAhead_of_iterate {α : Type} {runner : Runner Rule Misread α} (h : PassesNoFence runner)
    (m : Mode) (n : Nat) (c : Cursor) (attempts : Attempts Rule) {v : List Char}
    (hlast : FenceAhead v (iterate blanks runner m n c attempts).1.rest) : FenceAhead v c.rest := by
  have hgap : ∀ c : Cursor, FenceAhead v (if m.atomicity = .spaced then blanks c else c).rest →
      FenceAhead v c.rest := by
    intro c hc
    split at hc
    · exact fenceAhead_of_blanks hc
    · exact hc
  induction n generalizing c attempts with
  | zero => exact hlast
  | succ n ih =>
    rw [iterate] at hlast
    split at hlast
    · exact hlast
    · next after value more hrun =>
      split at hlast
      · exact hgap c (h _ _ _ _ _ _ _ hrun hlast)
      · exact hgap c (h _ _ _ _ _ _ _ hrun (ih after more hlast))

/-- **Matches pass over no fence.** Where a tame expression matches, the fence that lies ahead
afterwards has lain ahead before.

**Proof sketch.** By induction on the expression. Its characters are open and its quoted texts are
closed; between its parts there are at most blanks and whole comments. -/
theorem passesNoFence_of_tame {α : Type} {j k : Nat} {e : Form α} (h : Tame j k e)
    {self : Runner Rule Misread (List Clause)} (hself : PassesNoFence self) (start : Nat) :
    PassesNoFence (run blanks self start e) := by
  induction h with
  | text hs =>
    intro m c attempts after value rest v hrun hafter
    rw [rest_of_text hrun]
    exact hafter.append hs
  | satisfy hopen =>
    intro m c attempts after value rest v hrun hafter
    obtain ⟨x, hx, hrest⟩ := rest_of_satisfy hrun
    rw [hrest]
    refine hafter.append (s := [x]) fun d hd => ?_
    rw [List.mem_singleton.1 hd]
    exact hopen x hx
  | quotedText =>
    intro m c attempts after value rest v hrun hafter
    obtain ⟨t, ht, hrest⟩ := rest_of_quotedText hrun
    obtain ⟨w, hw, hfenced⟩ := hafter
    exact ⟨_, by rw [hrest, hw]; simp, .quoted ht hfenced⟩
  | pair he hd ihe ihd =>
    intro m c attempts after value rest v hrun hafter
    obtain ⟨between, _, _, next, _, hfirst, hnext, hsecond, -⟩ := parts_of_pair hrun
    have hbetween := ihd _ _ _ _ _ _ _ hsecond hafter
    refine ihe _ _ _ _ _ _ _ hfirst ?_
    rw [hnext] at hbetween
    split at hbetween
    · exact fenceAhead_of_blanks hbetween
    · exact hbetween
  | either he hd ihe ihd =>
    intro m c attempts after value rest v hrun hafter
    rw [run] at hrun
    split at hrun
    · exact ihd _ _ _ _ _ _ _ hrun hafter
    · next hfirst =>
      cases hrun
      exact ihe _ _ _ _ _ _ _ hfirst hafter
  | optional he ihe =>
    intro m c attempts after value rest v hrun hafter
    rw [run] at hrun
    split at hrun
    · cases hrun
      exact hafter
    · next hinner =>
      cases hrun
      exact ihe _ _ _ _ _ _ _ hinner hafter
  | many he ihe =>
    intro m c attempts after value rest v hrun hafter
    rw [run] at hrun
    split at hrun
    · cases hrun
      exact hafter
    · next hinner =>
      dsimp only at hrun
      rw [Prod.mk.injEq, Result.matched.injEq] at hrun
      rw [← hrun.1.1] at hafter
      exact ihe _ _ _ _ _ _ _ hinner (fenceAhead_of_iterate ihe _ _ _ _ hafter)
  | followedBy he ihe =>
    intro m c attempts after value rest v hrun hafter
    rw [run] at hrun
    split at hrun
    · cases hrun
    · cases hrun
      exact hafter
  | notFollowedBy he ihe =>
    intro m c attempts after value rest v hrun hafter
    rw [run] at hrun
    split at hrun
    · cases hrun
      exact hafter
    · cases hrun
  | map f he ihe =>
    intro m c attempts after value rest v hrun hafter
    obtain ⟨_, hinner, -⟩ := part_of_map hrun
    exact ihe _ _ _ _ _ _ _ hinner hafter
  | token hread he ihe =>
    intro m c attempts after value rest v hrun hafter
    obtain ⟨-, _, hinner⟩ := part_of_token hrun
    exact ihe _ _ _ _ _ _ _ hinner hafter
  | rule name kind he ihe =>
    intro m c attempts after value rest v hrun hafter
    obtain ⟨_, hbody⟩ := part_of_rule hrun
    exact ihe _ _ _ _ _ _ _ hbody hafter
  | recur =>
    intro m c attempts after value rest v hrun hafter
    rw [run] at hrun
    split at hrun
    · exact hself _ _ _ _ _ _ _ hrun hafter
    · cases hrun
  | weaken he hj hk ihe => exact ihe

/-- The nonterminal passes over no fence if its definition is tame. -/
theorem passesNoFence_fixpoint {j k : Nat} {definition : Form (List Clause)}
    (h : Tame j k definition) (depth : Nat) :
    PassesNoFence (fixpoint blanks definition depth : Runner Rule Misread (List Clause)) := by
  induction depth with
  | zero =>
    intro m c attempts after value rest v hrun
    rw [fixpoint] at hrun
    cases hrun
  | succ depth ih =>
    intro m c attempts after value rest v hrun
    rw [fixpoint] at hrun
    exact passesNoFence_of_tame h ih _ _ _ _ _ _ _ _ hrun

/-! ## What follows a fence does not matter -/

/-- What an expression comes to at a text, whatever follows the text: it fails, or it passes over a
part of the text and yields a value, unless the value is an error. -/
inductive Verdict (α : Type) where
  | fails
  | passes (past left : List Char) (value : Option α)

namespace Verdict

variable {α β : Type}

/-- The result is that of the verdict, at an offset and with this behind the text. -/
def Holds (verdict : Verdict α) (offset : Nat) (v : List Char) (result : Result Misread α) : Prop :=
  match verdict with
  | .fails => result = .failed
  | .passes past left value =>
    ∃ a, result = .matched ⟨offset + past.length, left ++ v⟩ a ∧ a.toOption = value

/-- The verdict splits a text: what is passed over has at least so many characters, and what is left
has its fence. -/
def Splits (verdict : Verdict α) (k : Nat) (w : List Char) : Prop :=
  match verdict with
  | .fails => True
  | .passes past left _ => w = past ++ left ∧ k ≤ past.length ∧ IsFenced left

/-- A verdict that leaves so much leaves less too. -/
lemma Splits.mono {verdict : Verdict α} {k k' : Nat} {w : List Char} (h : verdict.Splits k w)
    (hk : k' ≤ k) : verdict.Splits k' w := by
  cases verdict with
  | fails => trivial
  | passes past left value => exact ⟨h.1, Nat.le_trans hk h.2.1, h.2.2⟩

end Verdict

/-- The runners come to the same at a text, whatever follows it and wherever it stands. -/
def AreSettledAt (selves : Runner Rule Misread (List Clause) → Prop) (w : List Char) : Prop :=
  ∀ m, ∃ verdict : Verdict (List Clause), verdict.Splits 0 w ∧ ∀ self, selves self →
    ∀ offset v attempts, verdict.Holds offset v (self m ⟨offset, w ++ v⟩ attempts).1

/-- An expression comes to the same at a text, whatever follows it, wherever it stands and whichever
of these runners runs the nonterminal. The nonterminal may be run at shorter texts than the
bound, which is the length of the text at the place where it began. -/
def IsSettledAt {α : Type} (selves : Runner Rule Misread (List Clause) → Prop) (bound : Nat)
    (e : Form α) (k : Nat) (w : List Char) : Prop :=
  ∀ m, ∃ verdict : Verdict α, verdict.Splits k w ∧ ∀ self, selves self →
    ∀ start offset, start + (bound - w.length) ≤ offset →
      ∀ v attempts, verdict.Holds offset v (run blanks self start e m ⟨offset, w ++ v⟩ attempts).1

section Settled

variable {α β : Type} {selves : Runner Rule Misread (List Clause) → Prop} {bound j k l : Nat}
  {e : Form α} {d : Form β} {w : List Char}

/-- Blanks that may stand in front of the rest of a fenced text. -/
lemma IsFenced.gap_eq (h : IsFenced w) (m : Mode) : ∃ past left, w = past ++ left ∧
    IsFenced left ∧ ∀ offset v, (if m.atomicity = .spaced then blanks ⟨offset, w ++ v⟩
      else ⟨offset, w ++ v⟩) = ⟨offset + past.length, left ++ v⟩ := by
  split
  · exact h.blanks_eq
  · exact ⟨[], w, rfl, h, fun _ _ => rfl⟩

/-- Two readings are read if both are. -/
lemma toOption_pair (a : Except Misread α) (b : Except Misread β) :
    (do let a ← a; let b ← b; pure (a, b) : Except Misread (α × β)).toOption =
      a.toOption.bind fun x => b.toOption.map fun y => (x, y) := by
  cases a <;> cases b <;> rfl

/-- A function of a reading is read if the reading is. -/
lemma toOption_map (f : α → β) (a : Except Misread α) : (a.map f).toOption = a.toOption.map f := by
  cases a <;> rfl

/-- A sequence of readings is read if all are. -/
lemma toOption_sequence (a : Except Misread α) (as : List (Except Misread α)) :
    (Peg.sequence (a :: as)).toOption =
      a.toOption.bind fun x => (Peg.sequence as).toOption.map (x :: ·) := by
  cases a with
  | error _ => rfl
  | ok a =>
    rw [Peg.sequence]
    cases Peg.sequence as <;> rfl

/-- Rounds come to the same at a fenced text if each of them does.

**Proof sketch.** By induction on the length of the text: a round that does not end the repetition
leaves less of it. -/
lemma settled_iterate (m : Mode)
    (h : ∀ w, IsFenced w → w.length + j ≤ bound → IsSettledAt selves bound e k w) :
    ∀ w, IsFenced w → w.length + j ≤ bound → ∃ past left, ∃ values : Option (List α),
      w = past ++ left ∧ IsFenced left ∧ ∀ self, selves self →
        ∀ start offset, start + (bound - w.length) ≤ offset → ∀ v attempts n, w.length < n →
          (iterate blanks (run blanks self start e) m n ⟨offset, w ++ v⟩ attempts).1 =
              ⟨offset + past.length, left ++ v⟩ ∧
            (Peg.sequence (iterate blanks (run blanks self start e) m n ⟨offset, w ++ v⟩
              attempts).2.1).toOption = values := by
  intro w
  induction hw : w.length using Nat.strongRecOn generalizing w with
  | ind size ih =>
    subst hw
    intro hfenced hbound
    obtain ⟨past, next, hpast, hnext, hgap⟩ := hfenced.gap_eq m
    have hlength : w.length = past.length + next.length := by rw [hpast, List.length_append]
    obtain ⟨verdict, hsplits, hholds⟩ := h next hnext (by omega) m
    cases verdict with
    | fails =>
      refine ⟨[], w, some [], rfl, hfenced,
        fun self hself start offset hstart v attempts n hn => ?_⟩
      obtain ⟨n, rfl⟩ : ∃ p, n = p + 1 := ⟨n - 1, by omega⟩
      have hround : _ = Result.failed :=
        hholds self hself start (offset + past.length) (by omega) v attempts
      rw [iterate, hgap]
      rcases hrun : run blanks self start e m ⟨offset + past.length, next ++ v⟩ attempts with
        ⟨result, tried⟩
      rw [hrun] at hround
      obtain rfl : result = .failed := hround
      exact ⟨rfl, rfl⟩
    | passes past' left value =>
      obtain ⟨hpast', -, hleft⟩ := hsplits
      have hlength' : next.length = past'.length + left.length := by
        rw [hpast', List.length_append]
      by_cases hstop : past.length + past'.length = 0
      · -- the round stays where it is and ends the repetition
        refine ⟨[], left, value.bind fun a => some [a], ?_, hleft,
          fun self hself start offset hstart v attempts n hn => ?_⟩
        · rw [hpast, hpast', List.eq_nil_of_length_eq_zero (by omega : past.length = 0),
            List.eq_nil_of_length_eq_zero (by omega : past'.length = 0)]
          rfl
        obtain ⟨n, rfl⟩ : ∃ p, n = p + 1 := ⟨n - 1, by omega⟩
        obtain ⟨a, ha, rfl⟩ := hholds self hself start (offset + past.length) (by omega) v attempts
        rw [iterate, hgap]
        rcases hrun : run blanks self start e m ⟨offset + past.length, next ++ v⟩ attempts with
          ⟨result, tried⟩
        rw [hrun] at ha
        obtain rfl : result = _ := ha
        dsimp only
        rw [if_pos (by omega)]
        refine ⟨?_, ?_⟩
        · change (⟨offset + past.length + past'.length, left ++ v⟩ : Cursor) =
            ⟨offset + 0, left ++ v⟩
          rw [Nat.add_assoc, hstop]
        · cases a <;> rfl
      · obtain ⟨past'', left', values, hpast'', hleft', hrest⟩ :=
          ih left.length (by omega) left rfl hleft (by omega)
        refine ⟨past ++ past' ++ past'', left', value.bind fun a => values.map (a :: ·), ?_, hleft',
          fun self hself start offset hstart v attempts n hn => ?_⟩
        · rw [hpast, hpast', hpast'', List.append_assoc, List.append_assoc]
        obtain ⟨n, rfl⟩ : ∃ p, n = p + 1 := ⟨n - 1, by omega⟩
        obtain ⟨a, ha, rfl⟩ := hholds self hself start (offset + past.length) (by omega) v attempts
        rw [iterate, hgap]
        rcases hrun : run blanks self start e m ⟨offset + past.length, next ++ v⟩ attempts with
          ⟨result, tried⟩
        rw [hrun] at ha
        obtain rfl : result = _ := ha
        dsimp only
        rw [if_neg (by omega)]
        obtain ⟨hlast, hvalues⟩ := hrest self hself start (offset + past.length + past'.length)
          (by omega) v tried n (by omega)
        refine ⟨?_, ?_⟩
        · rw [hlast]
          congr 1
          simp only [List.length_append]
          omega
        · rw [toOption_sequence, hvalues]

/-- **What follows a fence does not matter.** What a tame expression comes to at a fenced text does
not depend on what follows, nor on where the text stands.

**Proof sketch.** By induction on the expression. Characters are compared with those in front of the
fence, a quoted text is closed in front of it, and blanks end in front of it. The nonterminal is run
behind the place where it began, at a shorter text. -/
theorem settled_of_tame {α : Type} {j k : Nat} {e : Form α} (h : Tame j k e)
    {selves : Runner Rule Misread (List Clause) → Prop} {bound : Nat}
    (hselves : ∀ w, IsFenced w → w.length < bound → AreSettledAt selves w) :
    ∀ w, IsFenced w → w.length + j ≤ bound → IsSettledAt selves bound e k w := by
  induction h with
  | @text s hs =>
    intro w hw _ m
    by_cases hprefix : s.isPrefixOf w
    · obtain ⟨left, rfl⟩ := List.isPrefixOf_iff_prefix.1 hprefix
      refine ⟨.passes s left (some ()), ⟨rfl, Nat.le_refl _, hw.of_append hs⟩,
        fun self _ start offset _ v attempts => ⟨.ok (), ?_, rfl⟩⟩
      rw [run, hw.isPrefixOf_append hs, if_pos hprefix]
      simp [Cursor.advance]
    · refine ⟨.fails, trivial, fun self _ start offset _ v attempts => ?_⟩
      change _ = Result.failed
      rw [run, hw.isPrefixOf_append hs, if_neg hprefix]
  | @satisfy belongs hopen =>
    intro w hw _ m
    cases w with
    | nil => cases hw
    | cons c left =>
      by_cases hc : belongs c
      · refine ⟨.passes [c] left (some ()), ⟨rfl, Nat.le_refl _, ?_⟩,
          fun self _ start offset _ v attempts => ⟨.ok (), ?_, rfl⟩⟩
        · refine hw.of_append (s := [c]) fun d hd => ?_
          rw [List.mem_singleton.1 hd]
          exact hopen c hc
        · simp [run, hc, Cursor.advance]
      · refine ⟨.fails, trivial, fun self _ start offset _ v attempts => ?_⟩
        change _ = Result.failed
        simp [run, hc]
  | quotedText =>
    intro w hw _ m
    cases hw with
    | @quoted t w ht h =>
      refine ⟨.passes ('\'' :: (t ++ ['\''])) w (some (.text (String.ofList t))),
        ⟨by simp, Nat.zero_le _, h⟩,
        fun self _ start offset _ v attempts => ⟨.ok (.text (String.ofList t)), ?_, rfl⟩⟩
      have hrest : '\'' :: (t ++ '\'' :: w) ++ v = '\'' :: (t ++ '\'' :: (w ++ v)) := by simp
      rw [hrest, fst_run_quotedText ht]
      simp [Nat.add_assoc]
    | fence hc =>
      refine ⟨.fails, trivial, fun self _ start offset _ v attempts => ?_⟩
      refine fst_run_quotedText_failed fun more hmore => ?_
      obtain ⟨rfl, -⟩ := List.cons.inj hmore
      cases hc
    | cons hc h =>
      refine ⟨.fails, trivial, fun self _ start offset _ v attempts => ?_⟩
      exact fst_run_quotedText_failed fun more hmore =>
        (ne_of_isOpen hc).2.1 (List.cons.inj hmore).1
    | comment ht h =>
      refine ⟨.fails, trivial, fun self _ start offset _ v attempts => ?_⟩
      refine fst_run_quotedText_failed fun more hmore => ?_
      exact absurd (List.cons.inj hmore).1 (by decide)
  | @pair α β j k l e d he hd ihe ihd =>
    intro w hw hbound m
    obtain ⟨verdict, hsplits, hholds⟩ := ihe w hw hbound m
    cases verdict with
    | fails =>
      exact ⟨.fails, trivial, fun self hself start offset hstart v attempts =>
        fst_run_pair_failed (hholds self hself start offset hstart v attempts)⟩
    | passes past between a =>
      obtain ⟨hpast, hk, hbetween⟩ := hsplits
      obtain ⟨gap, next, hgap, hnext, hgapEq⟩ := hbetween.gap_eq m
      have hlength : w.length = past.length + (gap.length + next.length) := by
        rw [hpast, hgap, List.length_append, List.length_append]
      obtain ⟨verdict, hsplits', hholds'⟩ := ihd next hnext (by omega) m
      cases verdict with
      | fails =>
        refine ⟨.fails, trivial, fun self hself start offset hstart v attempts => ?_⟩
        obtain ⟨x, hx, -⟩ := hholds self hself start offset hstart v attempts
        obtain ⟨tried, hpair⟩ := fst_run_pair (d := d) hx
        have hsecond : _ = Result.failed :=
          hholds' self hself start (offset + past.length + gap.length) (by omega) v tried
        rw [hgapEq, hsecond] at hpair
        exact hpair
      | passes past' left b =>
        obtain ⟨hpast', hl, hleft⟩ := hsplits'
        refine ⟨.passes (past ++ (gap ++ past')) left (a.bind fun x => b.map fun y => (x, y)),
          ⟨by rw [hpast, hgap, hpast']; simp, ?_, hleft⟩,
          fun self hself start offset hstart v attempts => ?_⟩
        · rw [List.length_append, List.length_append]
          omega
        obtain ⟨x, hx, rfl⟩ := hholds self hself start offset hstart v attempts
        obtain ⟨tried, hpair⟩ := fst_run_pair (d := d) hx
        obtain ⟨y, hy, rfl⟩ :=
          hholds' self hself start (offset + past.length + gap.length) (by omega) v tried
        rw [hgapEq, hy] at hpair
        refine ⟨_, hpair.trans ?_, toOption_pair x y⟩
        simp [Nat.add_assoc]
  | either he hd ihe ihd =>
    intro w hw hbound m
    obtain ⟨verdict, hsplits, hholds⟩ := ihe w hw hbound m
    cases verdict with
    | fails =>
      obtain ⟨verdict, hsplits', hholds'⟩ := ihd w hw hbound m
      refine ⟨verdict, hsplits', fun self hself start offset hstart v attempts => ?_⟩
      obtain ⟨tried, hchoice⟩ :=
        fst_run_either_right (hholds self hself start offset hstart v attempts)
      rw [hchoice]
      exact hholds' self hself start offset hstart v tried
    | passes past left a =>
      refine ⟨.passes past left a, hsplits, fun self hself start offset hstart v attempts => ?_⟩
      obtain ⟨x, hx, ha⟩ := hholds self hself start offset hstart v attempts
      exact ⟨x, fst_run_either_left hx, ha⟩
  | optional he ihe =>
    intro w hw hbound m
    obtain ⟨verdict, hsplits, hholds⟩ := ihe w hw hbound m
    cases verdict with
    | fails =>
      refine ⟨.passes [] w (some none), ⟨rfl, Nat.zero_le _, hw⟩,
        fun self hself start offset hstart v attempts => ⟨.ok none, ?_, rfl⟩⟩
      exact fst_run_optional_failed (hholds self hself start offset hstart v attempts)
    | passes past left a =>
      refine ⟨.passes past left (a.map some), hsplits.mono (Nat.zero_le _),
        fun self hself start offset hstart v attempts => ?_⟩
      obtain ⟨x, hx, rfl⟩ := hholds self hself start offset hstart v attempts
      exact ⟨_, fst_run_optional hx, toOption_map some x⟩
  | @many α j k e he ihe =>
    intro w hw hbound m
    obtain ⟨verdict, hsplits, hholds⟩ := ihe w hw hbound m
    cases verdict with
    | fails =>
      refine ⟨.passes [] w (some []), ⟨rfl, Nat.zero_le _, hw⟩,
        fun self hself start offset hstart v attempts => ⟨.ok [], ?_, rfl⟩⟩
      rcases hrun : run blanks self start e m ⟨offset, w ++ v⟩ attempts with ⟨result, tried⟩
      have hresult : _ = Result.failed := hholds self hself start offset hstart v attempts
      rw [hrun] at hresult
      obtain rfl : result = .failed := hresult
      rw [run, hrun]
      rfl
    | passes past left a =>
      obtain ⟨hpast, -, hleft⟩ := hsplits
      have hlength : w.length = past.length + left.length := by rw [hpast, List.length_append]
      obtain ⟨past', left', values, hpast', hleft', hrest⟩ :=
        settled_iterate m ihe left hleft (by omega)
      refine ⟨.passes (past ++ past') left' (a.bind fun x => values.map (x :: ·)),
        ⟨by rw [hpast, hpast', List.append_assoc], Nat.zero_le _, hleft'⟩,
        fun self hself start offset hstart v attempts => ?_⟩
      obtain ⟨x, hx, rfl⟩ := hholds self hself start offset hstart v attempts
      rcases hrun : run blanks self start e m ⟨offset, w ++ v⟩ attempts with ⟨result, tried⟩
      rw [hrun] at hx
      obtain rfl : result = _ := hx
      obtain ⟨hlast, hvalues⟩ := hrest self hself start (offset + past.length) (by omega) v tried
        ((left ++ v).length + 1) (by rw [List.length_append]; omega)
      rw [run, hrun]
      refine ⟨Peg.sequence (x :: _), congrArg (Result.matched · _) (hlast.trans ?_), ?_⟩
      · rw [List.length_append, Nat.add_assoc]
      · rw [toOption_sequence, hvalues]
  | followedBy he ihe =>
    intro w hw hbound m
    obtain ⟨verdict, -, hholds⟩ := ihe w hw hbound m.ahead
    cases verdict with
    | fails =>
      exact ⟨.fails, trivial, fun self hself start offset hstart v attempts =>
        fst_run_followedBy_failed (hholds self hself start offset hstart v attempts)⟩
    | passes past left a =>
      refine ⟨.passes [] w (some ()), ⟨rfl, Nat.zero_le _, hw⟩,
        fun self hself start offset hstart v attempts => ?_⟩
      obtain ⟨x, hx, -⟩ := hholds self hself start offset hstart v attempts
      exact ⟨.ok (), fst_run_followedBy hx, rfl⟩
  | notFollowedBy he ihe =>
    intro w hw hbound m
    obtain ⟨verdict, -, hholds⟩ := ihe w hw hbound m.notAhead
    cases verdict with
    | fails =>
      refine ⟨.passes [] w (some ()), ⟨rfl, Nat.zero_le _, hw⟩,
        fun self hself start offset hstart v attempts => ⟨.ok (), ?_, rfl⟩⟩
      exact fst_run_notFollowedBy (hholds self hself start offset hstart v attempts)
    | passes past left a =>
      refine ⟨.fails, trivial, fun self hself start offset hstart v attempts => ?_⟩
      obtain ⟨x, hx, -⟩ := hholds self hself start offset hstart v attempts
      exact fst_run_notFollowedBy_failed hx
  | map f he ihe =>
    intro w hw hbound m
    obtain ⟨verdict, hsplits, hholds⟩ := ihe w hw hbound m
    cases verdict with
    | fails =>
      exact ⟨.fails, trivial, fun self hself start offset hstart v attempts =>
        fst_run_map_failed f (hholds self hself start offset hstart v attempts)⟩
    | passes past left a =>
      refine ⟨.passes past left (a.map f), hsplits,
        fun self hself start offset hstart v attempts => ?_⟩
      obtain ⟨x, hx, rfl⟩ := hholds self hself start offset hstart v attempts
      exact ⟨_, fst_run_map f hx, toOption_map f x⟩
  | @token α j k e read hread he ihe =>
    intro w hw hbound m
    obtain ⟨verdict, hsplits, hholds⟩ := ihe w hw hbound m
    cases verdict with
    | fails =>
      exact ⟨.fails, trivial, fun self hself start offset hstart v attempts =>
        fst_run_token_failed read (hholds self hself start offset hstart v attempts)⟩
    | passes past left a =>
      refine ⟨.passes past left (read ⟨0, String.ofList past⟩).toOption, hsplits,
        fun self hself start offset hstart v attempts => ?_⟩
      obtain ⟨x, hx, -⟩ := hholds self hself start offset hstart v attempts
      refine ⟨_, fst_run_token read hx, ?_⟩
      have htext : Cursor.textUpTo ⟨offset, w ++ v⟩ ⟨offset + past.length, left ++ v⟩ =
          String.ofList past := by
        rw [hsplits.1]
        simp [Cursor.textUpTo]
      rw [htext]
      exact hread offset _
  | rule name kind he ihe =>
    intro w hw hbound m
    obtain ⟨verdict, hsplits, hholds⟩ := ihe w hw hbound (m.inside kind)
    refine ⟨verdict, hsplits, fun self hself start offset hstart v attempts => ?_⟩
    rw [fst_run_rule]
    exact hholds self hself start offset hstart v attempts
  | recur =>
    intro w hw hbound m
    obtain ⟨verdict, hsplits, hholds⟩ := hselves w hw (by omega) m
    refine ⟨verdict, hsplits, fun self hself start offset hstart v attempts => ?_⟩
    rw [run, if_pos (by dsimp only; omega)]
    exact hholds self hself offset v attempts
  | weaken he hj hk ihe =>
    intro w hw hbound m
    obtain ⟨verdict, hsplits, hholds⟩ := ihe w hw (by omega) m
    exact ⟨verdict, hsplits.mono hk, hholds⟩

/-- The nonterminal comes to the same at a fenced text wherever it may be nested deep enough. -/
theorem settled_fixpoint {definition : Form (List Clause)} (h : Tame 0 k definition) (n : Nat) :
    ∀ w, IsFenced w → w.length < n →
      AreSettledAt (fun self => ∃ depth, n ≤ depth ∧ self = fixpoint blanks definition depth)
      w := by
  induction n with
  | zero => exact fun w _ hn => absurd hn (Nat.not_lt_zero _)
  | succ n ih =>
    intro w hw hn m
    obtain ⟨verdict, hsplits, hholds⟩ := settled_of_tame h
      (fun w' hw' hlt => ih w' hw' (by omega)) w hw (Nat.le_refl _) m
    refine ⟨verdict, hsplits.mono (Nat.zero_le _), ?_⟩
    rintro self ⟨depth, hdepth, rfl⟩ offset v attempts
    obtain ⟨depth, rfl⟩ : ∃ p, depth = p + 1 := ⟨depth - 1, by omega⟩
    rw [fixpoint]
    exact hholds _ ⟨depth, by omega, rfl⟩ offset offset (by omega) v attempts

end Settled

end FactModel.Script
