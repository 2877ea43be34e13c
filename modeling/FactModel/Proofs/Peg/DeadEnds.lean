import FactModel.Proofs.Peg.Yields
set_option autoImplicit false

/-!
# Matches that lead nowhere

An ordered choice takes the first alternative that matches, even where nothing can go on behind the
match. What such a match yields may lack a property that everything else has; but then the whole
text fails to match. A dead end is a place that only expressions that match nothing can pass. What
an expression yields is looked at here for matches that do not end at one.

## Main definitions

* `FactModel.Peg.Expr.YieldsUnless` — whatever an expression yields has a property, unless the match
  ends at a dead end; and no match leaves a dead end.
* `FactModel.Peg.Expr.Avoids` — an expression that does not match at a dead end.

## Main results

* `FactModel.Peg.yieldsUnless_pair`, `FactModel.Peg.yieldsUnless_many` and their companions — one
  rule for each kind of expression.
* `FactModel.Peg.yieldsUnless_fixpoint` — the nonterminal yields what its definition yields.
* `FactModel.Peg.failed_of_many` — a repetition goes on as long as it can.
-/

namespace FactModel.Peg

variable {R ε ρ α β : Type}

/-- Whatever a runner yields has a property unless it ends at a dead end, and it leaves none. -/
def Runner.YieldsUnless (dead : List Char → Prop) (runner : Runner R ε α) (P : α → Prop) : Prop :=
  ∀ m c attempts after a rest, runner m c attempts = (.matched after (.ok a), rest) →
    ¬dead after.rest → ¬dead c.rest ∧ P a

/-- Whatever an expression yields has a property unless the match ends at a dead end, and no match
leaves a dead end, if the same holds of the nonterminal. Blanks do not lead out of a dead end. -/
def Expr.YieldsUnless (dead : List Char → Prop) (N : ρ → Prop) (e : Expr R ε ρ α)
    (P : α → Prop) : Prop :=
  ∀ (blanks : Cursor → Cursor) (self : Runner R ε ρ) (start : Nat),
    (∀ c, dead c.rest → blanks c = c) → self.YieldsUnless dead N →
      Runner.YieldsUnless dead (run blanks self start e) P

/-- An expression that does not match at a dead end. -/
def Expr.Avoids (dead : List Char → Prop) (e : Expr R ε ρ α) : Prop :=
  ∀ (blanks : Cursor → Cursor) (self : Runner R ε ρ) (start : Nat) m c attempts after value rest,
    run blanks self start e m c attempts = (.matched after value, rest) → ¬dead c.rest

variable {dead : List Char → Prop} {N : ρ → Prop} {e : Expr R ε ρ α} {P : α → Prop}
  {d : Expr R ε ρ β} {Q : β → Prop}

/-- No match passes over blanks out of a dead end. -/
lemma not_dead_of_blanks {blanks : Cursor → Cursor} (hblanks : ∀ c, dead c.rest → blanks c = c)
    {m : Mode} {c : Cursor}
    (h : ¬dead (if m.atomicity = .spaced then blanks c else c).rest) : ¬dead c.rest := by
  intro hdead
  rw [hblanks c hdead, ite_self] at h
  exact h hdead

/-! ## Expressions that avoid dead ends -/

section Avoids

/-- A text avoids dead ends that do not begin with it. -/
lemma avoids_text {expected : List Char} (h : ∀ rest, ¬dead (expected ++ rest)) :
    (Expr.text expected : Expr R ε ρ Unit).Avoids dead := by
  intro blanks self start m c attempts after value rest hrun
  rw [run] at hrun
  split at hrun
  · next hprefix =>
    obtain ⟨more, hmore⟩ := List.isPrefixOf_iff_prefix.1 hprefix
    rw [← hmore]
    exact h more
  · cases hrun

/-- A character of a class avoids dead ends that do not begin with one. -/
lemma avoids_satisfy {belongs : Char → Bool} (h : ∀ x rest, belongs x → ¬dead (x :: rest)) :
    (Expr.satisfy belongs : Expr R ε ρ Unit).Avoids dead := by
  intro blanks self start m c attempts after value rest hrun
  rw [run] at hrun
  split at hrun
  · cases hrun
  · next x more hrest =>
    split at hrun
    · next hx =>
      rw [hrest]
      exact h x more hx
    · cases hrun

/-- A sequence avoids the dead ends that its first part avoids. -/
lemma avoids_pair (he : e.Avoids dead) : (Expr.pair e d).Avoids dead := by
  intro blanks self start m c attempts after value rest hrun
  obtain ⟨_, _, _, _, _, hfirst, -⟩ := parts_of_pair hrun
  exact he _ _ _ _ _ _ _ _ _ hfirst

/-- A choice avoids the dead ends that both its sides avoid. -/
lemma avoids_either {e' : Expr R ε ρ α} (he : e.Avoids dead) (he' : e'.Avoids dead) :
    (Expr.either e e').Avoids dead := by
  intro blanks self start m c attempts after value rest hrun
  rw [run] at hrun
  split at hrun
  · exact he' _ _ _ _ _ _ _ _ _ hrun
  · next hfirst => exact he _ _ _ _ _ _ _ _ _ hfirst

/-- A function of the value avoids what the expression avoids. -/
lemma avoids_map {f : α → β} (he : e.Avoids dead) :
    (f <$> e : Expr R ε ρ β).Avoids dead := by
  intro blanks self start m c attempts after value rest hrun
  obtain ⟨_, hinner, -⟩ := part_of_map hrun
  exact he _ _ _ _ _ _ _ _ _ hinner

/-- A token avoids the dead ends that its inside avoids. -/
lemma avoids_token {read : Lexeme → Except ε β} {inner : Expr R ε ρ Unit}
    (h : inner.Avoids dead) : (Expr.token read inner).Avoids dead := by
  intro blanks self start m c attempts after value rest hrun
  obtain ⟨-, _, hinner⟩ := part_of_token hrun
  exact h _ _ _ _ _ _ _ _ _ hinner

/-- A rule avoids the dead ends that its body avoids. -/
lemma avoids_rule (name : R) (kind : RuleKind) (he : e.Avoids dead) :
    (Expr.rule name kind e).Avoids dead := by
  intro blanks self start m c attempts after value rest hrun
  obtain ⟨_, hbody⟩ := part_of_rule hrun
  exact he _ _ _ _ _ _ _ _ _ hbody

/-- An atomic rule avoids dead ends if the characters that it matches do not begin one. -/
lemma avoids_atomic (name : R) {B : List Char → Prop} (he : e.Spells B)
    (h : ∀ cs rest, B cs → ¬dead (cs ++ rest)) : (Expr.rule name .atomic e).Avoids dead := by
  intro blanks self start m c attempts after value rest hrun
  obtain ⟨_, hbody⟩ := part_of_rule hrun
  obtain ⟨cs, hcs, -, hB⟩ := he _ _ _ (m.inside .atomic) _ _ _ _ _ rfl hbody
  rw [hcs]
  exact h cs _ hB

end Avoids

/-! ## What is yielded -/

section YieldsUnless

/-- An expression without the nonterminal that avoids dead ends. -/
lemma yieldsUnless_of_avoids (hyields : e.Yields (fun _ => True) P) (he : e.Avoids dead) :
    e.YieldsUnless dead N P :=
  fun blanks self start _ _ _ _ _ _ _ _ hrun _ =>
    ⟨he _ _ _ _ _ _ _ _ _ hrun,
      hyields blanks self start (fun _ _ _ _ _ _ _ => trivial) _ _ _ _ _ _ hrun⟩

/-- What is yielded may be said more weakly. -/
lemma yieldsUnless_imp {P' : α → Prop} (he : e.YieldsUnless dead N P) (h : ∀ a, P a → P' a) :
    e.YieldsUnless dead N P' := by
  intro blanks self start hblanks hself m c attempts after a rest hrun hafter
  obtain ⟨hc, ha⟩ := he _ _ _ hblanks hself _ _ _ _ _ _ hrun hafter
  exact ⟨hc, h a ha⟩

/-- A sequence yields what its parts yield. -/
lemma yieldsUnless_pair (he : e.YieldsUnless dead N P) (hd : d.YieldsUnless dead N Q) :
    (Expr.pair e d).YieldsUnless dead N fun p => P p.1 ∧ Q p.2 := by
  intro blanks self start hblanks hself m c attempts after a rest hrun hafter
  obtain ⟨between, x, _, _, y, hfirst, rfl, hsecond, hvalue⟩ := parts_of_pair hrun
  cases x with
  | error _ => cases hvalue
  | ok x =>
    cases y with
    | error _ => cases hvalue
    | ok y =>
      cases hvalue
      obtain ⟨hnext, hy⟩ := hd _ _ _ hblanks hself _ _ _ _ _ _ hsecond hafter
      obtain ⟨hc, hx⟩ := he _ _ _ hblanks hself _ _ _ _ _ _ hfirst
        (not_dead_of_blanks hblanks hnext)
      exact ⟨hc, hx, hy⟩

/-- A choice yields what both its sides yield. -/
lemma yieldsUnless_either {e' : Expr R ε ρ α} (he : e.YieldsUnless dead N P)
    (he' : e'.YieldsUnless dead N P) : (Expr.either e e').YieldsUnless dead N P := by
  intro blanks self start hblanks hself m c attempts after a rest hrun hafter
  rw [run] at hrun
  split at hrun
  · exact he' _ _ _ hblanks hself _ _ _ _ _ _ hrun hafter
  · next hfirst =>
    cases hrun
    exact he _ _ _ hblanks hself _ _ _ _ _ _ hfirst hafter

/-- An optional part yields what it yields if it is there. -/
lemma yieldsUnless_optional (he : e.YieldsUnless dead N P) :
    (Expr.optional e).YieldsUnless dead N fun o => ∀ a ∈ o, P a := by
  intro blanks self start hblanks hself m c attempts after o rest hrun hafter
  rw [run] at hrun
  split at hrun
  · cases hrun
    exact ⟨hafter, fun _ h => by cases h⟩
  · next x _ hinner =>
    cases x with
    | error _ => cases hrun
    | ok x =>
      cases hrun
      obtain ⟨hc, hx⟩ := he _ _ _ hblanks hself _ _ _ _ _ _ hinner hafter
      refine ⟨hc, ?_⟩
      rintro a ⟨⟩
      exact hx

/-- Repetition yields what the rounds yield, and leaves no dead end in any of them. -/
lemma yieldsUnless_iterate {blanks : Cursor → Cursor} {runner : Runner R ε α}
    (hblanks : ∀ c, dead c.rest → blanks c = c) (h : runner.YieldsUnless dead P) (m : Mode)
    (n : Nat) (c : Cursor) (attempts : Attempts R) {as : List α}
    (has : (iterate blanks runner m n c attempts).2.1 = as.map .ok)
    (hlast : ¬dead (iterate blanks runner m n c attempts).1.rest) :
    ¬dead c.rest ∧ ∀ a ∈ as, P a := by
  induction n generalizing c attempts as with
  | zero =>
    obtain rfl := List.map_eq_nil_iff.1 has.symm
    exact ⟨hlast, fun _ ha => nomatch ha⟩
  | succ n ih =>
    rw [iterate] at has hlast
    dsimp only at has hlast
    split at has
    · next hrun =>
      rw [hrun] at hlast
      obtain rfl := List.map_eq_nil_iff.1 has.symm
      exact ⟨hlast, fun _ ha => nomatch ha⟩
    · next after value more hrun =>
      rw [hrun] at hlast
      dsimp only at has hlast
      split at has
      · next hstop =>
        rw [if_pos hstop] at hlast
        obtain ⟨a, as, rfl, rfl, hrest⟩ := List.map_eq_cons_iff.1 has.symm
        obtain rfl := List.map_eq_nil_iff.1 hrest
        obtain ⟨hnext, ha⟩ := h _ _ _ _ _ _ hrun hlast
        exact ⟨not_dead_of_blanks hblanks hnext, List.forall_mem_cons.2 ⟨ha, fun _ h => nomatch h⟩⟩
      · next hgo =>
        rw [if_neg hgo] at hlast
        obtain ⟨a, as, rfl, rfl, hrest⟩ := List.map_eq_cons_iff.1 has.symm
        obtain ⟨hafter, has⟩ := ih after more hrest.symm hlast
        obtain ⟨hnext, ha⟩ := h _ _ _ _ _ _ hrun hafter
        exact ⟨not_dead_of_blanks hblanks hnext, List.forall_mem_cons.2 ⟨ha, has⟩⟩

/-- A repetition yields what each of its turns yields. -/
lemma yieldsUnless_many (he : e.YieldsUnless dead N P) :
    (Expr.many e).YieldsUnless dead N fun as => ∀ a ∈ as, P a := by
  intro blanks self start hblanks hself m c attempts after as rest hrun hafter
  rw [run] at hrun
  split at hrun
  · cases hrun
    exact ⟨hafter, fun _ h => by cases h⟩
  · next next x more hinner =>
    dsimp only at hrun
    rw [Prod.mk.injEq, Result.matched.injEq] at hrun
    obtain ⟨a, as, rfl, rfl, hmore⟩ := List.map_eq_cons_iff.1 (sequence_ok hrun.1.2).symm
    obtain ⟨hnext, has⟩ := yieldsUnless_iterate hblanks (he blanks self start hblanks hself) _ _ _ _
      hmore.symm (hrun.1.1 ▸ hafter)
    obtain ⟨hc, ha⟩ := he _ _ _ hblanks hself _ _ _ _ _ _ hinner hnext
    exact ⟨hc, List.forall_mem_cons.2 ⟨ha, has⟩⟩

/-- Looking ahead goes nowhere. -/
lemma yieldsUnless_followedBy (e : Expr R ε ρ α) :
    (Expr.followedBy e).YieldsUnless dead N fun _ => True := by
  intro blanks self start hblanks hself m c attempts after a rest hrun hafter
  rw [run] at hrun
  split at hrun
  · cases hrun
  · cases hrun
    exact ⟨hafter, trivial⟩

/-- A function of the value carries what is yielded along. -/
lemma yieldsUnless_map {f : α → β} (he : e.YieldsUnless dead N P) (hf : ∀ a, P a → Q (f a)) :
    (f <$> e : Expr R ε ρ β).YieldsUnless dead N Q := by
  intro blanks self start hblanks hself m c attempts after b rest hrun hafter
  obtain ⟨x, hinner, hvalue⟩ := part_of_map hrun
  cases x with
  | error _ => cases hvalue
  | ok x =>
    cases hvalue
    obtain ⟨hc, hx⟩ := he _ _ _ hblanks hself _ _ _ _ _ _ hinner hafter
    exact ⟨hc, hf _ hx⟩

/-- A rule yields what its body yields. -/
lemma yieldsUnless_rule (name : R) (kind : RuleKind) (he : e.YieldsUnless dead N P) :
    (Expr.rule name kind e).YieldsUnless dead N P := by
  intro blanks self start hblanks hself m c attempts after a rest hrun hafter
  obtain ⟨_, hbody⟩ := part_of_rule hrun
  exact he _ _ _ hblanks hself _ _ _ _ _ _ hbody hafter

/-- What is nested yields what it is assumed to yield. -/
lemma yieldsUnless_recur : (Expr.recur : Expr R ε ρ ρ).YieldsUnless dead N N := by
  intro blanks self start hblanks hself m c attempts after a rest hrun hafter
  rw [run] at hrun
  split at hrun
  · exact hself _ _ _ _ _ _ hrun hafter
  · cases hrun

/-- The nonterminal yields what its definition yields, however deep it is nested. -/
theorem yieldsUnless_fixpoint {definition : Expr R ε ρ ρ} (h : definition.YieldsUnless dead N N)
    {blanks : Cursor → Cursor} (hblanks : ∀ c, dead c.rest → blanks c = c) (depth : Nat) :
    Runner.YieldsUnless dead (fixpoint blanks definition depth : Runner R ε ρ) N := by
  induction depth with
  | zero =>
    intro m c attempts after a rest hrun
    rw [fixpoint] at hrun
    cases hrun
  | succ depth ih =>
    intro m c attempts after a rest hrun hafter
    rw [fixpoint] at hrun
    exact h _ _ _ hblanks ih _ _ _ _ _ _ hrun hafter

end YieldsUnless

/-! ## Where words and repetitions end -/

/-- A word is the text in front of the place where it ends. -/
lemma run_word {B : List Char → Prop} {inner : Expr R ε ρ Unit} (h : inner.Spells B) {name : R}
    {blanks : Cursor → Cursor} {self : Runner R ε ρ} {start : Nat} {m : Mode} {c after : Cursor}
    {attempts rest : Attempts R} {value : Except ε String}
    (hrun : run blanks self start (Expr.word name inner) m c attempts =
      (.matched after value, rest)) :
    ∃ s : String, value = .ok s ∧ B s.toList ∧ c.rest = s.toList ++ after.rest ∧ ∃ u tried,
      run blanks self start inner (m.inside .atomic) c attempts = (.matched after u, tried) := by
  obtain ⟨tried, htoken⟩ := part_of_rule hrun
  obtain ⟨rfl, u, hinner⟩ := part_of_token htoken
  obtain ⟨cs, hcs, hoffset, hB⟩ := h _ _ _ (m.inside .atomic) _ _ _ _ _ rfl hinner
  refine ⟨String.ofList cs, ?_, ?_, ?_, u, tried, hinner⟩
  · rw [Cursor.textUpTo, hoffset, hcs, Nat.add_sub_cancel_left, List.take_left]
  · rwa [String.toList_ofList]
  · rwa [String.toList_ofList]

/-- A repetition matches whatever the text. -/
lemma matched_many (e : Expr R ε ρ α) (blanks : Cursor → Cursor) (self : Runner R ε ρ)
    (start : Nat) (m : Mode) (c : Cursor) (attempts : Attempts R) :
    ∃ after value tried,
      run blanks self start (.many e) m c attempts = (.matched after value, tried) := by
  rw [run]
  split
  · exact ⟨_, _, _, rfl⟩
  · exact ⟨_, _, _, rfl⟩

/-- Rounds that each match at least one character go on until one fails.

**Proof sketch.** Each round leaves less than it found, so there are not more of them than there are
characters, and the number of rounds does not run out. -/
lemma failed_of_iterate {blanks : Cursor → Cursor} {runner : Runner R ε α}
    (h : runner.Spells (· ≠ [])) {m : Mode} (hm : m.atomicity = .atomic) {n : Nat} {c : Cursor}
    (hn : c.rest.length < n) (attempts : Attempts R) :
    ∃ tried, (runner m (iterate blanks runner m n c attempts).1 tried).1 = .failed := by
  have hmode : ¬m.atomicity = .spaced := by rw [hm]; exact fun h => nomatch h
  induction n generalizing c attempts with
  | zero => exact absurd hn (Nat.not_lt_zero _)
  | succ n ih =>
    rw [iterate, if_neg hmode]
    split
    · next hrun => exact ⟨attempts, congrArg Prod.fst hrun⟩
    · next after value more hrun =>
      obtain ⟨cs, hcs, hoffset, hne⟩ := h _ _ _ _ _ _ hm hrun
      have hpos := List.length_pos_iff.2 hne
      rw [if_neg (by omega)]
      refine ih ?_ more
      have hlength := congrArg List.length hcs
      rw [List.length_append] at hlength
      omega

/-- A repetition goes on as long as it can: where it ends its expression fails. -/
theorem failed_of_many (he : e.Spells (· ≠ [])) {blanks : Cursor → Cursor} {self : Runner R ε ρ}
    {start : Nat} {m : Mode} {c after : Cursor} {attempts rest : Attempts R}
    {value : Except ε (List α)} (hm : m.atomicity = .atomic)
    (hrun : run blanks self start (.many e) m c attempts = (.matched after value, rest)) :
    ∃ tried, (run blanks self start e m after tried).1 = .failed := by
  rw [run] at hrun
  split at hrun
  · next hfirst =>
    cases hrun
    exact ⟨attempts, congrArg Prod.fst hfirst⟩
  · next next x more hfirst =>
    dsimp only at hrun
    rw [Prod.mk.injEq, Result.matched.injEq] at hrun
    rw [← hrun.1.1]
    exact failed_of_iterate (he blanks self start) hm (Nat.lt_succ_self _) more

end FactModel.Peg
