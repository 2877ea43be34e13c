import Mathlib.Tactic.Lemma
import FactModel.Peg.Run
set_option autoImplicit false

/-!
# What expressions yield

A property of whatever an expression yields follows from properties of what its parts yield. For
words it depends on the characters matched, which the expression spells in atomic mode.

## Main definitions

* `FactModel.Peg.Expr.Yields` — whatever an expression yields has a property, if whatever the
  nonterminal yields has one.
* `FactModel.Peg.Expr.Spells` — the characters that an expression matches have a property.

## Main results

* `FactModel.Peg.yields_pair`, `FactModel.Peg.yields_many` and their companions — one rule for each
  kind of expression.
* `FactModel.Peg.yields_word` — a word has the property that its characters have.
* `FactModel.Peg.yields_fixpoint` — the nonterminal yields what its definition yields.
-/

namespace FactModel.Peg

variable {R ε ρ α β : Type}

/-- Whatever a runner yields has a property. -/
def Runner.Yields (runner : Runner R ε α) (P : α → Prop) : Prop :=
  ∀ m c attempts after a rest, runner m c attempts = (.matched after (.ok a), rest) → P a

/-- Whatever an expression yields has a property, if whatever the nonterminal yields has one. -/
def Expr.Yields (N : ρ → Prop) (e : Expr R ε ρ α) (P : α → Prop) : Prop :=
  ∀ (blanks : Cursor → Cursor) (self : Runner R ε ρ) (start : Nat),
    self.Yields N → Runner.Yields (run blanks self start e) P

/-- The characters that a runner matches where no blanks may stand between them have a property. -/
def Runner.Spells (runner : Runner R ε α) (B : List Char → Prop) : Prop :=
  ∀ m c attempts after value rest, m.atomicity = .atomic →
    runner m c attempts = (.matched after value, rest) →
    ∃ cs, c.rest = cs ++ after.rest ∧ after.offset = c.offset + cs.length ∧ B cs

/-- The characters that an expression matches where no blanks may stand between them have a
property. -/
def Expr.Spells (e : Expr R ε ρ α) (B : List Char → Prop) : Prop :=
  ∀ (blanks : Cursor → Cursor) (self : Runner R ε ρ) (start : Nat),
    Runner.Spells (run blanks self start e) B

-- The equations of `run` are derived here once, not by whichever of the proofs below comes first.
section

attribute [local simp] run

end

/-! ## Parts of a match -/

section Parts

variable {e : Expr R ε ρ α} {d : Expr R ε ρ β} {blanks : Cursor → Cursor} {self : Runner R ε ρ}
  {start : Nat} {m : Mode} {c after : Cursor} {attempts rest : Attempts R}

/-- The second part of a sequence matches behind the first one and behind the blanks there. -/
lemma parts_of_pair {value : Except ε (α × β)}
    (h : run blanks self start (.pair e d) m c attempts = (.matched after value, rest)) :
    ∃ between a tried next b,
      run blanks self start e m c attempts = (.matched between a, tried) ∧
      next = (if m.atomicity = .spaced then blanks between else between) ∧
      run blanks self start d m next tried = (.matched after b, rest) ∧
      value = (do let a ← a; let b ← b; pure (a, b)) := by
  rw [run] at h
  split at h
  · cases h
  next between a tried hfirst =>
  dsimp only at h
  split at h
  · cases h
  next b _ hsecond =>
  cases h
  exact ⟨between, a, tried, _, b, hfirst, rfl, hsecond, rfl⟩

/-- A function of the value matches where the expression matches. -/
lemma part_of_map {f : α → β} {value : Except ε β}
    (h : run blanks self start (f <$> e) m c attempts = (.matched after value, rest)) :
    ∃ a, run blanks self start e m c attempts = (.matched after a, rest) ∧ value = a.map f := by
  change run blanks self start (.map f e) m c attempts = _ at h
  rw [run] at h
  split at h
  · cases h
  next a _ hinner =>
  cases h
  exact ⟨a, hinner, rfl⟩

/-- A rule matches where its body matches. -/
lemma part_of_rule {name : R} {kind : RuleKind} {value : Except ε α}
    (h : run blanks self start (.rule name kind e) m c attempts = (.matched after value, rest)) :
    ∃ tried, run blanks self start e (m.inside kind) c attempts =
      (.matched after value, tried) := by
  rw [run] at h
  split at h
  · cases h
  next hbody =>
  cases h
  exact ⟨_, hbody⟩

/-- A token matches where its inside matches, and its value is read from the text in between. -/
lemma part_of_token {read : Lexeme → Except ε α} {inner : Expr R ε ρ Unit} {value : Except ε α}
    (h : run blanks self start (.token read inner) m c attempts = (.matched after value, rest)) :
    value = read ⟨c.offset, c.textUpTo after⟩ ∧
      ∃ u, run blanks self start inner m c attempts = (.matched after u, rest) := by
  rw [run] at h
  split at h
  · cases h
  next hinner =>
  cases h
  exact ⟨rfl, _, hinner⟩

/-- A text that is matched stands ahead of what is left. -/
lemma rest_of_text {expected : List Char} {value : Except ε Unit}
    (h : run blanks self start (.text expected) m c attempts = (.matched after value, rest)) :
    c.rest = expected ++ after.rest := by
  rw [run] at h
  split at h
  · next hprefix =>
    cases h
    obtain ⟨more, hmore⟩ := List.isPrefixOf_iff_prefix.1 hprefix
    rw [Cursor.advance, ← hmore, List.drop_left]
  · cases h

/-- A character that is matched belongs to its class and stands ahead of what is left. -/
lemma rest_of_satisfy {belongs : Char → Bool} {value : Except ε Unit}
    (h : run blanks self start (.satisfy belongs) m c attempts = (.matched after value, rest)) :
    ∃ x, belongs x ∧ c.rest = x :: after.rest := by
  rw [run] at h
  split at h
  · cases h
  · next x more hrest =>
    split at h
    · next hx =>
      cases h
      exact ⟨x, hx, by simp [Cursor.advance, hrest]⟩
    · cases h

end Parts

/-! ## What a whole comes to -/

section Whole

variable {e : Expr R ε ρ α} {d : Expr R ε ρ β} {blanks : Cursor → Cursor} {self : Runner R ε ρ}
  {start : Nat} {m : Mode} {c : Cursor} {attempts : Attempts R}

/-- The verdict on a rule is that on its body. -/
lemma fst_run_rule (name : R) (kind : RuleKind) :
    (run blanks self start (.rule name kind e) m c attempts).1 =
      (run blanks self start e (m.inside kind) c attempts).1 := by
  rw [run]
  rcases run blanks self start e (m.inside kind) c attempts with ⟨_ | _, _⟩ <;> rfl

/-- A function of the value fails where the expression fails. -/
lemma fst_run_map_failed (f : α → β) (h : (run blanks self start e m c attempts).1 = .failed) :
    (run blanks self start (.map f e) m c attempts).1 = .failed := by
  rcases hrun : run blanks self start e m c attempts with ⟨result, tried⟩
  obtain rfl : result = .failed := by rw [← h, hrun]
  rw [run, hrun]

/-- A function of the value is applied where the expression matches. -/
lemma fst_run_map {after : Cursor} {a : Except ε α} (f : α → β)
    (h : (run blanks self start e m c attempts).1 = .matched after a) :
    (run blanks self start (.map f e) m c attempts).1 = .matched after (a.map f) := by
  rcases hrun : run blanks self start e m c attempts with ⟨result, tried⟩
  obtain rfl : result = .matched after a := by rw [← h, hrun]
  rw [run, hrun]

/-- A token fails where its inside fails. -/
lemma fst_run_token_failed {inner : Expr R ε ρ Unit} (read : Lexeme → Except ε α)
    (h : (run blanks self start inner m c attempts).1 = .failed) :
    (run blanks self start (.token read inner) m c attempts).1 = .failed := by
  rcases hrun : run blanks self start inner m c attempts with ⟨result, tried⟩
  obtain rfl : result = .failed := by rw [← h, hrun]
  rw [run, hrun]

/-- A token is read where its inside matches. -/
lemma fst_run_token {inner : Expr R ε ρ Unit} {after : Cursor} {u : Except ε Unit}
    (read : Lexeme → Except ε α)
    (h : (run blanks self start inner m c attempts).1 = .matched after u) :
    (run blanks self start (.token read inner) m c attempts).1 =
      .matched after (read ⟨c.offset, c.textUpTo after⟩) := by
  rcases hrun : run blanks self start inner m c attempts with ⟨result, tried⟩
  obtain rfl : result = .matched after u := by rw [← h, hrun]
  rw [run, hrun]

/-- A sequence fails where its first part fails. -/
lemma fst_run_pair_failed (h : (run blanks self start e m c attempts).1 = .failed) :
    (run blanks self start (.pair e d) m c attempts).1 = .failed := by
  rcases hrun : run blanks self start e m c attempts with ⟨result, tried⟩
  obtain rfl : result = .failed := by rw [← h, hrun]
  rw [run, hrun]

/-- What a sequence comes to behind its first part. -/
lemma fst_run_pair {between : Cursor} {a : Except ε α}
    (h : (run blanks self start e m c attempts).1 = .matched between a) :
    ∃ tried, (run blanks self start (.pair e d) m c attempts).1 =
      match (run blanks self start d m
        (if m.atomicity = .spaced then blanks between else between) tried).1 with
      | .failed => .failed
      | .matched after b => .matched after (do let a ← a; let b ← b; pure (a, b)) := by
  rcases hrun : run blanks self start e m c attempts with ⟨result, tried⟩
  obtain rfl : result = .matched between a := by rw [← h, hrun]
  refine ⟨tried, ?_⟩
  rw [run, hrun]
  dsimp only
  rcases run blanks self start d m (if m.atomicity = .spaced then blanks between else between)
    tried with ⟨_ | _, _⟩ <;> rfl

/-- An optional part that fails is left out. -/
lemma fst_run_optional_failed (h : (run blanks self start e m c attempts).1 = .failed) :
    (run blanks self start (.optional e) m c attempts).1 = .matched c (.ok none) := by
  rcases hrun : run blanks self start e m c attempts with ⟨result, tried⟩
  obtain rfl : result = .failed := by rw [← h, hrun]
  rw [run, hrun]

/-- An optional part that matches is there. -/
lemma fst_run_optional {after : Cursor} {a : Except ε α}
    (h : (run blanks self start e m c attempts).1 = .matched after a) :
    (run blanks self start (.optional e) m c attempts).1 = .matched after (a.map some) := by
  rcases hrun : run blanks self start e m c attempts with ⟨result, tried⟩
  obtain rfl : result = .matched after a := by rw [← h, hrun]
  rw [run, hrun]

/-- A choice matches where its left side matches. -/
lemma fst_run_either_left {e' : Expr R ε ρ α} {after : Cursor} {a : Except ε α}
    (h : (run blanks self start e m c attempts).1 = .matched after a) :
    (run blanks self start (.either e e') m c attempts).1 = .matched after a := by
  rcases hrun : run blanks self start e m c attempts with ⟨result, tried⟩
  obtain rfl : result = .matched after a := by rw [← h, hrun]
  rw [run, hrun]

/-- A choice whose left side fails is its right side. -/
lemma fst_run_either_right {e' : Expr R ε ρ α}
    (h : (run blanks self start e m c attempts).1 = .failed) :
    ∃ tried, (run blanks self start (.either e e') m c attempts).1 =
      (run blanks self start e' m c tried).1 := by
  rcases hrun : run blanks self start e m c attempts with ⟨result, tried⟩
  obtain rfl : result = .failed := by rw [← h, hrun]
  exact ⟨tried, by rw [run, hrun]⟩

/-- Looking ahead fails where the expression fails. -/
lemma fst_run_followedBy_failed
    (h : (run blanks self start e m.ahead c attempts).1 = .failed) :
    (run blanks self start (.followedBy e) m c attempts).1 = .failed := by
  rcases hrun : run blanks self start e m.ahead c attempts with ⟨result, tried⟩
  obtain rfl : result = .failed := by rw [← h, hrun]
  rw [run, hrun]

/-- Looking ahead stays where it is if the expression matches. -/
lemma fst_run_followedBy {after : Cursor} {a : Except ε α}
    (h : (run blanks self start e m.ahead c attempts).1 = .matched after a) :
    (run blanks self start (.followedBy e) m c attempts).1 = .matched c (.ok ()) := by
  rcases hrun : run blanks self start e m.ahead c attempts with ⟨result, tried⟩
  obtain rfl : result = .matched after a := by rw [← h, hrun]
  rw [run, hrun]

/-- Looking ahead for nothing fails where the expression matches. -/
lemma fst_run_notFollowedBy_failed {after : Cursor} {a : Except ε α}
    (h : (run blanks self start e m.notAhead c attempts).1 = .matched after a) :
    (run blanks self start (.notFollowedBy e) m c attempts).1 = .failed := by
  rcases hrun : run blanks self start e m.notAhead c attempts with ⟨result, tried⟩
  obtain rfl : result = .matched after a := by rw [← h, hrun]
  rw [run, hrun]

/-- Looking ahead for nothing stays where it is if the expression fails. -/
lemma fst_run_notFollowedBy (h : (run blanks self start e m.notAhead c attempts).1 = .failed) :
    (run blanks self start (.notFollowedBy e) m c attempts).1 = .matched c (.ok ()) := by
  rcases hrun : run blanks self start e m.notAhead c attempts with ⟨result, tried⟩
  obtain rfl : result = .failed := by rw [← h, hrun]
  rw [run, hrun]

end Whole

/-! ## What is yielded -/

section Yields

variable {N : ρ → Prop} {e : Expr R ε ρ α} {P : α → Prop} {d : Expr R ε ρ β} {Q : β → Prop}

/-- Every expression yields something. -/
lemma yields_true (e : Expr R ε ρ α) : e.Yields N fun _ => True :=
  fun _ _ _ _ _ _ _ _ _ _ _ => trivial

/-- A sequence yields what its parts yield. -/
lemma yields_pair (he : e.Yields N P) (hd : d.Yields N Q) :
    (Expr.pair e d).Yields N fun p => P p.1 ∧ Q p.2 := by
  intro blanks self start hself m c attempts after a rest hrun
  rw [run] at hrun
  split at hrun
  · cases hrun
  next between x _ hfirst =>
  dsimp only at hrun
  split at hrun
  · cases hrun
  next last y _ hsecond =>
  cases x with
  | error _ => cases hrun
  | ok x =>
    cases y with
    | error _ => cases hrun
    | ok y =>
      cases hrun
      exact ⟨he _ _ _ hself _ _ _ _ _ _ hfirst, hd _ _ _ hself _ _ _ _ _ _ hsecond⟩

/-- A choice yields what both its sides yield. -/
lemma yields_either {e' : Expr R ε ρ α} (he : e.Yields N P) (he' : e'.Yields N P) :
    (Expr.either e e').Yields N P := by
  intro blanks self start hself m c attempts after a rest hrun
  rw [run] at hrun
  split at hrun
  · exact he' _ _ _ hself _ _ _ _ _ _ hrun
  · next hfirst =>
    cases hrun
    exact he _ _ _ hself _ _ _ _ _ _ hfirst

/-- An optional part yields what it yields if it is there. -/
lemma yields_optional (he : e.Yields N P) : (Expr.optional e).Yields N fun o => ∀ a ∈ o, P a := by
  intro blanks self start hself m c attempts after o rest hrun
  rw [run] at hrun
  split at hrun
  · cases hrun
    exact fun _ h => nomatch h
  · next x _ hinner =>
    cases x with
    | error _ => cases hrun
    | ok x =>
      cases hrun
      rintro a ⟨⟩
      exact he _ _ _ hself _ _ _ _ _ _ hinner

/-- Values in sequence are those of the items. -/
lemma sequence_ok {values : List (Except ε α)} {as : List α} (h : sequence values = .ok as) :
    values = as.map .ok := by
  induction values generalizing as with
  | nil =>
    cases h
    rfl
  | cons value values ih =>
    cases value with
    | error _ => cases h
    | ok a =>
      rw [sequence] at h
      split at h
      · cases h
      · next hrest =>
        cases h
        rw [List.map_cons, ih hrest]

/-- Repetition yields what the rounds yield. -/
lemma yields_iterate {blanks : Cursor → Cursor} {runner : Runner R ε α} (h : runner.Yields P)
    (m : Mode) (n : Nat) (c : Cursor) (attempts : Attempts R) :
    ∀ a, .ok a ∈ (iterate blanks runner m n c attempts).2.1 → P a := by
  induction n generalizing c attempts with
  | zero => exact fun _ ha => nomatch ha
  | succ n ih =>
    intro a ha
    rw [iterate] at ha
    dsimp only at ha
    split at ha
    · cases ha
    · next after value _ hrun =>
      split at ha
      · obtain rfl := List.mem_singleton.1 ha
        exact h _ _ _ _ _ _ hrun
      · rcases List.mem_cons.1 ha with rfl | ha
        · exact h _ _ _ _ _ _ hrun
        · exact ih _ _ a ha

/-- A repetition yields what each of its turns yields. -/
lemma yields_many (he : e.Yields N P) : (Expr.many e).Yields N fun as => ∀ a ∈ as, P a := by
  intro blanks self start hself m c attempts after as rest hrun
  rw [run] at hrun
  split at hrun
  · cases hrun
    exact fun _ h => nomatch h
  · next next x more hinner =>
    dsimp only at hrun
    rw [Prod.mk.injEq, Result.matched.injEq] at hrun
    have hvalues := sequence_ok hrun.1.2
    intro a ha
    have hmem : .ok a ∈ x :: (iterate blanks (run blanks self start e) m (next.rest.length + 1)
        next more).2.1 := by
      rw [hvalues]
      exact List.mem_map.2 ⟨a, ha, rfl⟩
    rcases List.mem_cons.1 hmem with rfl | hmem
    · exact he _ _ _ hself _ _ _ _ _ _ hinner
    · exact yields_iterate (he blanks self start hself) _ _ _ _ a hmem

/-- A function of the value carries what is yielded along. -/
lemma yields_map {f : α → β} (he : e.Yields N P) (hf : ∀ a, P a → Q (f a)) :
    (f <$> e : Expr R ε ρ β).Yields N Q := by
  intro blanks self start hself m c attempts after b rest hrun
  change run blanks self start (.map f e) m c attempts = _ at hrun
  rw [run] at hrun
  split at hrun
  · cases hrun
  · next x _ hinner =>
    cases x with
    | error _ => cases hrun
    | ok x =>
      cases hrun
      exact hf _ (he _ _ _ hself _ _ _ _ _ _ hinner)

/-- A rule yields what its body yields. -/
lemma yields_rule (name : R) (kind : RuleKind) (he : e.Yields N P) :
    (Expr.rule name kind e).Yields N P := by
  intro blanks self start hself m c attempts after a rest hrun
  rw [run] at hrun
  split at hrun
  · cases hrun
  · next hbody =>
    cases hrun
    exact he _ _ _ hself _ _ _ _ _ _ hbody

/-- What is nested yields what it is assumed to yield. -/
lemma yields_recur : (Expr.recur : Expr R ε ρ ρ).Yields N N := by
  intro blanks self start hself m c attempts after a rest hrun
  rw [run] at hrun
  split at hrun
  · exact hself _ _ _ _ _ _ hrun
  · cases hrun

/-- The nonterminal yields what its definition yields, however deep it is nested. -/
theorem yields_fixpoint {definition : Expr R ε ρ ρ} (h : definition.Yields N N)
    (blanks : Cursor → Cursor) (depth : Nat) :
    Runner.Yields (fixpoint blanks definition depth : Runner R ε ρ) N := by
  induction depth with
  | zero =>
    intro m c attempts after a rest hrun
    rw [fixpoint] at hrun
    cases hrun
  | succ depth ih =>
    intro m c attempts after a rest hrun
    rw [fixpoint] at hrun
    exact h _ _ _ ih _ _ _ _ _ _ hrun

end Yields

/-! ## What is spelled -/

section Spells

variable {e : Expr R ε ρ α} {B C : List Char → Prop} {d : Expr R ε ρ β}

/-- A text spells itself. -/
lemma spells_text (expected : List Char) :
    (Expr.text expected : Expr R ε ρ Unit).Spells (· = expected) := by
  intro blanks self start m c attempts after value rest _ hrun
  rw [run] at hrun
  split at hrun
  · next hprefix =>
    cases hrun
    obtain ⟨more, hmore⟩ := List.isPrefixOf_iff_prefix.1 hprefix
    refine ⟨expected, ?_, rfl, rfl⟩
    rw [Cursor.advance, ← hmore, List.drop_left]
  · cases hrun

/-- A character of a class spells one character of it. -/
lemma spells_satisfy (belongs : Char → Bool) :
    (Expr.satisfy belongs : Expr R ε ρ Unit).Spells fun cs => ∃ x, cs = [x] ∧ belongs x := by
  intro blanks self start m c attempts after value rest _ hrun
  rw [run] at hrun
  split at hrun
  · cases hrun
  · next x more hrest =>
    split at hrun
    · next hx =>
      cases hrun
      exact ⟨[x], by simp [Cursor.advance, hrest], rfl, x, rfl, hx⟩
    · cases hrun

/-- A sequence spells what its parts spell, one after the other. -/
lemma spells_pair (he : e.Spells B) (hd : d.Spells C) :
    (Expr.pair e d).Spells fun cs => ∃ as bs, cs = as ++ bs ∧ B as ∧ C bs := by
  intro blanks self start m c attempts after value rest hm hrun
  rw [run] at hrun
  split at hrun
  · cases hrun
  next between x _ hfirst =>
  dsimp only at hrun
  rw [if_neg (by rw [hm]; exact fun h => nomatch h)] at hrun
  split at hrun
  · cases hrun
  next last y _ hsecond =>
  cases hrun
  obtain ⟨as, has, hoffset, hB⟩ := he _ _ _ _ _ _ _ _ _ hm hfirst
  obtain ⟨bs, hbs, hoffset', hC⟩ := hd _ _ _ _ _ _ _ _ _ hm hsecond
  refine ⟨as ++ bs, by rw [has, hbs, List.append_assoc], ?_, as, bs, rfl, hB, hC⟩
  rw [hoffset', hoffset, List.length_append, Nat.add_assoc]

/-- A choice spells what both its sides spell. -/
lemma spells_either {e' : Expr R ε ρ α} (he : e.Spells B) (he' : e'.Spells B) :
    (Expr.either e e').Spells B := by
  intro blanks self start m c attempts after value rest hm hrun
  rw [run] at hrun
  split at hrun
  · exact he' _ _ _ _ _ _ _ _ _ hm hrun
  · next hfirst =>
    cases hrun
    exact he _ _ _ _ _ _ _ _ _ hm hfirst

/-- A function of the value does not change what is spelled. -/
lemma spells_map {f : α → β} (he : e.Spells B) : (f <$> e : Expr R ε ρ β).Spells B := by
  intro blanks self start m c attempts after value rest hm hrun
  change run blanks self start (.map f e) m c attempts = _ at hrun
  rw [run] at hrun
  split at hrun
  · cases hrun
  · next hinner =>
    cases hrun
    exact he _ _ _ _ _ _ _ _ _ hm hinner

/-- An optional part spells nothing or what it spells. -/
lemma spells_optional (he : e.Spells B) : (Expr.optional e).Spells fun cs => cs = [] ∨ B cs := by
  intro blanks self start m c attempts after value rest hm hrun
  rw [run] at hrun
  split at hrun
  · cases hrun
    exact ⟨[], rfl, rfl, .inl rfl⟩
  · next hinner =>
    cases hrun
    obtain ⟨cs, hcs, hoffset, hB⟩ := he _ _ _ _ _ _ _ _ _ hm hinner
    exact ⟨cs, hcs, hoffset, .inr hB⟩

/-- A token spells what its inside spells. -/
lemma spells_token {inner : Expr R ε ρ Unit} {read : Lexeme → Except ε α} (h : inner.Spells B) :
    (Expr.token read inner).Spells B := by
  intro blanks self start m c attempts after value rest hm hrun
  rw [run] at hrun
  split at hrun
  · cases hrun
  · next hinner =>
    cases hrun
    exact h _ _ _ _ _ _ _ _ _ hm hinner

/-- An atomic rule spells what its body spells. -/
lemma spells_atomic (name : R) (he : e.Spells B) : (Expr.rule name .atomic e).Spells B := by
  intro blanks self start m c attempts after value rest _ hrun
  rw [run] at hrun
  split at hrun
  · cases hrun
  · next hbody =>
    cases hrun
    exact he _ _ _ (m.inside .atomic) _ _ _ _ _ rfl hbody

/-- What is spelled may be said more weakly. -/
lemma spells_imp (he : e.Spells B) (h : ∀ cs, B cs → C cs) : e.Spells C := by
  intro blanks self start m c attempts after value rest hm hrun
  obtain ⟨cs, hcs, hoffset, hB⟩ := he _ _ _ _ _ _ _ _ _ hm hrun
  exact ⟨cs, hcs, hoffset, h cs hB⟩

/-- Repetition spells what the rounds spell one behind the other. -/
lemma spells_iterate {blanks : Cursor → Cursor} {runner : Runner R ε α} (h : runner.Spells B)
    (hnil : B []) (happend : ∀ as bs, B as → B bs → B (as ++ bs)) {m : Mode}
    (hm : m.atomicity = .atomic) (n : Nat) (c : Cursor) (attempts : Attempts R) :
    ∃ cs, c.rest = cs ++ (iterate blanks runner m n c attempts).1.rest ∧
      (iterate blanks runner m n c attempts).1.offset = c.offset + cs.length ∧ B cs := by
  have hmode : ¬m.atomicity = .spaced := by rw [hm]; exact fun h => nomatch h
  induction n generalizing c attempts with
  | zero => exact ⟨[], rfl, rfl, hnil⟩
  | succ n ih =>
    rw [iterate, if_neg hmode]
    split
    · exact ⟨[], rfl, rfl, hnil⟩
    · next after value more hrun =>
      obtain ⟨as, has, hoffset, hB⟩ := h _ _ _ _ _ _ hm hrun
      split
      · exact ⟨as, has, hoffset, hB⟩
      · obtain ⟨bs, hbs, hoffset', hB'⟩ := ih after more
        refine ⟨as ++ bs, ?_, ?_, happend as bs hB hB'⟩
        · rw [has, hbs, List.append_assoc]
        · dsimp only
          rw [hoffset', hoffset, List.length_append, Nat.add_assoc]

/-- A repetition spells what holds of nothing and of two turns put together. -/
lemma spells_many (he : e.Spells B) (hnil : B []) (happend : ∀ as bs, B as → B bs → B (as ++ bs)) :
    (Expr.many e).Spells B := by
  intro blanks self start m c attempts after value rest hm hrun
  rw [run] at hrun
  split at hrun
  · cases hrun
    exact ⟨[], rfl, rfl, hnil⟩
  · next next x more hinner =>
    dsimp only at hrun
    rw [Prod.mk.injEq, Result.matched.injEq] at hrun
    obtain ⟨as, has, hoffset, hB⟩ := he _ _ _ _ _ _ _ _ _ hm hinner
    obtain ⟨bs, hbs, hoffset', hB'⟩ := @spells_iterate _ _ _ _ blanks _ (he blanks self start) hnil
      happend _ hm (next.rest.length + 1) next more
    rw [hrun.1.1] at hbs hoffset'
    refine ⟨as ++ bs, ?_, ?_, happend as bs hB hB'⟩
    · rw [has, hbs, List.append_assoc]
    · rw [hoffset', hoffset, List.length_append, Nat.add_assoc]

/-- A word has the property that its characters have. -/
theorem yields_word {N : ρ → Prop} (name : R) {inner : Expr R ε ρ Unit} (h : inner.Spells B) :
    (Expr.word name inner).Yields N fun s => B s.toList := by
  intro blanks self start hself m c attempts after a rest hrun
  unfold Expr.word Expr.lexeme at hrun
  rw [run] at hrun
  split at hrun
  · cases hrun
  next htoken =>
  cases hrun
  rw [run] at htoken
  split at htoken
  · cases htoken
  next hinner =>
  cases htoken
  obtain ⟨cs, hcs, hoffset, hB⟩ := h _ _ _ (m.inside .atomic) _ _ _ _ _ rfl hinner
  have htext : c.textUpTo after = String.ofList cs := by
    rw [Cursor.textUpTo, hoffset, hcs, Nat.add_sub_cancel_left, List.take_left]
  rw [htext, String.toList_ofList]
  exact hB

end Spells

end FactModel.Peg
