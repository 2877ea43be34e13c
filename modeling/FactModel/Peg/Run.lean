import FactModel.Peg.Expr
set_option autoImplicit false

/-!
# Running a parsing expression

An expression is run at a place of the input. It fails there or matches a piece of the input, and
then yields a value. While it runs, the rules that failed farthest into the input are recorded:
they are what a reader of the input would have expected there.

## Main definitions

* `FactModel.Peg.Cursor` — a place in the input with what follows it.
* `FactModel.Peg.Attempts` — the rules tried without success at the farthest place.
* `FactModel.Peg.run` — runs an expression.
* `FactModel.Peg.fixpoint` — runs the nonterminal that may refer to itself.
* `FactModel.Peg.valueOf?` — what an expression yields for a text.

## Design

Nothing here is partial. `run` recurs on the expression and is given a function that runs the
nonterminal. That function is used only behind the place where the nonterminal itself began, so
nesting is never deeper than the input is long, and `fixpoint` counts that depth down. A
repetition ends when a round leaves the place where it is, so it has no more rounds than there
are characters.
-/

namespace FactModel.Peg

/-- A place in the input: the number of characters before it and the characters behind it. -/
structure Cursor where
  offset : Nat
  rest : List Char
deriving DecidableEq

namespace Cursor

/-- The beginning of an input. -/
def start (input : List Char) : Cursor :=
  ⟨0, input⟩

/-- The place so many characters farther on. -/
def advance (n : Nat) (c : Cursor) : Cursor :=
  ⟨c.offset + n, c.rest.drop n⟩

/-- The text between two places. -/
def textUpTo (c after : Cursor) : String :=
  String.ofList (c.rest.take (after.offset - c.offset))

end Cursor

/-- Whether an expression is only looked ahead for, and whether it must match or must not. -/
inductive Lookahead where
  | none
  | positive
  | negative
deriving DecidableEq

/-- Whether blanks may stand between the parts of a sequence, and whether failing rules are
reported: both, only the latter, or neither. -/
inductive Atomicity where
  | spaced
  | compound
  | atomic
deriving DecidableEq

/-- The circumstances under which an expression is run. -/
structure Mode where
  lookahead : Lookahead := .none
  atomicity : Atomicity := .spaced
deriving DecidableEq

namespace Mode

/-- The circumstances inside an expression that is looked ahead for. Inside a negative lookahead
it still must not match. -/
def ahead (m : Mode) : Mode :=
  { m with lookahead := if m.lookahead = .negative then .negative else .positive }

/-- The circumstances inside an expression that must not match. Two negations cancel. -/
def notAhead (m : Mode) : Mode :=
  { m with lookahead := if m.lookahead = .negative then .positive else .negative }

/-- The circumstances under which a rule of this kind is itself reported. -/
def around (kind : RuleKind) (m : Mode) : Mode :=
  match kind with
  | .compound => { m with atomicity := .compound }
  | .plain | .atomic => m

/-- The circumstances inside the body of a rule of this kind. -/
def inside (kind : RuleKind) (m : Mode) : Mode :=
  match kind with
  | .atomic => { m with atomicity := .atomic }
  | .compound => { m with atomicity := .compound }
  | .plain => m

end Mode

/-- The rules that were tried at the farthest place reached so far and made no progress there:
those expected, and those that should not have matched. -/
structure Attempts (R : Type) where
  place : Nat := 0
  expected : List R := []
  refused : List R := []

namespace Attempts

variable {R : Type}

/-- The number of rules recorded at a place. -/
def countAt (place : Nat) (a : Attempts R) : Nat :=
  if place = a.place then a.expected.length + a.refused.length else 0

/-- Only the oldest rules of both lists. -/
def truncate (expected refused : Nat) (a : Attempts R) : Attempts R :=
  { a with expected := a.expected.take expected, refused := a.refused.take refused }

/-- Adds a rule at the recorded place. -/
def add (rule : R) (m : Mode) (a : Attempts R) : Attempts R :=
  if m.lookahead = .negative then { a with refused := a.refused ++ [rule] }
  else { a with expected := a.expected ++ [rule] }

/-- Records a rule that was tried at a place when `before` were the attempts and that left the
attempts `a`, unless it is inside an atomic rule. The rule replaces what the rules inside it
recorded at its own place, except when that is a single rule, which says more than the rule
itself. -/
def record (rule : R) (m : Mode) (place : Nat) (before a : Attempts R) : Attempts R :=
  if m.atomicity = .atomic || a.countAt place = before.countAt place + 1 then a
  else if place = a.place then
    let kept := if place = before.place then before else {}
    (a.truncate kept.expected.length kept.refused.length).add rule m
  else if a.place < place then add rule m { place }
  else a

end Attempts

/-- How a run ends. A match has a value unless the matched text has a shape but no value. -/
inductive Result (ε α : Type) where
  | failed
  | matched (after : Cursor) (value : Except ε α)

/-- The way to run something: under given circumstances at a place, keeping the attempts. -/
abbrev Runner (R ε α : Type) : Type :=
  Mode → Cursor → Attempts R → Result ε α × Attempts R

variable {R ε ρ : Type}

/-- Runs something again and again, behind blanks if they may stand there, until it fails or
stays at its place. Yields where it stopped and the values in order. -/
def iterate {α : Type} (blanks : Cursor → Cursor) (runner : Runner R ε α) (m : Mode) :
    Nat → Cursor → Attempts R → Cursor × List (Except ε α) × Attempts R
  | 0, c, attempts => (c, [], attempts)
  | n + 1, c, attempts =>
    match runner m (if m.atomicity = .spaced then blanks c else c) attempts with
    | (.failed, attempts) => (c, [], attempts)
    | (.matched after value, attempts) =>
      if after.offset ≤ c.offset then (after, [value], attempts)
      else
        let (last, values, attempts) := iterate blanks runner m n after attempts
        (last, value :: values, attempts)

/-- All values, or the first that is missing. -/
def sequence {α : Type} : List (Except ε α) → Except ε (List α)
  | [] => .ok []
  | .error e :: _ => .error e
  | .ok a :: rest =>
    match sequence rest with
    | .error e => .error e
    | .ok as => .ok (a :: as)

/-- Runs an expression. `blanks` passes over blanks and comments, and `self` runs the nonterminal
that may refer to itself, which began at the offset `start`. -/
def run (blanks : Cursor → Cursor) (self : Runner R ε ρ) (start : Nat) {α : Type} :
    Expr R ε ρ α → Runner R ε α
  | .text expected, _, c, attempts =>
    if expected.isPrefixOf c.rest then
      (.matched (c.advance expected.length) (.ok ()), attempts)
    else (.failed, attempts)
  | .satisfy belongs, _, c, attempts =>
    match c.rest with
    | [] => (.failed, attempts)
    | x :: _ =>
      if belongs x then (.matched (c.advance 1) (.ok ()), attempts) else (.failed, attempts)
  | .endOfInput, _, c, attempts =>
    if c.rest.isEmpty then (.matched c (.ok ()), attempts) else (.failed, attempts)
  | .pair first second, m, c, attempts =>
    match run blanks self start first m c attempts with
    | (.failed, attempts) => (.failed, attempts)
    | (.matched between a, attempts) =>
      let next := if m.atomicity = .spaced then blanks between else between
      match run blanks self start second m next attempts with
      | (.failed, attempts) => (.failed, attempts)
      | (.matched after b, attempts) =>
        (.matched after (do let a ← a; let b ← b; pure (a, b)), attempts)
  | .either first second, m, c, attempts =>
    match run blanks self start first m c attempts with
    | (.failed, attempts) => run blanks self start second m c attempts
    | (.matched after a, attempts) => (.matched after a, attempts)
  | .optional inner, m, c, attempts =>
    match run blanks self start inner m c attempts with
    | (.failed, attempts) => (.matched c (.ok none), attempts)
    | (.matched after a, attempts) => (.matched after (a.map some), attempts)
  | .many inner, m, c, attempts =>
    match run blanks self start inner m c attempts with
    | (.failed, attempts) => (.matched c (.ok []), attempts)
    | (.matched next a, attempts) =>
      let (after, as, attempts) :=
        iterate blanks (run blanks self start inner) m (next.rest.length + 1) next attempts
      (.matched after (sequence (a :: as)), attempts)
  | .followedBy inner, m, c, attempts =>
    match run blanks self start inner m.ahead c attempts with
    | (.failed, attempts) => (.failed, attempts)
    | (.matched _ _, attempts) => (.matched c (.ok ()), attempts)
  | .notFollowedBy inner, m, c, attempts =>
    match run blanks self start inner m.notAhead c attempts with
    | (.failed, attempts) => (.matched c (.ok ()), attempts)
    | (.matched _ _, attempts) => (.failed, attempts)
  | .map f inner, m, c, attempts =>
    match run blanks self start inner m c attempts with
    | (.failed, attempts) => (.failed, attempts)
    | (.matched after a, attempts) => (.matched after (a.map f), attempts)
  | .token read inner, m, c, attempts =>
    match run blanks self start inner m c attempts with
    | (.failed, attempts) => (.failed, attempts)
    | (.matched after _, attempts) =>
      (.matched after (read ⟨c.offset, c.textUpTo after⟩), attempts)
  | .rule name kind body, m, c, attempts =>
    match run blanks self start body (m.inside kind) c attempts with
    | (.failed, after) =>
      (.failed,
        if m.lookahead = .negative then after
        else attempts.record name (m.around kind) c.offset after)
    | (.matched next a, after) =>
      (.matched next a,
        if m.lookahead = .negative then attempts.record name (m.around kind) c.offset after
        else after)
  | .recur, m, c, attempts => if start < c.offset then self m c attempts else (.failed, attempts)

/-- Runs the nonterminal that may refer to itself, whose definition is given, nested to no more
than the given depth. -/
def fixpoint (blanks : Cursor → Cursor) (definition : Expr R ε ρ ρ) : Nat → Runner R ε ρ
  | 0 => fun _ _ attempts => (.failed, attempts)
  | depth + 1 => fun m c =>
    run blanks (fixpoint blanks definition depth) c.offset definition m c

/-- What an expression yields for a text, given the definition of the nonterminal that may refer to
itself. -/
def valueOf? {α : Type} (blanks : Cursor → Cursor) (definition : Expr R ε ρ ρ)
    (expression : Expr R ε ρ α) (source : String) : Option α :=
  let self := fixpoint blanks definition (source.length + 1)
  match (run blanks self 0 expression {} (.start source.toList) {}).1 with
  | .matched _ (.ok a) => some a
  | _ => none

end FactModel.Peg
