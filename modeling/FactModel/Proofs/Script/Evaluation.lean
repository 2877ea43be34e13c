import Mathlib.Tactic.Lemma
import FactModel.Session
set_option autoImplicit false

/-!
# Evaluating fixed scripts

What a fixed script comes to is found by computing. The recursion of `Peg.run` is opened slowly:
at every expression the results of all its parts are gathered first, those of their parts among
them. The same runner is given here by the recursor of expressions, which only hands on the results
of the direct parts, and a script is taken as its characters. A proof about a fixed script rewrites
with the equations below before it computes.

## Main definitions

* `FactModel.Peg.Expr.runner` — the runner of an expression, by the recursor.
* `FactModel.Script.evaluate` — the declarations of a script, by that runner.

## Main results

* `FactModel.Peg.run_eq_runner` — it is the runner by recursion.
* `FactModel.Script.parse_ofList` — reading a script is evaluating its characters.
* `FactModel.Session.compile_ofList` — compiling it goes through what it is evaluated to.
-/

namespace FactModel

namespace Peg

variable {R ε ρ : Type}

/-- The runner of an expression, made of the runners of its direct parts. -/
noncomputable def Expr.runner (blanks : Cursor → Cursor) (self : Runner R ε ρ) (start : Nat)
    {α : Type} (e : Expr R ε ρ α) : Runner R ε α :=
  Expr.rec (motive := fun α _ => Runner R ε α)
    (fun expected _ c attempts =>
      if expected.isPrefixOf c.rest then
        (.matched (c.advance expected.length) (.ok ()), attempts)
      else (.failed, attempts))
    (fun belongs _ c attempts =>
      match c.rest with
      | [] => (.failed, attempts)
      | x :: _ =>
        if belongs x then (.matched (c.advance 1) (.ok ()), attempts) else (.failed, attempts))
    (fun _ c attempts =>
      if c.rest.isEmpty then (.matched c (.ok ()), attempts) else (.failed, attempts))
    (fun _ _ first second m c attempts =>
      match first m c attempts with
      | (.failed, attempts) => (.failed, attempts)
      | (.matched between a, attempts) =>
        let next := if m.atomicity = .spaced then blanks between else between
        match second m next attempts with
        | (.failed, attempts) => (.failed, attempts)
        | (.matched after b, attempts) =>
          (.matched after (do let a ← a; let b ← b; pure (a, b)), attempts))
    (fun _ _ first second m c attempts =>
      match first m c attempts with
      | (.failed, attempts) => second m c attempts
      | (.matched after a, attempts) => (.matched after a, attempts))
    (fun _ inner m c attempts =>
      match inner m c attempts with
      | (.failed, attempts) => (.matched c (.ok none), attempts)
      | (.matched after a, attempts) => (.matched after (a.map some), attempts))
    (fun _ inner m c attempts =>
      match inner m c attempts with
      | (.failed, attempts) => (.matched c (.ok []), attempts)
      | (.matched next a, attempts) =>
        let (after, as, attempts) :=
          iterate blanks inner m (next.rest.length + 1) next attempts
        (.matched after (sequence (a :: as)), attempts))
    (fun _ inner m c attempts =>
      match inner m.ahead c attempts with
      | (.failed, attempts) => (.failed, attempts)
      | (.matched _ _, attempts) => (.matched c (.ok ()), attempts))
    (fun _ inner m c attempts =>
      match inner m.notAhead c attempts with
      | (.failed, attempts) => (.matched c (.ok ()), attempts)
      | (.matched _ _, attempts) => (.failed, attempts))
    (fun f _ inner m c attempts =>
      match inner m c attempts with
      | (.failed, attempts) => (.failed, attempts)
      | (.matched after a, attempts) => (.matched after (a.map f), attempts))
    (fun read _ inner m c attempts =>
      match inner m c attempts with
      | (.failed, attempts) => (.failed, attempts)
      | (.matched after _, attempts) =>
        (.matched after (read ⟨c.offset, c.textUpTo after⟩), attempts))
    (fun name kind _ body m c attempts =>
      match body (m.inside kind) c attempts with
      | (.failed, after) =>
        (.failed,
          if m.lookahead = .negative then after
          else attempts.record name (m.around kind) c.offset after)
      | (.matched next a, after) =>
        (.matched next a,
          if m.lookahead = .negative then attempts.record name (m.around kind) c.offset after
          else after))
    (fun m c attempts => if start < c.offset then self m c attempts else (.failed, attempts))
    e

/-- **The recursor runs expressions as the recursion does.** -/
theorem run_eq_runner (blanks : Cursor → Cursor) (self : Runner R ε ρ) (start : Nat) {α : Type}
    (e : Expr R ε ρ α) : run blanks self start e = e.runner blanks self start := by
  induction e with
  | text | satisfy | endOfInput | recur => rfl
  | pair _ _ hfirst hsecond | either _ _ hfirst hsecond =>
    funext m c attempts
    rw [run, hfirst, hsecond]
    rfl
  | optional _ h | many _ h | followedBy _ h | notFollowedBy _ h | map _ _ h | token _ _ h
  | rule _ _ _ h =>
    funext m c attempts
    rw [run, h]
    rfl

/-- The nonterminal that may refer to itself, run by the recursor. -/
noncomputable def nestedRunner (blanks : Cursor → Cursor) (definition : Expr R ε ρ ρ) :
    Nat → Runner R ε ρ
  | 0 => fun _ _ attempts => (.failed, attempts)
  | depth + 1 => fun m c =>
    definition.runner blanks (nestedRunner blanks definition depth) c.offset m c

/-- The nonterminal is run by the recursor as it is by the recursion, to any depth. -/
lemma fixpoint_eq_nestedRunner (blanks : Cursor → Cursor) (definition : Expr R ε ρ ρ)
    (depth : Nat) : fixpoint blanks definition depth = nestedRunner blanks definition depth := by
  induction depth with
  | zero => rfl
  | succ depth ih =>
    funext m c
    change run blanks (fixpoint blanks definition depth) c.offset definition m c = _
    rw [run_eq_runner, ih]
    rfl

end Peg

namespace Script

open Peg

/-- What the grammar makes of the characters of a script, by the recursor. -/
noncomputable def readRunner (source : List Char) :
    Result Misread (List Declaration) × Attempts Rule :=
  script.runner blanks (nestedRunner blanks clauseList (source.length + 1)) 0 {} (.start source) {}

/-- The declarations of a script that is given by its characters, or why it has none. -/
noncomputable def evaluate (source : List Char) : Except Fault (List Declaration) :=
  match readRunner source with
  | (.matched _ (.ok declarations), _) => .ok declarations
  | (.matched _ (.error misread), _) =>
    .error (.outOfRange misread.wanted misread.lexeme.text
      (positionAt source misread.lexeme.offset))
  | (.failed, attempts) =>
    .error (.unreadable (Rule.inOrder attempts.expected) (Rule.inOrder attempts.refused)
      (positionAt source attempts.place))

/-- A source reads as its runner says. -/
lemma read_eq_readRunner (source : List Char) : read source = readRunner source := by
  unfold read readRunner
  rw [run_eq_runner, fixpoint_eq_nestedRunner]

/-- **Reading a script is evaluating its characters.** -/
theorem parse_ofList (source : List Char) : parse (.ofList source) = evaluate source := by
  unfold parse evaluate
  rcases hr : readRunner source with ⟨verdict, attempts⟩
  cases verdict with
  | failed => simp only [String.toList_ofList, read_eq_readRunner, hr]
  | matched after value =>
    cases value <;> simp only [String.toList_ofList, read_eq_readRunner, hr]

end Script

/-- A script compiles as the declarations do that its characters are evaluated to. -/
theorem Session.compile_ofList (s : Session) (source : List Char) :
    s.compile (.ofList source) =
      match Script.evaluate source with
      | .error fault => (.error fault, s)
      | .ok declarations => s.declareAll declarations := by
  unfold compile
  cases h : Script.evaluate source <;> simp only [Script.parse_ofList, h]

end FactModel
