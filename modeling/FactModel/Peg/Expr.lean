set_option autoImplicit false

/-!
# Parsing expressions

A parsing expression grammar is written as a value of an inductive type, so that one function
runs every grammar and statements about all grammars go by induction. An expression is indexed by
what it yields when it matches. One nonterminal may refer to itself; all others are definitions
that are written out where they are used.

## Main definitions

* `FactModel.Peg.Expr` — parsing expressions over rule names.
* `FactModel.Peg.RuleKind` — how a rule treats the blanks inside it.
* `FactModel.Peg.Lexeme` — a piece of the input with its place.

Expressions in sequence are written with `*>` and `<*`, ordered choices with `<|>`, and what an
expression yields is changed with `<$>`.
-/

namespace FactModel.Peg

/-- How a rule treats blanks and the rules inside it. In a `plain` rule blanks may stand between
the parts. In an `atomic` rule they may not, and the rules inside it are not reported when they
fail. In a `compound` rule they may not either, but the rules inside it are reported. -/
inductive RuleKind where
  | plain
  | atomic
  | compound
deriving DecidableEq

/-- A piece of the input and the number of characters before it. -/
structure Lexeme where
  offset : Nat
  text : String
deriving DecidableEq

/-- A parsing expression over rules named by `R`. It yields an `α` when it matches, or an `ε` when
the matched text has a shape but no value. The nonterminal that may refer to itself yields
a `ρ`. -/
inductive Expr (R ε ρ : Type) : Type → Type 1 where
  /-- These characters, in this order. -/
  | text (expected : List Char) : Expr R ε ρ Unit
  /-- One character of a class. -/
  | satisfy (belongs : Char → Bool) : Expr R ε ρ Unit
  /-- The end of the input. -/
  | endOfInput : Expr R ε ρ Unit
  /-- Both in sequence. -/
  | pair {α β : Type} (first : Expr R ε ρ α) (second : Expr R ε ρ β) : Expr R ε ρ (α × β)
  /-- The first if it matches, else the second. -/
  | either {α : Type} (first second : Expr R ε ρ α) : Expr R ε ρ α
  /-- The expression if it matches, else nothing. -/
  | optional {α : Type} (inner : Expr R ε ρ α) : Expr R ε ρ (Option α)
  /-- The expression as often as it matches. -/
  | many {α : Type} (inner : Expr R ε ρ α) : Expr R ε ρ (List α)
  /-- Nothing, provided that the expression would match here. -/
  | followedBy {α : Type} (inner : Expr R ε ρ α) : Expr R ε ρ Unit
  /-- Nothing, provided that the expression would not match here. -/
  | notFollowedBy {α : Type} (inner : Expr R ε ρ α) : Expr R ε ρ Unit
  /-- The expression, yielding something else. -/
  | map {α β : Type} (f : α → β) (inner : Expr R ε ρ α) : Expr R ε ρ β
  /-- The expression, yielding what the matched text means. -/
  | token {α : Type} (read : Lexeme → Except ε α) (inner : Expr R ε ρ Unit) : Expr R ε ρ α
  /-- A named rule, which is reported when it fails. -/
  | rule {α : Type} (name : R) (kind : RuleKind) (body : Expr R ε ρ α) : Expr R ε ρ α
  /-- The nonterminal that may refer to itself. -/
  | recur : Expr R ε ρ ρ

namespace Expr

variable {R ε ρ : Type}

instance : Functor (Expr R ε ρ) where
  map := .map

instance : SeqLeft (Expr R ε ρ) where
  seqLeft first second := .map Prod.fst (.pair first (second ()))

instance : SeqRight (Expr R ε ρ) where
  seqRight first second := .map Prod.snd (.pair first (second ()))

instance {α : Type} : OrElse (Expr R ε ρ α) where
  orElse first second := .either first (second ())

/-- The expression once or more. -/
def atLeastOnce {α : Type} (inner : Expr R ε ρ α) : Expr R ε ρ (List α) :=
  (fun (first, more) => first :: more) <$> .pair inner (.many inner)

/-- Items with a separator between each two; one item at least. -/
def separatedBy {α β : Type} (item : Expr R ε ρ α) (separator : Expr R ε ρ β) :
    Expr R ε ρ (List α) :=
  (fun (first, more) => first :: more) <$> .pair item (.many (separator *> item))

/-- The expression, yielding nothing. -/
def void {α : Type} (inner : Expr R ε ρ α) : Expr R ε ρ Unit :=
  (fun _ => ()) <$> inner

/-- The matched text. -/
def lexeme (inner : Expr R ε ρ Unit) : Expr R ε ρ String :=
  .token (fun l => .ok l.text) inner

/-- An atomic rule that yields the matched text. -/
def word (name : R) (inner : Expr R ε ρ Unit) : Expr R ε ρ String :=
  .rule name .atomic (lexeme inner)

/-- The expression, yielding what the matched text means, if it means anything. -/
def reading {α : Type} (read? : List Char → Option α) (inner : Expr R Unit ρ Unit) :
    Expr R Unit ρ α :=
  .token
    (fun l =>
      match read? l.text.toList with
      | some a => .ok a
      | none => .error ())
    inner

/-! ## Characters -/

/-- These characters. -/
def the (expected : String) : Expr R ε ρ Unit :=
  .text expected.toList

/-- Digits, at least one. -/
def digits : Expr R ε ρ Unit :=
  void (atLeastOnce (.satisfy Char.isDigit))

/-- One character of a class, which stands for itself. -/
def character (belongs : Char → Bool) : Expr R ε ρ Char :=
  (fun s => s.toList.headD ' ') <$> lexeme (.satisfy belongs)

/-- These characters, which stand for another. -/
def standingFor (meaning : Char) (written : String) : Expr R ε ρ Char :=
  (fun _ => meaning) <$> the written

end Expr

end FactModel.Peg
