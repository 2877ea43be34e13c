import FactModel.Context.Basic
import FactModel.Script.Tree
set_option autoImplicit false

/-!
# Taking clauses into a context

The mentions of a syntax tree are given places in the context, those of nested clauses before the
mention that carries them.

## Main definitions

* `FactModel.Context.adopt`, `FactModel.Context.adoptAll` — take clauses into a context.
-/

namespace FactModel.Context

/-- Adds a mention. -/
def keepMention (m : Mention) : StateM Context MentionId :=
  fun x => (⟨x.mentions.size⟩, x.pushMention m)

/-- The term that types a literal in a comparison: that of the other side. Between two literals
there is none, and each is left with its own text. -/
def literalTerm (literal : Literal) : Script.Operand → String
  | .mention other => other.term
  | .literal _ => literal.written

mutual

/-- Takes a mention into the context, after the clauses nested under it. -/
def adoptMention : Script.Mention → StateM Context Slot
  | ⟨term, leading, trailing, roleName, quantifier, literal, nested⟩ => do
    let nested ← adoptAll nested
    let mention ← keepMention { term, leading, trailing, roleName, quantifier, literal }
    pure ⟨mention, nested⟩

/-- Takes one side of a comparison into the context. -/
def adoptOperand (other : Script.Operand) : Script.Operand → StateM Context Slot
  | .mention m => adoptMention m
  | .literal value => do
    let mention ← keepMention { term := literalTerm value other, literal := some value }
    pure ⟨mention, []⟩

/-- Takes a phrase into the context. -/
def adoptPhrase : Script.Phrase → StateM Context Phrase
  | .word text => pure (.word text)
  | .mention m => .slot <$> adoptMention m
  | .comparison operator left right => do
    let leftSlot ← adoptOperand right left
    let rightSlot ← adoptOperand left right
    pure (.comparison operator leftSlot rightSlot)

/-- Takes phrases into the context, in order. -/
def adoptPhrases : List Script.Phrase → StateM Context (List Phrase)
  | [] => pure []
  | p :: ps => do
    let p ← adoptPhrase p
    let ps ← adoptPhrases ps
    pure (p :: ps)

/-- Takes a clause into the context. -/
def adopt : Script.Clause → StateM Context Clause
  | ⟨phrases, qualifiers, certainty, conjunction⟩ => do
    let phrases ← adoptPhrases phrases
    pure { phrases, qualifiers, certainty, conjunction }

/-- Takes clauses into the context, in order. -/
def adoptAll : List Script.Clause → StateM Context (List Clause)
  | [] => pure []
  | c :: cs => do
    let c ← adopt c
    let cs ← adoptAll cs
    pure (c :: cs)

end

end FactModel.Context
