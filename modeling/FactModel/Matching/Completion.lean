import FactModel.Matching.Resolution
set_option autoImplicit false

/-!
# Completing a clause from the one before it

A clause may leave out a player that it shares with the clause before it, as in
`Person(1) is parent of Person(2) and is happy`. When such a clause matches nothing, a mention of
the clause before is put back in and the clause is resolved again.

## Main definitions

* `FactModel.isContinuing` — whether a clause carries the sentence before it on.
* `FactModel.complete` — completes and resolves a clause.
-/

namespace FactModel

/-- Whether a clause with the conjunction `current` carries on the sentence of a clause with the
conjunction `previous`. Clauses joined by `that` or `and`, or by nothing, always do; others do when
they repeat the conjunction before them. -/
def isContinuing (previous current : Option Conjunction) : Bool :=
  match current with
  | none | some .and | some .that => true
  | some conjunction => previous = some conjunction

namespace Compile

/-- Adds a mention that is bound like another one. Its quantifier and its nested clauses are not
repeated. -/
def copyMention (source : MentionId) : Compile MentionId := do
  let lender := (← get).mention source
  let copy ← addMention
    { term := lender.term, leading := lender.leading, trailing := lender.trailing
      roleName := lender.roleName, literal := lender.literal, player := lender.player
      playerByRoleName := lender.playerByRoleName }
  let _ ← bind copy
  pure copy

end Compile

/-- The mention of the clause before that completes a clause on a side: the last one on the left,
the first one on the right. -/
def Contraction.source? (side : Contraction) (previous : Clause) : Option MentionId :=
  match side with
  | .left => previous.mentions.getLast?
  | .right => previous.mentions.head?

/-- The clause with a mention put in on a side. -/
def Clause.extended (c : Clause) (side : Contraction) (m : MentionId) : Clause :=
  match side with
  | .left => { c with phrases := .slot ⟨m, []⟩ :: c.phrases }
  | .right => { c with phrases := c.phrases ++ [.slot ⟨m, []⟩] }

/-- Whether the phrase is a slot of that mention. -/
def Phrase.isSlotOf (m : MentionId) : Phrase → Bool
  | .slot s => s.mention = m
  | _ => false

/-- The clause without the slots of a mention. -/
def Clause.without (c : Clause) (m : MentionId) : Clause :=
  { c with phrases := c.phrases.filter (!·.isSlotOf m) }

/-- Tries to resolve a clause that is completed on one side. If nothing matches, the clause is as it
was, and the mention put in is left without a binding. -/
def completeOn (options : MatchOptions) (previous : Clause) (side : Contraction) (c : Clause) :
    StateM Context (Resolved Clause Bool) := do
  match side.source? previous with
  | none => pure (c, .ok false)
  | some source =>
    let copied ← (Compile.copyMention source).run
    Resolved.andThen c copied fun copy => do
      let (c, outcome) ← resolve options (c.extended side copy)
      Resolved.andThen c outcome fun matched =>
        if matched then pure ({ c with contraction := some side }, .ok true)
        else do
          modify (·.unbind copy)
          pure (c.without copy, .ok false)

/-- Resolves a clause that nothing matches by completing it from the clause before, on the left and
else on the right. -/
def complete (options : MatchOptions) (previous c : Clause) :
    StateM Context (Resolved Clause Contraction) := do
  if isContinuing previous.conjunction c.conjunction then
    let (c, outcome) ← completeOn options previous .left c
    Resolved.andThen c outcome fun matched =>
      if matched then pure (c, .ok .left)
      else do
        let (c, outcome) ← completeOn options previous .right c
        Resolved.andThen c outcome fun matched =>
          if matched then pure (c, .ok .right)
          else do
            let x ← get
            pure (c, .error (.noFactTypeMatch (x.describeClause c)))
  else
    let x ← get
    pure (c, .error (.noFactTypeMatch (x.describeClause c)))

end FactModel
