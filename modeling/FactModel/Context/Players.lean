import FactModel.Context.Basic
set_option autoImplicit false

/-!
# Players of mentions

A term names an object type of the vocabulary, or a role that some mention of the declaration
names, or it may be used before it is declared.

## Main definitions

* `FactModel.Compile.resolvePlayer` — the player that a term names.
* `FactModel.Compile.identifyPlayers` — finds the players of all mentions.
-/

namespace FactModel.Compile

/-- The player that a term names, and whether the term is a role name. The vocabulary comes first,
then the role names of the declaration, then the terms that may be used before their
declaration. -/
def resolvePlayer (term : String) : Compile (ObjectTypeId × Bool) := do
  let x ← get
  match x.vocabulary.findObjectType? term with
  | some player => pure (player, false)
  | none =>
    match x.roleNamePlayers.lookup term with
    | some player => pure (player, true)
    | none =>
      if x.forwardTerms.contains term then
        let player ← edit (Vocabulary.addForwardEntityType term)
        pure (player, false)
      else throw (.undefinedObjectType term)

/-- Finds the player of a mention that declares a role name. -/
def identifyDeclaring (m : MentionId) (roleName : String) : Compile Unit := do
  let mention := (← get).mention m
  if mention.hasAdjectives then throw (.adjectiveWithRoleName mention.term roleName)
  let (player, _) ← resolvePlayer mention.term
  modify fun x => { x with roleNamePlayers := (roleName, player) :: x.roleNamePlayers }
  modifyMention m ({ · with player := some player })

/-- Finds the player of a mention that declares no role name. -/
def identifyPlain (m : MentionId) : Compile Unit := do
  let (player, playerByRoleName) ← resolvePlayer ((← get).mention m).term
  modifyMention m ({ · with player := some player, playerByRoleName })

/-- Finds the players of all mentions. Those that declare role names go first, so that other
mentions may use the names as terms. -/
def identifyPlayers (clauses : List Clause) : Compile Unit := do
  let x ← get
  let mentions := allMentions clauses
  mentions.forM fun m =>
    match (x.mention m).declaredName? with
    | some roleName => identifyDeclaring m roleName
    | none => pure ()
  mentions.forM fun m =>
    match (x.mention m).declaredName? with
    | some _ => pure ()
    | none => identifyPlain m

end FactModel.Compile
