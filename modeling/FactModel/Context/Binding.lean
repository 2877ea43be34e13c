import FactModel.Context.Basic
set_option autoImplicit false

/-!
# Bindings of mentions

Mentions with equal keys share a binding. A binding that loses its last mention is gone, and its
place is not used again.

## Main definitions

* `FactModel.Context.bindingKey` — the key of a mention.
* `FactModel.Context.bindAs`, `FactModel.Context.unbind` — bind a mention by its key, and undo it.
* `FactModel.Compile.bindClauses` — binds the mentions of clauses.
* `FactModel.Context.mergeLoose` — merges bindings that are mentioned once.
* `FactModel.Context.effectiveBinding?` — the binding that stands for a mention after merges.
-/

namespace FactModel.Context

/-- The key of a mention. A term that is a role name counts as a mention of that role. -/
def bindingKey (x : Context) (m : MentionId) : BindingKey :=
  let mention := x.mention m
  match mention.playerByRoleName, mention.player, mention.roleName with
  | true, some player, _ =>
    .role (x.vocabulary.nameOf player) (.named mention.term) mention.literal
  | _, _, some roleName => .role mention.term roleName mention.literal
  | _, _, none => .adjectival mention.leading mention.term mention.trailing mention.literal

/-- The binding that has a key. -/
def bindingOf? (x : Context) (key : BindingKey) : Option BindingId :=
  x.bindingsByKey.lookup key

/-- The context with a mention in the binding of a place. -/
def enlist (x : Context) (m : MentionId) (b : BindingId) : Context :=
  (x.modifyBinding b fun binding =>
    if m ∈ binding.mentions then binding
    else { binding with mentions := binding.mentions ++ [m] })
  |>.modifyMention m ({ · with binding := some b })

/-- The context with another binding, which has no mentions yet. -/
def pushBinding (x : Context) (key : BindingKey) (player : ObjectTypeId)
    (literal : Option Literal) : Context :=
  let id : BindingId := ⟨x.bindings.size⟩
  { x with
    bindings := x.bindings.push
      (some { id, key, player, roleName := key.roleName?, literal, mentions := [] })
    bindingsByKey := (key, id) :: x.bindingsByKey }

/-- Binds a mention of the given player: to the binding of its key, or to a new one. -/
def bindAs (x : Context) (m : MentionId) (player : ObjectTypeId) : BindingId × Context :=
  match x.bindingOf? (x.bindingKey m) with
  | some b => (b, x.enlist m b)
  | none =>
    let b := ⟨x.bindings.size⟩
    (b, (x.pushBinding (x.bindingKey m) player (x.mention m).literal).enlist m b)

/-- The context without the binding of a place. -/
def dropBinding (x : Context) (b : BindingId) (key : BindingKey) : Context :=
  { x with
    bindings := x.bindings.modify b.index fun _ => none
    bindingsByKey := x.bindingsByKey.filter (·.1 ≠ key) }

/-- The context with a mention struck from the binding of a place. A binding without mentions is
gone. -/
def strike (x : Context) (m : MentionId) (b : BindingId) : Context :=
  match x.binding? b with
  | none => x
  | some binding =>
    let mentions := binding.mentions.filter (· ≠ m)
    if mentions.isEmpty then x.dropBinding b binding.key
    else x.modifyBinding b ({ · with mentions })

/-- Takes a mention out of its binding. -/
def unbind (x : Context) (m : MentionId) : Context :=
  match (x.mention m).binding with
  | none => x
  | some b => (x.modifyMention m ({ · with binding := none })).strike m b

/-! ## Merging -/

/-- Whether a binding could stand for another one of that player: only its player tells it from
others, and it is not merged into that one. -/
def isPartner (x : Context) (b : BindingId) (player : ObjectTypeId) (other : BindingId) : Bool :=
  (x.binding? other).any fun o =>
    other ≠ b ∧ o.player = player ∧ o.isUnmarked ∧ o.reboundTo ≠ some b

/-- Merges a binding into the only other one that could stand for it. -/
def mergeBinding (x : Context) (b : BindingId) : Context :=
  match x.binding? b with
  | none => x
  | some binding =>
    match x.liveBindings.filter (x.isPartner b binding.player) with
    | [other] => x.modifyBinding b ({ · with reboundTo := some other })
    | _ => x

/-- The bindings that have one mention, no role name and no literal. -/
def looseBindings (x : Context) : List BindingId :=
  x.liveBindings.filter fun b =>
    (x.binding? b).any fun binding => binding.mentions.length == 1 && binding.isUnmarked

/-- Merges each loose binding into the only other unmarked binding of the same player, if there is
just one. -/
def mergeLoose (x : Context) : Context :=
  x.looseBindings.foldl mergeBinding x

/-- Follows merges for at most so many steps. -/
def followMerges (x : Context) : Nat → BindingId → BindingId
  | 0, b => b
  | steps + 1, b =>
    match (x.binding? b).bind (·.reboundTo) with
    | some next => followMerges x steps next
    | none => b

/-- The binding that stands for a mention after merges. A chain of merges is no longer than there
are bindings. -/
def effectiveBinding? (x : Context) (m : MentionId) : Option BindingId :=
  (x.mention m).binding.map (x.followMerges x.bindings.size)

end FactModel.Context

namespace FactModel.Compile

/-- Binds a mention, whose player must be known. -/
def bind (m : MentionId) : Compile BindingId := do
  let player ← playerOf m
  modifyGet (·.bindAs m player)

/-- Takes a mention out of its binding. -/
def unbind (m : MentionId) : Compile Unit :=
  modify (·.unbind m)

/-- Binds a mention anew, after what its key is made of has changed. -/
def rebind (m : MentionId) : Compile BindingId := do
  unbind m
  bind m

/-- The first item that is among those seen or before it in the list. -/
def firstRepeated? {α : Type} [DecidableEq α] (seen : List α) : List α → Option α
  | [] => none
  | a :: as => if a ∈ seen then some a else firstRepeated? (a :: seen) as

/-- Refuses a clause in which two mentions have the same role name. -/
def checkRoleNames (mentions : List MentionId) : Compile Unit := do
  let x ← get
  match firstRepeated? [] (mentions.filterMap fun m => (x.mention m).roleName) with
  | some roleName => throw (.duplicateRoleName roleName)
  | none => pure ()

mutual

/-- Binds a mention, then the mentions of the clauses nested under it. -/
def bindSlot : Slot → Compile Unit
  | ⟨mention, nested⟩ => do
    let _ ← bind mention
    bindClauses nested

/-- Binds the mentions of a phrase. -/
def bindPhrase : Phrase → Compile Unit
  | .word _ => pure ()
  | .slot s => bindSlot s
  | .comparison _ left right => do
    bindSlot left
    bindSlot right

/-- Binds the mentions of phrases, in order. -/
def bindPhrases : List Phrase → Compile Unit
  | [] => pure ()
  | p :: ps => do
    bindPhrase p
    bindPhrases ps

/-- Binds the mentions of a clause, unless two of them have the same role name. -/
def bindClause : Clause → Compile Unit
  | ⟨phrases, _, _, _, _, _, _, _, _⟩ => do
    checkRoleNames ((phrases.flatMap Phrase.slots).map (·.mention))
    bindPhrases phrases

/-- Binds the mentions of clauses, in order. -/
def bindClauses : List Clause → Compile Unit
  | [] => pure ()
  | c :: cs => do
    bindClause c
    bindClauses cs

end

end FactModel.Compile
