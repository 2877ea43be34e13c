import FactModel.Clause.Basic
import FactModel.Vocabulary.Growth
set_option autoImplicit false

/-!
# Contexts

A context belongs to one declaration. It holds the mentions of all its clauses and the bindings that
tie them together, and it is where the vocabulary grows while the declaration is resolved.

## Main definitions

* `FactModel.Mention` — a mention of a term.
* `FactModel.BindingKey`, `FactModel.Binding` — mentions that stand for one individual.
* `FactModel.Context` — a context.
* `FactModel.Compile` — a change of a context that may fail.
-/

namespace FactModel

/-- A mention of a term. What follows the literal is found out during the resolution. -/
structure Mention where
  term : String
  leading : Option String := none
  trailing : Option String := none
  roleName : Option RoleName := none
  quantifier : Option Quantifier := none
  literal : Option Literal := none
  player : Option ObjectTypeId := none
  /-- Whether the term is a role name that another mention declares. -/
  playerByRoleName : Bool := false
  binding : Option BindingId := none
  role : Option RoleId := none
  /-- The place of the role in the role sequence of the clause. -/
  roleRef : Option (RoleSequenceId × Nat) := none
  residualLeading : Option String := none
  residualTrailing : Option String := none
  presenceConstraint : Option PresenceConstraintId := none
deriving DecidableEq, Inhabited

namespace Mention

/-- Whether the mention has an adjective. -/
def hasAdjectives (m : Mention) : Bool :=
  m.leading.isSome || m.trailing.isSome

/-- The role name that the mention declares. -/
def declaredName? (m : Mention) : Option String :=
  match m.roleName with
  | some (.named name) => some name
  | _ => none

/-- Whether the mention keeps adjectives that the role it matched does not account for. -/
def hasResidue (m : Mention) : Bool :=
  m.residualLeading.isSome || m.residualTrailing.isSome

end Mention

/-- What mentions of one individual have in common: a term and a role name, or a term and its
adjectives, and the literal if there is one. -/
inductive BindingKey where
  | role (term : String) (roleName : RoleName) (literal : Option Literal)
  | adjectival (leading : Option String) (term : String) (trailing : Option String)
      (literal : Option Literal)
deriving DecidableEq

/-- The role name in a key. -/
def BindingKey.roleName? : BindingKey → Option RoleName
  | role _ roleName _ => some roleName
  | adjectival .. => none

/-- An individual of a declaration: the mentions that stand for it. -/
structure Binding where
  id : BindingId
  key : BindingKey
  player : ObjectTypeId
  roleName : Option RoleName
  literal : Option Literal
  mentions : List MentionId
  /-- The binding that this one was merged into. -/
  reboundTo : Option BindingId := none
deriving DecidableEq

/-- Whether nothing but its player tells the binding from others, adjectives apart. -/
def Binding.isUnmarked (b : Binding) : Bool :=
  b.roleName.isNone && b.literal.isNone

/-- What is known about one declaration while it is resolved. -/
structure Context where
  vocabulary : Vocabulary
  mentions : Array Mention := #[]
  /-- The bindings by their places; those that have lost their last mention are gone. -/
  bindings : Array (Option Binding) := #[]
  /-- The binding of each key. -/
  bindingsByKey : List (BindingKey × BindingId) := []
  /-- The players of role names, the latest declaration first. -/
  roleNamePlayers : List (String × ObjectTypeId) := []
  /-- The terms that may be used before they are declared. -/
  forwardTerms : List String := []

/-- A change of a context that may fail. -/
abbrev Compile (α : Type) : Type :=
  Attempt Context α

namespace Context

/-- The mention at a place. -/
def mention (x : Context) (m : MentionId) : Mention :=
  x.mentions[m.index]?.getD default

/-- The context with a mention changed. -/
def modifyMention (x : Context) (m : MentionId) (change : Mention → Mention) : Context :=
  { x with mentions := x.mentions.modify m.index change }

/-- The context with another mention. -/
def pushMention (x : Context) (m : Mention) : Context :=
  { x with mentions := x.mentions.push m }

/-- The binding at a place, if it has mentions. -/
def binding? (x : Context) (b : BindingId) : Option Binding :=
  x.bindings[b.index]?.join

/-- The context with a binding changed. -/
def modifyBinding (x : Context) (b : BindingId) (change : Binding → Binding) : Context :=
  { x with bindings := x.bindings.modify b.index (·.map change) }

/-- The places of the bindings that have mentions, in order. -/
def liveBindings (x : Context) : List BindingId :=
  (x.bindings.toList.filterMap id).map (·.id)

/-- The player of a mention, or the complaint that its term has none. -/
def playerOf (x : Context) (m : MentionId) : Except Fault ObjectTypeId :=
  match (x.mention m).player with
  | some player => .ok player
  | none => .error (.undefinedObjectType (x.mention m).term)

/-! ## Mentions and clauses in words -/

/-- A mention as it is written, without its quantifier and its nested clauses. -/
def describeMention (x : Context) (m : MentionId) : String :=
  let mention := x.mention m
  Adjective.written mention.leading mention.term mention.trailing ++
    (match mention.roleName with
      | some roleName => " " ++ roleName.written
      | none => "") ++
    (match mention.literal with
      | some literal => " " ++ literal.written
      | none => "")

/-- A phrase as it is written. -/
def describePhrase (x : Context) : Phrase → String
  | .word text => text
  | .slot s => x.describeMention s.mention
  | .comparison operator left right =>
    x.describeMention left.mention ++ " " ++ operator ++ " " ++ x.describeMention right.mention

/-- A clause as it is written, without its qualifiers. -/
def describeClause (x : Context) (c : Clause) : String :=
  Text.unwords (c.phrases.map x.describePhrase)

end Context

namespace Compile

/-- A change of the vocabulary. -/
def edit {α : Type} (change : Vocabulary.Edit α) : Compile α :=
  change.within (·.vocabulary) fun v x => { x with vocabulary := v }

/-- Adds a mention. -/
def addMention (m : Mention) : Compile MentionId :=
  .extend (fun x => ⟨x.mentions.size⟩) (·.pushMention m)

/-- Changes a mention. -/
def modifyMention (m : MentionId) (change : Mention → Mention) : Compile Unit :=
  modify (·.modifyMention m change)

/-- The player of a mention. -/
def playerOf (m : MentionId) : Compile ObjectTypeId := do
  MonadExcept.ofExcept ((← get).playerOf m)

end Compile

end FactModel
