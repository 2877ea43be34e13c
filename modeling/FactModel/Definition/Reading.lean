import FactModel.Context.Basic
set_option autoImplicit false

/-!
# New fact types and readings

A clause that invokes no reading defines one. Its words become the words of the template and its
mentions the placeholders.

## Main definitions

* `FactModel.Compile.makeFactType` — a new fact type with a role for each mention of a clause.
* `FactModel.Context.roleFor?` — the role of a fact type that a mention stands for.
* `FactModel.Compile.makeReading` — a clause as a new reading.
* `FactModel.Compile.adjust` — records how a clause differs from the reading it invokes.
-/

namespace FactModel

namespace Context

/-- Whether a role of the fact type is not yet taken. -/
def isAvailable (x : Context) (f : FactTypeId) (taken : List RoleId) (r : RoleId) : Bool :=
  (x.vocabulary.role r).factType = f && !taken.contains r

/-- The role that another mention of the same binding has. -/
def roleByBinding? (x : Context) (m : MentionId) (isWanted : RoleId → Bool) : Option RoleId :=
  ((x.mention m).binding.bind x.binding?).bind fun b =>
    (b.mentions.filterMap fun sibling => (x.mention sibling).role).find? isWanted

/-- The role that some reading gives to the player and the adjectives of a mention. -/
def roleByReading? (x : Context) (m : MentionId) (f : FactTypeId) (isWanted : RoleId → Bool) :
    Option RoleId :=
  let v := x.vocabulary
  let mention := x.mention m
  (((v.factType f).readings.flatMap v.readingRefs).find? fun ref =>
    isWanted ref.role && some (v.playerOf ref.role) = mention.player &&
      ref.leading = mention.leading && ref.trailing = mention.trailing).map (·.role)

/-- The role of a fact type that a mention stands for: the one it has, else the one that another
mention of its binding has, else the one that some reading gives to its player with its adjectives.
Roles already taken are passed over. -/
def roleFor? (x : Context) (m : MentionId) (f : FactTypeId) (taken : List RoleId) :
    Option RoleId :=
  let isWanted := x.isAvailable f taken
  (x.mention m).role.filter isWanted <|> x.roleByBinding? m isWanted <|>
    x.roleByReading? m f isWanted

/-- The tokens and the role references of a clause as a reading of a fact type, the role references
of the phrases before it given. -/
def readingParts (x : Context) (c : Clause) (f : FactTypeId) :
    List Phrase → List RoleRef → Except Fault (List Template.Token × List RoleRef)
  | [], refs => .ok ([], refs)
  | .word text :: rest, refs => do
    let (tokens, refs) ← readingParts x c f rest refs
    pure (.word text :: tokens, refs)
  | .slot s :: rest, refs =>
    match x.roleFor? s.mention f (refs.map (·.role)) with
    | none =>
      .error (.unmatchedRolePlayer (x.describeMention s.mention) (x.vocabulary.describeFactType f))
    | some role => do
      let mention := x.mention s.mention
      let ref : RoleRef := { role, leading := mention.leading, trailing := mention.trailing }
      let (tokens, later) ← readingParts x c f rest (refs ++ [ref])
      pure (.place refs.length :: tokens, later)
  | .comparison .. :: _, _ => .error (.noFactTypeMatch (x.describeClause c))

/-- The role references of mentions that keep what their roles do not account for. -/
def residualRefs (x : Context) (c : Clause) : List MentionId → Except Fault (List RoleRef)
  | [] => .ok []
  | m :: ms =>
    let mention := x.mention m
    match mention.role with
    | none => .error (.unmatchedRolePlayer (x.describeMention m) (x.describeClause c))
    | some role => do
      let refs ← residualRefs x c ms
      pure ({ role, leading := mention.residualLeading, trailing := mention.residualTrailing }
        :: refs)

end Context

namespace Compile

/-- Adds a role for a mention. -/
def makeRole (f : FactTypeId) (m : MentionId) : Compile Unit := do
  let player ← playerOf m
  let role ← edit (Vocabulary.addRole f player ((← get).mention m).declaredName?)
  modifyMention m ({ · with role := some role })

/-- A new fact type with one role for each mention of a clause, in order. -/
def makeFactType (c : Clause) : Compile (FactTypeId × Clause) := do
  let factType ← edit (Vocabulary.newFactType .plain)
  c.mentions.forM (makeRole factType)
  pure (factType, { c with factType := some factType })

/-- Records the places that mentions have in a role sequence. -/
def placeMentions (s : RoleSequenceId) (ms : List MentionId) : Compile Unit :=
  ms.zipIdx.forM fun (m, ordinal) => modifyMention m ({ · with roleRef := some (s, ordinal) })

/-- Records the roles that mentions have. -/
def giveRoles (ms : List MentionId) (refs : List RoleRef) : Compile Unit :=
  (ms.zip refs).forM fun (m, ref) => modifyMention m ({ · with role := some ref.role })

/-- Adds a clause as a reading of a fact type. Every mention must stand for a role of it. -/
def makeReading (c : Clause) (f : FactTypeId) : Compile (ReadingId × Clause) := do
  let x ← get
  let (tokens, refs) ← MonadExcept.ofExcept (x.readingParts c f c.phrases [])
  let s ← edit (Vocabulary.addRoleSequence refs)
  let reading ← edit
    (Vocabulary.addReading f s (Template.render tokens) (c.certainty = .negated))
  giveRoles c.mentions refs
  placeMentions s c.mentions
  pure (reading,
    { c with factType := some f, reading := some reading, roleSequence := some s })

/-- Names the role that a mention has after the role name that the mention declares. -/
def nameMatchedRole (m : MentionId) : Compile Unit := do
  let mention := (← get).mention m
  match mention.role, mention.declaredName? with
  | some role, some name => edit (Vocabulary.nameRole role name)
  | _, _ => pure ()

/-- Whether a clause states the roles of a role sequence in its order, with no adjectives left
over. -/
def statesInOrder (x : Context) (c : Clause) (s : RoleSequenceId) : Bool :=
  c.mentions.all (fun m => !(x.mention m).hasResidue) &&
    c.mentions.map (fun m => (x.mention m).role) = (x.vocabulary.roleSequence s).roles.map some

/-- After a match, names the roles after the role names that the clause declares. A clause with
adjectives left over, or with the roles in another order than the reading, gets a role sequence of
its own. -/
def adjust (c : Clause) : Compile Clause := do
  match c.roleSequence with
  | none => pure c
  | some s =>
    c.mentions.forM nameMatchedRole
    let x ← get
    if statesInOrder x c s then pure c
    else
      let refs ← MonadExcept.ofExcept (x.residualRefs c c.mentions)
      let adjusted ← edit (Vocabulary.addRoleSequence refs)
      placeMentions adjusted c.mentions
      pure { c with roleSequence := some adjusted }

end Compile

end FactModel
