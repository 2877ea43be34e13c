import FactModel.Context.Binding
import FactModel.JoinGraph.Connectivity
set_option autoImplicit false

/-!
# Building join graphs

Each binding of the clauses becomes a variable and each matched clause a step. The step of a nested
clause comes before that of the clause around it, followed by a link step that ties the objectifying
variable to the first player of the nested clause.

## Main definitions

* `FactModel.Draft` — a join graph being built.
* `FactModel.Compile.buildQuery` — the join graph of clauses.
-/

namespace FactModel

/-- A join graph being built over a context. -/
structure Draft where
  context : Context
  graph : JoinGraph := {}
  /-- The variables of the bindings, by effective binding. -/
  assigned : List (BindingId × VariableId) := []
  /-- The variables that existential clauses name, which need no step. -/
  asked : List VariableId := []

namespace Draft

/-- The variable of a mention. -/
def variableOf? (d : Draft) (m : MentionId) : Option VariableId :=
  (d.context.effectiveBinding? m).bind fun b => d.assigned.lookup b

/-- The draft with the variable of a binding. -/
def pushVariable (d : Draft) (b : BindingId) (binding : Binding) : Draft :=
  { d with
    graph := { d.graph with
      vars := d.graph.vars ++
        [{ objectType := binding.player, roleName := binding.roleName, value := binding.literal }] }
    assigned := d.assigned ++ [(b, ⟨d.graph.vars.length⟩)] }

/-- The draft with a variable for the binding of a mention, unless it has one. -/
def addVariable (d : Draft) (m : MentionId) : Draft :=
  match d.context.effectiveBinding? m with
  | none => d
  | some b =>
    match d.context.binding? b, d.assigned.lookup b with
    | some binding, none => d.pushVariable b binding
    | _, _ => d

/-- The join graph with a variable changed. -/
def modifyVariable (g : JoinGraph) (v : VariableId) (change : Variable → Variable) : JoinGraph :=
  { g with vars := g.vars.modify v.index change }

/-- The join graph with a step changed. -/
def modifyStep (g : JoinGraph) (s : StepId) (change : Step → Step) : JoinGraph :=
  { g with steps := g.steps.modify s.index change }

/-- The join graph with another play. -/
def pushPlay (g : JoinGraph) (step : StepId) (v : VariableId) (role : RoleId) : JoinGraph :=
  modifyVariable { g with plays := g.plays ++ [{ variableId := v, role, step }] } v fun w =>
    { w with plays := w.plays ++ [PlayId.mk g.plays.length] }

/-- The plays of a step: a step about one variable plays it twice. -/
def doubled {α : Type} : List α → List α
  | [a] => [a, a]
  | as => as

/-- The join graph with another step, which has the given plays. -/
def pushStep (g : JoinGraph) (factType : FactTypeId) (reading : Option ReadingId)
    (certainty : Certainty) (plays : List (VariableId × RoleId)) : JoinGraph :=
  let step : StepId := ⟨g.steps.length⟩
  let plays := doubled plays
  let ids := (List.range' g.plays.length plays.length).map PlayId.mk
  let g := plays.foldl (fun g (v, role) => pushPlay g step v role) g
  { g with
    steps := g.steps ++
      [{ factType, reading
         inputPlay := ids.headD default
         outputPlay := ids.tail.headD default
         incidentalPlays := ids.drop 2
         isDisallowed := certainty = .negated
         isOptional := certainty = .maybe }] }

/-- A step in words. -/
def describeStep (d : Draft) (s : StepId) : String :=
  let step := d.graph.stepAt s
  match step.reading with
  | some reading => d.context.vocabulary.expandReading reading
  | none => d.context.vocabulary.describeFactType step.factType

/-- A variable in words. -/
def describeVariable (d : Draft) (v : VariableId) : String :=
  d.context.vocabulary.nameOf (d.graph.variableAt v).objectType ++
    match (d.graph.variableAt v).roleName with
    | some roleName => " " ++ roleName.written
    | none => ""

/-- A group by its steps, or by the variable from which it was searched if it has none. -/
def describeGroup (d : Draft) (start : VariableId) (steps : List StepId) : List String :=
  if steps = [] then [d.describeVariable start] else steps.map d.describeStep

/-- Every variable must be related by a step or asked for, and all must be in one group. -/
def validate (d : Draft) : Except Fault Unit :=
  match d.graph.unused? d.asked with
  | some v => .error (.unusedVariable (d.describeVariable v))
  | none =>
    let groups := d.graph.groups
    if groups.length ≤ 1 then .ok ()
    else .error (.disconnectedQuery (groups.map fun (start, steps) => d.describeGroup start steps))

end Draft

/-- A change of a draft that may fail. -/
abbrev Build (α : Type) : Type :=
  Attempt Draft α

namespace Build

/-- A change of the join graph. -/
def modifyGraph (change : JoinGraph → JoinGraph) : Build Unit :=
  modify fun d => { d with graph := change d.graph }

/-- The variable of a mention, or the complaint that it has none. -/
def variableOf (m : MentionId) : Build VariableId := do
  let d ← get
  match d.variableOf? m with
  | some v => pure v
  | none => throw (.unusedVariable (d.context.describeMention m))

/-- Adds a step. -/
def addStep (factType : FactTypeId) (reading : Option ReadingId) (certainty : Certainty)
    (plays : List (VariableId × RoleId)) : Build StepId := do
  let s : StepId := ⟨(← get).graph.steps.length⟩
  modifyGraph (Draft.pushStep · factType reading certainty plays)
  pure s

/-- The play of a mention of a clause, whose player must be related to that of its role. -/
def playOf (c : Clause) (m : MentionId) : Build (VariableId × RoleId) := do
  let v ← variableOf m
  let d ← get
  match (d.context.mention m).role with
  | none => throw (.noFactTypeMatch (d.context.describeClause c))
  | some role =>
    let vocabulary := d.context.vocabulary
    let player := (d.graph.variableAt v).objectType
    let rolePlayer := vocabulary.playerOf role
    if player ≠ rolePlayer ∧ (vocabulary.commonSupertype? player rolePlayer).isNone then
      throw (.incompatiblePlayer (vocabulary.nameOf player) (vocabulary.nameOf rolePlayer)
        (d.context.describeClause c))
    pure (v, role)

/-- Adds the step of a clause itself, if the clause has a fact type. -/
def addOwnStep (c : Clause) : Build (Option StepId) := do
  match c.factType with
  | none => pure none
  | some factType =>
    let plays ← c.mentions.mapM (playOf c)
    some <$> addStep factType c.reading c.certainty plays

/-- Ties the step of a nested clause to the variable that objectifies it, and adds the link step
between that variable and the first player of the nested clause. -/
def linkStep (outer : VariableId) (inner : StepId) : Build Unit := do
  modifyGraph (Draft.modifyStep · inner ({ · with objectificationVariable := some outer }))
  modifyGraph (Draft.modifyVariable · outer ({ · with objectificationStep := some inner }))
  let g := (← get).graph
  let first := g.playAt (g.stepAt inner).inputPlay
  let link ← (Vocabulary.linkFactType (g.variableAt outer).objectType first.role).within
    (·.context.vocabulary) fun v d => { d with context := { d.context with vocabulary := v } }
  let linked := (← get).context.vocabulary.factType link
  let _ ← addStep link linked.readings.head? .definite
    ([outer, first.variableId].zip linked.roles)
  pure ()

mutual

/-- Adds the steps of the clauses nested under a slot. -/
def addSlot : Slot → Build Unit
  | ⟨mention, nested⟩ =>
    if nested.isEmpty then pure ()
    else do
      let outer ← variableOf mention
      addNested outer nested

/-- Adds the steps of the clauses nested in a phrase. -/
def addPhrase : Phrase → Build Unit
  | .word _ => pure ()
  | .slot s => addSlot s
  | .comparison _ left right => do
    addSlot left
    addSlot right

/-- Adds the steps of the clauses nested in phrases, in order. -/
def addPhrases : List Phrase → Build Unit
  | [] => pure ()
  | p :: ps => do
    addPhrase p
    addPhrases ps

/-- Adds the step of a clause, after those of its nested clauses. A clause that only names an
individual has no step of its own. -/
def addClause : Clause → Build (Option StepId)
  | ⟨phrases, qualifiers, certainty, conjunction, factType, reading, roleSequence, alignment,
      contraction⟩ => do
    addPhrases phrases
    addOwnStep ⟨phrases, qualifiers, certainty, conjunction, factType, reading, roleSequence,
      alignment, contraction⟩

/-- Adds the steps of the clauses nested under the mention of a variable, each with its link. -/
def addNested (outer : VariableId) : List Clause → Build Unit
  | [] => pure ()
  | c :: cs => do
    match ← addClause c with
    | some inner => linkStep outer inner
    | none => pure ()
    addNested outer cs

end

/-- Adds a variable to those asked for, unless it is among them. -/
def ask (v : VariableId) : Build Unit :=
  modify fun d => { d with asked := if v ∈ d.asked then d.asked else d.asked ++ [v] }

/-- Adds the steps of a clause of the query itself. One that only names an individual asks for its
variable. -/
def addTopClause (c : Clause) : Build Unit := do
  match ← addClause c, c.mentions with
  | none, [m] => ask (← variableOf m)
  | _, _ => pure ()

/-- Builds the join graph of clauses and projects mentions onto its variables. Without mentions to
project, the variables asked for are the projection. -/
def build (clauses : List Clause) (projected : List MentionId) : Build JoinGraph := do
  modify fun d => (allMentions clauses).foldl Draft.addVariable d
  clauses.forM addTopClause
  let d ← get
  MonadExcept.ofExcept d.validate
  let projection ← projected.mapM variableOf
  pure { d.graph with projection := if projected.isEmpty then d.asked else projection }

end Build

/-- The join graph of resolved clauses, with mentions projected onto its variables. -/
def Compile.buildQuery (clauses : List Clause) (projected : List MentionId) :
    Compile JoinGraph :=
  fun x =>
    let (result, d) := (Build.build clauses projected).perform { context := x }
    (result, d.context)

end FactModel
