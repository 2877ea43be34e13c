import FactModel.Sentence.Part
import FactModel.Vocabulary.Id
set_option autoImplicit false

/-!
# Join graphs

What a query or a derivation asks for: variables that stand for individuals, and steps that each
relate some of them by a fact type. A play is the part of one variable in one step.

## Main definitions

* `FactModel.JoinGraph` — a join graph, with `FactModel.Variable`, `FactModel.Play` and
  `FactModel.Step` as its parts.
* `FactModel.JoinGraph.stepVariables` — the variables that a step relates.
-/

namespace FactModel

/-- An individual that a query speaks of. -/
structure Variable where
  objectType : ObjectTypeId
  roleName : Option RoleName := none
  value : Option Literal := none
  /-- The step whose fact type the variable objectifies. -/
  objectificationStep : Option StepId := none
  plays : List PlayId := []
deriving DecidableEq, Inhabited

/-- The part of a variable in a step. -/
structure Play where
  variableId : VariableId
  role : RoleId
  step : StepId
deriving DecidableEq, Inhabited

/-- A fact about some of the variables. It has two plays at least; a step about one variable plays
it twice. -/
structure Step where
  factType : FactTypeId
  reading : Option ReadingId
  inputPlay : PlayId
  outputPlay : PlayId
  /-- The plays beyond the first two. -/
  incidentalPlays : List PlayId
  isDisallowed : Bool
  isOptional : Bool
  objectificationVariable : Option VariableId := none
deriving DecidableEq, Inhabited

/-- The plays of a step, in order. -/
def Step.plays (s : Step) : List PlayId :=
  s.inputPlay :: s.outputPlay :: s.incidentalPlays

/-- The join graph of a query or a derivation. -/
structure JoinGraph where
  vars : List Variable := []
  plays : List Play := []
  steps : List Step := []
  /-- The variables behind the roles of a derived reading, or those that a query asks for. -/
  projection : List VariableId := []
deriving DecidableEq, Inhabited

namespace JoinGraph

/-- The variable of that number. -/
def variableAt (g : JoinGraph) (v : VariableId) : Variable :=
  g.vars[v.index]?.getD default

/-- The play of that number. -/
def playAt (g : JoinGraph) (p : PlayId) : Play :=
  g.plays[p.index]?.getD default

/-- The step of that number. -/
def stepAt (g : JoinGraph) (s : StepId) : Step :=
  g.steps[s.index]?.getD default

/-- The numbers of the variables, in order. -/
def variableIds (g : JoinGraph) : List VariableId :=
  (List.range g.vars.length).map .mk

/-- The numbers of the steps, in order. -/
def stepIds (g : JoinGraph) : List StepId :=
  (List.range g.steps.length).map .mk

/-- The variables that a step relates, in the order of its plays. -/
def stepVariables (g : JoinGraph) (s : StepId) : List VariableId :=
  (g.stepAt s).plays.map fun p => (g.playAt p).variableId

end JoinGraph

end FactModel
