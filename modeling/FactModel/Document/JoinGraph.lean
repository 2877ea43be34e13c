import FactModel.Document.Part
import FactModel.JoinGraph.Basic
set_option autoImplicit false

/-!
# Join graphs as documents
-/

namespace FactModel.Document

/-- A variable. -/
def ofVariable (v : Variable) : Json :=
  .object [("object_type", ofObjectTypeId v.objectType),
    ("role_name", .ofOption ofRoleName v.roleName), ("value", .ofOption ofLiteral v.value),
    ("objectification_step", .ofOption ofStepId v.objectificationStep),
    ("plays", .ofList ofPlayId v.plays)]

/-- A play. -/
def ofPlay (p : Play) : Json :=
  .object [("variable", ofVariableId p.variableId), ("role", ofRoleId p.role),
    ("step", ofStepId p.step)]

/-- A step. -/
def ofStep (s : Step) : Json :=
  .object [("fact_type", ofFactTypeId s.factType), ("reading", .ofOption ofReadingId s.reading),
    ("input_play", ofPlayId s.inputPlay), ("output_play", ofPlayId s.outputPlay),
    ("incidental_plays", .ofList ofPlayId s.incidentalPlays),
    ("is_disallowed", .bool s.isDisallowed), ("is_optional", .bool s.isOptional),
    ("objectification_variable", .ofOption ofVariableId s.objectificationVariable)]

/-- A join graph. -/
def ofJoinGraph (g : JoinGraph) : Json :=
  .object [("variables", .ofList ofVariable g.vars), ("plays", .ofList ofPlay g.plays),
    ("steps", .ofList ofStep g.steps), ("projection", .ofList ofVariableId g.projection)]

end FactModel.Document
