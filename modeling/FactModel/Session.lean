import FactModel.Context.Adoption
import FactModel.Context.Players
import FactModel.Definition.FactType
import FactModel.JoinGraph.Builder
import FactModel.Script.Parser
import FactModel.Settings
set_option autoImplicit false

/-!
# Sessions

A session turns declarations into constructs of a vocabulary. A declaration that fails leaves the
vocabulary as it found it; those before it in a script stay.

## Main definitions

* `FactModel.Session` — a vocabulary and its settings.
* `FactModel.Outcome` — what a declaration came to.
* `FactModel.Session.compile`, `FactModel.Session.declare` — compile a script or a declaration.
* `FactModel.Session.rankReadings` — the readings that a clause may invoke.
-/

namespace FactModel

/-- How one clause of a declaration was resolved. -/
structure ClauseReport where
  clause : String
  factType : Option FactTypeId
  reading : Option ReadingId
  cost : Nat
  contraction : Option Contraction
deriving DecidableEq

/-- What a declaration came to. -/
inductive Outcome where
  | objectType (objectType : ObjectTypeId)
  | subtype (subtype : ObjectTypeId) (factTypes : List FactTypeId)
  | factType (factType : FactTypeId) (created : Bool) (reports : List ClauseReport)
  | query (query : QueryId) (reports : List ClauseReport)
deriving DecidableEq

/-- How a clause was resolved. -/
def Context.report (x : Context) (c : Clause) : ClauseReport where
  clause := x.describeClause c
  factType := c.factType
  reading := c.reading
  cost := (c.alignment.map (·.cost)).getD 0
  contraction := c.contraction

namespace Compile

/-- Takes clauses into the context, finds their players and binds their mentions. -/
def enter (clauses : List Script.Clause) : Compile (List Clause) := do
  let clauses ← (Context.adoptAll clauses : StateM Context (List Clause))
  identifyPlayers clauses
  bindClauses clauses
  pure clauses

/-- Declares a fact type. -/
def declareFactType (clauses : List Script.Clause) : Compile (FactTypeId × Outcome) := do
  let clauses ← enter clauses
  let (factType, created, clauses) ← defineFactType clauses
  pure (factType, .factType factType created (clauses.map (← get).report))

/-- Declares a fact type by clauses with words and derives it from others. The mentions of its
first clause are projected onto the join graph of the derivation. -/
def declareDerived (contraction : Bool) (split : Nat) (clauses : List Script.Clause) :
    Compile Outcome := do
  let clauses ← enter clauses
  let (factType, created, head) ← defineFactType (clauses.take split)
  let body ← resolveAll contraction none (clauses.drop split)
  modify (·.mergeLoose)
  let query ← buildQuery body (head.headD default).mentions
  let reports := (head ++ body).map (← get).report
  let query ← edit (Vocabulary.addQuery query)
  edit (Vocabulary.setDerivation factType query)
  pure (.factType factType created reports)

/-- Declares a query. -/
def declareQuery (contraction : Bool) (clauses : List Script.Clause) : Compile Outcome := do
  let clauses ← enter clauses
  let clauses ← resolveAll contraction none clauses
  modify (·.mergeLoose)
  let query ← buildQuery clauses []
  let reports := clauses.map (← get).report
  let query ← edit (Vocabulary.addQuery query)
  pure (.query query reports)

/-- Makes a type a kind of others, in order. -/
def declareSupertypes (subtype : ObjectTypeId) : List String → Compile (List FactTypeId)
  | [] => pure []
  | name :: names => do
    let (supertype, _) ← resolvePlayer name
    let factType ← edit (Vocabulary.addSubtype subtype supertype)
    let factTypes ← declareSupertypes subtype names
    pure (factType :: factTypes)

/-- Declares a type to be a kind of others; the type itself need not have been declared. -/
def declareSubtype (subtype : String) (supertypes : List String) : Compile Outcome := do
  let subtype ←
    match (← get).vocabulary.findObjectType? subtype with
    | some existing => pure existing
    | none => edit (Vocabulary.addEntityType subtype)
  pure (.subtype subtype (← declareSupertypes subtype supertypes))

/-- The number of clauses in front of the `where` that a derivation begins with. -/
def derivationSplit? (clauses : List Script.Clause) : Option Nat :=
  (clauses.findIdx? (·.conjunction = some .where)).filter (0 < ·)

/-- Compiles a declaration. -/
def declaration (contraction : Bool) : Script.Declaration → Compile Outcome
  | .entityType name => .objectType <$> edit (Vocabulary.addEntityType name)
  | .valueType name => .objectType <$> edit (Vocabulary.addValueType name)
  | .subtype subtype supertypes => declareSubtype subtype supertypes
  | .factType clauses =>
    match derivationSplit? clauses with
    | some split => declareDerived contraction split clauses
    | none => (·.2) <$> declareFactType clauses
  | .objectification term clauses => do
    let (factType, outcome) ← declareFactType clauses
    let _ ← edit (Vocabulary.objectify term factType)
    pure outcome
  | .query clauses => declareQuery contraction clauses

end Compile

/-- A vocabulary with the settings for the declarations that extend it. -/
structure Session where
  vocabulary : Vocabulary
  settings : Settings

namespace Session

/-- A session with an empty vocabulary. -/
def start (settings : Settings) : Session where
  vocabulary := { name := settings.vocabulary }
  settings := settings

/-- The context of a declaration. -/
def context (s : Session) : Context where
  vocabulary := s.vocabulary
  forwardTerms := s.settings.forwardTerms

/-- Compiles one declaration. A failure leaves the vocabulary as it was. -/
def declare (s : Session) (d : Script.Declaration) : Except Fault Outcome × Session :=
  match (Compile.declaration s.settings.contraction d).perform s.context with
  | (.ok outcome, x) => (.ok outcome, { s with vocabulary := x.vocabulary })
  | (.error fault, _) => (.error fault, s)

/-- Compiles declarations in order, up to the first failure. Those before it stay compiled. -/
def declareAll (s : Session) : List Script.Declaration → Except Fault (List Outcome) × Session
  | [] => (.ok [], s)
  | d :: ds =>
    match s.declare d with
    | (.error fault, s) => (.error fault, s)
    | (.ok outcome, s) =>
      let (outcomes, s) := declareAll s ds
      (outcomes.map (outcome :: ·), s)

/-- Compiles a script. -/
def compile (s : Session) (script : String) : Except Fault (List Outcome) × Session :=
  match Script.parse script with
  | .error fault => (.error fault, s)
  | .ok declarations => s.declareAll declarations

/-- A text as a query: one question mark takes the place of all closing marks at its end. -/
def asQuery (text : String) : String :=
  String.ofList (text.toList.reverse.dropWhile fun c => c == '?' || c == ';').reverse ++ "?"

/-- The clauses of a text that is read as a query. -/
def clausesOf (text : String) : Except Fault (List Script.Clause) :=
  match Script.parse (asQuery text) with
  | .error fault => .error fault
  | .ok (.query clauses :: _) => .ok clauses
  | .ok _ => .error (.notAClause text)

/-- The readings that the first of some clauses may invoke, with their costs, cheapest first. -/
def rankClauses (s : Session) (clauses : List Script.Clause) :
    Except Fault (List (String × Nat)) :=
  match (Compile.enter clauses).perform s.context with
  | (.error fault, _) => .error fault
  | (.ok [], _) => .ok []
  | (.ok (c :: _), x) =>
    .ok ((x.rank {} c).alignments.map fun a => (x.vocabulary.expandReading a.reading, a.cost))

/-- The readings that the first clause of a text may invoke, with their costs, cheapest first. The
vocabulary stays as it is. -/
def rankReadings (s : Session) (text : String) : Except Fault (List (String × Nat)) := do
  s.rankClauses (← clausesOf text)

end Session

end FactModel
