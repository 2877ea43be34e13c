import FactModel.Text.Words
import FactModel.Sentence.Part
set_option autoImplicit false

/-!
# Faults

Why a script or a declaration is refused. A fault names its cause; `Fault.message` is the one place
where causes are put into words.

## Main definitions

* `FactModel.Position` — a line and a column.
* `FactModel.Fault` — the causes.
* `FactModel.Fault.message` — the wording.
-/

namespace FactModel

open Text

/-- A place in a script; both numbers count from one. -/
structure Position where
  line : Nat
  column : Nat
deriving DecidableEq

/-- The position behind the given characters. -/
def Position.behind (before : List Char) : Position where
  line := 1 + before.count '\n'
  column := 1 + (before.reverse.takeWhile (· ≠ '\n')).length

/-- A side of a frequency range. -/
inductive FrequencyBound where
  | maximum
  | minimum
deriving DecidableEq

/-- Why a script or a declaration is refused. -/
inductive Fault where
  /-- The script is not of the notation: at its farthest place these rules were expected, and
  those should not have matched. -/
  | unreadable (expected refused : List String) (place : Position)
  /-- The notation was met, but a number is too large. -/
  | outOfRange (wanted written : String) (place : Position)
  /-- The text is a declaration, where a clause is asked for. -/
  | notAClause (text : String)
  | undefinedObjectType (term : String)
  | duplicateRoleName (roleName : RoleName)
  | adjectiveWithRoleName (term roleName : String)
  | noFactTypeMatch (clause : String)
  | ambiguousMatch (clause : String) (candidates : List (String × Nat))
  | subtypeStepDirection (clause factType : String)
  | disconnectedQuery (groups : List (List String))
  | objectificationMismatch (term factType : String)
  /-- Another entity type objectifies the fact type. -/
  | objectifiedAlready (term factType entityType : String)
  | unmatchedRolePlayer (term factType : String)
  | duplicateReading (reading : String)
  | conflictingFactTypes (factTypes : List String)
  | conflictingFrequency (bound : FrequencyBound) (roles : String)
  | conflictingRoleName (term existing requested : String)
  | invalidQualifier (qualifier : String)
  /-- No two roles of the clause could be related by the qualifiers. -/
  | noRingRoles (qualifiers : List String) (clause : String)
  | duplicateObjectType (name : String)
  | circularSubtype (subtype supertype : String)
  | unusedVariable (player : String)
  | incompatiblePlayer (player rolePlayer reading : String)
deriving DecidableEq

/-- The names as alternatives: `A`, `A or B`, `A, B, or C`. -/
def alternatives : List String → String
  | [] => ""
  | [a] => a
  | [a, b] => a ++ " or " ++ b
  | names => commaSeparated names.dropLast ++ ", or " ++ names.getLastD ""

/-- What a reader of a script would have expected, and what should not have been there. -/
def describeExpectation (expected refused : List String) : String :=
  match expected, refused with
  | [], [] => "unknown parsing error"
  | _, [] => "expected " ++ alternatives expected
  | [], _ => "unexpected " ++ alternatives refused
  | _, _ => "unexpected " ++ alternatives refused ++ "; expected " ++ alternatives expected

namespace Fault

/-- The wording of a fault. -/
def message : Fault → String
  | unreadable expected refused _ => "Parse error: " ++ describeExpectation expected refused
  | outOfRange wanted written _ => "Parse error: expected " ++ wanted ++ " in '" ++ written ++ "'"
  | notAClause text => "Parse error: '" ++ text ++ "' is not a clause"
  | undefinedObjectType term => "Reference to undefined object type '" ++ term ++ "'"
  | duplicateRoleName (.named name) => "Duplicate role name '" ++ name ++ "' in clause"
  | duplicateRoleName (.subscript n) => "Duplicate role subscript '" ++ toString n ++ "' in clause"
  | adjectiveWithRoleName term roleName =>
    "'" ++ term ++ "' may not have adjectives and also define the role name '" ++ roleName ++ "'"
  | noFactTypeMatch clause => "No fact type matches '" ++ clause ++ "'"
  | ambiguousMatch clause candidates =>
    "'" ++ clause ++ "' has more than one possible match: " ++
      commaSeparated (candidates.map fun (reading, cost) =>
        "'" ++ reading ++ "' (cost " ++ toString cost ++ ")")
  | subtypeStepDirection clause factType =>
    "'" ++ clause ++ "' needs a subtype step on '" ++ factType ++
      "' that runs against the inheritance"
  | disconnectedQuery groups =>
    "Query is disconnected between " ++
      " and ".intercalate (groups.map fun group => "[" ++ commaSeparated group ++ "]")
  | objectificationMismatch term factType =>
    "'" ++ term ++ "' does not objectify '" ++ factType ++ "'"
  | objectifiedAlready term factType entityType =>
    "'" ++ term ++ "' does not objectify '" ++ factType ++ " (already objectified by " ++
      entityType ++ ")'"
  | unmatchedRolePlayer term factType => "'" ++ term ++ "' plays no role in '" ++ factType ++ "'"
  | duplicateReading reading => "Reading '" ++ reading ++ "' already exists"
  | conflictingFactTypes factTypes =>
    "Clauses match different existing fact types: " ++ commaSeparated factTypes
  | conflictingFrequency .maximum roles =>
    "Conflicting maximum frequency for the constraint over " ++ roles
  | conflictingFrequency .minimum roles =>
    "Conflicting minimum frequency for the constraint over " ++ roles
  | conflictingRoleName term existing requested =>
    "Conflicting role names '" ++ existing ++ "' and '" ++ requested ++ "' for " ++ term
  | invalidQualifier qualifier => "Invalid qualifier: " ++ qualifier
  | noRingRoles qualifiers clause =>
    "Invalid qualifier: " ++ commaSeparated qualifiers ++
      " needs two roles of compatible players in '" ++ clause ++ "'"
  | duplicateObjectType name => "Object type '" ++ name ++ "' is already defined"
  | circularSubtype subtype supertype =>
    "Circular type inheritance: " ++ subtype ++ " is a kind of " ++ supertype
  | unusedVariable player => "Query variable for " ++ player ++ " is not used in any step"
  | incompatiblePlayer player rolePlayer reading =>
    "A " ++ rolePlayer ++ " cannot satisfy " ++ player ++ " in '" ++ reading ++ "'"

/-- Where in the script the fault lies, if it lies in its notation. -/
def position? : Fault → Option Position
  | unreadable _ _ place | outOfRange _ _ place => some place
  | _ => none

end Fault

end FactModel
