import FactModel.Json.Place
import FactModel.Text.Words
set_option autoImplicit false

/-!
# Settings

## Main definitions

* `FactModel.Settings` — how declarations are compiled and written.
* `FactModel.Settings.ofPlaces?` — settings from values at places of a document.
* `FactModel.Settings.environmentMembers` — the members that environment variables override.
-/

namespace FactModel

/-- How declarations are compiled and written. -/
structure Settings where
  /-- The name of the vocabulary. -/
  vocabulary : String := "default"
  /-- The terms that may be used before they are declared; they become entity types. -/
  forwardTerms : List String := []
  /-- Whether clauses of queries may be completed from the clause before. -/
  contraction : Bool := true
  /-- Whether the vocabulary is written with one item a line. -/
  pretty : Bool := false
  /-- Which messages a program that keeps a log writes to it. -/
  logFilter : String := "info"
deriving DecidableEq

namespace Settings

/-! ## Values -/

/-- A value as a text. Truth values and numbers count as what is written for them. -/
def asText? : Json → Option String
  | .text value => some value
  | .bool true => some "true"
  | .bool false => some "false"
  | .number value => some value.written
  | _ => none

/-- A value as a truth value. Some words stand for one, and so do numbers. -/
def asBool? : Json → Option Bool
  | .bool value => some value
  | .number value => some (!value.isZero)
  | .text value =>
    if ["1", "true", "on", "yes"].contains value.toLower then some true
    else if ["0", "false", "off", "no"].contains value.toLower then some false
    else none
  | _ => none

/-- A value as a list of texts. -/
def asTexts? : Json → Option (List String)
  | .array items => items.mapM asText?
  | _ => none

/-- The value of a member, or the given value if there is no such member. No value at all if the
member is not of the wanted type. -/
def read {α : Type} (document : Json) (name : String) (missing : α) (as? : Json → Option α) :
    Option α :=
  match document.member? name with
  | none => some missing
  | some value => as? value

/-- The settings that values at places of a document give. Of two values at one place the later
counts, and values at other places are passed over. -/
def ofPlaces? (values : List (String × Json)) : Option Settings := do
  let document := Json.ofPlaces values
  let usual : Settings := {}
  let vocabulary ← read document "vocabulary" usual.vocabulary asText?
  let forwardTerms ← read document "allowed_forward_terms" usual.forwardTerms asTexts?
  let contraction ← read document "contraction" usual.contraction asBool?
  let pretty ← read document "pretty" usual.pretty asBool?
  let logFilter ← read document "log_filter" usual.logFilter asText?
  some { vocabulary, forwardTerms, contraction, pretty, logFilter }

/-! ## Environment variables -/

/-- What an environment variable sets: a truth value, a number, a list where one is wanted, or a
text. -/
def environmentValue (key value : String) : Json :=
  if value.toLower = "true" then .bool true
  else if value.toLower = "false" then .bool false
  else
    match Number.ofText? value with
    | some number => .number number
    | none =>
      if key = "allowed_forward_terms" then
        .array ((Text.pieces (· == ',') value.toList).map fun piece => .text (String.ofList piece))
      else .text value

/-- The beginning of the names of environment variables that override settings. -/
def environmentMark : String :=
  "clausal_"

/-- The members that environment variables override. -/
def environmentMembers (environment : List (String × String)) : List (String × Json) :=
  environment.filterMap fun (name, value) =>
    let lowered := name.toLower
    if lowered.startsWith environmentMark then
      let key := String.ofList (lowered.toList.drop environmentMark.length)
      some (key, environmentValue key value)
    else none

end Settings

end FactModel
