import FactModel.Number
set_option autoImplicit false

/-!
# JSON documents

## Main definitions

* `FactModel.Json` — a JSON value. An object keeps the order of its members.
* `FactModel.Json.nestsWithin` — whether a value is nested no deeper than a limit.
-/

namespace FactModel

/-- A JSON value. An object keeps the order of its members. -/
inductive Json where
  | null
  | bool (value : Bool)
  | number (value : Number)
  | text (value : String)
  | array (items : List Json)
  | object (members : List (String × Json))
deriving Inhabited

namespace Json

/-- A natural number as a JSON value. -/
def nat (n : Nat) : Json :=
  .number (.integer n)

/-- A value that may be absent; an absent one is `null`. -/
def ofOption {α : Type} (item : α → Json) : Option α → Json
  | none => .null
  | some a => item a

/-- A list of values. -/
def ofList {α : Type} (item : α → Json) (as : List α) : Json :=
  .array (as.map item)

/-- The value of the last member of that name. -/
def member? (name : String) : Json → Option Json
  | .object members => (members.reverse.find? (·.1 == name)).map (·.2)
  | _ => none

/-- Whether arrays and objects are nested in a value no deeper than the limit. -/
def nestsWithin : Nat → Json → Bool
  | 0, .array _ => false
  | 0, .object _ => false
  | limit + 1, .array items => items.all (nestsWithin limit)
  | limit + 1, .object members => members.all fun (_, value) => nestsWithin limit value
  | _, _ => true

end Json

end FactModel
