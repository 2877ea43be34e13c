import FactModel.Number
set_option autoImplicit false

/-!
# Lines of TOML documents

## Main definitions

* `FactModel.Toml.Key` — a dotted key.
* `FactModel.Toml.Value` — a value as it is written. Its tables are lists of entries whose keys may
  still clash.
* `FactModel.Toml.Line` — what a line says.
-/

namespace FactModel.Toml

/-- A dotted key: its last part, and the parts before it, which lead to a table. -/
structure Key where
  path : List String
  name : String
deriving DecidableEq

namespace Key

/-- The key of these parts, of which there is at least one. -/
def ofParts (parts : List String) : Key :=
  ⟨parts.dropLast, parts.getLastD ""⟩

/-- The parts of a key. -/
def parts (key : Key) : List String :=
  key.path ++ [key.name]

end Key

/-- A value as it is written. -/
inductive Value where
  | text (value : String)
  | bool (value : Bool)
  | number (value : Number)
  | array (items : List Value)
  | table (entries : List (Key × Value))

/-- What a line says. -/
inductive Line where
  /-- A blank line or a comment. -/
  | nothing
  /-- A value for a key of the current table. -/
  | entry (key : Key) (value : Value)
  /-- A table is the current one from here on. -/
  | header (key : Key)
  /-- A new table at the end of a list of tables is the current one from here on. -/
  | rowHeader (key : Key)

end FactModel.Toml
