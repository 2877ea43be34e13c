import FactModel.Json.Basic
import FactModel.Peg.Run
import FactModel.Toml.Grammar
set_option autoImplicit false

/-!
# Tables of TOML documents

The lines of a document fill one table. No key gets two values and no table two headers, though
the tables on the way to a key need no header of their own.

## Main definitions

* `FactModel.Toml.Table` — a table that is being filled.
* `FactModel.Toml.Table.within?` — a change of the table that a key leads to.
* `FactModel.Toml.Value.json?` — the JSON value that a value is.
* `FactModel.Toml.Table.ofLines?` — the table that the lines of a document fill.
* `FactModel.Toml.parse?` — the table that a text is, as a JSON document.
-/

namespace FactModel.Toml

/-- What made a table: a header of its own, the header of a table inside it, or a dotted key. -/
inductive Origin where
  | header
  | implied
  | dotted
deriving DecidableEq

/-- What a key stands for in a table that is being filled. -/
inductive Item where
  | value (value : Json)
  | table (origin : Origin) (members : List (String × Item))
  /-- A list of tables. Only the last is still being filled. -/
  | rows (earlier : List Json) (members : List (String × Item))

/-- A table that is being filled. -/
structure Table where
  origin : Origin
  members : List (String × Item)

mutual

/-- The JSON value of an item. -/
def Item.json : Item → Json
  | .value value => value
  | .table _ members => .object (jsonMembers members)
  | .rows earlier members => .array (earlier ++ [.object (jsonMembers members)])

/-- The members of a JSON object for those of a table. -/
def jsonMembers : List (String × Item) → List (String × Json)
  | [] => []
  | (name, item) :: members => (name, item.json) :: jsonMembers members

end

namespace Table

/-- An empty table. -/
def empty (origin : Origin) : Table :=
  ⟨origin, []⟩

/-- What a name stands for. -/
def find? (name : String) (t : Table) : Option Item :=
  t.members.lookup name

/-- Makes a name stand for an item. -/
def put (name : String) (item : Item) (t : Table) : Table :=
  if (t.find? name).isSome then
    { t with members := t.members.map fun m => if m.1 == name then (name, item) else m }
  else { t with members := t.members ++ [(name, item)] }

/-- Changes the table that a path leads to. Tables that are missing on the way are made, by a
dotted key or implied by a header. A dotted key does not lead through a table that has a header,
and no path leads through a value. -/
def within? (dotted : Bool) (change : Table → Option Table) : List String → Table → Option Table
  | [], t => change t
  | name :: path, t =>
    match t.find? name with
    | none => do
      let inner ← within? dotted change path (empty (if dotted then .dotted else .implied))
      some (t.put name (.table inner.origin inner.members))
    | some (.table origin members) =>
      if dotted ∧ origin = .header then none
      else do
        let inner ← within? dotted change path ⟨origin, members⟩
        some (t.put name (.table inner.origin inner.members))
    | some (.rows earlier members) => do
      let inner ← within? dotted change path ⟨.header, members⟩
      some (t.put name (.rows earlier inner.members))
    | some (.value _) => none

/-- Gives a key of this table a value. A dotted key reaches only tables that dotted keys made. -/
def assign? (key : Key) (value : Json) : Table → Option Table :=
  within? true
    (fun t =>
      if key.path.isEmpty == (t.origin == .dotted) || (t.find? key.name).isSome then none
      else some (t.put key.name (.value value)))
    key.path

/-- Begins the table of a header. It must not have had one before. -/
def begin? (key : Key) : Table → Option Table :=
  within? false
    (fun t =>
      match t.find? key.name with
      | none => some (t.put key.name (.table .header []))
      | some (.table .implied members) => some (t.put key.name (.table .header members))
      | some _ => none)
    key.path

/-- Begins a new table in the list of tables that a key stands for. -/
def beginRow? (key : Key) : Table → Option Table :=
  within? false
    (fun t =>
      match t.find? key.name with
      | none => some (t.put key.name (.rows [] []))
      | some (.rows earlier members) =>
        some (t.put key.name (.rows (earlier ++ [.object (jsonMembers members)]) []))
      | some _ => none)
    key.path

/-- The JSON object of a table. -/
def json (t : Table) : Json :=
  .object (jsonMembers t.members)

/-- The table of entries in braces. -/
def ofEntries? (entries : List (Key × Json)) : Option Table :=
  entries.foldlM (fun t (key, value) => t.assign? key value) (empty .header)

end Table

mutual

/-- The JSON value that a value is, unless keys in it clash. -/
def Value.json? : Value → Option Json
  | .text value => some (.text value)
  | .bool value => some (.bool value)
  | .number value => some (.number value)
  | .array items => (jsonItems? items).map .array
  | .table entries => do
    let table ← Table.ofEntries? (← jsonEntries? entries)
    some table.json

/-- The JSON values of items. -/
def jsonItems? : List Value → Option (List Json)
  | [] => some []
  | item :: items => do
    let first ← item.json?
    some (first :: (← jsonItems? items))

/-- Entries with JSON values. -/
def jsonEntries? : List (Key × Value) → Option (List (Key × Json))
  | [] => some []
  | (key, value) :: entries => do
    let first ← value.json?
    some ((key, first) :: (← jsonEntries? entries))

end

namespace Table

/-- A document that has been read up to some line: what it has filled, and the path to its current
table. -/
structure Filling where
  table : Table := empty .header
  current : List String := []

/-- What a document fills with one more line. -/
def Filling.add? (f : Filling) : Line → Option Filling
  | .nothing => some f
  | .entry key value => do
    let value ← value.json?
    let table ← f.table.within? false (assign? key value) f.current
    some { f with table }
  | .header key => (f.table.begin? key).map fun table => { table, current := key.parts }
  | .rowHeader key => (f.table.beginRow? key).map fun table => { table, current := key.parts }

/-- The table that the lines of a document fill. -/
def ofLines? (lines : List Line) : Option Table :=
  (lines.foldlM Filling.add? {}).map (·.table)

end Table

/-! ## Reading -/

/-- The table that a text is. -/
def parse? (source : String) : Option Json := do
  let lines ← Peg.valueOf? id valueForm document source
  (Table.ofLines? lines).map Table.json

end FactModel.Toml
