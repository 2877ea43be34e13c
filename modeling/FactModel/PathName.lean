import FactModel.Text.Words
set_option autoImplicit false

/-!
# Names of files

## Main definitions

* `FactModel.PathName.parts` — the parts of a name between its slashes.
* `FactModel.PathName.ending?` — the ending of a name, which tells the format of the file.
* `FactModel.PathName.withEnding?` — a name with an ending behind it.
-/

namespace FactModel.PathName

/-- The parts of a name between its slashes. Empty parts and single points lead nowhere. -/
def parts (name : String) : List String :=
  (Text.fields (· == '/') name).filter (· ≠ ".")

/-- The last part of a name, unless that leads back. -/
def last? (name : String) : Option String :=
  (parts name).getLast?.filter (· ≠ "..")

/-- What stands behind the last point of a name, if anything stands before that point. -/
def ending? (name : String) : Option String := do
  match (Text.pieces (· == '.') (← last? name).toList).reverse with
  | last :: before :: more =>
    if before.isEmpty && more.isEmpty then none else some (String.ofList last)
  | _ => none

/-- A name with an ending, or one more ending, behind its last part. What follows the last part is
dropped; but a name that has an ending already must end with its last part. -/
def withEnding? (name ending : String) : Option String := do
  let last ← last? name
  if (ending? name).isSome && !name.endsWith last then none
  else
    let start := if name.startsWith "/" then "/" else ""
    some (start ++ "/".intercalate (parts name) ++ "." ++ ending)

end FactModel.PathName
