import FactModel.Json.Basic
import FactModel.Peg.Run
import FactModel.Text.Digits
set_option autoImplicit false

/-!
# Places in JSON documents

A member of an object is at the place of its name. Behind the name of a place, `.name` leads to a
member of what is there and `[0]` to an item.

## Main definitions

* `FactModel.Json.Step` — one step on the way to a place.
* `FactModel.Json.stepsTo` — the steps to the place with a name.
* `FactModel.Json.putAt` — a document with another value at a place.
* `FactModel.Json.ofPlaces` — the object with given values at given places.
-/

namespace FactModel.Json

open Peg Peg.Expr

/-- One step on the way to a place. Items are counted from the end if the index is negative. -/
inductive Step where
  | member (name : String)
  | item (index : Int)
deriving DecidableEq

/-! ## Names of places -/

/-- A parsing expression of names of places. -/
abbrev PlaceForm : Type → Type 1 :=
  Expr Unit Unit Unit

/-- The name of a member. -/
def memberForm : PlaceForm Step :=
  .member <$> lexeme (void (atLeastOnce (.satisfy fun c => c.isAlphanum || c == '_' || c == '-')))

/-- The index that digits stand for, perhaps with a minus sign in front, if it fits into 64 bits. -/
def indexOf? (cs : List Char) : Option Int :=
  let index : Int :=
    match cs with
    | '-' :: digits => -(Text.digitsValue digits : Int)
    | digits => Text.digitsValue digits
  if Number.fitsWord index then some index else none

/-- The index of an item, in brackets. -/
def itemForm : PlaceForm Step :=
  let spacing : PlaceForm Unit := void (.many (the " " <|> the "\t"))
  .item <$>
    (the "[" *> spacing *> reading indexOf? (.optional (the "-") *> digits) <*
      spacing <* the "]")

/-- The steps of a name. -/
def stepsForm : PlaceForm (List Step) :=
  (fun (first, more) => first :: more) <$>
    .pair memberForm (.many (the "." *> memberForm <|> itemForm)) <* .endOfInput

/-- The steps to the place with a name. A name of another form is the name of a member. -/
def stepsTo (name : String) : List Step :=
  (valueOf? id .recur stepsForm name).getD [.member name]

/-! ## Values at places -/

/-- The members of an object; anything else has none. -/
def members : Json → List (String × Json)
  | .object members => members
  | _ => []

/-- The items of an array; anything else has none. -/
def items : Json → List Json
  | .array items => items
  | _ => []

/-- How many items with nothing in them are put into an array at once, at most. -/
def widestGap : Nat :=
  1000000

/-- So many items with nothing in them, up to the limit. -/
def nulls (n : Int) : List Json :=
  List.replicate (if n < widestGap then n.toNat else widestGap) .null

/-- Items with as many more as it takes to have one at the index, and the position of that one. A
gap that is too wide is narrowed. -/
def reaching (index : Int) (items : List Json) : List Json × Nat :=
  let position := if index < 0 then items.length + index else index
  if position < 0 then (nulls (-position) ++ items, 0)
  else if position < items.length then (items, position.toNat)
  else
    let before := items ++ nulls (position - items.length)
    (before ++ [.null], before.length)

/-- A document with another value at a place. What is missing on the way is made, and what is in
the way is replaced. -/
def putAt (value : Json) : List Step → Json → Json
  | [], _ => value
  | .member name :: steps, document =>
    let inner := putAt value steps ((document.member? name).getD .null)
    .object (document.members.filter (·.1 ≠ name) ++ [(name, inner)])
  | .item index :: steps, document =>
    let (items, position) := reaching index document.items
    .array (items.set position (putAt value steps (items.getD position .null)))

/-- The object that has these values at the places with these names. -/
def ofPlaces (values : List (String × Json)) : Json :=
  values.foldl (fun document (name, value) => putAt value (stepsTo name) document) (.object [])

end FactModel.Json
