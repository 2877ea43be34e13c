import FactModel.Fault
import FactModel.Peg.Run
import FactModel.Script.Grammar
set_option autoImplicit false

/-!
# Reading a script

## Main definitions

* `FactModel.Script.blanks` — passes over blanks and comments.
* `FactModel.Script.parse` — the declarations of a script, or why it has none.
-/

namespace FactModel.Script

open Peg

/-- The characters that may stand between the parts of a declaration. -/
def isSpacing (c : Char) : Bool :=
  c == ' ' || c == '\t' || c == '\r' || c == '\n'

/-- Passes over spacing and over comments, which begin with two slashes and end with their line.
The flag tells whether the place is inside a comment. -/
def passBlanks (inComment : Bool) (offset : Nat) : List Char → Cursor
  | [] => ⟨offset, []⟩
  | c :: rest =>
    if inComment then passBlanks (c ≠ '\n') (offset + 1) rest
    else if isSpacing c then passBlanks false (offset + 1) rest
    else if c = '/' ∧ rest.head? = some '/' then passBlanks true (offset + 1) rest
    else ⟨offset, c :: rest⟩

/-- Passes over blanks and comments. -/
def blanks (c : Cursor) : Cursor :=
  passBlanks false c.offset c.rest

/-- The position in a script of the character at an offset. -/
def positionAt (source : List Char) (offset : Nat) : Position :=
  .behind (source.take offset)

/-- Runs the grammar on a script. -/
def read (source : List Char) : Result Misread (List Declaration) × Attempts Rule :=
  run blanks (fixpoint blanks clauseList (source.length + 1)) 0 script {} (.start source) {}

/-- The declarations of a script in source order, or why it has none. -/
def parse (source : String) : Except Fault (List Declaration) :=
  match read source.toList with
  | (.matched _ (.ok declarations), _) => .ok declarations
  | (.matched _ (.error misread), _) =>
    .error (.outOfRange misread.wanted misread.lexeme.text
      (positionAt source.toList misread.lexeme.offset))
  | (.failed, attempts) =>
    .error (.unreadable (Rule.inOrder attempts.expected) (Rule.inOrder attempts.refused)
      (positionAt source.toList attempts.place))

end FactModel.Script
