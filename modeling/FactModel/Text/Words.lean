set_option autoImplicit false

/-!
# Blank characters and words

A word of a text is a maximal run of characters that are not blank. Blank characters are those
with the `White_Space` property of Unicode, of which there are twenty-five.

## Main definitions

* `FactModel.Text.isBlank` — the blank characters.
* `FactModel.Text.pieces` — a text cut at separators, empty pieces included.
* `FactModel.Text.words` — the words of a text.
* `FactModel.Text.unwords` — words written with one space between them.
-/

namespace FactModel.Text

/-- The characters with the `White_Space` property of Unicode. -/
def isBlank (c : Char) : Bool :=
  let n := c.toNat
  (0x09 ≤ n && n ≤ 0x0D) || n == 0x20 || n == 0x85 || n == 0xA0 || n == 0x1680 ||
    (0x2000 ≤ n && n ≤ 0x200A) || n == 0x2028 || n == 0x2029 || n == 0x202F || n == 0x205F ||
    n == 0x3000

/-- The pieces of a text between its separators. There is one piece more than there are
separators, and pieces may be empty. -/
def pieces (isSeparator : Char → Bool) : List Char → List (List Char)
  | [] => [[]]
  | c :: cs =>
    if isSeparator c then [] :: pieces isSeparator cs
    else
      match pieces isSeparator cs with
      | [] => [[c]]
      | piece :: more => (c :: piece) :: more

/-- The pieces of a text between its separators, empty ones left out. -/
def fields (isSeparator : Char → Bool) (s : String) : List String :=
  ((pieces isSeparator s.toList).filter (!·.isEmpty)).map String.ofList

/-- The words of a text, in order. -/
def words (s : String) : List String :=
  fields isBlank s

/-- The words with one space between each two. -/
def unwords (ws : List String) : String :=
  " ".intercalate ws

/-- The items with a comma and a space between each two. -/
def commaSeparated (items : List String) : String :=
  ", ".intercalate items

/-! ## Pieces -/

/-- A text has at least one piece. -/
theorem pieces_ne_nil (isSeparator : Char → Bool) (cs : List Char) :
    pieces isSeparator cs ≠ [] := by
  cases cs with
  | nil => simp [pieces]
  | cons c cs => grind [pieces]

/-- No piece holds a separator. -/
theorem not_isSeparator_of_mem_pieces {isSeparator : Char → Bool} {cs piece : List Char}
    (h : piece ∈ pieces isSeparator cs) : ∀ c ∈ piece, isSeparator c = false := by
  induction cs generalizing piece with
  | nil => simp_all [pieces]
  | cons c cs ih => grind [pieces]

/-- A text without separators is its only piece. -/
theorem pieces_of_forall_not {isSeparator : Char → Bool} {cs : List Char}
    (h : ∀ c ∈ cs, isSeparator c = false) : pieces isSeparator cs = [cs] := by
  induction cs with
  | nil => simp [pieces]
  | cons c cs ih => grind [pieces]

end FactModel.Text
