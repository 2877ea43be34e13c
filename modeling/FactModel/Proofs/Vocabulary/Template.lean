import Mathlib.Tactic.Lemma
import FactModel.Vocabulary.Template
set_option autoImplicit false

/-!
# Templates and their tokens

A template is kept as a text and read back as words and placeholders. Nothing is lost on the way if
its words are words of the notation: not empty, without blanks, and unlike a placeholder.

## Main definitions

* `FactModel.Text.IsSolid` — a text that is one word.
* `FactModel.Template.IsWord` — a text that is one word and no placeholder.
* `FactModel.Template.places` — the placeholders of a template.
* `FactModel.Template.Token.IsPlain` — a token that is read back as it is written.

## Main results

* `FactModel.Text.words_unwords` — words that are written apart are read back.
* `FactModel.Template.place?_writtenPlace` — a placeholder is read back.
* `FactModel.Template.tokens_render` — plain tokens are read back.
* `FactModel.Template.places_tokens_render_eq` — the placeholders written are read back, unless
  their numbers are too large.
-/

namespace FactModel

/-! ## Words -/

namespace Text

/-- A text with characters, none of them blank. -/
def IsSolid (s : String) : Prop :=
  s ≠ "" ∧ ∀ c ∈ s.toList, isBlank c = false

/-- The printing characters of the seven-bit set are not blank. -/
lemma isBlank_eq_false {c : Char} (hlow : 0x20 < c.toNat) (hhigh : c.toNat < 0x85) :
    isBlank c = false := by
  simp only [isBlank, Bool.or_eq_false_iff, Bool.and_eq_false_iff, decide_eq_false_iff_not,
    beq_eq_false_iff_ne]
  omega

/-- A solid word is the only field of itself. -/
lemma fields_solid {s : String} (h : IsSolid s) : fields isBlank s = [s] := by
  have hne : s.toList ≠ [] := fun hs => h.1 (String.toList_inj.1 hs)
  simp [fields, pieces_of_forall_not h.2, hne]

/-- A separator cuts a text into the pieces in front of it and those behind it. -/
lemma pieces_append {isSeparator : Char → Bool} {c : Char} (hc : isSeparator c = true)
    (cs rest : List Char) :
    pieces isSeparator (cs ++ c :: rest) = pieces isSeparator cs ++ pieces isSeparator rest := by
  induction cs with
  | nil => simp [pieces, hc]
  | cons d cs ih =>
    have hne := pieces_ne_nil isSeparator cs
    rw [List.cons_append, pieces, pieces, ih]
    split
    · rfl
    · cases hpieces : pieces isSeparator cs with
      | nil => exact absurd hpieces hne
      | cons piece more => rfl

/-- A space cuts a text into the words in front of it and those behind it. -/
lemma words_append (s rest : String) : words (s ++ " " ++ rest) = words s ++ words rest := by
  have hspace : (s ++ " " ++ rest).toList = s.toList ++ ' ' :: rest.toList := by simp
  rw [words, fields, hspace, pieces_append (by decide), List.filter_append, List.map_append]
  rfl

/-- A solid text in front of a space is the first word. -/
lemma words_append_space {s : String} (h : IsSolid s) (rest : String) :
    words (s ++ " " ++ rest) = s :: words rest := by
  rw [words_append, words, fields_solid h]
  rfl

/-- Words that are written apart are read back. -/
theorem words_unwords {ws : List String} (h : ∀ w ∈ ws, IsSolid w) : words (unwords ws) = ws := by
  induction ws with
  | nil => simp [unwords, words, fields, pieces]
  | cons w ws ih =>
    have hw : IsSolid w := h w (by simp)
    have hws : words (unwords ws) = ws := ih fun u hu => h u (by simp [hu])
    cases ws with
    | nil => simpa [unwords, words] using fields_solid hw
    | cons u us =>
      have hcons : unwords (w :: u :: us) = w ++ " " ++ unwords (u :: us) := by
        simp [unwords, String.intercalate_cons_cons]
      rw [hcons, words_append_space hw, hws]

end Text

/-! ## Placeholders -/

namespace Template

/-- The value of digits is the one that the library gives them. -/
lemma digitsValueFrom_eq (n : Nat) (cs : List Char) :
    Text.digitsValueFrom n cs = Nat.ofDigitChars 10 cs n := by
  induction cs generalizing n with
  | nil => exact Nat.ofDigitChars_nil.symm
  | cons c cs ih =>
    have hstep : Text.digitsValueFrom n (c :: cs) =
        Text.digitsValueFrom (10 * n + Text.digitValue c) cs := rfl
    rw [hstep, ih, Nat.ofDigitChars_cons, Text.digitValue]

/-- A placeholder is written as its number between braces. -/
lemma toList_writtenPlace (n : Nat) :
    (writtenPlace n).toList = '\x7b' :: (Nat.toDigits 10 n ++ ['\x7d']) := by
  simp [writtenPlace]

/-- A placeholder is read back, unless its number is too large. -/
theorem place?_writtenPlace (n : Nat) :
    place? (writtenPlace n).toList = if n < placeLimit then some n else none := by
  have hvalue : Text.digitsValue (Nat.toDigits 10 n) = n := by
    rw [Text.digitsValue, digitsValueFrom_eq, Nat.ofDigitChars_toDigits (by omega) (by omega)]
  have hdigits : (Nat.toDigits 10 n).all Char.isDigit := List.all_eq_true.2 fun c hc =>
    Nat.isDigit_of_mem_toDigits (by omega) (by omega) hc
  rw [toList_writtenPlace, place?]
  simp only [List.dropLast_concat, List.getLast?_concat, hvalue, hdigits, ne_eq,
    Nat.toDigits_ne_nil, not_false_eq_true, true_and]

/-- It has no blanks. -/
lemma isSolid_writtenPlace (n : Nat) : Text.IsSolid (writtenPlace n) := by
  refine ⟨fun h => ?_, fun c hc => ?_⟩
  · have := congrArg String.toList h
    rw [toList_writtenPlace] at this
    simp at this
  · rw [toList_writtenPlace] at hc
    rcases List.mem_cons.1 hc with rfl | hc
    · decide
    · rcases List.mem_append.1 hc with hc | hc
      · have hdigit : c.isDigit := Nat.isDigit_of_mem_toDigits (by omega) (by omega) hc
        simp only [Char.isDigit, Bool.and_eq_true, decide_eq_true_eq, ge_iff_le,
          UInt32.le_iff_toNat_le] at hdigit
        have hzero : '0'.val.toNat = 48 := rfl
        have hnine : '9'.val.toNat = 57 := rfl
        have hval : c.toNat = c.val.toNat := rfl
        exact Text.isBlank_eq_false (by omega) (by omega)
      · rw [List.mem_singleton.1 hc]
        decide

/-! ## Tokens -/

/-- The number of a token that is a placeholder. -/
def Token.place? : Token → Option Nat
  | .word _ => none
  | .place ordinal => some ordinal

/-- The numbers of the placeholders of a template, in order. -/
def places (ts : List Token) : List Nat :=
  ts.filterMap Token.place?

/-- A text that is one word and no placeholder. -/
def IsWord (s : String) : Prop :=
  Text.IsSolid s ∧ place? s.toList = none

/-- A token that is read back as it is written. -/
def Token.IsPlain : Token → Prop
  | .word text => IsWord text
  | .place ordinal => ordinal < placeLimit

/-- A plain token is read back from what it is written as. -/
lemma Token.IsPlain.ofWord_written {t : Token} (h : t.IsPlain) : Token.ofWord t.written = t := by
  cases t with
  | word text => rw [Token.written, Token.ofWord, h.2]
  | place ordinal =>
    have hlt : ordinal < placeLimit := h
    rw [Token.written, Token.ofWord, place?_writtenPlace, if_pos hlt]

/-- A plain token is written without blanks. -/
lemma Token.IsPlain.isSolid {t : Token} (h : t.IsPlain) : Text.IsSolid t.written := by
  cases t with
  | word text => exact h.1
  | place ordinal => exact isSolid_writtenPlace ordinal

/-- Plain tokens are read back. -/
theorem tokens_render {ts : List Token} (h : ∀ t ∈ ts, t.IsPlain) : tokens (render ts) = ts := by
  have hsolid : ∀ w ∈ ts.map Token.written, Text.IsSolid w := by
    intro w hw
    obtain ⟨t, ht, rfl⟩ := List.mem_map.1 hw
    exact (h t ht).isSolid
  rw [tokens, render, Text.words_unwords hsolid, List.map_map]
  exact (List.map_congr_left fun t ht => (h t ht).ofWord_written).trans (List.map_id ts)

/-- A token whose word, if it is one, is a word of templates. -/
def Token.IsWritten : Token → Prop
  | .word text => IsWord text
  | .place _ => True

/-- A token that can be written is written without blanks. -/
lemma Token.IsWritten.isSolid {t : Token} (h : t.IsWritten) : Text.IsSolid t.written := by
  cases t with
  | word text => exact h.1
  | place ordinal => exact isSolid_writtenPlace ordinal

/-- The placeholders that are read back are those written whose numbers are not too large. -/
theorem places_tokens_render_eq {ts : List Token} (h : ∀ t ∈ ts, t.IsWritten) :
    places (tokens (render ts)) = (places ts).filter (· < placeLimit) := by
  have hsolid : ∀ w ∈ ts.map Token.written, Text.IsSolid w := by
    intro w hw
    obtain ⟨t, ht, rfl⟩ := List.mem_map.1 hw
    exact (h t ht).isSolid
  rw [tokens, render, Text.words_unwords hsolid]
  clear hsolid
  induction ts with
  | nil => rfl
  | cons t ts ih =>
    have hts := ih fun u hu => h u (List.mem_cons_of_mem t hu)
    cases t with
    | word text =>
      have htext : IsWord text := h (.word text) List.mem_cons_self
      have hword : Token.ofWord (Token.word text).written = .word text := by
        rw [Token.written, Token.ofWord, htext.2]
      rw [List.map_cons, List.map_cons, hword]
      exact hts
    | place ordinal =>
      have hplaces : places (.place ordinal :: ts) = ordinal :: places ts := rfl
      rw [List.map_cons, List.map_cons, hplaces, List.filter_cons]
      by_cases hordinal : ordinal < placeLimit
      · have hplain : (Token.place ordinal).IsPlain := hordinal
        rw [hplain.ofWord_written, if_pos (decide_eq_true hordinal), ← hts]
        rfl
      · have hword : (Token.ofWord (Token.place ordinal).written).place? = none := by
          rw [Token.written, Token.ofWord, place?_writtenPlace, if_neg hordinal]
          rfl
        rw [places, List.filterMap_cons, hword, if_neg (by simpa using hordinal)]
        exact hts

/-- The placeholders that are read back are among those written, in order. -/
theorem places_tokens_render {ts : List Token} (h : ∀ t ∈ ts, t.IsWritten) :
    (places (tokens (render ts))).Sublist (places ts) :=
  places_tokens_render_eq h ▸ List.filter_sublist

/-- A space cuts a template into the tokens in front of it and those behind it. -/
lemma tokens_append (s rest : String) : tokens (s ++ " " ++ rest) = tokens s ++ tokens rest := by
  rw [tokens, Text.words_append, List.map_append, tokens, tokens]

end Template

end FactModel
