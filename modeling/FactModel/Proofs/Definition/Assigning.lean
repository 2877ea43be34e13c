import FactModel.Definition.Reading
import FactModel.Proofs.Matching.Verbatim
set_option autoImplicit false

/-!
# Readings as derivations

The phrases of a clause that becomes a reading are gone through from left to right. A word is a
token of the reading, and a slot gets the next placeholder, which stands for a role that none of the
slots before it stands for. What is said of readings is shown along these steps.

## Main definitions

* `FactModel.Context.refTo` — the reference for a role with the adjectives of a mention.
* `FactModel.Context.Refers` — a reference for a role that a slot stands for.
* `FactModel.Context.Assigns` — the steps by which phrases become tokens and role references.

## Main results

* `FactModel.Context.assigns_of_readingParts` — what phrases become is derived by these steps.
* `FactModel.Context.Assigns.tokens_eq` — the tokens are those of the phrases.
* `FactModel.Context.Assigns.exists_eq_append` — there is a reference for each slot, in order.
-/

namespace FactModel.Context

variable {x : Context} {f : FactTypeId} {c : Clause} {ps : List Phrase} {refs later : List RoleRef}
  {tokens : List Template.Token}

/-- The reference for a role with the adjectives of a mention. -/
def refTo (x : Context) (r : RoleId) (m : MentionId) : RoleRef where
  role := r
  leading := (x.mention m).leading
  trailing := (x.mention m).trailing

/-- A reference for a role of the fact type that the mention of a slot stands for, with its
adjectives. -/
def Refers (x : Context) (f : FactTypeId) (s : Slot) (ref : RoleRef) : Prop :=
  (∃ taken, x.roleFor? s.mention f taken = some ref.role) ∧ ref = x.refTo ref.role s.mention

/-- The steps by which phrases become the tokens and the role references of a reading, the
references of the phrases before them given. -/
inductive Assigns (x : Context) (f : FactTypeId) :
    List RoleRef → List Phrase → List Template.Token → List RoleRef → Prop
  | nil (refs : List RoleRef) : Assigns x f refs [] [] refs
  | word (text : String) {refs later : List RoleRef} {ps : List Phrase}
      {tokens : List Template.Token} (rest : Assigns x f refs ps tokens later) :
      Assigns x f refs (.word text :: ps) (.word text :: tokens) later
  | slot {s : Slot} {r : RoleId} {refs later : List RoleRef} {ps : List Phrase}
      {tokens : List Template.Token} (role : x.roleFor? s.mention f (refs.map (·.role)) = some r)
      (rest : Assigns x f (refs ++ [x.refTo r s.mention]) ps tokens later) :
      Assigns x f refs (.slot s :: ps) (.place refs.length :: tokens) later

/-- What phrases become is derived by steps. -/
theorem assigns_of_readingParts (h : x.readingParts c f ps refs = .ok (tokens, later)) :
    x.Assigns f refs ps tokens later := by
  induction ps generalizing refs tokens later with
  | nil =>
    cases h
    exact .nil refs
  | cons p ps ih =>
    cases p with
    | word text =>
      rw [readingParts] at h
      dsimp only [Bind.bind, Except.bind] at h
      split at h
      · cases h
      next rest hrest =>
      cases h
      exact .word text (ih hrest)
    | slot s =>
      rw [readingParts] at h
      split at h
      · cases h
      next role hrole =>
      dsimp only [Bind.bind, Except.bind] at h
      split at h
      · cases h
      next rest hrest =>
      cases h
      exact .slot hrole (ih hrest)
    | comparison operator left right =>
      rw [readingParts] at h
      cases h

namespace Assigns

/-- The tokens of a reading are those of its clause, with the placeholders numbered in order. Each
slot takes a role, so the number of references in front of a slot is that of the slots in front of
it. -/
theorem tokens_eq (h : x.Assigns f refs ps tokens later) :
    tokens = spelledTokens ps refs.length := by
  induction h with
  | nil => rfl
  | word text _ ih => rw [spelledTokens, ← ih]
  | slot _ _ ih =>
    rw [List.length_append, List.length_singleton] at ih
    rw [spelledTokens, ← ih]

/-- Phrases that become a reading are words and slots. -/
lemma isStated (h : x.Assigns f refs ps tokens later) : ∀ p ∈ ps, p.isStated := by
  induction h with
  | nil => exact List.forall_mem_nil _
  | word _ _ ih => exact List.forall_mem_cons.2 ⟨rfl, ih⟩
  | slot _ _ ih => exact List.forall_mem_cons.2 ⟨rfl, ih⟩

/-- Behind the references of the phrases before come those of the slots. -/
lemma exists_eq_append (h : x.Assigns f refs ps tokens later) :
    ∃ own, later = refs ++ own ∧ List.Forall₂ (x.Refers f) (ps.flatMap Phrase.slots) own := by
  induction h with
  | nil => exact ⟨[], (List.append_nil _).symm, .nil⟩
  | word _ _ ih => exact ih
  | slot hrole _ ih =>
    obtain ⟨own, rfl, hown⟩ := ih
    exact ⟨_ :: own, by rw [List.append_assoc, List.singleton_append], .cons ⟨⟨_, hrole⟩, rfl⟩ hown⟩

end Assigns

end FactModel.Context
