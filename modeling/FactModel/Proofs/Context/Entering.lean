import FactModel.Proofs.Attempt
import FactModel.Session
set_option autoImplicit false

/-!
# What holds of entering clauses

The players of all mentions are found one by one, and then the mentions are bound one by one, also
those of nested clauses. A property that changes in sequence have if each has it holds of the whole
if it holds of the single steps.

## Main definitions

* `FactModel.Compile.Composes` — a property of changes that changes in sequence have if each has it.
* `FactModel.Compile.Keeps` — a change keeps a relation of contexts wherever it begins.

## Main results

* `FactModel.Compile.Composes.identifyPlayers` — what holds of finding the player of one mention.
* `FactModel.Compile.Composes.bindClauses` — what holds of binding one mention.
* `FactModel.Compile.composes_keeps` — keeping a relation is such a property.
* `FactModel.Compile.leads_enter_of_keeps` — entering clauses keeps what its single steps keep.
-/

namespace FactModel.Compile

open Attempt

/-- A property of changes that changes in sequence have if each has it. Changes that do nothing have
it too, as does looking at anything but the vocabulary. -/
structure Composes (Q : {α : Type} → Compile α → Prop) : Prop where
  pure : ∀ {α : Type} (a : α), Q (pure a : Compile α)
  throw : ∀ {α : Type} (fault : Fault), Q (throw fault : Compile α)
  bind : ∀ {α β : Type} {change : Compile α} {next : α → Compile β}, Q change →
    (∀ a, Q (next a)) → Q (change >>= next)
  get : ∀ {α : Type} {next : Context → Compile α},
    (∀ x vocabulary, next { x with vocabulary } = next x) → (∀ x, Q (next x)) → Q (get >>= next)

namespace Composes

variable {Q : {α : Type} → Compile α → Prop} (hQ : Composes Q)

include hQ

/-- Changes in turn have the property if each has it. -/
lemma forM {ι : Type} {f : ι → Compile PUnit} (h : ∀ i, Q (f i)) (is : List ι) : Q (is.forM f) := by
  induction is with
  | nil => exact hQ.pure _
  | cons i is ih => exact hQ.bind (h i) fun _ => ih

/-- What holds of finding the player of one mention holds of finding the players of all. -/
theorem identifyPlayers (hdeclaring : ∀ m roleName, Q (identifyDeclaring m roleName))
    (hplain : ∀ m, Q (identifyPlain m)) (clauses : List Clause) : Q (identifyPlayers clauses) := by
  refine hQ.get (fun _ _ => rfl) fun x => hQ.bind (hQ.forM (fun m => ?_) _) fun _ =>
    hQ.forM (fun m => ?_) _
  · split
    · exact hdeclaring m _
    · exact hQ.pure _
  · split
    · exact hQ.pure _
    · exact hplain m

/-- Checking role names has the property. -/
lemma checkRoleNames (mentions : List MentionId) : Q (checkRoleNames mentions) := by
  refine hQ.get (fun _ _ => rfl) fun x => ?_
  split
  · exact hQ.throw _
  · exact hQ.pure _

mutual

/-- Binding the mentions of a slot has the property if binding one has it. -/
lemma bindSlot (hbind : ∀ m, Q (Compile.bind m)) : ∀ s : Slot, Q (bindSlot s)
  | ⟨m, nested⟩ => by
    rw [Compile.bindSlot]
    exact hQ.bind (hbind m) fun _ => bindClauses hbind nested

/-- Binding the mentions of a phrase has the property if binding one has it. -/
lemma bindPhrase (hbind : ∀ m, Q (Compile.bind m)) : ∀ p : Phrase, Q (bindPhrase p)
  | .word _ => by
    rw [Compile.bindPhrase]
    exact hQ.pure _
  | .slot s => by
    rw [Compile.bindPhrase]
    exact bindSlot hbind s
  | .comparison _ left right => by
    rw [Compile.bindPhrase]
    exact hQ.bind (bindSlot hbind left) fun _ => bindSlot hbind right

/-- Binding the mentions of phrases has the property if binding one has it. -/
lemma bindPhrases (hbind : ∀ m, Q (Compile.bind m)) : ∀ ps : List Phrase, Q (bindPhrases ps)
  | [] => by
    rw [Compile.bindPhrases]
    exact hQ.pure _
  | p :: ps => by
    rw [Compile.bindPhrases]
    exact hQ.bind (bindPhrase hbind p) fun _ => bindPhrases hbind ps

/-- Binding the mentions of a clause has the property if binding one has it. -/
lemma bindClause (hbind : ∀ m, Q (Compile.bind m)) : ∀ c : Clause, Q (bindClause c)
  | ⟨phrases, _, _, _, _, _, _, _, _⟩ => by
    rw [Compile.bindClause]
    exact hQ.bind (hQ.checkRoleNames _) fun _ => bindPhrases hbind phrases

/-- What holds of binding one mention holds of binding the mentions of clauses. -/
theorem bindClauses (hbind : ∀ m, Q (Compile.bind m)) : ∀ cs : List Clause, Q (bindClauses cs)
  | [] => by
    rw [Compile.bindClauses]
    exact hQ.pure _
  | c :: cs => by
    rw [Compile.bindClauses]
    exact hQ.bind (bindClause hbind c) fun _ => bindClauses hbind cs

end

end Composes

/-! ## Keeping a relation -/

/-- A change keeps a relation of contexts wherever it begins. Where it may begin the relation is
reflexive. -/
def Keeps {α : Type} (R : Context → Context → Prop) (change : Compile α) : Prop :=
  ∀ {x : Context}, R x x → change.Leads R x fun _ _ => True

/-- Changes in sequence keep what each of them keeps. -/
theorem composes_keeps {R : Context → Context → Prop} [Trans R R R]
    (hrefl : ∀ {x y}, R x y → R y y) : Composes fun change => change.Keeps R where
  pure _ _ hx := leads_pure hx trivial
  throw _ _ hx := leads_throw hx
  bind hchange hnext _ hx := Leads.bind (hchange hx) fun a _ hy _ => hnext a (hrefl hy)
  get _ hnext x hx := leads_get_bind (hnext x hx)

/-- Entering clauses keeps what taking them into the context, finding players and binding mentions
keep, and yields the clauses as they were taken into it. -/
theorem leads_enter_of_keeps {R : Context → Context → Prop} [Trans R R R]
    (hrefl : ∀ {x y}, R x y → R y y) {clauses : List Script.Clause} {x : Context}
    (hadopt : R x (Context.adoptAll clauses x).2)
    (hdeclaring : ∀ m roleName, (identifyDeclaring m roleName).Keeps R)
    (hplain : ∀ m, (identifyPlain m).Keeps R) (hbind : ∀ m, (Compile.bind m).Keeps R) :
    (enter clauses).Leads R x fun cs _ => cs = (Context.adoptAll clauses x).1 := by
  have hkeeps := composes_keeps (R := R) hrefl
  have hrest : (do
      identifyPlayers (Context.adoptAll clauses x).1
      bindClauses (Context.adoptAll clauses x).1
      pure (Context.adoptAll clauses x).1 : Compile (List Clause)).Leads R
        (Context.adoptAll clauses x).2 fun cs _ => cs = (Context.adoptAll clauses x).1 := by
    refine Leads.bind (hkeeps.identifyPlayers hdeclaring hplain _ (hrefl hadopt)) fun _ y hy _ => ?_
    exact Leads.bind (hkeeps.bindClauses hbind _ (hrefl hy)) fun _ z hz _ =>
      leads_pure (hrefl hz) rfl
  exact Ends.imp hrest (fun _ _ hy => ⟨Trans.trans hadopt hy.1, hy.2⟩)
    fun _ hy => Trans.trans hadopt hy

end FactModel.Compile
