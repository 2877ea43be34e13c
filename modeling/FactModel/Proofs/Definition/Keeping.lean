import FactModel.Definition.FactType
import FactModel.Proofs.Context.Entering
import FactModel.Proofs.Matching.Through
set_option autoImplicit false

/-!
# What holds of defining a fact type

A definition is a sequence of edits of the vocabulary and of marks on mentions. A property that
changes in sequence have if each has it holds of the whole definition if it holds of these.

## Main definitions

* `FactModel.Compile.Embeds` — a property of the changes that constraints are embedded by.
* `FactModel.Compile.States` — a property of the changes that readings are stated by.
* `FactModel.Compile.Defines` — a property of the changes that fact types are defined by.
* `FactModel.Compile.KeepsThrough` — a change keeps a relation of vocabularies wherever it begins.

## Main results

* `FactModel.Compile.Embeds.embed` — the property holds of embedding the constraints of a clause.
* `FactModel.Compile.Defines.defineFactType` — the property holds of a definition.
* `FactModel.Compile.embeds_through`, `FactModel.Compile.states_through` — keeping what the edits of
  definitions keep is such a property.
-/

namespace FactModel.Compile

open Attempt

/-- A change of a mention that tells it no more than its role, its place in a role sequence and the
constraint that it states. -/
def IsMark (change : Mention → Mention) : Prop :=
  ∀ m, ∃ role roleRef presenceConstraint, change m = { m with role, roleRef, presenceConstraint }

/-- A property of changes that changes in sequence have if each has it, and that the changes have by
which constraints are embedded. -/
structure Embeds (Q : {α : Type} → Compile α → Prop) : Prop extends Composes Q where
  look : ∀ {α : Type} {next : Context → Compile α}, (∀ x, Q (next x)) → Q (MonadState.get >>= next)
  note : ∀ m constraint, Q (modifyMention m ({ · with presenceConstraint := some constraint }))
  roleSequence : ∀ refs, Q (edit (Vocabulary.addRoleSequence refs))
  presenceConstraint : ∀ s min max enforcement,
    Q (edit (Vocabulary.addPresenceConstraint s min max enforcement))
  restriction : ∀ c min max, Q (edit (Vocabulary.restrictPresenceConstraint c min max))
  ringConstraint : ∀ r s kinds, Q (edit (Vocabulary.addRingConstraint r s kinds))

/-- A property of changes that changes in sequence have if each has it, and that the changes have by
which clauses come to state the readings of a fact type. -/
structure States (Q : {α : Type} → Compile α → Prop) : Prop extends Composes Q where
  look : ∀ {α : Type} {next : Context → Compile α}, (∀ x, Q (next x)) → Q (MonadState.get >>= next)
  roleSequence : ∀ refs, Q (edit (Vocabulary.addRoleSequence refs))
  mark : ∀ m {change}, IsMark change → Q (modifyMention m change)
  resolve : ∀ c, Q (ofResolved (resolve { exactTypes := true } c))
  factType : ∀ c, Q (makeFactType c)
  reading : ∀ f s text isNegative, Q (edit (Vocabulary.addReading f s text isNegative))
  roleName : ∀ r name, Q (edit (Vocabulary.nameRole r name))

/-- A property of changes that changes in sequence have if each has it, and that the changes have by
which fact types are defined. -/
structure Defines (Q : {α : Type} → Compile α → Prop) : Prop extends Embeds Q, States Q

variable {Q : {α : Type} → Compile α → Prop}

namespace Composes

variable (hQ : Composes Q)

include hQ

/-- A result that is at hand has the property. -/
lemma ofExcept {α : Type} (result : Except Fault α) :
    Q (MonadExcept.ofExcept result : Compile α) := by
  cases result with
  | ok a => exact hQ.pure a
  | error fault => exact hQ.throw fault

/-- A function of the value has the property if the change has it. -/
lemma map {α β : Type} {change : Compile α} (h : Q change) (f : α → β) : Q (f <$> change) := by
  rw [← bind_pure_comp]
  exact hQ.bind h fun a => hQ.pure (f a)

/-- What holds of marking mentions holds of giving them their places. -/
lemma placeMentions (hmark : ∀ m {change}, IsMark change → Q (modifyMention m change))
    (s : RoleSequenceId) (ms : List MentionId) : Q (placeMentions s ms) := by
  unfold Compile.placeMentions
  refine hQ.forM (fun p => ?_) _
  exact hmark p.1 fun m => ⟨m.role, some (s, p.2), m.presenceConstraint, rfl⟩

/-- Giving roles to mentions has the property if a mark has it. -/
lemma giveRoles (hmark : ∀ m {change}, IsMark change → Q (modifyMention m change))
    (ms : List MentionId) (refs : List RoleRef) : Q (giveRoles ms refs) := by
  unfold Compile.giveRoles
  refine hQ.forM (fun p => ?_) _
  exact hmark p.1 fun m => ⟨some p.2.role, m.roleRef, m.presenceConstraint, rfl⟩

section Clauses

variable
  (look : ∀ {α : Type} {next : Context → Compile α}, (∀ x, Q (next x)) →
    Q (MonadState.get >>= next))

include look

/-- What holds of resolving a clause holds of resolving one that states a reading. -/
lemma resolveStated (hresolve : ∀ c, Q (ofResolved (resolve { exactTypes := true } c)))
    (c : Clause) : Q (resolveStated c) := by
  have hrest := hQ.bind (hresolve c) fun r => hQ.pure r.1
  unfold Compile.resolveStated
  split
  · exact look fun x => hQ.bind (hQ.throw _) fun _ => hrest
  · exact hrest

/-- Resolving clauses that state readings has the property if resolving one has it. -/
lemma resolveAllStated (hresolve : ∀ c, Q (ofResolved (resolve { exactTypes := true } c)))
    (cs : List Clause) : Q (resolveAllStated cs) := by
  induction cs with
  | nil => exact hQ.pure _
  | cons c cs ih =>
    exact hQ.bind (hQ.resolveStated look hresolve c) fun _ => hQ.bind ih fun _ => hQ.pure _

/-- Naming a role has the property if the edit has it. -/
lemma nameMatchedRole (hname : ∀ r name, Q (edit (Vocabulary.nameRole r name))) (m : MentionId) :
    Q (nameMatchedRole m) := by
  refine look fun x => ?_
  dsimp only
  split
  · exact hname ..
  · exact hQ.pure _

/-- What holds of naming roles, of adding role sequences and of marking mentions holds of adjusting
a clause. -/
lemma adjust (hsequence : ∀ refs, Q (edit (Vocabulary.addRoleSequence refs)))
    (hmark : ∀ m {change}, IsMark change → Q (modifyMention m change))
    (hname : ∀ r name, Q (edit (Vocabulary.nameRole r name))) (c : Clause) : Q (adjust c) := by
  unfold Compile.adjust
  split
  · exact hQ.pure _
  refine hQ.bind (hQ.forM (hQ.nameMatchedRole look hname) _) fun _ => look fun x => ?_
  split
  · exact hQ.pure _
  refine hQ.bind (hQ.ofExcept _) fun refs => hQ.bind (hsequence _) fun s => ?_
  exact hQ.bind (hQ.placeMentions hmark ..) fun _ => hQ.pure _

/-- What holds of adding role sequences and readings and of marking mentions holds of making a
clause a reading. -/
lemma makeReading (hsequence : ∀ refs, Q (edit (Vocabulary.addRoleSequence refs)))
    (hreading : ∀ f s text isNegative, Q (edit (Vocabulary.addReading f s text isNegative)))
    (hmark : ∀ m {change}, IsMark change → Q (modifyMention m change)) (c : Clause)
    (f : FactTypeId) : Q (makeReading c f) := by
  refine look fun x => hQ.bind (hQ.ofExcept _) fun parts => ?_
  refine hQ.bind (hsequence _) fun s => hQ.bind (hreading ..) fun r => ?_
  exact hQ.bind (hQ.giveRoles hmark ..) fun _ => hQ.bind (hQ.placeMentions hmark ..) fun _ =>
    hQ.pure _

end Clauses

/-- What holds of adjusting clauses and of making them readings holds of all clauses of a fact
type. -/
lemma stateReadings (hadjust : ∀ c, Q (Compile.adjust c))
    (hmake : ∀ c f, Q (Compile.makeReading c f))
    (f : FactTypeId) (cs : List Clause) : Q (stateReadings f cs) := by
  induction cs with
  | nil => exact hQ.pure _
  | cons c cs ih =>
    unfold Compile.stateReadings
    split
    · exact hQ.bind (hadjust c) fun _ => hQ.bind ih fun _ => hQ.pure _
    · exact hQ.bind (hQ.map (hmake c f) _) fun _ => hQ.bind ih fun _ => hQ.pure _

/-- What holds of adding a fact type and of making each role holds of making a fact type. -/
lemma makeFactType (hnew : Q (edit (Vocabulary.newFactType .plain)))
    (hrole : ∀ f m, Q (makeRole f m)) (c : Clause) : Q (makeFactType c) :=
  hQ.bind hnew fun f => hQ.bind (hQ.forM (hrole f) _) fun _ => hQ.pure _

end Composes

/-! ## Constraints -/

namespace Embeds

variable (hQ : Embeds Q)

include hQ

/-- Bounding the players of roles has the property. -/
lemma boundPlayers (refs : List RoleRef) (q : Quantifier) : Q (boundPlayers refs q) := by
  refine hQ.look fun x => ?_
  split
  · exact hQ.bind (hQ.restriction ..) fun _ => hQ.pure _
  · exact hQ.bind (hQ.roleSequence _) fun s => hQ.presenceConstraint ..

/-- Embedding one presence constraint has the property. -/
lemma embedPresenceConstraint (refs : List RoleRef) (m : MentionId) :
    Q (embedPresenceConstraint refs m) := by
  refine hQ.look fun x => ?_
  dsimp only
  split
  · split
    · exact hQ.pure _
    · exact hQ.bind (hQ.boundPlayers ..) fun c => hQ.bind (hQ.note m c) fun _ => hQ.pure _
  · exact hQ.pure _

/-- Embedding presence constraints has the property. -/
lemma embedEach (refs : List RoleRef) (ms : List MentionId) : Q (embedEach refs ms) := by
  induction ms with
  | nil => exact hQ.pure _
  | cons m ms ih =>
    exact hQ.bind (hQ.embedPresenceConstraint refs m) fun _ => hQ.bind ih fun _ => hQ.pure _

/-- Embedding the presence constraints of a clause has the property. -/
lemma embedPresenceConstraints (c : Clause) : Q (embedPresenceConstraints c) := by
  unfold Compile.embedPresenceConstraints
  split
  · exact hQ.pure _
  split
  · exact hQ.pure _
  · exact hQ.look fun x => hQ.embedEach ..

/-- Embedding the ring constraint of a clause has the property. -/
lemma embedRingConstraint (c : Clause) : Q (embedRingConstraint c) := by
  unfold Compile.embedRingConstraint
  split
  · exact hQ.pure _
  refine hQ.bind (hQ.ofExcept _) fun kinds => ?_
  split
  · exact hQ.pure _
  refine hQ.look fun x => ?_
  dsimp only
  split
  · exact hQ.throw _
  split
  · exact hQ.pure _
  · exact hQ.map (hQ.ringConstraint ..) _

/-- What holds of the changes of constraints holds of embedding those of clauses. -/
theorem embed (cs : List Clause) :
    Q (cs.forM fun c => do
      let _ ← Compile.embedPresenceConstraints c
      let _ ← Compile.embedRingConstraint c) :=
  hQ.forM (fun c => hQ.bind (hQ.embedPresenceConstraints c) fun _ =>
    hQ.bind (hQ.embedRingConstraint c) fun _ => hQ.pure _) cs

end Embeds

/-! ## Fact types and readings -/

namespace States

variable (hQ : States Q)

include hQ

/-- Giving roles to mentions has the property. -/
lemma giveRoles (ms : List MentionId) (refs : List RoleRef) : Q (giveRoles ms refs) :=
  hQ.toComposes.giveRoles hQ.mark ms refs

/-- Making a reading has the property. -/
lemma makeReading (c : Clause) (f : FactTypeId) : Q (makeReading c f) :=
  hQ.toComposes.makeReading hQ.look hQ.roleSequence hQ.reading hQ.mark c f

/-- Naming a role has the property. -/
lemma nameMatchedRole (m : MentionId) : Q (nameMatchedRole m) :=
  hQ.toComposes.nameMatchedRole hQ.look hQ.roleName m

/-- Adjusting a clause to a reading has the property. -/
lemma adjust (c : Clause) : Q (adjust c) :=
  hQ.toComposes.adjust hQ.look hQ.roleSequence hQ.mark hQ.roleName c

/-- Resolving a clause that states a reading has the property. -/
lemma resolveStated (c : Clause) : Q (resolveStated c) :=
  hQ.toComposes.resolveStated hQ.look hQ.resolve c

/-- Resolving clauses that state readings has the property. -/
lemma resolveAllStated (cs : List Clause) : Q (resolveAllStated cs) :=
  hQ.toComposes.resolveAllStated hQ.look hQ.resolve cs

/-- Finding or making the fact type of clauses has the property. -/
lemma statedFactType (cs : List Clause) : Q (statedFactType cs) := by
  unfold Compile.statedFactType
  split
  · exact hQ.pure _
  · exact hQ.bind (hQ.factType _) fun _ => hQ.pure _
  · exact hQ.throw _
  · exact hQ.look fun x => hQ.throw _

/-- Stating readings has the property. -/
lemma stateReadings (f : FactTypeId) (cs : List Clause) : Q (stateReadings f cs) :=
  hQ.toComposes.stateReadings hQ.adjust hQ.makeReading f cs

end States

/-- What holds of the changes that fact types are defined by holds of a definition. -/
theorem Defines.defineFactType (hQ : Defines Q) (cs : List Clause) : Q (defineFactType cs) := by
  refine hQ.bind (hQ.resolveAllStated cs) fun cs => hQ.bind (hQ.statedFactType cs) fun r => ?_
  refine hQ.bind (hQ.stateReadings r.1 r.2.2) fun cs => ?_
  exact hQ.bind (hQ.embed cs) fun _ => hQ.pure _

/-! ## Relations of vocabularies -/

/-- A change keeps a relation of vocabularies wherever it begins. -/
def KeepsThrough {α : Type} (R : Vocabulary → Vocabulary → Prop) (change : Compile α) : Prop :=
  ∀ x : Context, change.Leads (Context.Through R) x fun _ _ => True

section Through

variable {R : Vocabulary → Vocabulary → Prop} [Trans R R R] (hrefl : ∀ v, R v v)

include hrefl

/-- Keeping a relation of vocabularies composes. -/
lemma composes_through : Composes (KeepsThrough R) where
  pure _ _ := leads_pure (hrefl _) trivial
  throw _ _ := leads_throw (hrefl _)
  bind hchange hnext x := Leads.bind (hchange x) fun a y _ _ => hnext a y
  get _ hnext x := leads_get_bind (hnext x x)

/-- Embedding constraints keeps what the edits of constraints keep. -/
lemma embeds_through (hsequence : ∀ v refs, (Vocabulary.addRoleSequence refs).Leads R v fun _ _ =>
    True)
    (hpresence : ∀ v s min max enforcement,
      (Vocabulary.addPresenceConstraint s min max enforcement).Leads R v fun _ _ => True)
    (hrestrict : ∀ v c min max,
      (Vocabulary.restrictPresenceConstraint c min max).Leads R v fun _ _ => True)
    (hring : ∀ v r s kinds, (Vocabulary.addRingConstraint r s kinds).Leads R v fun _ _ => True) :
    Embeds (KeepsThrough R) where
  toComposes := composes_through hrefl
  look hnext x := leads_get_bind (hnext x x)
  note _ _ _ := leads_modify (hrefl _) trivial
  roleSequence refs x := leads_edit_through (hsequence x.vocabulary refs)
  presenceConstraint s min max enforcement x :=
    leads_edit_through (hpresence x.vocabulary s min max enforcement)
  restriction c min max x := leads_edit_through (hrestrict x.vocabulary c min max)
  ringConstraint r s kinds x := leads_edit_through (hring x.vocabulary r s kinds)

/-- Stating readings keeps what the edits of readings keep. A new fact type comes with its roles. -/
lemma states_through
    (hsequence : ∀ v refs, (Vocabulary.addRoleSequence refs).Leads R v fun _ _ => True)
    (hcomparison : ∀ v operator left right,
      (Vocabulary.comparisonFactType operator left right).Leads R v fun _ _ => True)
    (hfactType : ∀ c, KeepsThrough R (makeFactType c))
    (hreading : ∀ v f s text isNegative,
      (Vocabulary.addReading f s text isNegative).Leads R v fun _ _ => True)
    (hname : ∀ v r name, (Vocabulary.nameRole r name).Leads R v fun _ _ => True) :
    States (KeepsThrough R) where
  toComposes := composes_through hrefl
  look hnext x := leads_get_bind (hnext x x)
  roleSequence refs x := leads_edit_through (hsequence x.vocabulary refs)
  mark _ _ _ _ := leads_modify (hrefl _) trivial
  resolve c x := leads_resolve_through hrefl hcomparison _ c x
  factType := hfactType
  reading f s text isNegative x := leads_edit_through (hreading x.vocabulary f s text isNegative)
  roleName r name x := leads_edit_through (hname x.vocabulary r name)

end Through

end FactModel.Compile
