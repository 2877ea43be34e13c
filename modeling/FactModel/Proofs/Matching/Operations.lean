import FactModel.Proofs.Context.Adoption
import FactModel.Proofs.Context.Bindings
import FactModel.Proofs.Context.Entering
import FactModel.Proofs.Matching.Completion
import FactModel.Proofs.Vocabulary.Implied
import FactModel.Session
set_option autoImplicit false

/-!
# Operations on bound contexts

Once clauses have been entered, mentions are bound and unbound, bindings are merged, and clauses are
resolved and completed, in any order and with any success. The bindings stay consistent throughout.

## Main definitions

* `FactModel.Operation` — what is done with a context, as data.
* `FactModel.Operation.run` — the context that an operation leaves, whether or not it succeeds.

## Main results

* `FactModel.bound_enter` — entering clauses leaves a bound context.
* `FactModel.Operation.bound_run` — so does every operation on a bound context.
* `FactModel.bound_history` — hence the context is bound after any sequence of operations, and two
  mentions are bound together just in case their keys are equal.
-/

namespace FactModel

open Attempt Compile

/-! ## Changes that leave a bound context -/

/-- The second context is bound, whatever the first one is. -/
def Context.BecomesBound (_ y : Context) : Prop :=
  y.Bound

instance : Trans Context.BecomesBound Context.BecomesBound Context.BecomesBound :=
  ⟨fun _ h => h⟩

open Context

variable {x : Context}

/-- A mention that has a player is one of the context. -/
lemma Context.lt_of_player {m : MentionId} {player : ObjectTypeId}
    (h : (x.mention m).player = some player) : m.index < x.mentions.size := by
  refine Decidable.of_not_not fun hm => ?_
  rw [mention_of_not_lt hm] at h
  cases h

/-- The player that is asked for is the one that the mention has. -/
lemma Context.player_of_playerOf {m : MentionId} {player : ObjectTypeId}
    (h : x.playerOf m = .ok player) : (x.mention m).player = some player := by
  unfold Context.playerOf at h
  split at h
  · next hplayer =>
    cases h
    exact hplayer
  · cases h

/-- A mention may be told its role in a role sequence: its key has no part in it. -/
lemma Context.Bound.giveRole (h : x.Bound) (m : MentionId) (role : Option RoleId)
    (roleRef : Option (RoleSequenceId × Nat)) :
    (x.modifyMention m ({ · with role, roleRef })).Bound := by
  refine h.modifyMention _ (fun _ => rfl) fun _ => bindingKey_congr (fun _ => rfl) ?_
  rw [mention_modifyMention]
  split <;> rfl

namespace Compile

/-- Looking up the player of a mention changes nothing. -/
lemma leads_playerOf {R : Context → Context → Prop} {m : MentionId} (hx : R x x) :
    (playerOf m).Leads R x fun player y => y = x ∧ (x.mention m).player = some player :=
  leads_get_bind (leads_ofExcept hx fun _ h => ⟨rfl, player_of_playerOf h⟩)

/-- Binding a mention keeps a context bound. -/
lemma leads_bind_bound (h : x.Bound) (m : MentionId) :
    (Compile.bind m).Leads BecomesBound x fun _ _ => True := by
  refine Leads.bind (leads_playerOf h) fun player y _ hy => ?_
  obtain ⟨rfl, hplayer⟩ := hy
  exact ⟨h.bindAs (lt_of_player hplayer) player, trivial⟩

/-- Binding a mention anew keeps a context bound. -/
lemma leads_rebind_bound (h : x.Bound) (m : MentionId) :
    (rebind m).Leads BecomesBound x fun _ _ => True :=
  leads_modify_bind (h.unbind m) (leads_bind_bound (h.unbind m) m)

/-- Giving a mention its role may change its key; it is then bound anew. -/
lemma leads_applyPlacement_bound (h : x.Bound) (s : RoleSequenceId) (p : Placement) :
    (applyPlacement s p).Leads BecomesBound x fun _ y => y.Bound := by
  refine leads_get_bind (ends_bind.2 (ends_modify.2 (ends_bind.2 (ends_get.2 ?_))))
  dsimp only
  split
  · refine ends_bind.2 (ends_bind.2 (ends_modify.2 ?_))
    have hunbind := h.unbind_modifyMention p.mention (fun m =>
      { m with
        role := some p.role, roleRef := some (s, p.roleRef)
        leading := p.residualLeading, trailing := p.residualTrailing
        residualLeading := p.residualLeading, residualTrailing := p.residualTrailing })
      (fun _ _ => rfl) fun _ => rfl
    exact Ends.imp (leads_bind_bound hunbind p.mention) (fun _ y hy => ⟨hy.1, hy.1⟩) fun _ hy => hy
  · next hkey =>
    have hbound := h.modifyMention (m := p.mention) (fun m =>
      { m with
        role := some p.role, roleRef := some (s, p.roleRef)
        leading := p.residualLeading, trailing := p.residualTrailing
        residualLeading := p.residualLeading, residualTrailing := p.residualTrailing })
      (fun _ => rfl) fun _ => Decidable.of_not_not hkey
    exact ⟨hbound, hbound⟩

/-- Resolving a comparison keeps a context bound. -/
lemma leads_resolveComparison_bound (h : x.Bound) (c : Clause) (operator : String)
    (left right : Slot) :
    (resolveComparison c operator left right).Leads BecomesBound x fun _ _ => True := by
  refine Leads.bind (leads_playerOf h) fun leftPlayer y _ hy => ?_
  obtain ⟨rfl, -⟩ := hy
  refine Leads.bind (leads_playerOf h) fun rightPlayer y _ hy => ?_
  obtain ⟨rfl, -⟩ := hy
  have hedit : (edit (Vocabulary.comparisonFactType operator leftPlayer rightPlayer)).Leads
      BecomesBound y fun _ _ => True :=
    Leads.within (Vocabulary.leads_comparisonFactType_nameOf operator leftPlayer rightPlayer _)
      (fun _ hname => h.withVocabulary hname) fun _ _ _ _ => trivial
  refine Leads.bind hedit fun f z hz _ => leads_get_bind ?_
  refine Leads.bind (Leads.forM hz fun item _ w hw => ?_) fun _ w hw _ => leads_pure hw trivial
  exact leads_modify (hw.giveRole ..) (hw.giveRole ..)

/-- Resolving a clause keeps a context bound. -/
lemma leads_resolveFlat_bound (h : x.Bound) (options : MatchOptions) (c : Clause) :
    (resolveFlat options c).Leads BecomesBound x fun _ _ => True := by
  unfold resolveFlat
  split
  · exact Leads.map (leads_resolveComparison_bound h ..)
  · refine leads_get_bind ?_
    split
    · exact leads_pure h trivial
    · refine leads_get_bind (leads_ofExcept_bind h fun a _ => ?_)
      cases a with
      | none => exact leads_pure h trivial
      | some a =>
        refine Leads.map (Leads.bind (Leads.forM h fun p _ z hz => ?_) fun _ z hz _ => ?_)
        · exact leads_applyPlacement_bound hz a.roleSequence p
        · exact leads_pure hz trivial

/-- Copying a mention keeps a context bound. -/
lemma leads_copyMention_bound (h : x.Bound) (source : MentionId) :
    (copyMention source).Leads BecomesBound x fun _ _ => True := by
  refine leads_get_bind ?_
  have hpush := h.pushMention
    { term := (x.mention source).term, leading := (x.mention source).leading
      trailing := (x.mention source).trailing, roleName := (x.mention source).roleName
      literal := (x.mention source).literal, player := (x.mention source).player
      playerByRoleName := (x.mention source).playerByRoleName } rfl
  exact leads_extend_bind hpush (Leads.bind (leads_bind_bound hpush _) fun _ z hz _ =>
    leads_pure hz trivial)

end Compile

/-- Resolution and completion leave a bound context bound, whatever the clauses are. -/
lemma completes_bound (options : MatchOptions) (f : Option FactTypeId) :
    Completes options BecomesBound (fun _ _ => True) f (fun _ => True) where
  refl h := h
  mono _ _ := trivial
  bare _ _ := trivial
  flat {_ c} h _ := Leads.imp (R := BecomesBound) (leads_resolveFlat_bound h options c)
    fun _ _ _ _ _ _ => trivial
  copy m h := leads_copyMention_bound h m
  unbind m _ h := h.unbind m
  extended _ _ _ := trivial
  without _ _ _ := trivial
  contraction _ _ := trivial

/-! ## Entering clauses -/

/-- A context in which nothing has been bound. -/
structure Context.Unbound (x : Context) : Prop where
  binding?_eq : ∀ b, x.binding? b = none
  binding_eq : ∀ m, (x.mention m).binding = none
  bindingOf?_eq : ∀ key, x.bindingOf? key = none

namespace Context.Unbound

/-- A context in which nothing has been bound is bound. -/
lemma bound (h : x.Unbound) : x.Bound :=
  bound_of_unbound h.binding?_eq h.binding_eq h.bindingOf?_eq

/-- A new mention without a binding leaves nothing bound. -/
lemma pushMention (h : x.Unbound) {m : Mention} (hm : m.binding = none) :
    (x.pushMention m).Unbound := by
  refine { h with binding_eq := fun n => ?_ }
  rw [mention_pushMention]
  split
  · exact hm
  · exact h.binding_eq n

/-- A change of a mention that does not bind it leaves nothing bound. -/
lemma modifyMention (h : x.Unbound) (m : MentionId) (change : Mention → Mention)
    (hchange : ∀ mention, (change mention).binding = mention.binding) :
    (x.modifyMention m change).Unbound where
  binding?_eq := h.binding?_eq
  binding_eq n := (mention_modifyMention_apply _ m hchange n).trans (h.binding_eq n)
  bindingOf?_eq := h.bindingOf?_eq

/-- Taking in clauses binds nothing. -/
lemma of_adopts (h : x.Unbound) {y : Context} (hy : x.Adopts y) : y.Unbound := by
  induction hy with
  | refl => exact h
  | pushMention _ m ih => exact ih.pushMention rfl

/-- In the context of a declaration nothing has been bound. -/
lemma of_declaration (v : Vocabulary) (forwardTerms : List String) :
    ({ vocabulary := v, forwardTerms } : Context).Unbound where
  binding?_eq _ := rfl
  binding_eq _ := rfl
  bindingOf?_eq _ := rfl

/-- The second context is one in which nothing has been bound, whatever the first one is. -/
def Stays (_ y : Context) : Prop :=
  y.Unbound

instance : Trans Stays Stays Stays :=
  ⟨fun _ h => h⟩

/-- Finding the object type of a term binds nothing. -/
lemma leads_resolvePlayer (h : x.Unbound) (term : String) :
    (resolvePlayer term).Leads Stays x fun _ _ => True := by
  refine leads_get_bind ?_
  split
  · exact leads_pure h trivial
  · split
    · exact leads_pure h trivial
    · split
      · have hedit : (edit (Vocabulary.addForwardEntityType term)).Leads Stays x fun _ _ => True :=
          Leads.within (leads_true _ _) (fun _ _ => { h with })
            fun _ _ _ _ => trivial
        exact Leads.bind hedit fun player y hy _ => leads_pure hy trivial
      · exact leads_throw h

/-- Finding the player of a mention that declares a role name binds nothing. -/
lemma leads_identifyDeclaring (h : x.Unbound) (m : MentionId) (roleName : String) :
    (identifyDeclaring m roleName).Leads Stays x fun _ _ => True := by
  refine leads_get_bind ?_
  dsimp only
  split
  · exact leads_throw_bind h
  · refine Leads.bind (leads_resolvePlayer h _) fun player y hy _ => ?_
    have hname : { y with roleNamePlayers :=
        (roleName, player.1) :: y.roleNamePlayers }.Unbound := { (hy : y.Unbound) with }
    have hmention := hname.modifyMention m ({ · with player := some player.1 }) fun _ => rfl
    exact leads_modify_bind hname (leads_modify hmention trivial)

/-- Finding the player of another mention binds nothing. -/
lemma leads_identifyPlain (h : x.Unbound) (m : MentionId) :
    (identifyPlain m).Leads Stays x fun _ _ => True := by
  refine leads_get_bind (Leads.bind (leads_resolvePlayer h _) fun player y hy _ => ?_)
  have hmention := Unbound.modifyMention hy m
    ({ · with player := some player.1, playerByRoleName := player.2 }) fun _ => rfl
  exact leads_modify hmention trivial

end Context.Unbound

/-- Entering clauses into the context of a declaration leaves it bound, also where it fails. -/
theorem bound_enter (v : Vocabulary) (forwardTerms : List String) (clauses : List Script.Clause) :
    ((Compile.enter clauses).perform { vocabulary := v, forwardTerms }).2.Bound := by
  let x : Context := { vocabulary := v, forwardTerms }
  have hadopt : (adoptAll clauses x).2.Unbound :=
    (Unbound.of_declaration v forwardTerms).of_adopts (adopts_adoptAll clauses x)
  have hrest : (do
      identifyPlayers (adoptAll clauses x).1
      bindClauses (adoptAll clauses x).1
      pure (adoptAll clauses x).1 : Compile (List Clause)).Leads BecomesBound (adoptAll clauses x).2
        fun _ _ => True := by
    have hidentify := (Compile.composes_keeps (R := Unbound.Stays) fun h => h).identifyPlayers
      (fun m name _ h => Unbound.leads_identifyDeclaring h m name)
      (fun m _ h => Unbound.leads_identifyPlain h m) (adoptAll clauses x).1 hadopt
    refine Leads.bind (hidentify.weaken fun _ h => Unbound.bound h) fun _ y hy _ => ?_
    have hbind := (Compile.composes_keeps (R := BecomesBound) fun h => h).bindClauses
      (fun m _ h => leads_bind_bound h m) (adoptAll clauses x).1 hy
    exact Leads.bind hbind fun _ z hz _ => leads_pure hz trivial
  exact hrest.snd

/-! ## Operations -/

/-- What is done with a context after clauses have been entered. -/
inductive Operation where
  | bind (m : MentionId)
  | unbind (m : MentionId)
  | rebind (m : MentionId)
  | mergeLoose
  | resolve (options : MatchOptions) (c : Clause)
  | complete (options : MatchOptions) (previous c : Clause)

/-- The context that an operation leaves, whatever it yields. -/
def Operation.run (x : Context) : Operation → Context
  | bind m => ((Compile.bind m).perform x).2
  | unbind m => x.unbind m
  | rebind m => ((Compile.rebind m).perform x).2
  | mergeLoose => x.mergeLoose
  | resolve options c => (FactModel.resolve options c x).2
  | complete options previous c => (FactModel.complete options previous c x).2

/-- Every operation leaves a bound context bound. -/
theorem Operation.bound_run (h : x.Bound) (operation : Operation) : (operation.run x).Bound := by
  have heverywhere : ∀ c : Clause, c.Everywhere fun _ => True :=
    Clause.everywhere_of_forall fun _ => trivial
  cases operation with
  | bind m => exact (leads_bind_bound h m).snd
  | unbind m => exact h.unbind m
  | rebind m => exact (leads_rebind_bound h m).snd
  | mergeLoose => exact h.mergeLoose
  | resolve options c =>
    exact ((completes_bound options none).leads_resolve c h (heverywhere c)).snd
  | complete options previous c =>
    exact ((completes_bound options c.factType).leads_complete previous h (heverywhere c) rfl).snd

/-- **Bindings are consistent.** Whatever clauses are entered for a declaration and whatever is done
with the context afterwards, successfully or not, it is bound: the bindings, the mentions and the
index of keys agree. Hence two bound mentions share a binding just in case their keys are equal.

**Proof sketch.** Entering clauses leaves a bound context, and by induction on the operations so
does the whole sequence, since every single operation does. -/
theorem bound_history (v : Vocabulary) (forwardTerms : List String) (clauses : List Script.Clause)
    (operations : List Operation) :
    let x := operations.foldl Operation.run
      ((Compile.enter clauses).perform { vocabulary := v, forwardTerms }).2
    x.Bound ∧ ∀ m n, (x.mention m).binding.isSome → (x.mention n).binding.isSome →
      ((x.mention m).binding = (x.mention n).binding ↔ x.bindingKey m = x.bindingKey n) := by
  have hbound : (operations.foldl Operation.run
      ((Compile.enter clauses).perform { vocabulary := v, forwardTerms }).2).Bound := by
    have henter := bound_enter v forwardTerms clauses
    generalize ((Compile.enter clauses).perform { vocabulary := v, forwardTerms }).2 = x at henter ⊢
    induction operations generalizing x with
    | nil => exact henter
    | cons operation operations ih => exact ih _ (operation.bound_run henter)
  exact ⟨hbound, fun m n => hbound.binding_eq_iff⟩

/-- Two mentions of one term are bound together again after one of them has been bound anew. -/
theorem bound_history_rebind :
    let x := [Operation.unbind ⟨0⟩, .rebind ⟨0⟩, .mergeLoose].foldl Operation.run
      ((Compile.enter [{ phrases := [.mention { term := "Person" }, .word "likes",
        .mention { term := "Person" }] }]).perform
          { vocabulary := { name := "People" }, forwardTerms := ["Person"] }).2
    ((x.mention ⟨0⟩).binding.isSome ∧ (x.mention ⟨1⟩).binding.isSome) ∧
      ((x.mention ⟨0⟩).binding = (x.mention ⟨1⟩).binding ↔ x.bindingKey ⟨0⟩ = x.bindingKey ⟨1⟩) :=
  ⟨by decide +kernel, (bound_history { name := "People" } ["Person"]
    [{ phrases := [.mention { term := "Person" }, .word "likes", .mention { term := "Person" }] }]
    [.unbind ⟨0⟩, .rebind ⟨0⟩, .mergeLoose]).2 ⟨0⟩ ⟨1⟩ (by decide +kernel) (by decide +kernel)⟩

end FactModel
