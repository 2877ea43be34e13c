import FactModel.Context.Binding
import FactModel.Proofs.Vocabulary.Lookup
set_option autoImplicit false

/-!
# Looking up mentions and bindings of a changed context

For each elementary change of a context there is one equation for every lookup that it affects; all
other lookups are unchanged by definition.

## Main results

* `FactModel.Context.mention_modifyMention`, `FactModel.Context.mention_pushMention` — mentions.
* `FactModel.Context.binding?_modifyBinding`, `FactModel.Context.binding?_pushBinding`,
  `FactModel.Context.binding?_dropBinding` — bindings by place.
* `FactModel.Context.bindingOf?_pushBinding`, `FactModel.Context.bindingOf?_dropBinding` — bindings
  by key.
-/

namespace FactModel

/-- What is found in an association list without the pairs of one key. -/
lemma lookup_filter_ne {κ α : Type} [DecidableEq κ] (key other : κ) (pairs : List (κ × α)) :
    (pairs.filter (·.1 ≠ key)).lookup other = if other = key then none else pairs.lookup other := by
  induction pairs with
  | nil => simp
  | cons pair pairs ih =>
    obtain ⟨k, a⟩ := pair
    rw [List.filter_cons, lookup_cons_eq_ite]
    by_cases hk : k = key
    · subst hk
      simp only [ne_eq, not_true_eq_false, decide_false, Bool.false_eq_true, if_false, ih]
      split <;> rfl
    · simp only [ne_eq, hk, not_false_eq_true, decide_true, if_true, lookup_cons_eq_ite, ih]
      grind

namespace Context

variable {x : Context}

/-! ## Mentions -/

/-- A mention that is not there is the default one. -/
lemma mention_of_not_lt {m : MentionId} (h : ¬m.index < x.mentions.size) :
    x.mention m = default := by
  rw [mention, Array.getElem?_eq_none (Nat.le_of_not_lt h)]
  rfl

/-- Changing a mention changes that one only. -/
lemma mention_modifyMention (m : MentionId) (change : Mention → Mention) (n : MentionId) :
    (x.modifyMention m change).mention n =
      if n = m ∧ m.index < x.mentions.size then change (x.mention m) else x.mention n := by
  rcases n with ⟨i⟩
  rcases m with ⟨j⟩
  simp only [MentionId.mk.injEq]
  exact getElem?_modify_getD ..

/-- A change of a mention leaves alone whatever it leaves alone in that mention. -/
lemma mention_modifyMention_apply {α : Type} (field : Mention → α) (m : MentionId)
    {change : Mention → Mention} (h : ∀ mention, field (change mention) = field mention)
    (n : MentionId) : field ((x.modifyMention m change).mention n) = field (x.mention n) := by
  rw [mention_modifyMention]
  split
  · next hn => rw [h, ← hn.1]
  · rfl

/-- Two changes of one mention are one change. -/
lemma modifyMention_modifyMention (m : MentionId) (first second : Mention → Mention) :
    (x.modifyMention m first).modifyMention m second =
      x.modifyMention m fun mention => second (first mention) := by
  refine congrArg (fun mentions => { x with mentions }) (Array.ext_getElem? fun i => ?_)
  simp only [modifyMention, Array.getElem?_modify]
  split
  · rw [Option.map_map]
    rfl
  · rfl

/-- A new mention comes last. -/
lemma mention_pushMention (mention : Mention) (n : MentionId) :
    (x.pushMention mention).mention n =
      if n = ⟨x.mentions.size⟩ then mention else x.mention n := by
  rcases n with ⟨i⟩
  simp only [MentionId.mk.injEq]
  exact getElem?_push_getD ..

/-! ## Keys -/

/-- The key of a mention is made of the mention and the name of its player. -/
lemma bindingKey_congr {y : Context} {m : MentionId}
    (hname : ∀ t, y.vocabulary.nameOf t = x.vocabulary.nameOf t)
    (hmention : y.mention m = { x.mention m with
      quantifier := (y.mention m).quantifier, binding := (y.mention m).binding
      role := (y.mention m).role, roleRef := (y.mention m).roleRef
      residualLeading := (y.mention m).residualLeading
      residualTrailing := (y.mention m).residualTrailing
      presenceConstraint := (y.mention m).presenceConstraint }) :
    y.bindingKey m = x.bindingKey m := by
  unfold bindingKey
  rw [hmention]
  simp only [hname]

/-! ## Bindings -/

/-- Changing a binding changes that one only. -/
lemma binding?_modifyBinding (b : BindingId) (change : Binding → Binding) (c : BindingId) :
    (x.modifyBinding b change).binding? c =
      if c = b then (x.binding? b).map change else x.binding? c := by
  rcases c with ⟨i⟩
  rcases b with ⟨j⟩
  simp only [binding?, modifyBinding, Array.getElem?_modify, BindingId.mk.injEq]
  by_cases h : j = i
  · subst h
    simp only [if_true]
    rcases x.bindings[j]? with _ | _ | _ <;> rfl
  · simp [h, Ne.symm h]

/-- A new binding comes last. -/
lemma binding?_pushBinding (key : BindingKey) (player : ObjectTypeId) (literal : Option Literal)
    (c : BindingId) :
    (x.pushBinding key player literal).binding? c =
      if c = ⟨x.bindings.size⟩ then
        some { id := ⟨x.bindings.size⟩, key, player, roleName := key.roleName?, literal
               mentions := [] }
      else x.binding? c := by
  rcases c with ⟨i⟩
  simp only [binding?, pushBinding, Array.getElem?_push, BindingId.mk.injEq]
  split <;> rfl

/-- Dropping a binding leaves all the others. -/
lemma binding?_dropBinding (b : BindingId) (key : BindingKey) (c : BindingId) :
    (x.dropBinding b key).binding? c = if c = b then none else x.binding? c := by
  rcases c with ⟨i⟩
  rcases b with ⟨j⟩
  simp only [binding?, dropBinding, Array.getElem?_modify, BindingId.mk.injEq]
  by_cases h : j = i
  · subst h
    simp only [if_true]
    rcases x.bindings[j]? with _ | _ <;> rfl
  · simp [h, Ne.symm h]

/-- The key of a new binding finds it. -/
lemma bindingOf?_pushBinding (key : BindingKey) (player : ObjectTypeId)
    (literal : Option Literal) (other : BindingKey) :
    (x.pushBinding key player literal).bindingOf? other =
      if other = key then some ⟨x.bindings.size⟩ else x.bindingOf? other :=
  lookup_cons_eq_ite ..

/-- The key of a binding that is dropped finds nothing. -/
lemma bindingOf?_dropBinding (b : BindingId) (key other : BindingKey) :
    (x.dropBinding b key).bindingOf? other = if other = key then none else x.bindingOf? other :=
  lookup_filter_ne ..

end Context

end FactModel
