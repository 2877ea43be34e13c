import FactModel.Proofs.Context.Bindings
import FactModel.Proofs.Matching.Carrying
set_option autoImplicit false

/-!
# What an attempt leaves behind

An attempt may add a mention, bind it and take it out of its binding again. All that is left of it
then is the mention, at the end and without a binding.

## Main definitions

* `FactModel.Context.LeavesBehind` — a context differs from another one in that it has at most so
  many more mentions, which are not bound.

## Main results

* `FactModel.Context.Bound.unbind_bindAs` — binding a mention and unbinding it changes no binding.
* `FactModel.Context.LeavesBehind.bound` — a context stays bound.
-/

namespace FactModel.Context

variable {x y z : Context}

/-! ## Changes that are undone -/

/-- A change that leaves the mention as it is leaves the context as it is. -/
lemma modifyMention_eq_self {m : MentionId} {change : Mention → Mention}
    (h : change (x.mention m) = x.mention m) : x.modifyMention m change = x := by
  show { x with mentions := x.mentions.modify m.index change } = x
  have hmentions : x.mentions.modify m.index change = x.mentions := by
    apply Array.ext_getElem?
    intro i
    rw [Array.getElem?_modify]
    split
    · next hi =>
      subst hi
      rw [mention] at h
      rcases hm : x.mentions[m.index]? with _ | mention
      · rfl
      · rw [hm] at h
        exact congrArg some h
    · rfl
  rw [hmentions]

/-- A change that leaves the binding as it is leaves the context as it is. -/
lemma modifyBinding_eq_self {b : BindingId} {change : Binding → Binding}
    (h : ∀ B ∈ x.binding? b, change B = B) : x.modifyBinding b change = x := by
  show { x with bindings := x.bindings.modify b.index (·.map change) } = x
  have hbindings : x.bindings.modify b.index (·.map change) = x.bindings := by
    apply Array.ext_getElem?
    intro i
    rw [Array.getElem?_modify]
    split
    · next hi =>
      subst hi
      rw [binding?] at h
      rcases hb : x.bindings[b.index]? with _ | _ | B
      · rfl
      · rfl
      · rw [hb] at h
        exact congrArg (fun B => some (some B)) (h B rfl)
    · rfl
  rw [hbindings]

/-- Two changes of one binding are one change. -/
lemma modifyBinding_modifyBinding (b : BindingId) (first second : Binding → Binding) :
    (x.modifyBinding b first).modifyBinding b second =
      x.modifyBinding b fun B => second (first B) := by
  refine congrArg (fun bindings => { x with bindings }) (Array.ext_getElem? fun i => ?_)
  simp only [modifyBinding, Array.getElem?_modify]
  split
  · rcases x.bindings[i]? with _ | _ | B <;> rfl
  · rfl

/-- A mention that joins a binding and is taken out of it again leaves the context as it was. -/
lemma unbind_enlist (h : x.Bound) {m : MentionId} {b : BindingId} {B : Binding}
    (hm : m.index < x.mentions.size) (hnone : (x.mention m).binding = none)
    (hB : x.binding? b = some B) : (x.enlist m b).unbind m = x := by
  have hnot : m ∉ B.mentions := by
    intro hmem
    rw [(h.binding_iff m b).2 ⟨B, hB, hmem⟩] at hnone
    cases hnone
  have hfilter : (B.mentions ++ [m]).filter (· ≠ m) = B.mentions := by
    rw [List.filter_append, List.filter_eq_self.2 fun n hn => ?_]
    · simp
    · exact decide_eq_true fun heq => hnot (heq ▸ hn)
  have hbound : ((x.enlist m b).mention m).binding = some b := by
    rw [mention_enlist hm, if_pos rfl]
  have hlisted : (x.enlist m b).binding? b = some { B with mentions := B.mentions ++ [m] } := by
    rw [binding?_enlist, hB, Option.map_some, enlisted, if_pos ⟨rfl, hnot⟩]
  rw [unbind, hbound]
  dsimp only
  rw [strike, show ((x.enlist m b).modifyMention m ({ · with binding := none })).binding? b = _ from
    hlisted]
  dsimp only
  rw [hfilter, if_neg (by simpa using h.mentions_ne_nil hB)]
  let join : Binding → Binding := fun B =>
    if m ∈ B.mentions then B else { B with mentions := B.mentions ++ [m] }
  show (((x.modifyMention m ({ · with binding := some b })).modifyMention m
    ({ · with binding := none })).modifyBinding b join).modifyBinding b
      ({ · with mentions := B.mentions }) = x
  rw [modifyMention_modifyMention, modifyMention_eq_self, modifyBinding_modifyBinding,
    modifyBinding_eq_self]
  · intro C hC
    obtain rfl : B = C := Option.some.inj (hB.symm.trans hC)
    show { (join B) with mentions := B.mentions } = B
    simp only [join, if_neg hnot]
  · show { (x.mention m) with binding := none } = x.mention m
    rw [← hnone]

/-- A mention that is alone in its binding takes the binding with it. -/
lemma unbind_enlist_pushBinding {m : MentionId} (hm : m.index < x.mentions.size)
    (hnone : (x.mention m).binding = none) {key : BindingKey} (hkey : x.bindingOf? key = none)
    (player : ObjectTypeId) (literal : Option Literal) :
    ((x.pushBinding key player literal).enlist m ⟨x.bindings.size⟩).unbind m =
      { x with bindings := x.bindings.push none } := by
  let b : BindingId := ⟨x.bindings.size⟩
  let y := x.pushBinding key player literal
  have hbound : ((y.enlist m b).mention m).binding = some b := by
    rw [mention_enlist (x := y) hm, if_pos rfl]
  have hB : y.binding? b = some { id := b, key, player, roleName := key.roleName?, literal
                                  mentions := [] } := by
    rw [binding?_pushBinding, if_pos rfl]
  have hlisted : (y.enlist m b).binding? b = some { id := b, key, player
                                                    roleName := key.roleName?, literal
                                                    mentions := [m] } := by
    rw [binding?_enlist, hB, Option.map_some, enlisted, if_pos ⟨rfl, List.not_mem_nil⟩]
    rfl
  have hkeys : ((key, b) :: x.bindingsByKey).filter (·.1 ≠ key) = x.bindingsByKey := by
    rw [List.filter_cons_of_neg (by simp)]
    apply List.filter_eq_self.2
    intro pair hpair
    apply decide_eq_true
    intro heq
    exact absurd (List.lookup_eq_none_iff.1 hkey pair hpair) (by simp [heq])
  have hbindings : ∀ B (f : Option Binding → Option Binding), ((x.bindings.push B).modify
      x.bindings.size f).modify x.bindings.size (fun _ => none) = x.bindings.push none := by
    intro B f
    apply Array.ext_getElem?
    intro i
    simp only [Array.getElem?_modify, Array.getElem?_push]
    by_cases hi : x.bindings.size = i
    · simp [hi]
    · simp [hi, Ne.symm hi]
  rw [unbind, hbound]
  dsimp only
  rw [strike, show ((y.enlist m b).modifyMention m ({ · with binding := none })).binding? b = _ from
    hlisted]
  dsimp only
  rw [if_pos (by simp)]
  have hmentions : (x.modifyMention m ({ · with binding := some b })).modifyMention m
      ({ · with binding := none }) = x := by
    rw [modifyMention_modifyMention]
    apply modifyMention_eq_self
    show { (x.mention m) with binding := none } = x.mention m
    rw [← hnone]
  have harrays := congrArg Context.mentions hmentions
  show { x with mentions := _, bindings := _, bindingsByKey := _ } = _
  rw [Context.mk.injEq]
  exact ⟨rfl, harrays, hbindings _ _, hkeys, rfl, rfl⟩

/-- A mention that is bound and taken out of its binding again leaves at most the place of a binding
that is gone. -/
theorem Bound.unbind_bindAs (h : x.Bound) {m : MentionId} (hm : m.index < x.mentions.size)
    (hnone : (x.mention m).binding = none) (player : ObjectTypeId) :
    ∃ k, (x.bindAs m player).2.unbind m =
      { x with bindings := x.bindings ++ Array.replicate k none } := by
  unfold Context.bindAs
  split
  · next b hb =>
    obtain ⟨B, hB, -⟩ := (h.bindingOf?_iff _ b).1 hb
    exact ⟨0, by rw [unbind_enlist h hm hnone hB]; simp⟩
  · next hkey =>
    refine ⟨1, ?_⟩
    rw [unbind_enlist_pushBinding hm hnone hkey]
    rfl

/-! ## What is left -/

/-- A context differs from another one in that it has at most so many more mentions, which are at
the end and not bound. -/
structure LeavesBehind (count : Nat) (x y : Context) : Prop where
  mentions_eq : ∃ more : Array Mention, more.size ≤ count ∧ (∀ m ∈ more, m.binding = none) ∧
    y.mentions = x.mentions ++ more
  binding?_eq : ∀ b, y.binding? b = x.binding? b
  liveBindings_eq : y.liveBindings = x.liveBindings
  bindingsByKey_eq : y.bindingsByKey = x.bindingsByKey
  vocabulary_eq : y.vocabulary = x.vocabulary
  roleNamePlayers_eq : y.roleNamePlayers = x.roleNamePlayers
  forwardTerms_eq : y.forwardTerms = x.forwardTerms

namespace LeavesBehind

variable {i j : Nat}

/-- A context leaves nothing behind in itself. -/
lemma refl (x : Context) : x.LeavesBehind 0 x where
  mentions_eq := ⟨#[], Nat.le_refl _, by simp, by simp⟩
  binding?_eq _ := rfl
  liveBindings_eq := rfl
  bindingsByKey_eq := rfl
  vocabulary_eq := rfl
  roleNamePlayers_eq := rfl
  forwardTerms_eq := rfl

/-- What is left behind adds up. -/
lemma trans (h : x.LeavesBehind i y) (h' : y.LeavesBehind j z) : x.LeavesBehind (i + j) z where
  mentions_eq := by
    obtain ⟨more, hsize, hmore, hy⟩ := h.mentions_eq
    obtain ⟨others, hsize', hothers, hz⟩ := h'.mentions_eq
    refine ⟨more ++ others, ?_, fun m hm => ?_, ?_⟩
    · rw [Array.size_append]
      omega
    · exact (Array.mem_append.1 hm).elim (hmore m) (hothers m)
    · rw [hz, hy, Array.append_assoc]
  binding?_eq b := (h'.binding?_eq b).trans (h.binding?_eq b)
  liveBindings_eq := h'.liveBindings_eq.trans h.liveBindings_eq
  bindingsByKey_eq := h'.bindingsByKey_eq.trans h.bindingsByKey_eq
  vocabulary_eq := h'.vocabulary_eq.trans h.vocabulary_eq
  roleNamePlayers_eq := h'.roleNamePlayers_eq.trans h.roleNamePlayers_eq
  forwardTerms_eq := h'.forwardTerms_eq.trans h.forwardTerms_eq

/-- More may be left behind. -/
lemma mono (h : x.LeavesBehind i y) (hij : i ≤ j) : x.LeavesBehind j y where
  mentions_eq := by
    obtain ⟨more, hsize, hmore⟩ := h.mentions_eq
    exact ⟨more, hsize.trans hij, hmore⟩
  binding?_eq := h.binding?_eq
  liveBindings_eq := h.liveBindings_eq
  bindingsByKey_eq := h.bindingsByKey_eq
  vocabulary_eq := h.vocabulary_eq
  roleNamePlayers_eq := h.roleNamePlayers_eq
  forwardTerms_eq := h.forwardTerms_eq

/-- The mentions that were there before are as they were. -/
lemma mention_eq (h : x.LeavesBehind i y) {m : MentionId} (hm : m.index < x.mentions.size) :
    y.mention m = x.mention m := by
  obtain ⟨more, -, -, hy⟩ := h.mentions_eq
  rw [mention, hy, Array.getElem?_append_left hm]
  rfl

/-- No mention is lost. -/
lemma size_le (h : x.LeavesBehind i y) : x.mentions.size ≤ y.mentions.size := by
  obtain ⟨more, -, -, hy⟩ := h.mentions_eq
  rw [hy, Array.size_append]
  omega

/-- Mentions are bound as before. -/
lemma binding_eq (h : x.LeavesBehind i y) (m : MentionId) :
    (y.mention m).binding = (x.mention m).binding := by
  by_cases hm : m.index < x.mentions.size
  · rw [h.mention_eq hm]
  · obtain ⟨more, -, hmore, hy⟩ := h.mentions_eq
    rw [mention_of_not_lt hm, mention, hy, Array.getElem?_append_right (Nat.le_of_not_lt hm)]
    rcases hget : more[m.index - x.mentions.size]? with _ | mention
    · rfl
    · exact hmore mention (Array.mem_of_getElem? hget)

/-- A context stays bound. -/
theorem bound (h : x.LeavesBehind i y) (hx : x.Bound) : y.Bound := by
  refine hx.of_mentions h.binding?_eq h.binding_eq (fun key => ?_) fun m hm => ?_
  · show y.bindingsByKey.lookup key = x.bindingsByKey.lookup key
    rw [h.bindingsByKey_eq]
  · refine bindingKey_congr (fun t => by rw [h.vocabulary_eq]) ?_
    rw [h.mention_eq (index_lt_of_binding hm)]

end LeavesBehind

/-- A mention that is added, bound and taken out of its binding again is all that is left of it. -/
theorem Bound.leavesBehind_unbind (h : x.Bound) {mention : Mention}
    (hmention : mention.binding = none)
    (player : ObjectTypeId) : x.LeavesBehind 1
      (((x.pushMention mention).bindAs ⟨x.mentions.size⟩ player).2.unbind ⟨x.mentions.size⟩) := by
  have hnew : (x.pushMention mention).mention ⟨x.mentions.size⟩ = mention := by
    rw [mention_pushMention, if_pos rfl]
  obtain ⟨k, heq⟩ := (h.pushMention mention hmention).unbind_bindAs (m := ⟨x.mentions.size⟩)
    (by simp [Context.pushMention]) (by rw [hnew, hmention]) player
  have hplaces : ∀ i : Nat,
    ((x.bindings ++ Array.replicate k none)[i]?).join = (x.bindings[i]?).join := by
    intro i
    rw [Array.getElem?_append]
    split
    · rfl
    · next hi =>
      rw [Array.getElem?_eq_none (Nat.le_of_not_lt hi), Array.getElem?_replicate]
      split <;> rfl
  have hnone : (List.replicate k (none : Option Binding)).filterMap id = [] := by
    rw [List.filterMap_eq_nil_iff]
    intro B hB
    exact List.eq_of_mem_replicate hB
  rw [heq]
  refine ⟨⟨#[mention], Nat.le_refl _, ?_, rfl⟩, fun b => hplaces b.index, ?_, rfl, rfl, rfl, rfl⟩
  · intro m hm
    rw [Array.mem_singleton.1 hm, hmention]
  · unfold liveBindings
    apply congrArg (List.map Binding.id)
    show (x.bindings ++ Array.replicate k none).toList.filterMap id = x.bindings.toList.filterMap id
    rw [Array.toList_append, Array.toList_replicate, List.filterMap_append, hnone, List.append_nil]

end FactModel.Context
