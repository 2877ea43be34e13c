import FactModel.Proofs.Context.Lookup
set_option autoImplicit false

/-!
# Bound contexts

Three things tell which mentions are bound together: the mention, which points to its binding, the
binding, which lists its mentions, and the index of the bindings by their keys. In a bound context
they agree, so that two bound mentions share a binding just in case their keys are equal.

## Main definitions

* `FactModel.Context.Tied` — mentions, bindings and keys agree.
* `FactModel.Context.Bound` — besides, no binding is without mentions.

## Main results

* `FactModel.Context.Tied.binding_eq_iff` — bound mentions share a binding if their keys are equal,
  and only then.
* `FactModel.Context.Bound.bindAs`, `FactModel.Context.Bound.unbind`,
  `FactModel.Context.Bound.mergeLoose` — the changes of bindings keep a context bound.
* `FactModel.Context.Bound.unbind_modifyMention` — a mention may change its key if it is then taken
  out of its binding.
-/

namespace FactModel.Context

/-- Mentions, bindings and the index of keys agree. A binding may still be without mentions. -/
structure Tied (x : Context) : Prop where
  binding_id : ∀ {b B}, x.binding? b = some B → B.id = b
  mentions_nodup : ∀ {b B}, x.binding? b = some B → B.mentions.Nodup
  binding_iff : ∀ m b,
    (x.mention m).binding = some b ↔ ∃ B, x.binding? b = some B ∧ m ∈ B.mentions
  bindingKey_eq : ∀ {b B m}, x.binding? b = some B → m ∈ B.mentions → x.bindingKey m = B.key
  bindingOf?_iff : ∀ key b,
    x.bindingOf? key = some b ↔ ∃ B, x.binding? b = some B ∧ B.key = key

/-- Mentions, bindings and the index of keys agree, and every binding has mentions. -/
structure Bound (x : Context) : Prop extends Tied x where
  mentions_ne_nil : ∀ {b B}, x.binding? b = some B → B.mentions ≠ []

variable {x : Context}

/-! ## Sharing a binding -/

/-- The binding of a mention is the one that the index has for its key. -/
lemma Tied.bindingOf?_of_binding (h : x.Tied) {m : MentionId} {b : BindingId}
    (hm : (x.mention m).binding = some b) : x.bindingOf? (x.bindingKey m) = some b := by
  obtain ⟨B, hB, hmem⟩ := (h.binding_iff m b).1 hm
  exact (h.bindingOf?_iff _ b).2 ⟨B, hB, (h.bindingKey_eq hB hmem).symm⟩

/-- Two bound mentions share a binding just in case their keys are equal. -/
theorem Tied.binding_eq_iff (h : x.Tied) {m n : MentionId}
    (hm : (x.mention m).binding.isSome) (hn : (x.mention n).binding.isSome) :
    (x.mention m).binding = (x.mention n).binding ↔ x.bindingKey m = x.bindingKey n := by
  obtain ⟨b, hb⟩ := Option.isSome_iff_exists.1 hm
  obtain ⟨c, hc⟩ := Option.isSome_iff_exists.1 hn
  have hkeyb := h.bindingOf?_of_binding hb
  have hkeyc := h.bindingOf?_of_binding hc
  rw [hb, hc]
  constructor
  · intro hbc
    obtain ⟨B, hB, hmB⟩ := (h.binding_iff m b).1 hb
    obtain ⟨C, hC, hnC⟩ := (h.binding_iff n c).1 hc
    have hBC : some B = some C := by rw [← hB, ← hC, Option.some.inj hbc]
    rw [h.bindingKey_eq hB hmB, h.bindingKey_eq hC hnC, Option.some.inj hBC]
  · intro hkey
    rw [← hkeyb, ← hkeyc, hkey]

/-! ## Contexts without bindings -/

/-- A context in which nothing is bound is bound. -/
lemma bound_of_unbound (hbindings : ∀ b, x.binding? b = none)
    (hmentions : ∀ m, (x.mention m).binding = none) (hkeys : ∀ key, x.bindingOf? key = none) :
    x.Bound where
  binding_id hB := by simp [hbindings] at hB
  mentions_nodup hB := by simp [hbindings] at hB
  binding_iff m b := by simp [hbindings, hmentions]
  bindingKey_eq hB := by simp [hbindings] at hB
  bindingOf?_iff key b := by simp [hbindings, hkeys]
  mentions_ne_nil hB := by simp [hbindings] at hB

/-! ## Changes of mentions -/

/-- A change of bindings that leaves alone their places, their keys and the keys of mentions. -/
lemma Tied.of_map (h : x.Tied) {y : Context} (change : BindingId → Binding → Binding)
    (hbindings : ∀ b, y.binding? b = (x.binding? b).map (change b))
    (hid : ∀ b B, (change b B).id = B.id) (hkeyOf : ∀ b B, (change b B).key = B.key)
    (hnodup : ∀ {b B}, x.binding? b = some B → (change b B).mentions.Nodup)
    (hmentions : ∀ m b, (y.mention m).binding = some b ↔
      ∃ B, x.binding? b = some B ∧ m ∈ (change b B).mentions)
    (hkey : ∀ {b B m}, x.binding? b = some B → m ∈ (change b B).mentions →
      y.bindingKey m = B.key)
    (hkeys : ∀ key, y.bindingOf? key = x.bindingOf? key) : y.Tied := by
  have hfrom : ∀ {b C}, y.binding? b = some C → ∃ B, x.binding? b = some B ∧ change b B = C :=
    fun hC => Option.map_eq_some_iff.1 ((hbindings _).symm.trans hC)
  have hto : ∀ {b B}, x.binding? b = some B → y.binding? b = some (change b B) := by
    intro b B hB
    rw [hbindings, hB, Option.map_some]
  refine ⟨fun hC => ?_, fun hC => ?_, fun m b => ?_, fun hC hm => ?_, fun key b => ?_⟩
  · obtain ⟨B, hB, rfl⟩ := hfrom hC
    rw [hid, h.binding_id hB]
  · obtain ⟨B, hB, rfl⟩ := hfrom hC
    exact hnodup hB
  · refine (hmentions m b).trans ⟨?_, ?_⟩
    · rintro ⟨B, hB, hm⟩
      exact ⟨_, hto hB, hm⟩
    · rintro ⟨C, hC, hm⟩
      obtain ⟨B, hB, rfl⟩ := hfrom hC
      exact ⟨B, hB, hm⟩
  · obtain ⟨B, hB, rfl⟩ := hfrom hC
    rw [hkeyOf, hkey hB hm]
  · rw [hkeys, h.bindingOf?_iff]
    constructor
    · rintro ⟨B, hB, rfl⟩
      exact ⟨_, hto hB, hkeyOf b B⟩
    · rintro ⟨C, hC, rfl⟩
      obtain ⟨B, hB, rfl⟩ := hfrom hC
      exact ⟨B, hB, (hkeyOf b B).symm⟩

/-- A change that keeps the bindings of mentions and the keys of the mentions that are bound. -/
lemma Bound.of_mentions (h : x.Bound) {y : Context}
    (hbindings : ∀ b, y.binding? b = x.binding? b)
    (hmentions : ∀ m, (y.mention m).binding = (x.mention m).binding)
    (hkeys : ∀ key, y.bindingOf? key = x.bindingOf? key)
    (hkey : ∀ m, (x.mention m).binding.isSome → y.bindingKey m = x.bindingKey m) : y.Bound where
  toTied := by
    refine h.toTied.of_map (fun _ => id) (fun b => ?_) (fun _ _ => rfl) (fun _ _ => rfl)
      h.mentions_nodup (fun m b => ?_) (fun {b B m} hB hm => ?_) hkeys
    · rw [hbindings, Option.map_id_fun, id]
    · rw [hmentions]
      exact h.binding_iff m b
    · rw [hkey m (Option.isSome_iff_exists.2 ⟨b, (h.binding_iff m b).2 ⟨B, hB, hm⟩⟩)]
      exact h.bindingKey_eq hB hm
  mentions_ne_nil hB := h.mentions_ne_nil (hbindings _ ▸ hB)

/-- Only the key of the mention that changes may change. -/
lemma bindingKey_modifyMention_ne {m n : MentionId} (change : Mention → Mention) (hn : n ≠ m) :
    (x.modifyMention m change).bindingKey n = x.bindingKey n := by
  have hmention : (x.modifyMention m change).mention n = x.mention n := by
    rw [mention_modifyMention, if_neg fun h => hn h.1]
  refine bindingKey_congr (fun _ => rfl) ?_
  rw [hmention]

/-- A mention may change if its binding stays and its key does, unless it is not bound. -/
lemma Bound.modifyMention (h : x.Bound) {m : MentionId} (change : Mention → Mention)
    (hbinding : ∀ mention, (change mention).binding = mention.binding)
    (hkey : (x.mention m).binding.isSome →
      (x.modifyMention m change).bindingKey m = x.bindingKey m) :
    (x.modifyMention m change).Bound := by
  refine h.of_mentions (fun _ => rfl) (mention_modifyMention_apply _ m hbinding) (fun _ => rfl)
    fun n hn => ?_
  by_cases hnm : n = m
  · subst hnm
    exact hkey hn
  · exact bindingKey_modifyMention_ne change hnm

/-- A mention may be added that is not bound. -/
lemma Bound.pushMention (h : x.Bound) (mention : Mention) (hmention : mention.binding = none) :
    (x.pushMention mention).Bound := by
  have hdefault : x.mention ⟨x.mentions.size⟩ = default := mention_of_not_lt (Nat.lt_irrefl _)
  have hlookup : ∀ m, (x.pushMention mention).mention m = x.mention m ∨
      m = ⟨x.mentions.size⟩ := by
    intro m
    rw [mention_pushMention]
    split
    · next hm => exact .inr hm
    · exact .inl rfl
  refine h.of_mentions (fun _ => rfl) (fun m => ?_) (fun _ => rfl) fun m hm => ?_
  · rcases hlookup m with hm | rfl
    · rw [hm]
    · rw [mention_pushMention, if_pos rfl, hmention, hdefault]
      rfl
  · rcases hlookup m with hm' | rfl
    · refine bindingKey_congr (fun _ => rfl) ?_
      rw [hm']
    · rw [hdefault] at hm
      cases hm

/-- The vocabulary may change if the names of its types stay. -/
lemma Bound.withVocabulary (h : x.Bound) {v : Vocabulary}
    (hname : ∀ t, v.nameOf t = x.vocabulary.nameOf t) : { x with vocabulary := v }.Bound :=
  h.of_mentions (fun _ => rfl) (fun _ => rfl) (fun _ => rfl) fun _ _ =>
    bindingKey_congr hname rfl

/-! ## Binding -/

/-- The key of a mention does not depend on its binding. -/
lemma bindingKey_modifyMention_binding (m : MentionId) (binding : Option BindingId)
    (n : MentionId) :
    (x.modifyMention m ({ · with binding })).bindingKey n = x.bindingKey n := by
  refine bindingKey_congr (fun _ => rfl) ?_
  rw [mention_modifyMention]
  split
  · next h => rw [h.1]
  · rfl

/-- Adding a mention to a binding gives that binding to the mention. -/
lemma mention_enlist {m : MentionId} (hm : m.index < x.mentions.size) (b : BindingId)
    (n : MentionId) :
    (x.enlist m b).mention n =
      if n = m then { x.mention m with binding := some b } else x.mention n := by
  have h : ∀ change, (x.modifyBinding b change).mention n = x.mention n := fun _ => rfl
  have h' : ∀ change, (x.modifyBinding b change).mention m = x.mention m := fun _ => rfl
  rw [enlist, mention_modifyMention, h, h']
  simp only [modifyBinding, hm, and_true]

/-- What becomes of a binding when a mention is added to the binding of a place. -/
def enlisted (m : MentionId) (b c : BindingId) (B : Binding) : Binding :=
  if c = b ∧ m ∉ B.mentions then { B with mentions := B.mentions ++ [m] } else B

/-- Adding a mention to a binding changes that binding only. -/
lemma binding?_enlist (m : MentionId) (b c : BindingId) :
    (x.enlist m b).binding? c = (x.binding? c).map (enlisted m b c) := by
  refine (binding?_modifyBinding b _ c).trans ?_
  by_cases hc : c = b
  · subst hc
    rw [if_pos rfl]
    congr 1
    funext B
    by_cases hm : m ∈ B.mentions <;> simp [enlisted, hm]
  · have henlisted : enlisted m b c = id := by
      funext B
      simp [enlisted, hc]
    rw [if_neg hc, henlisted, Option.map_id_fun, id]

/-- Adding a mention to a binding leaves keys as they are. -/
lemma bindingKey_enlist (m : MentionId) (b : BindingId) (n : MentionId) :
    (x.enlist m b).bindingKey n = x.bindingKey n :=
  bindingKey_modifyMention_binding ..

/-- A mention may be added to the binding of its key. It is in no other one. -/
lemma Tied.enlist (h : x.Tied) {m : MentionId} {b : BindingId} {B : Binding}
    (hm : m.index < x.mentions.size) (hB : x.binding? b = some B)
    (hkey : B.key = x.bindingKey m) : (x.enlist m b).Tied := by
  have hother : ∀ {c C}, x.binding? c = some C → m ∈ C.mentions → c = b := by
    intro c C hC hmC
    have hb := (h.bindingOf?_iff _ _).2 ⟨B, hB, hkey⟩
    have hc := (h.bindingOf?_iff _ _).2 ⟨C, hC, (h.bindingKey_eq hC hmC).symm⟩
    exact Option.some.inj (hc.symm.trans hb)
  have hmem : ∀ c C n, n ∈ (enlisted m b c C).mentions ↔ n ∈ C.mentions ∨ n = m ∧ c = b := by
    intro c C n
    unfold enlisted
    split
    · next hc => simp [hc.1]
    · next hc =>
      refine ⟨.inl, fun hn => hn.elim id fun hn => ?_⟩
      rw [hn.1]
      exact Decidable.of_not_not fun hmC => hc ⟨hn.2, hmC⟩
  refine h.of_map (enlisted m b) (binding?_enlist m b) (fun c C => ?_) (fun c C => ?_)
    (fun {c C} hC => ?_)
    (fun n c => ?_) (fun {c C n} hC hn => ?_) fun key => rfl
  · unfold enlisted
    split <;> rfl
  · unfold enlisted
    split <;> rfl
  · have hnodup := h.mentions_nodup hC
    unfold enlisted
    split
    · next hc =>
      refine List.nodup_append.2 ⟨hnodup, List.pairwise_singleton .., fun n hn k hk => ?_⟩
      rw [List.mem_singleton.1 hk]
      rintro rfl
      exact hc.2 hn
    · exact hnodup
  · simp only [hmem]
    rw [mention_enlist hm]
    split
    · next hn =>
      subst hn
      constructor
      · intro hc
        obtain rfl := Option.some.inj hc
        exact ⟨B, hB, .inr ⟨rfl, rfl⟩⟩
      · rintro ⟨C, hC, hn | hn⟩
        · rw [hother hC hn]
        · rw [hn.2]
    · next hn => simp only [hn, false_and, or_false, h.binding_iff]
  · rw [bindingKey_enlist]
    rcases (hmem c C n).1 hn with hn | ⟨rfl, rfl⟩
    · exact h.bindingKey_eq hC hn
    · rw [hB, Option.some.injEq] at hC
      rw [← hC, hkey]

/-- The next binding is not there yet. -/
lemma binding?_size (x : Context) : x.binding? ⟨x.bindings.size⟩ = none := by
  rw [binding?, Array.getElem?_eq_none (Nat.le_refl _)]
  rfl

/-- A binding may be added for a key that has none. -/
lemma Tied.pushBinding (h : x.Tied) {key : BindingKey} (hkey : x.bindingOf? key = none)
    (player : ObjectTypeId) (literal : Option Literal) :
    (x.pushBinding key player literal).Tied := by
  have hnew := x.binding?_size
  have hfresh : ∀ {c C}, x.binding? c = some C → c ≠ ⟨x.bindings.size⟩ := by
    rintro c C hC rfl
    rw [hnew] at hC
    cases hC
  refine ⟨fun {c C} hC => ?_, fun {c C} hC => ?_, fun n c => ?_, fun {c C n} hC hn => ?_,
    fun other c => ?_⟩
  · rw [binding?_pushBinding] at hC
    split at hC
    · next hc =>
      cases hC
      exact hc.symm
    · exact h.binding_id hC
  · rw [binding?_pushBinding] at hC
    split at hC
    · cases hC
      exact List.nodup_nil
    · exact h.mentions_nodup hC
  · refine (h.binding_iff n c).trans ⟨?_, ?_⟩
    · rintro ⟨C, hC, hn⟩
      exact ⟨C, by rw [binding?_pushBinding, if_neg (hfresh hC), hC], hn⟩
    · rintro ⟨C, hC, hn⟩
      rw [binding?_pushBinding] at hC
      split at hC
      · cases hC
        exact absurd hn List.not_mem_nil
      · exact ⟨C, hC, hn⟩
  · rw [binding?_pushBinding] at hC
    split at hC
    · cases hC
      exact absurd hn List.not_mem_nil
    · exact h.bindingKey_eq hC hn
  · rw [bindingOf?_pushBinding, binding?_pushBinding]
    constructor
    · intro hc
      split at hc
      · next hother =>
        obtain rfl := Option.some.inj hc
        exact ⟨_, if_pos rfl, hother.symm⟩
      · obtain ⟨C, hC, hkeyC⟩ := (h.bindingOf?_iff other c).1 hc
        exact ⟨C, by rw [if_neg (hfresh hC), hC], hkeyC⟩
    · rintro ⟨C, hC, hkeyC⟩
      split at hC
      · next hc =>
        cases hC
        rw [if_pos hkeyC.symm, hc]
      · have hc := (h.bindingOf?_iff other c).2 ⟨C, hC, hkeyC⟩
        rw [if_neg, hc]
        rintro rfl
        rw [hkey] at hc
        cases hc

/-- Binding a mention keeps a context bound. A mention that is bound already has the binding of its
key, so that its binding stays. -/
theorem Bound.bindAs (h : x.Bound) {m : MentionId} (hm : m.index < x.mentions.size)
    (player : ObjectTypeId) : (x.bindAs m player).2.Bound := by
  have hne : ∀ {y : Context} {b : BindingId},
      (∀ c C, c ≠ b → y.binding? c = some C → C.mentions ≠ []) →
      ∀ {c C}, (y.enlist m b).binding? c = some C → C.mentions ≠ [] := by
    intro y b hy c C hC
    rw [binding?_enlist] at hC
    obtain ⟨B, hB, rfl⟩ := Option.map_eq_some_iff.1 hC
    unfold enlisted
    split
    · exact List.append_ne_nil_of_right_ne_nil _ (List.cons_ne_nil _ _)
    · next hc =>
      by_cases hcb : c = b
      · exact List.ne_nil_of_mem (Decidable.of_not_not fun hm => hc ⟨hcb, hm⟩)
      · exact hy c B hcb hB
  rw [Context.bindAs]
  split
  · next b hb =>
    obtain ⟨B, hB, hkey⟩ := (h.bindingOf?_iff _ b).1 hb
    exact ⟨h.toTied.enlist hm hB hkey, hne fun c C _ hC => h.mentions_ne_nil hC⟩
  · next hnone =>
    let y := x.pushBinding (x.bindingKey m) player (x.mention m).literal
    have hy : y.Tied := h.toTied.pushBinding hnone player _
    have hB := (binding?_pushBinding (x := x) (x.bindingKey m) player (x.mention m).literal
      ⟨x.bindings.size⟩).trans (if_pos rfl)
    refine ⟨hy.enlist hm hB rfl, hne fun c C hc hC => ?_⟩
    rw [binding?_pushBinding, if_neg hc] at hC
    exact h.mentions_ne_nil hC

/-! ## Unbinding -/

/-- A binding that has a mention is the binding of the mention. -/
lemma Tied.eq_of_mem (h : x.Tied) {m : MentionId} {b c : BindingId} {C : Binding}
    (hb : (x.mention m).binding = some b) (hC : x.binding? c = some C) (hm : m ∈ C.mentions) :
    c = b := by
  have hc := (h.binding_iff m c).2 ⟨C, hC, hm⟩
  exact Option.some.inj (hc.symm.trans hb)

/-- A mention may be taken out of a binding that has others. -/
lemma Tied.strike_others (h : x.Tied) {m : MentionId} {b : BindingId}
    (hb : (x.mention m).binding = some b) {y : Context}
    (hbindings : ∀ c, y.binding? c = if c = b then
      (x.binding? b).map fun B => { B with mentions := B.mentions.filter (· ≠ m) }
      else x.binding? c)
    (hmentions : ∀ n, (y.mention n).binding = if n = m then none else (x.mention n).binding)
    (hkey : ∀ n, y.bindingKey n = x.bindingKey n)
    (hkeys : ∀ key, y.bindingOf? key = x.bindingOf? key) : y.Tied := by
  refine h.of_map (fun _ B => { B with mentions := B.mentions.filter (· ≠ m) })
    (fun c => ?_) (fun _ _ => rfl) (fun _ _ => rfl) (fun hB => (h.mentions_nodup hB).filter _)
    (fun n c => ?_) (fun {c B n} hB hn => ?_) hkeys
  · rw [hbindings]
    split
    · next hc => rw [hc]
    · next hc =>
      -- the other bindings do not have the mention
      rcases hC : x.binding? c with _ | C
      · rfl
      · have hall : ∀ n ∈ C.mentions, n ≠ m := by
          rintro n hn rfl
          exact hc (h.eq_of_mem hb hC hn)
        have hfilter : C.mentions.filter (· ≠ m) = C.mentions :=
          List.filter_eq_self.2 fun n hn => decide_eq_true (hall n hn)
        rw [Option.map_some, hfilter]
  · rw [hmentions]
    simp only [List.mem_filter, decide_eq_true_iff]
    split
    · next hn => simp [hn]
    · next hn => simp [hn, h.binding_iff]
  · exact (hkey n).trans (h.bindingKey_eq hB (List.mem_filter.1 hn).1)

/-- The only mention of a binding may be unbound and the binding dropped. -/
lemma Tied.strike_last (h : x.Tied) {m : MentionId} {b : BindingId} {B : Binding}
    (hb : (x.mention m).binding = some b) (hB : x.binding? b = some B)
    (honly : ∀ n ∈ B.mentions, n = m) {y : Context}
    (hbindings : ∀ c, y.binding? c = if c = b then none else x.binding? c)
    (hmentions : ∀ n, (y.mention n).binding = if n = m then none else (x.mention n).binding)
    (hkey : ∀ n, y.bindingKey n = x.bindingKey n)
    (hkeys : ∀ key, y.bindingOf? key = if key = B.key then none else x.bindingOf? key) :
    y.Tied := by
  have hfrom : ∀ {c C}, y.binding? c = some C → c ≠ b ∧ x.binding? c = some C := by
    intro c C hC
    rw [hbindings] at hC
    split at hC
    · cases hC
    · next hc => exact ⟨hc, hC⟩
  have hto : ∀ {c C}, x.binding? c = some C → c ≠ b → y.binding? c = some C := by
    intro c C hC hc
    rw [hbindings, if_neg hc, hC]
  refine ⟨fun hC => h.binding_id (hfrom hC).2, fun hC => h.mentions_nodup (hfrom hC).2,
    fun n c => ?_, fun {c C n} hC hn => (hkey n).trans (h.bindingKey_eq (hfrom hC).2 hn),
    fun key c => ?_⟩
  · rw [hmentions]
    constructor
    · intro hc
      split at hc
      · cases hc
      next hn =>
      obtain ⟨C, hC, hnC⟩ := (h.binding_iff n c).1 hc
      refine ⟨C, hto hC ?_, hnC⟩
      rintro rfl
      rw [hB, Option.some.injEq] at hC
      exact hn (honly n (hC ▸ hnC))
    · rintro ⟨C, hC, hnC⟩
      obtain ⟨hc, hC⟩ := hfrom hC
      rw [if_neg]
      · exact (h.binding_iff n c).2 ⟨C, hC, hnC⟩
      · rintro rfl
        exact hc (h.eq_of_mem hb hC hnC)
  · rw [hkeys]
    have hkeyB := (h.bindingOf?_iff B.key b).2 ⟨B, hB, rfl⟩
    constructor
    · intro hc
      split at hc
      · cases hc
      next hne =>
      obtain ⟨C, hC, hkeyC⟩ := (h.bindingOf?_iff key c).1 hc
      refine ⟨C, hto hC ?_, hkeyC⟩
      rintro rfl
      rw [hB, Option.some.injEq] at hC
      exact hne (by rw [hC, hkeyC])
    · rintro ⟨C, hC, hkeyC⟩
      obtain ⟨hc, hC⟩ := hfrom hC
      have hkeyc := (h.bindingOf?_iff key c).2 ⟨C, hC, hkeyC⟩
      rw [if_neg, hkeyc]
      rintro rfl
      exact hc (Option.some.inj (hkeyc.symm.trans hkeyB))

/-- Taking a mention out of its binding keeps a context bound.

**Proof sketch.** The binding is the only one that has the mention. If it has others it keeps them,
and otherwise it is dropped together with its key. -/
theorem Bound.unbind (h : x.Bound) (m : MentionId) : (x.unbind m).Bound := by
  rw [Context.unbind]
  split
  · exact h
  next b hb =>
  obtain ⟨B, hB, -⟩ := (h.binding_iff m b).1 hb
  have hm : m.index < x.mentions.size := by
    refine Decidable.of_not_not fun hm => ?_
    rw [mention_of_not_lt hm] at hb
    cases hb
  have hmentions : ∀ n, ((x.modifyMention m ({ · with binding := none })).mention n).binding =
      if n = m then none else (x.mention n).binding := by
    intro n
    rw [mention_modifyMention]
    simp only [hm, and_true]
    split <;> rfl
  have hkey : ∀ n, (x.modifyMention m ({ · with binding := none })).bindingKey n =
      x.bindingKey n := bindingKey_modifyMention_binding m none
  have hyB : (x.modifyMention m ({ · with binding := none })).binding? b = some B := hB
  rw [strike, hyB]
  dsimp only
  split
  · next hempty =>
    have hlookup : ∀ c, ((x.modifyMention m ({ · with binding := none })).dropBinding b
        B.key).binding? c = if c = b then none else x.binding? c := binding?_dropBinding b B.key
    refine ⟨h.toTied.strike_last hb hB (by simpa using hempty) hlookup hmentions hkey
      (bindingOf?_dropBinding b B.key), fun {c C} hC => ?_⟩
    rw [hlookup] at hC
    split at hC
    · cases hC
    · exact h.mentions_ne_nil hC
  · next hrest =>
    have hlookup : ∀ c, ((x.modifyMention m ({ · with binding := none })).modifyBinding b
        ({ · with mentions := B.mentions.filter (· ≠ m) })).binding? c =
          if c = b then (x.binding? b).map fun B =>
            { B with mentions := B.mentions.filter (· ≠ m) } else x.binding? c := by
      intro c
      rw [binding?_modifyBinding, hyB, hB]
      rfl
    refine ⟨h.toTied.strike_others hb hlookup hmentions hkey fun _ => rfl, fun {c C} hC => ?_⟩
    rw [hlookup, hB] at hC
    split at hC
    · cases hC
      simpa using hrest
    · exact h.mentions_ne_nil hC

/-- Striking a mention from a binding leaves the mentions as they are. -/
lemma mention_strike (m : MentionId) (b : BindingId) (n : MentionId) :
    (x.strike m b).mention n = x.mention n := by
  unfold strike
  split
  · rfl
  · dsimp only
    split <;> rfl

/-- A mention that is taken out of its binding has none. -/
lemma binding_unbind (x : Context) (m : MentionId) : ((x.unbind m).mention m).binding = none := by
  rw [Context.unbind]
  split
  · next h => exact h
  · rw [mention_strike, mention_modifyMention]
    split
    · rfl
    · next hm => rw [mention_of_not_lt fun h => hm ⟨rfl, h⟩]; rfl

/-- A mention may change what its key is made of and then be taken out of its binding: it comes out
of the binding that it was in. -/
lemma unbind_modifyMention {m : MentionId} {change : Mention → Mention}
    (h : ∀ mention binding,
      change { mention with binding } = { change mention with binding })
    (hbinding : ∀ mention, (change mention).binding = mention.binding) :
    (x.modifyMention m change).unbind m = (x.unbind m).modifyMention m change := by
  have hsame := mention_modifyMention_apply (x := x) (·.binding) m hbinding m
  rw [Context.unbind, Context.unbind, hsame]
  split
  · rfl
  · next b _ =>
    have hswap : (x.modifyMention m change).modifyMention m ({ · with binding := none }) =
        (x.modifyMention m ({ · with binding := none })).modifyMention m change := by
      rw [modifyMention_modifyMention, modifyMention_modifyMention]
      exact congrArg _ (funext fun mention => (h mention none).symm)
    rw [hswap]
    have hstrike : ∀ y : Context, (y.modifyMention m change).strike m b =
        (y.strike m b).modifyMention m change := by
      intro y
      have hB : (y.modifyMention m change).binding? b = y.binding? b := rfl
      rw [strike, strike, hB]
      split
      · rfl
      · dsimp only
        split <;> rfl
    exact hstrike _

/-- Binding a mention anew after what its key is made of has changed keeps a context bound. -/
lemma Bound.unbind_modifyMention (h : x.Bound) (m : MentionId) (change : Mention → Mention)
    (hchange : ∀ mention binding,
      change { mention with binding } = { change mention with binding })
    (hbinding : ∀ mention, (change mention).binding = mention.binding) :
    ((x.modifyMention m change).unbind m).Bound := by
  rw [Context.unbind_modifyMention hchange hbinding]
  refine (h.unbind m).modifyMention change hbinding fun hm => ?_
  rw [binding_unbind] at hm
  cases hm

/-! ## Merging -/

/-- A merge keeps a context bound. -/
lemma Bound.mergeBinding (h : x.Bound) (b : BindingId) : (x.mergeBinding b).Bound := by
  rw [Context.mergeBinding]
  split
  · exact h
  split
  · next other _ =>
    let change (c : BindingId) (B : Binding) : Binding :=
      if c = b then { B with reboundTo := some other } else B
    have hlookup : ∀ c, (x.modifyBinding b ({ · with reboundTo := some other })).binding? c =
        (x.binding? c).map (change c) := by
      intro c
      rw [binding?_modifyBinding]
      by_cases hc : c = b <;> simp [change, hc]
    have hchange : ∀ c B, (change c B).id = B.id ∧ (change c B).key = B.key ∧
        (change c B).mentions = B.mentions := by
      intro c B
      unfold change
      split <;> exact ⟨rfl, rfl, rfl⟩
    refine ⟨h.toTied.of_map change hlookup (fun c B => (hchange c B).1)
      (fun c B => (hchange c B).2.1)
      (fun hB => ?_) (fun m c => ?_) (fun hB hm => ?_) fun _ => rfl, fun {c C} hC => ?_⟩
    · rw [(hchange _ _).2.2]
      exact h.mentions_nodup hB
    · simp only [(hchange _ _).2.2]
      exact h.binding_iff m c
    · rw [(hchange _ _).2.2] at hm
      exact h.bindingKey_eq hB hm
    · rw [hlookup] at hC
      obtain ⟨B, hB, rfl⟩ := Option.map_eq_some_iff.1 hC
      rw [(hchange _ _).2.2]
      exact h.mentions_ne_nil hB
  · exact h

/-- Merging loose bindings keeps a context bound. -/
theorem Bound.mergeLoose (h : x.Bound) : x.mergeLoose.Bound :=
  List.foldlRecOn _ _ h fun _ hy b _ => hy.mergeBinding b

end FactModel.Context
