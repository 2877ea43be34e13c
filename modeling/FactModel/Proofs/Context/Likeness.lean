import FactModel.Proofs.Context.Merging
import FactModel.Proofs.Context.Validity
import FactModel.Proofs.Matching.Renaming
set_option autoImplicit false

/-!
# Mentions that are alike

The same mention may stand in two contexts, at different places, and with object types that were
added to the two vocabularies in a different order. It is written alike in both, it is played by
types of one name, and so it has the same key. Which mentions share a binding, and which bindings
are merged, only depends on the keys of the mentions that are bound.

## Main definitions

* `FactModel.Context.Resembles` — a mention of one context is that of another.
* `FactModel.Context.SamePlaces` — the bound mentions of two contexts are alike, one for one.
* `FactModel.Context.lenient` — a context in which all bound mentions share their bindings.

## Main results

* `FactModel.Context.Bound.one_lt_shareCount_iff` — a mention shares its binding if another one has
  its key.
* `FactModel.Context.SamePlaces.effectiveBinding?_eq_iff` — after merging, one binding stands for
  two mentions just in case one stands for those that they are alike.
-/

namespace FactModel

/-- The literal in a key. -/
def BindingKey.literal? : BindingKey → Option Literal
  | role _ _ literal => literal
  | adjectival _ _ _ literal => literal

/-- Whether a key tells mentions from others by their adjectives at most. -/
def BindingKey.isUnmarked (key : BindingKey) : Bool :=
  key.roleName?.isNone && key.literal?.isNone

namespace Context

variable {x y z : Context} {m n k : MentionId}

/-! ## One mention in two contexts -/

/-- A mention of the first context is written as one of the second, and the players of both exist
and have one name. -/
structure Resembles (x z : Context) (m n : MentionId) : Prop where
  term_eq : (z.mention n).term = (x.mention m).term
  leading_eq : (z.mention n).leading = (x.mention m).leading
  trailing_eq : (z.mention n).trailing = (x.mention m).trailing
  roleName_eq : (z.mention n).roleName = (x.mention m).roleName
  literal_eq : (z.mention n).literal = (x.mention m).literal
  playerByRoleName_eq : (z.mention n).playerByRoleName = (x.mention m).playerByRoleName
  player : ∃ t ∈ x.vocabulary.objectTypeIds, ∃ u ∈ z.vocabulary.objectTypeIds,
    (x.mention m).player = some t ∧ (z.mention n).player = some u ∧
      z.vocabulary.nameOf u = x.vocabulary.nameOf t

namespace Resembles

variable (h : x.Resembles z m n)

include h

/-- Resemblance goes both ways. -/
lemma symm : z.Resembles x n m where
  term_eq := h.term_eq.symm
  leading_eq := h.leading_eq.symm
  trailing_eq := h.trailing_eq.symm
  roleName_eq := h.roleName_eq.symm
  literal_eq := h.literal_eq.symm
  playerByRoleName_eq := h.playerByRoleName_eq.symm
  player := by
    obtain ⟨t, ht, u, hu, hplayer, hplayer', hname⟩ := h.player
    exact ⟨u, hu, t, ht, hplayer', hplayer, hname.symm⟩

/-- Resemblance goes on. -/
lemma trans (h' : z.Resembles y n k) : x.Resembles y m k where
  term_eq := h'.term_eq.trans h.term_eq
  leading_eq := h'.leading_eq.trans h.leading_eq
  trailing_eq := h'.trailing_eq.trans h.trailing_eq
  roleName_eq := h'.roleName_eq.trans h.roleName_eq
  literal_eq := h'.literal_eq.trans h.literal_eq
  playerByRoleName_eq := h'.playerByRoleName_eq.trans h.playerByRoleName_eq
  player := by
    obtain ⟨t, ht, u, hu, hplayer, hplayer', hname⟩ := h.player
    obtain ⟨u', -, w, hw, heq, hplayer'', hname'⟩ := h'.player
    rw [hplayer'] at heq
    cases heq
    exact ⟨t, ht, w, hw, hplayer, hplayer'', hname'.trans hname⟩

/-- Mentions that are alike have one key. -/
theorem bindingKey_eq : z.bindingKey n = x.bindingKey m := by
  obtain ⟨t, -, u, -, hplayer, hplayer', hname⟩ := h.player
  unfold bindingKey
  dsimp only
  rw [h.playerByRoleName_eq, h.roleName_eq, h.literal_eq, h.term_eq, h.leading_eq, h.trailing_eq,
    hplayer, hplayer']
  cases (x.mention m).playerByRoleName <;> cases (x.mention m).roleName <;> simp only [hname]

/-- Mentions that resemble each other are described alike. -/
lemma describeMention_eq : z.describeMention n = x.describeMention m := by
  unfold describeMention
  dsimp only
  rw [h.leading_eq, h.term_eq, h.trailing_eq, h.roleName_eq, h.literal_eq]

/-- A player that was there before both vocabularies grew is the same one. -/
lemma player_iff {v : Vocabulary} (hx : v.Grows x.vocabulary) (hxw : x.vocabulary.WellFormed)
    (hz : v.Grows z.vocabulary) (hzw : z.vocabulary.WellFormed) {t : ObjectTypeId}
    (ht : t ∈ v.objectTypeIds) :
    (z.mention n).player = some t ↔ (x.mention m).player = some t := by
  obtain ⟨s, hs, u, hu, hplayer, hplayer', hname⟩ := h.player
  have hsame : z.vocabulary.nameOf t = x.vocabulary.nameOf t := by
    rw [hz.nameOf_eq ht, hx.nameOf_eq ht]
  rw [hplayer, hplayer', Option.some.injEq, Option.some.injEq]
  constructor
  · rintro rfl
    exact hxw.nameOf_injective hs (hx.mem_objectTypeIds ht) (hname.symm.trans hsame)
  · rintro rfl
    exact hzw.nameOf_injective hu (hz.mem_objectTypeIds ht) (hname.trans hsame.symm)

/-- Over a vocabulary that both have grown from a walk takes one for the other. -/
lemma looksLike {v : Vocabulary} (hx : v.Grows x.vocabulary) (hxw : x.vocabulary.WellFormed)
    (hz : v.Grows z.vocabulary) (hzw : z.vocabulary.WellFormed) :
    (x.onto v).LooksLike (z.onto v) m n :=
  ⟨fun _ ht => h.player_iff hx hxw hz hzw ht, h.leading_eq, h.trailing_eq⟩

end Resembles

/-! ## Sharing a binding -/

/-- A bound mention shares its binding just in case another bound mention has its key. -/
theorem Bound.one_lt_shareCount_iff (h : x.Bound) (hm : (x.mention m).binding.isSome) :
    1 < x.shareCount m ↔
      ∃ n ≠ m, (x.mention n).binding.isSome ∧ x.bindingKey n = x.bindingKey m := by
  obtain ⟨b, hb⟩ := Option.isSome_iff_exists.1 hm
  obtain ⟨B, hB, hmem⟩ := (h.binding_iff m b).1 hb
  have hcount : x.shareCount m = B.mentions.length := by
    rw [shareCount, hb, Option.bind_some, hB]
    rfl
  have hiff : ∀ n, n ∈ B.mentions ↔
      (x.mention n).binding.isSome ∧ x.bindingKey n = x.bindingKey m := by
    intro n
    constructor
    · intro hn
      have hn' := (h.binding_iff n b).2 ⟨B, hB, hn⟩
      exact ⟨hn' ▸ rfl, (h.bindingKey_eq hB hn).trans (h.bindingKey_eq hB hmem).symm⟩
    · rintro ⟨hn, hkey⟩
      have hn' := ((h.binding_eq_iff hn hm).2 hkey).trans hb
      obtain ⟨B', hB', hmem'⟩ := (h.binding_iff n b).1 hn'
      rw [hB] at hB'
      cases hB'
      exact hmem'
  rw [hcount]
  constructor
  · intro hlength
    by_contra hnone
    have hsubset : ∀ n ∈ B.mentions, n ∈ [m] := fun n hn =>
      List.mem_singleton.2 (by_contra fun hne => hnone ⟨n, hne, (hiff n).1 hn⟩)
    exact Nat.not_le.2 hlength (List.Nodup.length_le_of_subset (h.mentions_nodup hB) hsubset)
  · rintro ⟨n, hne, hn⟩
    have hsub : [m, n] ⊆ B.mentions := by
      intro k hk
      rcases List.mem_pair.1 hk with rfl | rfl
      · exact hmem
      · exact (hiff k).2 hn
    have hnodup : [m, n].Nodup := by simp [hne.symm]
    exact hnodup.length_le_of_subset hsub

/-- The context in which every binding has its mentions twice, so that all of these may keep
adjectives. -/
def lenient (x : Context) : Context :=
  { x with
    bindings :=
      x.bindings.map (Option.map fun B => { B with mentions := B.mentions ++ B.mentions }) }

/-- In the lenient context every bound mention shares its binding. -/
lemma one_lt_shareCount_lenient (h : x.Bound) (hm : (x.mention m).binding.isSome) :
    1 < x.lenient.shareCount m := by
  obtain ⟨b, hb⟩ := Option.isSome_iff_exists.1 hm
  obtain ⟨B, hB, hmem⟩ := (h.binding_iff m b).1 hb
  have hB' : x.lenient.binding? b = some { B with mentions := B.mentions ++ B.mentions } := by
    unfold binding? at hB ⊢
    unfold lenient
    dsimp only
    rw [Array.getElem?_map]
    cases hget : x.bindings[b.index]? with
    | none =>
      rw [hget] at hB
      cases hB
    | some o =>
      rw [hget] at hB
      obtain rfl : o = some B := hB
      rfl
  have hcount : x.lenient.shareCount m = (B.mentions ++ B.mentions).length := by
    have hmention : x.lenient.mention m = x.mention m := rfl
    rw [shareCount, hmention, hb, Option.bind_some, hB']
    rfl
  have hpos := List.length_pos_of_mem hmem
  rw [hcount, List.length_append]
  omega

/-! ## Standing for one individual -/

/-- Every binding has the role name and the literal of its key, and the player of its mentions. -/
structure Speaks (x : Context) : Prop where
  roleName_eq : ∀ {b B}, x.binding? b = some B → B.roleName = B.key.roleName?
  literal_eq : ∀ {b B}, x.binding? b = some B → B.literal = B.key.literal?
  player_eq : ∀ {b B m}, x.binding? b = some B → m ∈ B.mentions →
    (x.mention m).player = some B.player

/-- Whether adjectives tell a binding from others can be read off its key. -/
lemma Speaks.isUnmarked_eq (h : x.Speaks) {b : BindingId} {B : Binding}
    (hB : x.binding? b = some B) :
    B.isUnmarked = B.key.isUnmarked := by
  rw [Binding.isUnmarked, h.roleName_eq hB, h.literal_eq hB]
  rfl

/-- Two bound mentions have merged bindings: only adjectives tell these from others, no other
mention of their player has a key with no more than adjectives that is not the key of either, and
one of them is the only one of its key. -/
structure Paired (x : Context) (m n : MentionId) : Prop where
  ne : x.bindingKey m ≠ x.bindingKey n
  left : (x.bindingKey m).isUnmarked = true
  right : (x.bindingKey n).isUnmarked = true
  player_eq : (x.mention m).player = (x.mention n).player
  only : ∀ k, (x.mention k).binding.isSome → (x.bindingKey k).isUnmarked = true →
    (x.mention k).player = (x.mention m).player →
      x.bindingKey k = x.bindingKey m ∨ x.bindingKey k = x.bindingKey n
  loose : ¬1 < x.shareCount m ∨ ¬1 < x.shareCount n

/-- A list in which two items are, each once, and no others. -/
lemma eq_pair_of_mem_iff {α : Type} {as : List α} {b c : α} (hnodup : as.Nodup) (hne : b ≠ c)
    (h : ∀ a, a ∈ as ↔ a = b ∨ a = c) : as = [b, c] ∨ as = [c, b] := by
  have hperm : as.Perm [b, c] := (List.perm_ext_iff_of_nodup hnodup (by simp [hne])).2 fun a => by
    rw [h, List.mem_pair]
  obtain ⟨d, e, rfl⟩ := List.length_eq_two.1 hperm.length_eq
  have hd := (h d).1 List.mem_cons_self
  have he := (h e).1 (List.mem_cons_of_mem _ List.mem_cons_self)
  have hde : d ≠ e := by simpa using hnodup
  grind

section Merging

variable (h : x.Bound) (hspeaks : x.Speaks)

include h hspeaks

/-- The binding of a mention. -/
lemma exists_binding (hm : (x.mention m).binding.isSome) :
    ∃ b B, (x.mention m).binding = some b ∧ x.binding? b = some B ∧ B.key = x.bindingKey m ∧
      (x.mention m).player = some B.player ∧ B.isUnmarked = (x.bindingKey m).isUnmarked ∧
      (x.isLoose b = true ↔ B.isUnmarked = true ∧ ¬1 < x.shareCount m) := by
  obtain ⟨b, hb⟩ := Option.isSome_iff_exists.1 hm
  obtain ⟨B, hB, hmem⟩ := (h.binding_iff m b).1 hb
  have hkey := h.bindingKey_eq hB hmem
  have hunmarked : B.isUnmarked = (x.bindingKey m).isUnmarked := by
    rw [hspeaks.isUnmarked_eq hB, hkey]
  refine ⟨b, B, hb, hB, hkey.symm, hspeaks.player_eq hB hmem, hunmarked, ?_⟩
  have hpos := List.length_pos_of_mem hmem
  rw [isLoose, hB, shareCount, hb, Option.bind_some, hB]
  simp only [Option.any_some, Bool.and_eq_true, beq_iff_eq, Option.map_some, Option.getD_some]
  constructor
  · rintro ⟨hlength, hunmarked⟩
    exact ⟨hunmarked, by omega⟩
  · rintro ⟨hunmarked, hlength⟩
    exact ⟨by omega, hunmarked⟩

omit hspeaks in
/-- Of the bindings that only adjectives tell from others, those of one player. -/
lemma mem_unmarkedBindings_of_binding {d : BindingId} {D : Binding} (hD : x.binding? d = some D)
    {player : ObjectTypeId} :
    d ∈ x.unmarkedBindings player ↔ D.isUnmarked = true ∧ D.player = player := by
  rw [h.mem_unmarkedBindings, hD]
  simp

/-- Mentions of which the bindings are merged are paired. -/
lemma paired_of_mergesMentions (hm : (x.mention m).binding.isSome)
    (hn : (x.mention n).binding.isSome)
    (hmerges : x.MergesMentions m n) : x.Paired m n := by
  obtain ⟨b, B, hb, hB, -, hbplayer, hbunmarked, hbloose⟩ := exists_binding h hspeaks hm
  obtain ⟨c, C, hc, hC, -, hcplayer, hcunmarked, hcloose⟩ := exists_binding h hspeaks hn
  rw [MergesMentions, hb, hc] at hmerges
  obtain ⟨⟨player, hpair⟩, hloose⟩ : x.Merges b c := by simpa using hmerges
  have hgroup : ∀ d, d ∈ x.unmarkedBindings player ↔ d = b ∨ d = c := by
    intro d
    rcases hpair with hpair | hpair <;> simp [hpair, or_comm]
  have hbc : b ≠ c := by
    have hpairwise := h.unmarkedBindings_pairwise player
    rintro rfl
    rcases hpair with hpair | hpair <;> simp [hpair] at hpairwise
  obtain ⟨hB', rfl⟩ := (mem_unmarkedBindings_of_binding h hB).1 ((hgroup b).2 (.inl rfl))
  obtain ⟨hC', hplayer⟩ := (mem_unmarkedBindings_of_binding h hC).1 ((hgroup c).2 (.inr rfl))
  refine ⟨fun hkey => hbc ?_, hbunmarked ▸ hB', hcunmarked ▸ hC', ?_, ?_, ?_⟩
  · exact Option.some.inj (hb.symm.trans (((h.binding_eq_iff hm hn).2 hkey).trans hc))
  · rw [hbplayer, hcplayer, hplayer]
  · intro k hk hkunmarked hkplayer
    obtain ⟨d, D, hd, hD, -, hdplayer, hdunmarked, -⟩ := exists_binding h hspeaks hk
    rw [hbplayer, hdplayer, Option.some.injEq] at hkplayer
    have hmem := (mem_unmarkedBindings_of_binding h hD).2 ⟨hdunmarked.trans hkunmarked, hkplayer⟩
    rcases (hgroup d).1 hmem with rfl | rfl
    · exact .inl ((h.binding_eq_iff hk hm).1 (hd.trans hb.symm))
    · exact .inr ((h.binding_eq_iff hk hn).1 (hd.trans hc.symm))
  · exact hloose.imp (fun hb' => (hbloose.1 hb').2) fun hc' => (hcloose.1 hc').2

/-- The bindings of paired mentions are all of their player that only adjectives tell from
others. -/
lemma Paired.mem_unmarkedBindings (hpaired : x.Paired m n) {b c : BindingId} {B C : Binding}
    (hb : (x.mention m).binding = some b) (hB : x.binding? b = some B)
    (hbplayer : (x.mention m).player = some B.player) (hB' : B.isUnmarked = true)
    (hc : (x.mention n).binding = some c) (hC : x.binding? c = some C) (hC' : C.isUnmarked = true)
    (hplayer : C.player = B.player) (d : BindingId) :
    d ∈ x.unmarkedBindings B.player ↔ d = b ∨ d = c := by
  constructor
  · intro hd
    obtain ⟨D, hD, hdunmarked, hdplayer⟩ := h.mem_unmarkedBindings.1 hd
    obtain ⟨k, hk⟩ := List.exists_mem_of_ne_nil _ (h.mentions_ne_nil hD)
    have hkbinding := (h.binding_iff k d).2 ⟨D, hD, hk⟩
    have hbound : ∀ {l e}, (x.mention l).binding = some e → (x.mention l).binding.isSome :=
      fun hl => hl ▸ rfl
    have hkplayer : (x.mention k).player = (x.mention m).player := by
      rw [hspeaks.player_eq hD hk, hbplayer, hdplayer]
    have hkunmarked : (x.bindingKey k).isUnmarked = true := by
      rw [h.bindingKey_eq hD hk, ← hspeaks.isUnmarked_eq hD]
      exact hdunmarked
    have hsame : ∀ {l e}, (x.mention l).binding = some e → x.bindingKey k = x.bindingKey l →
      d = e := by
      intro l e hl hkey
      have heq := (h.binding_eq_iff (hbound hkbinding) (hbound hl)).2 hkey
      exact Option.some.inj (hkbinding.symm.trans (heq.trans hl))
    exact (hpaired.only k (hbound hkbinding) hkunmarked hkplayer).imp (hsame hb) (hsame hc)
  · rintro (rfl | rfl)
    · exact (mem_unmarkedBindings_of_binding h hB).2 ⟨hB', rfl⟩
    · exact (mem_unmarkedBindings_of_binding h hC).2 ⟨hC', hplayer⟩

/-- The bindings of paired mentions are merged. -/
lemma mergesMentions_of_paired (hm : (x.mention m).binding.isSome)
    (hn : (x.mention n).binding.isSome)
    (hpaired : x.Paired m n) : x.MergesMentions m n := by
  obtain ⟨b, B, hb, hB, -, hbplayer, hbunmarked, hbloose⟩ := exists_binding h hspeaks hm
  obtain ⟨c, C, hc, hC, -, hcplayer, hcunmarked, hcloose⟩ := exists_binding h hspeaks hn
  have hB' := hbunmarked.trans hpaired.left
  have hC' := hcunmarked.trans hpaired.right
  have hplayer : C.player = B.player :=
    Option.some.inj (hcplayer.symm.trans (hpaired.player_eq.symm.trans hbplayer))
  have hbc : b ≠ c := fun heq => hpaired.ne ((h.binding_eq_iff hm hn).1 (by rw [hb, hc, heq]))
  have hnodup : (x.unmarkedBindings B.player).Nodup :=
    (h.unmarkedBindings_pairwise B.player).imp fun hlt heq => by
      rw [heq] at hlt
      exact Nat.lt_irrefl _ hlt
  have hgroup := hpaired.mem_unmarkedBindings h hspeaks hb hB hbplayer hB' hc hC hC' hplayer
  have hmerges : x.Merges b c := by
    refine ⟨⟨B.player, eq_pair_of_mem_iff hnodup hbc hgroup⟩, ?_⟩
    exact hpaired.loose.imp (fun hm' => hbloose.2 ⟨hB', hm'⟩) fun hn' => hcloose.2 ⟨hC', hn'⟩
  rw [MergesMentions, hb, hc]
  simpa using hmerges

/-- **Merging by keys.** The bindings of two mentions are merged just in case the mentions are
paired. -/
theorem mergesMentions_iff (hm : (x.mention m).binding.isSome) (hn : (x.mention n).binding.isSome) :
    x.MergesMentions m n ↔ x.Paired m n :=
  ⟨paired_of_mergesMentions h hspeaks hm hn, mergesMentions_of_paired h hspeaks hm hn⟩

end Merging

/-! ## The same places -/

/-- The bound mentions of two contexts are alike, one for one. -/
structure SamePlaces (f g : MentionId → MentionId) (x z : Context) : Prop where
  isBound : ∀ {m}, (x.mention m).binding.isSome → (z.mention (f m)).binding.isSome
  exists_isBound : ∀ {n}, (z.mention n).binding.isSome → ∃ m, (x.mention m).binding.isSome ∧ f m = n
  back : ∀ {m}, (x.mention m).binding.isSome → g (f m) = m
  alike : ∀ {m}, (x.mention m).binding.isSome → x.Resembles z m (f m)

namespace SamePlaces

variable {f g : MentionId → MentionId} (h : SamePlaces f g x z)

include h

/-- Being alike one for one goes both ways. -/
lemma symm : SamePlaces g f z x where
  isBound hn := by
    obtain ⟨m, hm, rfl⟩ := h.exists_isBound hn
    rwa [h.back hm]
  exists_isBound hm := ⟨_, h.isBound hm, h.back hm⟩
  back hn := by
    obtain ⟨m, hm, rfl⟩ := h.exists_isBound hn
    rw [h.back hm]
  alike hn := by
    obtain ⟨m, hm, rfl⟩ := h.exists_isBound hn
    rw [h.back hm]
    exact (h.alike hm).symm

/-- A mention that shares its binding does so in the other context. -/
lemma one_lt_shareCount (hx : x.Bound) (hz : z.Bound) (hm : (x.mention m).binding.isSome)
    (hlt : 1 < x.shareCount m) : 1 < z.shareCount (f m) := by
  obtain ⟨n, hne, hn, hkey⟩ := (hx.one_lt_shareCount_iff hm).1 hlt
  refine (hz.one_lt_shareCount_iff (h.isBound hm)).2 ⟨f n, fun heq => hne ?_, h.isBound hn, ?_⟩
  · rw [← h.back hn, heq, h.back hm]
  · rw [(h.alike hn).bindingKey_eq, (h.alike hm).bindingKey_eq, hkey]

/-- Mentions share their bindings if those that they are alike do. -/
lemma one_lt_shareCount_iff (hx : x.Bound) (hz : z.Bound) (hm : (x.mention m).binding.isSome) :
    1 < z.shareCount (f m) ↔ 1 < x.shareCount m := by
  refine ⟨fun hlt => ?_, h.one_lt_shareCount hx hz hm⟩
  rw [← h.back hm]
  exact h.symm.one_lt_shareCount hz hx (h.isBound hm) hlt

/-- Mentions of one player are of one player in the other context. -/
lemma player_eq (hz : z.vocabulary.WellFormed) (hm : (x.mention m).binding.isSome)
    (hn : (x.mention n).binding.isSome) (heq : (x.mention m).player = (x.mention n).player) :
    (z.mention (f m)).player = (z.mention (f n)).player := by
  obtain ⟨t, -, u, hu, hplayer, hplayer', hname⟩ := (h.alike hm).player
  obtain ⟨s, -, w, hw, hplayer₂, hplayer₂', hname₂⟩ := (h.alike hn).player
  rw [hplayer, hplayer₂, Option.some.injEq] at heq
  subst heq
  rw [hplayer', hplayer₂', hz.nameOf_injective hu hw (hname.trans hname₂.symm)]

/-- Mentions whose bindings are merged are so in the other context. -/
lemma paired (hx : x.Bound) (hz : z.Bound) (hxw : x.vocabulary.WellFormed)
    (hzw : z.vocabulary.WellFormed) (hm : (x.mention m).binding.isSome)
    (hn : (x.mention n).binding.isSome) (hpaired : x.Paired m n) : z.Paired (f m) (f n) := by
  have hmkey := (h.alike hm).bindingKey_eq
  have hnkey := (h.alike hn).bindingKey_eq
  refine ⟨?_, ?_, ?_, h.player_eq hzw hm hn hpaired.player_eq, ?_, ?_⟩
  · rw [hmkey, hnkey]
    exact hpaired.ne
  · rw [hmkey]
    exact hpaired.left
  · rw [hnkey]
    exact hpaired.right
  · intro k hk hunmarked hplayer
    obtain ⟨k, hkx, rfl⟩ := h.exists_isBound hk
    have hkkey := (h.alike hkx).bindingKey_eq
    have hplayer' := h.symm.player_eq hxw hk (h.isBound hm) hplayer
    rw [h.back hkx, h.back hm] at hplayer'
    rw [hkkey] at hunmarked ⊢
    rw [hmkey, hnkey]
    exact hpaired.only k hkx hunmarked hplayer'
  · rw [h.one_lt_shareCount_iff hx hz hm, h.one_lt_shareCount_iff hx hz hn]
    exact hpaired.loose

/-- **Who stands for one individual does not depend on places.** After merging, one binding stands
for two mentions just in case one stands for those that they are alike.

**Proof sketch.** Two mentions share a binding if their keys are equal. Their bindings are merged if
they are the only ones of their player that only adjectives tell apart, and one of them has one
mention: that also is said of keys and players. -/
theorem effectiveBinding?_eq_iff (hx : x.Bound) (hz : z.Bound) (hxw : x.vocabulary.WellFormed)
    (hzw : z.vocabulary.WellFormed) (hxu : x.Unmerged) (hzu : z.Unmerged) (hxs : x.Speaks)
    (hzs : z.Speaks) (hm : (x.mention m).binding.isSome) (hn : (x.mention n).binding.isSome) :
    z.mergeLoose.effectiveBinding? (f m) = z.mergeLoose.effectiveBinding? (f n) ↔
      x.mergeLoose.effectiveBinding? m = x.mergeLoose.effectiveBinding? n := by
  have hm' := h.isBound hm
  have hn' := h.isBound hn
  have hpaired : z.Paired (f m) (f n) ↔ x.Paired m n := by
    refine ⟨fun hpaired => ?_, h.paired hx hz hxw hzw hm hn⟩
    have hback := h.symm.paired hz hx hzw hxw hm' hn' hpaired
    rwa [h.back hm, h.back hn] at hback
  rw [effectiveBinding?_mergeLoose_eq_iff hz.toTied hzu hm' hn',
    effectiveBinding?_mergeLoose_eq_iff hx.toTied hxu hm hn, mergesMentions_iff hz hzs hm' hn',
    mergesMentions_iff hx hxs hm hn, (h.alike hm).bindingKey_eq, (h.alike hn).bindingKey_eq,
    hpaired]

end SamePlaces

end Context

end FactModel
