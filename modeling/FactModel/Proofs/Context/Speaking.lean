import FactModel.Proofs.Context.Likeness
import FactModel.Proofs.Matching.Changing
import FactModel.Proofs.Matching.Operations
import FactModel.Proofs.Session.Entering
set_option autoImplicit false

/-!
# Bindings that speak for their mentions

A binding has the player of the mention that it was made for. Others come to share it because of
their keys, in which players are named, but not told: that they have the same player is a matter of
how players have been found. Where it holds of all keys without adjectives, it stays so while
clauses are matched, which changes adjectives only.

## Main definitions

* `FactModel.BindingKey.bare` — a key without adjectives.
* `FactModel.Context.KeysAgree` — mentions whose keys differ by adjectives at most have the same
  player.
* `FactModel.Context.Matchable` — a bound context where bindings speak for their mentions and keys
  agree.

## Main results

* `FactModel.Context.speaks_of_bindEach` — mentions that are bound where keys agree have the players
  of their bindings.
* `FactModel.Context.Matchable.exists_applyAlignment` — clauses of bound mentions can be put into
  the words of a reading, and bindings go on to speak for their mentions.
-/

namespace FactModel

open Attempt Compile

/-- A key without adjectives. -/
def BindingKey.bare : BindingKey → BindingKey
  | role term roleName literal => role term roleName literal
  | adjectival _ term _ literal => adjectival none term none literal

namespace Context

variable {x y z : Context} {m n : MentionId}

/-! ## Keys that agree -/

/-- Mentions whose keys differ by adjectives at most have the same player. -/
def KeysAgree (x : Context) : Prop :=
  ∀ m n, ∀ t ∈ (x.mention m).player, ∀ u ∈ (x.mention n).player,
    (x.bindingKey m).bare = (x.bindingKey n).bare → t = u

/-- Where all mentions have the players and, adjectives apart, the keys that they had, keys agree as
they did. -/
lemma KeysAgree.of_same (h : x.KeysAgree)
    (hplayer : ∀ m, (y.mention m).player = (x.mention m).player)
    (hkey : ∀ m, (y.bindingKey m).bare = (x.bindingKey m).bare) : y.KeysAgree := by
  intro m n t ht u hu heq
  rw [hplayer] at ht hu
  rw [hkey, hkey] at heq
  exact h m n t ht u hu heq

/-- Keys agree where all mentions that have players are alike mentions whose keys agree. -/
lemma KeysAgree.of_alike (h : x.KeysAgree) (hz : z.vocabulary.WellFormed)
    (halike : ∀ n, (z.mention n).player.isSome → ∃ m, x.Resembles z m n) : z.KeysAgree := by
  intro m n t ht u hu heq
  obtain ⟨m', hm⟩ := halike m (ht ▸ rfl)
  obtain ⟨n', hn⟩ := halike n (hu ▸ rfl)
  obtain ⟨t', -, t'', ht'', hplayer, hplayer', hname⟩ := hm.player
  obtain ⟨u', -, u'', hu'', hplayer₂, hplayer₂', hname₂⟩ := hn.player
  rw [hm.bindingKey_eq, hn.bindingKey_eq] at heq
  obtain rfl := h m' n' t' hplayer u' hplayer₂ heq
  obtain rfl : t'' = t := Option.some.inj (hplayer'.symm.trans ht)
  obtain rfl : u'' = u := Option.some.inj (hplayer₂'.symm.trans hu)
  exact hz.nameOf_injective ht'' hu'' (hname.trans hname₂.symm)

/-- The key of a mention, adjectives apart, is made of what matching does not change. -/
lemma bare_bindingKey_congr (hv : y.vocabulary = x.vocabulary)
    (hterm : (y.mention n).term = (x.mention m).term)
    (hroleName : (y.mention n).roleName = (x.mention m).roleName)
    (hliteral : (y.mention n).literal = (x.mention m).literal)
    (hplayer : (y.mention n).player = (x.mention m).player)
    (hflag : (y.mention n).playerByRoleName = (x.mention m).playerByRoleName) :
    (y.bindingKey n).bare = (x.bindingKey m).bare := by
  unfold bindingKey
  dsimp only
  rw [hv, hterm, hroleName, hliteral, hplayer, hflag]
  rcases (x.mention m).playerByRoleName with _ | _ <;> rcases (x.mention m).player with _ | _ <;>
    rcases (x.mention m).roleName with _ | _ <;> rfl

/-! ## Bindings -/

/-- Bindings speak for their mentions where they have been made smaller at most. -/
lemma Speaks.of_smaller (h : x.Speaks) (hplayer : ∀ m, (y.mention m).player = (x.mention m).player)
    (hbinding : ∀ {b B}, y.binding? b = some B → ∃ A mentions, x.binding? b = some A ∧
      B = { A with mentions } ∧ mentions ⊆ A.mentions) : y.Speaks where
  roleName_eq hB := by
    obtain ⟨A, ms, hA, rfl, -⟩ := hbinding hB
    exact (h.roleName_eq hA :)
  literal_eq hB := by
    obtain ⟨A, ms, hA, rfl, -⟩ := hbinding hB
    exact (h.literal_eq hA :)
  player_eq hB hm := by
    obtain ⟨A, ms, hA, rfl, hsub⟩ := hbinding hB
    rw [hplayer]
    exact (h.player_eq hA (hsub hm) :)

/-- A context in which nothing is bound has no bindings to speak for mentions. -/
lemma speaks_of_unbound (h : ∀ b, x.binding? b = none) : x.Speaks where
  roleName_eq hB := by simp [h] at hB
  literal_eq hB := by simp [h] at hB
  player_eq hB := by simp [h] at hB

/-- Bindings still speak for their mentions after a change that keeps players. -/
lemma Speaks.modifyMention (h : x.Speaks) (m : MentionId) {change : Mention → Mention}
    (hchange : ∀ mention, (change mention).player = mention.player) :
    (x.modifyMention m change).Speaks :=
  h.of_smaller (mention_modifyMention_apply (·.player) m hchange) fun {_ B} hB =>
    ⟨B, B.mentions, hB, rfl, List.Subset.refl _⟩

/-- What is left of the bindings when a mention is taken out of its own. -/
lemma binding?_unbind {b : BindingId} {B : Binding} (hB : (x.unbind m).binding? b = some B) :
    ∃ A mentions, x.binding? b = some A ∧ B = { A with mentions } ∧ mentions ⊆ A.mentions := by
  have hsame : ∀ {B}, x.binding? b = some B → ∃ A mentions, x.binding? b = some A ∧
      B = { A with mentions } ∧ mentions ⊆ A.mentions := fun {B} hB =>
    ⟨B, B.mentions, hB, rfl, List.Subset.refl _⟩
  unfold unbind at hB
  split at hB
  · exact hsame hB
  next c hc =>
  unfold strike at hB
  split at hB
  · exact hsame hB
  next C hC =>
  dsimp only at hB
  split at hB
  · rw [binding?_dropBinding] at hB
    split at hB
    · cases hB
    · exact hsame hB
  · rw [binding?_modifyBinding] at hB
    split at hB
    · next heq =>
      subst heq
      obtain ⟨A, hA, rfl⟩ := Option.map_eq_some_iff.1 hB
      obtain rfl : A = C := Option.some.inj (hA.symm.trans hC)
      exact ⟨A, _, hA, rfl, List.filter_subset_self _⟩
    · exact hsame hB

/-- Bindings still speak for their mentions after one has been taken out. -/
lemma Speaks.unbind (h : x.Speaks) (m : MentionId) : (x.unbind m).Speaks :=
  h.of_smaller (fun n => by
    rw [mention_unbind]
    split
    · next hn => rw [hn]
    · rfl) binding?_unbind

/-- A mention may be added to a binding of its player. -/
lemma Speaks.enlist (h : x.Speaks) {b : BindingId} {B : Binding} (hB : x.binding? b = some B)
    (hplayer : (x.mention m).player = some B.player) : (x.enlist m b).Speaks := by
  have hmention : ∀ n, ((x.enlist m b).mention n).player = (x.mention n).player :=
    mention_modifyMention_apply (·.player) m fun _ => rfl
  have henlisted : ∀ {c C}, (x.enlist m b).binding? c = some C → ∃ A mentions,
      x.binding? c = some A ∧ C = { A with mentions } ∧
        ∀ n ∈ mentions, n ∈ A.mentions ∨ n = m ∧ c = b := by
    intro c C hC
    rw [binding?_enlist] at hC
    obtain ⟨A, hA, rfl⟩ := Option.map_eq_some_iff.1 hC
    unfold enlisted
    split
    · next hcb =>
      refine ⟨A, _, hA, rfl, fun n hn => ?_⟩
      exact (List.mem_append.1 hn).imp_right fun hn => ⟨List.mem_singleton.1 hn, hcb.1⟩
    · exact ⟨A, A.mentions, hA, rfl, fun n => .inl⟩
  constructor
  · intro c C hC
    obtain ⟨A, ms, hA, rfl, -⟩ := henlisted hC
    exact (h.roleName_eq hA :)
  · intro c C hC
    obtain ⟨A, ms, hA, rfl, -⟩ := henlisted hC
    exact (h.literal_eq hA :)
  · intro c C n hC hn
    obtain ⟨A, ms, hA, rfl, hmem⟩ := henlisted hC
    rw [hmention]
    rcases hmem n hn with hn | ⟨rfl, rfl⟩
    · exact (h.player_eq hA hn :)
    · obtain rfl : A = B := Option.some.inj (hA.symm.trans hB)
      exact hplayer

/-- A new binding has the role name and the literal of its key, and no mentions. -/
lemma Speaks.pushBinding (h : x.Speaks) (key : BindingKey) (player : ObjectTypeId)
    {literal : Option Literal} (hliteral : literal = key.literal?) :
    (x.pushBinding key player literal).Speaks where
  roleName_eq {c C} hC := by
    rw [binding?_pushBinding] at hC
    split at hC
    · cases hC
      rfl
    · exact h.roleName_eq hC
  literal_eq {c C} hC := by
    rw [binding?_pushBinding] at hC
    split at hC
    · cases hC
      exact hliteral
    · exact h.literal_eq hC
  player_eq {c C n} hC hn := by
    rw [binding?_pushBinding] at hC
    split at hC
    · cases hC
      exact absurd hn List.not_mem_nil
    · exact h.player_eq hC hn

/-- The literal in the key of a mention is that of the mention. -/
lemma literal?_bindingKey (x : Context) (m : MentionId) :
    (x.bindingKey m).literal? = (x.mention m).literal := by
  unfold bindingKey
  dsimp only
  rcases (x.mention m).playerByRoleName with _ | _ <;> rcases (x.mention m).player with _ | _ <;>
    rcases (x.mention m).roleName with _ | _ <;> rfl

/-- Where keys agree, a mention comes to share a binding of its player. -/
theorem Speaks.bindAs (h : x.Speaks) (hx : x.Bound) (hkeys : x.KeysAgree) {player : ObjectTypeId}
    (hplayer : (x.mention m).player = some player) : (x.bindAs m player).2.Speaks := by
  unfold Context.bindAs
  split
  · next b hb =>
    obtain ⟨B, hB, hkey⟩ := (hx.bindingOf?_iff _ b).1 hb
    obtain ⟨n, hn⟩ := List.exists_mem_of_ne_nil _ (hx.mentions_ne_nil hB)
    have hsame : (x.bindingKey n).bare = (x.bindingKey m).bare := by
      rw [hx.bindingKey_eq hB hn, hkey]
    have hagree := hkeys n m _ (h.player_eq hB hn) player hplayer hsame
    exact h.enlist hB (hplayer.trans (congrArg some hagree.symm))
  · refine (h.pushBinding _ player (literal?_bindingKey x m).symm).enlist
      ((binding?_pushBinding ..).trans (if_pos rfl)) hplayer

/-- Binding mentions keeps keys as they agree. -/
lemma KeysAgree.bindAs (h : x.KeysAgree) (m : MentionId) (player : ObjectTypeId) :
    (x.bindAs m player).2.KeysAgree := by
  have hfield : ∀ {α : Type} (field : Mention → α),
      (∀ mention binding, field { mention with binding } = field mention) →
      ∀ n, field ((x.bindAs m player).2.mention n) = field (x.mention n) := fun field hfield =>
    mention_bindAs_apply field hfield m player
  exact h.of_same (hfield (·.player) fun _ _ => rfl) fun n =>
    bare_bindingKey_congr (vocabulary_bindAs ..)
    (hfield (·.term) (fun _ _ => rfl) n) (hfield (·.roleName) (fun _ _ => rfl) n)
    (hfield (·.literal) (fun _ _ => rfl) n) (hfield (·.player) (fun _ _ => rfl) n)
    (hfield (·.playerByRoleName) (fun _ _ => rfl) n)

/-- **Bindings speak for their mentions.** Mentions that are bound one after the other where keys
agree have the players of their bindings. -/
theorem speaks_of_bindEach {ms : List MentionId} (hx : x.Bound) (hspeaks : x.Speaks)
    (hkeys : x.KeysAgree)
    {u : Unit} (h : (bindEach ms).perform x = (.ok u, y)) : y.Speaks ∧ y.KeysAgree := by
  induction ms generalizing x with
  | nil =>
    cases h
    exact ⟨hspeaks, hkeys⟩
  | cons m ms ih =>
    obtain ⟨b, z, hbind, hrest⟩ := perform_bind_eq_ok.1 h
    obtain ⟨player, hplayer, hbind⟩ := perform_bind_mention_eq_ok.1 hbind
    obtain rfl : (x.bindAs m player).2 = z := congrArg Prod.snd hbind
    exact ih (hx.bindAs (lt_of_player hplayer) player) (hspeaks.bindAs hx hkeys hplayer)
      (hkeys.bindAs m player) hrest

/-! ## Giving roles -/

/-- A context whose bound mentions can be matched: bindings speak for their mentions, and they will
go on to do so if adjectives change. -/
structure Matchable (x : Context) : Prop where
  bound : x.Bound
  speaks : x.Speaks
  keysAgree : x.KeysAgree

/-- A mention has taken a role. Nothing else has changed, but for bindings. -/
structure TakesRole (x : Context) (s : RoleSequenceId) (p : Placement) (y : Context) : Prop where
  vocabulary_eq : y.vocabulary = x.vocabulary
  mention_eq_of_ne : ∀ n ≠ p.mention, y.mention n = x.mention n
  mention_eq : ∃ binding, binding.isSome ∧
    y.mention p.mention = { (x.mention p.mention).take s p with binding }

/-- A mention that takes a role changes, and no other one does. -/
lemma mention_take {m : MentionId} {p : Placement} (hm : m.index < x.mentions.size)
    (s : RoleSequenceId)
    (n : MentionId) : (x.modifyMention m (·.take s p)).mention n =
      if n = m then (x.mention m).take s p else x.mention n := by
  rw [mention_modifyMention]
  simp only [hm, and_true]

/-- A mention that takes a role keeps that keys agree. -/
lemma KeysAgree.take (h : x.KeysAgree) (m : MentionId) (s : RoleSequenceId) (p : Placement) :
    (x.modifyMention m (·.take s p)).KeysAgree := by
  have hfield : ∀ {α : Type} (field : Mention → α),
    (∀ mention, field (mention.take s p) = field mention) →
      ∀ n, field ((x.modifyMention m (·.take s p)).mention n) = field (x.mention n) :=
        fun field hfield =>
    mention_modifyMention_apply field m hfield
  exact h.of_same (hfield (·.player) fun _ => rfl) fun n => bare_bindingKey_congr rfl
    (hfield (·.term) (fun _ => rfl) n) (hfield (·.roleName) (fun _ => rfl) n)
    (hfield (·.literal) (fun _ => rfl) n) (hfield (·.player) (fun _ => rfl) n)
    (hfield (·.playerByRoleName) (fun _ => rfl) n)

/-- Taking a mention out of its binding keeps that keys agree. -/
lemma KeysAgree.unbind (h : x.KeysAgree) (m : MentionId) : (x.unbind m).KeysAgree := by
  have hfield : ∀ {α : Type} (field : Mention → α),
      (∀ mention binding, field { mention with binding } = field mention) →
      ∀ n, field ((x.unbind m).mention n) = field (x.mention n) := by
    intro α field hfield n
    rw [mention_unbind]
    split
    · next hn => rw [hfield, hn]
    · rfl
  exact h.of_same (hfield (·.player) fun _ _ => rfl) fun n =>
    bare_bindingKey_congr (vocabulary_unbind ..)
    (hfield (·.term) (fun _ _ => rfl) n) (hfield (·.roleName) (fun _ _ => rfl) n)
    (hfield (·.literal) (fun _ _ => rfl) n) (hfield (·.player) (fun _ _ => rfl) n)
    (hfield (·.playerByRoleName) (fun _ _ => rfl) n)

/-- **Roles can be given.** A bound mention can be given the role of a placement. -/
theorem Matchable.exists_applyPlacement (h : x.Matchable) (s : RoleSequenceId) (p : Placement)
    (hm : (x.mention p.mention).binding.isSome) :
    ∃ y, (applyPlacement s p).perform x = (.ok ⟨⟩, y) ∧ x.TakesRole s p y ∧ y.Matchable := by
  obtain ⟨b, B, hb, -, -, hplayer, -, -⟩ := exists_binding h.bound h.speaks hm
  have hlt := lt_of_player hplayer
  let y := x.modifyMention p.mention (·.take s p)
  have hmention : ∀ n, y.mention n = if n = p.mention then (x.mention p.mention).take s p
      else x.mention n := mention_take hlt s
  have hspeaks : y.Speaks := h.speaks.modifyMention p.mention fun _ => rfl
  have hkeys : y.KeysAgree := h.keysAgree.take p.mention s p
  have hsuffices : ∀ {w : Context}, (applyPlacement s p).perform x = (.ok ⟨⟩, w) → w.Speaks →
    w.KeysAgree →
      w.Matchable := fun hw hspeaks hkeys =>
    ⟨((leads_applyPlacement_bound h.bound s p).of_perform hw).1, hspeaks, hkeys⟩
  by_cases hkey : y.bindingKey p.mention = x.bindingKey p.mention
  · have hperform : (applyPlacement s p).perform x = (.ok ⟨⟩, y) := by
      rw [applyPlacement, perform_get_bind]
      change (if y.bindingKey p.mention ≠ x.bindingKey p.mention
        then _ else _ : Compile Unit).perform y = _
      rw [if_neg (not_not_intro hkey)]
      rfl
    refine ⟨y, hperform, ⟨rfl, fun n hn => ?_, ⟨some b, rfl, ?_⟩⟩, hsuffices hperform hspeaks hkeys⟩
    · rw [hmention, if_neg hn]
    · rw [hmention, if_pos rfl, ← hb]
      rfl
  · have hplayer' : ((y.unbind p.mention).mention p.mention).player = some B.player := by
      rw [mention_unbind, if_pos rfl, hmention, if_pos rfl]
      exact hplayer
    have hlt' := lt_of_player hplayer'
    have hunbound : (y.unbind p.mention).Bound := h.bound.unbind_modifyMention p.mention _
      (fun _ _ => rfl) fun _ => rfl
    have hunkeys := hkeys.unbind p.mention
    let c := ((y.unbind p.mention).bindAs p.mention B.player).1
    let w := ((y.unbind p.mention).bindAs p.mention B.player).2
    have hperform : (applyPlacement s p).perform x = (.ok ⟨⟩, w) := by
      rw [applyPlacement, perform_get_bind]
      change (if y.bindingKey p.mention ≠ x.bindingKey p.mention
        then _ else _ : Compile Unit).perform y = _
      rw [if_pos hkey]
      refine perform_bind_eq_ok.2 ⟨c, w, ?_, rfl⟩
      exact perform_bind_eq_ok.2 ⟨⟨⟩, y.unbind p.mention, rfl,
        perform_bind_mention_eq_ok.2 ⟨B.player, hplayer', rfl⟩⟩
    have hw : ∀ n, w.mention n = if n = p.mention then
        { (x.mention p.mention).take s p with binding := some c } else x.mention n := by
      intro n
      rw [mention_bindAs hlt', mention_unbind, mention_unbind, if_pos rfl, hmention, if_pos rfl,
        hmention]
      split <;> rfl
    refine ⟨w, hperform, ⟨?_, fun n hn => ?_, ⟨some c, rfl, ?_⟩⟩, hsuffices hperform ?_ ?_⟩
    · rw [vocabulary_bindAs, vocabulary_unbind]
      rfl
    · rw [hw, if_neg hn]
    · rw [hw, if_pos rfl]
    · exact (hspeaks.unbind p.mention).bindAs hunbound hunkeys hplayer'
    · exact hunkeys.bindAs p.mention B.player

/-- Mentions have taken the roles of placements, each at most one. Nothing else has changed, but for
bindings. -/
structure TakesRoles (x : Context) (s : RoleSequenceId) (ps : List Placement)
    (y : Context) : Prop where
  vocabulary_eq : y.vocabulary = x.vocabulary
  mention_eq_of_not_mem : ∀ n ∉ ps.map (·.mention), y.mention n = x.mention n
  mention_eq : ∀ p ∈ ps, ∃ binding, binding.isSome ∧
    y.mention p.mention = { (x.mention p.mention).take s p with binding }

/-- Bound mentions can be given the roles of placements, one after the other. -/
lemma Matchable.exists_applyPlacements (h : x.Matchable) (s : RoleSequenceId) {ps : List Placement}
    (hnodup : (ps.map (·.mention)).Nodup) (hm : ∀ p ∈ ps, (x.mention p.mention).binding.isSome) :
    ∃ y, (ps.forM (applyPlacement s)).perform x = (.ok ⟨⟩, y) ∧ x.TakesRoles s ps y ∧
      y.Matchable := by
  induction ps generalizing x with
  | nil => exact ⟨x, rfl, ⟨rfl, fun _ _ => rfl, fun _ hp => absurd hp List.not_mem_nil⟩, h⟩
  | cons p ps ih =>
    rw [List.map_cons, List.nodup_cons] at hnodup
    obtain ⟨y, hy, htakes, hmatchable⟩ := h.exists_applyPlacement s p (hm p List.mem_cons_self)
    have hother : ∀ q ∈ ps, y.mention q.mention = x.mention q.mention := fun q hq =>
      htakes.mention_eq_of_ne _ fun heq => hnodup.1 (heq ▸ List.mem_map_of_mem hq)
    obtain ⟨z, hz, hrest, hmatchable'⟩ := ih hmatchable hnodup.2 fun q hq => by
      rw [hother q hq]
      exact hm q (List.mem_cons_of_mem p hq)
    refine ⟨z, perform_bind_eq_ok.2 ⟨⟨⟩, y, hy, hz⟩, ⟨?_, fun n hn => ?_, ?_⟩, hmatchable'⟩
    · rw [hrest.vocabulary_eq, htakes.vocabulary_eq]
    · rw [List.map_cons, List.mem_cons, not_or] at hn
      rw [hrest.mention_eq_of_not_mem n hn.2, htakes.mention_eq_of_ne n hn.1]
    · refine List.forall_mem_cons.2 ⟨?_, fun q hq => ?_⟩
      · rw [hrest.mention_eq_of_not_mem _ hnodup.1]
        exact htakes.mention_eq
      · rw [← hother q hq]
        exact hrest.mention_eq q hq

/-- **Clauses can be put into the words of a reading**, if their mentions are bound. -/
theorem Matchable.exists_applyAlignment (h : x.Matchable) (c : Clause) {a : Alignment}
    (hnodup : (a.placements.map (·.mention)).Nodup)
    (hm : ∀ p ∈ a.placements, (x.mention p.mention).binding.isSome) :
    ∃ y, (applyAlignment c a).perform x = (.ok (c.aligned a), y) ∧
      x.TakesRoles a.roleSequence a.placements y ∧ y.Matchable := by
  have hnodup' : (a.placements.reverse.map (·.mention)).Nodup := by
    rwa [List.map_reverse, List.nodup_reverse]
  obtain ⟨y, hy, htakes, hmatchable⟩ := h.exists_applyPlacements a.roleSequence hnodup' fun p hp =>
    hm p (List.mem_reverse.1 hp)
  refine ⟨y, perform_bind_eq_ok.2 ⟨⟨⟩, y, hy, rfl⟩,
    ⟨htakes.vocabulary_eq, fun n hn => ?_, fun p hp => ?_⟩,
    hmatchable⟩
  · exact htakes.mention_eq_of_not_mem n (by rwa [List.map_reverse, List.mem_reverse])
  · exact htakes.mention_eq p (List.mem_reverse.2 hp)

end Context

end FactModel
