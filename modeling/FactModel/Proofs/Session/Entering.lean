import FactModel.Proofs.Matching.Borrowing
import FactModel.Session
set_option autoImplicit false

/-!
# Entered clauses are bound

The mentions of clauses are bound one after the other, each followed by those of the clauses nested
under it. Once clauses have been entered, all their mentions are bound, and nothing is merged.

## Main definitions

* `FactModel.Compile.bindEach` — binds mentions, one after the other.

## Main results

* `FactModel.isBound_of_enter` — the mentions of entered clauses are all bound.
-/

namespace FactModel

open Attempt Compile

/-! ## One mention after the other -/

namespace Compile

variable {x y : Context}

/-- Binds mentions, one after the other. -/
def bindEach : List MentionId → Compile Unit
  | [] => pure ()
  | m :: ms => do
    let _ ← bind m
    bindEach ms

/-- Binding some mentions and then others is binding all of them. -/
lemma bindEach_append_eq_ok {ms ns : List MentionId} {u : Unit} :
    (bindEach (ms ++ ns)).perform x = (.ok u, y) ↔
      ∃ z, (bindEach ms).perform x = (.ok ⟨⟩, z) ∧ (bindEach ns).perform z = (.ok ⟨⟩, y) := by
  induction ms generalizing x with
  | nil =>
    constructor
    · exact fun h => ⟨x, rfl, h⟩
    · rintro ⟨_, ⟨⟩, h⟩
      exact h
  | cons m ms ih =>
    simp only [List.cons_append, bindEach, perform_bind_eq_ok, ih]
    constructor
    · rintro ⟨b, z, hm, w, hms, hns⟩
      exact ⟨w, ⟨b, z, hm, hms⟩, hns⟩
    · rintro ⟨w, ⟨b, z, hm, hms⟩, hns⟩
      exact ⟨b, z, hm, w, hms, hns⟩

/-- Role names are accepted if none is repeated, and nothing changes. -/
lemma checkRoleNames_eq_ok {ms : List MentionId} {u : Unit} :
    (checkRoleNames ms).perform x = (.ok u, y) ↔
      firstRepeated? [] (ms.filterMap fun m => (x.mention m).roleName) = none ∧ y = x := by
  rw [checkRoleNames, perform_get_bind]
  cases firstRepeated? [] (ms.filterMap fun m => (x.mention m).roleName) with
  | none =>
    constructor
    · rintro ⟨⟩
      exact ⟨rfl, rfl⟩
    · rintro ⟨-, rfl⟩
      rfl
  | some roleName =>
    constructor
    · rintro ⟨⟩
    · rintro ⟨⟨⟩, -⟩

mutual

/-- Binding what is in a slot binds its mentions, one after the other. -/
lemma bindEach_of_bindSlot : ∀ (s : Slot) {x y : Context} {u : Unit},
    (bindSlot s).perform x = (.ok u, y) →
      (bindEach (s.all.map (·.mention))).perform x = (.ok ⟨⟩, y)
  | ⟨m, nested⟩, x, y, u, h => by
    rw [bindSlot] at h
    obtain ⟨b, z, hbind, hrest⟩ := perform_bind_eq_ok.1 h
    rw [Slot.all_map_mention]
    exact perform_bind_eq_ok.2 ⟨b, z, hbind, bindEach_of_bindClauses nested hrest⟩

/-- Binding what is in a phrase binds its mentions, one after the other. -/
lemma bindEach_of_bindPhrase : ∀ (p : Phrase) {x y : Context} {u : Unit},
    (bindPhrase p).perform x = (.ok u, y) →
      (bindEach (p.allSlots.map (·.mention))).perform x = (.ok ⟨⟩, y)
  | .word _, x, y, u, h => by
    rw [bindPhrase] at h
    cases h
    rfl
  | .slot s, x, y, u, h => by
    rw [bindPhrase] at h
    exact bindEach_of_bindSlot s h
  | .comparison _ left right, x, y, u, h => by
    rw [bindPhrase] at h
    obtain ⟨_, z, hleft, hright⟩ := perform_bind_eq_ok.1 h
    rw [Phrase.allSlots, List.map_append]
    exact bindEach_append_eq_ok.2 ⟨z, bindEach_of_bindSlot left hleft,
      bindEach_of_bindSlot right hright⟩

/-- Binding what is in phrases binds their mentions, one after the other. -/
lemma bindEach_of_bindPhrases : ∀ (ps : List Phrase) {x y : Context} {u : Unit},
    (bindPhrases ps).perform x = (.ok u, y) →
      (bindEach ((phrasesAllSlots ps).map (·.mention))).perform x = (.ok ⟨⟩, y)
  | [], x, y, u, h => by
    rw [bindPhrases] at h
    cases h
    rfl
  | p :: ps, x, y, u, h => by
    rw [bindPhrases] at h
    obtain ⟨_, z, hfirst, hrest⟩ := perform_bind_eq_ok.1 h
    rw [phrasesAllSlots, List.map_append]
    exact bindEach_append_eq_ok.2 ⟨z, bindEach_of_bindPhrase p hfirst,
      bindEach_of_bindPhrases ps hrest⟩

/-- Binding a clause binds its mentions, one after the other. -/
lemma bindEach_of_bindClause : ∀ (c : Clause) {x y : Context} {u : Unit},
    (bindClause c).perform x = (.ok u, y) → (bindEach c.allMentions).perform x = (.ok ⟨⟩, y)
  | ⟨phrases, _, _, _, _, _, _, _, _⟩, x, y, u, h => by
    rw [bindClause] at h
    obtain ⟨_, z, hcheck, hrest⟩ := perform_bind_eq_ok.1 h
    obtain ⟨-, rfl⟩ := checkRoleNames_eq_ok.1 hcheck
    rw [Clause.allMentions, Clause.allSlots]
    exact bindEach_of_bindPhrases phrases hrest

/-- The mentions of clauses that have been bound were bound one after the other, each followed by
those of the clauses nested under it. -/
lemma bindEach_of_bindClauses : ∀ (cs : List Clause) {x y : Context} {u : Unit},
    (bindClauses cs).perform x = (.ok u, y) → (bindEach (allMentions cs)).perform x = (.ok ⟨⟩, y)
  | [], x, y, u, h => by
    rw [bindClauses] at h
    cases h
    rfl
  | c :: cs, x, y, u, h => by
    rw [bindClauses] at h
    obtain ⟨_, z, hfirst, hrest⟩ := perform_bind_eq_ok.1 h
    rw [allMentions, allSlots, List.map_append]
    exact bindEach_append_eq_ok.2 ⟨z, bindEach_of_bindClause c hfirst,
      bindEach_of_bindClauses cs hrest⟩

end

/-- Mentions that have been bound one after the other are all bound. -/
lemma isBound_of_bindEach {ms : List MentionId} (hx : x.Unmerged) {u : Unit}
    (h : (bindEach ms).perform x = (.ok u, y)) :
    (∀ n ≤ x.mentions.size, x.Carries n y) ∧ ∀ m ∈ ms, y.IsBound m := by
  induction ms generalizing x with
  | nil =>
    cases h
    exact ⟨fun n hn => .refl hn hx, fun _ hm => nomatch hm⟩
  | cons m ms ih =>
    obtain ⟨b, z, hbind, hrest⟩ := perform_bind_eq_ok.1 h
    have hxz : ∀ n ≤ x.mentions.size, x.Carries n z := fun n hn =>
      ((leads_bind_carries (.refl hn hx) m).of_perform hbind).1
    obtain ⟨hzy, hms⟩ := ih (hxz 0 (Nat.zero_le _)).unmerged hrest
    refine ⟨fun n hn => Trans.trans (hxz n hn) (hzy n (hxz n hn).le_size), fun k hk => ?_⟩
    rcases List.mem_cons.1 hk with rfl | hk
    · have hlast := hzy _ (Nat.le_refl _)
      have hbound : z.IsBound k := by
        refine ⟨?_, ((leads_bind_carries (.refl (Nat.zero_le _) hx) k).of_perform hbind).2⟩
        obtain ⟨player, hplayer, -⟩ := perform_bind_mention_eq_ok.1 hbind
        rw [((hxz _ (Nat.le_refl _)).continues k (Context.lt_of_player hplayer)).player_eq, hplayer]
        rfl
      exact hlast.isBound hbound.index_lt hbound
    · exact hms k hk

end Compile

namespace Context

/-- Clauses that have been taken in are not completed yet. -/
lemma contraction_adoptAll (clauses : List Script.Clause) (x : Context) :
    ∀ c ∈ (adoptAll clauses x).1, c.contraction = none := by
  induction clauses generalizing x with
  | nil =>
    rw [adoptAll]
    exact fun _ hc => absurd hc List.not_mem_nil
  | cons clause clauses ih =>
    rw [adoptAll]
    intro c hc
    rcases List.mem_cons.1 hc with rfl | hc
    · cases clause
      rw [adopt]
      rfl
    · exact ih _ c hc

end Context

/-- The mentions of clauses that have been entered into the context of a declaration are all bound,
and no bindings have been merged. -/
theorem isBound_of_enter {v : Vocabulary} {forwardTerms : List String}
    {clauses : List Script.Clause} {cs : List Clause} {y : Context}
    (h : (enter clauses).perform { vocabulary := v, forwardTerms } = (.ok cs, y)) :
    y.Bound ∧ y.Unmerged ∧ (∀ c ∈ cs, c.contraction = none) ∧ ∀ m ∈ allMentions cs,
      y.IsBound m := by
  let x : Context := { vocabulary := v, forwardTerms }
  have hbound := bound_enter v forwardTerms clauses
  rw [h] at hbound
  have hadopt : (Context.adoptAll clauses x).2.Unbound :=
    (Context.Unbound.of_declaration v forwardTerms).of_adopts
      (Context.adopts_adoptAll clauses x)
  have hnone := Context.contraction_adoptAll clauses x
  have hrest : (do
      identifyPlayers (Context.adoptAll clauses x).1
      bindClauses (Context.adoptAll clauses x).1
      pure (Context.adoptAll clauses x).1 : Compile (List Clause)).perform
        (Context.adoptAll clauses x).2 = (.ok cs, y) := h
  obtain ⟨_, z, hidentify, hrest⟩ := perform_bind_eq_ok.1 hrest
  obtain ⟨_, w, hbind, hpure⟩ := perform_bind_eq_ok.1 hrest
  cases hpure
  have hz : z.Unbound := (((composes_keeps (R := Context.Unbound.Stays) fun h => h).identifyPlayers
    (fun m name _ h => Context.Unbound.leads_identifyDeclaring h m name)
    (fun m _ h => Context.Unbound.leads_identifyPlain h m) _ hadopt).of_perform hidentify).1
  have hunmerged : z.Unmerged := fun b B hB => by
    rw [hz.binding?_eq] at hB
    cases hB
  obtain ⟨hcarries, hms⟩ := isBound_of_bindEach hunmerged (bindEach_of_bindClauses _ hbind)
  exact ⟨hbound, (hcarries 0 (Nat.zero_le _)).unmerged, hnone, hms⟩

end FactModel
