import FactModel.Proofs.Context.Traces
import FactModel.Proofs.Matching.Changing
set_option autoImplicit false

/-!
# Completing a clause succeeds or leaves nothing behind

A clause that nothing matches is tried again with a mention of the clause before it, on the left and
then on the right. Each attempt adds a mention, binds it and resolves the longer clause. If it fails
all of this is undone, so that the clause and all bindings are as they were.

## Main definitions

* `FactModel.Clause.Settled` — a nested clause that need not be resolved again.
* `FactModel.Fault.IsUnmatched` — the fault that no fact type matches a clause.
* `FactModel.Context.Copies` — a context in which one more mention is bound like another one.

## Main results

* `FactModel.Compile.leads_resolve_settled` — what is nested in a clause that has been resolved is
  settled.
* `FactModel.Compile.returns_resolvePhrases` — settled clauses are resolved to themselves, and
  nothing changes.
* `FactModel.complete_all_or_nothing` — what a completion leaves behind, and what it puts in.
-/

namespace FactModel

open Attempt

/-! ## Literals stay -/

namespace Context

variable {x y : Context}

/-- Mentions have kept their literals. -/
def SameLiterals (x y : Context) : Prop :=
  ∀ m, (y.mention m).literal = (x.mention m).literal

instance : Trans SameLiterals SameLiterals SameLiterals :=
  ⟨fun h h' m => (h' m).trans (h m)⟩

namespace SameLiterals

/-- A context that does not change keeps its literals. -/
lemma refl (x : Context) : x.SameLiterals x :=
  fun _ => rfl

/-- A change of a mention that keeps its literal keeps all literals. -/
lemma modifyMention (m : MentionId) {change : Mention → Mention}
    (h : ∀ mention, (change mention).literal = mention.literal) :
    x.SameLiterals (x.modifyMention m change) :=
  mention_modifyMention_apply (·.literal) m h

/-- Binding a mention keeps literals. -/
lemma bindAs (m : MentionId) (player : ObjectTypeId) : x.SameLiterals (x.bindAs m player).2 :=
  mention_bindAs_apply (·.literal) (fun _ _ => rfl) m player

/-- Taking a mention out of its binding keeps literals. -/
lemma unbind (m : MentionId) : x.SameLiterals (x.unbind m) := by
  intro n
  rw [mention_unbind]
  split
  · next hn => rw [hn]
  · rfl

end SameLiterals

end Context

open Context

namespace Compile

/-- Applying a placement keeps literals. -/
lemma leads_applyPlacement_literals (s : RoleSequenceId) (p : Placement) (x : Context) :
    (applyPlacement s p).Leads SameLiterals x fun _ _ => True := by
  have hrebind : ∀ y, (rebind p.mention).Leads SameLiterals y fun _ _ => True := fun y =>
    leads_modify_bind (.unbind p.mention)
      (Leads.bind (leads_playerOf (.refl _)) fun player z _ hz => by
      obtain ⟨rfl, -⟩ := hz
      exact ⟨.bindAs p.mention player, trivial⟩)
  refine leads_get_bind (leads_modify_bind (.modifyMention _ fun _ => rfl) (leads_get_bind ?_))
  dsimp only
  split
  · exact Leads.bind (hrebind _) fun _ y _ _ => leads_pure (.refl y) trivial
  · exact leads_pure (.refl _) trivial

/-- A clause that matched invokes a fact type or only names an individual. -/
lemma leads_resolveFlat_literals (options : MatchOptions) (c : Clause) (x : Context) :
    (resolveFlat options c).Leads SameLiterals x fun r y =>
      ∀ d ∈ r, d.isMatched = true ∨ d = c ∧ y.isExistential c = true := by
  unfold resolveFlat
  split
  · next operator left right _ =>
    refine Leads.map (Leads.bind (leads_playerOf (.refl x)) fun leftPlayer y _ _ => ?_)
    refine Leads.bind (leads_playerOf (.refl y)) fun rightPlayer z _ _ => ?_
    have hedit : (edit (Vocabulary.comparisonFactType operator leftPlayer rightPlayer)).Leads
        SameLiterals z fun _ _ => True :=
      Leads.within (leads_true _ z.vocabulary) (fun _ _ _ => rfl) fun _ _ _ _ => trivial
    refine Leads.bind hedit fun f w _ _ => leads_get_bind ?_
    refine Leads.bind (Leads.forM (.refl w) fun item _ u _ => ?_) fun _ u _ _ => ?_
    · exact leads_modify (.modifyMention _ fun _ => rfl) (.refl _)
    · refine leads_pure (.refl u) ?_
      rintro d ⟨⟩
      exact .inl rfl
  · refine leads_get_bind ?_
    split
    · next hexistential =>
      refine leads_pure (.refl x) ?_
      rintro d ⟨⟩
      exact .inr ⟨rfl, hexistential⟩
    refine leads_get_bind (leads_ofExcept_bind (.refl x) fun r _ => ?_)
    cases r with
    | none => exact leads_pure (.refl x) fun d hd => nomatch hd
    | some a =>
      refine Leads.map (Leads.bind (Leads.forM (.refl x) fun p _ y _ => ?_) fun _ y _ _ => ?_)
      · exact (leads_applyPlacement_literals a.roleSequence p y).imp fun _ z _ _ => .refl z
      · refine leads_pure (.refl y) ?_
        rintro d ⟨⟩
        exact .inl rfl

end Compile

/-! ## Settled clauses -/

/-- A nested clause that need not be resolved again: it invokes a fact type, or it only names an
individual and what is nested under that is settled. -/
inductive Clause.Settled (x : Context) : Clause → Prop
  | matched {c : Clause} (h : c.isMatched = true) : Settled x c
  | existential {c : Clause} (h : x.isExistential c = true)
    (below : ∀ s ∈ c.slots, ∀ d ∈ s.nested, Settled x d) : Settled x c

/-- Every clause nested right under a slot is settled. -/
def Slot.Settled (x : Context) (s : Slot) : Prop :=
  ∀ d ∈ s.nested, d.Settled x

/-- Whether a clause only names an individual depends only on the literals of its mentions. -/
lemma Context.isExistential_congr {x y : Context} {c : Clause}
    (h : ∀ m ∈ c.mentions, (y.mention m).literal = (x.mention m).literal) :
    y.isExistential c = x.isExistential c := by
  unfold isExistential
  split
  · next s heq => rw [h s.mention (by simp [Clause.mentions, Clause.slots, heq, Phrase.slots])]
  · rfl

/-- Settled clauses stay settled while the literals of their mentions do. -/
lemma Clause.Settled.of_literals {x y : Context} {c : Clause} (h : c.Settled x)
    (hliteral : ∀ m ∈ c.allMentions, (y.mention m).literal = (x.mention m).literal) :
    c.Settled y := by
  induction h with
  | matched h => exact .matched h
  | @existential c h _ ih =>
    refine .existential ?_ fun s hs d hd => ih s hs d hd fun m hm => hliteral m ?_
    · rw [isExistential_congr fun m hm => hliteral m (c.mentions_subset_allMentions hm), h]
    · exact Clause.allMentions_subset_of_nested hs hd hm

/-- A slot stays settled as long as literals are kept. -/
lemma Slot.Settled.later {x y : Context} {s : Slot} (h : s.Settled x) (hxy : x.SameLiterals y) :
    s.Settled y :=
  fun d hd => (h d hd).of_literals fun m _ => hxy m

namespace Compile

/-- Resolving a clause whose nested clauses are settled settles the clause, if anything matches. -/
lemma leads_resolveItself_settled (options : MatchOptions) {c : Clause} {x : Context}
    (hc : ∀ s ∈ c.slots, s.Settled x) :
    (ofResolved (resolveItself options c)).Leads SameLiterals x fun r y =>
      (∀ s ∈ r.1.slots, s.Settled y) ∧ (r.2 = true → r.1.Settled y) := by
  rw [ofResolved_resolveItself]
  refine Leads.bind ((leads_resolveFlat_literals options c x).and
    (ends_resolveFlat_slots options c x)) fun r y hxy hr => ?_
  have hlater : ∀ s ∈ c.slots, s.Settled y := fun s hs => (hc s hs).later hxy
  cases r with
  | none => exact leads_pure (.refl y) ⟨hlater, fun h => nomatch h⟩
  | some d =>
    refine leads_pure (.refl y) ⟨fun s hs => hlater s (hr.2 d rfl hs), fun _ => ?_⟩
    rcases hr.1 d rfl with hd | ⟨rfl, hd⟩
    · exact .matched hd
    · exact .existential hd hlater

mutual

/-- Once a slot has been resolved, it is settled. -/
lemma leads_resolveSlot_settled (options : MatchOptions) : ∀ (s : Slot) (x : Context),
    (ofResolved (resolveSlot options s)).Leads SameLiterals x fun r y => r.1.Settled y
  | ⟨m, nested⟩, x => by
    rw [ofResolved_resolveSlot]
    refine Leads.bind (leads_resolveNested_settled options m nested x) fun r y _ hr => ?_
    exact leads_pure (.refl y) hr

/-- Once a phrase has been resolved, its slots are settled. -/
lemma leads_resolvePhrase_settled (options : MatchOptions) : ∀ (p : Phrase) (x : Context),
    (ofResolved (resolvePhrase options p)).Leads SameLiterals x fun r y =>
      ∀ s ∈ r.1.slots, s.Settled y
  | .word text, x => leads_pure (.refl x) fun _ hs => nomatch hs
  | .slot s, x => by
    rw [ofResolved_resolvePhrase_slot]
    refine Leads.bind (leads_resolveSlot_settled options s x) fun r y _ hr => ?_
    refine leads_pure (.refl y) fun t ht => ?_
    rw [List.mem_singleton.1 ht]
    exact hr
  | .comparison operator left right, x => by
    rw [ofResolved_resolvePhrase_comparison]
    refine Leads.bind (leads_resolveSlot_settled options left x) fun r y _ hr => ?_
    refine Leads.bind (leads_resolveSlot_settled options right y) fun q z hyz hq => ?_
    refine leads_pure (.refl z) fun t ht => ?_
    rcases List.mem_pair.1 ht with rfl | rfl
    · exact hr.later hyz
    · exact hq

/-- Once phrases have been resolved, their slots are settled. -/
lemma leads_resolvePhrases_settled (options : MatchOptions) : ∀ (ps : List Phrase) (x : Context),
    (ofResolved (resolvePhrases options ps)).Leads SameLiterals x fun r y =>
      ∀ s ∈ r.1.flatMap Phrase.slots, s.Settled y
  | [], x => leads_pure (.refl x) fun _ hs => nomatch hs
  | p :: ps, x => by
    rw [ofResolved_resolvePhrases_cons]
    refine Leads.bind (leads_resolvePhrase_settled options p x) fun r y _ hr => ?_
    refine Leads.bind (leads_resolvePhrases_settled options ps y) fun q z hyz hq => ?_
    refine leads_pure (.refl z) fun s hs => ?_
    rcases List.mem_append.1 hs with hs | hs
    · exact (hr s hs).later hyz
    · exact hq s hs

/-- What is nested in a clause that has been resolved is settled, and so is the clause if anything
matched. -/
lemma leads_resolve_settled (options : MatchOptions) : ∀ (c : Clause) (x : Context),
    (ofResolved (resolve options c)).Leads SameLiterals x fun r y =>
      (∀ s ∈ r.1.slots, s.Settled y) ∧ (r.2 = true → r.1.Settled y)
  | ⟨phrases, _, _, _, _, _, _, _, _⟩, x => by
    rw [ofResolved_resolve]
    refine Leads.bind (leads_resolvePhrases_settled options phrases x) fun r y _ hr => ?_
    exact leads_resolveItself_settled options hr

/-- Once nested clauses have been resolved, they are settled. -/
lemma leads_resolveNested_settled (options : MatchOptions) :
    ∀ (m : MentionId) (cs : List Clause) (x : Context),
      (ofResolved (resolveNested options m cs)).Leads SameLiterals x fun r y =>
        ∀ d ∈ r.1, d.Settled y
  | m, [], x => leads_pure (.refl x) fun _ hd => nomatch hd
  | m, c :: cs, x => by
    rw [ofResolved_resolveNested_cons]
    have hfirst : (if c.isMatched then pure (c, true) else ofResolved (resolve options c) :
        Compile (Clause × Bool)).Leads SameLiterals x fun r y => r.2 = true → r.1.Settled y := by
      split
      · next hc => exact leads_pure (.refl x) fun _ => .matched hc
      · exact (leads_resolve_settled options c x).imp fun _ _ _ hr => hr.2
    refine Leads.bind hfirst fun r y _ hr => ?_
    obtain ⟨d, matched⟩ := r
    cases matched with
    | false => exact SameLiterals.refl y
    | true =>
      refine Leads.bind (leads_checkNested m d true (.refl y)) fun _ z hyz _ => ?_
      refine Leads.bind (leads_resolveNested_settled options m cs z) fun q w hzw hq => ?_
      refine leads_pure (.refl w) fun e he => ?_
      have hyw : y.SameLiterals w := Trans.trans hyz hzw
      rcases List.mem_cons.1 he with rfl | he
      · exact (hr rfl).of_literals fun m _ => hyw m
      · exact hq e he

end

end Compile

/-! ## Settled clauses are resolved to themselves -/

/-- The fault that no fact type matches a clause. -/
def Fault.IsUnmatched (fault : Fault) : Prop :=
  ∃ clause, fault = .noFactTypeMatch clause

namespace Compile

variable {α β : Type}

/-- A change yields a value and leaves the context alone, unless it fails by another fault than that
nothing matches. -/
def Returns (attempt : Compile α) (x : Context) (a : α) : Prop :=
  match attempt.perform x with
  | (.ok b, y) => b = a ∧ y = x
  | (.error fault, _) => ¬fault.IsUnmatched

/-- A value that is at hand is returned. -/
lemma returns_pure (a : α) (x : Context) : (pure a : Compile α).Returns x a :=
  ⟨rfl, rfl⟩

/-- What returns a value may be followed by what goes on with it. -/
lemma Returns.bind {attempt : Compile α} {next : α → Compile β} {x : Context} {a : α} {b : β}
    (h : attempt.Returns x a) (hnext : (next a).Returns x b) : (attempt >>= next).Returns x b := by
  unfold Returns at h ⊢
  rw [perform_bind]
  rcases hattempt : attempt.perform x with ⟨fault | a', y⟩
  · rw [hattempt] at h
    exact h
  · rw [hattempt] at h
    obtain ⟨rfl, rfl⟩ := h
    exact hnext

/-- Checking a nested clause that matched changes nothing. -/
lemma returns_checkNested (m : MentionId) (c : Clause) (x : Context) :
    Returns (ExceptT.mk (checkNested m c true)) x () := by
  show Returns (checkObjectified m c) x ()
  unfold checkObjectified
  split
  · exact returns_pure () x
  · refine Returns.bind (a := x) ⟨rfl, rfl⟩ ?_
    dsimp only
    split
    · rintro ⟨_, ⟨⟩⟩
    · exact returns_pure () x

/-- A clause that only names an individual is returned as it is. -/
lemma returns_resolveItself_of_isExistential (options : MatchOptions) {c : Clause} {x : Context}
    (h : x.isExistential c = true) :
    (ofResolved (resolveItself options c)).Returns x (c, true) := by
  have hcomparison : c.comparison? = none := by
    unfold isExistential at h
    unfold Clause.comparison?
    split at h
    · next s heq => rw [heq]
    · cases h
  rw [ofResolved_resolveItself, resolveFlat, hcomparison]
  refine Returns.bind (a := some c) (Returns.bind (a := x) ⟨rfl, rfl⟩ ?_) (returns_pure _ x)
  rw [if_pos h]
  exact returns_pure _ x

mutual

/-- A settled slot is returned as it is. -/
lemma returns_resolveSlot (options : MatchOptions) (x : Context) : ∀ s : Slot, s.Settled x →
    (ofResolved (resolveSlot options s)).Returns x (s, ())
  | ⟨m, nested⟩, hs => by
    rw [ofResolved_resolveSlot]
    exact (returns_resolveNested options x m nested hs).bind (returns_pure _ x)

/-- A phrase with settled slots is returned as it is. -/
lemma returns_resolvePhrase (options : MatchOptions) (x : Context) : ∀ p : Phrase,
    (∀ s ∈ p.slots, s.Settled x) → (ofResolved (resolvePhrase options p)).Returns x (p, ())
  | .word text, _ => returns_pure _ x
  | .slot s, hp => by
    rw [ofResolved_resolvePhrase_slot]
    exact (returns_resolveSlot options x s (hp s (by simp [Phrase.slots]))).bind (returns_pure _ x)
  | .comparison operator left right, hp => by
    rw [ofResolved_resolvePhrase_comparison]
    refine (returns_resolveSlot options x left (hp left (by simp [Phrase.slots]))).bind ?_
    exact (returns_resolveSlot options x right (hp right (by simp [Phrase.slots]))).bind
      (returns_pure _ x)

/-- Phrases under which everything is settled are resolved to themselves. -/
lemma returns_resolvePhrases (options : MatchOptions) (x : Context) : ∀ ps : List Phrase,
    (∀ s ∈ ps.flatMap Phrase.slots, s.Settled x) →
    (ofResolved (resolvePhrases options ps)).Returns x (ps, ())
  | [], _ => returns_pure _ x
  | p :: ps, hps => by
    rw [ofResolved_resolvePhrases_cons]
    have hp : ∀ s ∈ p.slots, s.Settled x := fun s hs => hps s (by simp [hs])
    refine (returns_resolvePhrase options x p hp).bind ?_
    exact (returns_resolvePhrases options x ps fun s hs => hps s (List.mem_append_right _ hs)).bind
      (returns_pure _ x)

/-- A settled clause that invokes no fact type only names an individual. -/
lemma returns_resolve (options : MatchOptions) (x : Context) : ∀ c : Clause, c.Settled x →
    c.isMatched = false → (ofResolved (resolve options c)).Returns x (c, true)
  | ⟨phrases, qualifiers, certainty, conjunction, factType, reading, roleSequence, alignment,
      contraction⟩, hc, hunmatched => by
    cases hc with
    | matched h => exact absurd h (by simp [hunmatched])
    | existential h below =>
      rw [ofResolved_resolve]
      exact (returns_resolvePhrases options x phrases below).bind
        (returns_resolveItself_of_isExistential options h)

/-- Settled nested clauses are returned as they are. -/
lemma returns_resolveNested (options : MatchOptions) (x : Context) (m : MentionId) :
    ∀ cs : List Clause, (∀ d ∈ cs, d.Settled x) →
      (ofResolved (resolveNested options m cs)).Returns x (cs, ())
  | [], _ => returns_pure _ x
  | c :: cs, hcs => by
    rw [ofResolved_resolveNested_cons]
    have hfirst : (if c.isMatched then pure (c, true) else ofResolved (resolve options c) :
        Compile (Clause × Bool)).Returns x (c, true) := by
      split
      · exact returns_pure _ x
      · next hc => exact returns_resolve options x c (hcs c (by simp)) (by simpa using hc)
    refine hfirst.bind ((returns_checkNested m c x).bind ?_)
    exact (returns_resolveNested options x m cs fun d hd => hcs d (by simp [hd])).bind
      (returns_pure _ x)

end

/-! ## Attempts -/

/-- Binding a mention never fails for want of a fact type. -/
lemma failsBy_bind_mention (m : MentionId) :
    (Compile.bind m).FailsBy fun fault => ¬fault.IsUnmatched := by
  refine FailsBy.bind (failsBy_get_bind fun x y fault z h => ?_) fun player => ?_
  · unfold Context.playerOf at h
    split at h
    · cases h
    · cases h
      rintro ⟨_, ⟨⟩⟩
  · rintro x fault y ⟨⟩

/-- Applying a placement does not fail for want of a match. -/
lemma failsBy_applyPlacement (s : RoleSequenceId) (p : Placement) :
    (applyPlacement s p).FailsBy fun fault => ¬fault.IsUnmatched := by
  refine failsBy_get_bind fun x => FailsBy.bind (failsBy_modify _) fun _ =>
    failsBy_get_bind fun y => ?_
  dsimp only
  split
  · exact FailsBy.bind (FailsBy.bind (failsBy_modify _) fun _ => failsBy_bind_mention p.mention)
      fun _ => failsBy_pure _
  · exact failsBy_pure _

/-- A clause that is no comparison never fails for want of a fact type: this is no failure yet. -/
lemma failsBy_resolveItself (options : MatchOptions) {c : Clause} (hc : c.comparison? = none) :
    (ofResolved (resolveItself options c)).FailsBy fun fault => ¬fault.IsUnmatched := by
  have hselect : ∀ x : Context, (MonadExcept.ofExcept (x.select c (x.rank options c)) :
      Compile (Option Alignment)).FailsBy fun fault => ¬fault.IsUnmatched := by
    intro x y fault z h
    unfold Context.select at h
    split at h
    · cases h
    · cases h
      rintro ⟨_, ⟨⟩⟩
    · dsimp only at h
      split at h
      · cases h
      · cases h
        rintro ⟨_, ⟨⟩⟩
  have hinvoke : (invokeReading options c).FailsBy fun fault => ¬fault.IsUnmatched := by
    refine failsBy_get_bind fun x => FailsBy.bind (hselect x) fun r => ?_
    cases r with
    | none => exact failsBy_pure _
    | some a =>
      dsimp only
      rw [← bind_pure_comp]
      refine FailsBy.bind (FailsBy.bind (FailsBy.forM fun p _ => ?_) fun _ => failsBy_pure _)
        fun _ => failsBy_pure _
      exact failsBy_applyPlacement a.roleSequence p
  rw [ofResolved_resolveItself, resolveFlat, hc]
  refine FailsBy.bind (failsBy_get_bind fun x => ?_) fun r => by cases r <;> exact failsBy_pure _
  split
  · exact failsBy_pure _
  · exact hinvoke

/-- Where nothing matches a clause that is no comparison, nothing changes. -/
lemma ends_resolveItself_unmatched (options : MatchOptions) {c : Clause} (hc : c.comparison? = none)
    (x : Context) : (ofResolved (resolveItself options c)).Ends x
      (fun r y => r.2 = false → r.1 = c ∧ y = x) fun _ => True := by
  have hflat : (resolveFlat options c).Ends x (fun r y => r = none → y = x) fun _ => True := by
    rw [resolveFlat, hc]
    refine ends_bind.2 (ends_get.2 ?_)
    split
    · exact fun h => nomatch h
    · refine ends_bind.2 (ends_get.2 (ends_bind.2 (ends_ofExcept.2 ?_)))
      split
      · next r _ =>
        cases r with
        | none => exact fun _ => rfl
        | some a => exact ends_map.2 (ends_bind_of_forall fun _ _ h => nomatch h)
      · trivial
  rw [ofResolved_resolveItself]
  refine ends_bind.2 (hflat.imp (fun r y hr => ?_) fun _ => id)
  cases r with
  | none => exact fun _ => ⟨rfl, hr rfl⟩
  | some d => exact fun h => nomatch h

/-- A clause is what its fields say. -/
lemma clause_eta (c : Clause) :
    Clause.mk c.phrases c.qualifiers c.certainty c.conjunction c.factType
    c.reading c.roleSequence c.alignment c.contraction = c := by
  cases c
  rfl

/-- Two changes of a context run one after the other. -/
lemma stateM_bind {α β : Type} (first : StateM Context α) (next : α → StateM Context β)
    (x : Context) : (first >>= next) x = next (first x).1 (first x).2 :=
  rfl

/-- What comes of resolving a clause again with one more mention: the clause cannot fail for what is
nested in it, and where nothing matches it nothing changes. -/
lemma resolve_extended (options : MatchOptions) {c : Clause} {x : Context}
    (hc : ∀ s ∈ c.slots, s.Settled x) (side : Contraction) (m : MentionId) :
    match resolve options (c.extended side m) x with
    | ((d, .ok matched), y) => matched = false → d = c.extended side m ∧ y = x
    | ((_, .error fault), _) => ¬fault.IsUnmatched := by
  have hcomparison : (c.extended side m).comparison? = none := by
    unfold Clause.comparison?
    split
    · next h =>
      cases side with
      | left => cases h
      | right =>
        have hlast := congrArg List.getLast? h
        simp [Clause.extended] at hlast
    · rfl
  have hnested : ∀ s ∈ (c.extended side m).slots, s.Settled x := by
    intro s hs d hd
    rcases nested_of_mem_slots_extended hs with hs | hs
    · rw [hs] at hd
      exact absurd hd List.not_mem_nil
    · exact hc s hs d hd
  have hphrases := returns_resolvePhrases options x _ hnested
  rw [Returns] at hphrases
  -- the nested clauses come first, and then the clause itself
  have hperform : ((resolve options (c.extended side m) x).1.2.map
      ((resolve options (c.extended side m) x).1.1, ·), (resolve options (c.extended side m) x).2) =
      (ofResolved (resolvePhrases options (c.extended side m).phrases) >>= fun r =>
        ofResolved (resolveItself options { c.extended side m with phrases := r.1 })).perform
          x := by
    rw [← ofResolved_resolve, perform_ofResolved]
  rw [perform_bind] at hperform
  generalize (ofResolved (resolvePhrases options (c.extended side m).phrases)).perform x = first
    at hphrases hperform
  rcases first with ⟨fault | r, z⟩
  · rcases hresolve : resolve options (c.extended side m) x with ⟨⟨d, fault' | matched⟩, y⟩
    · rw [hresolve] at hperform
      cases hperform
      exact hphrases
    · rw [hresolve] at hperform
      cases hperform
  · obtain ⟨rfl, rfl⟩ := hphrases
    rcases hresolve : resolve options (c.extended side m) z with ⟨⟨d, fault' | matched⟩, y⟩
    · rw [hresolve] at hperform
      dsimp only at hperform
      rw [clause_eta] at hperform
      exact failsBy_resolveItself options hcomparison z fault' y hperform.symm
    · rw [hresolve] at hperform
      dsimp only at hperform
      rw [clause_eta] at hperform
      exact (ends_resolveItself_unmatched options hcomparison z).of_perform hperform.symm

/-! ## Copies -/

end Compile

/-- A context in which one more mention, at the end, is like another one and bound like it. -/
structure Context.Copies (x : Context) (source copy : MentionId) (z : Context) : Prop where
  isNew : copy.index = x.mentions.size
  size_eq : z.mentions.size = x.mentions.size + 1
  mention_eq : ∀ m, m ≠ copy → z.mention m = x.mention m
  copied : ∃ b, z.mention copy =
    { term := (x.mention source).term, leading := (x.mention source).leading
      trailing := (x.mention source).trailing, roleName := (x.mention source).roleName
      literal := (x.mention source).literal, player := (x.mention source).player
      playerByRoleName := (x.mention source).playerByRoleName, binding := some b } ∧
    ∀ b' ∈ (x.mention source).binding, b = b'

namespace Compile

/-- A copy is bound like its source. When it is unbound again, only the copy is left. -/
lemma copyMention_spec {x : Context} (hx : x.Bound) (source : MentionId) :
    match (copyMention source).perform x with
    | (.ok copy, z) => x.Copies source copy z ∧ x.LeavesBehind 1 (z.unbind copy)
    | (.error fault, _) => ¬fault.IsUnmatched := by
  rcases h : (copyMention source).perform x with ⟨fault | copy, z⟩
  · have hfails : (copyMention source).FailsBy fun fault => ¬fault.IsUnmatched := by
      refine failsBy_get_bind fun y => FailsBy.bind (failsBy_extend _ _) fun copy => ?_
      exact FailsBy.bind (failsBy_bind_mention copy) fun _ => failsBy_pure _
    exact hfails x fault z h
  let lender := x.mention source
  let mention : Mention :=
    { term := lender.term, leading := lender.leading, trailing := lender.trailing
      roleName := lender.roleName, literal := lender.literal, player := lender.player
      playerByRoleName := lender.playerByRoleName }
  let y := x.pushMention mention
  have hnew : y.mention ⟨x.mentions.size⟩ = mention := by
    rw [mention_pushMention, if_pos rfl]
  have hperform : (Compile.bind ⟨x.mentions.size⟩ >>= fun _ => pure ⟨x.mentions.size⟩ :
      Compile MentionId).perform y = (.ok copy, z) := h
  obtain ⟨b, w, hbind, hpure⟩ := perform_bind_eq_ok.1 hperform
  cases hpure
  obtain ⟨player, hplayer, hbind⟩ := perform_bind_mention_eq_ok.1 hbind
  obtain rfl : (y.bindAs ⟨x.mentions.size⟩ player).1 = b := congrArg Prod.fst hbind
  obtain rfl : (y.bindAs ⟨x.mentions.size⟩ player).2 = z := congrArg Prod.snd hbind
  have hlt := lt_of_player hplayer
  refine ⟨⟨rfl, ?_, fun m hm => ?_, (y.bindAs ⟨x.mentions.size⟩ player).1, ?_, fun b' hb' => ?_⟩,
    ?_⟩
  · rw [size_bindAs]
    exact Array.size_push ..
  · rw [mention_bindAs hlt, if_neg hm, mention_pushMention, if_neg hm]
  · rw [mention_bindAs hlt, if_pos rfl, hnew]
  · -- the copy has the key of its source, which has a binding
    have hkey : y.bindingKey ⟨x.mentions.size⟩ = x.bindingKey source := by
      unfold bindingKey
      rw [hnew]
      rfl
    have hlookup : y.bindingOf? (y.bindingKey ⟨x.mentions.size⟩) = some b' := by
      rw [hkey]
      exact hx.bindingOf?_of_binding hb'
    rw [bindAs, hlookup]
  · exact hx.leavesBehind_unbind rfl player

/-! ## Completion on one side -/

variable {options : MatchOptions} {previous c : Clause} {x : Context}

/-- An attempt to complete a clause on one side with a new mention, and whether it succeeds. -/
def TriesOn (options : MatchOptions) (previous c : Clause) (side : Contraction) (x : Context)
    (copy : MentionId) (matched : Bool) : Prop :=
  ∃ source z, side.source? previous = some source ∧ x.Copies source copy z ∧
    (resolve options (c.extended side copy) z).1.2 = .ok matched

/-- How a completion on one side goes on after the copy has been made. -/
lemma completeOn_eq {side : Contraction} {source copy : MentionId} {z : Context}
    (hsource : side.source? previous = some source)
    (hcopy : (copyMention source).perform x = (.ok copy, z)) :
    completeOn options previous side c x =
      match resolve options (c.extended side copy) z with
      | ((d, .ok true), y) => (({ d with contraction := some side }, .ok true), y)
      | ((d, .ok false), y) => ((d.without copy, .ok false), y.unbind copy)
      | ((d, .error fault), y) => ((d, .error fault), y) := by
  rw [completeOn, hsource]
  dsimp only
  rw [stateM_bind, show ExceptT.run (copyMention source) x = (.ok copy, z) from hcopy]
  dsimp only [Resolved.andThen]
  rw [stateM_bind]
  rcases resolve options (c.extended side copy) z with ⟨⟨d, fault | _ | _⟩, y⟩ <;> rfl

variable (options previous) in
/-- What completing a clause on one side comes to. -/
lemma completeOn_spec (hx : x.Bound) (hc : ∀ s ∈ c.slots, s.Settled x)
    (hlt : ∀ m ∈ c.allMentions, m.index < x.mentions.size) (side : Contraction) :
    match completeOn options previous side c x with
    | ((d, .ok true), _) => ∃ copy, TriesOn options previous c side x copy true ∧
        d.allMentions = (c.extended side copy).allMentions ∧
        d.mentions = (c.extended side copy).mentions
    | ((d, .ok false), y) => d = c ∧ x.LeavesBehind 1 y ∧
        (side.source? previous = none ∨ ∃ copy, TriesOn options previous c side x copy false)
    | ((_, .error fault), _) => ¬fault.IsUnmatched := by
  rcases hsource : side.source? previous with _ | source
  · rw [completeOn, hsource]
    exact ⟨rfl, (LeavesBehind.refl x).mono (Nat.zero_le 1), .inl rfl⟩
  have hcopy := copyMention_spec hx source
  rcases hperform : (copyMention source).perform x with ⟨fault | copy, z⟩
  · rw [hperform] at hcopy
    rw [completeOn, hsource]
    dsimp only
    rw [stateM_bind, show ExceptT.run (copyMention source) x = (.error fault, z) from hperform]
    exact hcopy
  rw [hperform] at hcopy
  obtain ⟨hcopies, hleft⟩ := hcopy
  have hnot : copy ∉ c.mentions := by
    intro hmem
    have hsize := hlt copy (c.mentions_subset_allMentions hmem)
    have := hcopies.isNew
    omega
  have hsettled : ∀ s ∈ c.slots, s.Settled z := by
    intro s hs d hd
    refine (hc s hs d hd).of_literals fun m hm => ?_
    have hsize := hlt m (Clause.allMentions_subset_of_nested hs hd hm)
    rw [hcopies.mention_eq m]
    rintro rfl
    have := hcopies.isNew
    omega
  have hresolve := resolve_extended options hsettled side copy
  have hkeeps := ends_resolve_keepsMentions options (c.extended side copy) z
  rw [completeOn_eq hsource hperform]
  rcases hresult : resolve options (c.extended side copy) z with ⟨⟨d, fault | matched⟩, y⟩
  · rw [hresult] at hresolve
    exact hresolve
  rw [hresult] at hresolve
  have htries : TriesOn options previous c side x copy matched :=
    ⟨source, z, hsource, hcopies, by rw [hresult]⟩
  cases matched with
  | true =>
    have hmentions : (c.extended side copy).KeepsMentions d :=
      hkeeps.of_perform (a := (d, true)) (t := y) (by rw [perform_ofResolved, hresult]; rfl)
    refine ⟨copy, htries, ?_, hmentions.mentions_eq⟩
    rw [Clause.allMentions_eq]
    exact (Clause.allMentions_eq d).symm.trans hmentions.allMentions_eq
  | false =>
    obtain ⟨rfl, rfl⟩ := hresolve rfl
    refine ⟨?_, hleft, .inr ⟨copy, htries⟩⟩
    have hphrases := phrases_extended_filter hnot side
    cases c
    cases side <;> exact congrArg (fun phrases => Clause.mk phrases ..) hphrases

end Compile

open Compile

variable {options options' : MatchOptions} {previous c c₀ d : Clause} {x x₀ y : Context}

/-- What is nested in a clause that has been left unmatched is settled. -/
lemma settled_of_unmatched (h : resolve options' c₀ x₀ = ((c, .ok false), x)) :
    ∀ s ∈ c.slots, s.Settled x := by
  have hperform : (ofResolved (resolve options' c₀)).perform x₀ = (.ok (c, false), x) := by
    rw [perform_ofResolved, h]
    rfl
  exact ((leads_resolve_settled options' c₀ x₀).of_perform hperform).2.1

/-- Run on a context, completion tries the left side, then the right one, and then fails. -/
lemma complete_eq (hcontinuing : isContinuing previous.conjunction c.conjunction = true) :
    complete options previous c x =
      match completeOn options previous .left c x with
      | ((d, .ok true), y) => ((d, .ok .left), y)
      | ((d, .ok false), y) =>
        (match completeOn options previous .right d y with
        | ((e, .ok true), z) => ((e, .ok .right), z)
        | ((e, .ok false), z) => ((e, .error (.noFactTypeMatch (z.describeClause e))), z)
        | ((e, .error fault), z) => ((e, .error fault), z))
      | ((d, .error fault), y) => ((d, .error fault), y) := by
  rw [complete, if_pos hcontinuing, stateM_bind]
  rcases completeOn options previous .left c x with ⟨⟨d, fault | _ | _⟩, y⟩
  · rfl
  · dsimp only [Resolved.andThen]
    rw [if_neg Bool.false_ne_true, stateM_bind]
    rcases completeOn options previous .right d y with ⟨⟨e, fault | _ | _⟩, z⟩ <;> rfl
  · rfl

/-- The mention that a clause is extended by comes first on the left and last on the right. -/
lemma mentions_extended (c : Clause) (m : MentionId) :
    (c.extended .left m).mentions = m :: c.mentions ∧
      (c.extended .left m).allMentions = m :: c.allMentions ∧
      (c.extended .right m).mentions = c.mentions ++ [m] ∧
      (c.extended .right m).allMentions = c.allMentions ++ [m] := by
  have hslot : (Phrase.slot ⟨m, []⟩).allSlots.map (·.mention) = [m] := by
    rw [Phrase.allSlots, Slot.all_map_mention]
    rfl
  refine ⟨rfl, ?_, ?_, ?_⟩
  · rw [Clause.allMentions_eq, c.allMentions_eq, Clause.extended, List.flatMap_cons, hslot]
    rfl
  · simp [Clause.extended, Clause.mentions, Clause.slots, Phrase.slots]
  · rw [Clause.allMentions_eq, c.allMentions_eq, Clause.extended, List.flatMap_append,
      List.flatMap_singleton, hslot]

/-- **Completion is all or nothing.** Let a clause have just been left unmatched, in a bound
context.

* If its completion fails because nothing matches, the clause is as it was. So are all mentions and
  all bindings, but for at most two more mentions at the end, which are not bound.
* If it succeeds on the left, the first mention of the clause is a new one, copied from the last
  mention of the clause before.
* If it succeeds on the right, the last mention of the clause is a new one, copied from the first
  mention of the clause before, and the attempt on the left has failed.

In both cases the other mentions of the clause, at every depth, are those it had, in order.

**Proof sketch.** What is nested in the clause is settled, so that an attempt changes nothing but
for the copy unless something matches, and nothing but the clause itself can fail to match. A copy
joins the binding of its source, or a new one if the key of its source has none. When it is unbound
the first is as it was and the second is gone. -/
theorem complete_all_or_nothing (hx : x.Bound)
    (hlt : ∀ m ∈ c.allMentions, m.index < x.mentions.size)
    (hunmatched : resolve options' c₀ x₀ = ((c, .ok false), x)) :
    match complete options previous c x with
    | ((d, .ok .left), _) => ∃ copy, TriesOn options previous c .left x copy true ∧
        d.mentions = copy :: c.mentions ∧ d.allMentions = copy :: c.allMentions
    | ((d, .ok .right), _) => ∃ failed w copy, TriesOn options previous c .left x failed false ∧
        x.LeavesBehind 1 w ∧ TriesOn options previous c .right w copy true ∧
        d.mentions = c.mentions ++ [copy] ∧ d.allMentions = c.allMentions ++ [copy]
    | ((d, .error (.noFactTypeMatch _)), y) => d = c ∧ x.LeavesBehind 2 y
    | _ => True := by
  have hsettled := settled_of_unmatched hunmatched
  by_cases hcontinuing : isContinuing previous.conjunction c.conjunction = true
  swap
  · rw [complete, if_neg hcontinuing]
    exact ⟨rfl, (LeavesBehind.refl x).mono (Nat.zero_le 2)⟩
  have hleft := completeOn_spec options previous hx hsettled hlt .left
  rw [complete_eq hcontinuing]
  generalize completeOn options previous .left c x = attempt at hleft ⊢
  rcases attempt with ⟨⟨d, fault | _ | _⟩, w⟩
  · cases fault with
    | noFactTypeMatch text => exact absurd ⟨text, rfl⟩ hleft
    | _ => trivial
  · obtain ⟨rfl, hleaves, htried⟩ := hleft
    have hlt' : ∀ m ∈ d.allMentions, m.index < w.mentions.size := fun m hm =>
      (hlt m hm).trans_le hleaves.size_le
    have hsettled' : ∀ s ∈ d.slots, s.Settled w := by
      intro s hs e he
      refine (hsettled s hs e he).of_literals fun m hm => ?_
      rw [hleaves.mention_eq (hlt m (Clause.allMentions_subset_of_nested hs he hm))]
    have hright := completeOn_spec options previous (hleaves.bound hx) hsettled' hlt' .right
    dsimp only
    generalize completeOn options previous .right d w = attempt at hright ⊢
    rcases attempt with ⟨⟨e, fault | _ | _⟩, z⟩
    · cases fault with
      | noFactTypeMatch text => exact absurd ⟨text, rfl⟩ hright
      | _ => trivial
    · obtain ⟨rfl, hleaves', -⟩ := hright
      exact ⟨rfl, hleaves.trans hleaves'⟩
    · obtain ⟨copy, htries, hall, hmentions⟩ := hright
      obtain ⟨-, -, hright, hright'⟩ := mentions_extended d copy
      -- the clause before has a first mention, hence a last one
      have hlast : Contraction.left.source? previous ≠ none := by
        obtain ⟨source, _, hsource, -⟩ := htries
        intro hnone
        rw [Contraction.source?, List.getLast?_eq_none_iff] at hnone
        rw [Contraction.source?, hnone] at hsource
        cases hsource
      obtain ⟨failed, hfailed⟩ := htried.resolve_left hlast
      exact ⟨failed, w, copy, hfailed, hleaves, htries, hmentions.trans hright, hall.trans hright'⟩
  · obtain ⟨copy, htries, hall, hmentions⟩ := hleft
    obtain ⟨hleft, hleft', -⟩ := mentions_extended c copy
    exact ⟨copy, htries, hmentions.trans hleft, hall.trans hleft'⟩

/-- A clause without its first player borrows the last one of the clause before. -/
theorem complete_left :
    let clause (first : List Script.Phrase) (word : String) (last : List Script.Phrase) :
      Script.Clause := { phrases := first ++ .word word :: last, conjunction := some .and }
    let person : Script.Phrase := .mention { term := "Person" }
    let s := ((Session.start {}).declareAll [.entityType "Person",
      .factType [clause [person] "likes" [person]], .factType [clause [person] "smiles" []]]).2
    let entered :=
      (enter [clause [person] "likes" [person], clause [] "smiles" []]).perform s.context
    let cs := entered.1.toOption.getD []
    let first := resolve {} (cs.headD default) entered.2
    let second := resolve {} (cs.getLastD default) first.2
    second.1.2 = .ok false ∧
      (complete {} first.1.1 second.1.1 second.2).1.2 = .ok .left ∧
        ∃ copy, TriesOn {} first.1.1 second.1.1 .left second.2 copy true := by
  intro clause person s entered cs first second
  have hcomputed : (second.1.2.toOption = some false ∧
      (complete {} first.1.1 second.1.1 second.2).1.2.toOption = some .left) ∧
      ∀ m ∈ second.1.1.allMentions, m.index < second.2.mentions.size := by
    decide +kernel
  obtain ⟨⟨hunmatched, hleft⟩, hlt⟩ := hcomputed
  have hbound : ∀ {x : Context} (c : Clause), x.Bound → (resolve {} c x).2.Bound := fun c hx =>
    ((completes_bound {} none).leads_resolve c hx
      (Clause.everywhere_of_forall (fun _ => trivial) c)).snd
  have hentered : entered.2.Bound := bound_enter s.vocabulary s.settings.forwardTerms _
  clear_value entered
  have hsecond : second.2.Bound := hbound _ (hbound _ hentered)
  have hresolve : resolve {} (cs.getLastD default) first.2 = ((second.1.1, .ok false), second.2) :=
    Prod.ext (Prod.ext rfl (eq_ok_of_toOption hunmatched)) rfl
  clear_value second first
  have h := @complete_all_or_nothing {} _ first.1.1 _ _ _ _ hsecond hlt hresolve
  generalize complete {} first.1.1 second.1.1 second.2 = completed at h hleft ⊢
  obtain ⟨⟨d, outcome⟩, y⟩ := completed
  obtain rfl : outcome = .ok .left := eq_ok_of_toOption hleft
  obtain ⟨copy, htries, -⟩ := h
  exact ⟨eq_ok_of_toOption hunmatched, rfl, copy, htries⟩

end FactModel
