import FactModel.Proofs.Context.Speaking
import FactModel.Proofs.Matching.Flat
import FactModel.Proofs.Matching.Forwards
import FactModel.Proofs.Vocabulary.Comparisons
set_option autoImplicit false

/-!
# Resolving clauses one by one

A flat clause is resolved in one of three ways: it only names an individual, it invokes a reading,
or it is a comparison, which gets a fact type of its own. Where no clause of a query has to be
completed from the clause before it, resolving the query is resolving its clauses in this way, one
by one.

## Main definitions

* `FactModel.Compile.ResolvesTo` — the three ways in which a flat clause is resolved.
* `FactModel.Compile.ResolvesEach` — clauses have been resolved one by one.
* `FactModel.Context.Midway` — a context in which clauses can be resolved.

## Main results

* `FactModel.Compile.perform_resolveAll_flat` — a query of which no clause is completed is resolved
  clause by clause.
* `FactModel.Compile.ResolvesTo.midway` — further clauses can be resolved after one has been.
-/

namespace FactModel

open Attempt Compile Context

/-- The clause as a statement of the first reading of a fact type. -/
def Clause.compared (c : Clause) (v : Vocabulary) (f : FactTypeId) : Clause :=
  { c with
    factType := some f
    reading := some (v.firstReading f)
    roleSequence := some (v.reading (v.firstReading f)).roleSequence }

namespace Context

/-- The context with roles given to mentions, each with its place in a role sequence. -/
def giveRoles (x : Context) (s : RoleSequenceId) (items : List ((MentionId × RoleId) × Nat)) :
    Context :=
  items.foldl (fun x ((m, role), ordinal) =>
    x.modifyMention m ({ · with role := some role, roleRef := some (s, ordinal) })) x

section GiveRoles

variable (x : Context) (s : RoleSequenceId) (items : List ((MentionId × RoleId) × Nat))

/-- Giving roles leaves the vocabulary as it is. -/
lemma vocabulary_giveRoles : (x.giveRoles s items).vocabulary = x.vocabulary := by
  induction items generalizing x with
  | nil => rfl
  | cons item items ih => exact ih _

/-- Giving roles leaves bindings as they are. -/
lemma binding?_giveRoles : (x.giveRoles s items).binding? = x.binding? := by
  induction items generalizing x with
  | nil => rfl
  | cons item items ih => exact ih _

/-- Nothing of mentions but their roles changes. -/
lemma mention_giveRoles_apply {α : Type} (field : Mention → α)
    (hfield : ∀ mention role roleRef, field { mention with role, roleRef } = field mention)
    (n : MentionId) :
    field ((x.giveRoles s items).mention n) = field (x.mention n) := by
  induction items generalizing x with
  | nil => rfl
  | cons item items ih =>
    exact (ih _).trans (mention_modifyMention_apply field item.1.1 (fun _ => hfield ..) n)

/-- Only the mentions that are given roles change. -/
lemma mention_giveRoles_of_not_mem {n : MentionId} (hn : n ∉ items.map (·.1.1)) :
    (x.giveRoles s items).mention n = x.mention n := by
  induction items generalizing x with
  | nil => rfl
  | cons item items ih =>
    rw [List.map_cons, List.mem_cons, not_or] at hn
    refine (ih _ hn.2).trans ?_
    rw [mention_modifyMention, if_neg fun h => hn.1 h.1]

end GiveRoles

end Context

namespace Compile

variable {x y z : Context} {c d : Clause}

/-- Giving the mentions of a comparison their roles cannot fail. -/
lemma perform_giveRoles (s : RoleSequenceId) (items : List ((MentionId × RoleId) × Nat))
    (x : Context) :
    (items.forM fun ((m, role), ordinal) =>
      modifyMention m ({ · with role := some role, roleRef := some (s, ordinal) })).perform x =
        (.ok ⟨⟩, x.giveRoles s items) := by
  induction items generalizing x with
  | nil => rfl
  | cons item items ih => exact ih _

/-- The mentions of a comparison with the roles of the first reading of a fact type. -/
def comparedItems (v : Vocabulary) (f : FactTypeId) (left right : Slot) :
    List ((MentionId × RoleId) × Nat) :=
  ([left.mention, right.mention].zip
    (v.roleSequence (v.reading (v.firstReading f)).roleSequence).roles).zipIdx

/-- What resolving a comparison consists of. -/
lemma perform_resolveComparison_eq_ok {operator : String} {left right : Slot} :
    (resolveComparison c operator left right).perform x = (.ok d, y) ↔
      ∃ a b f w, (x.mention left.mention).player = some a ∧
      (x.mention right.mention).player = some b ∧
        (Vocabulary.comparisonFactType operator a b).perform x.vocabulary = (.ok f, w) ∧
        d = c.compared w f ∧ y = ({ x with vocabulary := w } : Context).giveRoles
          (w.reading (w.firstReading f)).roleSequence (comparedItems w f left right) := by
  have hplayer : ∀ {m t u}, (playerOf m).perform x = (.ok t, u) ↔
      (x.mention m).player = some t ∧ u = x := by
    intro m t u
    rw [playerOf, perform_get_bind, perform_ofExcept_eq_ok, Context.playerOf]
    cases (x.mention m).player <;> simp
  constructor
  · intro h
    obtain ⟨a, _, ha, h₁⟩ := perform_bind_eq_ok.1 h
    obtain ⟨ha, rfl⟩ := hplayer.1 ha
    obtain ⟨b, _, hb, h₂⟩ := perform_bind_eq_ok.1 h₁
    obtain ⟨hb, rfl⟩ := hplayer.1 hb
    obtain ⟨f, _, hedit, h₃⟩ := perform_bind_eq_ok.1 h₂
    obtain ⟨w, hf, rfl⟩ := perform_within_eq_ok.1 hedit
    rw [perform_get_bind] at h₃
    obtain ⟨_, _, hroles, hpure⟩ := perform_bind_eq_ok.1 h₃
    rw [perform_giveRoles] at hroles
    cases hroles
    cases hpure
    exact ⟨a, b, f, w, ha, hb, hf, rfl, rfl⟩
  · rintro ⟨a, b, f, w, ha, hb, hf, rfl, rfl⟩
    refine perform_bind_eq_ok.2 ⟨a, x, hplayer.2 ⟨ha, rfl⟩, ?_⟩
    refine perform_bind_eq_ok.2 ⟨b, x, hplayer.2 ⟨hb, rfl⟩, ?_⟩
    refine perform_bind_eq_ok.2 ⟨f, _, perform_within_eq_ok.2 ⟨w, hf, rfl⟩, ?_⟩
    rw [perform_get_bind]
    exact perform_bind_eq_ok.2 ⟨⟨⟩, _, perform_giveRoles .., rfl⟩

/-- The ways in which a flat clause is resolved. -/
inductive ResolvesTo (x : Context) (c : Clause) : Clause → Context → Prop
  | existential (hcomparison : c.comparison? = none) (h : x.isExistential c = true) :
      ResolvesTo x c c x
  | invokes {a : Alignment} {y : Context} (hcomparison : c.comparison? = none)
      (hexistential : x.isExistential c = false) (hselect : x.select c (x.rank {} c) = .ok (some a))
      (happly : (applyAlignment c a).perform x = (.ok (c.aligned a), y)) :
      ResolvesTo x c (c.aligned a) y
  | compares {operator : String} {left right : Slot} {a b : ObjectTypeId} {f : FactTypeId}
      {w : Vocabulary}
      (hcomparison : c.comparison? = some (operator, left, right))
      (hleft : (x.mention left.mention).player = some a)
      (hright : (x.mention right.mention).player = some b)
      (hfactType : (Vocabulary.comparisonFactType operator a b).perform x.vocabulary = (.ok f, w)) :
      ResolvesTo x c (c.compared w f) (({ x with vocabulary := w } : Context).giveRoles
        (w.reading (w.firstReading f)).roleSequence (comparedItems w f left right))

/-- What resolving a flat clause consists of. -/
theorem perform_resolveFlat_eq_ok :
    (resolveFlat {} c).perform x = (.ok (some d), y) ↔ ResolvesTo x c d y := by
  constructor
  · intro h
    unfold resolveFlat at h
    split at h
    · next operator left right hcomparison =>
      rw [← bind_pure_comp] at h
      obtain ⟨_, _, h, hpure⟩ := perform_bind_eq_ok.1 h
      cases hpure
      obtain ⟨a, b, f, w, ha, hb, hf, rfl, rfl⟩ := perform_resolveComparison_eq_ok.1 h
      exact .compares hcomparison ha hb hf
    · next hcomparison =>
      rw [perform_get_bind] at h
      split at h
      · next hexistential =>
        cases h
        exact .existential hcomparison hexistential
      · next hexistential =>
        rcases perform_invokeReading_eq_ok.1 h with ⟨-, hnone, -⟩ | ⟨a, hselect, hsome, happly⟩
        · cases hnone
        · cases hsome
          exact .invokes hcomparison (Bool.eq_false_iff.2 hexistential) hselect happly
  · intro h
    unfold resolveFlat
    cases h with
    | existential hcomparison h =>
      rw [hcomparison]
      dsimp only
      rw [perform_get_bind, if_pos h]
      rfl
    | invokes hcomparison hexistential hselect happly =>
      rw [hcomparison]
      dsimp only
      rw [perform_get_bind, if_neg (Bool.eq_false_iff.1 hexistential)]
      exact perform_invokeReading_eq_ok.2 (.inr ⟨_, hselect, rfl, happly⟩)
    | compares hcomparison hleft hright hfactType =>
      rw [hcomparison]
      dsimp only
      rw [← bind_pure_comp]
      refine perform_bind_eq_ok.2 ⟨_, _, ?_, rfl⟩
      exact perform_resolveComparison_eq_ok.2 ⟨_, _, _, _, hleft, hright, hfactType, rfl, rfl⟩

/-- Clauses have been resolved one by one. -/
inductive ResolvesEach : Context → List Clause → List Clause → Context → Prop
  | nil (x : Context) : ResolvesEach x [] [] x
  | cons {x y z : Context} {c d : Clause} {cs ds : List Clause} (h : ResolvesTo x c d y)
      (hrest : ResolvesEach y cs ds z) : ResolvesEach x (c :: cs) (d :: ds) z

/-- A clause that was completed on a side is marked so. -/
lemma ends_completeOn_contraction (previous : Clause) (side : Contraction) (c : Clause)
    (x : Context) :
    (ofResolved (completeOn {} previous side c)).Ends x
      (fun r _ => r.2 = true → r.1.contraction = some side) fun _ => True := by
  rw [ofResolved_completeOn]
  split
  · exact fun h => nomatch h
  · refine ends_bind_of_forall fun copy y => ends_bind_of_forall fun r z => ?_
    split
    · exact fun _ => rfl
    · exact ends_bind_of_forall fun _ _ => fun h => nomatch h

/-- A clause that was completed is marked so. -/
lemma ends_complete_contraction (previous c : Clause) (x : Context) :
    (ofResolved (complete {} previous c)).Ends x
      (fun r _ => r.1.contraction ≠ none) fun _ => True := by
  rw [ofResolved_complete]
  split
  · refine ends_bind.2
      ((ends_completeOn_contraction previous .left c x).imp (fun r y hr => ?_) fun _ h => h)
    split
    · next hmatched =>
      intro hnone
      exact nomatch (hr hmatched).symm.trans hnone
    · refine ends_bind.2 ((ends_completeOn_contraction previous .right r.1 y).imp (fun q z hq => ?_)
        fun _ h => h)
      split
      · next hmatched =>
        intro hnone
        exact nomatch (hq hmatched).symm.trans hnone
      · exact ends_bind.2 (ends_get.2 (ends_throw _ |>.2 trivial))
  · exact ends_bind.2 (ends_get.2 (ends_throw _ |>.2 trivial))

/-- Resolving a flat clause does not complete it. -/
lemma ResolvesTo.contraction_eq (h : ResolvesTo x c d y) : d.contraction = c.contraction := by
  cases h <;> rfl

/-- Resolving a flat clause of a query so that it is not completed is resolving it by itself. -/
lemma perform_resolveAsked_flat {contraction : Bool} {previous : Option Clause} (hc : c.IsFlat)
    (hnone : c.contraction = none) :
    ((resolveAsked contraction previous c).perform x = (.ok d, y) ∧ d.contraction = none) ↔
      ResolvesTo x c d y := by
  unfold resolveAsked
  rw [hc.ofResolved_resolve, ofResolved_resolveItself]
  constructor
  · rintro ⟨h, hd⟩
    obtain ⟨⟨e, matched⟩, w, hfirst, hrest⟩ := perform_bind_eq_ok.1 h
    obtain ⟨r, w', hresolve, hpure⟩ := perform_bind_eq_ok.1 hfirst
    cases r with
    | some resolved =>
      cases hpure
      cases hrest
      exact perform_resolveFlat_eq_ok.1 hresolve
    | none =>
      cases hpure
      dsimp only at hrest
      rw [if_neg Bool.false_ne_true] at hrest
      split at hrest
      · rw [← bind_pure_comp] at hrest
        obtain ⟨r, _, hcomplete, hpure⟩ := perform_bind_eq_ok.1 hrest
        cases hpure
        exact absurd hd ((ends_complete_contraction ..).of_perform hcomplete)
      · rw [perform_get_bind] at hrest
        cases hrest
  · intro h
    refine ⟨perform_bind_eq_ok.2 ⟨(d, true), y, perform_bind_eq_ok.2 ⟨some d, y, ?_, rfl⟩, rfl⟩, ?_⟩
    · exact perform_resolveFlat_eq_ok.2 h
    · exact h.contraction_eq.trans hnone

/-- **Queries are resolved clause by clause.** Resolving flat clauses so that none has to be
completed is resolving each of them by itself. -/
theorem perform_resolveAll_flat {contraction : Bool} {previous : Option Clause}
    {cs ds : List Clause}
    (hcs : ∀ c ∈ cs, c.IsFlat ∧ c.contraction = none) :
    ((resolveAll contraction previous cs).perform x = (.ok ds, y) ∧ ∀ d ∈ ds,
      d.contraction = none) ↔
      ResolvesEach x cs ds y := by
  induction cs generalizing previous x ds with
  | nil =>
    constructor
    · rintro ⟨h, -⟩
      cases h
      exact .nil _
    · intro h
      cases h
      exact ⟨rfl, fun _ hd => absurd hd List.not_mem_nil⟩
  | cons c cs ih =>
    obtain ⟨⟨hflat, hnone⟩, hcs⟩ := List.forall_mem_cons.1 hcs
    constructor
    · rintro ⟨h, hds⟩
      obtain ⟨d, z, hfirst, hrest⟩ := perform_bind_eq_ok.1 h
      obtain ⟨es, _, hothers, hpure⟩ := perform_bind_eq_ok.1 hrest
      cases hpure
      obtain ⟨hd, hes⟩ := List.forall_mem_cons.1 hds
      exact .cons ((perform_resolveAsked_flat hflat hnone).1 ⟨hfirst, hd⟩)
        ((ih hcs).1 ⟨hothers, hes⟩)
    · intro h
      cases h with
      | cons hfirst hrest =>
        have hasked : (resolveAsked contraction previous c).perform x = (.ok _, _) ∧ _ :=
          (perform_resolveAsked_flat hflat hnone).2 hfirst
        obtain ⟨hasked, hd⟩ := hasked
        obtain ⟨hothers, hes⟩ := (ih hcs).2 hrest
        refine ⟨perform_bind_eq_ok.2 ⟨_, _, hasked, perform_bind_eq_ok.2 ⟨_, _, hothers, rfl⟩⟩, ?_⟩
        exact List.forall_mem_cons.2 ⟨hd, hes⟩

end Compile

/-! ## Contexts between two clauses -/

/-- A flat clause of plain words of which nothing but the text is known. -/
structure Clause.IsFresh (c : Clause) : Prop extends c.IsAdopted where
  isFlat : c.IsFlat
  alignment_eq : c.alignment = none
  contraction_eq : c.contraction = none

/-- A context in which flat clauses can be resolved, over a vocabulary in which rankings look up
what they do in a given one. -/
structure Context.Midway (v : Vocabulary) (x : Context) : Prop where
  matchable : x.Matchable
  unmerged : x.Unmerged
  valid : x.Valid
  grows : v.Grows x.vocabulary
  matchesAs : v.MatchesAs x.vocabulary

namespace Context

variable {x y : Context} {v : Vocabulary}

namespace Midway

/-- A mention that has a binding has a player. -/
lemma player_isSome (h : x.Midway v) {m : MentionId} (hm : (x.mention m).binding.isSome) :
    (x.mention m).player.isSome := by
  obtain ⟨b, B, -, -, -, hplayer, -, -⟩ := exists_binding h.matchable.bound h.matchable.speaks hm
  rw [hplayer]
  rfl

/-- A context midway over a vocabulary is midway over its own. -/
lemma self (h : x.Midway v) : x.Midway x.vocabulary :=
  { h with grows := .refl _, matchesAs := .refl _ }

/-- A context midway over the vocabulary of another one is midway over what that one is midway
over. -/
lemma trans (h : x.Midway y.vocabulary) (hy : y.Midway v) : x.Midway v :=
  { h with
    grows := hy.grows.trans h.grows
    matchesAs := hy.matchesAs.trans hy.grows h.matchesAs }

end Midway

/-- The alignment that is selected has a placement for each mention. -/
lemma mentions_of_select {options : MatchOptions} {c : Clause} {a : Alignment}
    (h : x.select c (x.rank options c) = .ok (some a)) :
    a.placements.map (·.mention) = c.mentions :=
  (align_eq_ok_iff.1 (mem_rank.1 (mem_of_select h)).2).2.1.mentions_eq

/-- Mentions may be given roles where the names of types have stayed the same. -/
lemma Matchable.giveRoles (h : x.Matchable) {w : Vocabulary}
    (hname : ∀ t, w.nameOf t = x.vocabulary.nameOf t)
    (s : RoleSequenceId) (items : List ((MentionId × RoleId) × Nat)) :
    (({ x with vocabulary := w } : Context).giveRoles s items).Matchable := by
  have hmention : ∀ {α : Type} (field : Mention → α),
      (∀ mention role roleRef, field { mention with role, roleRef } = field mention) → ∀ n,
        field ((({ x with vocabulary := w } : Context).giveRoles s items).mention n) =
          field (x.mention n) :=
    fun field hfield => mention_giveRoles_apply _ s items field hfield
  have hkey : ∀ n, (({ x with vocabulary := w } : Context).giveRoles s items).bindingKey n =
      x.bindingKey n := fun n => by
    have hsame := hmention
      (fun m => (m.playerByRoleName, m.player, m.roleName, m.term, m.leading, m.trailing,
        m.literal))
      (fun _ _ _ => rfl) n
    simp only [Prod.mk.injEq] at hsame
    obtain ⟨hflag, hplayer, hroleName, hterm, hleading, htrailing, hliteral⟩ := hsame
    simp only [bindingKey, hflag, hplayer, hroleName, hterm, hleading, htrailing, hliteral,
      vocabulary_giveRoles, hname]
  refine ⟨?_, ?_, ?_⟩
  · have hbound : ∀ (items : List ((MentionId × RoleId) × Nat)) {z : Context}, z.Bound →
        (z.giveRoles s items).Bound := by
      intro items
      induction items with
      | nil => exact id
      | cons item items ih => exact fun hz => ih (hz.giveRole item.1.1 _ _)
    exact hbound items (h.bound.withVocabulary hname)
  · refine h.speaks.of_smaller (hmention Mention.player fun _ _ _ => rfl) fun {b B} hB => ?_
    rw [binding?_giveRoles] at hB
    exact ⟨B, B.mentions, hB, rfl, List.Subset.refl _⟩
  · exact h.keysAgree.of_same (hmention Mention.player fun _ _ _ => rfl) fun n => by rw [hkey]

end Context

namespace Compile.ResolvesTo

variable {v : Vocabulary} {x y : Context} {c d : Clause} (h : ResolvesTo x c d y)

include h

/-- Only the mentions of the clause change. -/
lemma mention_eq_of_not_mem {m : MentionId} (hm : m ∉ c.mentions) : y.mention m = x.mention m :=
  ((leads_resolveFlat_changesOnly {} (fun _ hn => hn) x).of_perform
    (perform_resolveFlat_eq_ok.2 h)).1 m hm

/-- A clause keeps its slots. -/
lemma slots_eq : d.slots = c.slots := by
  cases h with
  | existential => rfl
  | invokes _ _ hselect => exact Clause.slots_aligned (mem_rank.1 (mem_of_select hselect)).2
  | compares => rfl

/-- A clause that states a reading has the mentions that it had. -/
lemma mentions_eq : d.mentions = c.mentions := by
  rw [Clause.mentions, h.slots_eq, Clause.mentions]

/-- A clause that is resolved has mentions. -/
lemma mentions_ne_nil : c.mentions ≠ [] := by
  cases h with
  | existential _ h =>
    unfold isExistential at h
    split at h
    · next s hs => simp [Clause.mentions, Clause.slots, hs, Phrase.slots]
    · cases h
  | invokes _ _ hselect => exact (mem_triedReadings (mem_rank.1 (mem_of_select hselect)).1).1
  | compares hcomparison =>
    simp [Clause.mentions, Clause.slots, Clause.phrases_of_comparison? hcomparison, Phrase.slots]

/-- **Resolving goes on.** Further clauses can be resolved after a clause has been, and the same
mentions are bound. -/
theorem midway (hx : x.Midway v) (hc : c.Valid x.vocabulary) (hnodup : c.mentions.Nodup)
    (hbound : ∀ m ∈ c.mentions, (x.mention m).binding.isSome) :
    y.Midway v ∧ d.Valid y.vocabulary ∧
      ∀ m, (y.mention m).binding.isSome ↔ (x.mention m).binding.isSome := by
  have hperform := perform_resolveFlat_eq_ok.2 h
  have hextends := (leads_resolveFlat hx.valid hc {}).of_perform hperform
  have hcarries :=
    ((leads_resolveFlat_carries (Carries.refl (Nat.le_refl _) hx.unmerged) {} c).of_perform
    hperform).1
  refine ⟨⟨?_, hcarries.unmerged, hextends.1.valid, hx.grows.trans hextends.1.grows, ?_⟩,
    hextends.2 d rfl,
    fun m => ?_⟩
  · cases h with
    | existential => exact hx.matchable
    | @invokes a y' _ _ hselect happly =>
      have hmentions := mentions_of_select hselect
      obtain ⟨z, hz, -, hmatchable⟩ := hx.matchable.exists_applyAlignment c (hmentions ▸ hnodup)
        fun p hp => hbound _ (hmentions ▸ List.mem_map_of_mem hp)
      rw [happly] at hz
      cases hz
      exact hmatchable
    | compares _ _ _ hfactType =>
      exact hx.matchable.giveRoles
        ((Vocabulary.leads_comparisonFactType_nameOf ..).of_perform hfactType).1 _ _
  · exact hx.matchesAs.trans hx.grows
      (matchesAs_resolveFlat hx.valid.consistent.toWellFormed hperform)
  · by_cases hm : m ∈ c.mentions
    · have hmbound := hbound m hm
      have hcontinues := hcarries.continues m (index_lt_of_binding hmbound)
      exact iff_of_true (hcontinues.isBound (hx.player_isSome hmbound) hmbound) hmbound
    · rw [h.mention_eq_of_not_mem hm]

end Compile.ResolvesTo

namespace Compile.ResolvesEach

variable {v : Vocabulary} {x y : Context} {cs ds : List Clause}

/-- **Resolving one by one.** Clauses that are resolved one by one keep their mentions. Only these
change, all stay bound, and further clauses can be resolved. -/
theorem midway (h : ResolvesEach x cs ds y) (hx : x.Midway v) (hcs : ∀ c ∈ cs, c.IsFresh)
    (hnodup : (cs.flatMap Clause.mentions).Nodup)
    (hbound : ∀ m ∈ cs.flatMap Clause.mentions, (x.mention m).binding.isSome) :
    y.Midway v ∧ ds.map Clause.mentions = cs.map Clause.mentions ∧
      (∀ m, (y.mention m).binding.isSome ↔ (x.mention m).binding.isSome) ∧
      ∀ m ∉ cs.flatMap Clause.mentions, y.mention m = x.mention m := by
  induction h with
  | nil x => exact ⟨hx, rfl, fun _ => Iff.rfl, fun _ _ => rfl⟩
  | @cons x z y c d cs ds hfirst hrest ih =>
    obtain ⟨hc, hcs⟩ := List.forall_mem_cons.1 hcs
    rw [List.flatMap_cons] at hnodup hbound
    obtain ⟨hnodup, hnodup', -⟩ := List.nodup_append'.1 hnodup
    obtain ⟨hz, -, hzbound⟩ := hfirst.midway hx (hc.valid _) hnodup fun m hm =>
      hbound m (List.mem_append_left _ hm)
    obtain ⟨hy, hmentions, hybound, hsame⟩ := ih hz hcs hnodup' fun m hm =>
      (hzbound m).2 (hbound m (List.mem_append_right _ hm))
    refine ⟨hy, ?_, fun m => (hybound m).trans (hzbound m), fun m hm => ?_⟩
    · rw [List.map_cons, List.map_cons, hmentions, hfirst.mentions_eq]
    · rw [List.flatMap_cons, List.mem_append, not_or] at hm
      exact (hsame m hm.2).trans (hfirst.mention_eq_of_not_mem hm.1)

end Compile.ResolvesEach

end FactModel
