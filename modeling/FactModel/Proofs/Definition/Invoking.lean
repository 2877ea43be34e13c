import FactModel.Proofs.Definition.Constraining
import FactModel.Proofs.Definition.Creation
import FactModel.Proofs.Matching.Onto
set_option autoImplicit false

/-!
# Flat clauses that invoke readings

A declaration of a flat clause that invokes a reading consists of two parts. What the clause
invokes is settled by types, fact types and readings alone, so that it is settled in the same way
over any vocabulary with the same ones. Only then role names, role sequences and constraints matter.

## Main definitions

* `FactModel.Compile.Transfers` — a change that does the same over another vocabulary.
* `FactModel.Compile.Invokes` — a flat clause invokes a reading.
* `FactModel.Compile.Finds` — flat clauses find readings, one behind the other.

## Main results

* `FactModel.Compile.Invokes.onto` — it does so over every vocabulary with the same readings.
* `FactModel.Compile.Invokes.perform_stateAll_eq_ok` — such a clause is adjusted to its reading.
* `FactModel.Compile.Finds.onto` — clauses find the same over every vocabulary with the same
  readings.
-/

namespace FactModel

open Attempt Compile Context

/-! ## Changes over another vocabulary -/

namespace Compile

variable {x y : Context} {v w : Vocabulary} {c d : Clause} {a : Alignment}

/-- A change that leaves the vocabulary as it is, and does the same over every vocabulary in which
object types have the same names. -/
def Transfers {α : Type} (change : Compile α) : Prop :=
  ∀ (x : Context) (w : Vocabulary), (∀ t, w.nameOf t = x.vocabulary.nameOf t) →
    (change.perform x).2.vocabulary = x.vocabulary ∧
      change.perform (x.onto w) = ((change.perform x).1, (change.perform x).2.onto w)

/-- A value is the same over every vocabulary. -/
lemma transfers_pure {α : Type} (value : α) : Transfers (pure value : Compile α) :=
  fun _ _ _ => ⟨rfl, rfl⟩

/-- What does the same over every vocabulary may be followed by what does. -/
lemma Transfers.bind {α β : Type} {change : Compile α} {next : α → Compile β}
    (h : Transfers change) (hnext : ∀ value, Transfers (next value)) :
    Transfers (change >>= next) := by
  intro x w hname
  obtain ⟨hvocabulary, hover⟩ := h x w hname
  rw [perform_bind, perform_bind, hover]
  rcases hchange : change.perform x with ⟨fault | value, y⟩
  · rw [hchange] at hvocabulary
    exact ⟨hvocabulary, rfl⟩
  · rw [hchange] at hvocabulary
    obtain ⟨hvocabulary', hover'⟩ := hnext value y w fun t => by rw [hname, ← hvocabulary]
    exact ⟨hvocabulary'.trans hvocabulary, hover'⟩

/-- Changes in turn do the same over every vocabulary if each does. -/
lemma Transfers.forM {ι : Type} {change : ι → Compile PUnit} (h : ∀ i, Transfers (change i)) :
    ∀ is : List ι, Transfers (is.forM change)
  | [] => transfers_pure _
  | i :: is => (h i).bind fun _ => Transfers.forM h is

/-- Taking a mention out of its binding does the same over another vocabulary. -/
lemma unbind_onto (x : Context) (w : Vocabulary) (m : MentionId) :
    (x.onto w).unbind m = (x.unbind m).onto w := by
  have hmention : (x.onto w).mention m = x.mention m := rfl
  have hstrike : ∀ (y : Context) (b : BindingId),
    (y.onto w).strike m b = (y.strike m b).onto w := by
    intro y b
    have hbinding : (y.onto w).binding? b = y.binding? b := rfl
    unfold Context.strike
    rw [hbinding]
    cases y.binding? b with
    | none => rfl
    | some binding =>
      dsimp only
      split <;> rfl
  unfold Context.unbind
  rw [hmention]
  cases (x.mention m).binding with
  | none => rfl
  | some b => exact hstrike (x.modifyMention m ({ · with binding := none })) b

/-- Binding a mention does the same over every vocabulary with the same names. -/
lemma transfers_bind (m : MentionId) : Transfers (Compile.bind m) := by
  intro x w hname
  have hplayer : ∀ y : Context, (playerOf m).perform y = (y.playerOf m, y) := by
    intro y
    rw [playerOf, perform_get_bind]
    cases y.playerOf m <;> rfl
  unfold Compile.bind
  rw [perform_bind, perform_bind, hplayer, hplayer,
    show (x.onto w).playerOf m = x.playerOf m from rfl]
  cases x.playerOf m with
  | error fault => exact ⟨rfl, rfl⟩
  | ok player =>
    refine ⟨vocabulary_bindAs .., ?_⟩
    exact congrArg (fun r => (Except.ok r.1, r.2)) (bindAs_over fun t _ => hname t)

/-- Binding a mention anew does the same over every vocabulary with the same names. -/
lemma transfers_rebind (m : MentionId) : Transfers (rebind m) := by
  have hunbind : Transfers (Compile.unbind m) := fun x w _ =>
    ⟨vocabulary_unbind x m, congrArg (Except.ok PUnit.unit, ·) (unbind_onto x w m)⟩
  exact hunbind.bind fun _ => transfers_bind m

/-- Giving a mention its role does the same over another vocabulary: keys are made of names. -/
lemma transfers_applyPlacement (s : RoleSequenceId) (p : Placement) :
    Transfers (applyPlacement s p) := by
  intro x w hname
  have hkey : ∀ y : Context, y.vocabulary = x.vocabulary →
      (y.onto w).bindingKey p.mention = y.bindingKey p.mention := fun y hy =>
    bindingKey_over fun t _ => hy ▸ hname t
  -- What is left to do once the mention has been changed: whether it is bound anew depends on keys.
  have hrest : ∀ y : Context, y.vocabulary = x.vocabulary →
      let rest : Compile Unit := do
        let after := (← get).bindingKey p.mention
        if after ≠ x.bindingKey p.mention then
          let _ ← rebind p.mention
      (rest.perform y).2.vocabulary = x.vocabulary ∧
        rest.perform (y.onto w) = ((rest.perform y).1, (rest.perform y).2.onto w) := by
    intro y hy rest
    dsimp only [rest]
    rw [perform_get_bind, perform_get_bind, hkey y hy]
    split
    · rw [← hy]
      exact ((transfers_rebind p.mention).bind fun _ => transfers_pure _) y w (hy ▸ hname)
    · exact ⟨hy, rfl⟩
  unfold applyPlacement
  rw [perform_get_bind, perform_get_bind, hkey x rfl]
  exact hrest (x.modifyMention p.mention _) rfl

/-- Putting a clause into the words of a reading does the same over another vocabulary. -/
theorem transfers_applyAlignment (c : Clause) (a : Alignment) : Transfers (applyAlignment c a) :=
  (Transfers.forM (transfers_applyPlacement a.roleSequence) _).bind fun _ => transfers_pure _

/-! ## Rankings -/

/-- What rankings look up is the same where types, fact types and readings are, and roles have only
been named. -/
theorem SameReadings.matchesAs (h : SameReadings v w) (hgrows : v.Grows w) (hv : v.WellFormed) :
    v.MatchesAs w := by
  have hobject : w.objectType = v.objectType := by
    funext t
    rw [Vocabulary.objectType, h.objectTypes_eq, Vocabulary.objectType]
  have hfactType : w.factType = v.factType := by
    funext f
    rw [Vocabulary.factType, h.factTypes_eq, Vocabulary.factType]
  have hsupertypes : w.supertypes = v.supertypes := by
    funext t
    unfold Vocabulary.supertypes
    rw [hobject, h.objectTypes_eq]
  have hsubtypes : w.subtypes = v.subtypes := by
    funext t
    unfold Vocabulary.subtypes
    rw [hobject, h.objectTypes_eq]
  have hacceptable : w.acceptable = v.acceptable := by
    funext exact t
    simp only [Vocabulary.acceptable, Vocabulary.relatedTypes, hsupertypes, hsubtypes]
  have hplayer : ∀ r ∈ v.roleIds, w.playerOf r = v.playerOf r := fun _ hr => hgrows.playerOf_eq hr
  refine ⟨hacceptable, ?_, ?_, fun exact players types => ?_, fun f _ => congrFun hfactType f,
    hplayer,
    fun r hr => (hgrows.role hr).ordinal_eq, fun r _ => ?_, fun r hr => ?_⟩
  · funext t u
    simp only [Vocabulary.commonSupertype?, hsupertypes]
  · funext t u
    simp only [Vocabulary.isSubtypeOf, hsupertypes]
  · have hfactTypes : w.factTypesOf types = v.factTypesOf types := by
      have hplayed : w.rolesPlayedBy = v.rolesPlayedBy := by
        funext t
        rw [Vocabulary.rolesPlayedBy, hobject, Vocabulary.rolesPlayedBy]
      unfold Vocabulary.factTypesOf
      rw [hplayed]
      congr 1
      refine List.map_congr_left fun r hr => ?_
      obtain ⟨t, -, hr⟩ := List.mem_flatMap.1 hr
      exact (hgrows.role (hv.mem_rolesPlayedBy.1 hr).1).factType_eq
    rw [hfactTypes]
    refine List.filter_congr fun f _ => ?_
    simp only [Vocabulary.isEligible, hfactType, hacceptable]
    congr 2
    refine List.map_congr_left fun r hr => ?_
    rw [hplayer r (hv.mem_roles.1 hr).1]
  · rw [Vocabulary.reading, h.readings_eq, Vocabulary.reading]
  · have hreading : w.reading r = v.reading r := by
      rw [Vocabulary.reading, h.readings_eq, Vocabulary.reading]
    rw [Vocabulary.readingRefs, hreading,
      hgrows.roleSequence_eq (hv.reading_roleSequence_mem r hr), Vocabulary.readingRefs]

/-- Nothing is selected over one vocabulary that is not over the other. -/
lemma select_onto {ranking : Ranking} {o : Option Alignment} (h : x.select c ranking = .ok o)
    (hw : ∀ a ∈ ranking.alignments, w.factType a.factType = x.vocabulary.factType a.factType) :
    (x.onto w).select c ranking = .ok o := by
  have hagree : ∀ as ⊆ ranking.alignments, (x.onto w).agree as = x.agree as := by
    intro as has
    unfold Context.agree
    congr 1
    rw [Bool.eq_iff_iff, List.all_eq_true, List.all_eq_true]
    refine forall₂_congr fun a ha => ?_
    rw [show (x.onto w).vocabulary = w from rfl, hw a (has ha)]
  unfold Context.select at h ⊢
  split at h
  · exact h
  · cases h
  · next best others halignments =>
    dsimp only at h ⊢
    have hcheapest : cheapest (best :: others) ⊆ ranking.alignments := by
      rw [halignments]
      exact List.cons_subset_cons best (List.takeWhile_subset _)
    rw [hagree _ hcheapest]
    split at h
    · next hagrees =>
      rw [if_pos hagrees]
      exact h
    · cases h

/-! ## Invoking a reading -/

/-- A clause without nested clauses that has words invokes a reading, where players stand only for
themselves. -/
structure Invokes (x : Context) (c : Clause) (a : Alignment) (y : Context) : Prop where
  flat : c.IsFlat
  words : c.phrases.all (·.word?.isNone) = false
  select_eq : x.select c (x.rank { exactTypes := true } c) = .ok (some a)
  apply_eq : (applyAlignment c a).perform x = (.ok (c.aligned a), y)

namespace Invokes

variable (h : Invokes x c a y)

include h

/-- What the clause invokes is a reading that there is. -/
lemma reading_mem (hx : x.vocabulary.WellFormed) : a.reading ∈ x.vocabulary.readingIds := by
  obtain ⟨htried, -⟩ := mem_rank.1 (mem_of_select h.select_eq)
  obtain ⟨-, f, hf⟩ := mem_triedReadings htried
  exact (hx.mem_readings.1 hf).1

/-- Invoking a reading leaves the vocabulary as it is. -/
lemma vocabulary_eq : y.vocabulary = x.vocabulary := by
  have hvocabulary := (transfers_applyAlignment c a x x.vocabulary fun _ => rfl).1
  rwa [h.apply_eq] at hvocabulary

/-- **What a clause invokes is settled by types and readings.** Over a vocabulary with the same
types, fact types and readings the clause invokes the same reading in the same way. -/
theorem onto (hx : x.vocabulary.WellFormed) (hgrows : x.vocabulary.Grows w)
    (hsame : SameReadings x.vocabulary w) : Invokes (x.onto w) c a (y.onto w) := by
  have hmatches := hsame.matchesAs hgrows hx
  refine ⟨h.flat, h.words, ?_, ?_⟩
  · rw [rank_onto hmatches hx]
    refine select_onto h.select_eq fun b hb => hmatches.factType_eq _ ?_
    obtain ⟨htried, halign⟩ := mem_rank.1 hb
    obtain ⟨-, f, hf⟩ := mem_triedReadings htried
    obtain ⟨-, -, -, hfactType, -, -⟩ := align_eq_ok_iff.1 halign
    rw [hfactType]
    exact hx.reading_factType_mem (hx.mem_readings.1 hf).1
  · have hname : ∀ t, w.nameOf t = x.vocabulary.nameOf t := fun t => by
      simp only [Vocabulary.nameOf, Vocabulary.objectType, hsame.objectTypes_eq]
    rw [(transfers_applyAlignment c a x w hname).2, h.apply_eq]

/-- The clause is resolved by putting it into the words of the reading. -/
lemma resolveStated_eq : (resolveStated c).perform x = (.ok (c.aligned a), y) := by
  refine (perform_resolveStated_eq_ok h.flat).2 ⟨h.words, some (c.aligned a), ?_, rfl⟩
  exact perform_invokeReading_eq_ok.2 (.inr ⟨a, h.select_eq, rfl, h.apply_eq⟩)

/-- The clause comes to be adjusted to the reading that it invokes. -/
theorem perform_stateAll_eq_ok {f : FactTypeId} {created : Bool} {ds : List Clause} {z : Context} :
    (stateAll [c]).perform x = (.ok (f, created, ds), z) ↔
      f = a.factType ∧ created = false ∧
        ∃ d, ds = [d] ∧ (adjust (c.aligned a)).perform y = (.ok d, z) := by
  have hresolve : (resolveAllStated [c]).perform x = (.ok [c.aligned a], y) :=
    perform_bind_eq_ok.2 ⟨c.aligned a, y, h.resolveStated_eq, rfl⟩
  have hstated : (statedFactType [c.aligned a]).perform y =
      (.ok (a.factType, false, [c.aligned a]), y) := rfl
  rw [stateAll, perform_bind, hresolve]
  dsimp only
  rw [perform_bind, hstated]
  dsimp only
  rw [stateReadings, if_pos (show (c.aligned a).reading.isSome from rfl), perform_bind_eq_ok]
  constructor
  · rintro ⟨es, z', hadjusts, hpure⟩
    obtain ⟨d, z'', hadjust, hnil⟩ := perform_bind_eq_ok.1 hadjusts
    cases hnil
    cases hpure
    exact ⟨rfl, rfl, d, rfl, hadjust⟩
  · rintro ⟨rfl, rfl, d, rfl, hadjust⟩
    exact ⟨[d], z, perform_bind_eq_ok.2 ⟨d, z, hadjust, rfl⟩, rfl⟩

end Invokes

/-- One flat clause that states a fact type which is not new invokes a reading of it. -/
theorem exists_invokes (hflat : c.IsFlat) (hunmatched : c.factType = none)
    {f : FactTypeId} {ds : List Clause} {z : Context}
    (h : (stateAll [c]).perform x = (.ok (f, false, ds), z)) : ∃ a y, Invokes x c a y := by
  obtain ⟨resolved, y, hresolve, hrest⟩ := perform_bind_eq_ok.1 h
  obtain ⟨⟨g, created, stated⟩, y', hstated, hrest⟩ := perform_bind_eq_ok.1 hrest
  obtain ⟨read, y'', -, hpure⟩ := perform_bind_eq_ok.1 hrest
  cases hpure
  obtain ⟨d, y₁, hd, hnil⟩ := perform_bind_eq_ok.1 hresolve
  cases hnil
  obtain ⟨hwords, r, hinvoke, rfl⟩ := (perform_resolveStated_eq_ok hflat).1 hd
  rcases perform_invokeReading_eq_ok.1 hinvoke with ⟨-, rfl, -⟩ | ⟨a, hselect, rfl, happly⟩
  · -- A clause that invokes nothing gets a new fact type.
    unfold statedFactType at hstated
    simp only [Option.getD_none, List.filterMap_cons, hunmatched, List.filterMap_nil,
      List.eraseDups_nil] at hstated
    obtain ⟨_, _, -, hpure⟩ := perform_bind_eq_ok.1 hstated
    cases hpure
  · exact ⟨a, y, hflat, hwords, hselect, happly⟩

end Compile

/-! ## Finding readings -/

namespace Compile

variable {x y z : Context} {c : Clause} {cs ds : List Clause} {a : Alignment}
  {os : List (Option Alignment)} {w : Vocabulary}

/-- Flat clauses find readings, one behind the other: each of them invokes one, or no reading
matches it. -/
inductive Finds : Context → List Clause → List (Option Alignment) → Context → Prop
  | nil (x : Context) : Finds x [] [] x
  | misses {x y : Context} {c : Clause} {cs : List Clause} {os : List (Option Alignment)}
      (flat : c.IsFlat) (words : c.phrases.all (·.word?.isNone) = false)
      (select_eq : x.select c (x.rank { exactTypes := true } c) = .ok none)
      (rest : Finds x cs os y) : Finds x (c :: cs) (none :: os) y
  | invokes {x y z : Context} {c : Clause} {a : Alignment} {cs : List Clause}
      {os : List (Option Alignment)} (first : Invokes x c a y) (rest : Finds y cs os z) :
      Finds x (c :: cs) (some a :: os) z

/-- A clause as it is once it has found a reading, or none. -/
def found (c : Clause) (o : Option Alignment) : Clause :=
  o.elim c c.aligned

/-- Flat clauses that state readings are resolved by finding readings. -/
lemma perform_resolveAllStated_eq_ok (hflat : ∀ c ∈ cs, c.IsFlat) :
    (resolveAllStated cs).perform x = (.ok ds, y) ↔
      ∃ os, Finds x cs os y ∧ ds = List.zipWith found cs os := by
  constructor
  · intro h
    induction cs generalizing x ds with
    | nil =>
      cases h
      exact ⟨[], .nil _, rfl⟩
    | cons c cs ih =>
      obtain ⟨hc, hcs⟩ := List.forall_mem_cons.1 hflat
      obtain ⟨d, z, hfirst, hrest⟩ := perform_bind_eq_ok.1 h
      obtain ⟨es, z', hmore, hpure⟩ := perform_bind_eq_ok.1 hrest
      cases hpure
      obtain ⟨os, hfinds, rfl⟩ := ih hcs hmore
      obtain ⟨hwords, r, hinvoke, rfl⟩ := (perform_resolveStated_eq_ok hc).1 hfirst
      rcases perform_invokeReading_eq_ok.1 hinvoke with
        ⟨hselect, rfl, rfl⟩ | ⟨a, hselect, rfl, happly⟩
      · exact ⟨none :: os, .misses hc hwords hselect hfinds, rfl⟩
      · exact ⟨some a :: os, .invokes ⟨hc, hwords, hselect, happly⟩ hfinds, rfl⟩
  · rintro ⟨os, hfinds, rfl⟩
    clear hflat
    induction hfinds with
    | nil x => rfl
    | misses hc hwords hselect _ ih =>
      have hfirst := (perform_resolveStated_eq_ok hc).2 ⟨hwords, none,
        perform_invokeReading_eq_ok.2 (.inl ⟨hselect, rfl, rfl⟩), rfl⟩
      exact perform_bind_eq_ok.2 ⟨_, _, hfirst, perform_bind_eq_ok.2 ⟨_, _, ih, rfl⟩⟩
    | invokes hfirst _ ih =>
      exact perform_bind_eq_ok.2 ⟨_, _, hfirst.resolveStated_eq,
        perform_bind_eq_ok.2 ⟨_, _, ih, rfl⟩⟩

/-- Invoking a reading changes only the mentions of the clause. -/
lemma Invokes.changesOnly (h : Invokes x c a y) : x.ChangesOnly (· ∈ c.mentions) y := by
  have hmentions : a.placements.map (·.mention) = c.mentions :=
    (align_eq_ok_iff.1 (mem_rank.1 (mem_of_select h.select_eq)).2).2.1.mentions_eq
  have happly : (applyAlignment c a).Leads (ChangesOnly (· ∈ c.mentions)) x fun _ _ => True := by
    refine Leads.bind (Leads.forM (.refl x) fun p hp y _ => ?_) fun _ y _ _ =>
      leads_pure (.refl y) trivial
    have hmem := List.mem_map_of_mem (f := Placement.mention) (List.mem_reverse.1 hp)
    exact (leads_applyPlacement_changesOnly (hmentions ▸ hmem) a.roleSequence y).imp
      fun _ z _ _ => .refl z
  exact (happly.of_perform h.apply_eq).1

namespace Finds

/-- What a clause keeps when it is put into the words of a reading is kept by clauses that find
readings. -/
lemma map_found {β : Type} (h : Finds x cs os y) (field : Clause → β)
    (hfield : ∀ c a, field (c.aligned a) = field c) :
    (List.zipWith found cs os).map field = cs.map field := by
  induction h with
  | nil => rfl
  | misses _ _ _ _ ih => exact congrArg (_ :: ·) ih
  | invokes _ _ ih => exact congrArg₂ List.cons (hfield _ _) ih

/-- Finding readings leaves the vocabulary as it is. -/
lemma vocabulary_eq (h : Finds x cs os y) : y.vocabulary = x.vocabulary := by
  induction h with
  | nil => rfl
  | misses _ _ _ _ ih => exact ih
  | invokes hfirst _ ih => exact ih.trans hfirst.vocabulary_eq

/-- Finding readings changes only the mentions of the clauses. -/
lemma changesOnly (h : Finds x cs os y) : x.ChangesOnly (· ∈ cs.flatMap Clause.mentions) y := by
  induction h with
  | nil x => exact .refl x
  | misses _ _ _ _ ih => exact ih.weaken fun m hm => List.mem_append_right _ hm
  | @invokes x y z c a cs os hfirst _ ih =>
    have hown : x.ChangesOnly (· ∈ (c :: cs).flatMap Clause.mentions) y :=
      hfirst.changesOnly.weaken fun m hm => List.mem_append_left _ hm
    have hothers : y.ChangesOnly (· ∈ (c :: cs).flatMap Clause.mentions) z :=
      ih.weaken fun m hm => List.mem_append_right _ hm
    exact Trans.trans hown hothers

/-- **What clauses find is settled by types and readings.** -/
theorem onto (h : Finds x cs os y) (hx : x.vocabulary.WellFormed) (hgrows : x.vocabulary.Grows w)
    (hsame : SameReadings x.vocabulary w) : Finds (x.onto w) cs os (y.onto w) := by
  induction h with
  | nil x => exact .nil _
  | @misses x y c cs os hflat hwords hselect hrest ih =>
    refine .misses hflat hwords ?_ (ih hx hgrows hsame)
    rw [rank_onto (hsame.matchesAs hgrows hx) hx]
    refine select_onto hselect fun b hb => ?_
    rw [alignments_eq_nil_of_select hselect] at hb
    cases hb
  | @invokes x y z c a cs os hfirst hrest ih =>
    have hvocabulary := hfirst.vocabulary_eq
    exact .invokes (hfirst.onto hx hgrows hsame)
      (ih (hvocabulary ▸ hx) (hvocabulary ▸ hgrows) (hvocabulary ▸ hsame))

end Finds

end Compile

end FactModel
