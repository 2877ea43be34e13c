import Mathlib.Data.List.Basic
import Mathlib.Data.List.Flatten
import FactModel.Proofs.Attempt
import FactModel.Proofs.Clause.Everywhere
import FactModel.Definition.FactType
set_option autoImplicit false

/-!
# Resolution as a change

A resolution yields the clause as far as it was resolved also when it fails. Whoever goes on with
the clause discards it then, so that a resolution counts as a change that may fail. Its equations
follow the structure of clauses, and what a change keeps is shown along them.

## Main definitions

* `FactModel.Resolves` — what the resolution of one clause keeps, its nested clauses being resolved.

## Main results

* `FactModel.Compile.ofResolved_resolve` and its companions — the equations of resolution.
* `FactModel.Resolves.leads_resolve` — what resolving one clause keeps, resolving a clause with all
  its nested clauses keeps.
-/

namespace FactModel

open Attempt Compile

namespace Compile

variable {α β γ δ : Type}

/-- A resolution yields what it has made of the clause unless it failed, and leaves the context as
it is then. -/
lemma perform_ofResolved (resolution : StateM Context (Resolved α β)) (x : Context) :
    (ofResolved resolution).perform x =
      ((resolution x).1.2.map ((resolution x).1.1, ·), (resolution x).2) :=
  rfl

/-- A resolution goes on where the one before it ended, and a fault ends both. -/
lemma ofResolved_bind {resolution : StateM Context (Resolved α β)}
    {next : Resolved α β → StateM Context (Resolved γ δ)}
    (herror : ∀ a fault, ofResolved (next (a, .error fault)) = throw fault) :
    ofResolved (resolution >>= next) =
      ofResolved resolution >>= fun r => ofResolved (next (r.1, .ok r.2)) := by
  funext x
  change (ofResolved (resolution >>= next)).perform x = (ofResolved resolution >>= _).perform x
  have hbind : (ofResolved (resolution >>= next)).perform x =
      (ofResolved (next (resolution x).1)).perform (resolution x).2 := rfl
  rw [hbind, perform_bind, perform_ofResolved resolution]
  rcases resolution x with ⟨⟨a, fault | b⟩, y⟩
  · exact congrArg (perform · y) (herror a fault)
  · rfl

/-- A resolution goes on where a change ended, and a fault ends both. -/
lemma ofResolved_run_bind {change : Compile α}
    {next : Except Fault α → StateM Context (Resolved γ δ)}
    (herror : ∀ fault, ofResolved (next (.error fault)) = throw fault) :
    ofResolved ((change.run : StateM Context (Except Fault α)) >>= next) =
      change >>= fun a => ofResolved (next (.ok a)) := by
  funext x
  have hrun : ofResolved ((change.run : StateM Context (Except Fault α)) >>= next) x =
      (ofResolved (next (change.perform x).1)).perform (change.perform x).2 := rfl
  change _ = (change >>= _).perform x
  rw [hrun, perform_bind]
  rcases change.perform x with ⟨fault | a, y⟩
  · exact congrArg (perform · y) (herror fault)
  · rfl

/-- A resolution goes on where a change ended that yielded a value. -/
lemma ofResolved_andThen (change : Compile α) (item : γ)
    (next : α → StateM Context (Resolved γ δ)) :
    ofResolved ((change.run : StateM Context (Except Fault α)) >>= fun outcome =>
      Resolved.andThen item outcome next) = change >>= fun a => ofResolved (next a) :=
  ofResolved_run_bind fun _ => rfl

/-- Resolving a slot resolves what is nested in it. -/
lemma ofResolved_resolveSlot (options : MatchOptions) (m : MentionId) (nested : List Clause) :
    ofResolved (resolveSlot options ⟨m, nested⟩) =
      (do let r ← ofResolved (resolveNested options m nested)
          pure (⟨m, r.1⟩, r.2)) := by
  rw [resolveSlot, ofResolved_bind fun _ _ => rfl]
  rfl

/-- Resolving a slot among phrases resolves the slot. -/
lemma ofResolved_resolvePhrase_slot (options : MatchOptions) (s : Slot) :
    ofResolved (resolvePhrase options (.slot s)) =
      (do let r ← ofResolved (resolveSlot options s)
          pure (.slot r.1, r.2)) := by
  rw [resolvePhrase, ofResolved_bind fun _ _ => rfl]
  rfl

/-- Resolving a comparison resolves its left side and then its right one. -/
lemma ofResolved_resolvePhrase_comparison (options : MatchOptions) (operator : String)
    (left right : Slot) :
    ofResolved (resolvePhrase options (.comparison operator left right)) =
      (do let r ← ofResolved (resolveSlot options left)
          let q ← ofResolved (resolveSlot options right)
          pure (.comparison operator r.1 q.1, q.2)) := by
  rw [resolvePhrase, ofResolved_bind fun _ _ => rfl]
  refine bind_congr fun r => ?_
  change ofResolved (resolveSlot options right >>= _) = _
  rw [ofResolved_bind fun _ _ => rfl]
  rfl

/-- Phrases are resolved one after the other. -/
lemma ofResolved_resolvePhrases_cons (options : MatchOptions) (p : Phrase) (ps : List Phrase) :
    ofResolved (resolvePhrases options (p :: ps)) =
      (do let r ← ofResolved (resolvePhrase options p)
          let q ← ofResolved (resolvePhrases options ps)
          pure (r.1 :: q.1, q.2)) := by
  rw [resolvePhrases, ofResolved_bind fun _ _ => rfl]
  refine bind_congr fun r => ?_
  change ofResolved (resolvePhrases options ps >>= _) = _
  rw [ofResolved_bind fun _ _ => rfl]
  rfl

/-- A clause that nothing matches is left as it is. -/
lemma ofResolved_resolveItself (options : MatchOptions) (c : Clause) :
    ofResolved (resolveItself options c) =
      (do match ← resolveFlat options c with
          | some resolved => pure (resolved, true)
          | none => pure (c, false)) := by
  rw [resolveItself, ofResolved_run_bind fun _ => rfl]
  exact bind_congr fun resolved => by cases resolved <;> rfl

/-- Resolving a clause resolves what is nested in it and then the clause itself. -/
lemma ofResolved_resolve (options : MatchOptions) (c : Clause) :
    ofResolved (resolve options c) =
      (do let r ← ofResolved (resolvePhrases options c.phrases)
          ofResolved (resolveItself options { c with phrases := r.1 })) := by
  rcases c with ⟨phrases, qualifiers, certainty, conjunction, factType, reading, roleSequence,
    alignment, contraction⟩
  rw [resolve, ofResolved_bind fun _ _ => rfl]
  rfl

/-- The rest of nested clauses is resolved once the first of them has been checked. -/
lemma ofResolved_checkNested (options : MatchOptions) (m : MentionId) (c : Clause)
    (cs : List Clause) (matched : Bool) :
    ofResolved (do
      let outcome ← checkNested m c matched
      Resolved.andThen (c :: cs) outcome fun _ => do
        let (cs, outcome) ← resolveNested options m cs
        pure (c :: cs, outcome)) =
    (do let _ ← (ExceptT.mk (checkNested m c matched) : Compile Unit)
        let q ← ofResolved (resolveNested options m cs)
        pure (c :: q.1, q.2)) := by
  refine (ofResolved_andThen (ExceptT.mk (checkNested m c matched)) _ _).trans ?_
  refine bind_congr fun _ => ?_
  rw [ofResolved_bind fun _ _ => rfl]
  rfl

/-- A nested clause that is resolved is only checked. -/
lemma ofResolved_resolveNested_cons (options : MatchOptions) (m : MentionId) (c : Clause)
    (cs : List Clause) :
    ofResolved (resolveNested options m (c :: cs)) =
      ((if c.isMatched then pure (c, true) else ofResolved (resolve options c)) >>= fun r => do
        let _ ← (ExceptT.mk (checkNested m r.1 r.2) : Compile Unit)
        let q ← ofResolved (resolveNested options m cs)
        pure (r.1 :: q.1, q.2)) := by
  rw [resolveNested]
  split
  · exact ofResolved_checkNested options m c cs true
  · rw [ofResolved_bind fun _ _ => rfl]
    exact bind_congr fun r => ofResolved_checkNested options m r.1 cs r.2

end Compile

/-! ## What resolution keeps -/

/-- What the resolution of one clause keeps, its nested clauses being resolved: a relation between
the contexts before and after, and a property of clauses that they have where they are resolved and
keep while the context changes. What is nested in a clause is not its own. -/
structure Resolves (options : MatchOptions) (R : Context → Context → Prop)
    (P : Context → Clause → Prop) : Prop where
  refl : ∀ {x y}, R x y → R y y
  mono : ∀ {x y c}, R x y → P x c → P y c
  bare : ∀ {x c phrases}, SameBare c.phrases phrases → P x c → P x { c with phrases }
  flat : ∀ {x c}, R x x → c.Everywhere (P x) →
    (resolveFlat options c).Leads R x fun r y => ∀ d ∈ r, P y d

/-- What a resolution yields as far as it matched: a clause that nothing matches keeps everything
but what is nested in it. -/
def ResolvedFrom (c : Clause) (r : Clause × Bool) : Prop :=
  r.2 = false → ∃ phrases, SameBare c.phrases phrases ∧ r.1 = { c with phrases }

/-- Splicing only removes phrases. -/
lemma splice_sublist (positions : List Nat) (phrases : List Phrase) :
    (splice positions phrases).Sublist phrases := by
  rw [splice]
  induction positions.mergeSort.reverse generalizing phrases with
  | nil => exact List.Sublist.refl _
  | cons i positions ih => exact (ih _).trans (List.eraseIdx_sublist phrases i)

/-- An aligned clause makes no slots. -/
lemma slots_aligned_sublist (c : Clause) (a : Alignment) : (c.aligned a).slots.Sublist c.slots :=
  (splice_sublist a.spliced c.phrases).flatMap Phrase.slots

/-- Resolving a clause whose nested clauses are resolved makes no slots. -/
lemma ends_resolveFlat_slots (options : MatchOptions) (c : Clause) (x : Context) :
    (resolveFlat options c).Ends x (fun r _ => ∀ d ∈ r, d.slots ⊆ c.slots) fun _ => True := by
  unfold resolveFlat
  split
  · refine ends_map.2 (ends_bind_of_forall fun _ _ => ends_bind_of_forall fun _ _ =>
      ends_bind_of_forall fun _ _ => ends_bind_of_forall fun _ _ => ends_bind_of_forall fun _ _ =>
        (ends_pure _).2 ?_)
    rintro d ⟨⟩
    exact List.Subset.refl _
  · refine ends_bind_of_forall fun y _ => ?_
    split
    · refine (ends_pure _).2 ?_
      rintro d ⟨⟩
      exact List.Subset.refl _
    · refine ends_bind_of_forall fun _ _ => ends_bind_of_forall fun a _ => ?_
      cases a with
      | none => exact (ends_pure _).2 fun d hd => absurd hd (Option.not_mem_none d)
      | some a =>
        refine ends_map.2 (ends_bind_of_forall fun _ _ => (ends_pure _).2 ?_)
        rintro d ⟨⟩
        exact (slots_aligned_sublist c a).subset

variable {options : MatchOptions} {R : Context → Context → Prop} {P : Context → Clause → Prop}

/-- Checking a nested clause changes nothing. -/
lemma leads_checkNested (m : MentionId) (c : Clause) (matched : Bool) {x : Context} (hx : R x x) :
    Leads R (ExceptT.mk (checkNested m c matched)) x fun _ _ => True := by
  cases matched with
  | false => exact hx
  | true =>
    change Leads R (checkObjectified m c) x fun (_ : Unit) _ => True
    unfold checkObjectified
    split
    · exact leads_pure hx trivial
    · refine leads_get_bind ?_
      dsimp only
      split
      · exact leads_throw hx
      · exact leads_pure hx trivial

namespace Resolves

variable (h : Resolves options R P)

include h

/-- What is kept everywhere in a clause is kept along with the context. -/
lemma everywhere_mono {x y : Context} {c : Clause} (hxy : R x y) (hc : c.Everywhere (P x)) :
    c.Everywhere (P y) :=
  hc.imp fun _ => h.mono hxy

variable [Trans R R R]

/-- Resolving a clause whose nested clauses are resolved. -/
lemma leads_resolveItself {x : Context} {c : Clause} (hx : R x x) (hc : c.Everywhere (P x)) :
    (ofResolved (resolveItself options c)).Leads R x fun r y =>
      r.1.Everywhere (P y) ∧ ResolvedFrom c r := by
  rw [ofResolved_resolveItself]
  refine Leads.bind ((h.flat hx hc).and (ends_resolveFlat_slots options c x))
    fun r y hxy hr => ?_
  cases r with
  | none =>
    exact leads_pure (h.refl hxy)
      ⟨h.everywhere_mono hxy hc, fun _ => ⟨c.phrases, rfl, by cases c; rfl⟩⟩
  | some d =>
    refine leads_pure (h.refl hxy) ⟨.intro (hr.1 d rfl) fun s hs e he => ?_, fun hd => nomatch hd⟩
    exact h.everywhere_mono hxy (hc.nested s (hr.2 d rfl hs) e he)

mutual

/-- Resolving a slot keeps what resolving clauses keeps. -/
lemma leads_resolveSlot : ∀ (s : Slot) {x : Context}, R x x → s.Below (P x) →
    (ofResolved (resolveSlot options s)).Leads R x fun r y =>
      r.1.mention = s.mention ∧ r.1.Below (P y)
  | ⟨m, nested⟩, x, hx, hs => by
    rw [ofResolved_resolveSlot]
    refine Leads.bind (leads_resolveNested m nested hx hs) fun r y hxy hr => ?_
    exact leads_pure (h.refl hxy) ⟨rfl, hr⟩

/-- Resolving a phrase keeps what resolving clauses keeps. -/
lemma leads_resolvePhrase : ∀ (p : Phrase) {x : Context}, R x x →
    (∀ s ∈ p.slots, s.Below (P x)) →
    (ofResolved (resolvePhrase options p)).Leads R x fun r y =>
      p.bare = r.1.bare ∧ ∀ s ∈ r.1.slots, s.Below (P y)
  | .word text, x, hx, _ => leads_pure hx ⟨rfl, fun _ hs => nomatch hs⟩
  | .slot s, x, hx, hp => by
    rw [ofResolved_resolvePhrase_slot]
    refine Leads.bind (leads_resolveSlot s hx (hp s (by simp [Phrase.slots]))) fun r y hxy hr => ?_
    refine leads_pure (h.refl hxy) ⟨by simp [Phrase.bare, hr.1], fun t ht => ?_⟩
    rw [List.mem_singleton.1 ht]
    exact hr.2
  | .comparison operator left right, x, hx, hp => by
    rw [ofResolved_resolvePhrase_comparison]
    refine Leads.bind (leads_resolveSlot left hx (hp left (by simp [Phrase.slots])))
      fun r y hxy hr => ?_
    have hright : right.Below (P y) := fun d hd =>
      h.everywhere_mono hxy (hp right (by simp [Phrase.slots]) d hd)
    refine Leads.bind (leads_resolveSlot right (h.refl hxy) hright) fun q z hyz hq => ?_
    refine leads_pure (h.refl hyz) ⟨by simp [Phrase.bare, hr.1, hq.1], fun t ht => ?_⟩
    rcases List.mem_pair.1 ht with rfl | rfl
    · exact fun d hd => h.everywhere_mono hyz (hr.2 d hd)
    · exact hq.2

/-- Resolving phrases keeps what resolving clauses keeps. -/
lemma leads_resolvePhrases : ∀ (ps : List Phrase) {x : Context}, R x x →
    (∀ s ∈ ps.flatMap Phrase.slots, s.Below (P x)) →
    (ofResolved (resolvePhrases options ps)).Leads R x fun r y =>
      SameBare ps r.1 ∧ ∀ s ∈ r.1.flatMap Phrase.slots, s.Below (P y)
  | [], x, hx, _ => leads_pure hx ⟨rfl, fun _ hs => nomatch hs⟩
  | p :: ps, x, hx, hps => by
    rw [ofResolved_resolvePhrases_cons]
    have hp : ∀ s ∈ p.slots, s.Below (P x) := fun s hs => hps s (by simp [hs])
    refine Leads.bind (leads_resolvePhrase p hx hp) fun r y hxy hr => ?_
    have hps' : ∀ s ∈ ps.flatMap Phrase.slots, s.Below (P y) := fun s hs d hd =>
      h.everywhere_mono hxy (hps s (List.mem_append_right _ hs) d hd)
    refine Leads.bind (leads_resolvePhrases ps (h.refl hxy) hps') fun q z hyz hq => ?_
    refine leads_pure (h.refl hyz) ⟨congrArg₂ List.cons hr.1 hq.1, fun s hs => ?_⟩
    rcases List.mem_append.1 hs with hs | hs
    · exact fun d hd => h.everywhere_mono hyz (hr.2 s hs d hd)
    · exact hq.2 s hs

/-- Whatever relation of contexts and property of clauses the resolution of one clause keeps, the
resolution of a clause with all its nested clauses keeps.

**Proof sketch.** By recursion on the clause, along the equations of resolution: nested clauses are
resolved before the clause that carries them, and the property of those resolved earlier is kept by
what follows. -/
theorem leads_resolve : ∀ (c : Clause) {x : Context}, R x x → c.Everywhere (P x) →
    (ofResolved (resolve options c)).Leads R x fun r y =>
      r.1.Everywhere (P y) ∧ ResolvedFrom c r
  | ⟨phrases, qualifiers, certainty, conjunction, factType, reading, roleSequence, alignment,
      contraction⟩, x, hx, hc => by
    rw [ofResolved_resolve]
    refine Leads.bind (leads_resolvePhrases phrases hx hc.nested) fun r y hxy hr => ?_
    have hd : Clause.Everywhere (P y) ⟨r.1, qualifiers, certainty, conjunction, factType, reading,
        roleSequence, alignment, contraction⟩ :=
      .intro (h.bare hr.1 (h.mono hxy hc.here)) hr.2
    refine Leads.imp (h.leads_resolveItself (h.refl hxy) hd) fun q z _ hq => ⟨hq.1, fun hq' => ?_⟩
    obtain ⟨ps, hps, heq⟩ := hq.2 hq'
    exact ⟨ps, Eq.trans hr.1 hps, heq⟩

/-- Resolving nested clauses keeps what resolving clauses keeps. -/
lemma leads_resolveNested : ∀ (m : MentionId) (cs : List Clause) {x : Context}, R x x →
    (∀ d ∈ cs, d.Everywhere (P x)) →
    (ofResolved (resolveNested options m cs)).Leads R x fun r y =>
      ∀ d ∈ r.1, d.Everywhere (P y)
  | m, [], x, hx, _ => leads_pure hx fun _ hd => nomatch hd
  | m, c :: cs, x, hx, hcs => by
    rw [ofResolved_resolveNested_cons]
    have hc : c.Everywhere (P x) := hcs c (by simp)
    have hfirst : (if c.isMatched then pure (c, true) else ofResolved (resolve options c) :
        Compile (Clause × Bool)).Leads R x fun r y => r.1.Everywhere (P y) := by
      split
      · exact leads_pure hx hc
      · exact (leads_resolve c hx hc).imp fun _ _ _ hr => hr.1
    refine Leads.bind hfirst fun r y hxy hr => ?_
    refine Leads.bind (leads_checkNested m r.1 r.2 (h.refl hxy)) fun _ z hyz _ => ?_
    have hcs' : ∀ d ∈ cs, d.Everywhere (P z) := fun d hd =>
      h.everywhere_mono hyz (h.everywhere_mono hxy (hcs d (by simp [hd])))
    refine Leads.bind (leads_resolveNested m cs (h.refl hyz) hcs') fun q w hzw hq => ?_
    refine leads_pure (h.refl hzw) fun d hd => ?_
    rcases List.mem_cons.1 hd with rfl | hd
    · exact h.everywhere_mono hzw (h.everywhere_mono hyz hr)
    · exact hq d hd

end

end Resolves

end FactModel
