import Mathlib.Data.List.Forall2
import Mathlib.Tactic.Lemma
import FactModel.Attempt
set_option autoImplicit false

/-!
# What a change leads to

A change of a state ends with a value or with a fault, and in a state in both cases. The statements
about changes have two forms: what holds at each of the two ends, and, for changes that keep
something however they end, how the state afterwards is related to the state before.

## Main definitions

* `FactModel.Attempt.Ends` — what holds where a change ends, with a value or with a fault.
* `FactModel.Attempt.Leads` — a change whose end is related to its beginning, and what holds of the
  value it yields.
* `FactModel.Attempt.FailsBy` — what the faults of a change have in common.

## Main results

* `FactModel.Attempt.perform_bind_eq_ok` — changes in sequence that yield a value.
* `FactModel.Attempt.ends_bind` — a change followed by another one.
* `FactModel.Attempt.Leads.bind` — a relation that composes is kept by changes in sequence.
* `FactModel.Attempt.Leads.forM` — a relation that composes is kept by a change for each item.
* `FactModel.Attempt.FailsBy.bind` — changes in sequence fail as each of them does.
-/

namespace FactModel.Attempt

variable {σ τ α β : Type}

/-! ## Changes that yield a value -/

/-- Changes in sequence yield a value just in case each of them does. -/
lemma perform_bind_eq_ok {attempt : Attempt σ α} {next : α → Attempt σ β} {s u : σ} {b : β} :
    (attempt >>= next).perform s = (.ok b, u) ↔
      ∃ a t, attempt.perform s = (.ok a, t) ∧ (next a).perform t = (.ok b, u) := by
  rw [perform_bind]
  rcases attempt.perform s with ⟨_ | a, t⟩
  · simp
  · constructor
    · exact fun h => ⟨a, t, rfl, h⟩
    · rintro ⟨_, _, ⟨⟩, h⟩
      exact h

/-- A computed value tells that nothing failed. -/
lemma eq_ok_of_toOption {result : Except Fault α} {a : α} (h : result.toOption = some a) :
    result = .ok a := by
  cases result with
  | error fault => cases h
  | ok b => rw [Option.some.inj h]

/-- Looking at the state comes first. -/
lemma perform_get_bind {next : σ → Attempt σ β} {s : σ} :
    (get >>= next).perform s = (next s).perform s :=
  perform_bind ..

/-- A change that cannot fail comes first. -/
lemma perform_modify_bind {change : σ → σ} {next : PUnit → Attempt σ β} {s : σ} :
    (modify change >>= next).perform s = (next ⟨⟩).perform (change s) :=
  perform_bind ..

/-- A computation that may fail yields a value just in case it has one. -/
lemma perform_ofExcept_eq_ok {result : Except Fault α} {s t : σ} {a : α} :
    (MonadExcept.ofExcept result : Attempt σ α).perform s = (.ok a, t) ↔
      result = .ok a ∧ t = s := by
  cases result with
  | error fault =>
    constructor
    · rintro ⟨⟩
    · rintro ⟨⟨⟩, -⟩
  | ok b =>
    constructor
    · rintro ⟨⟩
      exact ⟨rfl, rfl⟩
    · rintro ⟨⟨⟩, rfl⟩
      rfl

/-- A change of one part of a state yields a value just in case it does for that part. -/
lemma perform_within_eq_ok {part : σ → τ} {put : τ → σ → σ} {inner : Attempt τ α} {s u : σ}
    {a : α} :
    (inner.within part put).perform s = (.ok a, u) ↔
      ∃ t, inner.perform (part s) = (.ok a, t) ∧ u = put t s := by
  rw [perform_within, Prod.mk.injEq]
  constructor
  · rintro ⟨ha, rfl⟩
    exact ⟨_, Prod.ext ha rfl, rfl⟩
  · rintro ⟨t, ht, rfl⟩
    rw [ht]
    exact ⟨rfl, rfl⟩

/-! ## Ends -/

/-- What holds where a change ends: of the value and the state if it yields a value, of the state
alone if it fails. -/
def Ends (attempt : Attempt σ α) (s : σ) (ok : α → σ → Prop) (failed : σ → Prop) : Prop :=
  match attempt.perform s with
  | (.ok a, t) => ok a t
  | (.error _, t) => failed t

section Ends

variable {attempt : Attempt σ α} {s : σ} {ok ok' : α → σ → Prop} {failed failed' : σ → Prop}

/-- What an attempt ends in may be said more weakly. -/
lemma Ends.imp (h : attempt.Ends s ok failed) (hok : ∀ a t, ok a t → ok' a t)
    (hfailed : ∀ t, failed t → failed' t) : attempt.Ends s ok' failed' := by
  unfold Ends at h ⊢
  split at h
  · exact hok _ _ h
  · exact hfailed _ h

/-- What holds at the end of a change that is known to yield a value. -/
lemma Ends.of_perform {a : α} {t : σ} (h : attempt.Ends s ok failed)
    (hp : attempt.perform s = (.ok a, t)) : ok a t := by
  unfold Ends at h
  rwa [hp] at h

/-- What holds where a change ends that is known to yield a value. -/
lemma ends_of_perform {a : α} {t : σ} (hp : attempt.perform s = (.ok a, t)) :
    attempt.Ends s ok failed ↔ ok a t := by
  unfold Ends
  rw [hp]

/-- What holds of the state afterwards, however a change ends. -/
lemma Ends.snd {P : σ → Prop} (h : attempt.Ends s (fun _ => P) P) : P (attempt.perform s).2 := by
  unfold Ends at h
  split at h <;> simp_all

/-- A value that is at hand ends the attempt where it began. -/
@[simp]
lemma ends_pure (a : α) : (pure a : Attempt σ α).Ends s ok failed ↔ ok a s :=
  Iff.rfl

/-- A fault ends the attempt where it began. -/
@[simp]
lemma ends_throw (fault : Fault) : (throw fault : Attempt σ α).Ends s ok failed ↔ failed s :=
  Iff.rfl

/-- A change followed by another one: the second begins where the first one ends. -/
lemma ends_bind {next : α → Attempt σ β} {post : β → σ → Prop} :
    (attempt >>= next).Ends s post failed ↔
      attempt.Ends s (fun a t => (next a).Ends t post failed) failed := by
  unfold Ends
  rw [perform_bind]
  rcases attempt.perform s with ⟨_ | a, t⟩ <;> rfl

/-- A function of the value does not change where the attempt ends. -/
@[simp]
lemma ends_map {f : α → β} {post : β → σ → Prop} :
    (f <$> attempt).Ends s post failed ↔ attempt.Ends s (fun a => post (f a)) failed := by
  rw [← bind_pure_comp, ends_bind]
  simp

/-- Reading the state returns it and leaves it as it is. -/
@[simp]
lemma ends_get {post : σ → σ → Prop} : (get : Attempt σ σ).Ends s post failed ↔ post s s :=
  Iff.rfl

/-- Setting the state ends in the new one. -/
@[simp]
lemma ends_set {t : σ} {post : PUnit → σ → Prop} :
    (set t : Attempt σ PUnit).Ends s post failed ↔ post ⟨⟩ t :=
  Iff.rfl

/-- Changing the state ends in the changed one. -/
@[simp]
lemma ends_modify {change : σ → σ} {post : PUnit → σ → Prop} :
    (modify change : Attempt σ PUnit).Ends s post failed ↔ post ⟨⟩ (change s) :=
  Iff.rfl

/-- An extension ends in the changed state, with the value that it had in mind before. -/
@[simp]
lemma ends_extend {value : σ → α} {change : σ → σ} :
    (extend value change).Ends s ok failed ↔ ok (value s) (change s) :=
  Iff.rfl

/-- An attempt on a part of the state ends with that part put back. -/
lemma ends_within {part : σ → τ} {put : τ → σ → σ} {inner : Attempt τ α} :
    (inner.within part put).Ends s ok failed ↔
      inner.Ends (part s) (fun a t => ok a (put t s)) (fun t => failed (put t s)) := by
  unfold Ends
  rw [perform_within]
  rcases inner.perform (part s) with ⟨_ | a, t⟩ <;> rfl

/-- A result that is at hand ends the attempt where it began, with its value or its fault. -/
lemma ends_ofExcept {result : Except Fault α} :
    (MonadExcept.ofExcept result : Attempt σ α).Ends s ok failed ↔
      match result with
      | .ok a => ok a s
      | .error _ => failed s := by
  cases result <;> rfl

/-- Two statements about the ends of one change hold together. -/
lemma Ends.and (h : attempt.Ends s ok failed) (h' : attempt.Ends s ok' failed') :
    attempt.Ends s (fun a t => ok a t ∧ ok' a t) fun t => failed t ∧ failed' t := by
  unfold Ends at h h' ⊢
  split at h <;> simp_all

/-- What holds of the value of the last of two changes wherever it begins. -/
lemma ends_bind_of_forall {next : α → Attempt σ β} {post : β → σ → Prop}
    (h : ∀ a t, (next a).Ends t post fun _ => True) :
    (attempt >>= next).Ends s post fun _ => True := by
  rw [ends_bind]
  unfold Ends
  rcases attempt.perform s with ⟨_ | a, t⟩
  · trivial
  · exact h a t

end Ends

/-! ## Changes that keep a relation -/

/-- A change whose end is related to its beginning, however it ends, and what holds of the value it
yields. -/
def Leads (R : σ → σ → Prop) (attempt : Attempt σ α) (s : σ) (post : α → σ → Prop) : Prop :=
  attempt.Ends s (fun a t => R s t ∧ post a t) (R s)

section Leads

variable {R : σ → σ → Prop} {attempt : Attempt σ α} {s : σ} {post post' : α → σ → Prop}

/-- What an attempt leads to may be said more weakly. -/
lemma Leads.imp (h : attempt.Leads R s post) (hpost : ∀ a t, R s t → post a t → post' a t) :
    attempt.Leads R s post' :=
  Ends.imp h (fun a t ht => ⟨ht.1, hpost a t ht.1 ht.2⟩) fun _ => id

/-- A change that leads somewhere also leads there under a weaker relation. -/
lemma Leads.weaken {R' : σ → σ → Prop} (h : attempt.Leads R s post)
    (hR : ∀ t, R s t → R' s t) : attempt.Leads R' s post :=
  Ends.imp h (fun _ t ht => ⟨hR t ht.1, ht.2⟩) hR

/-- What holds of the value of a change besides where it leads. -/
lemma Leads.and (h : attempt.Leads R s post) (h' : attempt.Ends s post' fun _ => True) :
    attempt.Leads R s fun a t => post a t ∧ post' a t :=
  Ends.imp (Ends.and h h') (fun _ _ ht => ⟨ht.1.1, ht.1.2, ht.2⟩) fun _ ht => ht.1

/-- A change that leads through each of two relations leads through both together. -/
lemma Leads.both {R' : σ → σ → Prop} (h : attempt.Leads R s post)
    (h' : attempt.Leads R' s post') : attempt.Leads (fun s t => R s t ∧ R' s t) s post :=
  Ends.imp (Ends.and h h') (fun _ _ ht => ⟨⟨ht.1.1, ht.2.1⟩, ht.1.2⟩) fun _ ht => ht

/-- An attempt that returns a value has led to it. -/
lemma Leads.of_perform {a : α} {t : σ} (h : attempt.Leads R s post)
    (hp : attempt.perform s = (.ok a, t)) : R s t ∧ post a t := by
  have hends : attempt.Ends s (fun a t => R s t ∧ post a t) (R s) := h
  exact hends.of_perform hp

/-- The relation holds however the change ends. -/
lemma Leads.snd (h : attempt.Leads R s post) : R s (attempt.perform s).2 :=
  Ends.snd (Ends.imp h (fun _ _ ht => ht.1) fun _ => id)

/-- Every change leads somewhere. -/
lemma leads_true (attempt : Attempt σ α) (s : σ) :
    attempt.Leads (fun _ _ => True) s fun _ _ => True := by
  unfold Leads Ends
  split <;> simp

/-- A value leads nowhere else. -/
lemma leads_pure {a : α} (hR : R s s) (ha : post a s) :
    (pure a : Attempt σ α).Leads R s post :=
  ⟨hR, ha⟩

/-- A fault leads nowhere else. -/
lemma leads_throw {fault : Fault} (hR : R s s) : (throw fault : Attempt σ α).Leads R s post :=
  hR

/-- A change that begins with a fault ends there. -/
lemma leads_throw_bind {fault : Fault} {next : β → Attempt σ α} (hR : R s s) :
    (throw fault >>= next).Leads R s post :=
  hR

/-- An extension leads to the changed state. -/
lemma leads_extend {value : σ → α} {change : σ → σ} (hR : R s (change s))
    (ha : post (value s) (change s)) : (extend value change).Leads R s post :=
  ⟨hR, ha⟩

/-- Setting the state leads to the new one. -/
lemma leads_set {t : σ} {post : PUnit → σ → Prop} (hR : R s t) (ht : post ⟨⟩ t) :
    (set t : Attempt σ PUnit).Leads R s post :=
  ⟨hR, ht⟩

/-- Changing the state leads to the changed one. -/
lemma leads_modify {change : σ → σ} {post : PUnit → σ → Prop} (hR : R s (change s))
    (ht : post ⟨⟩ (change s)) : (modify change : Attempt σ PUnit).Leads R s post :=
  ⟨hR, ht⟩

/-- Looking at the state changes nothing. -/
lemma leads_get_bind {next : σ → Attempt σ β} {post : β → σ → Prop}
    (h : (next s).Leads R s post) : (get >>= next).Leads R s post :=
  ends_bind.2 h

/-- A function of the value does not change where the attempt leads. -/
lemma Leads.map {f : α → β} {post : β → σ → Prop} (h : attempt.Leads R s fun a => post (f a)) :
    (f <$> attempt).Leads R s post :=
  ends_map.2 h

/-- A result that is at hand leads nowhere else. -/
lemma leads_ofExcept {result : Except Fault α} (hR : R s s)
    (h : ∀ a, result = .ok a → post a s) :
    (MonadExcept.ofExcept result : Attempt σ α).Leads R s post := by
  refine ends_ofExcept.2 ?_
  cases result with
  | ok a => exact ⟨hR, h a rfl⟩
  | error _ => exact hR

/-- A computation that may fail comes first; it changes nothing. -/
lemma leads_ofExcept_bind {result : Except Fault α} {next : α → Attempt σ β}
    {last : β → σ → Prop} (hR : R s s) (h : ∀ a, result = .ok a → (next a).Leads R s last) :
    (MonadExcept.ofExcept result >>= next).Leads R s last := by
  refine ends_bind.2 (ends_ofExcept.2 ?_)
  cases result with
  | ok a => exact h a rfl
  | error _ => exact hR

/-- An attempt on a part of the state leads where putting that part back leads. -/
lemma Leads.within {S : τ → τ → Prop} {part : σ → τ} {put : τ → σ → σ} {inner : Attempt τ α}
    {innerPost : α → τ → Prop} (h : inner.Leads S (part s) innerPost)
    (hR : ∀ t, S (part s) t → R s (put t s))
    (hpost : ∀ a t, S (part s) t → innerPost a t → post a (put t s)) :
    (inner.within part put).Leads R s post :=
  ends_within.2 <| Ends.imp h (fun a t ht => ⟨hR t ht.1, hpost a t ht.1 ht.2⟩) hR

variable [Trans R R R]

/-- Changes in sequence keep a relation that composes. -/
lemma Leads.bind {next : α → Attempt σ β} {last : β → σ → Prop} (h : attempt.Leads R s post)
    (hnext : ∀ a t, R s t → post a t → (next a).Leads R t last) :
    (attempt >>= next).Leads R s last := by
  refine ends_bind.2 (Ends.imp h (fun a t ht => ?_) fun _ => id)
  exact Ends.imp (hnext a t ht.1 ht.2) (fun _ _ hu => ⟨Trans.trans ht.1 hu.1, hu.2⟩)
    fun _ hu => Trans.trans ht.1 hu

/-- Setting the state comes first. -/
lemma leads_set_bind {t : σ} {next : PUnit → Attempt σ β} {last : β → σ → Prop} (hR : R s t)
    (h : (next ⟨⟩).Leads R t last) : (set t >>= next).Leads R s last :=
  ends_bind.2 <| ends_set.2 <| Ends.imp h (fun _ _ hu => ⟨Trans.trans hR hu.1, hu.2⟩)
    fun _ hu => Trans.trans hR hu

/-- A change that cannot fail comes first. -/
lemma leads_modify_bind {change : σ → σ} {next : PUnit → Attempt σ β} {last : β → σ → Prop}
    (hR : R s (change s)) (h : (next ⟨⟩).Leads R (change s) last) :
    (modify change >>= next).Leads R s last :=
  leads_set_bind hR h

/-- An extension of the state comes first. -/
lemma leads_extend_bind {value : σ → α} {change : σ → σ} {next : α → Attempt σ β}
    {last : β → σ → Prop} (hR : R s (change s)) (h : (next (value s)).Leads R (change s) last) :
    (extend value change >>= next).Leads R s last :=
  ends_bind.2 <| ends_extend.2 <| Ends.imp h (fun _ _ hu => ⟨Trans.trans hR hu.1, hu.2⟩)
    fun _ hu => Trans.trans hR hu

/-- A change for each item of a list keeps a relation that composes, if the change for any item
keeps it wherever the ones before may lead. -/
lemma Leads.forM {ι : Type} {f : ι → Attempt σ PUnit} {is : List ι} (hs : R s s)
    (h : ∀ i ∈ is, ∀ t, R s t → (f i).Leads R t fun _ u => R u u) :
    (is.forM f).Leads R s fun _ _ => True := by
  induction is generalizing s with
  | nil => exact leads_pure hs trivial
  | cons i is ih =>
    refine Leads.bind (h i (by simp) s hs) fun _ t hst ht => ih ht fun j hj u htu => ?_
    exact h j (by simp [hj]) u (Trans.trans hst htu)

end Leads

/-- Looking something up for each item of a list changes nothing, and finds what there is for each
item, in order. -/
lemma leads_mapM_forall₂ {ι : Type} {f : ι → Attempt σ α} {is : List ι} {s : σ} {P : ι → α → Prop}
    (h : ∀ i ∈ is, (f i).Leads Eq s fun a _ => P i a) :
    (is.mapM f).Leads Eq s fun as _ => List.Forall₂ P is as := by
  induction is with
  | nil => exact leads_pure rfl .nil
  | cons i is ih =>
    rw [List.mapM_cons]
    refine Leads.bind (h i List.mem_cons_self) fun a t ht ha => ?_
    subst ht
    refine Leads.bind (ih fun j hj => h j (List.mem_cons_of_mem i hj)) fun as t ht has => ?_
    subst ht
    exact leads_pure rfl (.cons ha has)

/-- What holds of whatever is looked up for the items of a list. -/
lemma leads_mapM {ι : Type} {f : ι → Attempt σ α} {is : List ι} {s : σ} {P : α → Prop}
    (h : ∀ i ∈ is, (f i).Leads Eq s fun a _ => P a) :
    (is.mapM f).Leads Eq s fun as _ => as.length = is.length ∧ ∀ a ∈ as, P a := by
  refine (leads_mapM_forall₂ (P := fun _ => P) h).imp fun as _ _ has => ⟨has.length_eq.symm, ?_⟩
  clear h
  induction has with
  | nil => exact fun _ ha => nomatch ha
  | cons ha _ ih => exact List.forall_mem_cons.2 ⟨ha, ih⟩

/-! ## Faults -/

/-- Wherever a change begins, it fails by certain faults only. -/
def FailsBy (attempt : Attempt σ α) (P : Fault → Prop) : Prop :=
  ∀ s fault t, attempt.perform s = (.error fault, t) → P fault

section FailsBy

variable {attempt : Attempt σ α} {P : Fault → Prop}

/-- A value is no fault. -/
lemma failsBy_pure (a : α) : (pure a : Attempt σ α).FailsBy P := by
  rintro s fault t ⟨⟩

/-- A fault is the one that it is. -/
lemma failsBy_throw {fault : Fault} (h : P fault) : (throw fault : Attempt σ α).FailsBy P := by
  rintro s _ t ⟨⟩
  exact h

/-- An extension does not fail. -/
lemma failsBy_extend (value : σ → α) (change : σ → σ) : (extend value change).FailsBy P := by
  rintro s fault t ⟨⟩

/-- Changing the state does not fail. -/
lemma failsBy_modify (change : σ → σ) : (modify change : Attempt σ PUnit).FailsBy P := by
  rintro s fault t ⟨⟩

/-- A change of one part of a state fails as it does for that part. -/
lemma FailsBy.within {part : τ → σ} {put : σ → τ → τ} (h : attempt.FailsBy P) :
    (attempt.within part put).FailsBy P := by
  intro s fault t hperform
  rw [perform_within] at hperform
  exact h (part s) fault _ (Prod.ext (Prod.mk.inj hperform).1 rfl)

/-- Changes in sequence fail as each of them does. -/
lemma FailsBy.bind {next : α → Attempt σ β} (h : attempt.FailsBy P)
    (hnext : ∀ a, (next a).FailsBy P) : (attempt >>= next).FailsBy P := by
  intro s fault t hperform
  rw [perform_bind] at hperform
  rcases hfirst : attempt.perform s with ⟨fault' | a, u⟩
  · rw [hfirst] at hperform
    cases hperform
    exact h s fault t hfirst
  · rw [hfirst] at hperform
    exact hnext a u fault t hperform

/-- Reading the state first does not add a way to fail. -/
lemma failsBy_get_bind {next : σ → Attempt σ β} (h : ∀ s, (next s).FailsBy P) :
    (get >>= next).FailsBy P := by
  intro s fault t hperform
  rw [perform_get_bind] at hperform
  exact h s s fault t hperform

/-- Attempts in turn fail only as one of them does. -/
lemma FailsBy.forM {ι : Type} {f : ι → Attempt σ PUnit} {is : List ι}
    (h : ∀ i ∈ is, (f i).FailsBy P) : (is.forM f).FailsBy P := by
  induction is with
  | nil => exact failsBy_pure _
  | cons i is ih =>
    refine FailsBy.bind (h i List.mem_cons_self) fun _ => ih fun j hj => ?_
    exact h j (List.mem_cons_of_mem i hj)

end FailsBy

end FactModel.Attempt
