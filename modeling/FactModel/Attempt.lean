import FactModel.Fault
set_option autoImplicit false

/-!
# Changes that may fail

## Main definitions

* `FactModel.Attempt` — a change of a state that yields a value or fails.
* `FactModel.Attempt.within` — a change of one part of a state.

## Main results

* `FactModel.Attempt.perform_bind` — a change goes on where the one before it ended, and a fault
  ends both. With the other equations of `perform` it opens every change step by step.
-/

namespace FactModel

/-- A change of a state that yields a value or fails. What was changed before a failure stays
changed. -/
abbrev Attempt (σ α : Type) : Type :=
  ExceptT Fault (StateM σ) α

namespace Attempt

variable {σ τ α : Type}

/-- Runs a change: the value or the fault, and the state afterwards in both cases. -/
def perform (attempt : Attempt σ α) (s : σ) : Except Fault α × σ :=
  attempt s

/-- A change of one part of a state. -/
def within (part : σ → τ) (put : τ → σ → σ) (attempt : Attempt τ α) : Attempt σ α :=
  fun s =>
    let (result, t) := attempt.perform (part s)
    (result, put t s)

/-- A change that extends the state and yields a value of the state before. -/
def extend (value : σ → α) (change : σ → σ) : Attempt σ α :=
  fun s => (.ok (value s), change s)

/-! ## Running a change -/

/-- A value is returned and the state is left as it is. -/
@[simp]
theorem perform_pure (a : α) (s : σ) : (pure a : Attempt σ α).perform s = (.ok a, s) :=
  rfl

/-- A fault is returned and the state is left as it is. -/
@[simp]
theorem perform_throw (fault : Fault) (s : σ) :
    (throw fault : Attempt σ α).perform s = (.error fault, s) :=
  rfl

/-- A change goes on where the one before it ended, and a fault ends both. -/
theorem perform_bind {β : Type} (first : Attempt σ α) (next : α → Attempt σ β) (s : σ) :
    (first >>= next).perform s =
      match first.perform s with
      | (.ok a, t) => (next a).perform t
      | (.error fault, t) => (.error fault, t) := by
  simp only [perform, bind, ExceptT.bind, ExceptT.mk, StateT.bind]
  rcases first s with ⟨_ | a, t⟩ <;> rfl

/-- The state is returned. -/
@[simp]
theorem perform_get (s : σ) : (get : Attempt σ σ).perform s = (.ok s, s) :=
  rfl

/-- The state is the new one. -/
@[simp]
theorem perform_set (s t : σ) : (set t : Attempt σ PUnit).perform s = (.ok ⟨⟩, t) :=
  rfl

/-- The state is the changed one. -/
@[simp]
theorem perform_modify (change : σ → σ) (s : σ) :
    (modify change : Attempt σ PUnit).perform s = (.ok ⟨⟩, change s) :=
  rfl

/-- The value is computed from the state before the change. -/
@[simp]
theorem perform_extend (value : σ → α) (change : σ → σ) (s : σ) :
    (extend value change).perform s = (.ok (value s), change s) :=
  rfl

/-- An attempt on a part of the state leaves the rest of it as it is. -/
@[simp]
theorem perform_within (part : σ → τ) (put : τ → σ → σ) (attempt : Attempt τ α) (s : σ) :
    (attempt.within part put).perform s =
      ((attempt.perform (part s)).1, put (attempt.perform (part s)).2 s) :=
  rfl

end Attempt

end FactModel
