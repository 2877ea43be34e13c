import FactModel.Proofs.Script.Composition
import FactModel.Proofs.Script.Evaluation
set_option autoImplicit false

/-!
# Compiling scripts one behind the other

What a script is split into makes no difference: two scripts compile to the same, one after the
other or joined by a line feed.

## Main results

* `FactModel.Session.declareAll_append` — declarations in two parts.
* `FactModel.Session.compile_append` — scripts one behind the other are read and compiled like their
  parts.
-/

namespace FactModel.Session

/-- Declarations end with the first that is refused. -/
lemma declareAll_cons_error {s t : Session} {d : Script.Declaration} {fault : Fault}
    (h : s.declare d = (.error fault, t)) (ds : List Script.Declaration) :
    s.declareAll (d :: ds) = (.error fault, t) := by
  simp only [declareAll, h]

/-- Declarations go on after one that is accepted. -/
lemma declareAll_cons_ok {s t : Session} {d : Script.Declaration} {outcome : Outcome}
    (h : s.declare d = (.ok outcome, t)) (ds : List Script.Declaration) :
    s.declareAll (d :: ds) =
      ((t.declareAll ds).1.map (outcome :: ·), (t.declareAll ds).2) := by
  simp only [declareAll, h]

/-- Declarations in two parts come to the outcomes of both, or to the first fault. -/
theorem declareAll_append (s : Session) (ds ds' : List Script.Declaration) :
    s.declareAll (ds ++ ds') =
      match s.declareAll ds with
      | (.ok outcomes, t) =>
        ((t.declareAll ds').1.map (outcomes ++ ·), (t.declareAll ds').2)
      | (.error fault, t) => (.error fault, t) := by
  induction ds generalizing s with
  | nil =>
    have hnil : s.declareAll [] = (.ok [], s) := rfl
    rw [List.nil_append, hnil]
    dsimp only
    rcases s.declareAll ds' with ⟨_ | outcomes, t⟩ <;> rfl
  | cons d ds ih =>
    rw [List.cons_append]
    rcases h : s.declare d with ⟨fault | outcome, t⟩
    · rw [declareAll_cons_error h, declareAll_cons_error h]
    · rw [declareAll_cons_ok h, declareAll_cons_ok h, ih]
      rcases t.declareAll ds with ⟨_ | outcomes, u⟩
      · rfl
      · dsimp only [Except.map]
        rcases u.declareAll ds' with ⟨_ | outcomes', v⟩ <;> rfl

/-- **Scripts compose.** Two scripts that can be read can be read one behind the other, with a line
feed between them, and have the declarations of both in order. When the first one compiles, the
joined script compiles to the outcomes of the first and those of the second after it, or to the
fault of the second, and to the same vocabulary. -/
theorem compile_append (s : Session) {source source' : String} {ds ds' : List Script.Declaration}
    (h : Script.parse source = .ok ds) (h' : Script.parse source' = .ok ds') :
    Script.parse (source ++ "\n" ++ source') = .ok (ds ++ ds') ∧
      ∀ outcomes t, s.compile source = (.ok outcomes, t) →
        s.compile (source ++ "\n" ++ source') =
          ((t.compile source').1.map (outcomes ++ ·), (t.compile source').2) := by
  have hjoined := Script.parse_append h h'
  refine ⟨hjoined, fun outcomes t hcompile => ?_⟩
  unfold compile at hcompile ⊢
  rw [h] at hcompile
  rw [hjoined, h']
  dsimp only at hcompile ⊢
  rw [declareAll_append, hcompile]

/-- A comment at the end of the first script ends there. -/
theorem compile_append_comment :
    ((start {}).compile ("entity type A; // note" ++ "\n" ++ "A is happy;")).1.toOption =
      some [.objectType ⟨0⟩, .factType ⟨0⟩ true [⟨"A is happy", some ⟨0⟩, some ⟨0⟩, 0, none⟩]] := by
  have h : Script.parse "entity type A; // note" = .ok [.entityType "A"] := by
    rw [Script.parse_ofList]
    rfl
  have h' : Script.parse "A is happy;" =
      .ok [.factType [{ phrases := [.mention { term := "A" }, .word "is", .word "happy"] }]] := by
    rw [Script.parse_ofList]
    rfl
  have hcompile : (start {}).compile "entity type A; // note" =
      (.ok [.objectType ⟨0⟩], ((start {}).compile "entity type A; // note").2) := by
    unfold compile
    rw [h]
    rfl
  rw [(compile_append (start {}) h h').2 _ _ hcompile, compile_ofList, compile_ofList]
  decide +kernel

end FactModel.Session
