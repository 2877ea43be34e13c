import FactModel.Proofs.Definition.Following
import FactModel.Proofs.Definition.Placing
import FactModel.Proofs.Session.Constraints
set_option autoImplicit false

/-!
# Places, roles and bindings in declarations

Whatever a declaration of a fact type finds in the vocabulary, its clauses end up alike: those that
invoke a reading in its order, those that need an order or adjectives of their own, and those that
become readings.

A declaration that creates a fact type gives its mentions roles by their bindings as far as it can:
the first clause says which bindings have roles. A mention of another binding is not refused. It
takes some role that is left, by its player and its adjectives, so that a role may have two
bindings.

## Main results

* `FactModel.Session.linesUp_declare` — once a fact type has been defined, the mentions of each
  clause line up with its role sequence.
* `FactModel.Session.rolesFollow_declare` — mentions play the same role if and only if they share a
  binding, just in case all bindings are mentioned by the first clause.
* `FactModel.Session.exists_shared_role` — two mentions of different bindings that play the same
  role.
-/

namespace FactModel.Session

open Attempt Compile Vocabulary

variable {s : Session} {d : Script.Declaration}

/-- **Mentions line up with role sequences.** Whatever scripts have been compiled, let a declaration
then define a fact type and compile. Once the fact type has been defined, each clause that states it
has kept its mentions and is of that fact type; its role sequence has a reference for each mention,
the mention at each position has that position for its place and the role that is referred to there,
and these are different roles of the fact type.

**Proof sketch.** A clause that invokes a reading takes its places from the reading. If these are
not in order, or adjectives are left over, it gets a role sequence of its own, and so does a clause
that becomes a reading. What is embedded afterwards gives neither roles nor places. -/
theorem linesUp_declare (settings : Settings) (scripts : List String) :
    let s := (start settings).compileAll scripts
    ∀ script ds, Script.parse script = .ok ds → ∀ d ∈ ds, ∀ outcome t,
      s.declare d = (.ok outcome, t) → ∀ clauses split, definition? d = some (clauses, split) →
        ∃ run : s.DefinitionRun split clauses,
          (∃ reports, outcome = .factType run.factType run.created reports) ∧
          List.Forall₂ (fun c e => e.mentions = c.mentions ∧
            ∃ q, run.defined.LinesUp run.factType e q) run.stated run.head := by
  intro s script ds hparse d hd outcome t h clauses split hdefinition
  have hs := consistent_compileAll (consistent_start settings) scripts
  have hi : s.vocabulary.Inherits :=
    (evolves_compileAll_start settings scripts).preserves (.empty _) inherits_of_change
  have hplain : Script.ArePlain d.clauses :=
    Script.arePlain_iff.2 (Script.isPlain_of_parse hparse d hd)
  obtain rfl := clauses_of_definition? hdefinition
  obtain ⟨run, houtcome, -⟩ := exists_definitionRun_evolves hdefinition h
  have hbound := evolvesSparing_of_enter run.enter_eq
  obtain ⟨hkeeps, hlinesUp⟩ := linesUp_defineFactType (run.ready hs hplain)
    (hbound.evolves.preserves hi inherits_of_change)
    ((constrained_compileAll_start settings scripts).evolvesSparing hs.toWellFormed hi hbound)
    run.define_eq
  refine ⟨run, houtcome, ?_⟩
  refine List.forall₂_iff_zip.2 ⟨hkeeps.length_eq, fun {c e} hce => ?_⟩
  exact ⟨(List.forall₂_zip hkeeps hce).mentions_eq, hlinesUp e (List.of_mem_zip hce).2⟩

/-- The clauses of a declaration line up, one of which invokes a reading as it is, while the next
becomes a reading and the last has an adjective left over. -/
theorem linesUp_declare_owns :
    let s := (start {}).compileAll ["entity type Person; entity type Car; Person owns Car;"]
    ∃ d clauses,
      Script.parse "Person owns Car, Car is of big- Person, big- Person owns Car;" = .ok [d] ∧
      definition? d = some (clauses, none) ∧ ∃ outcome t, s.declare d = (.ok outcome, t) ∧
        ∃ run : s.DefinitionRun none clauses,
          run.head.map (·.roleSequence) = [some ⟨0⟩, some ⟨1⟩, some ⟨2⟩] ∧
          List.Forall₂ (fun c e => e.mentions = c.mentions ∧
            ∃ q, run.defined.LinesUp run.factType e q) run.stated run.head := by
  intro s
  have hcompiles : s.compiles "Person owns Car, Car is of big- Person, big- Person owns Car;"
      (s.definesSuch fun _ _ r _ =>
        r.2.2.map (·.roleSequence) = [some ⟨0⟩, some ⟨1⟩, some ⟨2⟩]) = true := by
    unfold s
    rw [compileAll_cons, compile_ofList, compileAll_nil, compiles_ofList]
    decide +kernel
  obtain ⟨d, outcome, t, hparse, hdefines, h⟩ := exists_of_compiles hcompiles
  obtain ⟨clauses, hdefinition, hsequences⟩ := definition?_of_definesSuch hdefines
  obtain ⟨run, -, hlinesUp⟩ := linesUp_declare {} _ _ _ hparse d List.mem_cons_self outcome t h
    clauses none hdefinition
  exact ⟨d, clauses, hparse, hdefinition, outcome, t, h, run, of_decide_eq_true (hsequences run),
    hlinesUp⟩

/-! ## Roles and bindings -/

/-- **New readings follow bindings.** Whatever scripts have been compiled, let a declaration then
create a fact type and compile, none of the clauses that state it mentioning a binding twice. When
the fact type has been defined, the mentions of these clauses are bound as they have been entered,
those of each clause having different roles of the fact type. Any two of them play the same role if
and only if they share a binding, just in case every binding that they have is mentioned by the
first clause.

**Proof sketch.** The first clause gets a role for each of its mentions. In another clause a mention
finds the role of the mention in the first clause whose binding it shares, which no mention before
it has taken. If it finds none, it takes a role that was made for another binding. -/
theorem rolesFollow_declare (settings : Settings) (scripts : List String) :
    let s := (start settings).compileAll scripts
    ∀ script ds, Script.parse script = .ok ds → ∀ d ∈ ds, ∀ outcome t,
      s.declare d = (.ok outcome, t) → ∀ clauses split, definition? d = some (clauses, split) →
        ∃ run : s.DefinitionRun split clauses,
          (∃ reports, outcome = .factType run.factType run.created reports) ∧
          (run.created = true → run.bound.BindsOnce run.stated →
            (∀ c ∈ run.stated, ∀ m ∈ c.mentions,
              (run.defined.mention m).binding = (run.bound.mention m).binding) ∧
            (∀ c ∈ run.stated, run.defined.Fills run.factType c.mentions) ∧
            (run.defined.RolesFollow run.stated ↔ run.bound.Rooted run.stated)) := by
  intro s script ds hparse d hd outcome t h clauses split hdefinition
  have hs := consistent_compileAll (consistent_start settings) scripts
  have hi : s.vocabulary.Inherits :=
    (evolves_compileAll_start settings scripts).preserves (.empty _) inherits_of_change
  have hplain : Script.ArePlain d.clauses :=
    Script.arePlain_iff.2 (Script.isPlain_of_parse hparse d hd)
  obtain rfl := clauses_of_definition? hdefinition
  obtain ⟨run, houtcome, -⟩ := exists_definitionRun_evolves hdefinition h
  have hbound := evolvesSparing_of_enter run.enter_eq
  refine ⟨run, houtcome, fun hcreated honce => ?_⟩
  exact rolesFollow_iff_rooted (run.ready hs hplain)
    (hbound.evolves.preserves hi inherits_of_change)
    ((constrained_compileAll_start settings scripts).evolvesSparing hs.toWellFormed hi hbound)
    honce (hcreated ▸ run.define_eq)

/-- Two mentions of one type that are told apart by numbers keep their roles in another reading, in
which they change places. -/
theorem rolesFollow_declare_numbered :
    let s := (start {}).compileAll ["entity type Person;"]
    ∃ d clauses,
      Script.parse "Person(1) leads Person(2), Person(2) is led by Person(1);" = .ok [d] ∧
      definition? d = some (clauses, none) ∧ ∃ outcome t, s.declare d = (.ok outcome, t) ∧
        ∃ run : s.DefinitionRun none clauses, run.created = true ∧
          run.bound.BindsOnce run.stated ∧ run.bound.Rooted run.stated ∧
          run.defined.RolesFollow run.stated := by
  intro s
  have hcompiles : s.compiles "Person(1) leads Person(2), Person(2) is led by Person(1);"
      (s.definesSuch fun cs x r _ => r.2.1 && decide (x.BindsOnce cs ∧ x.Rooted cs)) = true := by
    unfold s
    rw [compileAll_cons, compile_ofList, compileAll_nil, compiles_ofList]
    decide +kernel
  obtain ⟨d, outcome, t, hparse, hdefines, h⟩ := exists_of_compiles hcompiles
  obtain ⟨clauses, hdefinition, hholds⟩ := definition?_of_definesSuch hdefines
  obtain ⟨run, -, hfollows⟩ := rolesFollow_declare {} _ _ _ hparse d List.mem_cons_self outcome t h
    clauses none hdefinition
  obtain ⟨hcreated, hholds⟩ := Bool.and_eq_true_iff.1 (hholds run)
  obtain ⟨honce, hrooted⟩ := of_decide_eq_true hholds
  exact ⟨d, clauses, hparse, hdefinition, outcome, t, h, run, hcreated, honce, hrooted,
    (hfollows hcreated honce).2.2.2 hrooted⟩

/-- Two mentions of different bindings come to play the same role of the fact type that a
declaration creates, no clause of which mentions a binding twice. -/
theorem exists_shared_role :
    let s := (start {}).compileAll ["entity type A; entity type B;"]
    ∃ d clauses, Script.parse "A(1) sees B, B is seen by A(2);" = .ok [d] ∧
      definition? d = some (clauses, none) ∧ ∃ outcome t, s.declare d = (.ok outcome, t) ∧
        ∃ run : s.DefinitionRun none clauses, run.created = true ∧
          run.bound.BindsOnce run.stated ∧ ∃ c ∈ run.stated, ∃ m ∈ c.mentions,
            ∃ e ∈ run.stated, ∃ n ∈ e.mentions,
              (run.defined.mention m).role = (run.defined.mention n).role ∧
              (run.defined.mention m).binding ≠ (run.defined.mention n).binding := by
  intro s
  have hcompiles : s.compiles "A(1) sees B, B is seen by A(2);"
      (s.definesSuch fun cs x r y => r.2.1 && decide (x.BindsOnce cs ∧ ∃ c ∈ cs, ∃ m ∈ c.mentions,
        ∃ e ∈ cs, ∃ n ∈ e.mentions, (y.mention m).role = (y.mention n).role ∧
          (y.mention m).binding ≠ (y.mention n).binding)) = true := by
    unfold s
    rw [compileAll_cons, compile_ofList, compileAll_nil, compiles_ofList]
    decide +kernel
  obtain ⟨d, outcome, t, hparse, hdefines, h⟩ := exists_of_compiles hcompiles
  obtain ⟨clauses, hdefinition, hholds⟩ := definition?_of_definesSuch hdefines
  obtain ⟨run, -, -⟩ := exists_definitionRun_evolves hdefinition h
  obtain ⟨hcreated, hholds⟩ := Bool.and_eq_true_iff.1 (hholds run)
  exact ⟨d, clauses, hparse, hdefinition, outcome, t, h, run, hcreated, of_decide_eq_true hholds⟩

end FactModel.Session
