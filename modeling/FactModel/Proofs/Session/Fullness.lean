import FactModel.Proofs.Definition.Fullness
import FactModel.Proofs.Matching.Echoing
import FactModel.Proofs.Session.Definitions
set_option autoImplicit false

/-!
# Which readings are full

Every fact type has a reading that lists all its roles, and clauses invoke such readings only. A
later clause of a declaration may mention fewer players; it becomes a reading all the same, which
leaves roles out and which no clause invokes.

## Main results

* `FactModel.Session.allWhole_compileAll_start` — readings are whole and fact types have readings.
* `FactModel.Session.full_readings` — what every reading lists, and which readings list all roles.
-/

namespace FactModel

open Attempt Compile Context Vocabulary

namespace Session

variable {s t : Session}

/-! ## Declarations -/

/-- Declarations keep readings whole. -/
lemma allWhole_declare (hs : s.vocabulary.Consistent) (hwhole : s.vocabulary.AllWhole)
    {d : Script.Declaration} (hplain : Script.ArePlain d.clauses) :
    (s.declare d).2.vocabulary.AllWhole := by
  rcases hd : s.declare d with ⟨_ | outcome, t⟩
  · obtain rfl := eq_of_declare_eq_error hd
    exact hwhole
  refine hwhole.addsWhole ?_
  rcases hdefinition : definition? d with _ | ⟨clauses, split⟩
  · exact through_declare AddsWhole.refl addsWhole_comparisonFactType addsWhole_linkFactType
      addsWhole_addQuery addsWhole_declareObjectType addsWhole_addSubtype hdefinition hd
  · obtain rfl := clauses_of_definition? hdefinition
    obtain ⟨run, -, hlater⟩ := exists_definitionRun AddsWhole.refl addsWhole_comparisonFactType
      addsWhole_linkFactType addsWhole_addQuery addsWhole_objectify addsWhole_setDerivation
      hdefinition hd
    have hentered : s.vocabulary.AddsWhole run.bound.vocabulary :=
      ((leads_enter_through AddsWhole.refl addsWhole_addForwardEntityType d.clauses
        s.context).of_perform run.enter_eq).1
    have hdefined := addsWhole_defineFactType (run.ready hs hplain) (hwhole.addsWhole hentered)
      run.define_eq
    exact (hentered.trans hdefined).trans hlater

/-- **Readings are whole.** Whatever scripts have been compiled, every reading has a placeholder for
every place, every fact type has readings, and the first of these lists all roles. -/
theorem allWhole_compileAll_start (settings : Settings) (scripts : List String) :
    ((start settings).compileAll scripts).vocabulary.AllWhole :=
  (compileAll_induction (P := fun s => s.vocabulary.Consistent ∧ s.vocabulary.AllWhole)
    (fun _ _ hs hplain => ⟨consistent_declare hs.1 hplain, allWhole_declare hs.1 hs.2 hplain⟩)
    ⟨consistent_start settings, allWhole_empty _⟩ scripts).2

/-- **What readings list.** Whatever scripts have been compiled, every reading lists roles of its
fact type, none of them twice, and its template has exactly one placeholder for each place, numbers
of sixty-four bits being enough. It lists all roles just in case it has as many places as there are
roles; the first reading of every fact type does so. A reading of a stated fact type that has roles
is invoked, and at no cost, by every clause in its words if it lists all roles, and otherwise by
none.

**Proof sketch.** A clause that becomes a reading finds a different role for each of its mentions.
The one that creates a fact type has a mention for each role, and a fact type never gets further
roles. -/
theorem full_readings (settings : Settings) (scripts : List String) :
    let v := ((start settings).compileAll scripts).vocabulary
    (∀ r ∈ v.readingIds,
      ((v.readingRefs r).map (·.role)).Nodup ∧
      (∀ ref ∈ v.readingRefs r, ref.role ∈ (v.factType (v.reading r).factType).roles) ∧
      (v.IsFull r ↔ (v.readingRefs r).length = (v.factType (v.reading r).factType).arity) ∧
      ((v.readingRefs r).length ≤ Template.placeLimit →
        (Template.places (v.reading r).tokens).Perm (List.range (v.readingRefs r).length) ∧
        ((v.factType (v.reading r).factType).isStated → ∀ x : Context, x.vocabulary = v →
          ∀ c, x.Echo c r → c.mentions ≠ [] →
            ((v.reading r).isNegative → c.certainty = .negated) → ∀ options,
              (v.IsFull r ↔ ∃ a ∈ (x.rank options c).alignments, a.reading = r) ∧
              (v.IsFull r → ∃ a ∈ (x.rank options c).alignments, a.reading = r ∧ a.cost = 0)))) ∧
    ∀ f ∈ v.factTypeIds, ∃ r, (v.factType f).readings.head? = some r ∧ v.IsFull r := by
  intro v
  have hv : v.WellFormed := (consistent_compileAll (consistent_start settings) scripts).toWellFormed
  have hwhole : v.AllWhole := allWhole_compileAll_start settings scripts
  refine ⟨fun r hr => ⟨hv.refs_nodup r hr, fun ref => hv.ref_mem_roles hr, hv.isFull_iff hr,
    fun hlimit => ?_⟩, fun f hf => ?_⟩
  · have hplaces : (Template.places (v.reading r).tokens).Perm
        (List.range (v.readingRefs r).length) := by
      refine (List.perm_ext_iff_of_nodup (hv.places_nodup r hr) List.nodup_range).2 fun k => ?_
      rw [List.mem_range]
      exact ⟨hv.place_lt r hr k, fun hk =>
        (hwhole.isWhole r hr).place_mem k hk (Nat.lt_of_lt_of_le hk hlimit)⟩
    refine ⟨hplaces, fun hstated x hx c hecho hmentions hcertainty options => ?_⟩
    have hlength := hplaces.length_eq
    rw [List.length_range] at hlength
    rw [← hx] at hv hr hstated hlength hcertainty ⊢
    exact invokes_iff_isFull hv hr hstated hlength hmentions hecho hcertainty options
  · obtain ⟨r, rs, hreadings⟩ := List.exists_cons_of_ne_nil (hwhole.readings_ne_nil f hf)
    have hfirst : (v.factType f).readings[0]? = some r := by rw [hreadings]; rfl
    obtain ⟨hr, -, hordinal⟩ := (hv.readings_iff f 0 r).1 hfirst
    exact ⟨r, by rw [hreadings]; rfl, (hwhole.isWhole r hr).isFull hordinal⟩

/-- A reading of two places lists both roles, and a clause in its words invokes it. -/
theorem full_readings_sees : ∃ (x : Context) (c : Clause),
    x.vocabulary = ((start {}).compileAll ["entity type A; entity type B; A sees B;"]).vocabulary ∧
      x.vocabulary.IsFull ⟨0⟩ ∧ ∃ a ∈ (x.rank {} c).alignments, a.reading = ⟨0⟩ ∧ a.cost = 0 := by
  obtain ⟨hreadings, -⟩ := full_readings {} ["entity type A; entity type B; A sees B;"]
  have hcomputed :
      let v := ((start {}).compileAll ["entity type A; entity type B; A sees B;"]).vocabulary
      ⟨0⟩ ∈ v.readingIds ∧ (v.reading ⟨0⟩).tokens = [.place 0, .word "sees", .place 1] ∧
        v.readingRefs ⟨0⟩ = [{ role := ⟨0⟩ }, { role := ⟨1⟩ }] ∧
        v.playerOf ⟨0⟩ = ⟨0⟩ ∧ v.playerOf ⟨1⟩ = ⟨1⟩ ∧ (v.reading ⟨0⟩).isNegative = false ∧
        (v.factType (v.reading ⟨0⟩).factType).isStated = true ∧
        (v.factType (v.reading ⟨0⟩).factType).arity = 2 := by
    rw [compileAll_cons, compile_ofList, compileAll_nil]
    decide +kernel
  generalize ((start {}).compileAll ["entity type A; entity type B; A sees B;"]).vocabulary = v
    at hreadings hcomputed ⊢
  obtain ⟨hmem, htokens, hrefs, hplayer, hplayer', hpositive, hstated, harity⟩ := hcomputed
  obtain ⟨-, -, hiff, hrest⟩ := hreadings ⟨0⟩ hmem
  have hfull : v.IsFull ⟨0⟩ := hiff.2 (by rw [hrefs, harity]; rfl)
  let x : Context := { vocabulary := v, mentions :=
    #[{ term := "A", player := some ⟨0⟩ }, { term := "B", player := some ⟨1⟩ }] }
  let c : Clause := { phrases := [.slot ⟨⟨0⟩, []⟩, .word "sees", .slot ⟨⟨1⟩, []⟩] }
  have hecho : x.Echo c ⟨0⟩ := by
    change List.Forall₂ (x.EchoesToken (v.readingRefs ⟨0⟩)) (v.reading ⟨0⟩).tokens c.phrases
    rw [htokens, hrefs]
    refine .cons (.place rfl ⟨rfl, rfl, ?_⟩) (.cons (.word "sees") (.cons (.place rfl
      ⟨rfl, rfl, ?_⟩) .nil))
    · exact congrArg some hplayer.symm
    · exact congrArg some hplayer'.symm
  refine ⟨x, c, rfl, hfull,
    ((hrest ?_).2 hstated x rfl c hecho (List.cons_ne_nil _ _) ?_ {}).2 hfull⟩
  · rw [hrefs]
    decide
  · rw [hpositive]
    exact fun h => nomatch h

/-- A clause that mentions fewer players than the one before it becomes a reading that leaves out a
role. -/
theorem exists_reading_without_role :
    let v := ((start {}).compileAll
      ["entity type A; entity type B; A sees B, A is happy;"]).vocabulary
    ∃ r ∈ v.readingIds, ∃ role ∈ (v.factType (v.reading r).factType).roles,
      role ∉ (v.readingRefs r).map (·.role) := by
  intro v
  have hcomputed : ⟨1⟩ ∈ v.readingIds ∧ ⟨1⟩ ∈ (v.factType (v.reading ⟨1⟩).factType).roles ∧
      ⟨1⟩ ∉ (v.readingRefs ⟨1⟩).map (·.role) := by
    unfold v
    rw [compileAll_cons, compile_ofList, compileAll_nil]
    decide +kernel
  exact ⟨⟨1⟩, hcomputed.1, ⟨1⟩, hcomputed.2⟩

end Session

end FactModel
