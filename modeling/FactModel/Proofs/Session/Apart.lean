import FactModel.Proofs.Definition.Apart
import FactModel.Proofs.Session.Definitions
import FactModel.Proofs.Session.Kinds
import FactModel.Proofs.Session.Players
set_option autoImplicit false

/-!
# Exact matches after scripts

A match of a clause is exact if it costs nothing. The readings that clauses invoke are apart after
any scripts that declare no role name for two terms at once, and so the exact matches of a clause
belong to one fact type, but for two exceptions. A fact type about kinds comes with readings in
fixed words, whether or not another fact type has been stated in them. And a reading may be stated
where a negative one is there in the same words; negated clauses invoke both of them.

## Main definitions

* `FactModel.Script.FixesNames` — a script declares each role name for one term in a declaration.
* `FactModel.Context.IsExact` — a match of a clause costs nothing.

## Main results

* `FactModel.Session.allApart_compileAll_start` — after scripts readings are apart.
* `FactModel.Session.exact_matches` — so the exact matches of a clause belong to one fact type, and
  that one is selected.
* `FactModel.Session.exists_exact_matches_apart` — where they may belong to two.
-/

namespace FactModel

open Attempt Compile Vocabulary

/-! ## Exact matches -/

namespace Context

variable {x : Context} {options : MatchOptions} {c : Clause} {a b : Alignment} {r : ReadingId}

/-- A match in the ranking of a clause that costs nothing. -/
def IsExact (x : Context) (options : MatchOptions) (c : Clause) (a : Alignment) : Prop :=
  a ∈ (x.rank options c).alignments ∧ a.cost = 0

/-- An exact match is of a reading in whose words the clause is. -/
lemma IsExact.told (hv : x.vocabulary.WellFormed) (h : x.IsExact options c a) :
    a.reading ∈ x.vocabulary.readingIds ∧ x.vocabulary.IsInvocable a.reading ∧ x.Echo c a.reading ∧
      a.factType = (x.vocabulary.reading a.reading).factType ∧
      ((x.vocabulary.reading a.reading).isNegative → c.certainty = .negated) := by
  obtain ⟨hecho, hinvocable⟩ := echo_of_mem_rank hv h.1 h.2
  obtain ⟨hmem, halign, -⟩ := align_of_mem_rank hv h.1
  obtain ⟨hcertainty, -, -, hfactType, -⟩ := align_eq_ok_iff.1 halign
  exact ⟨hmem, hinvocable, hecho, hfactType, hcertainty⟩

section Apart

variable (hv : x.vocabulary.WellFormed) (hinherits : x.vocabulary.Inherits)
  (htold : x.vocabulary.KindsTold) (hapart : x.vocabulary.AllApart)

include hv hinherits htold hapart

/-- **Exact matches that differ.** If two exact matches of a clause belong to different fact types,
then the newer reading came with kinds and the older one does not belong to a fact type about kinds,
or the older reading is negative, the newer one is not, and the clause is negated. -/
theorem IsExact.factType_eq_or (ha : x.IsExact options c a) (hb : x.IsExact options c b)
    (hle : a.reading.index ≤ b.reading.index) : a.factType = b.factType ∨
      (¬(x.vocabulary.factType a.factType).isTypeInheritance ∧
        x.vocabulary.ComesWithKind b.reading) ∨
      (c.certainty = .negated ∧ (x.vocabulary.reading a.reading).isNegative ∧
        ¬(x.vocabulary.reading b.reading).isNegative) := by
  obtain ⟨hr, hinvocable, hecho, hfactType, hcertainty⟩ := ha.told hv
  obtain ⟨hr', hinvocable', hecho', hfactType', -⟩ := hb.told hv
  have hwords := sameWords_of_echo hecho hecho'
  rw [hfactType, hfactType']
  rcases hapart b.reading hr' hinvocable' with hkind | hnew
  · by_cases hold : (x.vocabulary.factType
        (x.vocabulary.reading a.reading).factType).isTypeInheritance
    · exact .inl (factType_eq_of_sameWords hv hinherits htold hr hr' hinvocable hinvocable' hwords
        hold hkind.1)
    · exact .inr (.inl ⟨hold, hkind⟩)
  · rcases Nat.lt_or_eq_of_le hle with hlt | heq
    · rcases hnew a.reading hr hlt hinvocable hwords with hsame | ⟨hnegative, hpositive⟩
      · exact .inl hsame
      · exact .inr (.inr ⟨hcertainty hnegative, hnegative, hpositive⟩)
    · have hreading : a.reading = b.reading := congrArg ReadingId.mk heq
      exact .inl (by rw [hreading])

/-- Exact matches that agree about whether they are negative and about kinds belong to one fact
type. -/
lemma IsExact.factType_eq (ha : x.IsExact options c a) (hb : x.IsExact options c b)
    (hkind : (x.vocabulary.factType a.factType).isTypeInheritance =
      (x.vocabulary.factType b.factType).isTypeInheritance)
    (hnegative : (x.vocabulary.reading a.reading).isNegative =
      (x.vocabulary.reading b.reading).isNegative) : a.factType = b.factType := by
  wlog hle : a.reading.index ≤ b.reading.index generalizing a b
  · exact (this hb ha hkind.symm hnegative.symm (Nat.le_of_not_le hle)).symm
  rcases ha.factType_eq_or hv hinherits htold hapart hb hle with
    heq | ⟨hnot, hcame⟩ | ⟨-, hneg, hnot⟩
  · exact heq
  · have hcame := hcame.1
    rw [← (hb.told hv).2.2.2.1, ← hkind] at hcame
    exact absurd hcame hnot
  · exact absurd (hnegative ▸ hneg) hnot

/-- A clause in the words of a reading selects the fact type of the reading at no cost, if its exact
matches agree with the reading about whether they are negative and about kinds. -/
theorem select_of_echo (hr : r ∈ x.vocabulary.readingIds) (hinvocable : x.vocabulary.IsInvocable r)
    (hecho : x.Echo c r) (hcertainty : (x.vocabulary.reading r).isNegative → c.certainty = .negated)
    (hagree : ∀ a, x.IsExact options c a →
      (x.vocabulary.factType a.factType).isTypeInheritance =
          (x.vocabulary.factType (x.vocabulary.reading r).factType).isTypeInheritance ∧
        (x.vocabulary.reading a.reading).isNegative = (x.vocabulary.reading r).isNegative) :
    ∃ a, x.select c (x.rank options c) = .ok (some a) ∧
      a.factType = (x.vocabulary.reading r).factType ∧ a.cost = 0 := by
  obtain ⟨b, hb, rfl, hcost⟩ := exists_mem_rank_of_echo hv hr hinvocable hecho hcertainty options
  have hexact : x.IsExact options c b := ⟨hb, hcost⟩
  have hfactType := (hexact.told hv).2.2.2.1
  refine select_of_cost_eq_zero ⟨b, hb, hcost⟩ fun a ha hzero => ?_
  obtain ⟨hkind, hnegative⟩ := hagree a ⟨ha, hzero⟩
  rw [← hfactType] at hkind ⊢
  exact IsExact.factType_eq hv hinherits htold hapart ⟨ha, hzero⟩ hexact hkind hnegative

end Apart

end Context

/-! ## Declarations -/

/-- In each declaration of a fact type that a script contains, each role name is declared for one
term only. -/
def Script.FixesNames (script : String) : Prop :=
  ∀ ds, Script.parse script = .ok ds →
    ∀ d ∈ ds, (Session.definition? d).isSome → Script.NamesFixed d.clauses

instance (script : String) : Decidable (Script.FixesNames script) :=
  match hparse : Script.parse script with
  | .ok ds =>
    decidable_of_iff (∀ d ∈ ds, (Session.definition? d).isSome → Script.NamesFixed d.clauses)
      ⟨fun h es hes => by cases hparse.symm.trans hes; exact h, fun h => h ds hparse⟩
  | .error _ => isTrue fun _ hes => nomatch hparse.symm.trans hes

/-- Whether a script fixes its role names is found out by evaluating its characters. -/
lemma Script.fixesNames_ofList (source : List Char) :
    FixesNames (.ofList source) ↔ ∀ ds ∈ (evaluate source).toOption, ∀ d ∈ ds,
      (Session.definition? d).isSome → NamesFixed d.clauses := by
  rw [FixesNames, parse_ofList]
  cases evaluate source <;> simp [Except.toOption]

namespace Session

variable {s : Session}

/-- Declarations that declare each role name for one term keep readings apart. -/
theorem allApart_declare (hs : s.vocabulary.Consistent) (hapart : s.vocabulary.AllApart)
    {d : Script.Declaration} (hplain : Script.ArePlain d.clauses)
    (hfixed : (definition? d).isSome → Script.NamesFixed d.clauses) :
    (s.declare d).2.vocabulary.AllApart := by
  rcases hd : s.declare d with ⟨_ | outcome, t⟩
  · obtain rfl := eq_of_declare_eq_error hd
    exact hapart
  rcases hdefinition : definition? d with _ | ⟨clauses, split⟩
  · exact hapart.addsFixed hs.toWellFormed
      (through_declare AddsFixed.refl addsFixed_comparisonFactType
      addsFixed_linkFactType addsFixed_addQuery addsFixed_declareObjectType addsFixed_addSubtype
      hdefinition hd)
  · rw [hdefinition] at hfixed
    obtain rfl := clauses_of_definition? hdefinition
    obtain ⟨run, -, hlater⟩ := exists_definitionRun AddsFixed.refl addsFixed_comparisonFactType
      addsFixed_linkFactType addsFixed_addQuery addsFixed_objectify addsFixed_setDerivation
      hdefinition hd
    have hready := run.ready hs hplain
    have hentered : s.vocabulary.AddsFixed run.bound.vocabulary :=
      ((leads_enter_through AddsFixed.refl addsFixed_addForwardEntityType d.clauses
        s.context).of_perform run.enter_eq).1
    have hroles : s.context.RolesOnly (fun _ => False) run.bound :=
      ((leads_enter_rolesOnly d.clauses s.context).of_perform run.enter_eq).1
    have hdefined := allApart_defineFactType hready
      (playersAgree_of_enter (hfixed rfl) run.enter_eq) (fun m => hroles m id)
      (hapart.addsFixed hs.toWellFormed hentered) run.define_eq
    have hconsistent := ((leads_defineFactType hready.valid fun c hc =>
      (hready.fits c hc).imp fun _ h => h.valid).of_perform run.define_eq).1.valid.consistent
    exact hdefined.addsFixed hconsistent.toWellFormed hlater

/-- **Readings are apart.** After any scripts that declare no role name for two terms at once, the
readings that clauses invoke are in other words than the readings of other fact types before them,
but for negative ones that they are positive to, and for those that come with kinds. -/
theorem allApart_compileAll_start (settings : Settings) {scripts : List String}
    (hnames : ∀ script ∈ scripts, Script.FixesNames script) :
    ((start settings).compileAll scripts).vocabulary.AllApart := by
  exact (compileAll_induction_of (P := fun s => s.vocabulary.Consistent ∧ s.vocabulary.AllApart)
    (Q := fun d => (definition? d).isSome → Script.NamesFixed d.clauses)
    (fun s d hs hplain hfixed =>
      ⟨consistent_declare hs.1 hplain, allApart_declare hs.1 hs.2 hplain hfixed⟩)
    ⟨consistent_start settings, allApart_empty _⟩ hnames).2

/-! ## Clauses -/

/-- **Exact matches belong to one fact type.** Let scripts be compiled that declare no role name for
two terms at once, and let clauses be entered. If two exact matches of any clause belong to
different fact types, then the newer reading is one that came with kinds and the fact type of the
older one is not about kinds; or the clause is negated, the older reading is negative and the newer
one is not. A clause in the words of a reading that clauses invoke selects the fact type of that
reading at no cost, if all its exact matches are negative just in case the reading is, and about
kinds just in case it is.

**Proof sketch.** An exact match is in the words of its clause, and readings are apart. -/
theorem exact_matches (settings : Settings) (scripts : List String)
    (hnames : ∀ script ∈ scripts, Script.FixesNames script) (clauses : List Script.Clause) :
    let v := ((enter clauses).perform ((start settings).compileAll scripts).context).2.vocabulary
    ∀ x : Context, x.vocabulary = v → ∀ (options : MatchOptions) (c : Clause),
      (∀ a b, x.IsExact options c a → x.IsExact options c b → a.reading.index ≤ b.reading.index →
        a.factType = b.factType ∨
          (¬(v.factType a.factType).isTypeInheritance ∧ v.ComesWithKind b.reading) ∨
          (c.certainty = .negated ∧ (v.reading a.reading).isNegative ∧
            ¬(v.reading b.reading).isNegative)) ∧
      ∀ r ∈ v.readingIds, v.IsInvocable r → x.Echo c r →
        ((v.reading r).isNegative → c.certainty = .negated) →
        (∀ a, x.IsExact options c a →
          (v.factType a.factType).isTypeInheritance =
              (v.factType (v.reading r).factType).isTypeInheritance ∧
            (v.reading a.reading).isNegative = (v.reading r).isNegative) →
        ∃ a, x.select c (x.rank options c) = .ok (some a) ∧
          a.factType = (v.reading r).factType ∧ a.cost = 0 := by
  intro v x hx options c
  have hv : v.WellFormed := (consistent_enter settings scripts clauses).toWellFormed
  have hevolves := evolves_enter settings scripts clauses
  have hinherits : v.Inherits := hevolves.preserves (.empty _) inherits_of_change
  have htold : v.KindsTold := hevolves.kindsTold
  have hentered : ((start settings).compileAll scripts).vocabulary.AddsFixed v :=
    (leads_enter_through AddsFixed.refl addsFixed_addForwardEntityType clauses
      ((start settings).compileAll scripts).context).snd
  have hapart : v.AllApart := (allApart_compileAll_start settings hnames).addsFixed
    (consistent_compileAll (consistent_start settings) scripts).toWellFormed hentered
  rw [← hx] at hv hinherits htold hapart ⊢
  exact ⟨fun a b ha hb hle => ha.factType_eq_or hv hinherits htold hapart hb hle,
    fun r hr hinvocable hecho hcertainty hagree =>
      Context.select_of_echo hv hinherits htold hapart hr hinvocable hecho hcertainty hagree⟩

/-- The exact matches of `Employee sees Person` belong to one fact type, also once the one is a kind
of the other. -/
theorem exact_matches_sees :
    let scripts := ["entity type Person; entity type Employee; Employee sees Person;",
      "Employee is a kind of Person;"]
    let clauses : List Script.Clause :=
      [{ phrases :=
        [.mention { term := "Employee" }, .word "sees", .mention { term := "Person" }] }]
    let x := ((enter clauses).perform ((start {}).compileAll scripts).context).2
    let c : Clause := { phrases := [.slot ⟨⟨0⟩, []⟩, .word "sees", .slot ⟨⟨1⟩, []⟩] }
    (∀ script ∈ scripts, Script.FixesNames script) ∧ (∃ a, x.IsExact {} c a) ∧
      ∀ a b, x.IsExact {} c a → x.IsExact {} c b → a.factType = b.factType := by
  intro scripts clauses x c
  have hcomputed : (∀ script ∈ scripts, Script.FixesNames script) ∧
      (∃ a ∈ (x.rank {} c).alignments, a.cost = 0) ∧
      ∀ a ∈ (x.rank {} c).alignments, ¬(x.vocabulary.factType
        (x.vocabulary.reading a.reading).factType).isTypeInheritance := by
    unfold scripts x
    rw [List.forall_mem_cons, List.forall_mem_singleton, Script.fixesNames_ofList,
      Script.fixesNames_ofList, compileAll_cons, compile_ofList, compileAll_cons, compile_ofList,
      compileAll_nil]
    decide +kernel
  obtain ⟨hnames, hexact, hnone⟩ := hcomputed
  have hpair : ∀ a b, x.IsExact {} c a → x.IsExact {} c b → a.reading.index ≤ b.reading.index →
      a.factType = b.factType := by
    intro a b ha hb hle
    rcases (exact_matches {} scripts hnames clauses x rfl {} c).1 a b ha hb hle with
      heq | ⟨-, hcame⟩ | ⟨hnegated, -⟩
    · exact heq
    · exact absurd hcame.1 (hnone b hb.1)
    · cases hnegated
  refine ⟨hnames, hexact, fun a b ha hb => ?_⟩
  rcases Nat.le_total a.reading.index b.reading.index with hle | hle
  · exact hpair a b ha hb hle
  · exact (hpair b a hb ha hle).symm

/-- **Exact matches may belong to two fact types.** Where a reading is stated after a negative one
in the same words, a negated clause matches both exactly. Where one type is made a kind of another
after a fact type has been stated in the words for that, a clause matches both exactly. And where a
declaration declares a role name for two terms, one of its clauses becomes a reading in the words of
another fact type, which a clause then matches as well. Selection then fails, although the clause
restates a reading word for word. -/
theorem exists_exact_matches_apart :
    let words (between : List String) (certainty : Certainty) : Script.Clause :=
      { phrases := .mention { term := "A" } :: between.map .word ++ [.mention { term := "B" }],
        certainty }
    ∀ p ∈ [("entity type A; entity type B; it is not the case that A sees B; A sees B;",
        words ["sees"] .negated, "A sees B"),
      ("entity type A; entity type B; A sees B, A is a kind of B; A is a kind of B;",
        words ["is", "a", "kind", "of"] .definite, "A is a kind of B"),
      ("entity type A; entity type B; A sees B; A (as X) runs B, X (as Y) walks B, " ++
        "B (as X) is run by A, X (as Y) sees B;", words ["sees"] .definite, "A sees B")],
      let r := (enter [p.2.1]).perform ((start {}).compileAll [p.1]).context
      ∃ c ∈ r.1.toOption.getD [],
        (r.2.rank {} c).alignments.map (fun a => (a.factType, a.cost)) = [(⟨0⟩, 0), (⟨1⟩, 0)] ∧
          r.2.select c (r.2.rank {} c) =
            .error (.ambiguousMatch p.2.2 [(p.2.2, 0), (p.2.2, 0)]) := by
  intro words
  simp only [List.forall_mem_cons, compileAll_cons, compileAll_nil]
  rw [← String.ofList_append, compile_ofList, compile_ofList, compile_ofList]
  decide +kernel

end Session

end FactModel
