import FactModel.Proofs.Definition.FactType
import FactModel.Proofs.JoinGraph.Builder
import FactModel.Proofs.Script.Evaluation
set_option autoImplicit false

/-!
# Sessions keep vocabularies consistent

The clauses of a script that can be read are plain, so that every declaration keeps the vocabulary
consistent; one that fails leaves it as it was.

## Main definitions

* `FactModel.Session.compileAll` — the session after scripts.

## Main results

* `FactModel.Compile.leads_declaration` — compiling a declaration keeps the context valid.
* `FactModel.Session.consistent_compileAll_start` — after any scripts the vocabulary is consistent.
-/

namespace FactModel

open Attempt Context

/-! ## Declarations -/

namespace Compile

variable {x : Context}

/-- Clauses that state readings are entered before the fact type is declared. -/
lemma leads_declareFactType (h : x.Valid) {clauses : List Script.Clause}
    (hplain : Script.ArePlain clauses) :
    (declareFactType clauses).Leads Extends x fun r y => r.1 ∈ y.vocabulary.factTypeIds := by
  refine Leads.bind (leads_enter_isAdopted h hplain) fun cs y hy hcs => ?_
  refine Leads.bind (leads_defineFactType hy.valid fun c hc => (hcs c hc).imp fun _ hd =>
    hd.valid _)
    fun r z hz hr => ?_
  exact leads_get_bind (leads_pure hz.valid.extends hr)

/-- The fact type, the clauses that it is derived by and their join graph exist. -/
lemma leads_declareDerived (h : x.Valid) (contraction : Bool) (split : Nat)
    {clauses : List Script.Clause} (hplain : Script.ArePlain clauses) :
    (declareDerived contraction split clauses).Leads Extends x fun _ _ => True := by
  refine Leads.bind (leads_enter_isAdopted h hplain) fun cs y hy hcs => ?_
  have hhead : ∀ c ∈ cs.take split, c.Everywhere (Clause.Valid y.vocabulary) := fun c hc =>
    (hcs c (List.mem_of_mem_take hc)).imp fun _ hd => hd.valid _
  refine Leads.bind (leads_defineFactType hy.valid hhead) fun r z hz hf => ?_
  obtain ⟨f, created, head⟩ := r
  refine Leads.bind (leads_resolveAll hz.valid contraction none fun c hc =>
    hcs c (List.mem_of_mem_drop hc)) fun body w hw hbody => ?_
  have hmerge := hw.valid.mergeLoose
  refine leads_modify_bind hmerge ?_
  have hbody' : ∀ c ∈ body, c.Everywhere (Clause.Valid w.mergeLoose.vocabulary) := fun c hc =>
    (hbody c hc).imp fun _ hd => hd.grows hmerge.grows
  refine Leads.bind (leads_buildQuery hmerge.valid hbody' _) fun g u hu hg => leads_get_bind ?_
  refine Leads.bind (leads_edit hu.valid (Vocabulary.leads_addQuery hu.valid.consistent hg))
    fun q t ht hq => ?_
  refine Leads.bind (leads_edit ht.valid (Vocabulary.leads_setDerivation ht.valid.consistent f hq))
    fun _ s hs _ => leads_pure hs.valid.extends trivial

/-- A query that is declared extends the vocabulary. -/
lemma leads_declareQuery (h : x.Valid) (contraction : Bool) {clauses : List Script.Clause}
    (hplain : Script.ArePlain clauses) :
    (declareQuery contraction clauses).Leads Extends x fun _ _ => True := by
  refine Leads.bind (leads_enter_isAdopted h hplain) fun cs y hy hcs => ?_
  refine Leads.bind (leads_resolveAll hy.valid contraction none hcs) fun ds z hz hds => ?_
  have hmerge := hz.valid.mergeLoose
  refine leads_modify_bind hmerge ?_
  have hds' : ∀ d ∈ ds, d.Everywhere (Clause.Valid z.mergeLoose.vocabulary) := fun d hd =>
    (hds d hd).imp fun _ he => he.grows hmerge.grows
  refine Leads.bind (leads_buildQuery hmerge.valid hds' []) fun g u hu hg => leads_get_bind ?_
  refine Leads.bind (leads_edit hu.valid (Vocabulary.leads_addQuery hu.valid.consistent hg))
    fun q t ht _ => leads_pure ht.valid.extends trivial

/-- Making a type a kind of others extends the vocabulary. -/
lemma leads_declareSupertypes (h : x.Valid) {subtype : ObjectTypeId}
    (hsub : subtype ∈ x.vocabulary.objectTypeIds) (names : List String) :
    (declareSupertypes subtype names).Leads Extends x fun _ _ => True := by
  induction names generalizing x with
  | nil => exact leads_pure h.extends trivial
  | cons name names ih =>
    refine Leads.bind (leads_resolvePlayer h name) fun supertype y hy hsuper => ?_
    have hsub' := hy.grows.mem_objectTypeIds hsub
    refine Leads.bind (leads_edit hy.valid (Vocabulary.leads_addSubtype hy.valid.consistent hsub'
      hsuper)) fun f z hz _ => ?_
    exact Leads.bind (ih hz.valid (hz.grows.mem_objectTypeIds hsub')) fun fs w hw _ =>
      leads_pure hw.valid.extends trivial

/-- Declaring a type as a kind of others extends the vocabulary. -/
lemma leads_declareSubtype (h : x.Valid) (subtype : String) (supertypes : List String) :
    (declareSubtype subtype supertypes).Leads Extends x fun _ _ => True := by
  have hrest : ∀ (t : ObjectTypeId) {y : Context}, x.Extends y → t ∈ y.vocabulary.objectTypeIds →
      (do pure (.subtype t (← declareSupertypes t supertypes)) : Compile Outcome).Leads Extends y
        fun _ _ => True := fun t y hy ht =>
    Leads.bind (leads_declareSupertypes hy.valid ht supertypes) fun fs z hz _ =>
      leads_pure hz.valid.extends trivial
  refine leads_get_bind ?_
  split
  · next existing hexisting =>
    exact hrest existing h.extends (h.consistent.mem_of_findObjectType? hexisting)
  · exact Leads.bind (leads_edit h
      (Vocabulary.leads_declareObjectType h.consistent subtype .entity false))
        fun t y hy ht => hrest t hy ht

/-- Compiling a declaration of plain clauses keeps the context valid. -/
theorem leads_declaration (h : x.Valid) (contraction : Bool) {d : Script.Declaration}
    (hplain : Script.ArePlain d.clauses) :
    (declaration contraction d).Leads Extends x fun _ _ => True := by
  cases d with
  | entityType name | valueType name =>
    exact Leads.map
      ((leads_edit h (Vocabulary.leads_declareObjectType h.consistent name _ false)).imp
      fun _ _ _ _ => trivial)
  | subtype subtype supertypes => exact leads_declareSubtype h subtype supertypes
  | factType clauses =>
    rw [declaration]
    split
    · exact leads_declareDerived h contraction _ hplain
    · exact Leads.map ((leads_declareFactType h hplain).imp fun _ _ _ _ => trivial)
  | objectification term clauses =>
    refine Leads.bind (leads_declareFactType h hplain) fun r y hy hf => ?_
    exact Leads.bind (leads_edit hy.valid (Vocabulary.leads_objectify hy.valid.consistent term hf))
      fun _ z hz _ => leads_pure hz.valid.extends trivial
  | query clauses => exact leads_declareQuery h contraction hplain

end Compile

/-! ## Scripts -/

namespace Session

variable {s : Session}

/-- The session after compiling scripts in order, whatever comes of each. -/
def compileAll (s : Session) (scripts : List String) : Session :=
  scripts.foldl (fun s script => (s.compile script).2) s

/-- After no scripts the session is as it was. -/
lemma compileAll_nil (s : Session) : s.compileAll [] = s := by
  rw [compileAll, List.foldl_nil]

/-- The first script is compiled before the others. -/
lemma compileAll_cons (s : Session) (script : String) (scripts : List String) :
    s.compileAll (script :: scripts) = (s.compile script).2.compileAll scripts := by
  rw [compileAll, List.foldl_cons, ← compileAll]

/-- The context of a consistent vocabulary is valid. -/
lemma valid_context (h : s.vocabulary.Consistent) : s.context.Valid :=
  valid_declaration h s.settings.forwardTerms

/-- What a declaration that does not fail comes to. -/
lemma exists_of_declare {d : Script.Declaration} {outcome : Outcome}
    (h : (s.declare d).1 = .ok outcome) :
    ∃ x, (Compile.declaration s.settings.contraction d).perform s.context = (.ok outcome, x) ∧
      (s.declare d).2 = { s with vocabulary := x.vocabulary } := by
  unfold declare at h ⊢
  split at h
  · next outcome' x heq =>
    cases h
    exact ⟨x, heq, rfl⟩
  · cases h

/-- A declaration of plain clauses keeps the vocabulary consistent, also if it fails. -/
lemma consistent_declare (h : s.vocabulary.Consistent) {d : Script.Declaration}
    (hplain : Script.ArePlain d.clauses) : (s.declare d).2.vocabulary.Consistent := by
  have hleads := (Compile.leads_declaration (valid_context h) s.settings.contraction hplain).snd
  unfold declare
  split
  · next outcome x heq =>
    rw [heq] at hleads
    exact hleads.valid.consistent
  · exact h

/-- What declarations of some sort keep, they keep in order, however far they can be compiled. -/
lemma declareAll_induction {P : Session → Prop} {Q : Script.Declaration → Prop}
    (hP : ∀ s d, P s → Q d → P (s.declare d).2) (h : P s) {ds : List Script.Declaration}
    (hds : ∀ d ∈ ds, Q d) : P (s.declareAll ds).2 := by
  induction ds generalizing s with
  | nil => exact h
  | cons d ds ih =>
    have hd := hP s d h (hds d List.mem_cons_self)
    have hrest := ih hd fun e he => hds e (List.mem_cons_of_mem d he)
    unfold declareAll
    split
    · next heq =>
      rw [heq] at hd
      exact hd
    · next heq =>
      rw [heq] at hrest
      exact hrest

/-- What declarations of plain clauses and of some sort keep is kept by scripts of such
declarations. -/
theorem compileAll_induction_of {P : Session → Prop} {Q : Script.Declaration → Prop}
    (hP : ∀ s d, P s → Script.ArePlain d.clauses → Q d → P (s.declare d).2) (h : P s)
    {scripts : List String}
    (hscripts : ∀ script ∈ scripts, ∀ ds, Script.parse script = .ok ds → ∀ d ∈ ds, Q d) :
    P (s.compileAll scripts) := by
  refine List.foldlRecOn (motive := P) scripts _ h fun t ht script hscript => ?_
  unfold compile
  split
  · exact ht
  · next ds hparse =>
    refine declareAll_induction (Q := fun d => Script.ArePlain d.clauses ∧ Q d)
      (fun s d hs hd => hP s d hs hd.1 hd.2) ht fun d hd =>
        ⟨?_, hscripts script hscript ds hparse d hd⟩
    exact Script.arePlain_iff.2 (Script.isPlain_of_parse hparse d hd)

/-- **What declarations keep, scripts keep.** What every declaration of plain clauses keeps is kept
by scripts, however far each of them can be compiled: their clauses are plain. -/
theorem compileAll_induction {P : Session → Prop}
    (hP : ∀ s d, P s → Script.ArePlain d.clauses → P (s.declare d).2) (h : P s)
    (scripts : List String) : P (s.compileAll scripts) :=
  compileAll_induction_of (Q := fun _ => True) (fun s d hs hplain _ => hP s d hs hplain) h
    fun _ _ _ _ _ _ => trivial

/-- Scripts keep the vocabulary of a session consistent. -/
lemma consistent_compileAll (h : s.vocabulary.Consistent) (scripts : List String) :
    (s.compileAll scripts).vocabulary.Consistent :=
  compileAll_induction (P := fun t => t.vocabulary.Consistent)
    (fun _ _ ht hplain => consistent_declare ht hplain) h scripts

/-- A session starts with a consistent vocabulary. -/
lemma consistent_start (settings : Settings) : (start settings).vocabulary.Consistent :=
  Vocabulary.consistent_empty settings.vocabulary

/-- **Referential integrity.** After any scripts, those included that fail, the parts of the
vocabulary agree and refer to what exists.

**Proof sketch.** The vocabulary without constructs is consistent. A declaration changes it only by
edits that keep it consistent where what they are given exists, and the context of the declaration
keeps track of what exists. A declaration that fails is undone as a whole. -/
theorem consistent_compileAll_start (settings : Settings) (scripts : List String) :
    ((start settings).compileAll scripts).vocabulary.Consistent :=
  consistent_compileAll (consistent_start settings) scripts

end Session

end FactModel
