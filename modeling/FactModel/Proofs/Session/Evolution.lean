import FactModel.Proofs.Definition.Keeping
import FactModel.Proofs.Session
import FactModel.Proofs.Vocabulary.Hierarchy
set_option autoImplicit false

/-!
# Declarations evolve the vocabulary

Every declaration edits the vocabulary by changes in sequence, whatever it declares and however far
it gets.

## Main results

* `FactModel.Compile.leads_buildQuery_through` — building a join graph adds links only.
* `FactModel.Compile.evolves_declaration` — a declaration leads through changes of the vocabulary.
* `FactModel.Session.evolves_compileAll_start` — so do scripts, from the vocabulary without
  constructs.
* `FactModel.Session.hierarchical_compileAll_start` — which makes the hierarchy of types sound.
-/

namespace FactModel

open Attempt Compile

/-! ## Join graphs -/

namespace Draft

/-- The vocabularies of two drafts are related. -/
def Through (R : Vocabulary → Vocabulary → Prop) (d e : Draft) : Prop :=
  R d.context.vocabulary e.context.vocabulary

instance {R : Vocabulary → Vocabulary → Prop} [Trans R R R] :
    Trans (Through R) (Through R) (Through R) :=
  ⟨fun h h' => Trans.trans (r := R) (s := R) (t := R) h h'⟩

end Draft

namespace Build

open Draft

variable {R : Vocabulary → Vocabulary → Prop} {d : Draft}

/-- Finding the play of a mention changes nothing. -/
lemma playOf_leads_eq (c : Clause) (m : MentionId) (d : Draft) :
    (playOf c m).Leads Eq d fun _ _ => True := by
  refine Leads.bind (variableOf_leads_eq m d) fun v e _ _ => leads_get_bind ?_
  split
  · exact leads_throw rfl
  dsimp only
  split
  · exact leads_throw_bind rfl
  · exact leads_pure rfl trivial

variable [Trans R R R] (hrefl : ∀ v, R v v)

include hrefl

/-- Adding a step does nothing to the vocabulary. -/
lemma leads_addStep_through (f : FactTypeId) (reading : Option ReadingId) (certainty : Certainty)
    (plays : List (VariableId × RoleId)) (d : Draft) :
    (addStep f reading certainty plays).Leads (Through R) d fun _ _ => True :=
  leads_get_bind (leads_modify_bind (hrefl _) (leads_pure (hrefl _) trivial))

/-- Adding the step of a clause does nothing to the vocabulary. -/
lemma leads_addOwnStep_through (c : Clause) (d : Draft) :
    (addOwnStep c).Leads (Through R) d fun _ _ => True := by
  unfold addOwnStep
  split
  · exact leads_pure (hrefl _) trivial
  have hplays := leads_mapM (P := fun _ => True) fun m (_ : m ∈ c.mentions) => playOf_leads_eq c m d
  refine Leads.bind (R := Through R) (hplays.weaken fun e he => he ▸ hrefl _) fun plays e _ _ => ?_
  exact Leads.map (leads_addStep_through hrefl _ _ _ plays e)

variable (hlink : ∀ v t r, (Vocabulary.linkFactType t r).Leads R v fun _ _ => True)

include hlink

omit [Trans R R R] hrefl in
/-- What adding a link keeps it keeps in a draft. -/
lemma leads_linkFactType_through (t : ObjectTypeId) (r : RoleId) (d : Draft) :
    ((Vocabulary.linkFactType t r).within (·.context.vocabulary) fun v d =>
      { d with context := { d.context with vocabulary := v } } : Build FactTypeId).Leads (Through R)
        d fun _ _ => True :=
  Leads.within (hlink _ t r) (fun _ hv => hv) fun _ _ _ _ => trivial

/-- Adding a link does what adding its fact type does. -/
lemma leads_linkStep_through (outer : VariableId) (inner : StepId) (d : Draft) :
    (linkStep outer inner).Leads (Through R) d fun _ _ => True := by
  refine leads_modify_bind (hrefl _) (leads_modify_bind (hrefl _) (leads_get_bind ?_))
  refine Leads.bind (leads_linkFactType_through hlink _ _ _) fun f e _ _ => leads_get_bind ?_
  exact Leads.bind (leads_addStep_through hrefl _ _ _ _ e) fun _ u _ _ =>
    leads_pure (hrefl _) trivial

/-- Adding the steps of clauses keeps what adding links keeps. -/
lemma stepsKeep_through :
    StepsKeep (Through R) (fun _ _ => True) (fun _ _ => True) (fun _ _ => True) where
  last _ := hrefl _
  fits_mono _ _ := trivial
  hasVariable_mono _ _ := trivial
  variableOf m _ := by
    refine ((variableOf_leads_eq m _).weaken fun e he => ?_).imp fun _ _ _ _ => trivial
    rw [← he]
    exact hrefl _
  addOwnStep _ _ := (leads_addOwnStep_through hrefl _ _).imp fun _ _ _ _ _ _ => trivial
  linkStep _ _ _ := leads_linkStep_through hrefl hlink _ _ _
  ask _ _ := leads_modify (hrefl _) trivial

/-- Building a join graph keeps what adding links keeps. -/
lemma leads_build_through (clauses : List Clause) (projected : List MentionId) (d : Draft) :
    (build clauses projected).Leads (Through R) d fun _ _ => True := by
  have hvariables : Through R d ((allMentions clauses).foldl Draft.addVariable d) := by
    unfold Through
    rw [context_addVariables]
    exact hrefl _
  refine leads_modify_bind hvariables ?_
  refine Leads.bind ((stepsKeep_through hrefl hlink).forM_addTopClause (hrefl _) fun c _ =>
    c.everywhere_of_forall fun _ => trivial) fun _ e _ _ => ?_
  refine leads_get_bind (leads_ofExcept_bind (hrefl _) fun _ _ => ?_)
  have hprojected := leads_mapM (P := fun _ => True) fun m (_ : m ∈ projected) =>
    variableOf_leads_eq m e
  exact Leads.bind (R := Through R) (hprojected.weaken fun u hu => hu ▸ hrefl _) fun ws u _ _ =>
    leads_pure (hrefl _) trivial

end Build

/-- Building a join graph keeps what the fact types of links keep. -/
theorem Compile.leads_buildQuery_through {R : Vocabulary → Vocabulary → Prop} [Trans R R R]
    (hrefl : ∀ v, R v v)
    (hlink : ∀ v t r, (Vocabulary.linkFactType t r).Leads R v fun _ _ => True)
    (clauses : List Clause) (projected : List MentionId) (x : Context) :
    (buildQuery clauses projected).Leads (Context.Through R) x fun _ _ => True := by
  have hbuild := Build.leads_build_through hrefl hlink clauses projected { context := x }
  unfold Leads Ends at hbuild ⊢
  unfold buildQuery perform
  unfold perform at hbuild
  dsimp only
  split at hbuild
  · next heq =>
    rw [heq]
    exact ⟨hbuild.1, trivial⟩
  · next heq =>
    rw [heq]
    exact hbuild

/-! ## Object types -/

namespace Compile

section Through

variable {R : Vocabulary → Vocabulary → Prop} [Trans R R R] (hrefl : ∀ v, R v v)
  (hdeclare : ∀ v name kind isForward,
    (Vocabulary.declareObjectType name kind isForward).Leads R v fun _ _ => True)

include hrefl hdeclare

omit [Trans R R R] in
/-- Using a name before its declaration keeps what declaring types keeps. -/
lemma leads_addForwardEntityType_through (v : Vocabulary) (name : String) :
    (Vocabulary.addForwardEntityType name).Leads R v fun _ _ => True := by
  refine leads_get_bind ?_
  split
  · exact leads_pure (hrefl v) trivial
  · exact hdeclare v name .entity true

variable (hsubtype : ∀ v a b, (Vocabulary.addSubtype a b).Leads R v fun _ _ => True)

include hsubtype

/-- Making a type a kind of others does what adding each does. -/
lemma leads_declareSupertypes_through (subtype : ObjectTypeId) (names : List String) (x : Context) :
    (declareSupertypes subtype names).Leads (Context.Through R) x fun _ _ => True := by
  induction names generalizing x with
  | nil => exact leads_pure (hrefl _) trivial
  | cons name names ih =>
    refine Leads.bind (leads_resolvePlayer_through hrefl
      (leads_addForwardEntityType_through hrefl hdeclare) name x) fun supertype y _ _ => ?_
    refine Leads.bind (leads_edit_through (hsubtype y.vocabulary _ _)) fun f z _ _ => ?_
    exact Leads.bind (ih z) fun _ _ _ _ => leads_pure (hrefl _) trivial

/-- Making a type a kind of others keeps what declaring types and the edit of subtypes keep. -/
lemma leads_declareSubtype_through (subtype : String) (supertypes : List String) (x : Context) :
    (declareSubtype subtype supertypes).Leads (Context.Through R) x fun _ _ => True := by
  have hrest : ∀ t (y : Context),
      (do pure (.subtype t (← declareSupertypes t supertypes)) : Compile Outcome).Leads
        (Context.Through R) y fun _ _ => True := fun t y =>
    Leads.bind (leads_declareSupertypes_through hrefl hdeclare hsubtype t supertypes y)
      fun _ _ _ _ => leads_pure (hrefl _) trivial
  refine leads_get_bind ?_
  split
  · exact hrest _ x
  · exact Leads.bind (leads_edit_through (hdeclare x.vocabulary subtype .entity false))
      fun t y _ _ => hrest t y

end Through

end Compile

/-! ## Definitions -/

namespace Compile

open Context Vocabulary

variable {α : Type}

/-- A change of a context that changes the vocabulary as declarations do. -/
def Evolving (change : Compile α) : Prop :=
  change.KeepsThrough Evolves

/-- An edit that evolves the vocabulary does so as a change of a context. -/
lemma evolving_edit {edit : Vocabulary.Edit α}
    (h : ∀ v, edit.Leads Evolves v fun _ _ => True) : Evolving (Compile.edit edit) :=
  fun x => leads_edit_through (h x.vocabulary)

/-- A value evolves nothing. -/
lemma evolving_pure (a : α) : Evolving (pure a : Compile α) :=
  fun _ => leads_pure (.refl _) trivial

/-- What evolves the vocabulary may be followed by what does. -/
lemma Evolving.bind {β : Type} {change : Compile α} {next : α → Compile β} (h : Evolving change)
    (hnext : ∀ a, Evolving (next a)) : Evolving (change >>= next) :=
  fun x => Leads.bind (h x) fun a y _ _ => hnext a y

/-- A function of the value evolves the vocabulary as the change does. -/
lemma Evolving.map {β : Type} {change : Compile α} (h : Evolving change) (f : α → β) :
    Evolving (f <$> change) :=
  fun x => Leads.map (h x)

/-- Looking at the context first evolves nothing. -/
lemma evolving_get_bind {next : Context → Compile α} (h : ∀ x, Evolving (next x)) :
    Evolving (get >>= next) :=
  fun x => leads_get_bind (h x x)

/-- Changes of mentions and bindings leave the vocabulary alone. -/
lemma evolving_modify {change : Context → Context}
    (h : ∀ x, (change x).vocabulary = x.vocabulary) : Evolving (modify change : Compile PUnit) :=
  fun x => leads_modify (through_of_eq Evolves.refl (h x)) trivial

/-! ### Fact types -/

/-- A context over a vocabulary to which a fact type with some roles has been added keeps being
one. -/
def Completing (v : Vocabulary) (x y : Context) : Prop :=
  (∃ players, x.vocabulary = v.withFactType players) →
    ∃ players, y.vocabulary = v.withFactType players

instance (v : Vocabulary) : Trans (Completing v) (Completing v) (Completing v) :=
  ⟨fun h h' hx => h' (h hx)⟩

/-- A role for a mention is another role of the fact type. -/
lemma leads_makeRole_completing (v : Vocabulary) (m : MentionId) (x : Context) :
    (makeRole ⟨v.factTypes.size⟩ m).Leads (Completing v) x fun _ _ => True := by
  refine Leads.bind (R := Completing v) (leads_get_bind (leads_ofExcept id fun _ _ => trivial))
    fun player y _ (_ : True) => leads_get_bind ?_
  generalize (y.mention m).declaredName? = name
  have hrole : (edit (addRole ⟨v.factTypes.size⟩ player name)).Leads (Completing v) y
      fun _ _ => True := by
    refine Leads.within (S := fun u w => w = u.pushRole ⟨v.factTypes.size⟩ player name)
      (leads_extend rfl trivial) ?_ fun _ _ _ h => h
    rintro _ rfl ⟨players, hplayers⟩
    refine ⟨players ++ [(player, name)], ?_⟩
    dsimp only
    rw [hplayers, withFactType, withFactType, List.foldl_append]
    rfl
  exact Leads.bind hrole fun _ _ _ _ => leads_modify id trivial

/-- A new fact type is one change, however many roles it has come to have. -/
lemma evolving_makeFactType (c : Clause) : Evolving (makeFactType c) := by
  intro x
  have hstep : ∀ {y : Context}, (∃ players, y.vocabulary = x.vocabulary.withFactType players) →
      Through Evolves x y := by
    rintro y ⟨players, hplayers⟩
    unfold Through
    rw [hplayers]
    exact (Change.factType players).evolves
  refine ends_bind.2 (ends_within.2 (ends_extend.2 (ends_bind.2 ?_)))
  refine Ends.imp (Leads.forM (R := Completing x.vocabulary) id fun m _ y _ =>
    (leads_makeRole_completing x.vocabulary m y).imp fun _ _ _ _ => id) (fun _ y hy => ?_)
      fun y hy => hstep (hy ⟨[], rfl⟩)
  exact ⟨hstep (hy.1 ⟨[], rfl⟩), trivial⟩

/-- Defining a fact type changes the vocabulary as declarations do. -/
lemma defines_evolving : Defines Evolving :=
  { embeds_through Evolves.refl evolves_addRoleSequence evolves_addPresenceConstraint
      evolves_restrictPresenceConstraint evolves_addRingConstraint,
    states_through Evolves.refl evolves_addRoleSequence evolves_comparisonFactType
      evolving_makeFactType evolves_addReading evolves_nameRole with }

/-! ### Clauses -/

/-- Entering clauses evolves the vocabulary. -/
lemma evolving_enter (clauses : List Script.Clause) : Evolving (enter clauses) :=
  leads_enter_through Evolves.refl (fun v => evolves_addForwardEntityType v) clauses

/-- Resolving clauses evolves the vocabulary. -/
lemma evolving_resolveAll (contraction : Bool) (previous : Option Clause) (cs : List Clause) :
    Evolving (resolveAll contraction previous cs) :=
  leads_resolveAll_through Evolves.refl (fun v => evolves_comparisonFactType v) contraction previous
    cs

/-- Building a join graph evolves the vocabulary. -/
lemma evolving_buildQuery (clauses : List Clause) (projected : List MentionId) :
    Evolving (buildQuery clauses projected) :=
  leads_buildQuery_through Evolves.refl (fun v => evolves_linkFactType v) clauses projected

/-! ## Declarations -/

/-- Declaring a fact type evolves the vocabulary. -/
lemma evolving_declareFactType (clauses : List Script.Clause) :
    Evolving (declareFactType clauses) :=
  (evolving_enter clauses).bind fun cs => (defines_evolving.defineFactType cs).bind fun _ =>
    evolving_get_bind fun _ => evolving_pure _

/-- Declaring a derived fact type evolves the vocabulary. -/
lemma evolving_declareDerived (contraction : Bool) (split : Nat) (clauses : List Script.Clause) :
    Evolving (declareDerived contraction split clauses) := by
  refine (evolving_enter clauses).bind fun cs =>
    (defines_evolving.defineFactType _).bind fun r => ?_
  refine (evolving_resolveAll contraction none _).bind fun body => ?_
  refine (evolving_modify vocabulary_mergeLoose).bind fun _ => ?_
  refine (evolving_buildQuery body _).bind fun g => evolving_get_bind fun x => ?_
  refine (evolving_edit fun v => evolves_addQuery v g).bind fun q => ?_
  exact (evolving_edit fun v => evolves_setDerivation v r.1 q).bind fun _ => evolving_pure _

/-- Declaring a query evolves the vocabulary. -/
lemma evolving_declareQuery (contraction : Bool) (clauses : List Script.Clause) :
    Evolving (declareQuery contraction clauses) := by
  refine (evolving_enter clauses).bind fun cs => ?_
  refine (evolving_resolveAll contraction none cs).bind fun cs => ?_
  refine (evolving_modify vocabulary_mergeLoose).bind fun _ => ?_
  refine (evolving_buildQuery cs _).bind fun g => evolving_get_bind fun x => ?_
  exact (evolving_edit fun v => evolves_addQuery v g).bind fun _ => evolving_pure _

variable {x : Context}

/-- A type becomes a kind of types that exist. -/
lemma evolves_declareSupertypes (h : x.Valid) {subtype : ObjectTypeId}
    (hsub : subtype ∈ x.vocabulary.objectTypeIds) (names : List String) :
    (declareSupertypes subtype names).Leads (Through Evolves) x fun _ _ => True := by
  induction names generalizing x with
  | nil => exact leads_pure (.refl _) trivial
  | cons name names ih =>
    have hplayer := (leads_resolvePlayer_through Evolves.refl
      (fun v => evolves_addForwardEntityType v) name x).and
        (Ends.imp (leads_resolvePlayer h name) (fun _ _ hy => hy) fun _ _ => trivial)
    refine Leads.bind hplayer fun supertype y _ hy => ?_
    obtain ⟨-, hy, hsuper⟩ := hy
    have hsub' := hy.grows.mem_objectTypeIds hsub
    have hsubtype := (leads_edit_through (evolves_addSubtype hsub' hsuper)).and
      (Ends.imp (leads_edit hy.valid (Vocabulary.leads_addSubtype hy.valid.consistent hsub' hsuper))
        (fun _ _ hz => hz) fun _ _ => trivial)
    refine Leads.bind hsubtype fun f z _ hz => ?_
    obtain ⟨-, hz, -⟩ := hz
    exact Leads.bind (ih hz.valid (hz.grows.mem_objectTypeIds hsub')) fun _ _ _ _ =>
      leads_pure (.refl _) trivial

/-- Declaring a type as a kind of others evolves the vocabulary. -/
lemma evolves_declareSubtype (h : x.Valid) (subtype : String) (supertypes : List String) :
    (declareSubtype subtype supertypes).Leads (Through Evolves) x fun _ _ => True := by
  have hrest : ∀ (t : ObjectTypeId) {y : Context}, x.Extends y → t ∈ y.vocabulary.objectTypeIds →
      (do pure (.subtype t (← declareSupertypes t supertypes)) : Compile Outcome).Leads
        (Through Evolves) y fun _ _ => True := fun t y hy ht =>
    Leads.bind (evolves_declareSupertypes hy.valid ht supertypes) fun _ _ _ _ =>
      leads_pure (.refl _) trivial
  refine leads_get_bind ?_
  split
  · next existing hexisting =>
    exact hrest existing h.extends (h.consistent.mem_of_findObjectType? hexisting)
  · have hedit := (leads_edit_through (evolves_declareObjectType x.vocabulary subtype .entity
      false)).and (Ends.imp (leads_edit h (Vocabulary.leads_declareObjectType h.consistent subtype
        .entity false)) (fun _ _ hy => hy) fun _ _ => trivial)
    exact Leads.bind hedit fun t y _ hy => hrest t hy.2.1 hy.2.2

/-- **What a declaration does to the vocabulary** is a sequence of changes, however it ends. -/
theorem evolves_declaration (h : x.Valid) (contraction : Bool) (d : Script.Declaration) :
    (declaration contraction d).Leads (Through Evolves) x fun _ _ => True := by
  cases d with
  | entityType name =>
    exact (evolving_edit fun v => evolves_declareObjectType v name .entity false).map _ x
  | valueType name =>
    exact (evolving_edit fun v => evolves_declareObjectType v name .value false).map _ x
  | subtype subtype supertypes => exact evolves_declareSubtype h subtype supertypes
  | factType clauses =>
    rw [declaration]
    split
    · exact evolving_declareDerived contraction _ clauses x
    · exact (evolving_declareFactType clauses).map _ x
  | objectification term clauses =>
    exact ((evolving_declareFactType clauses).bind fun r =>
      (evolving_edit fun v => evolves_objectify v term r.1).bind fun _ => evolving_pure _) x
  | query clauses => exact evolving_declareQuery contraction clauses x

end Compile

/-! ## Sessions -/

namespace Session

variable {s : Session}

/-- A declaration changes the vocabulary by a sequence of changes, and not at all if it is
refused. -/
theorem evolves_declare (h : s.vocabulary.Consistent) (d : Script.Declaration) :
    s.vocabulary.Evolves (s.declare d).2.vocabulary := by
  have hleads := (Compile.evolves_declaration (valid_context h) s.settings.contraction d).snd
  unfold declare
  split
  · next outcome x heq =>
    rw [heq] at hleads
    exact hleads
  · exact .refl _

/-- Scripts change the vocabulary by a sequence of changes, however far each can be compiled. -/
lemma evolves_compileAll (h : s.vocabulary.Consistent) (scripts : List String) :
    s.vocabulary.Evolves (s.compileAll scripts).vocabulary :=
  (compileAll_induction
    (P := fun t => t.vocabulary.Consistent ∧ s.vocabulary.Evolves t.vocabulary)
    (fun _ d ht hplain =>
      ⟨consistent_declare ht.1 hplain, Trans.trans ht.2 (evolves_declare ht.1 d)⟩)
    ⟨h, .refl _⟩ scripts).2

/-- Every vocabulary that scripts lead to has evolved from the one without constructs. -/
theorem evolves_compileAll_start (settings : Settings) (scripts : List String) :
    Vocabulary.Evolves { name := settings.vocabulary }
      ((start settings).compileAll scripts).vocabulary :=
  evolves_compileAll (consistent_start settings) scripts

/-- **The hierarchy of types.** Whatever scripts have been compiled, kinds are recorded alike with
the lower type, with the upper type and by one fact type; there is no cycle; the searches upwards
and downwards find exactly the reflexive and transitive closure; and a further subtype is refused
exactly if it would close a cycle.

**Proof sketch.** A vocabulary without constructs has no kinds. The only change that adds one
records it three times, and it is made only after a search that did not lead back; the search is
right because the records agreed before. -/
theorem hierarchical_compileAll_start (settings : Settings) (scripts : List String) :
    ((start settings).compileAll scripts).vocabulary.Hierarchical :=
  ((evolves_compileAll_start settings scripts).preserves (.empty _)
    Vocabulary.inherits_of_change).hierarchical

end Session

end FactModel
