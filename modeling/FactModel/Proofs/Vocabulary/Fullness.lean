import FactModel.Proofs.Session.Growth
set_option autoImplicit false

/-!
# Full readings

A reading is full if it lists every role of its fact type once. The first reading of a fact type is
full, and every place of a role sequence has a placeholder, because this holds of every reading when
it is added and because fact types keep their roles.

## Main definitions

* `FactModel.Vocabulary.IsFull` — a reading that lists every role of its fact type once.
* `FactModel.Vocabulary.IsWhole` — a reading with all its placeholders, and full if it is the first.
* `FactModel.Vocabulary.AllWhole` — a vocabulary with such readings only, one for each fact type.
* `FactModel.Vocabulary.AddsWhole` — what is added to a vocabulary are such readings and fact types
  with readings.

## Main results

* `FactModel.Vocabulary.AllWhole.addsWhole` — adding such readings keeps that there are no others.
* `FactModel.Vocabulary.addsWhole_pushReading`, `FactModel.Vocabulary.addsWhole_addSubtype` and its
  companions — the edits that add such readings only.
-/

namespace FactModel.Vocabulary

open Attempt

/-- A reading lists every role of its fact type, and each of them once. -/
def IsFull (v : Vocabulary) (r : ReadingId) : Prop :=
  ((v.readingRefs r).map (·.role)).Perm (v.factType (v.reading r).factType).roles

/-- A reading has a placeholder for every place of its role sequence, as far as places can be
numbered, and if it is the first one of its fact type it is full. -/
structure IsWhole (v : Vocabulary) (r : ReadingId) : Prop where
  roleSequence_mem : (v.reading r).roleSequence ∈ v.roleSequenceIds
  factType_mem : (v.reading r).factType ∈ v.factTypeIds
  place_mem : ∀ k < (v.readingRefs r).length, k < Template.placeLimit →
    k ∈ Template.places (v.reading r).tokens
  isFull : (v.reading r).ordinal = 0 → v.IsFull r

/-- All readings are whole, and every fact type has a reading. -/
structure AllWhole (v : Vocabulary) : Prop where
  isWhole : ∀ r ∈ v.readingIds, v.IsWhole r
  readings_ne_nil : ∀ f ∈ v.factTypeIds, (v.factType f).readings ≠ []

/-- What is retained is added to by whole readings, and by fact types that have a reading. -/
structure AddsWhole (v w : Vocabulary) : Prop extends v.Retains w where
  isWhole : ∀ r ∈ w.readingIds, r ∈ v.readingIds ∨ w.IsWhole r
  readings_ne_nil : ∀ f ∈ w.factTypeIds, f ∈ v.factTypeIds ∨ (w.factType f).readings ≠ []

variable {u v w : Vocabulary}

/-- A full reading refers to as many roles as its fact type has, and one that refers to as many
different roles of it is full. -/
lemma WellFormed.isFull_iff (hv : v.WellFormed) {r : ReadingId} (hr : r ∈ v.readingIds) :
    v.IsFull r ↔ (v.readingRefs r).length = (v.factType (v.reading r).factType).arity := by
  constructor
  · intro h
    rw [FactType.arity, ← h.length_eq, List.length_map]
  · intro h
    refine (List.subperm_of_subset (hv.refs_nodup r hr) fun role hrole => ?_).perm_of_length_le ?_
    · obtain ⟨ref, href, rfl⟩ := List.mem_map.1 hrole
      exact hv.ref_mem_roles hr href
    · rw [List.length_map, h, FactType.arity]

/-- An empty vocabulary has only whole readings. -/
lemma allWhole_empty (name : String) : AllWhole { name } :=
  ⟨by simp [readingIds], by simp [factTypeIds]⟩

/-! ## What is added -/

/-- Readings stay whole: neither they nor the roles of their fact types change. -/
lemma IsWhole.retains {r : ReadingId} (h : v.IsWhole r) (hr : r ∈ v.readingIds)
    (hvw : v.Retains w) :
    w.IsWhole r := by
  have hreading := hvw.reading_eq hr
  have hrefs : w.readingRefs r = v.readingRefs r := by
    rw [readingRefs, hreading, hvw.roleSequence_eq h.roleSequence_mem, readingRefs]
  refine ⟨hreading ▸ hvw.mem_roleSequenceIds h.roleSequence_mem,
    hreading ▸ hvw.mem_factTypeIds h.factType_mem, hrefs ▸ hreading ▸ h.place_mem, fun hfirst => ?_⟩
  rw [IsFull, hrefs, hreading, hvw.roles_eq _ h.factType_mem]
  exact h.isFull (hreading ▸ hfirst)

/-- A fact type that has readings keeps having some. -/
lemma Grows.readings_ne_nil (h : v.Grows w) {f : FactTypeId} (hf : f ∈ v.factTypeIds)
    (hne : (v.factType f).readings ≠ []) : (w.factType f).readings ≠ [] := fun hnil =>
  hne (List.prefix_nil.1 (hnil ▸ (h.factType hf).readings))

namespace AddsWhole

/-- Adding nothing adds whole readings only. -/
lemma refl (v : Vocabulary) : v.AddsWhole v :=
  ⟨.refl v, fun _ => .inl, fun _ => .inl⟩

/-- Two additions of whole readings make one. -/
lemma trans (h : u.AddsWhole v) (h' : v.AddsWhole w) : u.AddsWhole w where
  toRetains := h.toRetains.trans h'.toRetains
  isWhole r hr := by
    rcases h'.isWhole r hr with hold | hnew
    · exact (h.isWhole r hold).imp_right fun hwhole => hwhole.retains hold h'.toRetains
    · exact .inr hnew
  readings_ne_nil f hf := by
    rcases h'.readings_ne_nil f hf with hold | hnew
    · exact (h.readings_ne_nil f hold).imp_right (h'.toGrows.readings_ne_nil hold)
    · exact .inr hnew

instance : Trans AddsWhole AddsWhole AddsWhole :=
  ⟨trans⟩

/-- What adds neither a reading nor a fact type adds whole readings only. -/
lemma of_eq (h : v.Retains w) (hreadings : w.readings = v.readings)
    (hfactTypes : w.factTypes.size = v.factTypes.size) : v.AddsWhole w := by
  refine ⟨h, fun r hr => .inl ?_, fun f hf => .inl ?_⟩
  · rwa [mem_readingIds, hreadings, ← mem_readingIds] at hr
  · rwa [mem_factTypeIds, hfactTypes, ← mem_factTypeIds] at hf

end AddsWhole

/-- Adding whole readings keeps that there are no others. -/
lemma AllWhole.addsWhole (hv : v.AllWhole) (h : v.AddsWhole w) : w.AllWhole where
  isWhole r hr :=
    (h.isWhole r hr).elim (fun hold => (hv.isWhole r hold).retains hold h.toRetains) id
  readings_ne_nil f hf := (h.readings_ne_nil f hf).elim
    (fun hold => h.toGrows.readings_ne_nil hold (hv.readings_ne_nil f hold)) id

/-! ## Readings -/

/-- A reading of a fact type that has readings, or one that lists all its roles. -/
lemma addsWhole_pushReading {f : FactTypeId} {s : RoleSequenceId} {text : String}
    {isNegative : Bool}
    (hf : f ∈ v.factTypeIds) (hs : s ∈ v.roleSequenceIds)
    (hplaces : ∀ k < (v.roleSequence s).refs.length, k < Template.placeLimit →
      k ∈ Template.places (Template.tokens text))
    (hfull : (v.factType f).readings = [] →
      ((v.roleSequence s).refs.map (·.role)).Perm (v.factType f).roles) :
    v.AddsWhole (v.pushReading f s text isNegative) := by
  have hretains : v.Retains (v.pushReading f s text isNegative) :=
    ⟨v.grows_pushReading f s text isNegative, fun g _ =>
      factType_pushReading_apply FactType.roles (fun _ _ => rfl) f s text isNegative g⟩
  refine ⟨hretains, fun r hr => ?_, fun g hg => .inl ?_⟩
  · rcases mem_readingIds_pushReading.1 hr with rfl | hold
    · have hreading : (v.pushReading f s text isNegative).reading ⟨v.readings.size⟩ = _ :=
        (reading_pushReading ..).trans (if_pos rfl)
      have hrefs : (v.pushReading f s text isNegative).readingRefs ⟨v.readings.size⟩ =
          (v.roleSequence s).refs := by
        rw [readingRefs, hreading]
        rfl
      refine .inr ⟨?_, ?_, ?_, fun hfirst => ?_⟩
      · rw [hreading]
        exact hs
      · rw [hreading]
        exact hretains.mem_factTypeIds hf
      · rw [hrefs, hreading]
        exact hplaces
      · rw [hreading] at hfirst
        rw [IsFull, hrefs, hreading, hretains.roles_eq f hf]
        exact hfull (List.length_eq_zero_iff.1 hfirst)
    · exact .inl hold
  · rwa [factTypeIds_pushReading] at hg

/-- Readings of a fact type that lists all its roles in the same role sequence. -/
lemma addsWhole_withReadings {f : FactTypeId} {s : RoleSequenceId} {texts : List String}
    (hf : f ∈ v.factTypeIds) (hs : s ∈ v.roleSequenceIds)
    (hplaces : ∀ text ∈ texts, ∀ k < (v.roleSequence s).refs.length,
      k ∈ Template.places (Template.tokens text))
    (hfull : ((v.roleSequence s).refs.map (·.role)).Perm (v.factType f).roles) :
    v.AddsWhole (v.withReadings f s texts) := by
  induction texts generalizing v with
  | nil => exact .refl v
  | cons text texts ih =>
    obtain ⟨hfirst, hrest⟩ := List.forall_mem_cons.1 hplaces
    have hadds : v.AddsWhole (v.pushReading f s text false) :=
      addsWhole_pushReading hf hs (fun k hk _ => hfirst k hk) fun _ => hfull
    refine hadds.trans (ih (hadds.mem_factTypeIds hf) hs hrest ?_)
    rw [hadds.roles_eq f hf]
    exact hfull

/-! ## Fact types of two roles -/

/-- A fact type of two roles comes with a reading that lists both, if its text has placeholders for
them. -/
lemma addsWhole_withBinary (kind : FactTypeKind) (first second : ObjectTypeId) {text : String}
    (hplaces : ∀ k < 2, k ∈ Template.places (Template.tokens text)) :
    v.AddsWhole (v.withBinary kind first second text) := by
  obtain ⟨hmem, -, hne⟩ :=
    factType_indexed_withBinary v kind first second text v.links v.comparisons
  have hroles : ((v.withBinary kind first second text).factType ⟨v.factTypes.size⟩).roles =
      [⟨v.roles.size⟩, ⟨v.roles.size + 1⟩] := by
    rw [factType_withBinary, if_pos rfl]
  refine ⟨retains_withBinary kind first second text v.links v.comparisons, fun r hr => ?_,
    fun f hf => ?_⟩
  · rcases (mem_readingIds_withBinary ..).1 hr with rfl | hold
    · refine .inr ⟨?_, ?_, ?_, fun _ => ?_⟩
      · rw [reading_withBinary]
        exact (mem_roleSequenceIds_withBinary ..).2 (.inl rfl)
      · rw [reading_withBinary]
        exact hmem
      · rw [readingRefs_withBinary, reading_withBinary]
        exact fun k hk _ => hplaces k hk
      · rw [IsFull, readingRefs_withBinary, reading_withBinary, hroles]
        exact .refl _
    · exact .inl hold
  · rcases (mem_factTypeIds_withBinary v kind first second text f).1 hf with rfl | hold
    · exact .inr hne
    · exact .inl hold

/-- Recording where links and comparisons are found adds nothing. -/
lemma addsWhole_indexed (links : List ((ObjectTypeId × RoleId) × FactTypeId))
    (comparisons : List ((String × ObjectTypeId × ObjectTypeId) × FactTypeId)) :
    v.AddsWhole { v with links, comparisons } :=
  .of_eq (.of_factTypes_eq { Grows.refl v with } rfl) rfl rfl

/-- A comparison has a placeholder on either side of its operator. -/
lemma mem_places_comparison (operator : String) : ∀ k < 2,
    k ∈ Template.places (Template.tokens ("\x7b0\x7d " ++ operator ++ " \x7b1\x7d")) := by
  have htokens : Template.tokens ("\x7b0\x7d " ++ operator ++ " \x7b1\x7d") =
      .place 0 :: Template.tokens operator ++ [.place 1] := by
    have htext : "\x7b0\x7d " ++ operator ++ " \x7b1\x7d" =
        "\x7b0\x7d" ++ " " ++ operator ++ " " ++ "\x7b1\x7d" := by
      refine String.toList_inj.1 ?_
      simp
    rw [htext, Template.tokens_append, Template.tokens_append]
    rfl
  intro k hk
  rw [htokens, Template.places, List.filterMap_append, List.mem_append]
  rcases Nat.lt_succ_iff_lt_or_eq.1 hk with hk | rfl
  · rw [Nat.lt_one_iff.1 hk]
    exact .inl List.mem_cons_self
  · exact .inr (List.mem_singleton_self 1)

/-- So do further readings with both placeholders. -/
lemma addsWhole_withBinary_withReadings (kind : FactTypeKind) (first second : ObjectTypeId)
    {text : String} {texts : List String}
    (hplaces : ∀ t ∈ text :: texts, ∀ k < 2, k ∈ Template.places (Template.tokens t)) :
    v.AddsWhole ((v.withBinary kind first second text).withReadings ⟨v.factTypes.size⟩
      ⟨v.roleSequences.size⟩ texts) := by
  obtain ⟨hfirst, hrest⟩ := List.forall_mem_cons.1 hplaces
  have hbinary := addsWhole_withBinary (v := v) kind first second hfirst
  have hsequence : (v.withBinary kind first second text).roleSequence ⟨v.roleSequences.size⟩ = _ :=
    (roleSequence_pushRoleSequence ..).trans (if_pos rfl)
  refine hbinary.trans (addsWhole_withReadings ((mem_factTypeIds_withBinary ..).2 (.inl rfl))
    (mem_roleSequenceIds_pushRoleSequence.2 (.inl rfl)) ?_ ?_)
  · rw [hsequence]
    exact hrest
  · rw [hsequence, factType_withBinary, if_pos rfl]
    exact .refl _

/-- The fact type with which one type is made a kind of another has readings that list both
roles. -/
lemma addsWhole_withSubtype (a b : ObjectTypeId) : v.AddsWhole (v.withSubtype a b) := by
  have hplaces : ∀ text ∈ inheritanceReadings, ∀ k < 2,
      k ∈ Template.places (Template.tokens text) := by
    decide +kernel
  have hlinked : v.AddsWhole (v.linkSubtype a b) :=
    .of_eq (.of_factTypes_eq (v.grows_linkSubtype a b) rfl) rfl rfl
  rw [withSubtype_eq]
  exact hlinked.trans (addsWhole_withBinary_withReadings _ a b hplaces)

/-! ## Edits -/

section Edits

/-- What adds neither a reading nor a fact type. -/
def SparesReadings (v w : Vocabulary) : Prop :=
  w.readings = v.readings ∧ w.factTypes.size = v.factTypes.size

instance : Trans SparesReadings SparesReadings SparesReadings :=
  ⟨fun h h' => ⟨h'.1.trans h.1, h'.2.trans h.2⟩⟩

variable (v)

/-- An edit adds whole readings only if it adds neither a reading nor a fact type. -/
lemma leads_addsWhole {α : Type} {edit : Edit α} (h : edit.Leads Evolves v fun _ _ => True)
    (hspares : edit.Leads SparesReadings v fun _ _ => True) :
    edit.Leads AddsWhole v fun _ _ => True :=
  (h.both hspares).weaken fun _ ⟨hevolves, hreadings, hfactTypes⟩ =>
    .of_eq hevolves.retains hreadings hfactTypes

/-- Declaring an object type leaves readings and fact types alone. -/
lemma sparesReadings_declareObjectType (name : String) (kind : ObjectTypeKind) (isForward : Bool) :
    (declareObjectType name kind isForward).Leads SparesReadings v fun _ _ => True := by
  refine leads_get_bind ?_
  split
  · exact leads_extend ⟨rfl, rfl⟩ trivial
  · split
    · exact leads_set_bind ⟨rfl, rfl⟩ (leads_pure ⟨rfl, rfl⟩ trivial)
    · exact leads_throw ⟨rfl, rfl⟩

/-- Declaring an object type adds no reading, so none that is not whole. -/
lemma addsWhole_declareObjectType (name : String) (kind : ObjectTypeKind) (isForward : Bool) :
    (declareObjectType name kind isForward).Leads AddsWhole v fun _ _ => True :=
  leads_addsWhole v (evolves_declareObjectType v name kind isForward)
    (sparesReadings_declareObjectType v name kind isForward)

/-- Mentioning a type before it is declared leaves readings and fact types alone. -/
lemma sparesReadings_addForwardEntityType (name : String) :
    (addForwardEntityType name).Leads SparesReadings v fun _ _ => True := by
  refine leads_get_bind ?_
  split
  · exact leads_pure ⟨rfl, rfl⟩ trivial
  · exact sparesReadings_declareObjectType v name .entity true

/-- Mentioning a type before it is declared adds no reading, so none that is not whole. -/
lemma addsWhole_addForwardEntityType (name : String) :
    (addForwardEntityType name).Leads AddsWhole v fun _ _ => True :=
  leads_addsWhole v (evolves_addForwardEntityType v name)
    (sparesReadings_addForwardEntityType v name)

/-- Making one type a kind of another relates the vocabulary to itself, or to that with the new
inheritance. -/
lemma leads_addSubtype_of_withSubtype {R : Vocabulary → Vocabulary → Prop} {a b : ObjectTypeId}
    (hsame : R v v) (hadded : R v (v.withSubtype a b)) :
    (addSubtype a b).Leads R v fun _ _ => True := by
  by_cases hnone : v.typeInheritance? a b = none
  · by_cases hcircular : a = b ∨ v.isSubtypeOf b a
    · unfold addSubtype
      refine leads_get_bind ?_
      rw [hnone]
      dsimp only
      rw [if_pos hcircular]
      exact leads_throw_bind hsame
    · exact (ends_of_perform (perform_addSubtype hnone hcircular)).2 ⟨hadded, trivial⟩
  · obtain ⟨f, hf⟩ := Option.ne_none_iff_exists'.1 hnone
    unfold addSubtype
    refine leads_get_bind ?_
    rw [hf]
    exact leads_pure hsame trivial

/-- The readings about kinds list both roles. -/
lemma addsWhole_addSubtype (a b : ObjectTypeId) :
    (addSubtype a b).Leads AddsWhole v fun _ _ => True :=
  leads_addSubtype_of_withSubtype v (.refl v) (addsWhole_withSubtype a b)

/-- Objectifying a fact type leaves readings and fact types alone. -/
lemma sparesReadings_objectify (name : String) (f : FactTypeId) :
    (objectify name f).Leads SparesReadings v fun _ _ => True := by
  have hobjectifying : (objectifyingType name f).Leads SparesReadings v fun _ _ => True := by
    refine leads_get_bind ?_
    split
    · exact sparesReadings_declareObjectType v name .entity false
    · dsimp only
      split
      · exact leads_pure ⟨rfl, rfl⟩ trivial
      · exact leads_throw ⟨rfl, rfl⟩
  have hset : ∀ e (w : Vocabulary), (do set (w.linkObjectification e f); pure e :
      Edit ObjectTypeId).Leads SparesReadings w fun _ _ => True := fun e w =>
    leads_set_bind ⟨rfl, Array.size_modify ..⟩ (leads_pure ⟨rfl, rfl⟩ trivial)
  refine Leads.bind hobjectifying fun e w _ _ => leads_get_bind ?_
  dsimp only
  split
  · split
    · exact leads_throw_bind ⟨rfl, rfl⟩
    · exact hset e w
  · exact hset e w

/-- Objectifying a fact type adds no reading, so none that is not whole. -/
lemma addsWhole_objectify (name : String) (f : FactTypeId) :
    (objectify name f).Leads AddsWhole v fun _ _ => True :=
  leads_addsWhole v (evolves_objectify v name f) (sparesReadings_objectify v name f)

/-- A role sequence is no reading. -/
lemma addsWhole_addRoleSequence (refs : List RoleRef) :
    (addRoleSequence refs).Leads AddsWhole v fun _ _ => True :=
  leads_addsWhole v (evolves_addRoleSequence v refs) (leads_extend ⟨rfl, rfl⟩ trivial)

/-- Naming a role adds no reading. -/
lemma addsWhole_nameRole (r : RoleId) (name : String) :
    (nameRole r name).Leads AddsWhole v fun _ _ => True := by
  refine leads_addsWhole v (evolves_nameRole v r name) (leads_get_bind ?_)
  split
  · exact leads_set ⟨rfl, rfl⟩ trivial
  · split
    · exact leads_pure ⟨rfl, rfl⟩ trivial
    · exact leads_throw ⟨rfl, rfl⟩

/-- The reading of a link lists both its roles. -/
lemma addsWhole_linkFactType (t : ObjectTypeId) (r : RoleId) :
    (linkFactType t r).Leads AddsWhole v fun _ _ => True := by
  refine leads_get_bind ?_
  split
  · exact leads_pure (.refl v) trivial
  · refine ends_bind.2 ((ends_of_perform (perform_addBinary ..)).2 ?_)
    refine ends_bind.2 (ends_modify.2 ((ends_pure _).2 ⟨?_, trivial⟩))
    exact (addsWhole_withBinary _ _ _ (by decide +kernel)).trans (addsWhole_indexed ..)

/-- The reading of a comparison lists both its roles. -/
lemma addsWhole_comparisonFactType (operator : String) (left right : ObjectTypeId) :
    (comparisonFactType operator left right).Leads AddsWhole v fun _ _ => True := by
  refine leads_get_bind ?_
  split
  · exact leads_pure (.refl v) trivial
  · refine ends_bind.2 ((ends_of_perform (perform_addBinary ..)).2 ?_)
    refine ends_bind.2 (ends_modify.2 ((ends_pure _).2 ⟨?_, trivial⟩))
    exact (addsWhole_withBinary _ _ _ (mem_places_comparison operator)).trans (addsWhole_indexed ..)

/-- Restricting a presence constraint adds no reading. -/
lemma addsWhole_restrictPresenceConstraint (c : PresenceConstraintId) (min max : Option Nat) :
    (restrictPresenceConstraint c min max).Leads AddsWhole v fun _ _ => True := by
  refine leads_addsWhole v (evolves_restrictPresenceConstraint v c min max) (leads_get_bind ?_)
  dsimp only
  split
  · exact leads_throw_bind ⟨rfl, rfl⟩
  split
  · exact leads_throw_bind ⟨rfl, rfl⟩
  · exact leads_set ⟨rfl, rfl⟩ trivial

/-- A presence constraint adds no reading. -/
lemma addsWhole_addPresenceConstraint (s : RoleSequenceId) (min max : Option Nat)
    (enforcement : Option Enforcement) :
    (addPresenceConstraint s min max enforcement).Leads AddsWhole v fun _ _ => True :=
  leads_addsWhole v (evolves_addPresenceConstraint v s min max enforcement)
    (leads_extend ⟨rfl, rfl⟩ trivial)

/-- A ring constraint adds no reading. -/
lemma addsWhole_addRingConstraint (role otherRole : RoleId) (kinds : List RingKind) :
    (addRingConstraint role otherRole kinds).Leads AddsWhole v fun _ _ => True :=
  leads_addsWhole v (evolves_addRingConstraint v role otherRole kinds)
    (leads_extend ⟨rfl, rfl⟩ trivial)

/-- Storing a query leaves readings and fact types alone. -/
lemma sparesReadings_addQuery (query : JoinGraph) :
    (addQuery query).Leads SparesReadings v fun _ _ => True :=
  leads_extend ⟨rfl, rfl⟩ trivial

/-- Storing a query adds no reading, so none that is not whole. -/
lemma addsWhole_addQuery (query : JoinGraph) : (addQuery query).Leads AddsWhole v fun _ _ => True :=
  leads_addsWhole v (evolves_addQuery v query) (sparesReadings_addQuery v query)

/-- Making a query a derivation leaves readings alone and adds no fact type. -/
lemma sparesReadings_setDerivation (f : FactTypeId) (query : QueryId) :
    (setDerivation f query).Leads SparesReadings v fun _ _ => True :=
  leads_modify ⟨rfl, Array.size_modify ..⟩ trivial

/-- Making a query a derivation adds no reading, so none that is not whole. -/
lemma addsWhole_setDerivation (f : FactTypeId) (query : QueryId) :
    (setDerivation f query).Leads AddsWhole v fun _ _ => True :=
  leads_addsWhole v (evolves_setDerivation v f query) (sparesReadings_setDerivation v f query)

end Edits

end FactModel.Vocabulary
