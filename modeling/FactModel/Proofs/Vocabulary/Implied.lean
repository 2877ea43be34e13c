import FactModel.Proofs.Attempt
import FactModel.Proofs.Vocabulary.Extends
import FactModel.Proofs.Vocabulary.Template
set_option autoImplicit false

/-!
# Links and comparisons

The fact types that clauses imply have two roles and one reading, and they are indexed by what they
relate. While one is being added the index lacks it, so the whole addition is one step here.

## Main definitions

* `FactModel.Vocabulary.withBinary` — a vocabulary with a fact type of two roles and one reading.

## Main results

* `FactModel.Vocabulary.leads_linkFactType` — the link of a type and a role.
* `FactModel.Vocabulary.leads_comparisonFactType` — the comparison of an operator and two players.
-/

namespace FactModel.Vocabulary

open Attempt

variable {v : Vocabulary}

/-! ## A fact type of two roles -/

/-- The vocabulary with a fact type of two roles with one reading. -/
def withBinary (v : Vocabulary) (kind : FactTypeKind) (first second : ObjectTypeId)
    (text : String) : Vocabulary :=
  let f : FactTypeId := ⟨v.factTypes.size⟩
  ((((v.pushFactType kind).pushRole f first none).pushRole f second none).pushRoleSequence
    [{ role := ⟨v.roles.size⟩ }, { role := ⟨v.roles.size + 1⟩ }]).pushReading f
      ⟨v.roleSequences.size⟩ text false

/-- Adding a fact type of two roles returns it and leaves the vocabulary with it. -/
lemma perform_addBinary (kind : FactTypeKind) (first second : ObjectTypeId) (text : String) :
    (addBinary kind first second text).perform v =
      (.ok ⟨v.factTypes.size⟩, v.withBinary kind first second text) := by
  have hsize : (((v.pushFactType kind).pushRole ⟨v.factTypes.size⟩ first none)).roles.size =
      v.roles.size + 1 := by simp [pushRole, modifyFactType, modifyObjectType, pushFactType]
  have hroles : (v.pushFactType kind).roles.size = v.roles.size := rfl
  simp only [addBinary, newFactType, addRole, addRoleSequence, appendReading, perform_bind,
    perform_extend, perform_pure, withBinary, hsize, hroles]
  rfl

/-- The fact type has the given kind, two new roles and a new reading. -/
lemma factType_withBinary (kind : FactTypeKind) (first second : ObjectTypeId) (text : String)
    (f : FactTypeId) :
    (v.withBinary kind first second text).factType f =
      if f = ⟨v.factTypes.size⟩ then
        { id := ⟨v.factTypes.size⟩, kind, roles := [⟨v.roles.size⟩, ⟨v.roles.size + 1⟩]
          readings := [⟨v.readings.size⟩] }
      else v.factType f := by
  have hmem : (⟨v.factTypes.size⟩ : FactTypeId) ∈ (v.pushFactType kind).factTypeIds :=
    mem_factTypeIds_pushFactType.2 (.inl rfl)
  have hsequence : ∀ (u : Vocabulary) (refs : List RoleRef) (g : FactTypeId),
      (u.pushRoleSequence refs).factType g = u.factType g := fun _ _ _ => rfl
  have hids : ∀ (u : Vocabulary) (refs : List RoleRef),
      (u.pushRoleSequence refs).factTypeIds = u.factTypeIds := fun _ _ => rfl
  by_cases h : f = ⟨v.factTypes.size⟩
  · subst h
    simp only [withBinary, factType_pushReading, hsequence, hids, factType_pushRole,
      factTypeIds_pushRole, factType_pushFactType, hmem, and_self, if_true]
    simp [pushRole, modifyFactType, modifyObjectType, pushFactType, pushRoleSequence]
  · simp [withBinary, factType_pushReading, hsequence, factType_pushRole, factType_pushFactType,
      h]

/-- It is the only new fact type. -/
lemma mem_factTypeIds_withBinary (v : Vocabulary) (kind : FactTypeKind)
    (first second : ObjectTypeId) (text : String) (f : FactTypeId) :
    f ∈ (v.withBinary kind first second text).factTypeIds ↔
      f = ⟨v.factTypes.size⟩ ∨ f ∈ v.factTypeIds := by
  rw [withBinary, factTypeIds_pushReading, factTypeIds_pushRoleSequence, factTypeIds_pushRole,
    factTypeIds_pushRole, mem_factTypeIds_pushFactType]

/-- A fact type of two roles adds two roles. -/
lemma mem_roleIds_withBinary (v : Vocabulary) (kind : FactTypeKind) (first second : ObjectTypeId)
    (text : String) (r : RoleId) :
    r ∈ (v.withBinary kind first second text).roleIds ↔
      r = ⟨v.roles.size + 1⟩ ∨ r = ⟨v.roles.size⟩ ∨ r ∈ v.roleIds := by
  have hreading : ∀ (u : Vocabulary) f s text isNegative,
      (u.pushReading f s text isNegative).roleIds = u.roleIds := fun _ _ _ _ _ => rfl
  have hsequence : ∀ (u : Vocabulary) refs, (u.pushRoleSequence refs).roleIds = u.roleIds :=
    fun _ _ => rfl
  have hsize : ((v.pushFactType kind).pushRole ⟨v.factTypes.size⟩ first none).roles.size =
      v.roles.size + 1 := by simp [pushRole, modifyFactType, modifyObjectType, pushFactType]
  rw [withBinary, hreading, hsequence, mem_roleIds_pushRole, mem_roleIds_pushRole, hsize]
  rfl

/-- A fact type of two roles adds one role sequence. -/
lemma mem_roleSequenceIds_withBinary (v : Vocabulary) (kind : FactTypeKind)
    (first second : ObjectTypeId) (text : String) (s : RoleSequenceId) :
    s ∈ (v.withBinary kind first second text).roleSequenceIds ↔
      s = ⟨v.roleSequences.size⟩ ∨ s ∈ v.roleSequenceIds := by
  have hreading : ∀ (u : Vocabulary) f s text isNegative,
      (u.pushReading f s text isNegative).roleSequenceIds = u.roleSequenceIds :=
    fun _ _ _ _ _ => rfl
  rw [withBinary, hreading, mem_roleSequenceIds_pushRoleSequence]
  rfl

/-- A fact type of two roles adds one reading. -/
lemma mem_readingIds_withBinary (v : Vocabulary) (kind : FactTypeKind)
    (first second : ObjectTypeId) (text : String) (r : ReadingId) :
    r ∈ (v.withBinary kind first second text).readingIds ↔
      r = ⟨v.readings.size⟩ ∨ r ∈ v.readingIds := by
  rw [withBinary, mem_readingIds_pushReading]
  rfl

/-- The role sequence lists both roles. -/
lemma roleSequence_withBinary (v : Vocabulary) (kind : FactTypeKind)
    (first second : ObjectTypeId) (text : String) :
    (v.withBinary kind first second text).roleSequence ⟨v.roleSequences.size⟩ =
      { id := ⟨v.roleSequences.size⟩
        refs := [{ role := ⟨v.roles.size⟩ }, { role := ⟨v.roles.size + 1⟩ }] } := by
  have hreading : ∀ (u : Vocabulary) f s text isNegative q,
      (u.pushReading f s text isNegative).roleSequence q = u.roleSequence q :=
    fun _ _ _ _ _ _ => rfl
  rw [withBinary, hreading, roleSequence_pushRoleSequence]
  exact if_pos rfl

/-- The reading is the first one of its fact type and has the given text. -/
lemma reading_withBinary (v : Vocabulary) (kind : FactTypeKind) (first second : ObjectTypeId)
    (text : String) :
    (v.withBinary kind first second text).reading ⟨v.readings.size⟩ =
      { id := ⟨v.readings.size⟩, factType := ⟨v.factTypes.size⟩, ordinal := 0
        roleSequence := ⟨v.roleSequences.size⟩, text, isNegative := false
        tokens := Template.tokens text } := by
  have hnone : (((((v.pushFactType kind).pushRole ⟨v.factTypes.size⟩ first none).pushRole
      ⟨v.factTypes.size⟩ second none).pushRoleSequence
        [{ role := ⟨v.roles.size⟩ }, { role := ⟨v.roles.size + 1⟩ }]).factType
          ⟨v.factTypes.size⟩).readings = [] := by
    rw [factType_pushRoleSequence, factType_pushRole_apply FactType.readings fun _ _ => rfl,
      factType_pushRole_apply FactType.readings fun _ _ => rfl, factType_pushFactType, if_pos rfl]
  rw [withBinary, reading_pushReading, hnone]
  exact if_pos rfl

/-- The reading refers to both roles in order. -/
lemma readingRefs_withBinary (v : Vocabulary) (kind : FactTypeKind) (first second : ObjectTypeId)
    (text : String) :
    (v.withBinary kind first second text).readingRefs ⟨v.readings.size⟩ =
      [{ role := ⟨v.roles.size⟩ }, { role := ⟨v.roles.size + 1⟩ }] := by
  rw [readingRefs, reading_withBinary, roleSequence_withBinary]

/-- Its two roles are played by the given types. -/
lemma playerOf_withBinary (v : Vocabulary) (kind : FactTypeKind)
    (first second : ObjectTypeId) (text : String) :
    [⟨v.roles.size⟩, ⟨v.roles.size + 1⟩].map (v.withBinary kind first second text).playerOf =
      [first, second] := by
  have hsize : ((v.pushFactType kind).pushRole ⟨v.factTypes.size⟩ first none).roles.size =
      v.roles.size + 1 := by simp [pushRole, modifyFactType, modifyObjectType, pushFactType]
  have hpushed : ∀ (u : Vocabulary) f s text isNegative refs r,
      ((u.pushRoleSequence refs).pushReading f s text isNegative).role r = u.role r :=
    fun _ _ _ _ _ _ _ => rfl
  have hplayer : ∀ r, (v.withBinary kind first second text).playerOf r =
      (((v.pushFactType kind).pushRole ⟨v.factTypes.size⟩ first none).pushRole
        ⟨v.factTypes.size⟩ second none).playerOf r := fun r => by
    rw [withBinary, playerOf, hpushed, playerOf]
  have hroles : (v.pushFactType kind).roles.size = v.roles.size := rfl
  simp only [List.map_cons, List.map_nil, hplayer]
  simp [playerOf, role_pushRole, hsize, hroles]

/-- A fact type of two roles leaves alone everything of object types but the roles they play. -/
lemma objectType_withBinary_apply {α : Type} (field : ObjectType → α)
    (h : ∀ t playedRoles, field { t with playedRoles } = field t) (v : Vocabulary)
    (kind : FactTypeKind) (first second : ObjectTypeId) (text : String) (t : ObjectTypeId) :
    field ((v.withBinary kind first second text).objectType t) = field (v.objectType t) := by
  have hreading : ∀ (u : Vocabulary) f s text isNegative,
      (u.pushReading f s text isNegative).objectType t = u.objectType t := fun _ _ _ _ _ => rfl
  rw [withBinary, hreading, objectType_pushRoleSequence, objectType_pushRole_apply field h,
    objectType_pushRole_apply field h, objectType_pushFactType]

/-- A fact type of two roles leaves the names of object types as they were. -/
lemma nameOf_withBinary (v : Vocabulary) (kind : FactTypeKind) (first second : ObjectTypeId)
    (text : String) (t : ObjectTypeId) :
    (v.withBinary kind first second text).nameOf t = v.nameOf t :=
  objectType_withBinary_apply ObjectType.name (fun _ _ => rfl) v kind first second text t

/-- A fact type of two roles adds no object type. -/
lemma objectTypeIds_withBinary (v : Vocabulary) (kind : FactTypeKind)
    (first second : ObjectTypeId) (text : String) :
    (v.withBinary kind first second text).objectTypeIds = v.objectTypeIds := by
  have hreading : ∀ (u : Vocabulary) f s text isNegative,
      (u.pushReading f s text isNegative).objectTypeIds = u.objectTypeIds := fun _ _ _ _ _ => rfl
  rw [withBinary, hreading, objectTypeIds_pushRoleSequence, objectTypeIds_pushRole,
    objectTypeIds_pushRole, objectTypeIds_pushFactType]

/-- A vocabulary grows by a fact type of two roles. -/
lemma grows_withBinary (v : Vocabulary) (kind : FactTypeKind) (first second : ObjectTypeId)
    (text : String) : v.Grows (v.withBinary kind first second text) :=
  ((((v.grows_pushFactType kind).trans (grows_pushRole ..)).trans (grows_pushRole ..)).trans
    (grows_pushRoleSequence ..)).trans (grows_pushReading ..)

/-- A fact type of two roles whose text has the two placeholders in order keeps a vocabulary well
formed. -/
lemma wellFormed_withBinary (hv : v.WellFormed) (kind : FactTypeKind) {first second : ObjectTypeId}
    {text : String} (hfirst : first ∈ v.objectTypeIds) (hsecond : second ∈ v.objectTypeIds)
    (htext : Template.places (Template.tokens text) = [0, 1]) :
    (v.withBinary kind first second text).WellFormed := by
  let f : FactTypeId := ⟨v.factTypes.size⟩
  let v₁ := v.pushFactType kind
  let v₂ := v₁.pushRole f first none
  let v₃ := v₂.pushRole f second none
  let v₄ := v₃.pushRoleSequence [{ role := ⟨v.roles.size⟩ }, { role := ⟨v.roles.size + 1⟩ }]
  have hsize : v₂.roles.size = v.roles.size + 1 := by
    simp [v₂, v₁, pushRole, modifyFactType, modifyObjectType, pushFactType]
  have hf₁ : f ∈ v₁.factTypeIds := mem_factTypeIds_pushFactType.2 (.inl rfl)
  have hf₂ : f ∈ v₂.factTypeIds := by rwa [factTypeIds_pushRole]
  have hf₃ : f ∈ v₃.factTypeIds := by rwa [factTypeIds_pushRole]
  have h₁ : v₁.WellFormed := wellFormed_pushFactType hv kind
  have h₂ : v₂.WellFormed := wellFormed_pushRole h₁ hf₁ hfirst none
  have h₃ : v₃.WellFormed :=
    wellFormed_pushRole h₂ hf₂ ((objectTypeIds_pushRole f first none).symm ▸ hsecond) none
  have hrole : v₃.role ⟨v.roles.size⟩ =
      ⟨⟨v.roles.size⟩, f, (v₁.factType f).arity, first, none⟩ := by
    have hne : (⟨v.roles.size⟩ : RoleId) ≠ ⟨v₂.roles.size⟩ := by simp [hsize]
    rw [role_pushRole, if_neg hne]
    exact (role_pushRole ..).trans (if_pos rfl)
  have hrole' : v₃.role ⟨v.roles.size + 1⟩ =
      ⟨⟨v.roles.size + 1⟩, f, (v₂.factType f).arity, second, none⟩ := by
    rw [role_pushRole, if_pos (by rw [hsize]), hsize]
  have hmem : ∀ ref ∈ [({ role := ⟨v.roles.size⟩ } : RoleRef), { role := ⟨v.roles.size + 1⟩ }],
      ref.role ∈ v₃.roleIds := by
    intro ref href
    rw [mem_roleIds_pushRole, mem_roleIds_pushRole, hsize]
    rcases List.mem_pair.1 href with rfl | rfl
    · exact .inr (.inl rfl)
    · exact .inl rfl
  have h₄ : v₄.WellFormed := wellFormed_pushRoleSequence h₃ hmem
  have hrefs : (v₄.roleSequence ⟨v.roleSequences.size⟩).refs =
      [{ role := ⟨v.roles.size⟩ }, { role := ⟨v.roles.size + 1⟩ }] := by
    exact congrArg RoleSequence.refs ((roleSequence_pushRoleSequence ..).trans (if_pos rfl))
  refine wellFormed_pushReading h₄ hf₃ (mem_roleSequenceIds_pushRoleSequence.2 (.inl rfl))
    ?_ ?_ ?_ ?_ ?_
  · simp [htext, hrefs]
  · simp [htext]
  · intro ref href
    rw [hrefs] at href
    change (v₃.role ref.role).factType = f
    rcases List.mem_pair.1 href with rfl | rfl
    · rw [hrole]
    · rw [hrole']
  · simp [hrefs]
  · -- The fact type is new and has no readings.
    have hnone : (v₄.factType f).readings = [] := by
      change (v₃.factType f).readings = []
      rw [factType_pushRole_apply FactType.readings fun _ _ => rfl,
        factType_pushRole_apply FactType.readings fun _ _ => rfl, factType_pushFactType, if_pos rfl]
    simp [sameReading?, f, hnone]

/-! ## The index of implied fact types -/

/-- A link or comparison that is added is found, by what it relates, beside those that were. -/
lemma impliedIndexed_withBinary (hv : v.Consistent) (kind : FactTypeKind)
    (first second : ObjectTypeId) (text : String)
    (links : List ((ObjectTypeId × RoleId) × FactTypeId))
    (comparisons : List ((String × ObjectTypeId × ObjectTypeId) × FactTypeId))
    (hlinks : ∀ t r f, links.lookup (t, r) = some f ↔
      f = ⟨v.factTypes.size⟩ ∧ kind = .link t r ∨ v.links.lookup (t, r) = some f)
    (hcomparisons : ∀ operator a b f, comparisons.lookup (operator, a, b) = some f ↔
      f = ⟨v.factTypes.size⟩ ∧ kind = .comparison operator ∧ [first, second] = [a, b] ∨
        v.comparisons.lookup (operator, a, b) = some f) :
    { v.withBinary kind first second text with links, comparisons }.ImpliedIndexed := by
  have hfact := factType_withBinary (v := v) kind first second text
  have hmem := fun f => v.mem_factTypeIds_withBinary kind first second text f
  have hgrows := v.grows_withBinary kind first second text
  have hplayers := v.playerOf_withBinary kind first second text
  have hnew := v.size_not_mem_factTypeIds
  generalize v.withBinary kind first second text = w at *
  refine ⟨fun t r f => ?_, fun operator a b f => ?_, fun f t r => ?_, fun f operator => ?_,
    fun f operator => ?_⟩
  · change _ ↔ f ∈ w.factTypeIds ∧ (w.factType f).kind = _
    rw [hlinks, hv.links_iff, hmem, hfact]
    grind
  · have hsame : f ∈ v.factTypeIds →
        (v.factType f).roles.map w.playerOf = (v.factType f).roles.map v.playerOf := fun _ =>
      List.map_congr_left fun r hr => hgrows.playerOf_eq (hv.mem_roles.1 hr).1
    change _ ↔ f ∈ w.factTypeIds ∧ (w.factType f).kind = _ ∧
      (w.factType f).roles.map w.playerOf = _
    rw [hcomparisons, hv.comparisons_iff, hmem, hfact]
    by_cases h : f = ⟨v.factTypes.size⟩
    · simp only [h, if_true, hplayers]
      grind
    · grind
  · have harity := hv.link_arity f t r
    change (w.factType f).kind = _ → (w.factType f).arity = _
    rw [hfact]
    split
    · exact fun _ => rfl
    · exact harity
  · have harity := hv.comparison_arity f operator
    change (w.factType f).kind = _ → (w.factType f).arity = _
    rw [hfact]
    split
    · exact fun _ => rfl
    · exact harity
  · have hreadings := hv.comparison_readings f operator
    change (w.factType f).kind = _ → (w.factType f).readings ≠ _
    rw [hfact]
    split
    · exact fun _ => List.cons_ne_nil _ _
    · exact hreadings
/-- Types keep their names while a comparison is added. -/
lemma leads_comparisonFactType_nameOf (operator : String) (left right : ObjectTypeId)
    (v : Vocabulary) : (comparisonFactType operator left right).Leads
      (fun v w => ∀ t, w.nameOf t = v.nameOf t) v fun _ _ => True := by
  have hindexed : ∀ (w : Vocabulary) comparisons t, { w with comparisons }.nameOf t = w.nameOf t :=
    fun _ _ _ => rfl
  refine leads_get_bind ?_
  split
  · exact leads_pure (fun _ => rfl) trivial
  · refine ends_bind.2 ((ends_of_perform (perform_addBinary ..)).2 ?_)
    refine ends_bind.2 (ends_modify.2 ((ends_pure _).2 ⟨fun t => ?_, trivial⟩))
    rw [hindexed, nameOf_withBinary]

/-- A comparison is worded by its operator between two placeholders. -/
lemma tokens_comparison {operator : String} (h : Template.IsWord operator) :
    Template.tokens ("\x7b0\x7d " ++ operator ++ " \x7b1\x7d") =
      [.place 0, .word operator, .place 1] := by
  have hplain : ∀ t ∈ [Template.Token.place 0, .word operator, .place 1], t.IsPlain := by
    simp [Template.Token.IsPlain, Template.placeLimit, h]
  have hrender : "\x7b0\x7d " ++ operator ++ " \x7b1\x7d" =
      Template.render [.place 0, .word operator, .place 1] := by
    refine String.toList_inj.1 ?_
    simp [Template.render, Template.Token.written, Text.unwords, String.intercalate_cons_cons,
      Template.toList_writtenPlace, Nat.toDigits_of_lt_base]
  rw [hrender, Template.tokens_render hplain]

section Implied

variable (hv : v.Consistent)

include hv

/-- A fact type of two roles that is indexed by what it relates extends a consistent vocabulary. -/
lemma extends_withBinary {kind : FactTypeKind} {first second : ObjectTypeId} {text : String}
    (hw : (v.withBinary kind first second text).WellFormed)
    (links : List ((ObjectTypeId × RoleId) × FactTypeId))
    (comparisons : List ((String × ObjectTypeId × ObjectTypeId) × FactTypeId))
    (hlinks : ∀ t r f, links.lookup (t, r) = some f ↔
      f = ⟨v.factTypes.size⟩ ∧ kind = .link t r ∨ v.links.lookup (t, r) = some f)
    (hcomparisons : ∀ operator a b f, comparisons.lookup (operator, a, b) = some f ↔
      f = ⟨v.factTypes.size⟩ ∧ kind = .comparison operator ∧ [first, second] = [a, b] ∨
        v.comparisons.lookup (operator, a, b) = some f) :
    v.Extends { v.withBinary kind first second text with links, comparisons } where
  grows := { v.grows_withBinary kind first second text with }
  consistent := ⟨wellFormed_indexed hw links comparisons,
    impliedIndexed_withBinary hv kind first second text links comparisons hlinks hcomparisons⟩

omit hv in
/-- What is known of the fact type that is added. -/
lemma factType_indexed_withBinary (v : Vocabulary) (kind : FactTypeKind)
    (first second : ObjectTypeId) (text : String)
    (links : List ((ObjectTypeId × RoleId) × FactTypeId))
    (comparisons : List ((String × ObjectTypeId × ObjectTypeId) × FactTypeId)) :
    let w : Vocabulary := { v.withBinary kind first second text with links, comparisons }
    ⟨v.factTypes.size⟩ ∈ w.factTypeIds ∧ (w.factType ⟨v.factTypes.size⟩).arity = 2 ∧
      (w.factType ⟨v.factTypes.size⟩).readings ≠ [] := by
  have hmem := (v.mem_factTypeIds_withBinary kind first second text _).2 (.inl rfl)
  have hfact := (factType_withBinary kind first second text _).trans (if_pos (Eq.refl
    (⟨v.factTypes.size⟩ : FactTypeId)))
  generalize v.withBinary kind first second text = w at *
  refine ⟨hmem, ?_⟩
  change (w.factType _).arity = 2 ∧ (w.factType _).readings ≠ []
  rw [hfact]
  exact ⟨rfl, List.cons_ne_nil _ _⟩

/-- The link of a type and a role of the vocabulary has two roles. -/
lemma leads_linkFactType {t : ObjectTypeId} {r : RoleId} (ht : t ∈ v.objectTypeIds)
    (hr : r ∈ v.roleIds) : (linkFactType t r).Leads Extends v fun f w =>
      f ∈ w.factTypeIds ∧ (w.factType f).arity = 2 := by
  refine leads_get_bind ?_
  split
  · next existing hlookup =>
    obtain ⟨hf, hkind⟩ := (hv.links_iff t r existing).1 hlookup
    exact leads_pure hv.extends ⟨hf, hv.link_arity existing t r hkind⟩
  · next hlookup =>
    have htext : Template.places (Template.tokens "\x7b0\x7d involves \x7b1\x7d") = [0, 1] := by
      decide +kernel
    have hlinks : ∀ t' r' f, List.lookup (t', r') (((t, r), ⟨v.factTypes.size⟩) :: v.links) =
        some f ↔ f = ⟨v.factTypes.size⟩ ∧ FactTypeKind.link t r = .link t' r' ∨
          v.links.lookup (t', r') = some f := by
      intro t' r' f
      rw [lookup_cons_eq_ite]
      grind
    have hext := extends_withBinary hv
      (wellFormed_withBinary hv.toWellFormed (.link t r) ht (hv.role_player_mem hr) htext)
      (((t, r), ⟨v.factTypes.size⟩) :: v.links) v.comparisons hlinks fun _ _ _ _ => by simp
    refine ends_bind.2 ((ends_of_perform (perform_addBinary ..)).2 ?_)
    obtain ⟨hmem, harity, -⟩ := factType_indexed_withBinary v (.link t r) t (v.playerOf r)
      "\x7b0\x7d involves \x7b1\x7d" (((t, r), ⟨v.factTypes.size⟩) :: v.links) v.comparisons
    exact ends_bind.2 (ends_modify.2 ((ends_pure _).2 ⟨hext, hmem, harity⟩))

/-- The comparison of two types of the vocabulary has a reading. -/
lemma leads_comparisonFactType {operator : String} (hoperator : Template.IsWord operator)
    {left right : ObjectTypeId} (hleft : left ∈ v.objectTypeIds)
    (hright : right ∈ v.objectTypeIds) :
    (comparisonFactType operator left right).Leads Extends v fun f w =>
      f ∈ w.factTypeIds ∧ (w.factType f).readings ≠ [] := by
  refine leads_get_bind ?_
  split
  · next existing hlookup =>
    obtain ⟨hf, hkind, -⟩ := (hv.comparisons_iff operator left right existing).1 hlookup
    exact leads_pure hv.extends ⟨hf, hv.comparison_readings existing operator hkind⟩
  · next hlookup =>
    have htext := congrArg Template.places (tokens_comparison hoperator)
    have hcomparisons : ∀ operator' a b f,
        List.lookup (operator', a, b) (((operator, left, right), ⟨v.factTypes.size⟩) ::
          v.comparisons) = some f ↔ f = ⟨v.factTypes.size⟩ ∧
            FactTypeKind.comparison operator = .comparison operator' ∧ [left, right] = [a, b] ∨
          v.comparisons.lookup (operator', a, b) = some f := by
      intro operator' a b f
      rw [lookup_cons_eq_ite]
      grind
    have hext := extends_withBinary hv
      (wellFormed_withBinary hv.toWellFormed (.comparison operator) hleft hright htext)
      v.links (((operator, left, right), ⟨v.factTypes.size⟩) :: v.comparisons)
      (fun _ _ _ => by simp) hcomparisons
    refine ends_bind.2 ((ends_of_perform (perform_addBinary ..)).2 ?_)
    obtain ⟨hmem, -, hreadings⟩ := factType_indexed_withBinary v (.comparison operator) left right
      ("\x7b0\x7d " ++ operator ++ " \x7b1\x7d") v.links
      (((operator, left, right), ⟨v.factTypes.size⟩) :: v.comparisons)
    exact ends_bind.2 (ends_modify.2 ((ends_pure _).2 ⟨hext, hmem, hreadings⟩))

end Implied

end FactModel.Vocabulary
