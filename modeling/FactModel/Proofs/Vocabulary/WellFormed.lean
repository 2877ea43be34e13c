import Mathlib.Data.List.Nodup
import Mathlib.Tactic.Lemma
import FactModel.Proofs.Vocabulary.Grows
import FactModel.Proofs.Vocabulary.Template
set_option autoImplicit false

/-!
# Well-formed vocabularies

Constructs refer to each other by place, and several parts of a vocabulary record the same fact
twice: a role names its fact type and the fact type lists the role, a name finds a type and the type
has the name. In a well-formed vocabulary every reference is to a construct that exists, and the two
records of one fact agree.

## Main definitions

* `FactModel.JoinGraph.InRange` — a join graph whose references are to constructs that exist.
* `FactModel.Vocabulary.WellFormed` — a vocabulary whose parts agree.
* `FactModel.Vocabulary.ImpliedIndexed` — links and comparisons are found by what they relate.
* `FactModel.Vocabulary.Consistent` — both.

## Main results

* `FactModel.Vocabulary.consistent_empty` — the vocabulary without constructs is consistent.
* `FactModel.Vocabulary.WellFormed.mem_roles` and its companions — what the parts of a
  well-formed vocabulary say of each other.
-/

namespace FactModel

/-! ## Join graphs -/

/-- The references of a variable of a join graph over a vocabulary are to what exists. -/
structure Variable.InRange (v : Vocabulary) (g : JoinGraph) (w : Variable) : Prop where
  objectType : w.objectType ∈ v.objectTypeIds
  objectificationStep : ∀ s ∈ w.objectificationStep, s.index < g.steps.length
  plays : ∀ p ∈ w.plays, p.index < g.plays.length

/-- The references of a play of a join graph over a vocabulary are to what exists. -/
structure Play.InRange (v : Vocabulary) (g : JoinGraph) (p : Play) : Prop where
  variableId : p.variableId.index < g.vars.length
  role : p.role ∈ v.roleIds
  step : p.step.index < g.steps.length

/-- The references of a step of a join graph over a vocabulary are to what exists. -/
structure Step.InRange (v : Vocabulary) (g : JoinGraph) (s : Step) : Prop where
  factType : s.factType ∈ v.factTypeIds
  reading : ∀ r ∈ s.reading, r ∈ v.readingIds
  plays : ∀ p ∈ s.plays, p.index < g.plays.length
  objectificationVariable : ∀ w ∈ s.objectificationVariable, w.index < g.vars.length

/-- The references of a join graph over a vocabulary are to what exists. -/
structure JoinGraph.InRange (v : Vocabulary) (g : JoinGraph) : Prop where
  vars : ∀ w ∈ g.vars, w.InRange v g
  plays : ∀ p ∈ g.plays, p.InRange v g
  steps : ∀ s ∈ g.steps, s.InRange v g
  projection : ∀ w ∈ g.projection, w.index < g.vars.length

/-- References that are to what exists remain so where no less exists. -/
lemma JoinGraph.InRange.mono {v w : Vocabulary} {g : JoinGraph} (h : g.InRange v)
    (hobject : v.objectTypeIds ⊆ w.objectTypeIds) (hfact : v.factTypeIds ⊆ w.factTypeIds)
    (hrole : v.roleIds ⊆ w.roleIds) (hreading : v.readingIds ⊆ w.readingIds) : g.InRange w where
  vars := fun u hu => ⟨hobject (h.vars u hu).objectType, (h.vars u hu).objectificationStep,
    (h.vars u hu).plays⟩
  plays := fun p hp => ⟨(h.plays p hp).variableId, hrole (h.plays p hp).role, (h.plays p hp).step⟩
  steps := fun s hs => ⟨hfact (h.steps s hs).factType,
    fun r hr => hreading ((h.steps s hs).reading r hr), (h.steps s hs).plays,
    (h.steps s hs).objectificationVariable⟩
  projection := h.projection

/-- A query about a vocabulary is one about what the vocabulary grows into. -/
lemma JoinGraph.InRange.grows {v w : Vocabulary} {g : JoinGraph} (h : g.InRange v)
    (hvw : v.Grows w) : g.InRange w :=
  h.mono (fun _ => hvw.mem_objectTypeIds) (fun _ => hvw.mem_factTypeIds) (fun _ => hvw.mem_roleIds)
    fun _ => hvw.mem_readingIds

/-! ## Vocabularies -/

namespace Vocabulary

/-- A vocabulary whose references are to constructs that exist and whose indexes agree with the
constructs. -/
structure WellFormed (v : Vocabulary) : Prop where
  objectType_id : ∀ t ∈ v.objectTypeIds, (v.objectType t).id = t
  factType_id : ∀ f ∈ v.factTypeIds, (v.factType f).id = f
  role_id : ∀ r ∈ v.roleIds, (v.role r).id = r
  roleSequence_id : ∀ s ∈ v.roleSequenceIds, (v.roleSequence s).id = s
  reading_id : ∀ r ∈ v.readingIds, (v.reading r).id = r
  presenceConstraint_id : ∀ c ∈ v.presenceConstraintIds, (v.presenceConstraint c).id = c
  ringConstraint_id : ∀ c ∈ v.ringConstraintIds, (v.ringConstraint c).id = c
  /-- A name finds the one type that has it. -/
  findObjectType?_iff : ∀ name t,
    v.findObjectType? name = some t ↔ t ∈ v.objectTypeIds ∧ v.nameOf t = name
  /-- Roles and fact types agree about where each role stands. -/
  roles_iff : ∀ f k r, (v.factType f).roles[k]? = some r ↔
    r ∈ v.roleIds ∧ (v.role r).factType = f ∧ (v.role r).ordinal = k
  rolesPlayedBy_eq : ∀ t, v.rolesPlayedBy t = v.roleIds.filter (v.playerOf · = t)
  ref_mem : ∀ s, ∀ ref ∈ (v.roleSequence s).refs, ref.role ∈ v.roleIds
  /-- Readings and fact types agree about where each reading stands. -/
  readings_iff : ∀ f k r, (v.factType f).readings[k]? = some r ↔
    r ∈ v.readingIds ∧ (v.reading r).factType = f ∧ (v.reading r).ordinal = k
  reading_roleSequence_mem : ∀ r ∈ v.readingIds, (v.reading r).roleSequence ∈ v.roleSequenceIds
  reading_tokens : ∀ r ∈ v.readingIds, (v.reading r).tokens = Template.tokens (v.reading r).text
  place_lt : ∀ r ∈ v.readingIds, ∀ n ∈ Template.places (v.reading r).tokens,
    n < (v.readingRefs r).length
  places_nodup : ∀ r ∈ v.readingIds, (Template.places (v.reading r).tokens).Nodup
  ref_factType : ∀ r ∈ v.readingIds, ∀ ref ∈ v.readingRefs r,
    (v.role ref.role).factType = (v.reading r).factType
  refs_nodup : ∀ r ∈ v.readingIds, ((v.readingRefs r).map (·.role)).Nodup
  /-- No two readings of a fact type say the same in the same words. -/
  readings_distinct : ∀ r ∈ v.readingIds, ∀ r' ∈ v.readingIds,
    (v.reading r).factType = (v.reading r').factType → (v.reading r).text = (v.reading r').text →
    (v.reading r).isNegative = (v.reading r').isNegative →
    v.wordedPlayers (v.reading r).roleSequence = v.wordedPlayers (v.reading r').roleSequence →
    r = r'
  objectifies_iff : ∀ e f,
    (v.objectType e).factType = some f ↔ (v.factType f).entityType = some e
  presence_mem : ∀ c ∈ v.presenceConstraintIds,
    (v.presenceConstraint c).roleSequence ∈ v.roleSequenceIds
  ring_role_mem : ∀ c ∈ v.ringConstraintIds, (v.ringConstraint c).role ∈ v.roleIds
  ring_otherRole_mem : ∀ c ∈ v.ringConstraintIds, (v.ringConstraint c).otherRole ∈ v.roleIds
  derivation_mem : ∀ f q, (v.factType f).derivation = some q → q ∈ v.queryIds
  query_inRange : ∀ q ∈ v.queries, q.InRange v

/-- Links and comparisons are found by what they relate, and nothing else is found. -/
structure ImpliedIndexed (v : Vocabulary) : Prop where
  links_iff : ∀ t r f, v.links.lookup (t, r) = some f ↔
    f ∈ v.factTypeIds ∧ (v.factType f).kind = .link t r
  comparisons_iff : ∀ operator a b f, v.comparisons.lookup (operator, a, b) = some f ↔
    f ∈ v.factTypeIds ∧ (v.factType f).kind = .comparison operator ∧
      (v.factType f).roles.map v.playerOf = [a, b]
  /-- Every link has two roles. -/
  link_arity : ∀ f t r, (v.factType f).kind = .link t r → (v.factType f).arity = 2
  /-- Every comparison has two roles. -/
  comparison_arity : ∀ f operator, (v.factType f).kind = .comparison operator →
    (v.factType f).arity = 2
  comparison_readings : ∀ f operator, (v.factType f).kind = .comparison operator →
    (v.factType f).readings ≠ []

/-- A vocabulary whose parts agree. -/
structure Consistent (v : Vocabulary) : Prop extends WellFormed v, ImpliedIndexed v

/-- The vocabulary without constructs is consistent. -/
lemma consistent_empty (name : String) : Consistent { name } := by
  constructor <;> constructor <;>
    simp [objectType, factType, roleSequence, findObjectType?, rolesPlayedBy, roleIds,
      default, instInhabitedFactType.default, instInhabitedObjectType.default,
      instInhabitedRoleSequence.default, instInhabitedFactTypeKind.default]

namespace WellFormed

variable {v : Vocabulary} (hv : v.WellFormed)

include hv

/-! ## Roles -/

/-- The roles of a fact type are those that have it as their fact type. -/
lemma mem_roles {f : FactTypeId} {r : RoleId} :
    r ∈ (v.factType f).roles ↔ r ∈ v.roleIds ∧ (v.role r).factType = f := by
  rw [List.mem_iff_getElem?]
  simp only [hv.roles_iff]
  exact ⟨fun ⟨_, hr, hf, _⟩ => ⟨hr, hf⟩, fun ⟨hr, hf⟩ => ⟨_, hr, hf, rfl⟩⟩

/-- The fact type of a role exists. -/
lemma role_factType_mem {r : RoleId} (hr : r ∈ v.roleIds) :
    (v.role r).factType ∈ v.factTypeIds := by
  refine Decidable.byContradiction fun hf => ?_
  have hmem := hv.mem_roles.2 ⟨hr, rfl⟩
  rw [factType_of_not_mem hf] at hmem
  exact absurd hmem List.not_mem_nil

/-- The player of a role exists. -/
lemma role_player_mem {r : RoleId} (hr : r ∈ v.roleIds) : v.playerOf r ∈ v.objectTypeIds := by
  refine Decidable.byContradiction fun ht => ?_
  have hmem : r ∈ v.rolesPlayedBy (v.playerOf r) := by
    rw [hv.rolesPlayedBy_eq]
    simpa using hr
  rw [rolesPlayedBy, objectType_of_not_mem ht] at hmem
  exact absurd hmem List.not_mem_nil

/-- The roles that a type plays are those that have it as their player. -/
lemma mem_rolesPlayedBy {t : ObjectTypeId} {r : RoleId} :
    r ∈ v.rolesPlayedBy t ↔ r ∈ v.roleIds ∧ v.playerOf r = t := by
  rw [hv.rolesPlayedBy_eq]
  simp

/-! ## Readings -/

/-- The readings of a fact type are those that have it as their fact type. -/
lemma mem_readings {f : FactTypeId} {r : ReadingId} :
    r ∈ (v.factType f).readings ↔ r ∈ v.readingIds ∧ (v.reading r).factType = f := by
  rw [List.mem_iff_getElem?]
  simp only [hv.readings_iff]
  exact ⟨fun ⟨_, hr, hf, _⟩ => ⟨hr, hf⟩, fun ⟨hr, hf⟩ => ⟨_, hr, hf, rfl⟩⟩

/-- The fact type of a reading exists. -/
lemma reading_factType_mem {r : ReadingId} (hr : r ∈ v.readingIds) :
    (v.reading r).factType ∈ v.factTypeIds := by
  refine Decidable.byContradiction fun hf => ?_
  have hmem := hv.mem_readings.2 ⟨hr, rfl⟩
  rw [factType_of_not_mem hf] at hmem
  exact absurd hmem List.not_mem_nil

/-- No reading occurs twice in a fact type. -/
lemma readings_nodup (f : FactTypeId) : (v.factType f).readings.Nodup := by
  rw [List.nodup_iff_getElem?_ne_getElem?]
  intro i j hij hj heq
  have hri := (hv.readings_iff f i _).1 (heq.trans (List.getElem?_eq_getElem hj))
  have hrj := (hv.readings_iff f j _).1 (List.getElem?_eq_getElem hj)
  omega

/-- The roles of a reading are roles of its fact type. -/
lemma ref_mem_roles {r : ReadingId} (hr : r ∈ v.readingIds) {ref : RoleRef}
    (href : ref ∈ v.readingRefs r) : ref.role ∈ (v.factType (v.reading r).factType).roles :=
  hv.mem_roles.2 ⟨hv.ref_mem _ ref href, hv.ref_factType r hr ref href⟩

/-! ## Names and objectification -/

/-- Two object types do not have one name. -/
lemma nameOf_injective {t u : ObjectTypeId} (ht : t ∈ v.objectTypeIds) (hu : u ∈ v.objectTypeIds)
    (h : v.nameOf t = v.nameOf u) : t = u := by
  have htf := (hv.findObjectType?_iff (v.nameOf t) t).2 ⟨ht, rfl⟩
  have huf := (hv.findObjectType?_iff (v.nameOf t) u).2 ⟨hu, h.symm⟩
  exact Option.some.inj (htf.symm.trans huf)

/-- What a name finds is an object type of the vocabulary. -/
lemma mem_of_findObjectType? {name : String} {t : ObjectTypeId}
    (h : v.findObjectType? name = some t) : t ∈ v.objectTypeIds :=
  ((hv.findObjectType?_iff name t).1 h).1

end WellFormed

end Vocabulary

end FactModel
