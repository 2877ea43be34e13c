import FactModel.Proofs.Vocabulary.Additions
import FactModel.Proofs.Vocabulary.Fullness
import FactModel.Proofs.Vocabulary.Kinds
set_option autoImplicit false

/-!
# Readings in the same words

Two readings are in the same words if one can be laid on the other: the same words in the same
order, and placeholders for the same players with the same adjectives. A clause cannot tell such
readings apart. So a reading had better have other words than the readings before it that clauses
invoke, unless these belong to its own fact type, or are negative where it is not. The readings that
a fact type about kinds comes with are in the words that they are in.

## Main definitions

* `FactModel.Vocabulary.SameWords` — two readings are in the same words.
* `FactModel.Vocabulary.IsInvocable` — clauses may invoke a reading.
* `FactModel.Vocabulary.IsApart` — a reading has other words than those before it.
* `FactModel.Vocabulary.ComesWithKind` — a fact type about kinds came with a reading.
* `FactModel.Vocabulary.AllApart` — all readings that clauses invoke are apart, or came with kinds.
* `FactModel.Vocabulary.AddsFixed` — no reading has been added that is in words of a clause.

## Main results

* `FactModel.Vocabulary.factType_eq_of_sameWords` — fact types about kinds are told apart by their
  readings.
* `FactModel.Vocabulary.AllApart.later` — whether readings are apart depends on the new ones only.
-/

namespace FactModel.Vocabulary

open Attempt

variable {u v w : Vocabulary} {r r' : ReadingId}

/-! ## The same words -/

/-- Two role references are for the same player with the same adjectives. -/
structure Alike (v : Vocabulary) (ref ref' : RoleRef) : Prop where
  leading_eq : Adjective.words ref.leading = Adjective.words ref'.leading
  trailing_eq : Adjective.words ref.trailing = Adjective.words ref'.trailing
  player_eq : v.playerOf ref.role = v.playerOf ref'.role

/-- Two tokens are one word, or placeholders for role references that are alike. -/
inductive SameToken (v : Vocabulary) (refs refs' : List RoleRef) :
    Template.Token → Template.Token → Prop
  | word (text : String) : SameToken v refs refs' (.word text) (.word text)
  | place {k k' : Nat} {ref ref' : RoleRef} (href : refs[k]? = some ref)
      (href' : refs'[k']? = some ref') (h : v.Alike ref ref') :
      SameToken v refs refs' (.place k) (.place k')

/-- Two readings are in the same words. -/
def SameWords (v : Vocabulary) (r r' : ReadingId) : Prop :=
  List.Forall₂ (v.SameToken (v.readingRefs r) (v.readingRefs r')) (v.reading r).tokens
    (v.reading r').tokens

/-- Clauses may invoke a reading: facts of its type are stated, and it has as many placeholders as
there are roles, and some. -/
structure IsInvocable (v : Vocabulary) (r : ReadingId) : Prop where
  isStated : (v.factType (v.reading r).factType).isStated
  arity_eq : (v.factType (v.reading r).factType).arity =
    (Template.places (v.reading r).tokens).length
  places_ne_nil : Template.places (v.reading r).tokens ≠ []

/-- Readings before it that clauses invoke are in other words, unless they belong to the same fact
type, or are negative while the reading is not. -/
def IsApart (v : Vocabulary) (r : ReadingId) : Prop :=
  ∀ r' ∈ v.readingIds, r'.index < r.index → v.IsInvocable r' → v.SameWords r' r →
    (v.reading r').factType = (v.reading r).factType ∨
      (v.reading r').isNegative ∧ ¬(v.reading r).isNegative

/-- A fact type about kinds came with the reading: it is among its first ones. -/
def ComesWithKind (v : Vocabulary) (r : ReadingId) : Prop :=
  (v.factType (v.reading r).factType).isTypeInheritance ∧
    (v.reading r).ordinal < inheritanceReadings.length

/-- All readings that clauses invoke are apart from those before them, or fact types about kinds
came with them. -/
def AllApart (v : Vocabulary) : Prop :=
  ∀ r ∈ v.readingIds, v.IsInvocable r → v.ComesWithKind r ∨ v.IsApart r

/-- An empty vocabulary has no two readings to keep apart. -/
lemma allApart_empty (name : String) : AllApart { name } :=
  fun _ hr => nomatch hr

/-! ## Players in their places -/

/-- The players of a reading in the order of the placeholders for them. -/
def placedPlayers (v : Vocabulary) (r : ReadingId) : List (Option ObjectTypeId) :=
  (Template.places (v.reading r).tokens).map fun k =>
    (v.readingRefs r)[k]?.map fun ref => v.playerOf ref.role

/-- Readings in the same words have the same players in their places. -/
lemma SameWords.placedPlayers_eq (h : v.SameWords r r') :
    v.placedPlayers r = v.placedPlayers r' := by
  unfold SameWords at h
  unfold placedPlayers
  generalize (v.reading r).tokens = tokens at h ⊢
  generalize (v.reading r').tokens = tokens' at h ⊢
  induction h with
  | nil => rfl
  | cons htoken _ ih =>
    cases htoken with
    | word text => exact ih
    | @place k k' _ _ href href' halike =>
      have hplayer : ((v.readingRefs r)[k]?.map fun ref => v.playerOf ref.role) =
          (v.readingRefs r')[k']?.map fun ref => v.playerOf ref.role := by
        rw [href, href', Option.map_some, Option.map_some, halike.player_eq]
      exact congrArg₂ List.cons hplayer ih

/-- A reading that clauses invoke has all players of its fact type in its places. -/
lemma IsInvocable.perm_placedPlayers (hv : v.WellFormed) (hr : r ∈ v.readingIds)
    (h : v.IsInvocable r) : (v.placedPlayers r).Perm
      (((v.factType (v.reading r).factType).roles.map v.playerOf).map some) := by
  have hroles : (v.readingRefs r).map (·.role) ⊆ (v.factType (v.reading r).factType).roles := by
    intro role hrole
    obtain ⟨ref, href, rfl⟩ := List.mem_map.1 hrole
    exact hv.ref_mem_roles hr href
  have hrefs := List.subperm_of_subset (hv.refs_nodup r hr) hroles
  have hplaces : Template.places (v.reading r).tokens ⊆ List.range (v.readingRefs r).length :=
    fun k hk => List.mem_range.2 (hv.place_lt r hr k hk)
  have hlength := hrefs.length_le
  have harity := h.arity_eq
  rw [FactType.arity] at harity
  have hrange := (List.subperm_of_subset (hv.places_nodup r hr) hplaces).perm_of_length_le (by
    rw [List.length_range, ← harity]
    simpa using hlength)
  have hall := hrefs.perm_of_length_le (by
    rw [harity, hrange.length_eq, List.length_range, List.length_map])
  refine (hrange.map _).trans ?_
  refine List.Perm.trans (.of_eq ?_) ((hall.map v.playerOf).map some)
  refine List.ext_getElem (by simp) fun k hk hk' => ?_
  have hlt : k < (v.readingRefs r).length := by simpa using hk
  simp [hlt]

/-- **Fact types about kinds are told apart.** Of readings in the same words that clauses invoke and
that belong to fact types about kinds, both belong to one fact type.

**Proof sketch.** Both have the same two players, a type and a kind of it. If they had them the
other way round, then each of two types would be a kind of the other. -/
theorem factType_eq_of_sameWords (hv : v.WellFormed) (hinherits : v.Inherits) (htold : v.KindsTold)
    (hr : r ∈ v.readingIds) (hr' : r' ∈ v.readingIds) (h : v.IsInvocable r) (h' : v.IsInvocable r')
    (hwords : v.SameWords r r') (hkind : (v.factType (v.reading r).factType).isTypeInheritance)
    (hkind' : (v.factType (v.reading r').factType).isTypeInheritance) :
    (v.reading r).factType = (v.reading r').factType := by
  have hplayers : ∀ {q}, q ∈ v.readingIds → v.IsInvocable q →
      (v.factType (v.reading q).factType).isTypeInheritance → ∃ a b,
        v.StatesKind (v.reading q).factType a b ∧ (v.placedPlayers q).Perm [some a, some b] := by
    intro q hq hinvocable hkind
    have hperm := hinvocable.perm_placedPlayers hv hq
    unfold FactType.isTypeInheritance at hkind
    split at hkind
    · next a b hab =>
      have hstates : v.StatesKind (v.reading q).factType a b := ⟨hv.reading_factType_mem hq, hab⟩
      obtain ⟨lower, upper, _, htells⟩ := htold hstates
      refine ⟨a, b, hstates, ?_⟩
      rwa [htells.roles_eq, List.map_cons, List.map_singleton, htells.lower_player,
        htells.upper_player] at hperm
    · cases hkind
  obtain ⟨a, b, hab, hperm⟩ := hplayers hr h hkind
  obtain ⟨a', b', hab', hperm'⟩ := hplayers hr' h' hkind'
  rw [hwords.placedPlayers_eq] at hperm
  have hpair := hperm.symm.trans hperm'
  have hcases : (a = a' ∧ b = b') ∨ (a = b' ∧ b = a') := by
    rcases List.mem_pair.1 (hpair.subset List.mem_cons_self) with ha | ha
    · rw [ha, List.perm_cons, List.perm_singleton] at hpair
      exact .inl ⟨Option.some.inj ha, Option.some.inj (List.cons.inj hpair).1⟩
    · have hpair := hpair.trans (.swap ..)
      rw [ha, List.perm_cons, List.perm_singleton] at hpair
      exact .inr ⟨Option.some.inj ha, Option.some.inj (List.cons.inj hpair).1⟩
  rcases hcases with ⟨rfl, rfl⟩ | ⟨rfl, rfl⟩
  · exact hinherits.stated_once hab hab'
  · have hcycle := Relation.TransGen.tail (.single (hinherits.stated_iff.2 ⟨_, hab⟩))
      (hinherits.stated_iff.2 ⟨_, hab'⟩)
    exact absurd hcycle (hinherits.acyclic a)

/-! ## Vocabularies that grow -/

section Retains

variable (hv : v.WellFormed) (hvw : v.Retains w)

include hv hvw

/-- A reading that is retained lists the same roles. -/
lemma Retains.readingRefs_eq (hr : r ∈ v.readingIds) : w.readingRefs r = v.readingRefs r := by
  rw [readingRefs, hvw.reading_eq hr, hvw.roleSequence_eq (hv.reading_roleSequence_mem r hr)]
  rfl

/-- Readings that were there are invoked afterwards just in case they were before. -/
lemma Retains.isInvocable_iff (hr : r ∈ v.readingIds) : w.IsInvocable r ↔ v.IsInvocable r := by
  have hf := hv.reading_factType_mem hr
  have hkind := (hvw.factType hf).kind_eq
  have hstated : (w.factType (v.reading r).factType).isStated =
      (v.factType (v.reading r).factType).isStated := by
    rw [FactType.isStated, FactType.isStated, hkind]
  have harity : (w.factType (v.reading r).factType).arity =
      (v.factType (v.reading r).factType).arity := congrArg List.length (hvw.roles_eq _ hf)
  constructor
  · rintro ⟨h, h', hne⟩
    rw [hvw.reading_eq hr] at h h' hne
    exact ⟨hstated ▸ h, harity ▸ h', hne⟩
  · rintro ⟨h, h', hne⟩
    refine ⟨?_, ?_, ?_⟩ <;> rw [hvw.reading_eq hr]
    · rw [hstated]
      exact h
    · rw [harity]
      exact h'
    · exact hne

/-- Readings that were there are in the same words only if they were before. -/
lemma Retains.sameWords (hr : r ∈ v.readingIds) (hr' : r' ∈ v.readingIds) (h : w.SameWords r r') :
    v.SameWords r r' := by
  unfold SameWords at h
  rw [hvw.reading_eq hr, hvw.reading_eq hr', hvw.readingRefs_eq hv hr,
    hvw.readingRefs_eq hv hr'] at h
  refine h.imp fun t t' htoken => ?_
  cases htoken with
  | word text => exact .word text
  | place href href' halike =>
    refine .place href href' { halike with player_eq := ?_ }
    have hmem := hv.ref_mem _ _ (List.mem_of_getElem? href)
    have hmem' := hv.ref_mem _ _ (List.mem_of_getElem? href')
    rw [← hvw.playerOf_eq hmem, ← hvw.playerOf_eq hmem']
    exact halike.player_eq

/-- A reading that is apart stays apart. -/
lemma IsApart.retains (hr : r ∈ v.readingIds) (h : v.IsApart r) : w.IsApart r := by
  intro r' _ hlt hinvocable hwords
  have hr' : r' ∈ v.readingIds := by
    rw [mem_readingIds] at hr ⊢
    exact hlt.trans hr
  rw [hvw.reading_eq hr, hvw.reading_eq hr']
  exact h r' hr' hlt ((hvw.isInvocable_iff hv hr').1 hinvocable) (hvw.sameWords hv hr' hr hwords)

/-- A fact type about kinds came with a reading just in case it did before. -/
lemma Retains.comesWithKind_iff (hr : r ∈ v.readingIds) :
    w.ComesWithKind r ↔ v.ComesWithKind r := by
  rw [ComesWithKind, hvw.reading_eq hr, FactType.isTypeInheritance,
    (hvw.factType (hv.reading_factType_mem hr)).kind_eq]
  exact Iff.rfl

/-- **Readings stay apart.** Readings are still apart if the new ones are. -/
theorem AllApart.later (h : v.AllApart)
    (hnew : ∀ r ∈ w.readingIds, r ∉ v.readingIds → w.IsInvocable r →
      w.ComesWithKind r ∨ w.IsApart r) : w.AllApart := by
  intro r hr hinvocable
  by_cases hold : r ∈ v.readingIds
  · rw [hvw.comesWithKind_iff hv hold]
    exact (h r hold ((hvw.isInvocable_iff hv hold).1 hinvocable)).imp_right (·.retains hv hvw hold)
  · exact hnew r hr hold hinvocable

end Retains

/-! ## Readings in fixed words -/

/-- A vocabulary retains what is there. A reading that has been added belongs to a fact type that
clauses do not state, or a fact type about kinds came with it. -/
structure AddsFixed (v w : Vocabulary) : Prop extends v.Retains w where
  factType_mem : ∀ r ∈ w.readingIds, r ∉ v.readingIds → (w.reading r).factType ∈ w.factTypeIds
  fixed : ∀ r ∈ w.readingIds, r ∉ v.readingIds →
    (w.factType (w.reading r).factType).isStated = false ∨ w.ComesWithKind r

namespace AddsFixed

/-- Adding nothing adds fixed readings only. -/
lemma refl (v : Vocabulary) : v.AddsFixed v where
  toRetains := .refl v
  factType_mem _ hr hnew := absurd hr hnew
  fixed _ hr hnew := absurd hr hnew

/-- Two additions of fixed readings make one. -/
lemma trans (h : u.AddsFixed v) (h' : v.AddsFixed w) : u.AddsFixed w := by
  have hcases : ∀ r ∈ w.readingIds, r ∉ u.readingIds → (w.reading r).factType ∈ w.factTypeIds ∧
      ((w.factType (w.reading r).factType).isStated = false ∨ w.ComesWithKind r) := by
    intro r hr hnew
    by_cases hold : r ∈ v.readingIds
    · have hmem := h.factType_mem r hold hnew
      rw [ComesWithKind, h'.reading_eq hold, FactType.isStated, FactType.isTypeInheritance,
        (h'.factType hmem).kind_eq]
      exact ⟨h'.mem_factTypeIds hmem, h.fixed r hold hnew⟩
    · exact ⟨h'.factType_mem r hr hold, h'.fixed r hr hold⟩
  exact ⟨h.toRetains.trans h'.toRetains, fun r hr hnew => (hcases r hr hnew).1,
    fun r hr hnew => (hcases r hr hnew).2⟩

instance : Trans AddsFixed AddsFixed AddsFixed :=
  ⟨trans⟩

/-- What adds no reading adds fixed readings only. -/
lemma of_readings_eq (h : v.Retains w) (hreadings : w.readings = v.readings) : v.AddsFixed w := by
  have hids : w.readingIds = v.readingIds := by rw [readingIds, readingIds, hreadings]
  exact ⟨h, fun r hr hnew => absurd (hids ▸ hr) hnew, fun r hr hnew => absurd (hids ▸ hr) hnew⟩

/-- The readings of implied fact types are fixed. -/
lemma of_addsImplied (h : v.Retains w) (hadds : v.AddsImplied w) : v.AddsFixed w where
  toRetains := h
  factType_mem r hr hnew := (hadds.reading_new r hr hnew).mem
  fixed r hr hnew := .inl (hadds.factType_new _ (hadds.reading_new r hr hnew))

/-- A fact type about kinds may come with another reading as long as it has few. -/
lemma pushReading {f : FactTypeId} (hf : f ∈ v.factTypeIds)
    (hkind : (v.factType f).isTypeInheritance)
    (hfew : (v.factType f).readings.length < inheritanceReadings.length) (s : RoleSequenceId)
    (text : String) : v.AddsFixed (v.pushReading f s text false) := by
  have hretains : v.Retains (v.pushReading f s text false) :=
    ⟨v.grows_pushReading f s text false, fun g _ =>
      factType_pushReading_apply FactType.roles (fun _ _ => rfl) f s text false g⟩
  have hreading : ∀ r ∈ (v.pushReading f s text false).readingIds, r ∉ v.readingIds →
      ((v.pushReading f s text false).reading r).factType = f ∧
        ((v.pushReading f s text false).reading r).ordinal < inheritanceReadings.length := by
    intro r hr hnew
    rw [(mem_readingIds_pushReading.1 hr).resolve_right hnew, reading_pushReading, if_pos rfl]
    exact ⟨rfl, hfew⟩
  refine ⟨hretains, fun r hr hnew => ?_, fun r hr hnew => .inr ?_⟩ <;>
    obtain ⟨hfactType, hordinal⟩ := hreading r hr hnew
  · rw [hfactType]
    exact hretains.mem_factTypeIds hf
  · rw [ComesWithKind, hfactType, FactType.isTypeInheritance, (hretains.factType hf).kind_eq]
    exact ⟨hkind, hordinal⟩

/-- A fact type about kinds may come with all its readings. -/
lemma withReadings {f : FactTypeId} (hf : f ∈ v.factTypeIds)
    (hkind : (v.factType f).isTypeInheritance) (s : RoleSequenceId) {texts : List String}
    (hfew : (v.factType f).readings.length + texts.length ≤ inheritanceReadings.length) :
    v.AddsFixed (v.withReadings f s texts) := by
  induction texts generalizing v with
  | nil => exact .refl v
  | cons text texts ih =>
    rw [List.length_cons] at hfew
    have hadds : v.AddsFixed (v.pushReading f s text false) :=
      pushReading hf hkind (by omega) s text
    refine hadds.trans (ih (hadds.mem_factTypeIds hf) ?_ ?_)
    · rw [FactType.isTypeInheritance, (hadds.toGrows.factType hf).kind_eq]
      exact hkind
    · rw [factType_pushReading, if_pos ⟨rfl, hf⟩, List.length_append, List.length_singleton]
      omega

/-- A new fact type about kinds comes with its first reading. -/
lemma withBinary (v : Vocabulary) (a b : ObjectTypeId) (text : String) :
    v.AddsFixed (v.withBinary (.typeInheritance a b) a b text) := by
  have hreading : ∀ r ∈ (v.withBinary (.typeInheritance a b) a b text).readingIds,
      r ∉ v.readingIds →
        ((v.withBinary (.typeInheritance a b) a b text).reading r).factType = ⟨v.factTypes.size⟩ ∧
          ((v.withBinary (.typeInheritance a b) a b text).reading r).ordinal = 0 := by
    intro r hr hnew
    rw [((mem_readingIds_withBinary ..).1 hr).resolve_right hnew, reading_withBinary]
    exact ⟨rfl, rfl⟩
  refine ⟨retains_withBinary (.typeInheritance a b) a b text v.links v.comparisons,
    fun r hr hnew => ?_,
    fun r hr hnew => .inr ?_⟩ <;> obtain ⟨hfactType, hordinal⟩ := hreading r hr hnew
  · rw [hfactType]
    exact (mem_factTypeIds_withBinary ..).2 (.inl rfl)
  · rw [ComesWithKind, hfactType, hordinal, factType_withBinary, if_pos rfl]
    exact ⟨rfl, Nat.succ_pos 2⟩

/-- So it does with its further ones. -/
lemma withBinary_withReadings (v : Vocabulary) (a b : ObjectTypeId) (text : String)
    (s : RoleSequenceId) {texts : List String}
    (hfew : texts.length < inheritanceReadings.length) :
    v.AddsFixed ((v.withBinary (.typeInheritance a b) a b text).withReadings ⟨v.factTypes.size⟩ s
      texts) := by
  have hfactType := (v.factType_withBinary (.typeInheritance a b) a b text
    ⟨v.factTypes.size⟩).trans (if_pos rfl)
  refine (withBinary v a b text).trans (withReadings ?_ ?_ s ?_)
  · exact (mem_factTypeIds_withBinary ..).2 (.inl rfl)
  · rw [hfactType]
    rfl
  · rw [hfactType, List.length_singleton, Nat.add_comm]
    exact hfew

/-- The fact type with which one type is made a kind of another comes with its readings. -/
lemma withSubtype (v : Vocabulary) (a b : ObjectTypeId) : v.AddsFixed (v.withSubtype a b) := by
  have hlinked : v.AddsFixed (v.linkSubtype a b) :=
    .of_readings_eq (.of_factTypes_eq (v.grows_linkSubtype a b) rfl) rfl
  rw [withSubtype_eq]
  exact hlinked.trans (withBinary_withReadings _ a b _ _ (Nat.lt_succ_self 2))

end AddsFixed

/-- Readings are still apart if those that have been added are in fixed words. -/
lemma AllApart.addsFixed (h : v.AllApart) (hv : v.WellFormed) (hvw : v.AddsFixed w) :
    w.AllApart := by
  refine h.later hv hvw.toRetains fun r hr hnew hinvocable => ?_
  rcases hvw.fixed r hr hnew with hunstated | hkind
  · rw [hinvocable.isStated] at hunstated
    cases hunstated
  · exact .inl hkind

/-! ## Edits -/

section Edits

variable (v)

/-- An edit that adds no reading adds none in other than fixed words. -/
lemma leads_addsFixed {α : Type} {edit : Edit α} (h : edit.Leads Evolves v fun _ _ => True)
    (hspares : edit.Leads SparesReadings v fun _ _ => True) :
    edit.Leads AddsFixed v fun _ _ => True :=
  (h.both hspares).weaken fun _ h => .of_readings_eq h.1.retains h.2.1

/-- Declaring an object type adds no reading. -/
lemma addsFixed_declareObjectType (name : String) (kind : ObjectTypeKind) (isForward : Bool) :
    (declareObjectType name kind isForward).Leads AddsFixed v fun _ _ => True :=
  leads_addsFixed v (evolves_declareObjectType v name kind isForward)
    (sparesReadings_declareObjectType v name kind isForward)

/-- Mentioning a type before it is declared adds no reading. -/
lemma addsFixed_addForwardEntityType (name : String) :
    (addForwardEntityType name).Leads AddsFixed v fun _ _ => True :=
  leads_addsFixed v (evolves_addForwardEntityType v name)
    (sparesReadings_addForwardEntityType v name)

/-- Making a type a kind of another one adds the readings that say so. -/
lemma addsFixed_addSubtype (a b : ObjectTypeId) :
    (addSubtype a b).Leads AddsFixed v fun _ _ => True :=
  leads_addSubtype_of_withSubtype v (.refl v) (.withSubtype v a b)

/-- Objectifying a fact type adds no reading. -/
lemma addsFixed_objectify (name : String) (f : FactTypeId) :
    (objectify name f).Leads AddsFixed v fun _ _ => True :=
  leads_addsFixed v (evolves_objectify v name f) (sparesReadings_objectify v name f)

/-- A link comes with the reading of its kind. -/
lemma addsFixed_linkFactType (t : ObjectTypeId) (r : RoleId) :
    (linkFactType t r).Leads AddsFixed v fun _ _ => True :=
  ((evolves_linkFactType v t r).both (leads_linkFactType_adds v t r)).weaken fun _ h =>
    .of_addsImplied h.1.retains h.2.toAddsImplied

/-- A comparison comes with the reading of its operator. -/
lemma addsFixed_comparisonFactType (operator : String) (left right : ObjectTypeId) :
    (comparisonFactType operator left right).Leads AddsFixed v fun _ _ => True :=
  ((evolves_comparisonFactType v operator left right).both
    (leads_comparisonFactType_adds v operator left right)).weaken fun _ h =>
      .of_addsImplied h.1.retains h.2.toAddsImplied

/-- Storing a query adds no reading. -/
lemma addsFixed_addQuery (query : JoinGraph) :
    (addQuery query).Leads AddsFixed v fun _ _ => True :=
  leads_addsFixed v (evolves_addQuery v query) (sparesReadings_addQuery v query)

/-- Making a query the derivation of a fact type adds no reading. -/
lemma addsFixed_setDerivation (f : FactTypeId) (query : QueryId) :
    (setDerivation f query).Leads AddsFixed v fun _ _ => True :=
  leads_addsFixed v (evolves_setDerivation v f query) (sparesReadings_setDerivation v f query)

end Edits

end FactModel.Vocabulary
