import FactModel.Proofs.Context.Validity
import FactModel.Proofs.Definition.Assigning
set_option autoImplicit false

/-!
# New fact types and readings keep contexts valid

The roles that a clause as a reading refers to are found among those of the fact type, none of them
twice, and its placeholders are numbered as it goes. So the template and the role sequence suit each
other.

## Main definitions

* `FactModel.ReadingParts` — what is known of the tokens and role references of a clause.

## Main results

* `FactModel.Context.readingParts_of_eq_ok` — the tokens and role references of a clause.
* `FactModel.Compile.leads_makeFactType`, `FactModel.Compile.leads_makeReading`,
  `FactModel.Compile.leads_adjust` — what defining and adjusting readings keeps.
-/

namespace FactModel

open Attempt Compile Context

/-! ## Roles of mentions -/

variable {x : Context} {f : FactTypeId}

/-- The role that is found for a mention is a role of the fact type and not yet taken. -/
lemma Context.roleFor?_spec (h : x.Valid) {m : MentionId} {taken : List RoleId} {r : RoleId}
    (hr : x.roleFor? m f taken = some r) :
    r ∈ x.vocabulary.roleIds ∧ (x.vocabulary.role r).factType = f ∧ r ∉ taken := by
  have havailable : ∀ r, x.isAvailable f taken r →
      (x.vocabulary.role r).factType = f ∧ r ∉ taken := by
    intro r hr
    simpa [isAvailable] using hr
  have horElse : ∀ first second : Option RoleId,
      (first <|> second) = some r → first = some r ∨ second = some r := by
    rintro (- | s) second hs
    · exact .inr hs
    · exact .inl hs
  rcases horElse _ _ hr with hr | hr
  · obtain ⟨hrole, hwanted⟩ := Option.filter_eq_some_iff.1 hr
    exact ⟨h.role_mem m r hrole, havailable r hwanted⟩
  rcases horElse _ _ hr with hr | hr
  · unfold roleByBinding? at hr
    obtain ⟨b, -, hfind⟩ := Option.bind_eq_some_iff.1 hr
    have hmem := List.mem_of_find?_eq_some hfind
    obtain ⟨sibling, -, hrole⟩ := List.mem_filterMap.1 hmem
    exact ⟨h.role_mem sibling r hrole, havailable r (List.find?_some hfind)⟩
  · unfold roleByReading? at hr
    obtain ⟨ref, hfind, rfl⟩ := Option.map_eq_some_iff.1 hr
    obtain ⟨reading, -, href⟩ := List.mem_flatMap.1 (List.mem_of_find?_eq_some hfind)
    have hwanted := List.find?_some hfind
    simp only [Bool.and_eq_true] at hwanted
    exact ⟨h.consistent.ref_mem _ ref href, havailable ref.role hwanted.1.1.1⟩

/-! ## The parts of a reading -/

/-- What is known of the tokens of phrases and of the role references after them, those before them
being given: the words can be read back, the placeholders are numbered in order, and the roles are
different roles of the fact type. -/
structure ReadingParts (v : Vocabulary) (f : FactTypeId) (refs : List RoleRef)
    (tokens : List Template.Token) (later : List RoleRef) : Prop where
  prefix_later : refs <+: later
  isWritten : ∀ t ∈ tokens, t.IsWritten
  places_eq : Template.places tokens = List.range' refs.length (later.length - refs.length)
  role_mem : (∀ ref ∈ refs, ref.role ∈ v.roleIds) → ∀ ref ∈ later, ref.role ∈ v.roleIds
  role_factType : (∀ ref ∈ refs, (v.role ref.role).factType = f) →
    ∀ ref ∈ later, (v.role ref.role).factType = f
  roles_nodup : (refs.map (·.role)).Nodup → (later.map (·.role)).Nodup

/-- The tokens and role references of phrases of plain words.

**Proof sketch.** By induction on the phrases. A slot gets the number of role references before it
and adds one whose role is not among them. -/
theorem Context.readingParts_of_eq_ok (h : x.Valid) (c : Clause) {ps : List Phrase}
    {refs later : List RoleRef} {tokens : List Template.Token} (hplain : ∀ p ∈ ps, p.IsPlain)
    (hparts : x.readingParts c f ps refs = .ok (tokens, later)) :
    ReadingParts x.vocabulary f refs tokens later := by
  have hassigns := assigns_of_readingParts hparts
  clear hparts
  induction hassigns with
  | nil => exact ⟨List.prefix_rfl, fun _ ht => (nomatch ht), by simp [Template.places], id, id, id⟩
  | @word text refs later ps tokens _ ih =>
    have hih := ih fun q hq => hplain q (List.mem_cons_of_mem _ hq)
    refine { hih with isWritten := fun t ht => ?_ }
    rcases List.mem_cons.1 ht with rfl | ht
    · exact hplain (.word text) List.mem_cons_self
    · exact hih.isWritten t ht
  | @slot s r refs later ps tokens hrole _ ih =>
    obtain ⟨hmem, hfactType, hfresh⟩ := roleFor?_spec h hrole
    have hih := ih fun q hq => hplain q (List.mem_cons_of_mem _ hq)
    have hlength := hih.prefix_later.length_le
    rw [List.length_append, List.length_singleton] at hlength
    refine ⟨(List.prefix_append ..).trans hih.prefix_later, fun t ht => ?_, ?_, fun hrefs => ?_,
      fun hrefs => ?_, fun hrefs => ?_⟩
    · rcases List.mem_cons.1 ht with rfl | ht
      · exact trivial
      · exact hih.isWritten t ht
    · have hplaces := hih.places_eq
      rw [List.length_append, List.length_singleton] at hplaces
      have hcount : later.length - refs.length = later.length - (refs.length + 1) + 1 := by
        omega
      rw [hcount, List.range'_succ, ← hplaces]
      rfl
    · refine hih.role_mem fun ref href => ?_
      rcases List.mem_append.1 href with href | href
      · exact hrefs ref href
      · rw [List.mem_singleton.1 href]
        exact hmem
    · refine hih.role_factType fun ref href => ?_
      rcases List.mem_append.1 href with href | href
      · exact hrefs ref href
      · rw [List.mem_singleton.1 href]
        exact hfactType
    · refine hih.roles_nodup ?_
      rw [List.map_append]
      refine List.nodup_append.2 ⟨hrefs, List.pairwise_singleton .., fun r hr r' hr' => ?_⟩
      rw [List.mem_singleton.1 hr']
      rintro rfl
      exact hfresh hr

/-- There is one role reference for each slot of the phrases. -/
lemma Context.length_of_readingParts (c : Clause) {ps : List Phrase} {refs later : List RoleRef}
    {tokens : List Template.Token} (h : x.readingParts c f ps refs = .ok (tokens, later)) :
    later.length = refs.length + (ps.flatMap Phrase.slots).length := by
  induction ps generalizing refs tokens later with
  | nil =>
    cases h
    rfl
  | cons p ps ih =>
    cases p with
    | word text =>
      rw [readingParts] at h
      dsimp only [Bind.bind, Except.bind] at h
      split at h
      · cases h
      next rest hrest =>
      cases h
      exact ih hrest
    | slot s =>
      rw [readingParts] at h
      split at h
      · cases h
      next role _ =>
      dsimp only [Bind.bind, Except.bind] at h
      split at h
      · cases h
      next rest hrest =>
      cases h
      rw [ih hrest, List.length_append, List.flatMap_cons, List.length_append, Nat.add_assoc]
      rfl
    | comparison operator left right =>
      rw [readingParts] at h
      cases h

/-- The parts of a whole clause make a reading of the fact type. -/
lemma ReadingParts.suits {v : Vocabulary} {tokens : List Template.Token} {refs : List RoleRef}
    {s : RoleSequenceId} (h : ReadingParts v f [] tokens refs) (hf : f ∈ v.factTypeIds)
    (hs : s ∈ v.roleSequenceIds) (hrefs : (v.roleSequence s).refs = refs) :
    v.Suits f s (Template.render tokens) := by
  have hplaces := Template.places_tokens_render h.isWritten
  rw [h.places_eq] at hplaces
  refine ⟨hf, hs, fun n hn => ?_, hplaces.nodup List.nodup_range', ?_, ?_⟩
  · have hrange := List.mem_range'_1.1 (hplaces.subset hn)
    rw [hrefs]
    simpa using hrange.2
  · rw [hrefs]
    exact h.role_factType fun _ href => nomatch href
  · rw [hrefs]
    exact h.roles_nodup List.nodup_nil

namespace Compile

/-! ## New fact types -/

/-- Making a role of a stated fact type extends a valid context. -/
lemma leads_makeRole (h : x.Valid) (hf : f ∈ x.vocabulary.factTypeIds)
    (hstated : (x.vocabulary.factType f).isStated) (m : MentionId) :
    (makeRole f m).Leads Extends x fun _ y => y.Extends y := by
  refine Leads.bind (leads_playerOf_mem h m) fun player y hy hplayer => leads_get_bind ?_
  have hf' := hy.grows.mem_factTypeIds hf
  have hstated' : (y.vocabulary.factType f).isStated := by
    rwa [FactType.isStated, (hy.grows.factType hf).kind_eq]
  refine Leads.bind (leads_edit hy.valid (Vocabulary.leads_addRole hy.valid.consistent hf' hstated'
    hplayer (y.mention m).declaredName?)) fun r z hz hr => ?_
  refine (leads_modifyMention hz.valid m _ (hz.valid.player_mem m) ?_).imp
    fun _ w hw _ => hw.valid.extends
  rintro r' ⟨⟩
  exact hr.2.1

/-- A new fact type exists, and the clause is otherwise as it was. -/
theorem leads_makeFactType (h : x.Valid) (c : Clause) :
    (makeFactType c).Leads Extends x fun r y =>
      r.1 ∈ y.vocabulary.factTypeIds ∧ ∃ f, r.2 = { c with factType := some f } := by
  refine Leads.bind (leads_edit h (Vocabulary.leads_newFactType h.consistent rfl))
    fun f y hy hf => ?_
  obtain ⟨-, hf, hkind⟩ := hf
  have hstated : (y.vocabulary.factType f).isStated := by rw [FactType.isStated, hkind]
  refine Leads.bind (Leads.forM hy.valid.extends fun m _ z hz => ?_) fun _ z hz _ => ?_
  · have hstated' : (z.vocabulary.factType f).isStated := by
      rwa [FactType.isStated, (hz.grows.factType hf).kind_eq]
    exact leads_makeRole hz.valid (hz.grows.mem_factTypeIds hf) hstated' m
  · exact leads_pure hz.valid.extends ⟨hz.grows.mem_factTypeIds hf, f, rfl⟩

/-! ## New readings -/

/-- The roles of mentions may be recorded if they exist. -/
lemma leads_giveRoles (h : x.Valid) (ms : List MentionId) {refs : List RoleRef}
    (hrefs : ∀ ref ∈ refs, ref.role ∈ x.vocabulary.roleIds) :
    (giveRoles ms refs).Leads Extends x fun _ _ => True := by
  refine Leads.forM h.extends fun item hitem y hy => ?_
  refine (leads_modifyMention hy.valid item.1 _ (hy.valid.player_mem item.1) ?_).imp
    fun _ z hz _ => hz.valid.extends
  rintro r ⟨⟩
  exact hy.grows.mem_roleIds (hrefs _ (List.of_mem_zip hitem).2)

/-- The places of mentions in a role sequence may be recorded. -/
lemma leads_placeMentions (h : x.Valid) (s : RoleSequenceId) (ms : List MentionId) :
    (placeMentions s ms).Leads Extends x fun _ _ => True := by
  refine Leads.forM h.extends fun item _ y hy => ?_
  exact (leads_modifyMention hy.valid item.1 _ (hy.valid.player_mem item.1)
    (hy.valid.role_mem item.1)).imp fun _ z hz _ => hz.valid.extends

/-- A clause becomes a reading of a fact type that exists. -/
theorem leads_makeReading (h : x.Valid) {c : Clause} (hplain : ∀ p ∈ c.phrases, p.IsPlain)
    (hf : f ∈ x.vocabulary.factTypeIds) :
    (makeReading c f).Leads Extends x fun r y => r.2.InRange y.vocabulary := by
  refine leads_get_bind (leads_ofExcept_bind h.extends fun parts hparts => ?_)
  obtain ⟨tokens, refs⟩ := parts
  have hspec := readingParts_of_eq_ok h c hplain hparts
  have hmem := hspec.role_mem fun _ href => nomatch href
  refine Leads.bind (leads_edit h (Vocabulary.leads_addRoleSequence h.consistent hmem))
    fun s y hy hs => ?_
  have hspec' : ReadingParts y.vocabulary f [] tokens refs :=
    { hspec with
      role_mem := fun _ ref href => hy.grows.mem_roleIds (hmem ref href)
      role_factType := fun _ ref href => by
        rw [(hy.grows.role (hmem ref href)).factType_eq]
        exact hspec.role_factType (fun _ href => nomatch href) ref href }
  have hsuits := hspec'.suits (hy.grows.mem_factTypeIds hf) hs.1 hs.2
  refine Leads.bind (leads_edit hy.valid (Vocabulary.leads_addReading hy.valid.consistent hsuits _))
    fun r z hz hr => ?_
  have hrefs : ∀ ref ∈ refs, ref.role ∈ z.vocabulary.roleIds := fun ref href =>
    hz.grows.mem_roleIds (hy.grows.mem_roleIds (hmem ref href))
  refine Leads.bind (leads_giveRoles hz.valid c.mentions hrefs) fun _ w hw _ => ?_
  refine Leads.bind (leads_placeMentions hw.valid s c.mentions) fun _ u hu _ => ?_
  refine leads_pure hu.valid.extends ⟨hplain, ?_, ?_⟩
  · rintro r' ⟨⟩
    exact hu.grows.mem_readingIds (hw.grows.mem_readingIds hr.1)
  · rintro s' ⟨⟩
    exact hu.grows.mem_roleSequenceIds (hw.grows.mem_roleSequenceIds
      (hz.grows.mem_roleSequenceIds hs.1))

/-! ## Adjusting to a reading -/

/-- Naming a role extends a valid context. -/
lemma leads_nameMatchedRole (h : x.Valid) (m : MentionId) :
    (nameMatchedRole m).Leads Extends x fun _ y => y.Extends y := by
  refine leads_get_bind ?_
  dsimp only
  split
  · next role name _ _ =>
    exact (leads_edit h (Vocabulary.leads_nameRole h.consistent role name)).imp
      fun _ y hy _ => hy.valid.extends
  · exact leads_pure h.extends h.extends

/-- The roles that mentions have exist. -/
lemma residualRefs_mem (h : x.Valid) (c : Clause) {ms : List MentionId} {refs : List RoleRef}
    (hrefs : x.residualRefs c ms = .ok refs) : ∀ ref ∈ refs, ref.role ∈ x.vocabulary.roleIds := by
  induction ms generalizing refs with
  | nil =>
    cases hrefs
    exact fun _ href => nomatch href
  | cons m ms ih =>
    rw [residualRefs] at hrefs
    split at hrefs
    · cases hrefs
    next role hrole =>
    dsimp only [Bind.bind, Except.bind] at hrefs
    split at hrefs
    · cases hrefs
    next rest hrest =>
    cases hrefs
    intro ref href
    rcases List.mem_cons.1 href with rfl | href
    · exact h.role_mem m role hrole
    · exact ih hrest ref href

/-- A clause that invokes a reading is adjusted to it. -/
theorem leads_adjust (h : x.Valid) {c : Clause} (hc : c.InRange x.vocabulary) :
    (adjust c).Leads Extends x fun d y => d.InRange y.vocabulary := by
  unfold adjust
  split
  · exact leads_pure h.extends hc
  · refine Leads.bind (Leads.forM h.extends fun m _ y hy => leads_nameMatchedRole hy.valid m)
      fun _ y hy _ => leads_get_bind ?_
    have hc' := hc.grows hy.grows
    split
    · exact leads_pure hy.valid.extends hc'
    · refine leads_ofExcept_bind hy.valid.extends fun refs hrefs => ?_
      refine Leads.bind (leads_edit hy.valid (Vocabulary.leads_addRoleSequence hy.valid.consistent
        (residualRefs_mem hy.valid c hrefs))) fun s z hz hs => ?_
      refine Leads.bind (leads_placeMentions hz.valid s c.mentions) fun _ w hw _ => ?_
      refine leads_pure hw.valid.extends
        { (hc'.grows hz.grows).grows hw.grows with roleSequence_mem := ?_ }
      rintro s' ⟨⟩
      exact hw.grows.mem_roleSequenceIds hs.1

end Compile

end FactModel
