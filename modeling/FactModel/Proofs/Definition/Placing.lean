import FactModel.Proofs.Definition.Constraining
set_option autoImplicit false

/-!
# Places of mentions

A mention that has a role has a place as well: a position in the role sequence that its clause is
stated by. A match takes the place from the reading, where it is that of the placeholder which the
mention has taken. A clause that becomes a reading, or gets a role sequence of its own, has its
mentions placed in their order. In the end all mentions stand in order.

## Main definitions

* `FactModel.Context.Located` — each mention of a clause has the role that stands in its place.
* `FactModel.Context.InOrder` — the mentions of a clause have their places in order.
* `FactModel.Context.LinesUp` — the mentions of a clause line up with its role sequence.

## Main results

* `FactModel.Compile.located_resolveAllStated` — a match gives each mention the place of its role.
* `FactModel.Compile.placed_stateReadings` — each clause is located in what it invokes, or its
  mentions are in order.
* `FactModel.Compile.linesUp_defineFactType` — after a definition each clause lines up.
-/

namespace FactModel

open Attempt Compile

namespace Context

variable {x y z : Context} {f : FactTypeId} {c d : Clause} {s : RoleSequenceId}
  {may : MentionId → Prop}

/-! ## Places -/

/-- Each mention of a clause has a place in the role sequence of the clause, and the role that
stands there. -/
structure Located (x : Context) (c : Clause) (s : RoleSequenceId) : Prop where
  roleSequence_eq : c.roleSequence = some s
  roleSequence_mem : s ∈ x.vocabulary.roleSequenceIds
  place : ∀ m ∈ c.mentions, ∃ k, (x.mention m).roleRef = some (s, k) ∧
    ∃ r, (x.vocabulary.roleSequence s).roles[k]? = some r ∧ (x.mention m).role = some r

/-- The mentions have their places in a role sequence in order. -/
def InOrder (x : Context) (s : RoleSequenceId) (ms : List MentionId) : Prop :=
  ∀ i m, ms[i]? = some m → (x.mention m).roleRef = some (s, i)

/-- A clause of the fact type has its mentions in order, or it is located in its role sequence. -/
structure Placed (x : Context) (f : FactTypeId) (c : Clause) : Prop where
  factType_eq : c.factType = some f
  place : ∃ s, c.roleSequence = some s ∧ (x.InOrder s c.mentions ∨ x.Located c s)

/-- The mentions of a clause line up with its role sequence: the clause is of the fact type, its
role sequence has a reference for each mention, each mention has its own position for a place and
the role that stands there, and these are different roles of the fact type. -/
structure LinesUp (x : Context) (f : FactTypeId) (c : Clause) (s : RoleSequenceId) : Prop where
  factType_eq : c.factType = some f
  roleSequence_eq : c.roleSequence = some s
  length_eq : (x.vocabulary.roleSequence s).refs.length = c.mentions.length
  place : ∀ i m, c.mentions[i]? = some m → (x.mention m).roleRef = some (s, i) ∧
    ∃ ref, (x.vocabulary.roleSequence s).refs[i]? = some ref ∧ (x.mention m).role = some ref.role
  nodup : (x.vocabulary.roleSequence s).roles.Nodup
  mem : ∀ r ∈ (x.vocabulary.roleSequence s).roles, r ∈ x.vocabulary.roleIds ∧
    (x.vocabulary.role r).factType = f

/-- Mentions stay located while others change. -/
lemma Located.later (h : x.Located c s) (hgrows : x.vocabulary.Grows y.vocabulary)
    (hchanges : x.ChangesOnly may y) (hdisjoint : ∀ m ∈ c.mentions, ¬may m) : y.Located c s := by
  refine ⟨h.roleSequence_eq, hgrows.mem_roleSequenceIds h.roleSequence_mem, fun m hm => ?_⟩
  rw [hchanges m (hdisjoint m hm), hgrows.roleSequence_eq h.roleSequence_mem]
  exact h.place m hm

/-- Mentions stay in order while others change. -/
lemma InOrder.later {ms : List MentionId} (h : x.InOrder s ms) (hchanges : x.ChangesOnly may y)
    (hdisjoint : ∀ m ∈ ms, ¬may m) : y.InOrder s ms := by
  intro i m hm
  rw [hchanges m (hdisjoint m (List.mem_of_getElem? hm))]
  exact h i m hm

/-- A clause stays placed while other mentions change. -/
lemma Placed.later (h : x.Placed f c) (hgrows : x.vocabulary.Grows y.vocabulary)
    (hchanges : x.ChangesOnly may y) (hdisjoint : ∀ m ∈ c.mentions, ¬may m) : y.Placed f c := by
  obtain ⟨s, hs, hplace⟩ := h.place
  exact ⟨h.factType_eq, s, hs, hplace.imp (·.later hchanges hdisjoint)
    (·.later hgrows hchanges hdisjoint)⟩

/-- A clause that states a reading and is located in its role sequence has its mentions in order: no
role stands in two places. -/
lemma States.inOrder_of_located (h : x.States f c s) (hlocated : x.Located c s) :
    x.InOrder s c.mentions := by
  intro i m hm
  obtain ⟨k, hplace, r, hr, hrole⟩ := hlocated.place m (List.mem_of_getElem? hm)
  have hown : ((x.vocabulary.roleSequence s).roles.map some)[i]? = some (some r) := by
    rw [← h.roles_eq, List.getElem?_map, hm, Option.map_some, hrole]
  rw [List.getElem?_map] at hown
  obtain ⟨r', hr', heq⟩ := Option.map_eq_some_iff.1 hown
  obtain rfl : r' = r := Option.some.inj heq
  have hlt := (List.getElem?_eq_some_iff.1 hr).1
  obtain rfl : k = i := (List.getElem?_inj hlt h.nodup).1 (hr.trans hr'.symm)
  exact hplace

/-- A clause that states a reading and is placed has its mentions in order. -/
lemma States.inOrder (h : x.States f c s) (hplaced : x.Placed f c) : x.InOrder s c.mentions := by
  obtain ⟨q, hq, hplace⟩ := hplaced.place
  obtain rfl : q = s := Option.some.inj (hq.symm.trans h.roleSequence_eq)
  exact hplace.elim id h.inOrder_of_located

/-- A clause of the fact type that states a reading, its mentions being in order, lines up. -/
lemma States.linesUp (h : x.States f c s) (hx : x.Valid) (hfactType : c.factType = some f)
    (hinOrder : x.InOrder s c.mentions) : x.LinesUp f c s where
  factType_eq := hfactType
  roleSequence_eq := h.roleSequence_eq
  length_eq := by
    have hlength := congrArg List.length h.roles_eq
    rw [List.length_map, List.length_map, RoleSequence.roles, List.length_map] at hlength
    exact hlength.symm
  place i m hm := by
    refine ⟨hinOrder i m hm, ?_⟩
    have hown : ((x.vocabulary.roleSequence s).roles.map some)[i]? = some (x.mention m).role := by
      rw [← h.roles_eq, List.getElem?_map, hm, Option.map_some]
    rw [RoleSequence.roles, List.map_map, List.getElem?_map] at hown
    obtain ⟨ref, href, heq⟩ := Option.map_eq_some_iff.1 hown
    exact ⟨ref, href, heq.symm⟩
  nodup := h.nodup
  mem r hr := hx.consistent.mem_roles.1 (h.mem r hr)

end Context

open Context

namespace Compile

variable {x y z : Context} {f : FactTypeId} {c d : Clause} {cs ds : List Clause}
  {may : MentionId → Prop}

/-! ## Resolving -/

/-- A clause that states a reading is resolved by changing its own mentions. -/
lemma leads_resolveStated_changesOnly (hc : ∀ m ∈ c.allMentions, may m) (x : Context) :
    (resolveStated c).Leads (ChangesOnly may) x fun _ _ => True := by
  unfold resolveStated
  split
  · exact leads_get_bind (leads_throw_bind (.refl x))
  · refine Leads.bind ((resolves_changesOnly _ may).leads_resolve c (.refl x)
      (everywhere_mentions hc)) fun _ y _ _ => leads_pure (.refl y) trivial

/-- Resolving clauses that state readings changes only their mentions. -/
lemma leads_resolveAllStated_changesOnly (hcs : ∀ m ∈ allMentions cs, may m) (x : Context) :
    (resolveAllStated cs).Leads (ChangesOnly may) x fun _ _ => True := by
  induction cs generalizing x with
  | nil => exact leads_pure (.refl x) trivial
  | cons c cs ih =>
    rw [allMentions_cons] at hcs
    refine Leads.bind (leads_resolveStated_changesOnly (fun m hm =>
      hcs m (List.mem_append_left _ hm)) x) fun d y _ _ => ?_
    exact Leads.bind (ih (fun m hm => hcs m (List.mem_append_right _ hm)) y) fun ds z _ _ =>
      leads_pure (.refl z) trivial

/-- Putting a clause into the words of a reading locates it in the role sequence of the reading. -/
lemma ends_applyAlignment_located {options : MatchOptions} {a : Alignment} (hx : x.Valid)
    (hmem : a ∈ (x.rank options c).alignments) (hnodup : c.mentions.Nodup)
    (hsize : ∀ m ∈ c.mentions, m.index < x.mentions.size) :
    (applyAlignment c a).Ends x (fun d y => y.Located d a.roleSequence) fun _ => True := by
  obtain ⟨htried, halign⟩ := mem_rank.1 hmem
  obtain ⟨-, hwalks, -, -, -, hsequence⟩ := align_eq_ok_iff.1 halign
  obtain ⟨-, f, hf⟩ := mem_triedReadings htried
  have hreading := (hx.consistent.mem_readings.1 hf).1
  have hmentions : a.placements.map (·.mention) = c.mentions := hwalks.mentions_eq
  have hreverse : (a.placements.reverse.map (·.mention)).Nodup := by
    rw [List.map_reverse, List.nodup_reverse, hmentions]
    exact hnodup
  have hplaces : (applyAlignment c a).Ends x (fun _ y =>
      ∀ p ∈ a.placements, (y.mention p.mention).roleRef = some (a.roleSequence, p.roleRef))
      fun _ => True := by
    refine ends_bind.2 ((ends_applyPlacements_mention Mention.roleRef (fun _ _ => rfl)
      a.roleSequence (fun p => some (a.roleSequence, p.roleRef)) (fun _ _ => rfl) hreverse
      fun p hp => hsize _ (hmentions ▸ List.mem_map_of_mem (List.mem_reverse.1 hp))).imp
        (fun _ y hy => ?_) fun _ => id)
    exact fun p hp => hy p (List.mem_reverse.2 hp)
  refine (Ends.and (ends_applyAlignment_role halign hnodup hsize) hplaces).imp ?_
    fun _ _ => trivial
  rintro d y ⟨⟨rfl, hvocabulary, hroles⟩, hy⟩
  refine ⟨rfl, ?_, fun m hm => ?_⟩
  · rw [hvocabulary, hsequence]
    exact hx.consistent.reading_roleSequence_mem _ hreading
  · have hsame : (c.aligned a).mentions = a.placements.map (·.mention) := by
      rw [hmentions, Clause.mentions, Clause.slots_aligned halign, ← Clause.mentions]
    rw [hsame, List.map_map, List.map_inj_left] at hroles
    obtain ⟨p, hp, rfl⟩ := List.mem_map.1 (hsame ▸ hm)
    obtain ⟨ref, href, hrole⟩ := hwalks.role_eq hp
    refine ⟨p.roleRef, hy p hp, p.role, ?_, hroles p hp⟩
    rw [hvocabulary, hsequence, RoleSequence.roles, List.getElem?_map, hrole]
    exact congrArg (Option.map _) href

/-- A clause that comes to invoke a reading is located in its role sequence. -/
lemma ends_invokeReading_located (options : MatchOptions) (hx : x.Valid)
    (hnodup : c.mentions.Nodup) (hsize : ∀ m ∈ c.mentions, m.index < x.mentions.size) :
    (invokeReading options c).Ends x (fun r y => ∀ d ∈ r, ∃ s, y.Located d s) fun _ => True := by
  refine ends_bind.2 (ends_get.2 (ends_bind.2 (ends_ofExcept.2 ?_)))
  split
  · next r hselect =>
    cases r with
    | none =>
      rintro d ⟨⟩
    | some a =>
      refine ends_map.2 ((ends_applyAlignment_located hx (mem_of_select hselect) hnodup hsize).imp
        (fun d y hd => ?_) fun _ => id)
      rintro _ ⟨⟩
      exact ⟨_, hd⟩
  · trivial

/-- A clause that states a reading is located in what it comes to invoke. -/
lemma located_resolveStated (hx : x.Ready [c]) (h : (resolveStated c).perform x = (.ok d, y)) :
    d.reading.isSome → ∃ s, y.Located d s := by
  intro hread
  rcases resolveStated_of_invokeReading (P := fun d y => ∃ s, y.Located d s)
    (fun hy hnodup hsize => ends_invokeReading_located _ hy hnodup hsize) hx h
    with hlocated | ⟨⟨_, -, rfl⟩, -, -⟩
  · exact hlocated
  · rw [show c.reading = none from hx.unread c List.mem_cons_self] at hread
    cases hread

/-- Clauses that state readings are located in what they come to invoke.

**Proof sketch.** By induction on the clauses. Resolving a clause changes its own mentions only. -/
theorem located_resolveAllStated (hx : x.Ready cs)
    (h : (resolveAllStated cs).perform x = (.ok ds, y)) :
    ∀ d ∈ ds, d.reading.isSome → ∃ s, y.Located d s := by
  induction cs generalizing x ds with
  | nil =>
    cases h
    exact List.forall_mem_nil _
  | cons c cs ih =>
    obtain ⟨d, z, hfirst, hrest⟩ := perform_bind_eq_ok.1 h
    obtain ⟨es, z', hmore, hpure⟩ := perform_bind_eq_ok.1 hrest
    cases hpure
    rw [← List.singleton_append] at hx
    have hnodup := List.nodup_append'.1 (allMentions_cons c cs ▸ hx.nodup)
    have hsustains := ((defines_sustains x.mentions.size).resolveStated c hx.sustains).of_perform
      hfirst |>.1
    obtain ⟨hgives, hkeeps, -⟩ := told_resolveStated hx.append_left hfirst
    have hready : z.Ready cs := Ready.later hx.append_right hgives
      (fun m hm hmem => hnodup.2.2 hmem hm) hsustains
    refine List.forall_mem_cons.2 ⟨fun hread => ?_, ih hready hmore⟩
    obtain ⟨s, hs⟩ := located_resolveStated hx.append_left hfirst hread
    have hgrows := ((leads_resolveAllStated hready.valid fun c hc =>
      (hready.fits c hc).imp fun _ hd => hd.valid).of_perform hmore).1.grows
    have hchanges := ((leads_resolveAllStated_changesOnly (fun _ => id) z).of_perform hmore).1
    refine ⟨s, hs.later hgrows hchanges fun m hm hmem => hnodup.2.2 ?_ hmem⟩
    exact hkeeps.allMentions_eq ▸ d.mentions_subset_allMentions hm

/-! ## Stating readings -/

/-- Placing mentions changes only them. -/
lemma leads_placeMentions_changesOnly {ms : List MentionId} (hms : ∀ m ∈ ms, may m)
    (s : RoleSequenceId) (x : Context) :
    (placeMentions s ms).Leads (ChangesOnly may) x fun _ _ => True :=
  Leads.forM (.refl x) fun _ hp _ _ =>
    leads_modify (.modifyMention (hms _ (List.fst_mem_of_mem_zipIdx hp)) _) (.refl _)

/-- Making a reading changes only the mentions of its clause. -/
lemma leads_makeReading_changesOnly (hc : ∀ m ∈ c.mentions, may m) (f : FactTypeId) (x : Context) :
    (makeReading c f).Leads (ChangesOnly may) x fun _ _ => True := by
  refine leads_get_bind (leads_ofExcept_bind (.refl x) fun parts _ => ?_)
  refine Leads.bind (keeps_edit_changesOnly (Vocabulary.addRoleSequence _) (.refl x))
    fun s y _ _ => ?_
  refine Leads.bind (keeps_edit_changesOnly (Vocabulary.addReading f s _ _) (.refl y))
    fun r z _ _ => ?_
  refine Leads.bind (Leads.forM (.refl z) fun p hp w _ => ?_) fun _ w _ _ => ?_
  · exact leads_modify (.modifyMention (hc p.1 (List.of_mem_zip hp).1) _) (.refl _)
  · exact Leads.bind (leads_placeMentions_changesOnly hc s w) fun _ u _ _ =>
      leads_pure (.refl u) trivial

/-- Changing only certain mentions composes. -/
lemma composes_changesOnly : Composes fun change => change.Keeps (ChangesOnly may) :=
  composes_keeps fun _ => .refl _

/-- Naming a role changes no mention. -/
lemma keeps_nameMatchedRole_changesOnly (m : MentionId) :
    (nameMatchedRole m).Keeps (ChangesOnly may) := by
  intro y _
  refine leads_get_bind ?_
  dsimp only
  split
  · exact keeps_edit_changesOnly (Vocabulary.nameRole _ _) (.refl y)
  · exact leads_pure (.refl y) trivial

/-- Adjusting a clause to a reading changes only its mentions. -/
lemma leads_adjust_changesOnly (hc : ∀ m ∈ c.mentions, may m) (x : Context) :
    (adjust c).Leads (ChangesOnly may) x fun _ _ => True := by
  unfold adjust
  split
  · exact leads_pure (.refl x) trivial
  refine Leads.bind (composes_changesOnly.forM keeps_nameMatchedRole_changesOnly c.mentions
    (.refl x)) fun _ y _ _ => leads_get_bind ?_
  split
  · exact leads_pure (.refl y) trivial
  refine leads_ofExcept_bind (.refl y) fun refs _ => ?_
  refine Leads.bind (keeps_edit_changesOnly (Vocabulary.addRoleSequence refs) (.refl y))
    fun s z _ _ => ?_
  exact Leads.bind (leads_placeMentions_changesOnly hc s z) fun _ w _ _ =>
    leads_pure (.refl w) trivial

/-- Stating readings changes only the mentions of the clauses. -/
lemma leads_stateReadings_changesOnly (hcs : ∀ m ∈ allMentions cs, may m) (f : FactTypeId)
    (x : Context) : (stateReadings f cs).Leads (ChangesOnly may) x fun _ _ => True := by
  induction cs generalizing x with
  | nil => exact leads_pure (.refl x) trivial
  | cons c cs ih =>
    rw [allMentions_cons] at hcs
    have hown : ∀ m ∈ c.mentions, may m := fun m hm =>
      hcs m (List.mem_append_left _ (c.mentions_subset_allMentions hm))
    have hrest := ih fun m hm => hcs m (List.mem_append_right _ hm)
    unfold stateReadings
    split
    · exact Leads.bind (leads_adjust_changesOnly hown x) fun _ y _ _ =>
        Leads.bind (hrest y) fun _ z _ _ => leads_pure (.refl z) trivial
    · have hreading : ((·.2) <$> makeReading c f).Leads (ChangesOnly may) x fun _ _ => True :=
        Leads.map (leads_makeReading_changesOnly hown f x)
      exact Leads.bind hreading fun _ y _ _ =>
        Leads.bind (hrest y) fun _ z _ _ => leads_pure (.refl z) trivial

/-- Each mention gets its position for a place.

**Proof sketch.** By induction on the mentions, from any position on. Those behind a mention are
different from it, so that it keeps its place. -/
lemma ends_placeMentions_inOrder {ms : List MentionId} (s : RoleSequenceId) (hnodup : ms.Nodup)
    (hsize : ∀ m ∈ ms, m.index < x.mentions.size) :
    (placeMentions s ms).Ends x (fun _ y => y.InOrder s ms) fun _ => True := by
  suffices hfrom : ∀ start, ((ms.zipIdx start).forM fun p =>
      modifyMention p.1 ({ · with roleRef := some (s, p.2) }) : Compile PUnit).Ends x
        (fun _ y => (∀ i m, ms[i]? = some m → (y.mention m).roleRef = some (s, start + i)) ∧
          ∀ m, m ∉ ms → y.mention m = x.mention m) fun _ => True by
    refine Ends.imp (hfrom 0) (fun _ y hy i m hm => ?_) fun _ => id
    rw [hy.1 i m hm, Nat.zero_add]
  induction ms generalizing x with
  | nil => exact fun start => ⟨fun i m hm => absurd hm (by simp), fun _ _ => rfl⟩
  | cons n ms ih =>
    intro start
    rw [List.nodup_cons] at hnodup
    rw [List.zipIdx_cons]
    refine ends_bind.2 (ends_modify.2 ?_)
    refine (ih hnodup.2 (fun m hm => ?_) (start + 1)).imp ?_ fun _ => id
    · exact (Array.size_modify ..).symm ▸ hsize m (List.mem_cons_of_mem n hm)
    rintro _ y ⟨hplaced, hkept⟩
    refine ⟨fun i m hm => ?_, fun m hm => ?_⟩
    · cases i with
      | zero =>
        cases hm
        rw [hkept n hnodup.1, mention_modifyMention, if_pos ⟨rfl, hsize n List.mem_cons_self⟩,
          Nat.add_zero]
      | succ i =>
        rw [hplaced i m hm]
        congr 2
        omega
    · rw [List.mem_cons, not_or] at hm
      have hne : ¬(m = n ∧ n.index < x.mentions.size) := fun h => hm.1 h.1
      rw [hkept m hm.2, mention_modifyMention, if_neg hne]

/-- A clause that becomes a reading has its mentions in order. -/
lemma placed_makeReading {n : Nat} {r : ReadingId} (hsustains : x.Sustains n x)
    (hnodup : c.mentions.Nodup) (hsize : ∀ m ∈ c.mentions, m.index < n)
    (h : (makeReading c f).perform x = (.ok (r, d), y)) :
    d.mentions = c.mentions ∧ y.Placed f d := by
  have hdefines := defines_sustains n
  rw [makeReading, perform_get_bind] at h
  obtain ⟨parts, z, hparts, hrest⟩ := perform_bind_eq_ok.1 h
  obtain ⟨-, rfl⟩ := perform_ofExcept_eq_ok.1 hparts
  obtain ⟨s, z₁, hsequence, hrest⟩ := perform_bind_eq_ok.1 hrest
  obtain ⟨r', z₂, hreading, hrest⟩ := perform_bind_eq_ok.1 hrest
  obtain ⟨_, z₃, hroles, hrest⟩ := perform_bind_eq_ok.1 hrest
  obtain ⟨_, u, hplaces, hpure⟩ := perform_bind_eq_ok.1 hrest
  cases hpure
  have h₁ := ((hdefines.roleSequence parts.2 hsustains).of_perform hsequence).1.refl_right
  have h₂ := ((hdefines.reading _ _ _ _ h₁).of_perform hreading).1.refl_right
  have h₃ := ((hdefines.giveRoles c.mentions parts.2 h₂).of_perform hroles).1
  refine ⟨rfl, rfl, s, rfl, .inl ?_⟩
  exact (ends_placeMentions_inOrder s hnodup fun m hm =>
    (hsize m hm).trans_le h₃.carries.le_size).of_perform hplaces

/-- A clause that invokes a reading stays located in its role sequence, or gets one in which its
mentions are in order. -/
lemma placed_adjust {n : Nat} {s : RoleSequenceId} (hx : x.Valid) (hc : c.InRange x.vocabulary)
    (hsustains : x.Sustains n x) (hnodup : c.mentions.Nodup)
    (hsize : ∀ m ∈ c.mentions, m.index < n) (hfactType : c.factType = some f)
    (hlocated : x.Located c s) (h : (adjust c).perform x = (.ok d, y)) :
    d.mentions = c.mentions ∧ y.Placed f d := by
  have hdefines := defines_sustains n
  have hgrows := ((leads_adjust hx hc).of_perform h).1.grows
  unfold adjust at h
  rw [hlocated.roleSequence_eq] at h
  obtain ⟨_, z, hnamed, hrest⟩ := perform_bind_eq_ok.1 h
  have hchanges : x.ChangesOnly (fun _ => False) z := ((composes_changesOnly.forM
    keeps_nameMatchedRole_changesOnly c.mentions (.refl x)).of_perform hnamed).1
  rw [perform_get_bind] at hrest
  split at hrest
  · cases hrest
    exact ⟨rfl, hfactType, s, hlocated.roleSequence_eq,
      .inr (hlocated.later hgrows hchanges fun _ _ => id)⟩
  · obtain ⟨refs, z', hresidual, hadjusted⟩ := perform_bind_eq_ok.1 hrest
    obtain ⟨-, rfl⟩ := perform_ofExcept_eq_ok.1 hresidual
    obtain ⟨adjusted, w, hsequence, hplaced⟩ := perform_bind_eq_ok.1 hadjusted
    obtain ⟨_, u, hplaces, hpure⟩ := perform_bind_eq_ok.1 hplaced
    cases hpure
    have hz := ((hdefines.toComposes.forM hdefines.nameMatchedRole c.mentions hsustains).of_perform
      hnamed).1.refl_right
    have hw := ((hdefines.roleSequence refs hz).of_perform hsequence).1
    refine ⟨rfl, hfactType, adjusted, rfl, .inl ?_⟩
    exact (ends_placeMentions_inOrder adjusted hnodup fun m hm =>
      (hsize m hm).trans_le hw.carries.le_size).of_perform hplaces

/-- Clauses of which one fact type is declared come to be of it. A clause that invokes a reading
stays located in its role sequence, or gets one in which its mentions are in order, and so does one
that becomes a reading.

**Proof sketch.** By induction on the clauses. Stating a reading changes the mentions of its clause
only, so the clauses behind it are still located and those before it keep their places. -/
theorem placed_stateReadings {n : Nat} (hx : x.Valid) (hsustains : x.Sustains n x)
    (hf : f ∈ x.vocabulary.factTypeIds) (hcs : ∀ c ∈ cs, c.InRange x.vocabulary ∧
      (c.reading.isSome → c.factType = some f ∧ ∃ s, x.Located c s))
    (hnodup : (allMentions cs).Nodup) (hsize : ∀ m ∈ allMentions cs, m.index < n)
    (h : (stateReadings f cs).perform x = (.ok ds, y)) : ∀ d ∈ ds, y.Placed f d := by
  induction cs generalizing x ds with
  | nil =>
    cases h
    exact List.forall_mem_nil _
  | cons c cs ih =>
    obtain ⟨hrange, hlocated⟩ := hcs c List.mem_cons_self
    have hsplit := List.nodup_append'.1 (allMentions_cons c cs ▸ hnodup)
    have hown : c.mentions.Nodup :=
      (List.nodup_append'.1 (c.perm_allMentions.nodup_iff.1 hsplit.1)).1
    have hlt : ∀ m ∈ c.mentions, m.index < n := fun m hm => hsize m
      (mem_allMentions_of_mem List.mem_cons_self (c.mentions_subset_allMentions hm))
    have hstep : ∃ d z es, (x.Extends z ∧ x.Sustains n z ∧ x.ChangesOnly (· ∈ c.mentions) z) ∧
        (d.mentions = c.mentions ∧ z.Placed f d) ∧
          (stateReadings f cs).perform z = (.ok es, y) ∧ ds = d :: es := by
      obtain ⟨d, z, es, rfl, hmore, ⟨hread, hadjust⟩ | ⟨-, r, hreads⟩⟩ := stateReadings_cons_eq_ok h
      · obtain ⟨hfactType, s, hs⟩ := hlocated hread
        exact ⟨d, z, es, ⟨((leads_adjust hx hrange).of_perform hadjust).1,
          ((defines_sustains n).adjust c hsustains).of_perform hadjust |>.1,
          ((leads_adjust_changesOnly (fun _ => id) x).of_perform hadjust).1⟩,
          placed_adjust hx hrange hsustains hown hlt hfactType hs hadjust, hmore, rfl⟩
      · exact ⟨d, z, es, ⟨((leads_makeReading hx hrange.isPlain hf).of_perform hreads).1,
          ((defines_sustains n).makeReading c f hsustains).of_perform hreads |>.1,
          ((leads_makeReading_changesOnly (fun _ => id) f x).of_perform hreads).1⟩,
          placed_makeReading hsustains hown hlt hreads, hmore, rfl⟩
    obtain ⟨d, z, es, ⟨hextends, hsustained, hchanges⟩, ⟨hmentions, hplaced⟩, hmore, rfl⟩ := hstep
    have hothers : ∀ e ∈ cs, e.InRange z.vocabulary := fun e he =>
      (hcs e (List.mem_cons_of_mem c he)).1.grows hextends.grows
    have hf' := hextends.grows.mem_factTypeIds hf
    have hfree : ∀ m ∈ allMentions cs, m ∉ c.mentions := fun m hm hmem =>
      hsplit.2.2 (c.mentions_subset_allMentions hmem) hm
    refine List.forall_mem_cons.2 ⟨?_, ih hextends.valid hsustained.refl_right hf' (fun e he =>
      ⟨hothers e he, fun hread => ?_⟩) hsplit.2.1 (fun m hm => hsize m
        (allMentions_cons c cs ▸ List.mem_append_right _ hm)) hmore⟩
    · refine hplaced.later
        ((leads_stateReadings hextends.valid hf' hothers).of_perform hmore).1.grows
        ((leads_stateReadings_changesOnly (fun _ => id) f z).of_perform hmore).1 fun m hm hmem => ?_
      exact hfree m hmem (hmentions ▸ hm)
    · obtain ⟨hfactType, q, hq⟩ := (hcs e (List.mem_cons_of_mem c he)).2 hread
      exact ⟨hfactType, q, hq.later hextends.grows hchanges fun m hm =>
        hfree m (mem_allMentions_of_mem he (e.mentions_subset_allMentions hm))⟩

/-- Before constraints are embedded, all clauses are placed.

**Proof sketch.** If any clause invokes a reading, all that do invoke readings of the fact type that
is declared, and no new fact type is made. -/
lemma placed_stateAll {created : Bool} (hx : x.Ready cs)
    (h : (stateAll cs).perform x = (.ok (f, created, ds), y)) : ∀ d ∈ ds, y.Placed f d := by
  obtain ⟨resolved, y₁, hresolve, hrest⟩ := perform_bind_eq_ok.1 h
  obtain ⟨⟨g, isNew, stated⟩, y₂, hstated, hrest⟩ := perform_bind_eq_ok.1 hrest
  obtain ⟨read, y₃, hread, hpure⟩ := perform_bind_eq_ok.1 hrest
  cases hpure
  obtain ⟨hy₂, hf, -, hranges⟩ := told_stated hx hresolve hstated
  obtain ⟨hsustains, hmentions, -⟩ := isBound_stated hx hresolve hstated
  refine placed_stateReadings hy₂ hsustains.refl_right hf (fun d hd => ?_)
    (hmentions ▸ hx.nodup) (fun m hm => (hx.isBound m (hmentions ▸ hm)).index_lt) hread
  refine ⟨(hranges d hd).1, fun hreads => ?_⟩
  obtain ⟨rfl, rfl, hfactType⟩ := stated_of_reading hx hresolve hstated hd hreads
  exact ⟨hfactType, located_resolveAllStated hx hresolve d hd hreads⟩

/-- **Mentions line up with role sequences.** After a definition every clause is of the fact type,
and its mentions line up with its role sequence.

**Proof sketch.** Each clause states a reading, so its role sequence has the roles of its mentions
in their order, which are different. A clause that a match has located in its role sequence is
stated by it only if the mentions are in that order, and then each has its own position for a place.
Embedding constraints gives neither roles nor places. -/
theorem linesUp_defineFactType {created : Bool} (hx : x.Ready cs) (hi : x.vocabulary.Inherits)
    (hc : x.vocabulary.Constrained)
    (h : (defineFactType cs).perform x = (.ok (f, created, ds), y)) :
    List.Forall₂ Clause.KeepsMentions cs ds ∧ ∀ d ∈ ds, ∃ s, y.LinesUp f d s := by
  obtain ⟨z, hstate, hembed⟩ := perform_defineFactType_eq_ok.1 h
  obtain ⟨hz, -, -, hkeeps, hstates⟩ := states_stateAll hx hi hc hstate
  have hembedded : z.GivesRoles (fun _ => False) y :=
    ⟨((leads_embed hz.valid ds).of_perform hembed).1,
      (embeds_rolesOnly.embed ds (.refl z)).of_perform hembed |>.1⟩
  have hsame := (embeds_sameButConstraints.embed ds (.refl z) |>.of_perform hembed).1
  refine ⟨hkeeps, fun d hd => ?_⟩
  obtain ⟨s, hs⟩ := hstates d hd
  have hplaced := placed_stateAll hx hstate d hd
  refine ⟨s, (hs.gives hembedded fun _ _ => id).linesUp hembedded.valid hplaced.factType_eq
    fun i m hm => ?_⟩
  obtain ⟨_, hmention⟩ := hsame m
  rw [hmention]
  exact hs.inOrder hplaced i m hm

end Compile

end FactModel
