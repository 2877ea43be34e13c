import FactModel.Proofs.Definition.Assigning
import FactModel.Proofs.Matching.Flat
import FactModel.Proofs.Matching.Verbatim
import FactModel.Proofs.Session.Growth
set_option autoImplicit false

/-!
# Creating a fact type by one clause

A clause that invokes nothing creates a fact type with a role for each of its mentions, and a
reading of this fact type whose placeholders stand for these roles in order.

## Main definitions

* `FactModel.Context.Casts` — mentions that have roles of a fact type, each one of its own.
* `FactModel.Compile.Creates` — a clause has created a fact type with a reading.

## Main results

* `FactModel.Compile.casts_makeFactType` — the mentions of a clause get the roles of the new fact
  type.
* `FactModel.Context.readingParts_of_casts` — what becomes of the clause as a reading.
* `FactModel.Compile.creates_defineFactType` — a declaration that creates a fact type by one clause.
-/

namespace FactModel

open Attempt

namespace Context

variable {x y z : Context} {f : FactTypeId} {ms ns : List MentionId} {m : MentionId}

/-! ## Roles of their own -/

/-- The mentions have roles of a fact type, each one of its own, which its player plays. -/
structure Casts (x : Context) (f : FactTypeId) (ms : List MentionId) : Prop where
  role : ∀ m ∈ ms, ∃ r, (x.mention m).role = some r ∧ r ∈ x.vocabulary.roleIds ∧
    (x.vocabulary.role r).factType = f ∧
    (x.mention m).player = some (x.vocabulary.playerOf r)
  inj : ∀ m ∈ ms, ∀ n ∈ ms, (x.mention m).role = (x.mention n).role → m = n

/-- Two contexts in which the mentions differ in their roles at most. -/
def SameButRoles (x y : Context) : Prop :=
  ∀ m, ∃ role, y.mention m = { x.mention m with role }

/-- The mentions of a context do not differ. -/
lemma SameButRoles.refl (x : Context) : x.SameButRoles x :=
  fun _ => ⟨_, rfl⟩

/-- Mentions that differ in roles twice differ in roles. -/
lemma SameButRoles.trans (h : x.SameButRoles y) (h' : y.SameButRoles z) : x.SameButRoles z := by
  intro m
  obtain ⟨role, hy⟩ := h m
  obtain ⟨role', hz⟩ := h' m
  exact ⟨role', by rw [hz, hy]⟩

/-- The role reference of a mention for the role that it has. -/
def ownRef (x : Context) (m : MentionId) : RoleRef where
  role := (x.mention m).role.getD default
  leading := (x.mention m).leading
  trailing := (x.mention m).trailing

/-- A mention that has a role of the fact type stands for it, if it is not yet taken. -/
lemma roleFor?_eq_some {r : RoleId} {taken : List RoleId} (hr : (x.mention m).role = some r)
    (hf : (x.vocabulary.role r).factType = f) (hfree : r ∉ taken) :
    x.roleFor? m f taken = some r := by
  simp [roleFor?, isAvailable, hr, hf, hfree]

/-- A clause whose mentions have roles of their own becomes a reading with these roles in order.

**Proof sketch.** By induction on the steps. The role of a mention is not yet taken, since those
before it have other ones. -/
theorem readingParts_of_casts {c : Clause} (ms : List MentionId) {ps : List Phrase}
    {tokens : List Template.Token} {refs : List RoleRef}
    (h : x.Casts f (ms ++ (ps.flatMap Phrase.slots).map (·.mention)))
    (hnodup : (ms ++ (ps.flatMap Phrase.slots).map (·.mention)).Nodup)
    (hparts : x.readingParts c f ps (ms.map x.ownRef) = .ok (tokens, refs)) :
    (∀ p ∈ ps, p.isStated) ∧ tokens = spelledTokens ps ms.length ∧
      refs = (ms ++ (ps.flatMap Phrase.slots).map (·.mention)).map x.ownRef := by
  have hassigns := assigns_of_readingParts hparts
  refine ⟨hassigns.isStated, by rw [hassigns.tokens_eq, List.length_map], ?_⟩
  clear hparts
  generalize htaken : ms.map x.ownRef = taken at hassigns
  induction hassigns generalizing ms with
  | nil =>
    rw [← htaken]
    simp
  | word _ _ ih => exact ih ms h hnodup htaken
  | @slot s r taken later ps tokens hrole _ ih =>
    have hassoc : ms ++ ((Phrase.slot s :: ps).flatMap Phrase.slots).map (·.mention) =
        (ms ++ [s.mention]) ++ (ps.flatMap Phrase.slots).map (·.mention) := by
      simp [Phrase.slots]
    rw [hassoc] at h hnodup ⊢
    have hmem : s.mention ∈ (ms ++ [s.mention]) ++ (ps.flatMap Phrase.slots).map (·.mention) := by
      simp
    obtain ⟨q, hq, hmemq, hfactType, -⟩ := h.role s.mention hmem
    have hfree : q ∉ taken.map (·.role) := by
      intro hmemq
      rw [← htaken, List.map_map] at hmemq
      obtain ⟨n, hn, hrolen⟩ := List.mem_map.1 hmemq
      have hnmem : n ∈ (ms ++ [s.mention]) ++ (ps.flatMap Phrase.slots).map (·.mention) := by
        simp [hn]
      obtain ⟨r', hr', -⟩ := h.role n hnmem
      have hsame : r' = q := by
        have hget : (x.mention n).role.getD default = q := hrolen
        rwa [hr'] at hget
      obtain rfl := h.inj n hnmem s.mention hmem (by rw [hr', hq, hsame])
      exact (List.nodup_append.1 (List.nodup_append.1 hnodup).1).2.2 _ hn _
        (List.mem_singleton_self _) rfl
    obtain rfl : q = r :=
      Option.some.inj ((roleFor?_eq_some hq hfactType hfree).symm.trans hrole)
    have hown : x.refTo q s.mention = x.ownRef s.mention := by
      rw [ownRef, hq]
      rfl
    refine ih (ms ++ [s.mention]) h hnodup ?_
    rw [List.map_append, List.map_singleton, htaken, hown]

end Context

namespace Compile

open Context

variable {x y : Context} {f : FactTypeId} {ms ns : List MentionId} {m : MentionId} {c d : Clause}

/-! ## A new fact type -/

/-- What a role for a mention consists of. -/
lemma perform_makeRole_eq_ok {u : Unit} (h : (makeRole f m).perform x = (.ok u, y)) :
    ∃ player, (x.mention m).player = some player ∧
      y = { x with vocabulary :=
        x.vocabulary.pushRole f player (x.mention m).declaredName? }.modifyMention
        m ({ · with role := some ⟨x.vocabulary.roles.size⟩ }) := by
  obtain ⟨player, z, hplayer, hrest⟩ := perform_bind_eq_ok.1 h
  obtain ⟨hplayer, rfl⟩ := perform_playerOf_eq_ok.1 hplayer
  rw [perform_get_bind] at hrest
  cases hrest
  exact ⟨player, hplayer, rfl⟩

/-- Another mention gets another role. -/
lemma casts_makeRole {u : Unit} (hx : x.Casts f ms)
    (h : (makeRole f m).perform x = (.ok u, y)) :
    y.Casts f (ms ++ [m]) ∧ x.SameButRoles y ∧
      ∃ player name, y.vocabulary = x.vocabulary.pushRole f player name := by
  obtain ⟨player, hplayer, rfl⟩ := perform_makeRole_eq_ok h
  generalize (x.mention m).declaredName? = name
  have hlt : m.index < x.mentions.size := by
    refine Decidable.of_not_not fun hge => ?_
    rw [mention_of_not_lt hge] at hplayer
    cases hplayer
  have hmention : ∀ n, ({ x with
      vocabulary := x.vocabulary.pushRole f player name }.modifyMention m
        ({ · with role := some ⟨x.vocabulary.roles.size⟩ })).mention n =
      if n = m then { x.mention m with role := some ⟨x.vocabulary.roles.size⟩ }
      else x.mention n := by
    intro n
    rw [mention_modifyMention]
    have hiff : (n = m ∧ m.index < x.mentions.size) ↔ n = m := and_iff_left hlt
    simp only [hiff]
    rfl
  have hrole : ∀ r, (x.vocabulary.pushRole f player name).role r = if r = ⟨x.vocabulary.roles.size⟩
      then { id := ⟨x.vocabulary.roles.size⟩, factType := f
             ordinal := (x.vocabulary.factType f).arity, player, name }
      else x.vocabulary.role r := Vocabulary.role_pushRole f player name
  have hnew : ∀ r ∈ x.vocabulary.roleIds, r ≠ ⟨x.vocabulary.roles.size⟩ := fun r hr heq =>
    Vocabulary.size_not_mem_roleIds (heq ▸ hr)
  generalize hy : ({ x with
    vocabulary := x.vocabulary.pushRole f player name }.modifyMention m
      ({ · with role := some ⟨x.vocabulary.roles.size⟩ })) = y at hmention ⊢
  have hvocabulary : y.vocabulary = x.vocabulary.pushRole f player name := by
    rw [← hy]
    rfl
  refine ⟨⟨fun n hn => ?_, fun n hn n' hn' hsame => ?_⟩, fun n => ?_, player, name, hvocabulary⟩
  · rw [hmention, hvocabulary]
    split
    · refine ⟨⟨x.vocabulary.roles.size⟩, rfl, Vocabulary.mem_roleIds_pushRole.2 (.inl rfl), ?_, ?_⟩
      · rw [hrole, if_pos rfl]
      · rw [Vocabulary.playerOf, hrole, if_pos rfl]
        exact hplayer
    · next hne =>
      have hn : n ∈ ms := (List.mem_append.1 hn).resolve_right fun hn =>
        hne (List.mem_singleton.1 hn)
      obtain ⟨r, hr, hmem, hfactType, hplays⟩ := hx.role n hn
      refine ⟨r, hr, Vocabulary.mem_roleIds_pushRole.2 (.inr hmem), ?_, ?_⟩
      · rw [hrole, if_neg (hnew r hmem), hfactType]
      · rw [Vocabulary.playerOf, hrole, if_neg (hnew r hmem)]
        exact hplays
  · have hold : ∀ k ∈ ms ++ [m], k ≠ m → k ∈ ms ∧
        (y.mention k).role ≠ some ⟨x.vocabulary.roles.size⟩ := by
      intro k hk hne
      have hk : k ∈ ms := (List.mem_append.1 hk).resolve_right fun hk =>
        hne (List.mem_singleton.1 hk)
      obtain ⟨r, hr, hmem, -⟩ := hx.role k hk
      rw [hmention, if_neg hne, hr]
      exact ⟨hk, fun h => hnew r hmem (Option.some.inj h)⟩
    have hm : (y.mention m).role = some ⟨x.vocabulary.roles.size⟩ := by
      rw [hmention, if_pos rfl]
    by_cases hnm : n = m <;> by_cases hnm' : n' = m
    · rw [hnm, hnm']
    · exact absurd (hsame ▸ hnm ▸ hm) (hold n' hn' hnm').2
    · exact absurd (hsame ▸ hnm' ▸ hm) (hold n hn hnm).2
    · rw [hmention, if_neg hnm, hmention, if_neg hnm'] at hsame
      exact hx.inj n (hold n hn hnm).1 n' (hold n' hn' hnm').1 hsame
  · rw [hmention]
    split
    · next heq => exact ⟨_, by rw [heq]⟩
    · exact ⟨_, rfl⟩

/-- Making roles for mentions, one after the other, gives each a role of its own. -/
lemma casts_forM_makeRole {u : Unit} (hx : x.Casts f ms)
    (h : (ns.forM (makeRole f)).perform x = (.ok u, y)) :
    y.Casts f (ms ++ ns) ∧ x.SameButRoles y ∧ ∃ players : List (ObjectTypeId × Option String),
      players.length = ns.length ∧
      y.vocabulary = players.foldl (fun w p => w.pushRole f p.1 p.2) x.vocabulary := by
  induction ns generalizing x ms with
  | nil =>
    cases h
    exact ⟨by simpa using hx, .refl y, [], rfl, rfl⟩
  | cons n ns ih =>
    rw [List.forM] at h
    obtain ⟨_, z, hfirst, hrest⟩ := perform_bind_eq_ok.1 h
    rw [List.append_cons]
    obtain ⟨hz, hsame, player, name, hvocabulary⟩ := casts_makeRole hx hfirst
    obtain ⟨hy, hsame', players, hlength, hvocabulary'⟩ := ih hz hrest
    refine ⟨hy, hsame.trans hsame', (player, name) :: players, congrArg (· + 1) hlength, ?_⟩
    rw [hvocabulary', hvocabulary]
    rfl

/-- A role that is made for a mention has the name that the mention declares, if it declares one,
and so have the roles that other mentions have. -/
lemma names_forM_makeRole {u : Unit}
    (hx : ∀ m ∈ ms, ∀ r ∈ (x.mention m).role, r ∈ x.vocabulary.roleIds ∧
      (x.vocabulary.role r).name = (x.mention m).declaredName?)
    (h : (ns.forM (makeRole f)).perform x = (.ok u, y)) :
    ∀ m ∈ ms ++ ns, ∀ r ∈ (y.mention m).role, r ∈ y.vocabulary.roleIds ∧
      (y.vocabulary.role r).name = (y.mention m).declaredName? := by
  induction ns generalizing x ms with
  | nil =>
    cases h
    rwa [List.append_nil]
  | cons n ns ih =>
    rw [List.forM] at h
    obtain ⟨_, z, hfirst, hrest⟩ := perform_bind_eq_ok.1 h
    obtain ⟨player, -, rfl⟩ := perform_makeRole_eq_ok hfirst
    rw [List.append_cons]
    refine ih (fun m hm r hr => ?_) hrest
    rw [mention_modifyMention] at hr ⊢
    change r ∈ (x.vocabulary.pushRole f player (x.mention n).declaredName?).roleIds ∧
      ((x.vocabulary.pushRole f player (x.mention n).declaredName?).role r).name = _
    rw [Vocabulary.mem_roleIds_pushRole, Vocabulary.role_pushRole]
    split at hr
    · next hsame =>
      obtain rfl := Option.some.inj hr
      rw [if_pos rfl, if_pos hsame]
      exact ⟨.inl rfl, rfl⟩
    · next hother =>
      have hr' : r ∈ (x.mention m).role := hr
      have hm' : m ∈ ms := by
        refine (List.mem_append.1 hm).resolve_right fun hn => hother ⟨List.mem_singleton.1 hn, ?_⟩
        rw [List.mem_singleton.1 hn] at hr'
        by_contra hge
        rw [mention_of_not_lt (x := x) hge] at hr'
        cases hr'
      obtain ⟨hmem, hname⟩ := hx m hm' r hr'
      have hne : r ≠ ⟨x.vocabulary.roles.size⟩ := fun heq =>
        Vocabulary.size_not_mem_roleIds (heq ▸ hmem)
      rw [if_neg hne, if_neg hother]
      exact ⟨.inr hmem, hname⟩

/-- The roles of a new fact type have the names that the mentions declare. -/
lemma names_makeFactType (h : (makeFactType c).perform x = (.ok (f, d), y)) :
    ∀ m ∈ c.mentions, ∀ r ∈ (y.mention m).role,
      (y.vocabulary.role r).name = (y.mention m).declaredName? := by
  obtain ⟨g, z, hnew, hrest⟩ := perform_bind_eq_ok.1 h
  cases hnew
  obtain ⟨_, z, hroles, hpure⟩ := perform_bind_eq_ok.1 hrest
  cases hpure
  intro m hm r hr
  have hm' := List.mem_append_right [] hm
  exact (names_forM_makeRole (List.forall_mem_nil _) hroles m hm' r hr).2

/-- The mentions of a clause get the roles of the new fact type. -/
theorem casts_makeFactType (h : (makeFactType c).perform x = (.ok (f, d), y)) :
    f = ⟨x.vocabulary.factTypes.size⟩ ∧ d = { c with factType := some f } ∧
      y.Casts f c.mentions ∧ x.SameButRoles y ∧
      ∃ players, players.length = c.mentions.length ∧
        y.vocabulary = x.vocabulary.withFactType players := by
  obtain ⟨g, z, hnew, hrest⟩ := perform_bind_eq_ok.1 h
  cases hnew
  obtain ⟨_, z, hroles, hpure⟩ := perform_bind_eq_ok.1 hrest
  cases hpure
  have hnone : Context.Casts { x with vocabulary := x.vocabulary.pushFactType .plain }
      ⟨x.vocabulary.factTypes.size⟩ [] :=
    ⟨fun _ hm => absurd hm List.not_mem_nil, fun _ hm => absurd hm List.not_mem_nil⟩
  obtain ⟨hcasts, hsame, players, hlength, hvocabulary⟩ :=
    casts_forM_makeRole hnone hroles
  exact ⟨rfl, rfl, hcasts, hsame, players, hlength, hvocabulary⟩

/-! ## A new reading -/

/-- What a clause as a reading adds to the vocabulary. -/
lemma perform_makeReading_eq_ok {r : ReadingId}
    (h : (makeReading c f).perform x = (.ok (r, d), y)) :
    ∃ tokens refs, x.readingParts c f c.phrases [] = .ok (tokens, refs) ∧
      r = ⟨x.vocabulary.readings.size⟩ ∧
      d = { c with
        factType := some f, reading := some r
        roleSequence := some ⟨x.vocabulary.roleSequences.size⟩ } ∧
      y.vocabulary = (x.vocabulary.pushRoleSequence refs).pushReading f
        ⟨x.vocabulary.roleSequences.size⟩ (Template.render tokens)
        (c.certainty = .negated) := by
  rw [makeReading, perform_get_bind] at h
  obtain ⟨parts, z, hparts, hrest⟩ := perform_bind_eq_ok.1 h
  obtain ⟨hparts, rfl⟩ := perform_ofExcept_eq_ok.1 hparts
  obtain ⟨s, z, hsequence, hrest⟩ := perform_bind_eq_ok.1 hrest
  cases hsequence
  obtain ⟨r', z, hreading, hrest⟩ := perform_bind_eq_ok.1 hrest
  obtain ⟨_, t, hroles, hrest⟩ := perform_bind_eq_ok.1 hrest
  obtain ⟨_, u, hplaces, hpure⟩ := perform_bind_eq_ok.1 hrest
  cases hpure
  have hmentions : ∀ {α : Type} (as : List α) (g : α → MentionId) (change : α → Mention → Mention)
      {v w : Context}, (as.forM fun a => modifyMention (g a) (change a)).perform v = (.ok ⟨⟩, w) →
      v.vocabulary = w.vocabulary := by
    intro α as g change v w hrun
    refine ((Leads.forM (R := Through Eq) rfl fun a _ t _ => ?_).of_perform hrun).1
    exact leads_modify rfl rfl
  rw [edit, perform_within] at hreading
  rw [Vocabulary.addReading, perform_get_bind] at hreading
  refine ⟨parts.1, parts.2, hparts, ?_⟩
  split at hreading
  · cases hreading
  · cases hreading
    refine ⟨rfl, rfl, ?_⟩
    rw [← hmentions _ _ _ hplaces, ← hmentions _ _ _ hroles]
    rfl

/-- Each clause is adjusted to the reading that it invokes, or becomes one. -/
lemma stateReadings_cons_eq_ok {cs ds : List Clause}
    (h : (stateReadings f (c :: cs)).perform x = (.ok ds, y)) :
    ∃ d z es, ds = d :: es ∧ (stateReadings f cs).perform z = (.ok es, y) ∧
      (c.reading.isSome ∧ (adjust c).perform x = (.ok d, z) ∨
        c.reading = none ∧ ∃ r, (makeReading c f).perform x = (.ok (r, d), z)) := by
  rw [stateReadings] at h
  split at h
  · next hread =>
    obtain ⟨d, z, hadjust, hrest⟩ := perform_bind_eq_ok.1 h
    obtain ⟨es, w, hothers, hpure⟩ := perform_bind_eq_ok.1 hrest
    cases hpure
    exact ⟨d, z, es, rfl, hothers, .inl ⟨hread, hadjust⟩⟩
  · next hread =>
    rw [← bind_pure_comp] at h
    obtain ⟨d, z, hfirst, hrest⟩ := perform_bind_eq_ok.1 h
    obtain ⟨⟨r, e⟩, w, hmake, hpure⟩ := perform_bind_eq_ok.1 hfirst
    cases hpure
    obtain ⟨es, w, hothers, hpure⟩ := perform_bind_eq_ok.1 hrest
    cases hpure
    exact ⟨e, z, es, rfl, hothers, .inr ⟨Option.not_isSome_iff_eq_none.1 hread, r, hmake⟩⟩

/-! ## A fact type by one clause -/

/-- Neither the types nor the readings differ. -/
structure SameReadings (v w : Vocabulary) : Prop where
  objectTypes_eq : w.objectTypes = v.objectTypes
  factTypes_eq : w.factTypes = v.factTypes
  readings_eq : w.readings = v.readings

/-- The readings of a vocabulary do not differ. -/
lemma SameReadings.refl (v : Vocabulary) : SameReadings v v :=
  ⟨rfl, rfl, rfl⟩

instance : Trans SameReadings SameReadings SameReadings :=
  ⟨fun h h' => ⟨h'.1.trans h.1, h'.2.trans h.2, h'.3.trans h.3⟩⟩

/-- Constraints are apart from types and readings. -/
lemma embeds_sameReadings : Embeds (KeepsThrough SameReadings) := by
  refine embeds_through SameReadings.refl (fun _ _ => leads_extend ⟨rfl, rfl, rfl⟩ trivial)
    (fun _ _ _ _ _ => leads_extend ⟨rfl, rfl, rfl⟩ trivial) (fun v k min max => ?_)
    fun _ _ _ _ => leads_extend ⟨rfl, rfl, rfl⟩ trivial
  refine leads_get_bind ?_
  dsimp only
  split
  · exact leads_throw_bind (.refl v)
  split
  · exact leads_throw_bind (.refl v)
  · exact leads_set ⟨rfl, rfl, rfl⟩ trivial

/-- A clause that invoked nothing has created a fact type with a reading in its words. -/
structure Creates (x : Context) (c : Clause) (f : FactTypeId) (r : ReadingId) (w : Vocabulary) :
    Prop where
  comparison_eq : c.comparison? = none
  unmatched : (x.rank { exactTypes := true } c).alignments = []
  retains : x.vocabulary.Retains w
  objectTypeIds_eq : w.objectTypeIds = x.vocabulary.objectTypeIds
  not_mem : f ∉ x.vocabulary.factTypeIds
  kind_eq : (w.factType f).kind = .plain
  arity_eq : (w.factType f).arity = c.mentions.length
  isStated : ∀ p ∈ c.phrases, p.isStated
  reading_mem : r ∈ w.readingIds
  factType_eq : (w.reading r).factType = f
  isNegative_iff : (w.reading r).isNegative ↔ c.certainty = .negated
  tokens_eq : (w.reading r).tokens = Template.tokens (Template.render (spelledTokens c.phrases 0))
  voices : List.Forall₂ ((x.onto w).Voices · ·) c.slots (w.readingRefs r)
  /-- There is no other new reading. -/
  reading_cases : ∀ q ∈ w.readingIds, q = r ∨ q ∈ x.vocabulary.readingIds

/-- A new fact type with a reading in the words of a clause, as it is before its constraints are
stated. -/
lemma creates_makeReading {e : Clause} {z : Context} {r : ReadingId}
    (hcomparison : c.comparison? = none)
    (hunmatched : (x.rank { exactTypes := true } c).alignments = []) (hnodup : c.mentions.Nodup)
    (hmake : (makeFactType c).perform x = (.ok (f, d), y))
    (hread : (makeReading d f).perform y = (.ok (r, e), z)) :
    e.reading = some r ∧ Creates x c f r z.vocabulary := by
  obtain ⟨hf, hd, hcasts, hsame, players, hlength, hvocabulary⟩ := casts_makeFactType hmake
  obtain ⟨tokens, refs, hparts, hr, he, hvocabulary'⟩ := perform_makeReading_eq_ok hread
  have hphrases : d.phrases = c.phrases := hd ▸ rfl
  have hcertainty : d.certainty = c.certainty := hd ▸ rfl
  rw [hphrases] at hparts
  obtain ⟨hstated, htokens, hrefs⟩ := readingParts_of_casts [] hcasts hnodup hparts
  have hgrows : y.vocabulary.Grows z.vocabulary :=
    ((defines_evolving.makeReading d f y).of_perform hread).1.retains.toGrows
  have hevolves : x.vocabulary.Evolves z.vocabulary :=
    Trans.trans ((evolving_makeFactType c x).of_perform hmake).1
      ((defines_evolving.makeReading d f y).of_perform hread).1
  have hfactType : ∀ {α : Type} (field : FactType → α),
      (∀ f readings, field { f with readings } = field f) → ∀ g,
      field (z.vocabulary.factType g) = field (y.vocabulary.factType g) := by
    intro α field hfield g
    rw [hvocabulary', Vocabulary.factType_pushReading_apply field hfield,
      Vocabulary.factType_pushRoleSequence]
  have hreading : z.vocabulary.reading r =
      { id := r, factType := f
        ordinal := ((y.vocabulary.pushRoleSequence refs).factType f).readings.length
        roleSequence := ⟨y.vocabulary.roleSequences.size⟩
        text := Template.render tokens, isNegative := d.certainty = .negated
        tokens := Template.tokens (Template.render tokens) } := by
    rw [hvocabulary', hr, Vocabulary.reading_pushReading]
    exact if_pos rfl
  have hreadingRefs : z.vocabulary.readingRefs r = c.mentions.map y.ownRef := by
    rw [Vocabulary.readingRefs, hreading, hvocabulary']
    change ((y.vocabulary.pushRoleSequence refs).roleSequence _).refs = _
    rw [Vocabulary.roleSequence_pushRoleSequence, if_pos rfl, hrefs]
    rfl
  have hmem : ∀ q, q ∈ z.vocabulary.readingIds ↔ q = r ∨ q ∈ x.vocabulary.readingIds := by
    have hids : y.vocabulary.readings = x.vocabulary.readings := by
      rw [hvocabulary, Vocabulary.readings_withFactType]
    intro q
    rw [hvocabulary', Vocabulary.mem_readingIds_pushReading, hr, Vocabulary.mem_readingIds,
      Vocabulary.mem_readingIds (v := x.vocabulary), ← hids]
    rfl
  refine ⟨by rw [he], hcomparison, hunmatched, hevolves.retains, ?_, ?_, ?_, ?_, hstated,
    (hmem r).2 (.inl rfl), ?_, ?_, ?_, ?_, fun q hq => (hmem q).1 hq⟩
  · rw [← Vocabulary.objectTypeIds_withFactType x.vocabulary players, ← hvocabulary, hvocabulary']
    rfl
  · rw [hf]
    exact Vocabulary.size_not_mem_factTypeIds
  · rw [hfactType FactType.kind fun _ _ => rfl, hvocabulary,
      Vocabulary.factType_withFactType_apply _ _ FactType.kind fun _ _ => rfl,
      Vocabulary.factType_pushFactType, hf, if_pos rfl]
  · rw [hfactType FactType.arity fun _ _ => rfl, hvocabulary, hf, FactType.arity,
      Vocabulary.arity_withFactType, hlength]
  · rw [hreading]
  · rw [hreading, hcertainty]
    exact decide_eq_true_iff
  · rw [hreading, htokens]
    rfl
  · rw [hreadingRefs, Clause.mentions, List.map_map, List.forall₂_map_right_iff,
      List.forall₂_same]
    intro s hs
    obtain ⟨role, hmention⟩ := hsame s.mention
    obtain ⟨q, hq, hqmem, -, hplayer⟩ := hcasts.role s.mention (List.mem_map_of_mem hs)
    have hxplayer : (y.mention s.mention).player = (x.mention s.mention).player := by
      rw [hmention]
    have hown : (y.ownRef s.mention).role = q := by
      rw [ownRef, hq]
      rfl
    refine ⟨?_, ?_, ?_⟩
    · change (y.mention s.mention).leading = (x.mention s.mention).leading
      rw [hmention]
    · change (y.mention s.mention).trailing = (x.mention s.mention).trailing
      rw [hmention]
    · change (x.mention s.mention).player =
        some (z.vocabulary.playerOf (y.ownRef s.mention).role)
      rw [← hxplayer, hplayer, hown, hgrows.playerOf_eq hqmem]

/-- What is created stays while constraints are stated. -/
lemma Creates.later {v w : Vocabulary} {r : ReadingId} (h : Creates x c f r v)
    (hv : v.Consistent) (hevolves : v.Evolves w) (hsame : SameReadings v w) :
    Creates x c f r w := by
  have hretains := hevolves.retains
  have hfactType : w.factType f = v.factType f := by
    rw [Vocabulary.factType, hsame.factTypes_eq, Vocabulary.factType]
  have hreading : w.reading r = v.reading r := hretains.reading_eq h.reading_mem
  have hids : w.readingIds = v.readingIds := by
    rw [Vocabulary.readingIds, hsame.readings_eq, Vocabulary.readingIds]
  have hrefs : w.readingRefs r = v.readingRefs r := by
    rw [Vocabulary.readingRefs, hreading,
      hretains.roleSequence_eq (hv.reading_roleSequence_mem r h.reading_mem),
      Vocabulary.readingRefs]
  have hvoices : List.Forall₂ ((x.onto w).Voices · ·) c.slots (v.readingRefs r) := by
    have hboth := (List.forall₂_and_left (v.readingRefs r) c.slots).2
      ⟨fun ref href => hv.ref_mem _ ref href, h.voices.flip⟩
    refine List.Forall₂.flip (hboth.imp fun ref s hvoice => ?_)
    refine ⟨hvoice.2.leading_eq, hvoice.2.trailing_eq, hvoice.2.player_eq.trans ?_⟩
    exact congrArg some (hretains.playerOf_eq hvoice.1).symm
  exact
    { comparison_eq := h.comparison_eq
      unmatched := h.unmatched
      retains := h.retains.trans hretains
      objectTypeIds_eq := by
        rw [← h.objectTypeIds_eq, Vocabulary.objectTypeIds, hsame.objectTypes_eq,
          Vocabulary.objectTypeIds]
      not_mem := h.not_mem
      kind_eq := hfactType ▸ h.kind_eq
      arity_eq := hfactType ▸ h.arity_eq
      isStated := h.isStated
      reading_mem := hids ▸ h.reading_mem
      factType_eq := hreading ▸ h.factType_eq
      isNegative_iff := hreading ▸ h.isNegative_iff
      tokens_eq := hreading ▸ h.tokens_eq
      voices := hrefs ▸ hvoices
      reading_cases := hids ▸ h.reading_cases }

/-- If no fact type is invoked, then by no clause. -/
lemma factType_eq_none_of_eraseDups {cs : List Clause}
    (h : (cs.filterMap (·.factType)).eraseDups = []) : ∀ c ∈ cs, c.factType = none := by
  intro c hc
  refine Option.eq_none_iff_forall_not_mem.2 fun g hg => ?_
  have hmem := List.mem_eraseDups.2 (List.mem_filterMap.2 ⟨c, hc, hg⟩)
  rw [h] at hmem
  cases hmem

/-- A fact type that clauses state is new just in case none of them invoked one. Then it is made by
the first of them. -/
lemma statedFactType_created {cs made : List Clause}
    (h : (statedFactType cs).perform x = (.ok (f, true, made), y)) :
    (∀ c ∈ cs, c.factType = none) ∧ ∃ c others d, cs = c :: others ∧ made = d :: others ∧
      (makeFactType c).perform x = (.ok (f, d), y) := by
  unfold statedFactType at h
  split at h
  · cases h
  · next first others hnone =>
    obtain ⟨⟨g, d⟩, z, hmake, hpure⟩ := perform_bind_eq_ok.1 h
    cases hpure
    exact ⟨factType_eq_none_of_eraseDups hnone, first, others, d, rfl, rfl, hmake⟩
  · cases h
  · rw [perform_get_bind] at h
    cases h

/-- A definition that creates a fact type: the clauses invoke nothing, the first of them makes the
fact type, and they become its readings. -/
lemma defineFactType_created {cs ds : List Clause}
    (h : (defineFactType cs).perform x = (.ok (f, true, ds), y)) :
    ∃ c others d x₁ x₂ x₃, (resolveAllStated cs).perform x = (.ok (c :: others), x₁) ∧
      (∀ e ∈ c :: others, e.factType = none) ∧ (makeFactType c).perform x₁ = (.ok (f, d), x₂) ∧
      (stateReadings f (d :: others)).perform x₂ = (.ok ds, x₃) ∧
      (ds.forM fun e => do
        let _ ← embedPresenceConstraints e
        let _ ← embedRingConstraint e).perform x₃ = (.ok ⟨⟩, y) := by
  obtain ⟨resolved, x₁, hresolve, hrest⟩ := perform_bind_eq_ok.1 h
  obtain ⟨⟨g, isNew, stated⟩, x₂, hstated, hrest⟩ := perform_bind_eq_ok.1 hrest
  obtain ⟨read, x₃, hread, hrest⟩ := perform_bind_eq_ok.1 hrest
  obtain ⟨_, _, hembed, hpure⟩ := perform_bind_eq_ok.1 hrest
  cases hpure
  obtain ⟨hnone, c, others, d, rfl, rfl, hmake⟩ := statedFactType_created hstated
  exact ⟨c, others, d, x₁, x₂, x₃, hresolve, hnone, hmake, hread, hembed⟩

/-- A definition that creates a fact type by one clause: the clause invoked nothing, a fact type is
made of it, and then it becomes a reading. -/
lemma defineFactType_created_singleton {ds : List Clause} (hflat : c.IsFlat)
    (hunread : c.reading = none)
    (h : (defineFactType [c]).perform x = (.ok (f, true, ds), y)) :
    c.phrases.all (·.word?.isNone) = false ∧ c.comparison? = none ∧
      (x.rank { exactTypes := true } c).alignments = [] ∧ ∃ d x' r e z,
        (makeFactType c).perform x = (.ok (f, d), x') ∧
        (makeReading d f).perform x' = (.ok (r, e), z) ∧ ds = [e] ∧
        (ds.forM fun e => do
          let _ ← embedPresenceConstraints e
          let _ ← embedRingConstraint e).perform z = (.ok ⟨⟩, y) := by
  obtain ⟨d, others, e, x', y', z, hresolve, hnone, hnew, hread, hembed⟩ :=
    defineFactType_created h
  obtain ⟨d', x'', hd, hnil⟩ := perform_bind_eq_ok.1 hresolve
  cases hnil
  obtain ⟨rfl, rfl, hcomparison, hunmatched⟩ :=
    invokes_nothing hflat hd (hnone d List.mem_cons_self)
  have hwords := ((perform_resolveStated_eq_ok hflat).1 hd).1
  obtain ⟨-, he, -⟩ := casts_makeFactType hnew
  obtain ⟨e', z', es, rfl, hmore, ⟨hread', -⟩ | ⟨-, r, hreads⟩⟩ := stateReadings_cons_eq_ok hread
  · rw [he, hunread] at hread'
    cases hread'
  · cases hmore
    exact ⟨hwords, hcomparison, hunmatched, e, y', r, e', z, hnew, hreads, rfl, hembed⟩

/-- A declaration that creates a fact type by one clause: the clause invoked nothing, and the
vocabulary gains the fact type and a reading in the words of the clause.

**Proof sketch.** The clause is left as it was, so nothing invoked it, as the fact type is new. Its
mentions get the roles of the fact type, and as a reading it refers to these roles in order. -/
theorem creates_defineFactType {cs : List Clause} (hx : x.Valid) (hflat : c.IsFlat)
    (hnodup : c.mentions.Nodup) (hadopted : c.IsAdopted)
    (h : (defineFactType [c]).perform x = (.ok (f, true, cs), y)) :
    ∃ r, Creates x c f r y.vocabulary ∧ cs.map (·.reading) = [some r] := by
  obtain ⟨-, hcomparison, hunmatched, d, x', r, e, z, hnew, hreads, rfl, hembed⟩ :=
    defineFactType_created_singleton hflat hadopted.reading_eq h
  obtain ⟨he, hcreates⟩ := creates_makeReading hcomparison hunmatched hnodup hnew hreads
  obtain ⟨-, hd, -⟩ := casts_makeFactType hnew
  obtain ⟨hx', hf, -⟩ := (leads_makeFactType hx c).of_perform hnew
  have hz := (leads_makeReading hx'.valid (c := d) (hd ▸ hadopted.isPlain) hf).of_perform hreads
  refine ⟨r, hcreates.later hz.1.valid.consistent ?_ ?_, by rw [List.map_singleton, he]⟩
  · exact ((defines_evolving.embed _ _).of_perform hembed).1
  · exact ((embeds_sameReadings.embed _ _).of_perform hembed).1

end Compile

end FactModel
