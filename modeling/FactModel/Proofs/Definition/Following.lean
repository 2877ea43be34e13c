import FactModel.Proofs.Definition.Constraining
set_option autoImplicit false

/-!
# Roles that follow bindings

The mentions of the clause that creates a fact type get the roles of the fact type, one each. The
mentions of the clauses behind it get the roles of the bindings that they share with these mentions,
as long as there are such bindings and no clause has one of them twice. A mention without such a
binding is passed on to the readings, and takes a role by its player.

## Main definitions

* `FactModel.Context.SameButMarks` — mentions have been told their roles and places at most.
* `FactModel.Context.Rooted` — clauses mention bindings of the first one only.
* `FactModel.Context.RolesFollow` — mentions play one role just in case they share a binding.
* `FactModel.Context.Follows` — whoever plays a role shares the binding of the mention that it was
  made for.

## Main results

* `FactModel.Context.Follows.assigned` — the roles that a reading refers to follow bindings.
* `FactModel.Compile.rolesFollow_iff_rooted` — roles follow bindings after a definition that creates
  a fact type, just in case its clauses are rooted.
-/

namespace FactModel

open Attempt Compile

namespace Context

variable {x y z : Context} {f : FactTypeId} {ms : List MentionId} {m n : MentionId} {c : Clause}
  {cs ds : List Clause}

/-! ## Mentions and their marks -/

/-- Mentions differ in their roles, their places and the constraints that they state at most. -/
def SameButMarks (x y : Context) : Prop :=
  ∀ m, ∃ role roleRef presenceConstraint,
    y.mention m = { x.mention m with role, roleRef, presenceConstraint }

namespace SameButMarks

/-- The mentions of a context do not differ. -/
lemma refl (x : Context) : x.SameButMarks x :=
  fun _ => ⟨_, _, _, rfl⟩

instance : Trans SameButMarks SameButMarks SameButMarks where
  trans h h' m := by
    obtain ⟨_, _, _, hy⟩ := h m
    obtain ⟨role, roleRef, presenceConstraint, hz⟩ := h' m
    exact ⟨role, roleRef, presenceConstraint, by rw [hz, hy]⟩

/-- Mentions that differ in marks have the same bindings. -/
lemma binding_eq (h : x.SameButMarks y) (m : MentionId) :
    (y.mention m).binding = (x.mention m).binding := by
  obtain ⟨_, _, _, hy⟩ := h m
  rw [hy]

/-- Mentions that differ in marks have the same players. -/
lemma player_eq (h : x.SameButMarks y) (m : MentionId) :
    (y.mention m).player = (x.mention m).player := by
  obtain ⟨_, _, _, hy⟩ := h m
  rw [hy]

/-- A bound mention is bound whatever its marks are. -/
lemma isBound (h : x.SameButMarks y) (hm : x.IsBound m) : y.IsBound m :=
  ⟨(congrArg Option.isSome (h.player_eq m)).trans hm.player,
    (congrArg Option.isSome (h.binding_eq m)).trans hm.binding⟩

end SameButMarks

/-- Roles are marks. -/
lemma SameButRoles.sameButMarks (h : x.SameButRoles y) : x.SameButMarks y := fun m => by
  obtain ⟨role, hy⟩ := h m
  exact ⟨role, _, _, hy⟩

/-- The constraints that mentions state are marks. -/
lemma SameButConstraints.sameButMarks (h : x.SameButConstraints y) : x.SameButMarks y := fun m => by
  obtain ⟨presenceConstraint, hy⟩ := h m
  exact ⟨_, _, presenceConstraint, hy⟩

/-- A mark on a mention changes nothing but marks. -/
lemma sameButMarks_modifyMention (m : MentionId) {change : Mention → Mention}
    (hchange : IsMark change) : x.SameButMarks (x.modifyMention m change) := by
  intro n
  rw [mention_modifyMention]
  split
  · next h =>
    rw [h.1]
    exact hchange _
  · exact ⟨_, _, _, rfl⟩

/-! ## Clauses that follow the first one -/

/-- The mentions of the first clause. -/
def firstMentions (cs : List Clause) : List MentionId :=
  cs.head?.elim [] (·.mentions)

/-- No clause mentions a binding twice. -/
def BindsOnce (x : Context) (cs : List Clause) : Prop :=
  ∀ c ∈ cs, (c.mentions.map fun m => (x.mention m).binding).Nodup

instance (x : Context) (cs : List Clause) : Decidable (x.BindsOnce cs) :=
  inferInstanceAs (Decidable (∀ c ∈ cs, _))

/-- Every binding that a clause mentions is mentioned by the first one. -/
def Rooted (x : Context) (cs : List Clause) : Prop :=
  ∀ c ∈ cs, ∀ m ∈ c.mentions, ∃ n ∈ firstMentions cs, (x.mention m).binding = (x.mention n).binding

instance (x : Context) (cs : List Clause) : Decidable (x.Rooted cs) :=
  inferInstanceAs (Decidable (∀ c ∈ cs, _))

/-- Two mentions of clauses play the same role just in case they share a binding. -/
def RolesFollow (x : Context) (cs : List Clause) : Prop :=
  ∀ c ∈ cs, ∀ m ∈ c.mentions, ∀ d ∈ cs, ∀ n ∈ d.mentions,
    (x.mention m).role = (x.mention n).role ↔ (x.mention m).binding = (x.mention n).binding

instance (x : Context) (cs : List Clause) : Decidable (x.RolesFollow cs) :=
  inferInstanceAs (Decidable (∀ c ∈ cs, _))

/-- The first mentions of clauses are mentions of one of them. -/
lemma exists_of_mem_firstMentions (h : m ∈ firstMentions cs) : ∃ c ∈ cs, m ∈ c.mentions := by
  cases cs with
  | nil => cases h
  | cons c cs => exact ⟨c, List.mem_cons_self, h⟩

/-- Clauses bind once if others with the same mentions do, bound alike. -/
lemma BindsOnce.of_keepsMentions (h : x.BindsOnce cs)
    (hkeeps : List.Forall₂ Clause.KeepsMentions cs ds)
    (hsame : ∀ c ∈ cs, ∀ m ∈ c.mentions, (y.mention m).binding = (x.mention m).binding) :
    y.BindsOnce ds := by
  intro d hd
  obtain ⟨c, hc, hkept⟩ := exists_of_forall₂ hkeeps hd
  rw [hkept.mentions_eq, List.map_congr_left (hsame c hc)]
  exact h c hc

/-- Clauses that keep their mentions have the same first ones. -/
lemma firstMentions_of_keepsMentions (hkeeps : List.Forall₂ Clause.KeepsMentions cs ds) :
    firstMentions ds = firstMentions cs := by
  cases hkeeps with
  | nil => rfl
  | cons hc _ => exact hc.mentions_eq

/-- Clauses are rooted if others with the same mentions are, bound alike. -/
lemma Rooted.of_keepsMentions (h : x.Rooted cs) (hkeeps : List.Forall₂ Clause.KeepsMentions cs ds)
    (hsame : ∀ c ∈ cs, ∀ m ∈ c.mentions, (y.mention m).binding = (x.mention m).binding) :
    y.Rooted ds := by
  intro d hd m hm
  obtain ⟨c, hc, hkept⟩ := exists_of_forall₂ hkeeps hd
  obtain ⟨n, hn, hbinding⟩ := h c hc m (hkept.mentions_eq ▸ hm)
  obtain ⟨c', hc', hn'⟩ := exists_of_mem_firstMentions hn
  refine ⟨n, firstMentions_of_keepsMentions hkeeps ▸ hn, ?_⟩
  rw [hsame c hc m (hkept.mentions_eq ▸ hm), hsame c' hc' n hn', hbinding]

/-- No mention is both on top of a clause and nested in one. -/
lemma not_mem_nestedMentions (h : (allMentions cs).Nodup) (hc : c ∈ cs) (hm : m ∈ c.mentions)
    {d : Clause} (hd : d ∈ cs) : m ∉ nestedMentions d.slots := by
  intro hnested
  rw [allMentions_eq, List.nodup_flatMap] at h
  have hown : m ∈ d.allMentions :=
    d.perm_allMentions.mem_iff.2 (List.mem_append_right _ hnested)
  by_cases heq : c = d
  · subst heq
    have hnodup := c.perm_allMentions.nodup_iff.1 (h.1 c hc)
    exact (List.nodup_append'.1 hnodup).2.2 hm hnested
  · have hsymm : Std.Symm (Function.onFun List.Disjoint Clause.allMentions) :=
      ⟨fun _ _ hdisjoint _ hm hm' => hdisjoint hm' hm⟩
    exact h.2.forall hc hd heq (c.mentions_subset_allMentions hm) hown

/-- Mentions have roles of a fact type and bindings of their own, and whoever plays a role of this
fact type shares the binding of the one among them that plays it. -/
structure Follows (x : Context) (f : FactTypeId) (ms : List MentionId) : Prop where
  bound : x.Bound
  casts : x.Casts f ms
  isBound : ∀ m ∈ ms, x.IsBound m
  bindings_nodup : (ms.map fun m => (x.mention m).binding).Nodup
  follows : ∀ n r, (x.mention n).role = some r → (x.vocabulary.role r).factType = f →
    ∃ m ∈ ms, (x.mention m).role = some r ∧ (x.mention n).binding = (x.mention m).binding

namespace Follows

/-- Two of the mentions that share a binding are one. -/
lemma eq_of_binding_eq (h : x.Follows f ms) (hm : m ∈ ms) (hn : n ∈ ms)
    (hbinding : (x.mention m).binding = (x.mention n).binding) : m = n :=
  List.inj_on_of_nodup_map h.bindings_nodup hm hn hbinding

/-- Whoever plays a role of the fact type and shares the binding of one of the mentions plays the
role of that mention. -/
lemma role_eq (h : x.Follows f ms) (hm : m ∈ ms) {r r' : RoleId}
    (hr : (x.mention m).role = some r) (hn : (x.mention n).role = some r')
    (hf : (x.vocabulary.role r').factType = f)
    (hbinding : (x.mention n).binding = (x.mention m).binding) : r' = r := by
  obtain ⟨m', hm', hr', hshared⟩ := h.follows n r' hn hf
  obtain rfl := h.eq_of_binding_eq hm hm' (hbinding.symm.trans hshared)
  exact Option.some.inj (hr'.symm.trans hr)

/-- A mention that shares the binding of one of the mentions stands for the role of that mention, if
it is not yet taken.

**Proof sketch.** The role that the mention has is no other one. Among the mentions of its binding
is the one that the role was made for, and no mention of this binding has another role of the fact
type. -/
lemma roleFor?_eq (h : x.Follows f ms) (hm : m ∈ ms) {r : RoleId} {taken : List RoleId}
    (hr : (x.mention m).role = some r)
    (hbinding : (x.mention n).binding = (x.mention m).binding) (hfree : r ∉ taken) :
    x.roleFor? n f taken = some r := by
  have hfactType : (x.vocabulary.role r).factType = f := by
    obtain ⟨r', hr', -, hf, -⟩ := h.casts.role m hm
    rwa [Option.some.inj (hr.symm.trans hr')]
  have hwanted : x.isAvailable f taken r = true := by simp [isAvailable, hfactType, hfree]
  have hof : ∀ r', x.isAvailable f taken r' = true → (x.vocabulary.role r').factType = f :=
    fun r' hr' => of_decide_eq_true (Bool.and_eq_true_iff.1 hr').1
  unfold roleFor?
  dsimp only
  cases hown : (x.mention n).role.filter (x.isAvailable f taken) with
  | some r' =>
    obtain ⟨hn, hr'⟩ := Option.filter_eq_some_iff.1 hown
    rw [h.role_eq hm hr hn (hof r' hr') hbinding]
    rfl
  | none =>
    obtain ⟨b, hb⟩ := Option.isSome_iff_exists.1 (h.isBound m hm).binding
    obtain ⟨B, hB, hmem⟩ := (h.bound.binding_iff m b).1 hb
    have hfound : x.roleByBinding? n (x.isAvailable f taken) = some r := by
      rw [roleByBinding?, hbinding, hb, Option.bind_some, hB, Option.bind_some]
      have hsibling : r ∈ B.mentions.filterMap fun k => (x.mention k).role :=
        List.mem_filterMap.2 ⟨m, hmem, hr⟩
      obtain ⟨r', hr'⟩ := Option.isSome_iff_exists.1 (List.find?_isSome.2 ⟨r, hsibling, hwanted⟩)
      rw [hr']
      obtain ⟨k, hk, hrole⟩ := List.mem_filterMap.1 (List.mem_of_find?_eq_some hr')
      have hshared : (x.mention k).binding = (x.mention m).binding :=
        ((h.bound.binding_iff k b).2 ⟨B, hB, hk⟩).trans hb.symm
      rw [h.role_eq hm hr hrole (hof r' (List.find?_some hr')) hshared]
    rw [hfound]
    rfl

/-- **Roles follow bindings.** Of two mentions that play roles of the fact type, both play one role
just in case they share a binding. -/
theorem role_eq_iff (h : x.Follows f ms) {r r' : RoleId} (hm : (x.mention m).role = some r)
    (hn : (x.mention n).role = some r') (hf : (x.vocabulary.role r).factType = f)
    (hf' : (x.vocabulary.role r').factType = f) :
    (x.mention m).role = (x.mention n).role ↔ (x.mention m).binding = (x.mention n).binding := by
  obtain ⟨k, hk, hrole, hbinding⟩ := h.follows m r hm hf
  obtain ⟨k', hk', hrole', hbinding'⟩ := h.follows n r' hn hf'
  rw [hm, hn, hbinding, hbinding', ← hrole, ← hrole']
  exact ⟨fun heq => by rw [h.casts.inj k hk k' hk' heq],
    fun heq => by rw [h.eq_of_binding_eq hk hk' heq]⟩

/-- Roles still follow bindings after mentions have been marked otherwise, if the mentions keep
their roles and any other mention that gets a role gets that of one whose binding it shares. -/
lemma later (h : x.Follows f ms) (hx : x.Valid) (hgrows : x.vocabulary.Grows y.vocabulary)
    (hsame : x.SameButMarks y) (hy : y.Bound)
    (hkept : ∀ m ∈ ms, (y.mention m).role = (x.mention m).role)
    (hothers : ∀ n, (y.mention n).role = (x.mention n).role ∨
      ∃ m ∈ ms, (y.mention n).role = (x.mention m).role ∧
        (x.mention n).binding = (x.mention m).binding) : y.Follows f ms where
  bound := hy
  casts := by
    refine ⟨fun m hm => ?_, fun m hm n hn heq => h.casts.inj m hm n hn ?_⟩
    · obtain ⟨r, hr, hmem, hf, hplayer⟩ := h.casts.role m hm
      refine ⟨r, (hkept m hm).trans hr, hgrows.mem_roleIds hmem,
        (hgrows.role hmem).factType_eq.trans hf, ?_⟩
      rw [hsame.player_eq, hplayer, hgrows.playerOf_eq hmem]
    · rwa [hkept m hm, hkept n hn] at heq
  isBound m hm := hsame.isBound (h.isBound m hm)
  bindings_nodup := by
    rw [List.map_congr_left fun m _ => hsame.binding_eq m]
    exact h.bindings_nodup
  follows n r hr hf := by
    rw [hsame.binding_eq]
    rcases hothers n with hn | ⟨m, hm, hn, hbinding⟩
    · rw [hn] at hr
      obtain ⟨m, hm, hrole, hbinding⟩ := h.follows n r hr
        ((hgrows.role (hx.role_mem n r hr)).factType_eq.symm.trans hf)
      exact ⟨m, hm, (hkept m hm).trans hrole, by rw [hsame.binding_eq, hbinding]⟩
    · exact ⟨m, hm, (hkept m hm).trans (hn.symm.trans hr), by rw [hsame.binding_eq, hbinding]⟩

/-- The role that a mention plays, if it shares its binding with one of the mentions. -/
def Partnered (x : Context) (ms : List MentionId) (n : MentionId) (ref : RoleRef) : Prop :=
  ∃ m ∈ ms, (x.mention m).role = some ref.role ∧ (x.mention n).binding = (x.mention m).binding

/-- Phrases whose mentions share bindings with the mentions, each with another one, refer to the
roles of these mentions.

**Proof sketch.** By induction on the steps. The role of a mention's partner is not yet taken, since
the roles that are taken were made for mentions of other bindings. -/
theorem assigned (h : x.Follows f ms) {ps : List Phrase} {taken refs : List RoleRef}
    {tokens : List Template.Token} (hassigns : x.Assigns f taken ps tokens refs)
    (hshared : ∀ s ∈ ps.flatMap Phrase.slots, ∃ m ∈ ms,
      (x.mention s.mention).binding = (x.mention m).binding)
    (hnodup : ((ps.flatMap Phrase.slots).map fun s => (x.mention s.mention).binding).Nodup)
    (hfree : ∀ ref ∈ taken, ∃ m ∈ ms, (x.mention m).role = some ref.role ∧
      ∀ s ∈ ps.flatMap Phrase.slots, (x.mention s.mention).binding ≠ (x.mention m).binding) :
    ∃ own, refs = taken ++ own ∧
      List.Forall₂ (Partnered x ms · ·) ((ps.flatMap Phrase.slots).map (·.mention)) own := by
  induction hassigns with
  | nil => exact ⟨[], (List.append_nil _).symm, .nil⟩
  | word _ _ ih => exact ih hshared hnodup hfree
  | @slot s r taken later ps tokens hrole _ ih =>
    have hslots : (Phrase.slot s :: ps).flatMap Phrase.slots = s :: ps.flatMap Phrase.slots := rfl
    rw [hslots, List.forall_mem_cons] at hshared
    rw [hslots, List.map_cons, List.nodup_cons] at hnodup
    obtain ⟨m, hm, hbinding⟩ := hshared.1
    obtain ⟨q, hq, -⟩ := h.casts.role m hm
    have hnew : q ∉ taken.map (·.role) := by
      intro hmem
      obtain ⟨ref, href, rfl⟩ := List.mem_map.1 hmem
      obtain ⟨m', hm', hrole', hne⟩ := hfree ref href
      obtain rfl := h.casts.inj m hm m' hm' (hq.trans hrole'.symm)
      exact hne s (hslots ▸ List.mem_cons_self) hbinding
    obtain rfl : q = r :=
      Option.some.inj ((h.roleFor?_eq hm hq hbinding hnew).symm.trans hrole)
    obtain ⟨own, rfl, hown⟩ := ih hshared.2 hnodup.2 fun ref href => by
      rcases List.mem_append.1 href with href | href
      · obtain ⟨m', hm', hrole', hne⟩ := hfree ref href
        exact ⟨m', hm', hrole', fun t ht => hne t (hslots ▸ List.mem_cons_of_mem s ht)⟩
      · obtain rfl := List.mem_singleton.1 href
        refine ⟨m, hm, hq, fun t ht heq => hnodup.1 ?_⟩
        rw [hbinding, ← heq]
        exact List.mem_map_of_mem (f := fun t : Slot => (x.mention t.mention).binding) ht
    refine ⟨x.refTo q s.mention :: own, by rw [List.append_assoc, List.singleton_append], ?_⟩
    exact .cons ⟨m, hm, hq, hbinding⟩ hown

end Follows

end Context

open Context

namespace Compile

variable {x y z : Context} {f : FactTypeId} {ms : List MentionId} {c d : Clause}
  {cs ds : List Clause}

/-! ## Making readings -/

/-- An edit of the vocabulary changes no mention. -/
lemma keeps_edit_sameButMarks {α : Type} (change : Vocabulary.Edit α) :
    (edit change).Keeps SameButMarks := by
  intro x _
  exact Leads.within (leads_true change x.vocabulary) (fun _ _ => .refl x) fun _ _ _ _ => trivial

/-- Making a reading changes nothing but marks. -/
lemma keeps_makeReading_sameButMarks (c : Clause) (f : FactTypeId) :
    (makeReading c f).Keeps SameButMarks :=
  (composes_keeps fun _ => .refl _).makeReading (fun hnext x hx => leads_get_bind (hnext x hx))
    (fun _ => keeps_edit_sameButMarks _) (fun _ _ _ _ => keeps_edit_sameButMarks _)
    (fun m _ hchange _ _ => leads_modify (sameButMarks_modifyMention m hchange) trivial) c f

/-- A clause that mentions bindings of certain mentions, each once, becomes a reading by which roles
still follow bindings.

**Proof sketch.** Its mentions come to play the roles of those that they share a binding with. If
these are among them, they keep the roles that they have. -/
lemma follows_makeReading {n : Nat} {r : ReadingId} (h : x.Follows f ms) (hx : x.Valid)
    (hsustains : x.Sustains n x) (hc : ∀ p ∈ c.phrases, p.IsPlain)
    (hf : f ∈ x.vocabulary.factTypeIds) (hnodup : c.mentions.Nodup)
    (hsize : ∀ m ∈ c.mentions, m.index < n)
    (hshared : ∀ m ∈ c.mentions, ∃ k ∈ ms, (x.mention m).binding = (x.mention k).binding)
    (hdistinct : (c.mentions.map fun m => (x.mention m).binding).Nodup)
    (hmake : (makeReading c f).perform x = (.ok (r, d), y)) : y.Follows f ms := by
  have hsame := ((keeps_makeReading_sameButMarks c f (.refl x)).of_perform hmake).1
  have hextends := ((leads_makeReading hx hc hf).of_perform hmake).1
  have hroles : x.RolesOnly (· ∈ c.mentions) y :=
    (leads_makeReading_rolesOnly (fun _ => id) f x).of_perform hmake |>.1
  obtain ⟨tokens, refs, hparts, -⟩ := perform_makeReading_eq_ok hmake
  have hgiven := (ends_makeReading_role hnodup (fun m hm =>
    (hsize m hm).trans_le hsustains.carries.le_size) f).of_perform hmake tokens refs hparts
  have hslots : c.mentions.map (fun m => (x.mention m).binding) =
      (c.phrases.flatMap Phrase.slots).map fun s => (x.mention s.mention).binding := by
    rw [Clause.mentions, List.map_map]
    rfl
  obtain ⟨own, heq, hown⟩ := h.assigned (assigns_of_readingParts hparts)
    (fun s hs => hshared s.mention (List.mem_map_of_mem hs)) (hslots ▸ hdistinct)
    (List.forall_mem_nil _)
  rw [List.nil_append] at heq
  subst heq
  have hpartner : ∀ n ∈ c.mentions, ∃ m ∈ ms, (y.mention n).role = (x.mention m).role ∧
      (x.mention n).binding = (x.mention m).binding := by
    intro n hn
    obtain ⟨i, hi, rfl⟩ := List.getElem_of_mem hn
    have hi' : i < refs.length := hown.length_eq ▸ hi
    obtain ⟨m, hm, hrole, hbinding⟩ := (List.forall₂_iff_get.1 hown).2 i hi hi'
    refine ⟨m, hm, ?_, hbinding⟩
    have hat : (c.mentions.map fun m => (y.mention m).role)[i]? =
        (refs.map fun ref => some ref.role)[i]? := by rw [hgiven]
    rw [List.getElem?_map, List.getElem?_map, List.getElem?_eq_getElem hi,
      List.getElem?_eq_getElem hi'] at hat
    exact (Option.some.inj hat).trans hrole.symm
  have hkept : ∀ m ∈ ms, (y.mention m).role = (x.mention m).role := by
    intro m hm
    by_cases hmem : m ∈ c.mentions
    · obtain ⟨k, hk, hrole, hbinding⟩ := hpartner m hmem
      rw [hrole, h.eq_of_binding_eq hm hk hbinding]
    · exact hroles m hmem
  refine h.later hx hextends.grows hsame
    (((defines_sustains n).makeReading c f hsustains).of_perform hmake).1.bound hkept fun k => ?_
  by_cases hk : k ∈ c.mentions
  · exact .inr (hpartner k hk)
  · exact .inl (hroles k hk)

/-- Clauses that mention bindings of certain mentions, each once, become readings by which roles
still follow bindings.

**Proof sketch.** By induction on the clauses. None of them changes bindings. -/
theorem follows_stateReadings {n : Nat} (h : x.Follows f ms) (hx : x.Valid)
    (hsustains : x.Sustains n x) (hf : f ∈ x.vocabulary.factTypeIds)
    (hcs : ∀ c ∈ cs, c.reading = none ∧ ∀ p ∈ c.phrases, p.IsPlain)
    (hnodup : ∀ c ∈ cs, c.mentions.Nodup) (hsize : ∀ c ∈ cs, ∀ m ∈ c.mentions, m.index < n)
    (hshared : ∀ c ∈ cs, ∀ m ∈ c.mentions, ∃ k ∈ ms, (x.mention m).binding = (x.mention k).binding)
    (hdistinct : ∀ c ∈ cs, (c.mentions.map fun m => (x.mention m).binding).Nodup)
    (hstate : (stateReadings f cs).perform x = (.ok ds, y)) : y.Follows f ms := by
  induction cs generalizing x ds with
  | nil =>
    cases hstate
    exact h
  | cons c cs ih =>
    obtain ⟨d, z, es, rfl, hothers, ⟨hread, -⟩ | ⟨-, r, hmake⟩⟩ := stateReadings_cons_eq_ok hstate
    · rw [(hcs c List.mem_cons_self).1] at hread
      cases hread
    have hplain := (hcs c List.mem_cons_self).2
    have hextends := ((leads_makeReading hx hplain hf).of_perform hmake).1
    have hsame := ((keeps_makeReading_sameButMarks c f (.refl x)).of_perform hmake).1
    have hsustained := ((defines_sustains n).makeReading c f hsustains).of_perform hmake |>.1
    have hbindings : ∀ e : Clause, (e.mentions.map fun m => (z.mention m).binding) =
        e.mentions.map fun m => (x.mention m).binding := fun e =>
      List.map_congr_left fun m _ => hsame.binding_eq m
    refine ih (follows_makeReading h hx hsustains hplain hf (hnodup c List.mem_cons_self)
      (hsize c List.mem_cons_self) (hshared c List.mem_cons_self) (hdistinct c List.mem_cons_self)
      hmake) hextends.valid hsustained.refl_right (hextends.grows.mem_factTypeIds hf)
      (fun e he => hcs e (List.mem_cons_of_mem c he))
      (fun e he => hnodup e (List.mem_cons_of_mem c he))
      (fun e he => hsize e (List.mem_cons_of_mem c he)) (fun e he m hm => ?_)
      (fun e he => ?_) hothers
    · obtain ⟨k, hk, hbinding⟩ := hshared e (List.mem_cons_of_mem c he) m hm
      exact ⟨k, hk, by rw [hsame.binding_eq, hsame.binding_eq, hbinding]⟩
    · rw [hbindings]
      exact hdistinct e (List.mem_cons_of_mem c he)

/-! ## Creating a fact type -/

/-- A clause that states a reading and invokes none changes no mention but those nested in it. -/
lemma changes_resolveStated_unmatched (hx : x.Ready [c])
    (h : (resolveStated c).perform x = (.ok d, y)) (hd : d.factType = none) :
    x.ChangesOnly (· ∈ nestedMentions c.slots) y := by
  have hinvoke : ∀ {y d}, y.Valid → d.mentions.Nodup →
      (∀ m ∈ d.mentions, m.index < y.mentions.size) →
        (invokeReading { exactTypes := true } d).Ends y (fun r _ => ∀ e ∈ r, e.factType.isSome)
          fun _ => True := by
    intro y d _ _ _
    refine ends_bind.2 (ends_get.2 (ends_bind.2 (ends_ofExcept.2 ?_)))
    split
    · next r _ =>
      cases r with
      | none => exact fun e he => absurd he (by simp)
      | some a =>
        refine ends_map.2 (Ends.imp (leads_applyAlignment_givesEach (P := fun _ _ => True)
          (fun _ _ => trivial) d y) (fun e z he => ?_) fun _ _ => trivial)
        rintro _ ⟨⟩
        rw [he.2]
        rfl
    · trivial
  rcases resolveStated_of_invokeReading (P := fun d _ => d.factType.isSome) hinvoke hx h
    with hsome | hmisses
  · rw [hd] at hsome
    cases hsome
  · exact hmisses.changes

/-- Clauses that state readings and invoke none change no mentions but those nested in them. -/
lemma changes_resolveAllStated_unmatched (hx : x.Ready cs)
    (h : (resolveAllStated cs).perform x = (.ok ds, y)) (hds : ∀ d ∈ ds, d.factType = none) :
    x.ChangesOnly (fun m => ∃ c ∈ cs, m ∈ nestedMentions c.slots) y := by
  induction cs generalizing x ds with
  | nil =>
    cases h
    exact .refl _
  | cons c cs ih =>
    obtain ⟨d, z, hfirst, hrest⟩ := perform_bind_eq_ok.1 h
    obtain ⟨es, z', hmore, hpure⟩ := perform_bind_eq_ok.1 hrest
    cases hpure
    rw [← List.singleton_append] at hx
    have hnodup := List.nodup_append'.1 (allMentions_append [c] cs ▸ hx.nodup)
    have hsustains := ((defines_sustains x.mentions.size).resolveStated c hx.sustains).of_perform
      hfirst |>.1
    obtain ⟨hgives, -, -⟩ := told_resolveStated hx.append_left hfirst
    have hready : z.Ready cs := Ready.later hx.append_right hgives
      (fun m hm hmem => hnodup.2.2 (mem_allMentions_of_mem List.mem_cons_self hmem) hm) hsustains
    have hchanges : x.ChangesOnly (fun m => ∃ e ∈ c :: cs, m ∈ nestedMentions e.slots) z :=
      (changes_resolveStated_unmatched hx.append_left hfirst (hds d List.mem_cons_self)).weaken
        fun m hm => ⟨c, List.mem_cons_self, hm⟩
    have hchanges' : z.ChangesOnly (fun m => ∃ e ∈ c :: cs, m ∈ nestedMentions e.slots) y := by
      refine (ih hready hmore fun e he => hds e (List.mem_cons_of_mem d he)).weaken ?_
      rintro m ⟨e, he, hm⟩
      exact ⟨e, List.mem_cons_of_mem c he, hm⟩
    exact Trans.trans hchanges hchanges'

/-- The roles of a fact type that a clause creates follow the bindings of its mentions. -/
lemma follows_makeFactType {n : Nat} (hx : x.Valid) (hsustains : x.Sustains n x)
    (hbound : ∀ m ∈ c.mentions, x.IsBound m)
    (hdistinct : (c.mentions.map fun m => (x.mention m).binding).Nodup)
    (h : (makeFactType c).perform x = (.ok (f, d), y)) : y.Follows f c.mentions := by
  obtain ⟨hf, -, hcasts, hsame, -⟩ := casts_makeFactType h
  obtain ⟨hextends, -⟩ := (leads_makeFactType hx c).of_perform h
  have hroles : x.RolesOnly (· ∈ c.mentions) y :=
    ((leads_makeFactType_rolesOnly (fun _ => id) x).of_perform h).1
  have hmarks := hsame.sameButMarks
  refine ⟨((keeps_makeFactType_sustains c hsustains).of_perform h).1.bound, hcasts,
    fun m hm => hmarks.isBound (hbound m hm), ?_, fun k r hr hfactType => ?_⟩
  · rw [List.map_congr_left fun m _ => hmarks.binding_eq m]
    exact hdistinct
  · by_cases hk : k ∈ c.mentions
    · exact ⟨k, hk, hr, rfl⟩
    · rw [hroles k hk] at hr
      have hold := hx.role_mem k r hr
      rw [(hextends.grows.role hold).factType_eq] at hfactType
      have hmem := hx.consistent.role_factType_mem hold
      rw [hfactType, hf] at hmem
      exact absurd hmem Vocabulary.size_not_mem_factTypeIds

/-- Adjusting a clause to a reading changes nothing but marks. -/
lemma keeps_adjust_sameButMarks (c : Clause) : (adjust c).Keeps SameButMarks :=
  (composes_keeps fun _ => .refl _).adjust (fun hnext x hx => leads_get_bind (hnext x hx))
    (fun _ => keeps_edit_sameButMarks _)
    (fun m _ hchange _ _ => leads_modify (sameButMarks_modifyMention m hchange) trivial)
    (fun _ _ => keeps_edit_sameButMarks _) c

/-- What a definition does once it has made a fact type tells mentions their roles, places and
constraints. -/
lemma keeps_stateReadings_sameButMarks (f : FactTypeId) (cs : List Clause) :
    (stateReadings f cs).Keeps SameButMarks := by
  intro x
  exact (composes_keeps fun _ => .refl _).stateReadings keeps_adjust_sameButMarks
    keeps_makeReading_sameButMarks f cs

/-- Clauses that invoke nothing, the first of which creates a fact type. It has a role for each
mention of this clause, and roles follow bindings if every binding that a clause mentions is
mentioned by the first one.

**Proof sketch.** They do when the first clause has got the fact type, and mentions are told no more
than roles, places and constraints since then. -/
lemma follows_created {n : Nat} (hx : x.Valid) (hsustains : x.Sustains n x)
    (hcs : ∀ e ∈ c :: cs, e.Valid x.vocabulary ∧ e.reading = none)
    (hnodup : ∀ e ∈ c :: cs, e.mentions.Nodup)
    (hbound : ∀ e ∈ c :: cs, ∀ m ∈ e.mentions, x.IsBound m ∧ m.index < n) {x₁ x₂ : Context}
    (hmake : (makeFactType c).perform x = (.ok (f, d), x₁))
    (hread : (stateReadings f (d :: cs)).perform x₁ = (.ok ds, x₂))
    (hembed : (ds.forM fun e => do
      let _ ← embedPresenceConstraints e
      let _ ← embedRingConstraint e).perform x₂ = (.ok ⟨⟩, y)) :
    x.SameButMarks y ∧ (y.vocabulary.factType f).arity = c.mentions.length ∧
      (x.BindsOnce (c :: cs) → x.Rooted (c :: cs) → y.Follows f c.mentions) := by
  obtain ⟨hf, hd, -, hsame, players, hlength, hvocabulary⟩ := casts_makeFactType hmake
  obtain ⟨hextends₁, hmem, -⟩ := (leads_makeFactType hx c).of_perform hmake
  have hdefines := defines_sustains n
  have hsustains₁ := ((hdefines.factType c hsustains).of_perform hmake).1
  have hsustains₂ := ((hdefines.stateReadings f _ hsustains₁.refl_right).of_perform hread).1
  have hsustains₃ := ((hdefines.embed ds hsustains₂.refl_right).of_perform hembed).1
  have hmarks₁ := hsame.sameButMarks
  have hmarks₂ := ((keeps_stateReadings_sameButMarks f (d :: cs) (.refl x₁)).of_perform hread).1
  have hsame₃ := (embeds_sameButConstraints.embed ds (.refl x₂) |>.of_perform hembed).1
  -- The clause that has created the fact type is one of the clauses, apart from its fact type.
  have hclauses : ∀ e ∈ d :: cs, ∃ e' ∈ c :: cs, e.mentions = e'.mentions ∧ e.reading = none ∧
      e.InRange x₁.vocabulary := by
    refine List.forall_mem_cons.2 ⟨⟨c, List.mem_cons_self, hd ▸ rfl, ?_, ?_⟩, fun e he => ?_⟩
    · rw [hd]
      exact (hcs c List.mem_cons_self).2
    · rw [hd]
      exact { (hcs c List.mem_cons_self).1.toInRange.grows hextends₁.grows with }
    · obtain ⟨hvalid, hunread⟩ := hcs e (List.mem_cons_of_mem c he)
      exact ⟨e, List.mem_cons_of_mem c he, rfl, hunread, hvalid.toInRange.grows hextends₁.grows⟩
  have hextends₂ := ((leads_stateReadings hextends₁.valid hmem fun e he => by
    obtain ⟨_, -, -, -, hrange⟩ := hclauses e he
    exact hrange).of_perform hread).1
  have hextends₃ := ((leads_embed hextends₂.valid ds).of_perform hembed).1
  refine ⟨Trans.trans (Trans.trans hmarks₁ hmarks₂) hsame₃.sameButMarks, ?_,
    fun honce hrooted => ?_⟩
  · have hretains := Trans.trans (defines_evolving.stateReadings f _ x₁ |>.of_perform hread).1
      (defines_evolving.embed ds x₂ |>.of_perform hembed).1
    rw [FactType.arity, hretains.retains.roles_eq f hmem, hvocabulary, hf,
      Vocabulary.arity_withFactType, hlength]
  · have hcreated := follows_makeFactType hx hsustains
      (fun m hm => (hbound c List.mem_cons_self m hm).1) (honce c List.mem_cons_self) hmake
    have hstated := follows_stateReadings hcreated hextends₁.valid hsustains₁.refl_right hmem
      (fun e he => ?_) (fun e he => ?_) (fun e he m hm => ?_) (fun e he m hm => ?_) (fun e he => ?_)
      hread
    · have hkept : ∀ m, (y.mention m).role = (x₂.mention m).role := fun m => by
        obtain ⟨_, heq⟩ := hsame₃ m
        rw [heq]
      exact hstated.later hextends₂.valid hextends₃.grows hsame₃.sameButMarks hsustains₃.bound
        (fun m _ => hkept m) fun m => .inl (hkept m)
    all_goals obtain ⟨e', he', hmentions, hunread, hrange⟩ := hclauses e he
    · exact ⟨hunread, hrange.isPlain⟩
    · exact hmentions ▸ hnodup e' he'
    · exact (hbound e' he' m (hmentions ▸ hm)).2
    · obtain ⟨k, hk, hbinding⟩ := hrooted e' he' m (hmentions ▸ hm)
      exact ⟨k, hk, by rw [hmarks₁.binding_eq, hmarks₁.binding_eq, hbinding]⟩
    · rw [hmentions, List.map_congr_left fun m _ => hmarks₁.binding_eq m]
      exact honce e' he'

/-- After a definition that creates a fact type the mentions of its clauses are bound as before. The
fact type has a role for each mention of the first clause, and roles follow bindings if every
binding that a clause mentions is mentioned by the first one.

**Proof sketch.** No clause has invoked a reading, so none of their own mentions has changed when
the first clause gets a fact type. -/
theorem follows_defineFactType (hx : x.Ready cs)
    (h : (defineFactType cs).perform x = (.ok (f, true, ds), y)) :
    (∀ c ∈ cs, ∀ m ∈ c.mentions, (y.mention m).binding = (x.mention m).binding) ∧
      (y.vocabulary.factType f).arity = (firstMentions cs).length ∧
      (x.BindsOnce cs → x.Rooted cs → y.Follows f (firstMentions cs)) := by
  obtain ⟨c, others, d, x₁, x₂, x₃, hresolve, hnone, hmake, hread, hembed⟩ :=
    defineFactType_created h
  obtain ⟨hgives, hkeeps, htold⟩ := told_resolveAllStated hx hresolve
  have hvalid := valid_resolveAllStated hx hresolve
  have hsustains := ((defines_sustains x.mentions.size).resolveAllStated cs hx.sustains).of_perform
    hresolve |>.1
  have hchanges := changes_resolveAllStated_unmatched hx hresolve hnone
  have hbinding : ∀ e ∈ cs, ∀ m ∈ e.mentions, (x₁.mention m).binding = (x.mention m).binding := by
    intro e he m hm
    have hown : ¬∃ e' ∈ cs, m ∈ nestedMentions e'.slots := by
      rintro ⟨e', he', hnested⟩
      exact not_mem_nestedMentions hx.nodup he hm he' hnested
    rw [hchanges m hown]
  have hnodup : ∀ e ∈ c :: others, e.mentions.Nodup := by
    have hall : (allMentions (c :: others)).Nodup := allMentions_of_keepsMentions hkeeps ▸ hx.nodup
    rw [allMentions_eq, List.nodup_flatMap] at hall
    exact fun e he => (List.nodup_append'.1 (e.perm_allMentions.nodup_iff.1 (hall.1 e he))).1
  have hbound : ∀ e ∈ c :: others, ∀ m ∈ e.mentions, x₁.IsBound m ∧ m.index < x.mentions.size := by
    intro e he m hm
    have hmem := mem_allMentions_of_mem he (e.mentions_subset_allMentions hm)
    rw [allMentions_of_keepsMentions hkeeps] at hmem
    have hisBound := hx.isBound m hmem
    exact ⟨hsustains.carries.isBound hisBound.index_lt hisBound, hisBound.index_lt⟩
  obtain ⟨hmarks, harity, hfollows⟩ := follows_created hgives.valid hsustains.refl_right
    (fun e he => ⟨hvalid e he, (htold e he).unread (hnone e he)⟩) hnodup hbound hmake hread
    hembed
  rw [← firstMentions_of_keepsMentions hkeeps]
  refine ⟨fun e he m hm => by rw [hmarks.binding_eq, hbinding e he m hm], harity,
    fun honce hrooted => ?_⟩
  exact hfollows (honce.of_keepsMentions hkeeps hbinding) (hrooted.of_keepsMentions hkeeps hbinding)

/-- **Roles follow bindings.** After a definition that creates a fact type, no clause having
mentioned a binding twice, the mentions of each clause have different roles of the fact type. Two
mentions play the same role if and only if they share a binding, just in case all bindings that the
clauses mention are mentioned by the first one.

**Proof sketch.** A mention with a binding that the first clause does not mention plays some role of
the fact type, and so does a mention of the first clause, which has a role for each. -/
theorem rolesFollow_iff_rooted (hx : x.Ready cs) (hi : x.vocabulary.Inherits)
    (hc : x.vocabulary.Constrained) (honce : x.BindsOnce cs)
    (h : (defineFactType cs).perform x = (.ok (f, true, ds), y)) :
    (∀ c ∈ cs, ∀ m ∈ c.mentions, (y.mention m).binding = (x.mention m).binding) ∧
      (∀ c ∈ cs, y.Fills f c.mentions) ∧ (y.RolesFollow cs ↔ x.Rooted cs) := by
  obtain ⟨hy, hkeeps, hstates⟩ := adequate_defineFactType hx hi hc h
  obtain ⟨hbinding, harity, hfollows⟩ := follows_defineFactType hx h
  have hfills : ∀ c ∈ cs, y.Fills f c.mentions := by
    intro c hc
    obtain ⟨d, hd, hkept⟩ := exists_of_forall₂ hkeeps.flip hc
    obtain ⟨s, hs⟩ := (hstates d hd).1
    exact hkept.mentions_eq ▸ hs.fills
  -- As many different roles as the fact type has are all of them.
  have hfirst : ∀ r ∈ (y.vocabulary.factType f).roles,
      ∃ m ∈ firstMentions cs, (y.mention m).role = some r := by
    have hown : y.Fills f (firstMentions cs) := by
      cases cs with
      | nil => exact ⟨List.forall_mem_nil _, List.nodup_nil⟩
      | cons c cs => exact hfills c List.mem_cons_self
    intro r hr
    have hsub : (firstMentions cs).map (fun m => (y.mention m).role) ⊆
        (y.vocabulary.factType f).roles.map some := by
      intro q hq
      obtain ⟨m, hm, rfl⟩ := List.mem_map.1 hq
      obtain ⟨r', hr', hmem⟩ := hown.role m hm
      exact List.mem_map.2 ⟨r', hmem, (Option.mem_def.1 hr').symm⟩
    have hperm := (List.subperm_of_subset hown.nodup hsub).perm_of_length_le (by
      rw [List.length_map, List.length_map, ← harity]
      exact Nat.le_refl _)
    exact List.mem_map.1 (hperm.mem_iff.2 (List.mem_map_of_mem hr))
  refine ⟨hbinding, hfills, fun hroles c hc m hm => ?_, fun hrooted c hc m hm d hd n hn => ?_⟩
  · obtain ⟨r, hr, hmem⟩ := (hfills c hc).role m hm
    obtain ⟨n, hn, hrole⟩ := hfirst r hmem
    obtain ⟨d, hd, hnd⟩ := exists_of_mem_firstMentions hn
    refine ⟨n, hn, ?_⟩
    rw [← hbinding c hc m hm, ← hbinding d hd n hnd]
    exact (hroles c hc m hm d hd n hnd).1 (hr.trans hrole.symm)
  · obtain ⟨r, hr, hmem⟩ := (hfills c hc).role m hm
    obtain ⟨r', hr', hmem'⟩ := (hfills d hd).role n hn
    exact (hfollows honce hrooted).role_eq_iff hr hr' (hy.valid.consistent.mem_roles.1 hmem).2
      (hy.valid.consistent.mem_roles.1 hmem').2

end Compile

end FactModel
