import Mathlib.Data.List.Forall2
import FactModel.Proofs.Context.Naming
import FactModel.Proofs.Context.Speaking
import FactModel.Proofs.Context.Taking
import FactModel.Proofs.Session.Merges
import FactModel.Proofs.Session.RoleNames
set_option autoImplicit false

/-!
# Entering clauses in another order

Entering clauses takes them into a context, finds the players of their mentions and binds these.
Mentions then have other places if the clauses stand in another order, and players are found in
another order. That matters only where terms are role names: such a term names the player that the
latest declaration before it gave the name. Where role names that are used across clauses are
declared for one player, each mention is what it was.

## Main definitions

* `FactModel.Context.Holds`, `FactModel.Context.Identifies`, `FactModel.Context.Entered` — flat
  clauses have been taken into a context, their players have been found, their mentions are bound.
* `FactModel.Context.NamesApart`, `FactModel.Context.NamesSettled` — how role names have to be
  declared.
* `FactModel.Context.Exchanges` — the clauses of two contexts differ in the places of their
  mentions.

## Main results

* `FactModel.Context.Exchanges.exists_identifyPlayers` — players are found in another order.
* `FactModel.Context.Identifies.keysAgree` — mentions of which the keys differ by adjectives at most
  have the same player.
* `FactModel.Context.exists_enter_reordered` — clauses can be entered in another order.
-/

namespace FactModel

open Attempt Compile Context Call

/-! ## Flat clauses -/

/-- A flat clause has no mentions but its own. -/
lemma Clause.IsFlat.allMentions_eq_mentions {c : Clause} (h : c.IsFlat) :
    c.allMentions = c.mentions := by
  have hslot : ∀ s ∈ c.slots, s.all.map (·.mention) = [s.mention] := by
    intro s hs
    rw [Slot.all_map_mention, h s hs]
    rfl
  rw [Clause.allMentions_eq, Clause.mentions, Clause.slots, List.map_flatMap]
  refine List.flatMap_congr fun p hp => ?_
  have hp' : ∀ s ∈ p.slots, s.all.map (·.mention) = [s.mention] := fun s hs =>
    hslot s (List.mem_flatMap.2 ⟨p, hp, hs⟩)
  cases p with
  | word text => rfl
  | slot s => exact hp' s List.mem_cons_self
  | comparison operator left right =>
    rw [Phrase.allSlots, List.map_append, hp' left List.mem_cons_self,
      hp' right (List.mem_cons_of_mem _ List.mem_cons_self)]
    rfl

/-- No mentions are nested in flat clauses. -/
lemma allMentions_of_flat {cs : List Clause} (h : ∀ c ∈ cs, c.IsFlat) :
    allMentions cs = cs.flatMap Clause.mentions := by
  rw [allMentions_eq]
  exact List.flatMap_congr fun c hc => (h c hc).allMentions_eq_mentions

namespace Context

variable {x y z : Context} {ms : List MentionId} {f g : MentionId → MentionId}

/-! ## The order in which players are found -/

/-- The mentions in the order in which their players are found: those that declare role names go
first. -/
def inOrder (x : Context) (ms : List MentionId) : List MentionId :=
  (ms.filter fun m => (x.mention m).declaredName?.isSome) ++
    ms.filter fun m => !(x.mention m).declaredName?.isSome

/-- The order in which players are found leaves out no mention. -/
lemma perm_inOrder (x : Context) (ms : List MentionId) : (x.inOrder ms).Perm ms :=
  List.filter_append_perm ..

/-- The order depends only on which mentions declare a role name. -/
lemma inOrder_map (h : ∀ m ∈ ms, (y.mention (f m)).declaredName? = (x.mention m).declaredName?) :
    y.inOrder (ms.map f) = (x.inOrder ms).map f := by
  unfold inOrder
  rw [List.filter_map, List.filter_map, List.map_append]
  congr 2
  · exact List.filter_congr fun m hm => by simp [h m hm]
  · exact List.filter_congr fun m hm => by simp [h m hm]

end Context

namespace Compile

variable {x y : Context} {cs : List Clause}

/-- What is done for some items only is done for these. -/
lemma forM_eq_forM_filter {ι : Type} {p : ι → Bool} {change change' : ι → Compile PUnit}
    (hchange : ∀ i, p i = true → change i = change' i)
    (hpure : ∀ i, p i = false → change i = pure ⟨⟩)
    (is : List ι) : is.forM change = (is.filter p).forM change' := by
  induction is with
  | nil => rfl
  | cons i is ih =>
    rw [List.filter_cons]
    cases hi : p i with
    | true =>
      rw [if_pos rfl]
      exact congrArg₂ (fun first rest => first >>= fun _ => rest) (hchange i hi) ih
    | false =>
      have hfirst : (i :: is).forM change = is.forM change := by
        change (change i >>= fun _ => is.forM change) = is.forM change
        rw [hpure i hi, pure_bind]
      rw [hfirst, ih]
      rfl

/-- Finding the players of clauses is finding those of their mentions, one after the other. -/
lemma perform_identifyPlayers_eq (cs : List Clause) (x : Context) :
    (identifyPlayers cs).perform x = ((x.inOrder (allMentions cs)).forM fun m =>
      Compile.identify (x.mention m).declaredName? m).perform x := by
  rw [identifyPlayers, perform_get_bind]
  refine congrArg (perform · x) (Eq.trans ?_ List.forM_append.symm)
  refine congrArg₂ (fun first rest => first >>= fun _ => rest) ?_ ?_
  · refine forM_eq_forM_filter (fun m hm => ?_) (fun m hm => ?_) _
    · obtain ⟨roleName, hm⟩ := Option.isSome_iff_exists.1 hm
      rw [hm]
      rfl
    · rw [Option.isSome_eq_false_iff, Option.isNone_iff_eq_none] at hm
      rw [hm]
  · refine forM_eq_forM_filter (fun m hm => ?_) (fun m hm => ?_) _
    · rw [Bool.not_eq_true', Option.isSome_eq_false_iff, Option.isNone_iff_eq_none] at hm
      rw [hm]
      rfl
    · rw [Bool.not_eq_false'] at hm
      obtain ⟨roleName, hm⟩ := Option.isSome_iff_exists.1 hm
      rw [hm]

end Compile

namespace Context

variable {v : Vocabulary} {forwards : List String} {x y z a b : Context} {es ds : List Clause}
  {f g : MentionId → MentionId} {ms : List MentionId}

/-! ## Clauses that have been taken into a context -/

/-- Flat clauses have been taken into the context of a declaration, and they are all that is
there. -/
structure Holds (v : Vocabulary) (forwards : List String) (es : List Clause)
    (a : Context) : Prop where
  vocabulary_eq : a.vocabulary = v
  recalls : a.Recalls v forwards []
  unbound : a.Unbound
  player_eq : ∀ m, (a.mention m).player = none
  playerByRoleName_eq : ∀ m, (a.mention m).playerByRoleName = false
  isFlat : ∀ e ∈ es, e.IsFlat
  nodup : (es.flatMap Clause.mentions).Nodup
  mem_iff : ∀ m, m ∈ es.flatMap Clause.mentions ↔ m.index < a.mentions.size

/-- It does not matter in which order the clauses are counted. -/
lemma Holds.perm (h : a.Holds v forwards es) (hperm : ds.Perm es) : a.Holds v forwards ds where
  vocabulary_eq := h.vocabulary_eq
  recalls := h.recalls
  unbound := h.unbound
  player_eq := h.player_eq
  playerByRoleName_eq := h.playerByRoleName_eq
  isFlat e he := h.isFlat e (hperm.mem_iff.1 he)
  nodup := (hperm.flatMap_right _).nodup_iff.2 h.nodup
  mem_iff m := (hperm.flatMap_right _).mem_iff.trans (h.mem_iff m)

/-- Flat clauses are taken into the context of a declaration. -/
theorem holds_adoptAll (hv : v.Consistent) (forwards : List String) {cs : List Script.Clause}
    (hcs : ∀ c ∈ cs, c.IsFlat) {a : Context} {es : List Clause}
    (h : adoptAll cs { vocabulary := v, forwardTerms := forwards } = (es, a)) :
    a.Holds v forwards es ∧ List.Forall₂ a.HasTaken cs es := by
  have hadopts : Adopts { vocabulary := v, forwardTerms := forwards } a := by
    have hadopts := adopts_adoptAll cs { vocabulary := v, forwardTerms := forwards }
    rwa [h] at hadopts
  have hplaced : adoptAll cs { vocabulary := v, forwardTerms := forwards } =
      (Script.placeClauses 0 cs, pushMentions _ (cs.flatMap Script.Clause.records)) :=
        adoptAll_flat hcs _
  obtain ⟨rfl, rfl⟩ := Prod.mk.inj (hplaced.symm.trans h)
  have htaken := @hasTaken_placeClauses (Context.pushMentions
    { vocabulary := v, forwardTerms := forwards } (cs.flatMap Script.Clause.records)) [] [] cs
    (by simp [pushMentions])
  have hmentions := Script.flatMap_mentions_placeClauses 0 cs
  obtain ⟨hnames, hunknown⟩ := hadopts.unknown
  refine ⟨⟨rfl, ⟨((valid_declaration hv forwards).of_adopts hadopts).valid, rfl, fun term => ?_,
    fun term => ?_, fun _ hc => absurd hc List.not_mem_nil⟩,
    (Unbound.of_declaration v forwards).of_adopts hadopts, fun m => (hunknown m).1,
    fun m => (hunknown m).2, Script.isFlat_of_mem_placeClauses, ?_, fun m => ?_⟩, htaken⟩
  · simp [IsKnown, pushMentions]
  · rw [hnames]
    rfl
  · rw [hmentions]
    exact List.Nodup.map (fun i j hij => congrArg MentionId.index hij) List.nodup_range'
  · rw [hmentions, size_pushMentions]
    obtain ⟨i⟩ := m
    simp

/-! ## Players that have been found -/

/-- The calls of the mentions of a clause that declare role names. -/
def declaringCalls (y : Context) (e : Clause) : List Call :=
  (e.mentions.filter fun m => (y.mention m).declaredName?.isSome).map y.call

/-- The calls of its other mentions. -/
def plainCalls (y : Context) (e : Clause) : List Call :=
  (e.mentions.filter fun m => !(y.mention m).declaredName?.isSome).map y.call

/-- The calls of clauses in the order in which players are found. -/
lemma map_call_inOrder (y : Context) (es : List Clause) :
    (y.inOrder (es.flatMap Clause.mentions)).map y.call =
      (es.map y.declaringCalls).flatten ++ (es.map y.plainCalls).flatten := by
  rw [inOrder, List.filter_flatMap, List.filter_flatMap, List.map_append, List.map_flatMap,
    List.map_flatMap, List.flatMap_def, List.flatMap_def]
  rfl

/-- A role name that is no name of a type does not stand for a type of its own name. -/
lemma Recalls.ne_of_declared? {done : List Call} (h : x.Recalls v forwards done)
    {term name : String}
    (hunknown : ¬IsKnown v.Knows done term) (hname : declared? done term = some name) :
    name ≠ term := by
  rintro rfl
  rw [← h.lookup_eq] at hname
  obtain ⟨t, ht, hname⟩ := Option.map_eq_some_iff.1 hname
  obtain ⟨before, after, heq, -⟩ := List.lookup_eq_some_iff.1 ht
  have hmem := h.valid.roleName_mem (name, t) (heq ▸ by simp)
  refine hunknown ((h.isKnown_iff name).1 ?_)
  exact Option.isSome_iff_exists.2
    ⟨t, (h.valid.consistent.toWellFormed.findObjectType?_iff name t).2 ⟨hmem, hname⟩⟩

/-- The players of the mentions of clauses have been found. -/
structure Identifies (v : Vocabulary) (forwards : List String) (a : Context) (es : List Clause)
    (y : Context) : Prop where
  holds : a.Holds v forwards es
  found : a.FoundEach (a.inOrder (es.flatMap Clause.mentions)) y
  unbound : y.Unbound
  recalls :
    y.Recalls v forwards ((es.map y.declaringCalls).flatten ++ (es.map y.plainCalls).flatten)
  follows :
    Follows v.Knows forwards ((es.map y.declaringCalls).flatten ++ (es.map y.plainCalls).flatten)
  ne_of_declared? : ∀ {term name}, ¬IsKnown v.Knows (es.map y.declaringCalls).flatten term →
    declared? (es.map y.declaringCalls).flatten term = some name → name ≠ term

/-- The order stays when players are found. -/
lemma FoundEach.inOrder_eq (h : a.FoundEach ms y) (ns : List MentionId) :
    y.inOrder ns = a.inOrder ns := by
  have hdeclared := h.mention_apply (·.declaredName?) fun _ _ _ => rfl
  unfold inOrder
  simp only [hdeclared]

/-- What is known after the players of clauses have been found. -/
theorem Holds.identifies (h : a.Holds v forwards es) {u : Unit}
    (hp : (identifyPlayers es).perform a = (.ok u, y)) : a.Identifies v forwards es y := by
  have hunbound := unbound_of_identifyPlayers h.unbound hp
  have hperm := a.perm_inOrder (es.flatMap Clause.mentions)
  have hnodup := hperm.nodup_iff.2 h.nodup
  have hsize : ∀ m ∈ a.inOrder (es.flatMap Clause.mentions), m.index < a.mentions.size :=
    fun m hm =>
    (h.mem_iff m).1 (hperm.mem_iff.1 hm)
  rw [perform_identifyPlayers_eq, allMentions_of_flat h.isFlat] at hp
  obtain ⟨hrecalls, hfound, hfollows⟩ := h.recalls.identifyEach hnodup hsize (fun _ _ => rfl) hp
  have hcalls : (a.inOrder (es.flatMap Clause.mentions)).map y.call =
      (es.map y.declaringCalls).flatten ++ (es.map y.plainCalls).flatten := by
    rw [← hfound.inOrder_eq, map_call_inOrder]
  rw [List.nil_append, hcalls] at hrecalls hfollows
  refine ⟨h, hfound, hunbound, hrecalls, hfollows fun before c after heq => ?_, ?_⟩
  · simp at heq
  -- Between the mentions that declare role names and the others there is a context of its own.
  obtain ⟨⟨⟩, z, hfirst, hrest⟩ := perform_bind_eq_ok.1
    ((congrArg (perform · a) List.forM_append).symm.trans hp)
  have hdisjoint := List.disjoint_of_nodup_append hnodup
  obtain ⟨hz, hzfound, -⟩ := h.recalls.identifyEach hnodup.of_append_left
    (fun m hm => hsize m (List.mem_append_left _ hm)) (fun _ _ => rfl) hfirst
  obtain ⟨-, hlater, -⟩ := hz.identifyEach hnodup.of_append_right
    (fun m hm => hzfound.size_eq ▸ hsize m (List.mem_append_right _ hm))
    (fun m _ => hzfound.mention_apply (·.declaredName?) (fun _ _ _ => rfl) m) hrest
  have hdeclaring : (es.map y.declaringCalls).flatten =
      ((es.flatMap Clause.mentions).filter fun m => (a.mention m).declaredName?.isSome).map
      z.call := by
    have hdeclared := hfound.mention_apply (·.declaredName?) fun _ _ _ => rfl
    rw [List.filter_flatMap, List.map_flatMap, List.flatMap_def]
    refine congrArg List.flatten (List.map_congr_left fun e he => ?_)
    simp only [declaringCalls, hdeclared]
    refine List.map_congr_left fun m hm => ?_
    obtain ⟨hm, hsome⟩ := List.mem_filter.1 hm
    refine hlater.call_eq hz.valid
      (hdisjoint (List.mem_filter.2 ⟨List.mem_flatMap.2 ⟨e, he, hm⟩, hsome⟩))
  intro term name hunknown hname
  rw [hdeclaring] at hunknown hname
  exact hz.ne_of_declared? hunknown hname

/-! ## Exchanging mentions -/

/-- Two lists without repetitions that are equally long have their items exchanged for one
another. -/
lemma exists_exchange {ms ns : List MentionId} (hms : ms.Nodup) (hns : ns.Nodup)
    (hlength : ns.length = ms.length) :
    ∃ f g : MentionId → MentionId, ms.map f = ns ∧ ∀ m ∈ ms, g (f m) = m := by
  have hexchange : ∀ {ms ns : List MentionId}, ms.Nodup → ns.length = ms.length →
      ms.map (fun m => ns.getD (ms.idxOf m) default) = ns := by
    intro ms ns hms hlength
    refine List.ext_getElem (by rw [List.length_map, hlength]) fun i h₁ h₂ => ?_
    rw [List.getElem_map, hms.idxOf_getElem, List.getD_eq_getElem?_getD,
      List.getElem?_eq_getElem h₂]
    rfl
  have hf := hexchange hms hlength
  have hg := hexchange hns hlength.symm
  refine ⟨_, fun n => ms.getD (ns.idxOf n) default, hf, fun m hm => ?_⟩
  have hback := hg
  rw [← hf, List.map_map, hf] at hback
  exact List.map_inj_left.1 (hback.trans (List.map_id ms).symm) m hm

/-- The clauses of one context are those of another one, with their mentions exchanged. -/
structure Exchanges (f g : MentionId → MentionId) (a : Context) (es : List Clause) (b : Context)
    (ds : List Clause) : Prop where
  renames : List.Forall₂ (Clause.Renames f) es ds
  back : ∀ m ∈ es.flatMap Clause.mentions, g (f m) = m
  mention_eq : ∀ m ∈ es.flatMap Clause.mentions, b.mention (f m) = a.mention m

/-- **The same clauses at other places.** Clauses that have been taken into two contexts have their
mentions exchanged. -/
theorem exists_exchanges {cs : List Script.Clause} (ha : a.Holds v forwards es)
    (hb : b.Holds v forwards ds)
    (hes : List.Forall₂ a.HasTaken cs es) (hds : List.Forall₂ b.HasTaken cs ds) :
    ∃ f g, Exchanges f g a es b ds := by
  have hboth : List.Forall₂ (fun e d => ∃ c, a.HasTaken c e ∧ b.HasTaken c d) es ds := by
    clear ha hb
    induction hes generalizing ds with
    | nil =>
      cases hds
      exact .nil
    | cons hc _ ih =>
      obtain ⟨d, ds', hd, hrest, rfl⟩ := List.forall₂_cons_left_iff.1 hds
      exact .cons ⟨_, hc, hd⟩ (ih hrest)
  have hlength : ∀ {es ds}, List.Forall₂ (fun e d => ∃ c, a.HasTaken c e ∧ b.HasTaken c d) es ds →
      (ds.flatMap Clause.mentions).length = (es.flatMap Clause.mentions).length := by
    intro es ds h
    induction h with
    | nil => rfl
    | cons hc _ ih =>
      obtain ⟨c, he, hd⟩ := hc
      rw [List.flatMap_cons, List.flatMap_cons, List.length_append, List.length_append, ih,
        he.length_mentions, hd.length_mentions]
  obtain ⟨f, g, hf, hg⟩ := exists_exchange ha.nodup hb.nodup (hlength hboth)
  have hrenames : List.Forall₂ (Clause.Renames f) es ds ∧
      ∀ m ∈ es.flatMap Clause.mentions, b.mention (f m) = a.mention m := by
    clear ha hb hes hds hg
    induction hboth with
    | nil => exact ⟨.nil, fun _ hm => absurd hm List.not_mem_nil⟩
    | cons hc _ ih =>
      obtain ⟨c, he, hd⟩ := hc
      rw [List.flatMap_cons, List.flatMap_cons, List.map_append] at hf
      obtain ⟨hfirst, hrest⟩ := List.append_inj hf (by
        rw [List.length_map, he.length_mentions, hd.length_mentions])
      obtain ⟨hrenames, hmention⟩ := he.renames hd hfirst.symm
      obtain ⟨hlater, hmentions⟩ := ih hrest
      rw [List.flatMap_cons, List.forall_mem_append]
      exact ⟨.cons hrenames hlater, hmention, hmentions⟩
  exact ⟨f, g, hrenames.1, hg, hrenames.2⟩

/-- Mentions are exchanged in order. -/
lemma Exchanges.mentions_eq (h : Exchanges f g a es b ds) :
    ds.flatMap Clause.mentions = (es.flatMap Clause.mentions).map f :=
  flatMap_mentions_eq (h.renames.imp fun _ _ hc => hc.mentions_eq)

/-! ## Players in another order -/

/-- A mention that declares a role name, and of which the term is no object type of the vocabulary,
has no role name as its term that a mention of another clause declares. -/
def NamesApart (v : Vocabulary) (es : List Clause) (y : Context) : Prop :=
  ∀ c ∈ es, ∀ d ∈ es, c ≠ d → ∀ m ∈ c.mentions, (y.mention m).declaredName?.isSome →
    ¬v.Knows (y.mention m).term → ∀ n ∈ d.mentions,
      (y.mention n).declaredName? ≠ some (y.mention m).term

/-- Where a mention has a role name as its term, all mentions that declare the name have its
player. -/
def NamesSettled (es : List Clause) (y : Context) : Prop :=
  ∀ m ∈ es.flatMap Clause.mentions, ∀ n ∈ es.flatMap Clause.mentions,
    (y.mention m).playerByRoleName = true → (y.mention n).declaredName? = some (y.mention m).term →
      (y.mention n).player = (y.mention m).player

/-- It is enough that mentions that declare role names are of object types. -/
lemma namesApart_of_knows (h : ∀ m ∈ es.flatMap Clause.mentions,
    (y.mention m).declaredName?.isSome →
    v.Knows (y.mention m).term) : y.NamesApart v es :=
  fun c hc _ _ _ m hm hdeclared hunknown =>
    absurd (h m (List.mem_flatMap.2 ⟨c, hc, hm⟩) hdeclared) hunknown

instance (es : List Clause) (y : Context) : Decidable (y.NamesSettled es) :=
  inferInstanceAs
    (Decidable (∀ m ∈ es.flatMap Clause.mentions, ∀ n ∈ es.flatMap Clause.mentions, _))

/-- The calls that declare role names are those of mentions that do. -/
lemma mem_declaringCalls {e : Clause} {c : Call} : c ∈ y.declaringCalls e ↔
    ∃ m ∈ e.mentions, (y.mention m).declaredName?.isSome ∧ y.call m = c := by
  simp [declaringCalls, and_assoc]

/-- The other calls are those of the other mentions. -/
lemma mem_plainCalls {e : Clause} {c : Call} : c ∈ y.plainCalls e ↔
    ∃ m ∈ e.mentions, (y.mention m).declaredName? = none ∧ y.call m = c := by
  simp [plainCalls, and_assoc]

/-- The declaring calls of clauses are those of all their mentions that declare a role name. -/
lemma mem_flatten_declaringCalls {c : Call} : c ∈ (es.map y.declaringCalls).flatten ↔
    ∃ m ∈ es.flatMap Clause.mentions, (y.mention m).declaredName?.isSome ∧ y.call m = c := by
  simp only [← List.flatMap_def, List.mem_flatMap, mem_declaringCalls]
  exact ⟨fun ⟨e, he, m, hm, hc⟩ => ⟨m, ⟨e, he, hm⟩, hc⟩,
    fun ⟨m, ⟨e, he, hm⟩, hc⟩ => ⟨e, he, m, hm, hc⟩⟩

/-- The plain calls of clauses are those of all their other mentions. -/
lemma mem_flatten_plainCalls {c : Call} : c ∈ (es.map y.plainCalls).flatten ↔
    ∃ m ∈ es.flatMap Clause.mentions, (y.mention m).declaredName? = none ∧ y.call m = c := by
  simp only [← List.flatMap_def, List.mem_flatMap, mem_plainCalls]
  exact ⟨fun ⟨e, he, m, hm, hc⟩ => ⟨m, ⟨e, he, hm⟩, hc⟩,
    fun ⟨m, ⟨e, he, hm⟩, hc⟩ => ⟨e, he, m, hm, hc⟩⟩

/-- A plain call declares nothing. -/
lemma declares_eq_none_of_mem_plainCalls : ∀ c ∈ (es.map y.plainCalls).flatten,
    c.declares = none := by
  intro c hc
  obtain ⟨m, -, hnone, rfl⟩ := mem_flatten_plainCalls.1 hc
  exact hnone

/-- The calls of different clauses that declare role names are apart. -/
lemma NamesApart.pairwise (h : y.NamesApart v es) (hnodup : (es.flatMap Clause.mentions).Nodup) :
    (es.map y.declaringCalls).Pairwise (BothApart v.Knows) := by
  have happly : ∀ {c d}, c ∈ es → d ∈ es → c ≠ d →
      Apart v.Knows (y.declaringCalls c) (y.declaringCalls d) := by
    intro c d hc hd hne call hcall hunknown other hother
    obtain ⟨m, hm, hdeclares, rfl⟩ := mem_declaringCalls.1 hcall
    obtain ⟨n, hn, -, rfl⟩ := mem_declaringCalls.1 hother
    exact h c hc d hd hne m hm hdeclares hunknown n hn
  rw [List.pairwise_map]
  refine (List.nodup_flatMap.1 hnodup).2.imp_of_mem fun {c d} hc hd hdisjoint => ?_
  by_cases hne : c = d
  · -- a clause that occurs twice has no mentions
    subst hne
    have hnone : y.declaringCalls c = [] := List.eq_nil_iff_forall_not_mem.2 fun call hcall => by
      obtain ⟨m, hm, -, -⟩ := mem_declaringCalls.1 hcall
      exact hdisjoint hm hm
    rw [hnone]
    exact ⟨fun _ hcall => absurd hcall List.not_mem_nil,
      fun _ hcall => absurd hcall List.not_mem_nil⟩
  · exact ⟨happly hc hd hne, happly hd hc (Ne.symm hne)⟩

/-- The player that a call names is that of its mention. -/
lemma call_player {m : MentionId} {t : ObjectTypeId} (ht : (y.mention m).player = some t) :
    (y.call m).player = y.vocabulary.nameOf t := by
  rw [call, ht]
  rfl

namespace Identifies

variable (h : a.Identifies v forwards es y)

include h

/-- Of mentions only the player changes, and whether it was found by a role name. -/
lemma mention_apply {α : Type} (field : Mention → α)
    (hfield : ∀ (k : Mention) player playerByRoleName,
    field { k with player, playerByRoleName } = field k) (m : MentionId) :
    field (y.mention m) = field (a.mention m) :=
  h.found.mention_apply field hfield m

/-- A mention of the clauses has a player. If it declares no role name, it has a role name as its
term just in case the name of its player is another one. -/
lemma exists_player {m : MentionId} (hm : m ∈ es.flatMap Clause.mentions) :
    ∃ t ∈ y.vocabulary.objectTypeIds, (y.mention m).player = some t ∧
      (y.mention m).playerByRoleName = if (y.mention m).declaredName?.isSome then false
        else decide (y.vocabulary.nameOf t ≠ (y.mention m).term) := by
  obtain ⟨t, ht, hmention⟩ := h.found.mention_eq m ((a.perm_inOrder _).mem_iff.2 hm)
  refine ⟨t, ht, ?_, ?_⟩
  · rw [hmention]
  · rw [h.mention_apply (·.declaredName?) (fun _ _ _ => rfl),
      h.mention_apply (·.term) (fun _ _ _ => rfl),
      hmention, ← h.holds.playerByRoleName_eq m]

/-- A term that has been used as a role name is declared for one player. -/
lemma declared_once (hsettled : y.NamesSettled es) :
    ∀ c ∈ (es.map y.plainCalls).flatten, ¬IsKnown v.Knows (es.map y.declaringCalls).flatten c.term →
      ∀ d ∈ (es.map y.declaringCalls).flatten, d.declares = some c.term → d.player = c.player := by
  intro c hc hunknown d hd hdeclares
  have hnames := ((follows_append_plain declares_eq_none_of_mem_plainCalls).1 h.follows).2 c hc
  have hsome : declared? (es.map y.declaringCalls).flatten c.term ≠ none := fun hnone =>
    declared?_eq_none_iff.1 hnone d hd hdeclares
  obtain ⟨m, hm, hnone, rfl⟩ := mem_flatten_plainCalls.1 hc
  obtain ⟨n, hn, -, rfl⟩ := mem_flatten_declaringCalls.1 hd
  obtain ⟨t, -, ht, hflag⟩ := h.exists_player hm
  generalize hname : (y.call m).player = name at hnames
  cases hnames with
  | known hknown => exact absurd hknown hunknown
  | forward _ hnone' => exact absurd hnone' hsome
  | roleName _ hdeclared =>
    have hne := h.ne_of_declared? hunknown hdeclared
    have htrue : (y.mention m).playerByRoleName = true := by
      rw [hflag, hnone, if_neg (by simp), decide_eq_true_iff, ← call_player ht, hname]
      exact hne
    have hplayer := hsettled m hm n hn htrue hdeclares
    rw [← hname, call, hplayer]
    rfl

end Identifies

section Order

variable {es₀ : List Clause} (h : Exchanges f g a es b ds) (ha : a.Identifies v forwards es₀ y)

include h ha

/-- The mentions of the other context are looked at in the order of the clauses there. -/
lemma Exchanges.inOrder_eq :
    b.inOrder (ds.flatMap Clause.mentions) = (y.inOrder (es.flatMap Clause.mentions)).map f := by
  rw [h.mentions_eq]
  refine inOrder_map fun m hm => ?_
  rw [h.mention_eq m hm, ha.mention_apply (·.declaredName?) fun _ _ _ => rfl]

/-- What the mentions of the other context are to name can be named in their order. -/
lemma Exchanges.follows (hperm : es.Perm es₀) (hapart : y.NamesApart v es₀)
    (hsettled : y.NamesSettled es₀) :
    Follows v.Knows forwards ((b.inOrder (ds.flatMap Clause.mentions)).map fun n =>
      y.call (g n)) := by
  have hcalls : (b.inOrder (ds.flatMap Clause.mentions)).map (fun n => y.call (g n)) =
      (es.map y.declaringCalls).flatten ++ (es.map y.plainCalls).flatten := by
    rw [h.inOrder_eq ha, List.map_map, ← map_call_inOrder]
    refine List.map_congr_left fun m hm => ?_
    exact congrArg y.call (h.back m ((y.perm_inOrder _).mem_iff.1 hm))
  have hground : Grounded v.Knows forwards (es₀.map y.declaringCalls).flatten := fun c hc =>
    ha.recalls.grounded c (List.mem_append_left _ hc)
  rw [hcalls]
  exact Follows.of_perm hground (hapart.pairwise ha.holds.nodup) (hperm.symm.map _)
    declares_eq_none_of_mem_plainCalls (hperm.symm.map _).flatten (ha.declared_once hsettled)
      ha.follows

/-- A mention that names what the one it is exchanged for names is alike. -/
lemma Exchanges.resembles {z : Context} (hz : b.Identifies v forwards ds z) (hperm : es.Perm es₀)
    {m : MentionId} (hm : m ∈ es.flatMap Clause.mentions)
    (hcall : (z.call (f m)).player = (y.call m).player) : y.Resembles z m (f m) := by
  have hfm : f m ∈ ds.flatMap Clause.mentions := by
    rw [h.mentions_eq]
    exact List.mem_map_of_mem hm
  obtain ⟨t, ht, hplayer, hflag⟩ := ha.exists_player ((hperm.flatMap_right _).mem_iff.1 hm)
  obtain ⟨u, hu, hplayer', hflag'⟩ := hz.exists_player hfm
  have hfield : ∀ {α : Type} (field : Mention → α), (∀ (k : Mention) player playerByRoleName,
      field { k with player, playerByRoleName } = field k) →
      field (z.mention (f m)) = field (y.mention m) := by
    intro α field hfield
    rw [hz.mention_apply field hfield, h.mention_eq m hm, ← ha.mention_apply field hfield]
  have hname : z.vocabulary.nameOf u = y.vocabulary.nameOf t := by
    rw [← call_player hplayer, ← call_player hplayer', hcall]
  refine ⟨hfield (·.term) fun _ _ _ => rfl, hfield (·.leading) fun _ _ _ => rfl,
    hfield (·.trailing) fun _ _ _ => rfl, hfield (·.roleName) fun _ _ _ => rfl,
    hfield (·.literal) fun _ _ _ => rfl, ?_, t, ht, u, hu, hplayer, hplayer', hname⟩
  rw [hflag, hflag', hname, hfield (·.declaredName?) fun _ _ _ => rfl,
    hfield (·.term) fun _ _ _ => rfl]

/-- **Players are found in another order.** Let players be found for clauses in which role names are
declared apart and for one player where it matters. They are also found for the clauses in another
order, and each mention comes to be what it was.

**Proof sketch.** The mentions that declare role names go first, clause by clause. What they name
depends on their own clause only, since the others declare none of their terms. All others then name
what they named, since all declarations of a role name that they use agree. -/
theorem Exchanges.exists_identifyPlayers (hperm : es.Perm es₀) (hb : b.Holds v forwards ds)
    (hapart : y.NamesApart v es₀) (hsettled : y.NamesSettled es₀) :
    ∃ z, (identifyPlayers ds).perform b = (.ok ⟨⟩, z) ∧
      ∀ m ∈ es.flatMap Clause.mentions, y.Resembles z m (f m) := by
  have hmem : ∀ {n}, n ∈ b.inOrder (ds.flatMap Clause.mentions) ↔ n ∈ ds.flatMap Clause.mentions :=
    (b.perm_inOrder _).mem_iff
  have hexchange : ∀ n ∈ b.inOrder (ds.flatMap Clause.mentions),
      ∃ m ∈ es.flatMap Clause.mentions, f m = n := by
    intro n hn
    rw [hmem, h.mentions_eq] at hn
    exact List.mem_map.1 hn
  have hnodup := (b.perm_inOrder (ds.flatMap Clause.mentions)).nodup_iff.2 hb.nodup
  have hsize : ∀ n ∈ b.inOrder (ds.flatMap Clause.mentions), n.index < b.mentions.size :=
    fun n hn =>
    (hb.mem_iff n).1 (hmem.1 hn)
  obtain ⟨z, hz, hcalls⟩ := hb.recalls.exists_identifyEach hnodup hsize
    (fun _ _ => rfl) (fun n hn => by
      obtain ⟨m, hm, rfl⟩ := hexchange n hn
      rw [h.mention_eq m hm, ← ha.mention_apply (·.declaredName?) fun _ _ _ => rfl,
        ← ha.mention_apply (·.term) fun _ _ _ => rfl]
      exact ⟨congrArg (y.mention · |>.term) (h.back m hm),
        congrArg (y.mention · |>.declaredName?) (h.back m hm)⟩)
    (fun n hn => by
      obtain ⟨m, hm, rfl⟩ := hexchange n hn
      rw [h.mention_eq m hm]
      exact ha.found.hasAdjectives_eq m
        ((a.perm_inOrder _).mem_iff.2 ((hperm.flatMap_right _).mem_iff.1 hm)))
    (h.follows ha hperm hapart hsettled)
  have hperform : (identifyPlayers ds).perform b = (.ok ⟨⟩, z) := by
    rw [perform_identifyPlayers_eq, allMentions_of_flat hb.isFlat]
    exact hz
  refine ⟨z, hperform, fun m hm => h.resembles ha (hb.identifies hperform) hperm hm ?_⟩
  have hfm : f m ∈ ds.flatMap Clause.mentions := by
    rw [h.mentions_eq]
    exact List.mem_map_of_mem hm
  rw [hcalls _ (hmem.2 hfm)]
  exact congrArg (y.call · |>.player) (h.back m hm)

end Order

/-! ## Keys agree -/

section Keys

variable {m n : MentionId} {t u : ObjectTypeId}

/-- Of the mentions of a clause only one has a role name. -/
lemma NamesOnce.eq_of_roleName_eq {c : Clause} (h : y.NamesOnce c) (hm : m ∈ c.mentions)
    (hn : n ∈ c.mentions) {roleName : RoleName} (hmname : (y.mention m).roleName = some roleName)
    (hnname : (y.mention n).roleName = some roleName) : m = n := by
  let Once (m n : MentionId) : Prop :=
    ∀ roleName, (y.mention m).roleName = some roleName → (y.mention n).roleName = some roleName →
      m = n
  have : Std.Symm Once := ⟨fun _ _ h roleName hn hm => (h roleName hm hn).symm⟩
  have hpairwise : c.mentions.Pairwise Once := (List.pairwise_filterMap.1 h).imp
    fun hne roleName hm hn => absurd rfl (hne roleName hm roleName hn)
  exact hpairwise.forall_of_forall (fun _ _ _ _ _ => rfl) hm hn roleName hmname hnname

/-- The key of a mention with a role name as its term has the player's name and the role name. -/
lemma bindingKey_of_playerByRoleName (ht : (y.mention m).player = some t)
    (hflag : (y.mention m).playerByRoleName = true) : y.bindingKey m =
      .role (y.vocabulary.nameOf t) (.named (y.mention m).term) (y.mention m).literal := by
  unfold bindingKey
  dsimp only
  rw [hflag, ht]

/-- The key of a mention that has a role name has its term and the role name. -/
lemma bindingKey_of_roleName (hflag : (y.mention m).playerByRoleName = false) {roleName : RoleName}
    (hroleName : (y.mention m).roleName = some roleName) :
    y.bindingKey m = .role (y.mention m).term roleName (y.mention m).literal := by
  unfold bindingKey
  dsimp only
  rw [hflag, hroleName]

/-- The key of any other mention has its term, but for adjectives. -/
lemma bare_bindingKey_of_none (hflag : (y.mention m).playerByRoleName = false)
    (hroleName : (y.mention m).roleName = none) :
    (y.bindingKey m).bare = .adjectival none (y.mention m).term none (y.mention m).literal := by
  unfold bindingKey
  dsimp only
  rw [hflag, hroleName]
  rfl

/-- A mention that declares the role name that another one has as its term has the same player. -/
lemma NamesSettled.player_eq (hsettled : y.NamesSettled es) (hm : m ∈ es.flatMap Clause.mentions)
    (hn : n ∈ es.flatMap Clause.mentions) (hmflag : (y.mention m).playerByRoleName = true)
    (hnflag : (y.mention n).playerByRoleName = false) (ht : (y.mention m).player = some t)
    (hkey : (y.bindingKey n).bare = (y.bindingKey m).bare) :
    (y.mention n).player = (y.mention m).player := by
  rw [bindingKey_of_playerByRoleName ht hmflag] at hkey
  cases hn' : (y.mention n).roleName with
  | none =>
    rw [bare_bindingKey_of_none hnflag hn'] at hkey
    cases hkey
  | some roleName =>
    rw [bindingKey_of_roleName hnflag hn'] at hkey
    obtain ⟨-, rfl, -⟩ := BindingKey.role.inj hkey
    exact hsettled m hm n hn hmflag (by rw [Mention.declaredName?, hn'])

namespace Identifies

variable (h : a.Identifies v forwards es y)

include h

/-- The player of a mention that declares a role name has the term as its name, or the term is a
role name. -/
lemma declaring_player (hm : m ∈ es.flatMap Clause.mentions)
    (hdeclares : (y.mention m).declaredName?.isSome)
    (ht : (y.mention m).player = some t) : y.vocabulary.nameOf t = (y.mention m).term ∨
      ¬v.Knows (y.mention m).term ∧
        ∃ k ∈ es.flatMap Clause.mentions,
          (y.mention k).declaredName? = some (y.mention m).term := by
  have hmem : y.call m ∈ (es.map y.declaringCalls).flatten :=
    mem_flatten_declaringCalls.2 ⟨m, hm, hdeclares, rfl⟩
  obtain ⟨before, after, heq⟩ := List.append_of_mem hmem
  have hnames :=
    ((follows_append_plain declares_eq_none_of_mem_plainCalls).1 h.follows).1 before _ after heq
  rw [call_player ht] at hnames
  change Call.Names v.Knows forwards before (y.mention m).term _ at hnames
  generalize y.vocabulary.nameOf t = name at hnames ⊢
  cases hnames with
  | known _ => exact .inl rfl
  | forward _ _ _ => exact .inl rfl
  | roleName hunknown hname =>
    obtain ⟨d, hd, hdeclares', -⟩ := exists_of_declared? hname
    obtain ⟨k, hk, -, rfl⟩ := mem_flatten_declaringCalls.1 (heq ▸ List.mem_append_left _ hd)
    exact .inr ⟨fun hknows => hunknown (.inl hknows), k, hk, hdeclares'⟩

/-- The player of a mention that declares no role name and does not use one has the term as its
name. -/
lemma plain_player (hm : m ∈ es.flatMap Clause.mentions)
    (hnone : (y.mention m).declaredName? = none)
    (hflag : (y.mention m).playerByRoleName = false) (ht : (y.mention m).player = some t) :
    y.vocabulary.nameOf t = (y.mention m).term := by
  obtain ⟨t', -, ht', hflag'⟩ := h.exists_player hm
  obtain rfl := Option.some.inj (ht'.symm.trans ht)
  rw [hflag, hnone, if_neg (by simp)] at hflag'
  simpa using hflag'.symm

/-- Mentions that declare the same role name for the same term have the same player. -/
lemma player_eq_of_declares (hapart : y.NamesApart v es) (hnames : ∀ e ∈ es, y.NamesOnce e)
    (hm : m ∈ es.flatMap Clause.mentions) (hn : n ∈ es.flatMap Clause.mentions) {name : String}
    (hmname : (y.mention m).roleName = some (.named name))
    (hnname : (y.mention n).roleName = some (.named name))
    (hterm : (y.mention m).term = (y.mention n).term) (ht : (y.mention m).player = some t)
    (hu : (y.mention n).player = some u) : t = u := by
  have hdeclares : ∀ {k}, (y.mention k).roleName = some (.named name) →
      (y.mention k).declaredName? = some name := fun hk => by rw [Mention.declaredName?, hk]
  obtain ⟨c, hc, hmc⟩ := List.mem_flatMap.1 hm
  obtain ⟨d, hd, hnd⟩ := List.mem_flatMap.1 hn
  by_cases hcd : c = d
  · -- in one clause a role name is declared once
    subst hcd
    obtain rfl := (hnames c hc).eq_of_roleName_eq hmc hnd hmname hnname
    exact Option.some.inj (ht.symm.trans hu)
  -- a role name that is the term of both would be declared in the clauses of both
  have hterms : ¬(¬v.Knows (y.mention m).term ∧
      ∃ k ∈ es.flatMap Clause.mentions, (y.mention k).declaredName? = some (y.mention m).term) := by
    rintro ⟨hunknown, k, hk, hkname⟩
    obtain ⟨e, he, hke⟩ := List.mem_flatMap.1 hk
    have hce : c = e := by
      by_contra hne
      exact hapart c hc e he hne m hmc (hdeclares hmname ▸ rfl) hunknown k hke hkname
    have hde : d = e := by
      by_contra hne
      rw [hterm] at hunknown hkname
      exact hapart d hd e he hne n hnd (hdeclares hnname ▸ rfl) hunknown k hke hkname
    exact hcd (hce.trans hde.symm)
  have hmt := (h.declaring_player hm (hdeclares hmname ▸ rfl) ht).resolve_right hterms
  have hnu := (h.declaring_player hn (hdeclares hnname ▸ rfl) hu).resolve_right (hterm ▸ hterms)
  exact h.recalls.valid.consistent.toWellFormed.nameOf_injective (h.recalls.valid.player_mem m t ht)
    (h.recalls.valid.player_mem n u hu) (hmt.trans (hterm.trans hnu.symm))

/-- A mention that has a player is one of the clauses. -/
lemma mem_of_player (ht : (y.mention m).player = some t) : m ∈ es.flatMap Clause.mentions := by
  by_contra hm
  rw [h.found.mention_eq_of_not_mem m fun hmem => hm ((a.perm_inOrder _).mem_iff.1 hmem),
    h.holds.player_eq] at ht
  cases ht

/-- Two mentions that have no role names as their terms have the same player if their keys differ by
adjectives at most. -/
lemma player_eq_of_not_uses (hapart : y.NamesApart v es) (hnames : ∀ e ∈ es, y.NamesOnce e)
    (hm : m ∈ es.flatMap Clause.mentions) (hn : n ∈ es.flatMap Clause.mentions)
    (hmflag : (y.mention m).playerByRoleName = false)
    (hnflag : (y.mention n).playerByRoleName = false)
    (ht : (y.mention m).player = some t) (hu : (y.mention n).player = some u)
    (hkey : (y.bindingKey m).bare = (y.bindingKey n).bare) : t = u := by
  have hundeclared : ∀ {k}, (∀ name, (y.mention k).roleName ≠ some (.named name)) →
      (y.mention k).declaredName? = none := by
    intro k hk
    rw [Mention.declaredName?]
    split
    · next name hname => exact absurd hname (hk name)
    · rfl
  have hplain : (∀ name, (y.mention m).roleName ≠ some (.named name)) →
      (∀ name, (y.mention n).roleName ≠ some (.named name)) →
      (y.mention m).term = (y.mention n).term → t = u := by
    intro hmnone hnnone hterm
    have hmt := h.plain_player hm (hundeclared hmnone) hmflag ht
    have hnu := h.plain_player hn (hundeclared hnnone) hnflag hu
    exact h.recalls.valid.consistent.toWellFormed.nameOf_injective
      (h.recalls.valid.player_mem m t ht)
      (h.recalls.valid.player_mem n u hu) (hmt.trans (hterm.trans hnu.symm))
  cases hm' : (y.mention m).roleName with
  | none =>
    rw [bare_bindingKey_of_none hmflag hm'] at hkey
    cases hn' : (y.mention n).roleName with
    | none =>
      rw [bare_bindingKey_of_none hnflag hn'] at hkey
      exact hplain (by simp [hm']) (by simp [hn']) (BindingKey.adjectival.inj hkey).2.1
    | some roleName =>
      rw [bindingKey_of_roleName hnflag hn'] at hkey
      cases hkey
  | some roleName =>
    rw [bindingKey_of_roleName hmflag hm'] at hkey
    cases hn' : (y.mention n).roleName with
    | none =>
      rw [bare_bindingKey_of_none hnflag hn'] at hkey
      cases hkey
    | some roleName' =>
      rw [bindingKey_of_roleName hnflag hn'] at hkey
      obtain ⟨hterm, rfl, -⟩ := BindingKey.role.inj hkey
      cases roleName with
      | named name => exact h.player_eq_of_declares hapart hnames hm hn hm' hn' hterm ht hu
      | subscript k => exact hplain (by simp [hm']) (by simp [hn']) hterm

/-- **Keys agree.** Where role names are declared apart, and for one player where it matters,
mentions of which the keys differ by adjectives at most have the same player. -/
theorem keysAgree (hapart : y.NamesApart v es) (hsettled : y.NamesSettled es)
    (hnames : ∀ e ∈ es, y.NamesOnce e) : y.KeysAgree := by
  intro m n t ht u hu hkey
  have hm := h.mem_of_player ht
  have hn := h.mem_of_player hu
  cases hmflag : (y.mention m).playerByRoleName <;> cases hnflag : (y.mention n).playerByRoleName
  · exact h.player_eq_of_not_uses hapart hnames hm hn hmflag hnflag ht hu hkey
  · have hplayer := hsettled.player_eq hn hm hnflag hmflag hu hkey
    exact Option.some.inj (ht.symm.trans (hplayer.trans hu))
  · have hplayer := hsettled.player_eq hm hn hmflag hnflag ht hkey.symm
    exact Option.some.inj (ht.symm.trans (hplayer.symm.trans hu))
  · rw [bindingKey_of_playerByRoleName ht hmflag, bindingKey_of_playerByRoleName hu hnflag] at hkey
    exact h.recalls.valid.consistent.toWellFormed.nameOf_injective
      (h.recalls.valid.player_mem m t ht)
      (h.recalls.valid.player_mem n u hu) (BindingKey.role.inj hkey).1

end Identifies

end Keys

end Context

/-! ## Binding flat clauses -/

namespace Compile

variable {x y : Context} {ds : List Clause}

/-- Mentions can be bound if they have players. -/
lemma exists_bindEach {ms : List MentionId} (h : ∀ m ∈ ms, (x.mention m).player.isSome) :
    ∃ y, (bindEach ms).perform x = (.ok ⟨⟩, y) := by
  induction ms generalizing x with
  | nil => exact ⟨x, rfl⟩
  | cons m ms ih =>
    obtain ⟨player, hplayer⟩ := Option.isSome_iff_exists.1 (h m List.mem_cons_self)
    have hbind := perform_bind_mention_eq_ok.2 ⟨player, hplayer, rfl⟩
    obtain ⟨y, hy⟩ := ih (x := (x.bindAs m player).2) fun n hn => by
      rw [mention_bindAs_apply (·.player) fun _ _ => rfl]
      exact h n (List.mem_cons_of_mem m hn)
    exact ⟨y, perform_bind_eq_ok.2 ⟨_, _, hbind, hy⟩⟩

/-- Flat phrases are bound by binding their mentions. -/
lemma perform_bindPhrases_flat {ps : List Phrase}
    (hflat : ∀ s ∈ ps.flatMap Phrase.slots, s.nested = [])
    {u : Unit} (h : (bindEach ((ps.flatMap Phrase.slots).map (·.mention))).perform x = (.ok u, y)) :
    (bindPhrases ps).perform x = (.ok ⟨⟩, y) := by
  have hslot : ∀ {s : Slot} {x y : Context}, s.nested = [] →
      (bindEach [s.mention]).perform x = (.ok ⟨⟩, y) → (bindSlot s).perform x = (.ok ⟨⟩, y) := by
    rintro ⟨m, nested⟩ x y rfl h
    obtain ⟨b, z, hbind, hrest⟩ := perform_bind_eq_ok.1 h
    rw [bindSlot]
    refine perform_bind_eq_ok.2 ⟨b, z, hbind, ?_⟩
    rw [bindClauses]
    exact hrest
  induction ps generalizing x with
  | nil =>
    rw [bindPhrases]
    exact h
  | cons p ps ih =>
    rw [List.flatMap_cons, List.forall_mem_append] at hflat
    rw [List.flatMap_cons, List.map_append] at h
    obtain ⟨z, hfirst, hrest⟩ := bindEach_append_eq_ok.1 h
    rw [bindPhrases]
    refine perform_bind_eq_ok.2 ⟨⟨⟩, z, ?_, ih hflat.2 hrest⟩
    cases p with
    | word text =>
      rw [bindPhrase]
      exact hfirst
    | slot s =>
      rw [bindPhrase]
      exact hslot (hflat.1 s List.mem_cons_self) hfirst
    | comparison operator left right =>
      have hsides : (bindEach ([left.mention] ++ [right.mention])).perform x = (.ok _, z) := hfirst
      obtain ⟨w, hleft, hright⟩ := bindEach_append_eq_ok.1 hsides
      rw [bindPhrase]
      exact perform_bind_eq_ok.2 ⟨⟨⟩, w, hslot (hflat.1 left List.mem_cons_self) hleft,
        hslot (hflat.1 right (List.mem_cons_of_mem _ List.mem_cons_self)) hright⟩

/-- Flat clauses that name no role twice can be bound if their mentions have players. -/
lemma exists_bindClauses (hflat : ∀ d ∈ ds, d.IsFlat) (hnames : ∀ d ∈ ds, x.NamesOnce d)
    (hplayers : ∀ m ∈ ds.flatMap Clause.mentions, (x.mention m).player.isSome) :
    ∃ y, (bindClauses ds).perform x = (.ok ⟨⟩, y) := by
  induction ds generalizing x with
  | nil => exact ⟨x, by rw [bindClauses]; rfl⟩
  | cons d ds ih =>
    rw [List.flatMap_cons, List.forall_mem_append] at hplayers
    obtain ⟨z, hz⟩ := exists_bindEach hplayers.1
    have hbinds := bindsEach_of_bindEach hz
    have hfield : ∀ {α : Type} (field : Mention → α),
        (∀ mention binding, field { mention with binding } = field mention) →
        ∀ m, field (z.mention m) = field (x.mention m) := by
      intro α field hfield m
      rw [hbinds.mention_eq m, hfield]
    obtain ⟨y, hy⟩ := ih (x := z) (fun e he => hflat e (List.mem_cons_of_mem d he))
      (fun e he => by
        have hnames' := hnames e (List.mem_cons_of_mem d he)
        unfold NamesOnce roleNames at hnames' ⊢
        simpa only [hfield (·.roleName) fun _ _ => rfl] using hnames')
      (fun m hm => by
        rw [hfield (·.player) fun _ _ => rfl]
        exact hplayers.2 m hm)
    refine ⟨y, ?_⟩
    rw [bindClauses]
    refine perform_bind_eq_ok.2 ⟨⟨⟩, z, ?_, hy⟩
    obtain ⟨phrases, qualifiers, certainty, conjunction, factType, reading, roleSequence, alignment,
      contraction⟩ := d
    rw [bindClause]
    refine perform_bind_eq_ok.2 ⟨⟨⟩, x, checkRoleNames_eq_ok.2 ⟨firstRepeated?_eq_none.2
      ⟨hnames _ List.mem_cons_self, fun _ _ => List.not_mem_nil⟩, rfl⟩, ?_⟩
    exact perform_bindPhrases_flat (hflat _ List.mem_cons_self) hz

end Compile

/-! ## Entering in another order -/

namespace Compile

variable {v : Vocabulary} {forwards : List String} {x y a b : Context} {es ds : List Clause}

/-- What entering clauses consists of. -/
lemma perform_enter_eq_ok {cs : List Script.Clause} : (enter cs).perform x = (.ok es, y) ↔
    es = (adoptAll cs x).1 ∧ ∃ z, (identifyPlayers es).perform (adoptAll cs x).2 = (.ok ⟨⟩, z) ∧
      (bindClauses es).perform z = (.ok ⟨⟩, y) := by
  have henter : (enter cs).perform x = (do
      identifyPlayers (adoptAll cs x).1
      bindClauses (adoptAll cs x).1
      pure (adoptAll cs x).1 : Compile (List Clause)).perform (adoptAll cs x).2 := rfl
  rw [henter]
  constructor
  · intro h
    obtain ⟨_, z, hidentify, hrest⟩ := perform_bind_eq_ok.1 h
    obtain ⟨_, w, hbind, hpure⟩ := perform_bind_eq_ok.1 hrest
    cases hpure
    exact ⟨rfl, z, hidentify, hbind⟩
  · rintro ⟨rfl, z, hidentify, hbind⟩
    exact perform_bind_eq_ok.2 ⟨_, z, hidentify, perform_bind_eq_ok.2 ⟨_, y, hbind, rfl⟩⟩

end Compile

namespace Context

variable {v : Vocabulary} {forwards : List String} {x y z a b : Context} {es ds : List Clause}
  {f g : MentionId → MentionId}

/-- Flat clauses have been entered, and nothing else has been bound. -/
structure Entered (v : Vocabulary) (es : List Clause) (y : Context) : Prop where
  matchable : y.Matchable
  unmerged : y.Unmerged
  valid : y.Valid
  grows : v.Grows y.vocabulary
  isFlat : ∀ e ∈ es, e.IsFlat
  nodup : (es.flatMap Clause.mentions).Nodup
  isSome_iff : ∀ m, (y.mention m).binding.isSome ↔ m ∈ es.flatMap Clause.mentions

/-- It does not matter in which order the clauses are counted. -/
lemma Entered.perm (h : y.Entered v es) (hperm : ds.Perm es) : y.Entered v ds where
  matchable := h.matchable
  unmerged := h.unmerged
  valid := h.valid
  grows := h.grows
  isFlat e he := h.isFlat e (hperm.mem_iff.1 he)
  nodup := (hperm.flatMap_right _).nodup_iff.2 h.nodup
  isSome_iff m := (h.isSome_iff m).trans (hperm.flatMap_right _).mem_iff.symm

/-- Clauses of which the players have been found are entered by binding their mentions, if keys
agree. -/
lemma Identifies.entered (h : a.Identifies v forwards es z) (hkeys : z.KeysAgree) {u : Unit}
    (hbind : (bindClauses es).perform z = (.ok u, y)) :
    y.Entered v es ∧ BindsEach (es.flatMap Clause.mentions) z y := by
  have hbindEach := bindEach_of_bindClauses es hbind
  rw [allMentions_of_flat h.holds.isFlat] at hbindEach
  have hbinds := bindsEach_of_bindEach hbindEach
  obtain ⟨hspeaks, hkeys'⟩ :=
    speaks_of_bindEach h.unbound.bound (speaks_of_unbound h.unbound.binding?_eq)
    hkeys hbindEach
  have hvalid : y.Valid := (((composes_keeps (R := Extends) fun hz => hz.valid.extends).bindClauses
    (fun m _ hy => leads_bind hy.valid m) es h.recalls.valid.extends).of_perform hbind).1.valid
  refine ⟨⟨⟨bound_of_bindClauses h.unbound hbind, hspeaks, hkeys'⟩,
    ((isBound_of_bindEach h.unbound.unmerged hbindEach).1 0 (Nat.zero_le _)).unmerged, hvalid, ?_,
    h.holds.isFlat, h.holds.nodup, fun m => ?_⟩, hbinds⟩
  · rw [hbinds.vocabulary_eq, ← h.holds.vocabulary_eq]
    exact h.found.grows
  · rw [hbinds.isSome_iff, h.unbound.binding_eq]
    simp

/-- Mentions that have been bound are alike if they were before. -/
lemma Resembles.of_bindsEach {ms ns : List MentionId} {m n : MentionId} (h : x.Resembles z m n)
    {x' z' : Context} (hx : BindsEach ms x x') (hz : BindsEach ns z z') : x'.Resembles z' m n := by
  have hm := hx.mention_eq m
  have hn := hz.mention_eq n
  refine ⟨?_, ?_, ?_, ?_, ?_, ?_, ?_⟩
  all_goals rw [hm, hn]
  · exact h.term_eq
  · exact h.leading_eq
  · exact h.trailing_eq
  · exact h.roleName_eq
  · exact h.literal_eq
  · exact h.playerByRoleName_eq
  · rw [hx.vocabulary_eq, hz.vocabulary_eq]
    exact h.player

/-- A clause names its roles once with other mentions if these are alike. -/
lemma NamesOnce.renames {e d : Clause} (h : x.NamesOnce e) (hrenames : e.Renames f d)
    (halike : ∀ m ∈ e.mentions, x.Resembles z m (f m)) : z.NamesOnce d := by
  unfold NamesOnce roleNames at h ⊢
  have hsame : ∀ m ∈ e.mentions,
    ((fun n => (z.mention n).roleName) ∘ f) m = (x.mention m).roleName :=
    fun m hm => (halike m hm).roleName_eq
  rwa [hrenames.mentions_eq, List.filterMap_map, List.filterMap_congr hsame]

/-- **Clauses can be entered in another order.** Let flat clauses be entered into the context of a
declaration, role names being declared apart and for one player where it matters. The same clauses
in another order are entered as well. They differ in the places of their mentions, and each mention
is like the one that it has been exchanged for. -/
theorem exists_enter_reordered (hv : v.Consistent) {cs cs' : List Script.Clause}
    (hcs : ∀ c ∈ cs, c.IsFlat) (hcs' : ∀ c ∈ cs', c.IsFlat) {es₀ : List Clause}
    (h : (enter cs).perform { vocabulary := v, forwardTerms := forwards } = (.ok es₀, y))
    (hapart : y.NamesApart v es₀) (hsettled : y.NamesSettled es₀) (hperm : es.Perm es₀)
    (hes : List.Forall₂
      (adoptAll cs { vocabulary := v, forwardTerms := forwards }).2.HasTaken cs' es) :
    ∃ ds y' f g, (enter cs').perform { vocabulary := v, forwardTerms := forwards } = (.ok ds, y') ∧
      y.Entered v es ∧ y'.Entered v ds ∧ List.Forall₂ (Clause.Renames f) es ds ∧
      SamePlaces f g y y' := by
  obtain ⟨hes₀, z, hidentify, hbind⟩ := perform_enter_eq_ok.1 h
  obtain ⟨ha₀, -⟩ := holds_adoptAll hv forwards hcs (Prod.ext hes₀.symm rfl)
  have hz := ha₀.identifies hidentify
  have hbinds := bindsEach_of_bindEach (bindEach_of_bindClauses _ hbind)
  have hfield : ∀ {α : Type} (field : Mention → α),
      (∀ mention binding, field { mention with binding } = field mention) →
      ∀ m, field (y.mention m) = field (z.mention m) := by
    intro α field hfield m
    rw [hbinds.mention_eq m, hfield]
  have hdeclared := hfield (·.declaredName?) fun _ _ => rfl
  have hterm := hfield (·.term) fun _ _ => rfl
  have hapart' : z.NamesApart v es₀ := by
    simpa only [NamesApart, hdeclared, hterm] using hapart
  have hsettled' : z.NamesSettled es₀ := by
    simpa only [NamesSettled, hdeclared, hterm, hfield (·.player) fun _ _ => rfl,
      hfield (·.playerByRoleName) fun _ _ => rfl] using hsettled
  have hnames : ∀ e ∈ es₀, z.NamesOnce e := fun e he =>
    ((namesOnce_of_bindClauses _ hbind).2 e he).here
  have hkeys := hz.keysAgree hapart' hsettled' hnames
  obtain ⟨ds, b, hadopt⟩ : ∃ ds b,
    adoptAll cs' { vocabulary := v, forwardTerms := forwards } = (ds, b) :=
    ⟨_, _, rfl⟩
  obtain ⟨hb, hds⟩ := holds_adoptAll hv forwards hcs' hadopt
  obtain ⟨f, g, hexchanges⟩ := exists_exchanges (ha₀.perm hperm) hb hes hds
  obtain ⟨z', hidentify', halike⟩ := hexchanges.exists_identifyPlayers hz hperm hb hapart' hsettled'
  have hz' := hb.identifies hidentify'
  have hexchange : ∀ n ∈ ds.flatMap Clause.mentions, ∃ m ∈ es.flatMap Clause.mentions, f m = n := by
    intro n hn
    rw [hexchanges.mentions_eq] at hn
    exact List.mem_map.1 hn
  have hkeys' : z'.KeysAgree := by
    refine hkeys.of_alike hz'.recalls.valid.consistent.toWellFormed fun n hn => ?_
    obtain ⟨t, ht⟩ := Option.isSome_iff_exists.1 hn
    obtain ⟨m, hm, rfl⟩ := hexchange n (hz'.mem_of_player ht)
    exact ⟨m, halike m hm⟩
  have hnames' : ∀ d ∈ ds, z'.NamesOnce d := by
    intro d hd
    obtain ⟨e, he, hrenames⟩ := exists_of_forall₂ hexchanges.renames hd
    exact (hnames e (hperm.mem_iff.1 he)).renames hrenames fun m hm =>
      halike m (List.mem_flatMap.2 ⟨e, he, hm⟩)
  obtain ⟨y', hbind'⟩ : ∃ y', (bindClauses ds).perform z' = (.ok ⟨⟩, y') := by
    refine exists_bindClauses hb.isFlat hnames' fun n hn => ?_
    obtain ⟨t, -, ht, -⟩ := hz'.exists_player hn
    exact ht ▸ rfl
  obtain ⟨hy, -⟩ := hz.entered hkeys hbind
  obtain ⟨hy', hbinds'⟩ := hz'.entered hkeys' hbind'
  have henter : (enter cs').perform { vocabulary := v, forwardTerms := forwards } = (.ok ds, y') :=
    perform_enter_eq_ok.2 (hadopt ▸ ⟨rfl, z', hidentify', hbind'⟩)
  have hisSome := (hy.perm hperm).isSome_iff
  refine ⟨ds, y', f, g, henter, hy.perm hperm, hy', hexchanges.renames, ?_⟩
  constructor
  · intro m hm
    rw [hy'.isSome_iff, hexchanges.mentions_eq]
    exact List.mem_map_of_mem ((hisSome m).1 hm)
  · intro n hn
    obtain ⟨m, hm, rfl⟩ := hexchange n ((hy'.isSome_iff n).1 hn)
    exact ⟨m, (hisSome m).2 hm, rfl⟩
  · exact fun {m} hm => hexchanges.back m ((hisSome m).1 hm)
  · exact fun {m} hm => (halike m ((hisSome m).1 hm)).of_bindsEach hbinds hbinds'

end Context

end FactModel
