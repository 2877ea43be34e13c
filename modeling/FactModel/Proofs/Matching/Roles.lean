import FactModel.Proofs.Matching.Borrowing
import FactModel.Proofs.Matching.Through
import FactModel.Proofs.Matching.Validity
set_option autoImplicit false

/-!
# The roles of the mentions of a clause

A clause that invokes a fact type gives its mentions roles of that fact type. Only the mentions of
the clause get roles then, and as every mention stands in one clause only, it keeps the role that
its own clause gives it.

## Main definitions

* `FactModel.nestedMentions` — the mentions of the clauses nested under slots.
* `FactModel.Context.RolesFit` — the roles of the mentions of a clause are roles of its fact type.
* `FactModel.Context.GivesRoles` — only certain mentions have been given roles.

## Main results

* `FactModel.Clause.perm_allMentions` — a clause has its own mentions and those nested in it.
* `FactModel.Compile.ends_resolve_fits` — what resolves a clause gives roles that fit to its
  mentions, at every depth, and to no others.
* `FactModel.Compile.resolveAll_fits` — the roles of the mentions of resolved clauses fit.
-/

namespace FactModel

open Attempt

/-! ## Mentions of a clause and mentions nested in it -/

/-- The mentions of the clauses nested under slots. -/
def nestedMentions (ss : List Slot) : List MentionId :=
  ss.flatMap fun s => allMentions s.nested

/-- The mentions nested under slots put together are those of both. -/
lemma nestedMentions_append (ss ts : List Slot) :
    nestedMentions (ss ++ ts) = nestedMentions ss ++ nestedMentions ts :=
  List.flatMap_append

/-- A mention is nested under slots if it is one of a clause under one of them. -/
lemma mem_nestedMentions {ss : List Slot} {m : MentionId} :
    m ∈ nestedMentions ss ↔ ∃ s ∈ ss, ∃ d ∈ s.nested, m ∈ d.allMentions := by
  simp only [nestedMentions, allMentions_eq, List.mem_flatMap]

/-- The mentions of a phrase are those of its slots and those nested under them. -/
lemma Phrase.perm_allSlots (p : Phrase) :
    (p.allSlots.map (·.mention)).Perm (p.slots.map (·.mention) ++ nestedMentions p.slots) := by
  cases p with
  | word text => exact .nil
  | slot s =>
    rw [allSlots, Slot.all_map_mention]
    simp [slots, nestedMentions]
  | comparison operator left right =>
    rw [allSlots, List.map_append, Slot.all_map_mention, Slot.all_map_mention]
    simp only [slots, nestedMentions, List.map_cons, List.map_nil, List.flatMap_cons,
      List.flatMap_nil, List.append_nil, List.cons_append, List.nil_append]
    exact .cons _ List.perm_middle

/-- The mentions of a clause at all depths are its own and those nested in it. -/
theorem Clause.perm_allMentions (c : Clause) :
    c.allMentions.Perm (c.mentions ++ nestedMentions c.slots) := by
  rw [Clause.allMentions_eq, Clause.mentions, Clause.slots]
  induction c.phrases with
  | nil => exact .nil
  | cons p ps ih =>
    simp only [List.flatMap_cons, List.map_append, nestedMentions_append]
    refine (p.perm_allSlots.append ih).trans ?_
    simp only [List.append_assoc]
    exact List.Perm.append_left _ (List.perm_append_comm_assoc ..)

namespace Clause

variable {c d : Clause} {m : MentionId}

/-- The mentions of a nested clause are among those of the clause around it. -/
lemma allMentions_subset_of_nested {s : Slot} (hs : s ∈ c.slots) (hd : d ∈ s.nested) :
    d.allMentions ⊆ c.allMentions := fun _ hm =>
  c.perm_allMentions.mem_iff.2 (List.mem_append_right _ (mem_nestedMentions.2 ⟨s, hs, d, hd, hm⟩))

/-- Where no mention stands twice in a clause, what is nested in it has none of its own mentions. -/
lemma disjoint_nestedMentions (h : c.allMentions.Nodup) :
    c.mentions.Disjoint (nestedMentions c.slots) :=
  List.disjoint_of_nodup_append (c.perm_allMentions.nodup_iff.1 h)

/-- No mention is nested twice in a clause whose mentions are all different. -/
lemma nodup_nestedMentions (h : c.allMentions.Nodup) : (nestedMentions c.slots).Nodup :=
  (c.perm_allMentions.nodup_iff.1 h).of_append_right

end Clause

/-! ## Giving roles -/

namespace Context

variable {x y z : Context} {c d : Clause}

/-- Every role that a mention of a clause has is a role of the fact type of the clause. -/
def RolesFit (x : Context) (c : Clause) : Prop :=
  ∀ m ∈ c.mentions, ∀ r ∈ (x.mention m).role, ∃ f ∈ c.factType, r ∈ (x.vocabulary.factType f).roles

/-- A valid clause whose mentions have roles that fit. -/
structure Fits (x : Context) (c : Clause) : Prop where
  valid : c.Valid x.vocabulary
  rolesFit : x.RolesFit c

/-- A context has become another one, which is valid, and only certain mentions have been given
roles. -/
structure GivesRoles (x : Context) (may : MentionId → Prop) (y : Context) : Prop
    extends Extends x y where
  role_eq : ∀ m, ¬may m → (y.mention m).role = (x.mention m).role

variable {may may' : MentionId → Prop}

/-- A valid context that does not change gives roles to none. -/
lemma Valid.givesRoles (h : x.Valid) (may : MentionId → Prop) : x.GivesRoles may x :=
  ⟨h.extends, fun _ _ => rfl⟩

namespace GivesRoles

/-- More mentions may be given roles. -/
lemma weaken (h : x.GivesRoles may y) (hmay : ∀ m, may m → may' m) : x.GivesRoles may' y :=
  ⟨h.toExtends, fun m hm => h.role_eq m fun hm' => hm (hmay m hm')⟩

/-- Giving roles may go on. -/
lemma trans (h : x.GivesRoles may y) (h' : y.GivesRoles may z) : x.GivesRoles may z :=
  ⟨Trans.trans h.toExtends h'.toExtends, fun m hm => (h'.role_eq m hm).trans (h.role_eq m hm)⟩

/-- Roles that fit still fit if none of the mentions has been given another one. -/
lemma fits (h : x.GivesRoles may y) (hx : x.Valid) (hc : x.Fits c)
    (hdisjoint : ∀ m ∈ c.mentions, ¬may m) : y.Fits c where
  valid := hc.valid.grows h.grows
  rolesFit m hm r hr := by
    rw [h.role_eq m (hdisjoint m hm)] at hr
    obtain ⟨f, hf, hrole⟩ := hc.rolesFit m hm r hr
    refine ⟨f, hf, ?_⟩
    obtain ⟨hmem, hfactType⟩ := hx.consistent.mem_roles.1 hrole
    exact h.valid.consistent.mem_roles.2 ⟨h.grows.mem_roleIds hmem,
      (h.grows.role hmem).factType_eq.trans hfactType⟩

/-- The roles of a clause still fit if none of its mentions are given others. -/
lemma everywhere_fits (h : x.GivesRoles may y) (hx : x.Valid) (hc : c.Everywhere x.Fits)
    (hdisjoint : ∀ m ∈ c.allMentions, ¬may m) : c.Everywhere y.Fits := by
  induction hc with
  | @intro c here _ ih =>
    refine .intro (h.fits hx here fun m hm => hdisjoint m (c.mentions_subset_allMentions hm))
      fun s hs d hd => ?_
    exact ih s hs d hd fun m hm =>
      hdisjoint m (Clause.allMentions_subset_of_nested hs hd hm)

end GivesRoles

namespace GivesRoles

variable {as bs : List MentionId}

/-- Roles given to some mentions and then to others are given to both. -/
lemma append (h : x.GivesRoles (· ∈ as) y) (h' : y.GivesRoles (· ∈ bs) z) :
    x.GivesRoles (· ∈ as ++ bs) z :=
  (h.weaken fun _ => List.mem_append_left bs).trans (h'.weaken fun _ => List.mem_append_right as)

/-- What is nested under slots still fits if other mentions have been given roles. -/
lemma below_fits (h : x.GivesRoles (· ∈ bs) y) (hx : x.Valid) {ss : List Slot}
    (hss : ∀ s ∈ ss, s.Below x.Fits) (hdisjoint : (nestedMentions ss).Disjoint bs) :
    ∀ s ∈ ss, s.Below y.Fits := fun s hs d hd =>
  h.everywhere_fits hx (hss s hs d hd) fun _ hm =>
    hdisjoint (mem_nestedMentions.2 ⟨s, hs, d, hd, hm⟩)

end GivesRoles

/-- A clause of which no mention has a role. -/
lemma rolesFit_of_none (h : ∀ m ∈ c.mentions, (x.mention m).role = none) : x.RolesFit c := by
  intro m hm r hr
  rw [h m hm] at hr
  cases hr

/-- The mentions of a clause without a fact type have no roles. -/
lemma RolesFit.role_eq_none (h : x.RolesFit c) (hc : c.factType = none) {m : MentionId}
    (hm : m ∈ c.mentions) : (x.mention m).role = none := by
  refine Option.eq_none_iff_forall_not_mem.2 fun r hr => ?_
  obtain ⟨f, hf, -⟩ := h m hm r hr
  rw [hc] at hf
  cases hf

/-- Taking a mention out of its binding gives no role. -/
lemma role_unbind (x : Context) (m n : MentionId) :
    ((x.unbind m).mention n).role = (x.mention n).role := by
  rw [mention_unbind]
  split
  · next hn => rw [hn]
  · rfl

/-- The vocabulary stays, and whatever role a mention has been given is one that it may have. -/
structure GivesEach (P : MentionId → RoleId → Prop) (x y : Context) : Prop where
  vocabulary_eq : y.vocabulary = x.vocabulary
  role : ∀ m, (y.mention m).role = (x.mention m).role ∨ ∃ r ∈ (y.mention m).role, P m r

variable {P : MentionId → RoleId → Prop}

/-- A context that does not change gives roles that mentions may have. -/
lemma GivesEach.refl (x : Context) : x.GivesEach P x :=
  ⟨rfl, fun _ => .inl rfl⟩

instance : Trans (GivesEach P) (GivesEach P) (GivesEach P) where
  trans {x y z} h h' := by
    refine ⟨h'.vocabulary_eq.trans h.vocabulary_eq, fun m => ?_⟩
    rcases h'.role m with heq | hgiven
    · rw [heq]
      exact h.role m
    · exact .inr hgiven

/-- What changes no role gives only roles that mentions may have. -/
lemma givesEach_of_role_eq (hv : y.vocabulary = x.vocabulary)
    (h : ∀ m, (y.mention m).role = (x.mention m).role) : x.GivesEach P y :=
  ⟨hv, fun m => .inl (h m)⟩

/-- A mention may be given a role that it may have. -/
lemma givesEach_modifyMention {m : MentionId} {change : Mention → Mention} {r : RoleId}
    (hrole : ∀ mention, (change mention).role = some r) (hm : P m r) :
    x.GivesEach P (x.modifyMention m change) := by
  refine ⟨rfl, fun n => ?_⟩
  rw [mention_modifyMention]
  split
  · next hn => exact .inr ⟨r, hrole _, hn.1 ▸ hm⟩
  · exact .inl rfl

/-- A clause has become another one, which invokes a fact type: once the vocabulary has that fact
type, mentions of the clause have been given roles of it. -/
def GivesRolesOf (x : Context) (c d : Clause) (z : Context) : Prop :=
  ∃ v, { x with vocabulary := v }.GivesEach
    (fun m r => m ∈ c.mentions ∧ ∃ f ∈ d.factType, r ∈ (v.factType f).roles) z

/-- A clause given the roles of the fact type that it invokes has roles that fit. -/
lemma GivesRolesOf.fits (h : x.GivesRolesOf c d z) (hxz : x.Extends z) (hc : x.RolesFit c)
    (hnone : c.factType = none) (hmentions : d.mentions = c.mentions) :
    x.GivesRoles (· ∈ c.mentions) z ∧ z.RolesFit d := by
  obtain ⟨v, hv⟩ := h
  refine ⟨⟨hxz, fun m hm => ?_⟩, fun m hm r hr => ?_⟩
  · rcases hv.role m with heq | ⟨r, -, hmem, -⟩
    · exact heq
    · exact absurd hmem hm
  · rw [hmentions] at hm
    rcases hv.role m with heq | ⟨r', hr', -, hgiven⟩
    · have hrole : (z.mention m).role = none := heq.trans (hc.role_eq_none hnone hm)
      rw [hrole] at hr
      cases hr
    · obtain rfl : r = r' := Option.mem_unique hr hr'
      rwa [hv.vocabulary_eq]

end Context

open Context

namespace Compile

variable {x y z : Context} {c d : Clause} {P : MentionId → RoleId → Prop}

/-! ## Resolving one clause -/

/-- Applying a placement gives its mention its role. -/
lemma leads_applyPlacement_givesEach {p : Placement} (hp : P p.mention p.role)
    (s : RoleSequenceId) (x : Context) :
    (applyPlacement s p).Leads (GivesEach P) x fun _ _ => True := by
  have hbind : ∀ y : Context, (Compile.bind p.mention).Leads (GivesEach P) y fun _ _ => True := by
    intro y
    refine Leads.bind (leads_playerOf (.refl y)) fun player u _ hu => ?_
    obtain ⟨rfl, -⟩ := hu
    exact ⟨givesEach_of_role_eq (vocabulary_bindAs ..)
      (mention_bindAs_apply Mention.role (fun _ _ => rfl) p.mention player), trivial⟩
  have hunbind : ∀ y : Context, y.GivesEach P (y.unbind p.mention) := fun y =>
    givesEach_of_role_eq (vocabulary_unbind ..) (role_unbind y p.mention)
  refine leads_get_bind (leads_modify_bind
    (givesEach_modifyMention (r := p.role) (fun _ => rfl) hp) (leads_get_bind ?_))
  dsimp only
  split
  · exact Leads.bind (leads_modify_bind (hunbind _) (hbind _)) fun _ y _ _ =>
      leads_pure (.refl y) trivial
  · exact leads_pure (.refl _) trivial

/-- Putting a clause into the words of a reading gives its mentions roles of that reading. -/
lemma leads_applyAlignment_givesEach {a : Alignment}
    (h : ∀ p ∈ a.placements, P p.mention p.role) (c : Clause) (x : Context) :
    (applyAlignment c a).Leads (GivesEach P) x fun d _ => d = c.aligned a := by
  refine Leads.bind (Leads.forM (.refl x) fun p hp y _ => ?_) fun _ y _ _ =>
    leads_pure (.refl y) rfl
  exact (leads_applyPlacement_givesEach (h p (List.mem_reverse.1 hp)) a.roleSequence y).imp
    fun _ z _ _ => .refl z

/-- The mentions of a comparison get roles of its fact type. -/
lemma ends_resolveComparison_givesRoles (h : x.Valid) (hc : c.Valid x.vocabulary)
    {operator : String} {left right : Slot}
    (hcomparison : c.comparison? = some (operator, left, right)) :
    (resolveComparison c operator left right).Ends x (fun d => x.GivesRolesOf c d)
      fun _ => True := by
  have hphrases := Clause.phrases_of_comparison? hcomparison
  have hmentions : c.mentions = [left.mention, right.mention] := by
    rw [Clause.mentions, Clause.slots, hphrases]
    rfl
  have hoperator : Template.IsWord operator :=
    hc.isPlain (.comparison operator left right) (by rw [hphrases]; exact List.mem_cons_self)
  refine ends_bind.2 (Ends.imp (leads_playerOf (R := Eq) rfl) ?_ fun _ _ => trivial)
  rintro leftPlayer y ⟨-, rfl, hleft⟩
  refine ends_bind.2 (Ends.imp (leads_playerOf (R := Eq) rfl) ?_ fun _ _ => trivial)
  rintro rightPlayer y ⟨-, rfl, hright⟩
  refine ends_bind.2 (ends_within.2 (Ends.imp (Vocabulary.leads_comparisonFactType h.consistent
    hoperator (h.player_mem _ _ hleft) (h.player_mem _ _ hright)) ?_ fun _ _ => trivial))
  rintro f v ⟨hv, -, hreadings⟩
  refine ends_bind.2 (ends_get.2 ?_)
  obtain ⟨r, more, hr⟩ := List.exists_cons_of_ne_nil hreadings
  dsimp only
  rw [hr, List.headD_cons]
  obtain ⟨hreading, hfactType⟩ := hv.consistent.mem_readings.1 (hr ▸ List.mem_cons_self)
  refine ends_bind.2 (Ends.imp (Leads.forM (R := GivesEach fun m r => m ∈ c.mentions ∧
    ∃ g ∈ some f, r ∈ (v.factType g).roles) (.refl _) fun item hitem y _ => ?_)
      (fun _ z hz => ⟨v, hz.1⟩) fun _ _ => trivial)
  obtain ⟨hmention, hrole⟩ := List.of_mem_zip (List.fst_mem_of_mem_zipIdx hitem)
  obtain ⟨ref, href, hrefrole⟩ := List.mem_map.1 hrole
  refine leads_modify (givesEach_modifyMention (fun _ => rfl) ⟨hmentions ▸ hmention, f, rfl, ?_⟩)
    (.refl _)
  rw [← hrefrole, ← hfactType]
  exact hv.consistent.ref_mem_roles hreading href

/-- A clause that invokes a reading has its mentions in roles of the fact type. -/
lemma ends_invokeReading_givesRoles (options : MatchOptions) (h : x.Valid) (c : Clause) :
    (invokeReading options c).Ends x (fun r z => (r = none → z = x) ∧
      ∀ d ∈ r, x.GivesRolesOf c d z) fun _ => True := by
  refine ends_bind.2 (ends_get.2 (ends_bind.2 (ends_ofExcept.2 ?_)))
  split
  · next r hselect =>
    cases r with
    | none => exact ⟨fun _ => rfl, fun _ hd => nomatch hd⟩
    | some a =>
      obtain ⟨htried, halign⟩ := mem_rank.1 (mem_of_select hselect)
      obtain ⟨-, f, hf⟩ := mem_triedReadings htried
      have hreading := (h.consistent.mem_readings.1 hf).1
      obtain ⟨-, hwalks, -, hfactType, -, -⟩ := align_eq_ok_iff.1 halign
      have hgives := leads_applyAlignment_givesEach (a := a) (P := fun m r => m ∈ c.mentions ∧
        ∃ g ∈ some a.factType, r ∈ (x.vocabulary.factType g).roles) (fun p hp => by
          obtain ⟨s, hs, htakes⟩ := hwalks.takes_of_mem hp
          obtain ⟨ref, href, hrole⟩ := role_of_mem_placements halign hp
          refine ⟨htakes.mention_eq ▸ List.mem_map.2 ⟨s, hs, rfl⟩, _, rfl, ?_⟩
          rw [hrole, hfactType]
          exact h.consistent.ref_mem_roles hreading href) c x
      refine ends_map.2 (Ends.imp hgives ?_ fun _ _ => trivial)
      rintro d z ⟨hz, rfl⟩
      refine ⟨fun hn => absurd hn (Option.some_ne_none _), ?_⟩
      rintro e ⟨⟩
      exact ⟨x.vocabulary, hz⟩
  · trivial

/-- What resolves a clause gives roles that fit to its mentions and to no others. -/
theorem ends_resolveFlat_fits (options : MatchOptions) (h : x.Valid) (hc : x.Fits c)
    (hnone : c.factType = none) :
    (resolveFlat options c).Ends x (fun r y => x.GivesRoles (· ∈ c.mentions) y ∧
      (r = none → y = x) ∧ ∀ d ∈ r, y.Fits d) fun _ => True := by
  have hgives : (resolveFlat options c).Ends x (fun r z => (r = none → z = x) ∧
      ∀ d ∈ r, x.GivesRolesOf c d z) fun _ => True := by
    unfold resolveFlat
    split
    · next hcomparison =>
      refine ends_map.2 ((ends_resolveComparison_givesRoles h hc.valid hcomparison).imp
        (fun d z hd => ⟨fun hn => absurd hn (Option.some_ne_none _), ?_⟩) fun _ => id)
      rintro e ⟨⟩
      exact hd
    · refine ends_bind.2 (ends_get.2 ?_)
      split
      · refine ⟨fun hn => absurd hn (Option.some_ne_none _), fun d _ => ?_⟩
        exact ⟨x.vocabulary, .refl x⟩
      · exact ends_invokeReading_givesRoles options h c
  have hall := Ends.and (Ends.and (leads_resolveFlat h hc.valid options)
    (ends_resolveFlat_keepsMentions options c x)) hgives
  refine Ends.imp hall (fun r z hr => ?_) fun _ _ => trivial
  obtain ⟨⟨⟨hextends, hvalid⟩, hkeeps⟩, hunmatched, hgiven⟩ := hr
  cases r with
  | none =>
    obtain rfl := hunmatched rfl
    exact ⟨h.givesRoles _, fun _ => rfl, fun _ hd => nomatch hd⟩
  | some d =>
    have hfits := (hgiven d rfl).fits hextends hc.rolesFit hnone (hkeeps d rfl).mentions_eq
    refine ⟨hfits.1, hunmatched, ?_⟩
    rintro e ⟨⟩
    exact ⟨hvalid d rfl, hfits.2⟩

/-! ## Resolving nested clauses -/

/-- Once a clause is resolved its roles fit, and only its mentions have been given any. -/
lemma ends_resolveItself_fits (options : MatchOptions) (h : x.Valid) (hc : c.Everywhere x.Fits)
    (hnone : c.factType = none) (hnodup : c.allMentions.Nodup) :
    (ofResolved (resolveItself options c)).Ends x (fun r y =>
      x.GivesRoles (· ∈ c.mentions) y ∧ r.1.Everywhere y.Fits) fun _ => True := by
  rw [ofResolved_resolveItself]
  refine ends_bind.2 (Ends.imp (Ends.and (ends_resolveFlat_fits options h hc.here hnone)
    (ends_resolveFlat_slots options c x)) ?_ fun _ _ => trivial)
  rintro r y ⟨⟨hgives, hunmatched, hfits⟩, hslots⟩
  cases r with
  | none =>
    obtain rfl := hunmatched rfl
    exact ⟨hgives, hc⟩
  | some d =>
    have hbelow := hgives.below_fits h hc.nested
      (List.disjoint_symm (Clause.disjoint_nestedMentions hnodup))
    exact ⟨hgives, .intro (hfits d rfl) fun s hs => hbelow s (hslots d rfl hs)⟩

mutual

/-- Once a slot is resolved the roles of what is nested in it fit. -/
lemma ends_resolveSlot_fits (options : MatchOptions) : ∀ (s : Slot) {x : Context}, x.Valid →
    s.Below x.Fits → (nestedMentions [s]).Nodup →
    (ofResolved (resolveSlot options s)).Ends x (fun r y =>
      x.GivesRoles (· ∈ nestedMentions [s]) y ∧ r.1.mention = s.mention ∧
        nestedMentions [r.1] = nestedMentions [s] ∧ r.1.Below y.Fits) fun _ => True
  | ⟨m, nested⟩, x, h, hs, hnodup => by
    have hsingle : ∀ cs, nestedMentions [⟨m, cs⟩] = allMentions cs := fun cs =>
      List.flatMap_singleton ..
    rw [hsingle] at hnodup ⊢
    rw [ofResolved_resolveSlot]
    refine ends_bind.2 ((ends_resolveNested_fits options m nested h hs hnodup).imp ?_ fun _ => id)
    rintro r y ⟨hgives, hmentions, hbelow⟩
    exact ⟨hgives, rfl, (hsingle _).trans hmentions, hbelow⟩

/-- Once a phrase is resolved the roles of what is nested in it fit. -/
lemma ends_resolvePhrase_fits (options : MatchOptions) : ∀ (p : Phrase) {x : Context}, x.Valid →
    (∀ s ∈ p.slots, s.Below x.Fits) → (nestedMentions p.slots).Nodup →
    (ofResolved (resolvePhrase options p)).Ends x (fun r y =>
      x.GivesRoles (· ∈ nestedMentions p.slots) y ∧
        nestedMentions r.1.slots = nestedMentions p.slots ∧ ∀ s ∈ r.1.slots, s.Below y.Fits)
      fun _ => True
  | .word text, x, h, _, _ => ⟨h.givesRoles _, rfl, fun _ hs => nomatch hs⟩
  | .slot s, x, h, hp, hnodup => by
    rw [ofResolved_resolvePhrase_slot]
    refine ends_bind.2 ((ends_resolveSlot_fits options s h (hp s List.mem_cons_self)
      hnodup).imp ?_ fun _ => id)
    rintro r y ⟨hgives, -, hmentions, hbelow⟩
    exact ⟨hgives, hmentions, fun t ht => List.mem_singleton.1 ht ▸ hbelow⟩
  | .comparison _ left right, x, h, hp, hnodup => by
    have hpair : ∀ s t : Slot, nestedMentions [s, t] = nestedMentions [s] ++ nestedMentions [t] :=
      fun s t => nestedMentions_append [s] [t]
    change (nestedMentions [left, right]).Nodup at hnodup
    rw [hpair, List.nodup_append'] at hnodup
    rw [ofResolved_resolvePhrase_comparison]
    refine ends_bind.2 ((ends_resolveSlot_fits options left h (hp left List.mem_cons_self)
      hnodup.1).imp ?_ fun _ => id)
    rintro r y ⟨hleft, -, hrleft, hbelow⟩
    have hright : ∀ s ∈ [right], s.Below y.Fits := hleft.below_fits h
      (fun s hs => hp s (List.mem_cons_of_mem left hs)) (List.disjoint_symm hnodup.2.2)
    refine ends_bind.2 ((ends_resolveSlot_fits options right hleft.valid
      (hright right List.mem_cons_self) hnodup.2.1).imp ?_ fun _ => id)
    rintro q z ⟨hgives, -, hqright, hbelow'⟩
    have hkept : ∀ s ∈ [r.1], s.Below z.Fits := hgives.below_fits hleft.valid
      (fun s hs => List.mem_singleton.1 hs ▸ hbelow) (hrleft ▸ hnodup.2.2)
    refine ⟨?_, ?_, fun s hs => ?_⟩
    · change x.GivesRoles (· ∈ nestedMentions [left, right]) z
      rw [hpair]
      exact hleft.append hgives
    · change nestedMentions [r.1, q.1] = nestedMentions [left, right]
      rw [hpair, hpair, hrleft, hqright]
    · rcases List.mem_pair.1 hs with rfl | rfl
      · exact hkept _ List.mem_cons_self
      · exact hbelow'

/-- Once phrases are resolved the roles of what is nested in them fit. -/
lemma ends_resolvePhrases_fits (options : MatchOptions) : ∀ (ps : List Phrase) {x : Context},
    x.Valid → (∀ s ∈ ps.flatMap Phrase.slots, s.Below x.Fits) →
    (nestedMentions (ps.flatMap Phrase.slots)).Nodup →
    (ofResolved (resolvePhrases options ps)).Ends x (fun r y =>
      x.GivesRoles (· ∈ nestedMentions (ps.flatMap Phrase.slots)) y ∧
        ∀ s ∈ r.1.flatMap Phrase.slots, s.Below y.Fits) fun _ => True
  | [], x, h, _, _ => ⟨h.givesRoles _, fun _ hs => nomatch hs⟩
  | p :: ps, x, h, hps, hnodup => by
    rw [List.flatMap_cons, nestedMentions_append, List.nodup_append'] at hnodup
    rw [List.flatMap_cons, nestedMentions_append, ofResolved_resolvePhrases_cons]
    refine ends_bind.2 ((ends_resolvePhrase_fits options p h
      (fun s hs => hps s (List.mem_append_left _ hs)) hnodup.1).imp ?_ fun _ => id)
    rintro r y ⟨hfirst, hmentions, hbelow⟩
    have hrest := hfirst.below_fits h (fun s hs => hps s (List.mem_append_right _ hs))
      (List.disjoint_symm hnodup.2.2)
    refine ends_bind.2 ((ends_resolvePhrases_fits options ps hfirst.valid hrest hnodup.2.1).imp ?_
      fun _ => id)
    rintro q z ⟨hgives, hbelow'⟩
    have hkept := hgives.below_fits hfirst.valid hbelow (hmentions ▸ hnodup.2.2)
    refine ⟨hfirst.append hgives, fun s hs => ?_⟩
    exact (List.mem_append.1 hs).elim (hkept s) (hbelow' s)

/-- What resolves a clause gives roles that fit to its mentions, at every depth, and to no
others. -/
theorem ends_resolve_fits (options : MatchOptions) : ∀ (c : Clause) {x : Context}, x.Valid →
    c.Everywhere x.Fits → c.factType = none → c.allMentions.Nodup →
    (ofResolved (resolve options c)).Ends x (fun r y =>
      x.GivesRoles (· ∈ c.allMentions) y ∧ r.1.Everywhere y.Fits) fun _ => True
  | ⟨phrases, qualifiers, certainty, conjunction, factType, reading, roleSequence, alignment,
      contraction⟩, x, h, hc, hnone, hnodup => by
    have hdisjoint := Clause.disjoint_nestedMentions hnodup
    rw [ofResolved_resolve]
    refine ends_bind.2 (Ends.imp (Ends.and (ends_resolvePhrases_fits options phrases h hc.nested
      (Clause.nodup_nestedMentions hnodup)) (ends_resolvePhrases_keepsMentions options phrases x))
        ?_ fun _ _ => trivial)
    rintro r y ⟨⟨hgives, hbelow⟩, hkeeps⟩
    have hkept := Clause.keepsMentions_withPhrases (c := ⟨phrases, qualifiers, certainty,
      conjunction, factType, reading, roleSequence, alignment, contraction⟩) hkeeps
    have hhere := hgives.fits h hc.here fun m hm hmem => hdisjoint hm hmem
    have hfits : y.Fits ⟨r.1, qualifiers, certainty, conjunction, factType, reading, roleSequence,
        alignment, contraction⟩ :=
      ⟨(completes_valid options).bare (c := ⟨phrases, qualifiers, certainty, conjunction, factType,
        reading, roleSequence, alignment, contraction⟩) (sameBare_of_keepsMentions hkeeps).symm
          hhere.valid, fun m hm => hhere.rolesFit m (hkept.mentions_eq ▸ hm)⟩
    refine (ends_resolveItself_fits options hgives.valid (.intro hfits hbelow) hnone
      (hkept.allMentions_eq ▸ hnodup)).imp ?_ fun _ => id
    rintro q z ⟨hgives', hresolved⟩
    refine ⟨(hgives.weaken fun m hm => ?_).trans (hgives'.weaken fun m hm => ?_), hresolved⟩
    · exact (Clause.perm_allMentions _).mem_iff.2 (List.mem_append_right _ hm)
    · exact Clause.mentions_subset_allMentions _ (hkept.mentions_eq ▸ hm)

/-- Once nested clauses are resolved their roles fit. -/
lemma ends_resolveNested_fits (options : MatchOptions) : ∀ (m : MentionId) (cs : List Clause)
    {x : Context}, x.Valid → (∀ d ∈ cs, d.Everywhere x.Fits) → (allMentions cs).Nodup →
    (ofResolved (resolveNested options m cs)).Ends x (fun r y =>
      x.GivesRoles (· ∈ allMentions cs) y ∧ allMentions r.1 = allMentions cs ∧
        ∀ d ∈ r.1, d.Everywhere y.Fits) fun _ => True
  | m, [], x, h, _, _ => ⟨h.givesRoles _, rfl, fun _ hd => nomatch hd⟩
  | m, c :: cs, x, h, hcs, hnodup => by
    rw [allMentions_cons, List.nodup_append'] at hnodup
    rw [allMentions_cons, ofResolved_resolveNested_cons]
    have hc := hcs c List.mem_cons_self
    have hfirst : (if c.isMatched then pure (c, true) else ofResolved (resolve options c) :
        Compile (Clause × Bool)).Ends x (fun r y => x.GivesRoles (· ∈ c.allMentions) y ∧
          r.1.allMentions = c.allMentions ∧ r.1.Everywhere y.Fits) fun _ => True := by
      split
      · exact ⟨h.givesRoles _, rfl, hc⟩
      · next hunmatched =>
        have hnone : c.factType = none := by simpa [Clause.isMatched] using hunmatched
        refine Ends.imp (Ends.and (ends_resolve_fits options c h hc hnone hnodup.1)
          (ends_resolve_keepsMentions options c x)) ?_ fun _ _ => trivial
        rintro r y ⟨⟨hgives, hfits⟩, hkeeps⟩
        exact ⟨hgives, hkeeps.allMentions_eq, hfits⟩
    refine ends_bind.2 (hfirst.imp ?_ fun _ => id)
    rintro r y ⟨hgives, hmentions, hfits⟩
    refine ends_bind.2 (Ends.imp (leads_checkNested (R := Eq) m r.1 r.2 rfl) ?_ fun _ _ => trivial)
    rintro - z ⟨rfl, -⟩
    have hrest : ∀ d ∈ cs, d.Everywhere y.Fits := fun d hd =>
      hgives.everywhere_fits h (hcs d (List.mem_cons_of_mem c hd)) fun n hn hmem =>
        hnodup.2.2 hmem (allMentions_eq cs ▸ List.mem_flatMap.2 ⟨d, hd, hn⟩)
    refine ends_bind.2 ((ends_resolveNested_fits options m cs hgives.valid hrest hnodup.2.1).imp ?_
      fun _ => id)
    rintro q w ⟨hgives', hmentions', hfits'⟩
    refine ⟨hgives.append hgives', by rw [allMentions_cons, hmentions, hmentions'], fun d hd => ?_⟩
    rcases List.mem_cons.1 hd with rfl | hd
    · exact hgives'.everywhere_fits hgives.valid hfits fun n hn hmem =>
        hnodup.2.2 (hmentions ▸ hn) hmem
    · exact hfits' d hd

end

end Compile

/-! ## Completing clauses -/

namespace Clause

variable {c d : Clause} {side : Contraction} {m : MentionId}

/-- A clause extended by a mention has that mention besides its own. -/
lemma mem_mentions_extended {n : MentionId} :
    n ∈ (c.extended side m).mentions ↔ n = m ∨ n ∈ c.mentions := by
  cases side <;> simp [Clause.extended, Clause.mentions, Clause.slots, Phrase.slots, or_comm]

/-- Without a slot a clause has some of its mentions. -/
lemma mentions_without_subset (c : Clause) (m : MentionId) : (c.without m).mentions ⊆ c.mentions :=
  List.map_subset _ (slots_without_subset c m)

/-- Without a slot a clause has some of its mentions at all depths. -/
lemma allMentions_without_subset (c : Clause) (m : MentionId) :
    (c.without m).allMentions ⊆ c.allMentions := by
  rw [Clause.allMentions_eq, c.allMentions_eq]
  exact (List.filter_sublist.flatMap _).subset

end Clause

namespace Compile

variable {x y z : Context} {c d : Clause} {options : MatchOptions}

/-- A copy has no role, and no mention is given one. -/
lemma ends_copyMention_role (source : MentionId) (x : Context) :
    (copyMention source).Ends x (fun copy y => x.mentions.size ≤ copy.index ∧
      ∀ m, (y.mention m).role = (x.mention m).role) fun _ => True := by
  refine ends_bind.2 (ends_get.2 (ends_bind.2 (ends_extend.2 (ends_bind.2 ?_))))
  refine ends_bind.2 (Ends.imp (leads_playerOf (R := Eq) rfl) ?_ fun _ _ => trivial)
  rintro player y ⟨-, rfl, -⟩
  refine ⟨Nat.le_refl _, fun m => ?_⟩
  refine (mention_bindAs_apply Mention.role (fun _ _ => rfl) _ player m).trans ?_
  rw [mention_pushMention]
  split
  · next hm =>
    have hdefault := mention_of_not_lt (x := x) (m := ⟨x.mentions.size⟩) (Nat.lt_irrefl _)
    rw [hm, hdefault]
    rfl
  · rfl

/-- A clause that nothing matches stays without a fact type. -/
lemma factType_eq_of_unmatched {r : Clause × Bool} (hnone : c.factType = none)
    (h : (ofResolved (resolve options c)).perform x = (.ok r, y)) (hr : r.2 = false) :
    r.1.factType = none := by
  obtain ⟨ps, -, heq⟩ := (ends_resolve_unmatched options c x).of_perform h hr
  rw [heq]
  exact hnone

/-- The mentions of a clause, and those that are new. -/
def AmongOrNew (x : Context) (ms : List MentionId) (m : MentionId) : Prop :=
  m ∈ ms ∨ x.mentions.size ≤ m.index

/-- A clause has become one whose roles fit. Only its mentions and new ones have been given roles,
and only such mentions has the clause that it has become. -/
structure BecomesFit (x : Context) (c d : Clause) (y : Context) : Prop where
  gives : x.GivesRoles (AmongOrNew x c.allMentions) y
  fits : d.Everywhere y.Fits
  amongOrNew : ∀ m ∈ d.allMentions, AmongOrNew x c.allMentions m

/-- A clause that has become fit may become fit once more. -/
lemma BecomesFit.trans {e : Clause} (h : BecomesFit x c d y) (h' : BecomesFit y d e z)
    (hsize : x.mentions.size ≤ y.mentions.size) : BecomesFit x c e z := by
  have hold : ∀ m, AmongOrNew y d.allMentions m → AmongOrNew x c.allMentions m := fun m hm =>
    hm.elim (h.amongOrNew m) fun hm => .inr (hsize.trans hm)
  exact ⟨h.gives.trans (h'.gives.weaken hold), h'.fits, fun m hm => hold m (h'.amongOrNew m hm)⟩

/-- What completes a clause on a side gives roles that fit. -/
lemma completeOn_fits {previous : Clause} {side : Contraction} {r : Clause × Bool}
    (hx : x.Valid) (hc : c.Everywhere x.Fits) (hnone : c.factType = none)
    (hnodup : c.allMentions.Nodup) (hsize : ∀ m ∈ c.allMentions, m.index < x.mentions.size)
    (h : (ofResolved (completeOn options previous side c)).perform x = (.ok r, y)) :
    BecomesFit x c r.1 y ∧ (r.2 = false → r.1.factType = none) := by
  have hvalid := ((completes_valid options).leads_completeOn previous side hx.extends
    (hc.imp fun _ => Fits.valid) hnone).of_perform h
  rw [ofResolved_completeOn] at h
  cases hsource : side.source? previous with
  | none =>
    rw [hsource] at h
    cases h
    exact ⟨⟨hx.givesRoles _, hc, fun _ => .inl⟩, fun _ => hnone⟩
  | some source =>
    rw [hsource] at h
    obtain ⟨copy, z, hcopy, hrest⟩ := perform_bind_eq_ok.1 h
    obtain ⟨q, w, hresolve, hend⟩ := perform_bind_eq_ok.1 hrest
    obtain ⟨hnew, hrole⟩ := (ends_copyMention_role source x).of_perform hcopy
    have hxz : x.GivesRoles (fun _ => False) z :=
      ⟨((leads_copyMention hx source).of_perform hcopy).1, fun m _ => hrole m⟩
    have hfresh : copy ∉ c.allMentions := fun hmem => absurd (hsize copy hmem) (Nat.not_lt.2 hnew)
    have hextended : (c.extended side copy).Everywhere z.Fits := by
      have hcz := hxz.everywhere_fits hx hc fun _ _ => id
      refine .intro ⟨(completes_valid options).extended side copy hcz.here.valid,
        fun m hm r hr => ?_⟩
        fun s hs e he => ?_
      · rcases Clause.mem_mentions_extended.1 hm with rfl | hm
        · rw [hrole, mention_of_not_lt (Nat.not_lt.2 hnew)] at hr
          cases hr
        · rw [show (c.extended side copy).factType = c.factType by cases side <;> rfl]
          exact hcz.here.rolesFit m hm r hr
      · rcases nested_of_mem_slots_extended hs with hs | hs
        · rw [hs] at he
          exact absurd he List.not_mem_nil
        · exact hcz.nested s hs e he
    have hunmatched : (c.extended side copy).factType = none := by cases side <;> exact hnone
    obtain ⟨hzw, hfits⟩ := (ends_resolve_fits options _ hxz.valid hextended hunmatched
      ((c.perm_allMentions_extended side copy).nodup_iff.2 (List.nodup_cons.2 ⟨hfresh, hnodup⟩)))
        |>.of_perform hresolve
    have hamong : ∀ m ∈ (c.extended side copy).allMentions, AmongOrNew x c.allMentions m :=
      fun m hm => (Clause.mem_allMentions_extended.1 hm).symm.imp_right fun heq =>
        hnew.trans_eq (congrArg MentionId.index heq.symm)
    have hxw := (hxz.weaken fun _ => False.elim).trans (hzw.weaken hamong)
    have hkeeps := ((ends_resolve_keepsMentions options _ z).of_perform hresolve).allMentions_eq
    obtain ⟨e, found⟩ := q
    dsimp only at hend
    cases found with
    | true =>
      cases hend
      refine ⟨⟨hxw, .intro ⟨hvalid.2.1.here, hfits.here.rolesFit⟩ hfits.nested, fun m hm => ?_⟩,
        fun hr => nomatch hr⟩
      rw [Clause.allMentions_eq] at hm
      exact hamong m (hkeeps ▸ (Clause.allMentions_eq e).symm ▸ hm)
    | false =>
      cases hend
      have he := factType_eq_of_unmatched hunmatched hresolve rfl
      have hunbind : w.GivesRoles (fun _ => False) (w.unbind copy) :=
        ⟨hxw.valid.unbind copy, fun m _ => role_unbind w copy m⟩
      have hkept := hunbind.everywhere_fits hxw.valid hfits fun _ _ => id
      refine ⟨⟨hxw.trans (hunbind.weaken fun _ => False.elim), .intro ⟨hvalid.2.1.here,
        fun m hm => hkept.here.rolesFit m (Clause.mentions_without_subset e copy hm)⟩
          fun s hs d hd => ?_, fun m hm => ?_⟩, fun _ => he⟩
      · exact hkept.nested s (slots_without_subset e copy hs) d hd
      · exact hamong m (hkeeps ▸ Clause.allMentions_without_subset e copy hm)

/-- What completes a clause gives roles that fit. -/
lemma complete_fits {previous : Clause} {r : Clause × Contraction} (hx : x.Valid)
    (hunmerged : x.Unmerged) (hc : c.Everywhere x.Fits) (hnone : c.factType = none)
    (hnodup : c.allMentions.Nodup) (hsize : ∀ m ∈ c.allMentions, m.index < x.mentions.size)
    (h : (ofResolved (complete options previous c)).perform x = (.ok r, y)) :
    BecomesFit x c r.1 y := by
  rw [ofResolved_complete] at h
  split at h
  · obtain ⟨⟨e, found⟩, w, hleft, hrest⟩ := perform_bind_eq_ok.1 h
    obtain ⟨hxw, hunmatched⟩ := completeOn_fits hx hc hnone hnodup hsize hleft
    dsimp only at hrest
    cases found with
    | true =>
      cases hrest
      exact hxw
    | false =>
      have hkeeps := completeOn_eq_ok hunmerged
        (fun m hm => hsize m (c.mentions_subset_allMentions hm)) hleft
      rw [if_neg Bool.false_ne_true] at hkeeps
      have hcarries := (((completes_carries options x.mentions.size c.factType).leads_completeOn
        previous .left (.refl (Nat.le_refl _) hunmerged)
          (Clause.everywhere_of_forall (fun _ => trivial) c) rfl).of_perform hleft).1
      obtain ⟨⟨e', found⟩, w', hright, hend⟩ := perform_bind_eq_ok.1 hrest
      obtain ⟨hww', -⟩ := completeOn_fits hxw.gives.valid hxw.fits (hunmatched rfl)
        (hkeeps.allMentions_eq ▸ hnodup)
        (fun m hm => (hsize m (hkeeps.allMentions_eq ▸ hm)).trans_le
          hcarries.le_size) hright
      dsimp only at hend
      cases found with
      | true =>
        cases hend
        exact hxw.trans hww' hcarries.le_size
      | false =>
        rw [if_neg Bool.false_ne_true, perform_get_bind] at hend
        cases hend
  · rw [perform_get_bind] at h
    cases h

/-! ## The clauses of a query -/

/-- What resolves a clause of a query gives roles that fit. -/
lemma resolveAsked_fits {contraction : Bool} {previous : Option Clause} (hx : x.Valid)
    (hunmerged : x.Unmerged) (hc : c.Everywhere x.Fits) (hnone : c.factType = none)
    (hnodup : c.allMentions.Nodup) (hsize : ∀ m ∈ c.allMentions, m.index < x.mentions.size)
    (h : (resolveAsked contraction previous c).perform x = (.ok d, y)) :
    BecomesFit x c d y := by
  obtain ⟨⟨e, matched⟩, w, hresolve, hrest⟩ := perform_bind_eq_ok.1 h
  have hkeeps := (ends_resolve_keepsMentions {} c x).of_perform hresolve
  obtain ⟨hxw, hfits⟩ := (ends_resolve_fits {} c hx hc hnone hnodup).of_perform hresolve
  have hxw' : BecomesFit x c e w :=
    ⟨hxw.weaken fun _ => .inl, hfits, fun m hm => .inl (hkeeps.allMentions_eq ▸ hm)⟩
  dsimp only at hkeeps hrest
  split at hrest
  · cases hrest
    exact hxw'
  · next hmatched =>
    split at hrest
    · rw [← bind_pure_comp] at hrest
      obtain ⟨⟨d', side⟩, y', hcomplete, hpure⟩ := perform_bind_eq_ok.1 hrest
      cases hpure
      have hcarries := (((completes_carries {} x.mentions.size none).leads_resolve c
        (.refl (Nat.le_refl _) hunmerged) (Clause.everywhere_of_forall (fun _ => trivial) c))
          |>.of_perform hresolve).1
      have hunmatched := factType_eq_of_unmatched hnone hresolve (by simpa using hmatched)
      exact hxw'.trans (complete_fits hxw.valid hcarries.unmerged hfits hunmatched
        (hkeeps.allMentions_eq ▸ hnodup)
        (fun m hm => (hsize m (hkeeps.allMentions_eq ▸ hm)).trans_le
          hcarries.le_size) hcomplete) hcarries.le_size
    · rw [perform_get_bind] at hrest
      cases hrest

/-- **The roles of resolved clauses fit.** If no mention stands in two clauses, and none has a role
to begin with, the role that a mention of a resolved clause has is one of the fact type that its
clause invokes.

**Proof sketch.** By induction on the clauses. What resolves the clauses behind a clause gives roles
to their mentions and to copies, which are new; so the clause keeps the roles that it has given. -/
theorem resolveAll_fits {contraction : Bool} {previous : Option Clause} {cs ds : List Clause}
    (hx : x.Valid) (hunmerged : x.Unmerged) (hcs : ∀ c ∈ cs, c.Everywhere x.Fits)
    (hnone : ∀ c ∈ cs, c.factType = none ∧ c.contraction = none)
    (hnodup : (allMentions cs).Nodup) (hbound : ∀ m ∈ allMentions cs, x.IsBound m)
    (hprevious : ∀ p ∈ previous, ∀ m ∈ p.mentions, x.IsBound m)
    (h : (resolveAll contraction previous cs).perform x = (.ok ds, y)) :
    x.GivesRoles (AmongOrNew x (allMentions cs)) y ∧ ∀ d ∈ ds, d.Everywhere y.Fits := by
  induction cs generalizing previous x ds with
  | nil =>
    cases h
    exact ⟨hx.givesRoles _, List.forall_mem_nil _⟩
  | cons c cs ih =>
    obtain ⟨d, z, hfirst, hrest⟩ := perform_bind_eq_ok.1 h
    obtain ⟨es, z', hothers, hpure⟩ := perform_bind_eq_ok.1 hrest
    cases hpure
    rw [allMentions_cons, List.nodup_append'] at hnodup
    rw [allMentions_cons] at hbound
    rw [allMentions_cons]
    have hc := fun m hm => hbound m (List.mem_append_left _ hm)
    have hfits := resolveAsked_fits hx hunmerged (hcs c List.mem_cons_self)
      (hnone c List.mem_cons_self).1 hnodup.1 (fun m hm => (hc m hm).index_lt) hfirst
    obtain ⟨hcarries, -, hd, -⟩ := resolveAsked_eq_ok hunmerged hc (hnone c List.mem_cons_self).2
      hprevious hfirst
    have hxz := hcarries _ (Nat.le_refl _)
    have hstill : ∀ m ∈ allMentions cs, x.IsBound m ∧ m ∉ c.allMentions := fun m hm =>
      ⟨hbound m (List.mem_append_right _ hm), fun hmem => hnodup.2.2 hmem hm⟩
    obtain ⟨hgives, hrest⟩ := ih hfits.gives.valid hxz.unmerged (fun e he =>
      hfits.gives.everywhere_fits hx (hcs e (List.mem_cons_of_mem c he)) fun m hm hmem => by
        have hm := hstill m (allMentions_eq cs ▸ List.mem_flatMap.2 ⟨e, he, hm⟩)
        exact hmem.elim hm.2 fun hmem => absurd hm.1.index_lt (Nat.not_lt.2 hmem))
      (fun e he => hnone e (List.mem_cons_of_mem c he)) hnodup.2.1
      (fun m hm => hxz.isBound (hstill m hm).1.index_lt (hstill m hm).1)
      (fun p hp m hm => by
        cases hp
        exact hd m (d.mentions_subset_allMentions hm)) hothers
    refine ⟨(hfits.gives.weaken fun m hm => ?_).trans (hgives.weaken fun m hm => ?_),
      fun e he => ?_⟩
    · exact hm.imp (List.mem_append_left _ ·) id
    · exact hm.imp (List.mem_append_right _ ·) hxz.le_size.trans
    · rcases List.mem_cons.1 he with rfl | he
      · refine hgives.everywhere_fits hfits.gives.valid hfits.fits fun m hm hmem => ?_
        rcases hmem with hmem | hmem
        · exact (hfits.amongOrNew m hm).elim (hstill m hmem).2 fun hnew =>
            absurd (hstill m hmem).1.index_lt (Nat.not_lt.2 hnew)
        · exact absurd (hd m hm).index_lt (Nat.not_lt.2 hmem)
      · exact hrest e he

end Compile

end FactModel
