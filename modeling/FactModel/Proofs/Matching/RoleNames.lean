import FactModel.Proofs.Matching.Borrowing
import FactModel.Proofs.Matching.Roles
set_option autoImplicit false

/-!
# Role names within a clause

The mentions of a clause that has been bound have different role names. Resolution keeps them, and
so does completion, but for the mention that a clause borrows: it brings the role name of the
mention it is a copy of, and nothing compares that with the role names of the clause.

## Main definitions

* `FactModel.Context.NamesOnce` — no two mentions of a clause have the same role name.
* `FactModel.Context.NamesOwnOnce` — no two mentions of a clause have the same role name but for one
  that the clause has borrowed.

## Main results

* `FactModel.Compile.resolves_names` — resolution keeps role names apart.
* `FactModel.Compile.names_resolveAsked` — completion keeps those of a clause's own mentions apart.
* `FactModel.Compile.names_resolveAll` — so it is in all clauses of a query.
-/

namespace FactModel

open Attempt

namespace Context

variable {x y z : Context} {c d : Clause} {ms : List MentionId} {n : Nat}

/-- The role names that mentions have, in order. -/
def roleNames (x : Context) (ms : List MentionId) : List RoleName :=
  ms.filterMap fun m => (x.mention m).roleName

/-- No two mentions of a clause have the same role name. -/
def NamesOnce (x : Context) (c : Clause) : Prop :=
  (x.roleNames c.mentions).Nodup

/-- A clause is about mentions that are among the first so many, and names no role twice. -/
structure Names (n : Nat) (x : Context) (c : Clause) : Prop where
  lt : ∀ m ∈ c.mentions, m.index < n
  once : x.NamesOnce c

/-- Mentions that are carried along keep their role names. -/
lemma Carries.roleNames_eq (h : x.Carries n y) (hms : ∀ m ∈ ms, m.index < n) :
    y.roleNames ms = x.roleNames ms :=
  List.filterMap_congr fun m hm => (h.continues m (hms m hm)).roleName_eq

/-- A clause that names no role twice does so neither when its mentions are carried along. -/
lemma Names.carries (hc : x.Names n c) (h : x.Carries n y) : y.Names n c where
  lt := hc.lt
  once := by
    rw [NamesOnce, h.roleNames_eq hc.lt]
    exact hc.once

/-- Only the mentions of a clause matter. -/
lemma Names.of_mentions_eq (hc : x.Names n c) (h : d.mentions = c.mentions) : x.Names n d where
  lt := h ▸ hc.lt
  once := by
    rw [NamesOnce, h]
    exact hc.once

end Context

open Context

namespace Compile

variable {x y z : Context} {n : Nat} {options : MatchOptions} {c d : Clause}

/-! ## Resolution -/

/-- Resolution takes no mention out of a clause and renames none. -/
lemma resolves_names (options : MatchOptions) (n : Nat) :
    Resolves options (Carries n) (Names n) where
  refl h := h.refl_right
  mono h hc := hc.carries h
  bare h hc := hc.of_mentions_eq h.mentions_eq.symm
  flat {x c} hx hc := by
    refine ((leads_resolveFlat_carries hx options c).and
      (ends_resolveFlat_keepsMentions options c x)).imp fun r y hy hr d hd => ?_
    exact (hc.here.carries hy).of_mentions_eq (hr.2 d hd).mentions_eq

/-- Resolving a clause keeps the role names apart that its nested clauses have, whatever names it
has itself. -/
lemma leads_resolve_below (hx : x.Carries n x) (hc : ∀ s ∈ c.slots, s.Below (x.Names n)) :
    (ofResolved (resolve options c)).Leads (Carries n) x fun r y =>
      ∀ s ∈ r.1.slots, s.Below (y.Names n) := by
  have hnames := resolves_names options n
  have hitself : ∀ (d : Clause) (y : Context), y.Carries n y →
      (ofResolved (resolveItself options d)).Leads (Carries n) y fun r _ => r.1.slots ⊆ d.slots :=
    fun d y hy => by
      rw [ofResolved_resolveItself]
      refine Leads.bind ((leads_resolveFlat_carries hy options d).and
        (ends_resolveFlat_slots options d y)) fun r z hyz hr => ?_
      cases r with
      | none => exact leads_pure hyz.refl_right (List.Subset.refl _)
      | some e => exact leads_pure hyz.refl_right (hr.2 e rfl)
  rw [ofResolved_resolve]
  refine Leads.bind (hnames.leads_resolvePhrases c.phrases hx hc) fun r y hxy hr => ?_
  refine (hitself _ y hxy.refl_right).imp fun q z hyz hq s hs e he => ?_
  exact hnames.everywhere_mono hyz (hr.2 s (hq hs) e he)

/-! ## Completion -/

/-- Putting a mention in on a side nests nothing. -/
lemma below_extended {P : Clause → Prop} (hc : ∀ s ∈ c.slots, s.Below P) (side : Contraction)
    (m : MentionId) : ∀ s ∈ (c.extended side m).slots, s.Below P := by
  intro s hs d hd
  rcases nested_of_mem_slots_extended hs with hnil | hs
  · rw [hnil] at hd
    exact absurd hd List.not_mem_nil
  · exact hc s hs d hd

/-- Completing a clause on one side keeps the role names apart that its nested clauses have. -/
lemma leads_completeOn_below (hx : x.Carries n x) (hc : ∀ s ∈ c.slots, s.Below (x.Names n))
    (previous : Clause) (side : Contraction) :
    (ofResolved (completeOn options previous side c)).Leads (Carries n) x fun r y =>
      ∀ s ∈ r.1.slots, s.Below (y.Names n) := by
  have hmono : ∀ {y z : Context} {d : Clause}, y.Carries n z →
      (∀ s ∈ d.slots, s.Below (y.Names n)) → ∀ s ∈ d.slots, s.Below (z.Names n) :=
    fun hyz hd s hs e he => (hd s hs e he).imp fun _ => (·.carries hyz)
  rw [ofResolved_completeOn]
  cases side.source? previous with
  | none => exact leads_pure hx hc
  | some source =>
    refine Leads.bind (leads_copyMention_carries hx source) fun copy y hxy hcopy => ?_
    have hextended := below_extended (hmono hxy hc) side copy
    refine Leads.bind (leads_resolve_below hxy.refl_right hextended) fun r z hyz hr => ?_
    split
    · exact leads_pure hyz.refl_right hr
    · have hunbind := carries_unbind hyz.refl_right hcopy
      refine leads_modify_bind hunbind (leads_pure hunbind.refl_right ?_)
      exact hmono hunbind fun s hs => hr s (slots_without_subset _ _ hs)

/-- Completing a clause keeps the role names apart that its nested clauses have. -/
lemma leads_complete_below (hx : x.Carries n x) (hc : ∀ s ∈ c.slots, s.Below (x.Names n))
    (previous : Clause) :
    (ofResolved (complete options previous c)).Leads (Carries n) x fun r y =>
      ∀ s ∈ r.1.slots, s.Below (y.Names n) := by
  rw [ofResolved_complete]
  split
  · refine Leads.bind (leads_completeOn_below hx hc previous .left) fun r y hxy hr => ?_
    split
    · exact leads_pure hxy.refl_right hr
    · refine Leads.bind (leads_completeOn_below hxy.refl_right hr previous .right)
        fun q z hyz hq => ?_
      split
      · exact leads_pure hyz.refl_right hq
      · exact leads_get_bind (leads_throw hyz.refl_right)
  · exact leads_get_bind (leads_throw hx)

/-- A copy has the role name of its source. -/
lemma roleName_copyMention {source copy : MentionId}
    (h : (copyMention source).perform x = (.ok copy, y)) :
    (y.mention copy).roleName = (x.mention source).roleName := by
  unfold copyMention at h
  rw [perform_get_bind] at h
  obtain ⟨new, w, hnew, hrest⟩ := perform_bind_eq_ok.1 h
  obtain ⟨b, w', hbind, hpure⟩ := perform_bind_eq_ok.1 hrest
  cases hnew
  cases hpure
  obtain ⟨player, hplayer, hbind⟩ := perform_bind_mention_eq_ok.1 hbind
  have hcopied := mention_bindAs (lt_of_player hplayer) player ⟨x.mentions.size⟩
  rw [hbind, if_pos rfl, mention_pushMention, if_pos rfl] at hcopied
  rw [hcopied]

end Compile

/-! ## Clauses that have borrowed a mention -/

/-- Mentions with one put in on a side. -/
def Contraction.putIn (side : Contraction) (m : MentionId) (ms : List MentionId) : List MentionId :=
  match side with
  | .left => m :: ms
  | .right => ms ++ [m]

/-- A mention that is put in on a side is one more mention. -/
lemma Contraction.perm_putIn (side : Contraction) (m : MentionId) (ms : List MentionId) :
    (side.putIn m ms).Perm (m :: ms) := by
  cases side with
  | left => exact .refl _
  | right => exact List.perm_append_singleton ..

/-- What a clause may borrow is a mention of the clause before it. -/
lemma Contraction.mem_of_source?_eq_some {side : Contraction} {p : Clause} {source : MentionId}
    (h : side.source? p = some source) : source ∈ p.mentions := by
  cases side with
  | left => exact List.mem_of_getLast? h
  | right => exact List.mem_of_head? h

/-- A clause extended by a mention has it put in on the side. -/
lemma Clause.mentions_extended (c : Clause) (side : Contraction) (m : MentionId) :
    (c.extended side m).mentions = side.putIn m c.mentions := by
  cases side with
  | left => rfl
  | right => simp [Clause.extended, Clause.mentions, Clause.slots, Phrase.slots, Contraction.putIn]

namespace Context

variable {x y z : Context} {c d : Clause} {own : List MentionId} {previous : Option Clause}
  {k : Nat}

/-- A clause has its own mentions, which have different role names, and one that it has borrowed on
a side from the clause before, which has the role name of its source. -/
structure BorrowsName (x : Context) (p d : Clause) (side : Contraction) (source copy : MentionId)
    (own : List MentionId) : Prop where
  source_eq : side.source? p = some source
  mentions_eq : d.mentions = side.putIn copy own
  own_once : (x.roleNames own).Nodup
  roleName_eq : (x.mention copy).roleName = (x.mention source).roleName

/-- A clause that has borrowed a mention names a role twice just in case one of its own mentions has
the role name of the mention that was borrowed. -/
lemma BorrowsName.namesOnce_iff {p : Clause} {side : Contraction} {source copy : MentionId}
    (h : x.BorrowsName p d side source copy own) :
    x.NamesOnce d ↔ ∀ name ∈ (x.mention source).roleName, name ∉ x.roleNames own := by
  have hperm : (x.roleNames d.mentions).Perm (x.roleNames (copy :: own)) := by
    rw [h.mentions_eq]
    exact (side.perm_putIn copy own).filterMap _
  have hcons : x.roleNames (copy :: own) =
      (x.mention source).roleName.toList ++ x.roleNames own := by
    rw [roleNames, List.filterMap_cons, h.roleName_eq]
    cases (x.mention source).roleName <;> rfl
  rw [NamesOnce, hperm.nodup_iff, hcons]
  cases (x.mention source).roleName <;> simp [h.own_once]

/-- The clauses nested in a clause name no role twice, and neither does the clause itself unless it
has borrowed a mention from the clause before with the role name of one of its own. -/
structure NamesOwnOnce (x : Context) (previous : Option Clause) (d : Clause) : Prop where
  below : ∀ s ∈ d.slots, s.Below x.NamesOnce
  of_none : d.contraction = none → x.NamesOnce d
  of_some : ∀ side, d.contraction = some side → ∃ p ∈ previous, ∃ source copy own,
    x.BorrowsName p d side source copy own ∧
      (x.NamesOnce d ↔ ∀ name ∈ (x.mention source).roleName, name ∉ x.roleNames own)

/-- Each clause names no role twice but by a mention that it has borrowed from the clause before. -/
def AllNameOwnOnce (x : Context) : Option Clause → List Clause → Prop
  | _, [] => True
  | previous, d :: ds => x.NamesOwnOnce previous d ∧ x.AllNameOwnOnce (some d) ds

/-- Clauses that name no role twice do so neither when their mentions are carried along. -/
lemma everywhere_namesOnce_carries (hxy : x.Carries k y) (hd : ∀ m ∈ d.allMentions, m.index < k)
    (h : d.Everywhere x.NamesOnce) : d.Everywhere y.NamesOnce := by
  induction h with
  | @intro d here _ ih =>
    refine .intro ?_ fun s hs e he => ih s hs e he fun m hm =>
      hd m (Clause.allMentions_subset_of_nested hs he hm)
    rw [NamesOnce, hxy.roleNames_eq fun m hm => hd m (d.mentions_subset_allMentions hm)]
    exact here

/-- What clauses have borrowed stays as it is while their mentions are carried along. -/
lemma NamesOwnOnce.carries (h : x.NamesOwnOnce previous d) (hxy : x.Carries k y)
    (hd : ∀ m ∈ d.allMentions, m.index < k) (hp : ∀ p ∈ previous, ∀ m ∈ p.mentions, m.index < k) :
    y.NamesOwnOnce previous d where
  below s hs e he := by
    refine (everywhere_namesOnce_carries hxy ?_ (h.below s hs e he))
    exact fun m hm => hd m (Clause.allMentions_subset_of_nested hs he hm)
  of_none hnone := by
    rw [NamesOnce, hxy.roleNames_eq fun m hm => hd m (d.mentions_subset_allMentions hm)]
    exact h.of_none hnone
  of_some side hside := by
    obtain ⟨p, hprevious, source, copy, own, hborrows, -⟩ := h.of_some side hside
    have hmem : ∀ m, m ∈ d.mentions ↔ m = copy ∨ m ∈ own := fun m => by
      rw [hborrows.mentions_eq, (side.perm_putIn copy own).mem_iff, List.mem_cons]
    have hlt : ∀ m ∈ d.mentions, m.index < k := fun m hm => hd m (d.mentions_subset_allMentions hm)
    suffices hlater : y.BorrowsName p d side source copy own from
      ⟨p, hprevious, source, copy, own, hlater, hlater.namesOnce_iff⟩
    refine ⟨hborrows.source_eq, hborrows.mentions_eq, ?_, ?_⟩
    · rw [hxy.roleNames_eq fun m hm => hlt m ((hmem m).2 (.inr hm))]
      exact hborrows.own_once
    · rw [(hxy.continues copy (hlt copy ((hmem copy).2 (.inl rfl)))).roleName_eq,
        (hxy.continues source
          (hp p hprevious source
            (Contraction.mem_of_source?_eq_some hborrows.source_eq))).roleName_eq]
      exact hborrows.roleName_eq

end Context

namespace Compile

variable {x y z : Context} {n : Nat} {previous : Option Clause} {c d : Clause} {cs ds : List Clause}

/-- Resolving a clause of a query keeps role names apart but for one that it borrows.

**Proof sketch.** A clause that matches keeps its mentions. One that has to be completed is resolved
with a copy of a mention of the clause before, which has the role name of that mention; the clauses
nested in it are as they were. -/
theorem names_resolveAsked {contraction : Bool} (hx : x.Carries n x) (hc : c.Everywhere (x.Names n))
    (hnone : c.contraction = none) (hprevious : ∀ p ∈ previous, ∀ m ∈ p.mentions, x.IsBound m)
    (h : (resolveAsked contraction previous c).perform x = (.ok d, y)) :
    y.NamesOwnOnce previous d := by
  obtain ⟨⟨e, matched⟩, w, hresolve, hrest⟩ := perform_bind_eq_ok.1 h
  have hkeeps := (ends_resolve_keepsMentions {} c x).of_perform hresolve
  obtain ⟨hxw, he, -⟩ := ((resolves_names {} n).leads_resolve c hx hc).of_perform hresolve
  dsimp only at hkeeps hrest he
  split at hrest
  · cases hrest
    refine ⟨fun s hs f hf => (he.nested s hs f hf).imp fun _ => (·.once), fun _ => he.here.once, ?_⟩
    intro side hside
    rw [hkeeps.contraction_eq, hnone] at hside
    cases hside
  split at hrest
  · next p =>
    rw [← bind_pure_comp] at hrest
    obtain ⟨⟨d', side⟩, y', hcomplete, hpure⟩ := perform_bind_eq_ok.1 hrest
    cases hpure
    have hbelow := ((leads_complete_below hxw.refl_right he.nested p).of_perform hcomplete).2
    obtain ⟨e', w', source, copy, z, hkeeps', hcarries', hborrows⟩ := complete_eq_ok
      hxw.unmerged (fun m hm => (he.here.lt m hm).trans_le hxw.le_size) hcomplete
    have hw' : x.Carries x.mentions.size w' := by
      have hxw' := (((completes_carries {} _ none).leads_resolve c (.refl (Nat.le_refl _)
        hx.unmerged) (Clause.everywhere_of_forall (fun _ => trivial) c)).of_perform hresolve).1
      exact Trans.trans hxw' (hcarries' _ hxw'.le_size)
    have hsource : w'.IsBound source := by
      have hbefore := hprevious p rfl source hborrows.mem_mentions
      exact hw'.isBound hbefore.index_lt hbefore
    have halike := boundAlike_copyMention hw'.unmerged hsource hborrows.copyMention_eq
    have hwz := ((leads_copyMention_carries (.refl (Nat.le_refl w'.mentions.size) hw'.unmerged)
      source).of_perform hborrows.copyMention_eq).1
    have hzy := hborrows.carries halike.carries.unmerged
    have hxy : x.Carries n y :=
      Trans.trans hxw ((leads_complete_below hxw.refl_right he.nested p).of_perform hcomplete).1
    refine ⟨fun s hs f hf => (hbelow s hs f hf).imp fun _ => (·.once), ?_, fun side' hside => ?_⟩
    · intro hnone'
      rw [hborrows.contraction_eq] at hnone'
      cases hnone'
    obtain rfl : side = side' := Option.some.inj (hborrows.contraction_eq.symm.trans hside)
    suffices hnames : y.BorrowsName p d' side source copy c.mentions from
      ⟨p, rfl, source, copy, c.mentions, hnames, hnames.namesOnce_iff⟩
    refine ⟨hborrows.source_eq, ?_, ?_, ?_⟩
    · rw [hborrows.mentions_eq, e'.mentions_extended, hkeeps'.mentions_eq, hkeeps.mentions_eq]
    · rw [hxy.roleNames_eq hc.here.lt]
      exact hc.here.once
    · calc (y.mention copy).roleName
          = (z.mention copy).roleName := (hzy.continues copy halike.right.index_lt).roleName_eq
        _ = (w'.mention source).roleName := roleName_copyMention hborrows.copyMention_eq
        _ = (z.mention source).roleName :=
          (hwz.continues source hsource.index_lt).roleName_eq.symm
        _ = (y.mention source).roleName :=
          (hzy.continues source halike.left.index_lt).roleName_eq.symm
  · rw [perform_get_bind] at hrest
    cases hrest

/-- **Role names in queries.** Every clause of a query keeps its role names apart, but for one that
it borrows from the clause before it.

**Proof sketch.** By induction on the clauses. What holds of a clause when it has been resolved is
carried along while the clauses behind it are. -/
theorem names_resolveAll {contraction : Bool} (hx : x.Carries n x)
    (hbound : ∀ m ∈ allMentions cs, x.IsBound m) (hcs : ∀ c ∈ cs, c.Everywhere (x.Names n))
    (hnone : ∀ c ∈ cs, c.contraction = none)
    (hprevious : ∀ p ∈ previous, ∀ m ∈ p.mentions, x.IsBound m)
    (h : (resolveAll contraction previous cs).perform x = (.ok ds, y)) :
    y.AllNameOwnOnce previous ds := by
  induction cs generalizing previous x ds with
  | nil =>
    cases h
    trivial
  | cons c cs ih =>
    obtain ⟨d, z, hfirst, hrest⟩ := perform_bind_eq_ok.1 h
    obtain ⟨es, z', hothers, hpure⟩ := perform_bind_eq_ok.1 hrest
    cases hpure
    rw [allMentions_cons] at hbound
    have hc := hcs c List.mem_cons_self
    have hd := names_resolveAsked hx hc (hnone c List.mem_cons_self) hprevious hfirst
    obtain ⟨hxz, -, hdbound, -⟩ := resolveAsked_eq_ok hx.unmerged
      (fun m hm => hbound m (List.mem_append_left _ hm))
      (hnone c List.mem_cons_self) hprevious hfirst
    have hsize := hxz _ (Nat.le_refl _)
    have hlater : ∀ m ∈ allMentions cs, z.IsBound m := fun m hm => by
      have hm' := hbound m (List.mem_append_right _ hm)
      exact hsize.isBound hm'.index_lt hm'
    have hzbound : ∀ p ∈ some d, ∀ m ∈ p.mentions, z.IsBound m := by
      rintro p ⟨⟩ m hm
      exact hdbound m (d.mentions_subset_allMentions hm)
    have hnone' : ∀ c ∈ cs, c.contraction = none := fun e he => hnone e (List.mem_cons_of_mem c he)
    have hzy := (resolveAll_eq_ok hsize.unmerged hlater hnone' hzbound hothers).1
    refine ⟨hd.carries (hzy _ (Nat.le_refl _)) (fun m hm => (hdbound m hm).index_lt) ?_, ?_⟩
    · intro p hp m hm
      exact (hprevious p hp m hm).index_lt.trans_le hsize.le_size
    · have hxn := hxz n hx.le_size
      refine ih hxn.refl_right hlater (fun e he => ?_) hnone' hzbound hothers
      exact (hcs e (List.mem_cons_of_mem c he)).imp fun _ => (·.carries hxn)

end Compile

end FactModel
