import FactModel.Proofs.Context.Numbering
import FactModel.Proofs.Session.Players
import FactModel.Proofs.Session.Ranking
set_option autoImplicit false

/-!
# Role names denote the mentions that declare them

Mentions that declare role names get their players first, and each is remembered with the name. So a
term that is a role name gets the player of a mention that declares it. The key of a mention that
uses the name is made of the name of the player, and that of the mention that declares it is made of
its term. These are the same, and the two are bound together, unless the term is a role name itself.

## Main definitions

* `FactModel.Context.Sourced` — the players of role names are those of mentions that declare them.
* `FactModel.Context.OnlyDeclares` — one mention of clauses alone declares a role name.

## Main results

* `FactModel.Compile.sourced_identifyPlayers` — finding players keeps where role names come from.
* `FactModel.Session.denotes_enter` — whom a role name denotes, and when it shares the binding.
* `FactModel.Session.exists_unshared` — a role name declared for a role name does not.
-/

namespace FactModel

open Attempt

/-- The role name of a mention that declares one. -/
lemma Mention.roleName_of_declares {m : Mention} {name : String} (h : m.declaredName? = some name) :
    m.roleName = some (.named name) := by
  unfold declaredName? at h
  split at h
  · next heq =>
    cases h
    exact heq
  · cases h

namespace Context

variable {x y z : Context} {declared : MentionId → Option String} {all : List MentionId}

/-- What is known while players are found: a role name has the player of a mention that declares it;
a mention that declares none has the player that it is called by, and one that does has that of its
term. -/
structure Sourced (all : List MentionId) (declared : MentionId → Option String) (x : Context) :
    Prop where
  declaredName?_eq : ∀ m, (x.mention m).declaredName? = declared m
  plain : ∀ m, (declared m).isSome → (x.mention m).playerByRoleName = false
  source : ∀ name t, (name, t) ∈ x.roleNamePlayers →
    ∃ m ∈ all, declared m = some name ∧ (x.mention m).player = some t
  isCalled : ∀ m, declared m = none → ∀ t ∈ (x.mention m).player,
    x.IsCalled t (x.mention m).title
  standsFor : ∀ m, (declared m).isSome → ∀ t ∈ (x.mention m).player,
    x.StandsFor (x.mention m).term t

namespace Sourced

/-- Finding the player of a term keeps where role names come from. -/
lemma finds {term : String} {player : ObjectTypeId × Bool} (h : x.Sourced all declared)
    (hfinds : x.Finds term player z) : z.Sourced all declared := by
  refine ⟨fun m => ?_, fun m => ?_, fun name t ht => ?_, fun m hm t ht => ?_, fun m hm t ht => ?_⟩
  · rw [hfinds.mention_eq]
    exact h.declaredName?_eq m
  · rw [hfinds.mention_eq]
    exact h.plain m
  · rw [hfinds.roleNamePlayers_eq] at ht
    obtain ⟨m, hm, hname, hplayer⟩ := h.source name t ht
    exact ⟨m, hm, hname, (hfinds.mention_eq m).symm ▸ hplayer⟩
  · rw [hfinds.mention_eq] at ht ⊢
    exact hfinds.isCalled_of (h.isCalled m hm t ht)
  · rw [hfinds.mention_eq] at ht ⊢
    exact hfinds.standsFor_of (h.standsFor m hm t ht)

/-- A mention without a player may declare a role name and get the player of its term. -/
lemma name (h : x.Sourced all declared) {m : MentionId} (hm : m ∈ all) {name : String}
    (hname : declared m = some name) (hnone : (x.mention m).player = none) {t : ObjectTypeId}
    (ht : x.StandsFor (x.mention m).term t) :
    ({ x with roleNamePlayers := (name, t) :: x.roleNamePlayers }.modifyMention m
      ({ · with player := some t })).Sourced all declared := by
  let w : Context := { x with roleNamePlayers := (name, t) :: x.roleNamePlayers }
  have hlt : m.index < x.mentions.size := by
    by_contra hlt
    have hdeclares := (h.declaredName?_eq m).trans hname
    rw [mention_of_not_lt hlt] at hdeclares
    cases hdeclares
  have hmention : ∀ n, n ≠ m →
      (w.modifyMention m ({ · with player := some t })).mention n = x.mention n := fun n hn => by
    rw [mention_modifyMention, if_neg fun hnm => hn hnm.1]
    rfl
  have hself : (w.modifyMention m ({ · with player := some t })).mention m =
      { x.mention m with player := some t } := by
    rw [mention_modifyMention, if_pos ⟨rfl, hlt⟩]
    rfl
  have hfield : ∀ {α : Type} (field : Mention → α),
      (∀ mention, field { mention with player := some t } = field mention) → ∀ n,
      field ((w.modifyMention m ({ · with player := some t })).mention n) = field (x.mention n) :=
    fun field hfield n => mention_modifyMention_apply (x := w) field m hfield n
  have hstands : ∀ {term u}, x.StandsFor term u → w.StandsFor term u := fun hu =>
    hu.imp_right fun hu => ⟨hu.1, List.mem_cons_of_mem _ hu.2⟩
  refine ⟨fun n => ?_, fun n hn => ?_, fun other u hu => ?_, fun n hn u hu => ?_,
    fun n hn u hu => ?_⟩
  · exact (hfield Mention.declaredName? (fun _ => rfl) n).trans (h.declaredName?_eq n)
  · exact (hfield Mention.playerByRoleName (fun _ => rfl) n).trans (h.plain n hn)
  · rcases List.mem_cons.1 hu with heq | hu
    · cases heq
      exact ⟨m, hm, hname, by rw [hself]⟩
    · obtain ⟨n, hn, hother, hplayer⟩ := h.source other u hu
      have hne : n ≠ m := by
        rintro rfl
        rw [hnone] at hplayer
        cases hplayer
      exact ⟨n, hn, hother, (hmention n hne).symm ▸ hplayer⟩
  · have hne : n ≠ m := by
      rintro rfl
      rw [hname] at hn
      cases hn
    rw [hmention n hne] at hu ⊢
    have hcalled := h.isCalled n hn u hu
    cases htitle : (x.mention n).title with
    | inl other =>
      rw [htitle] at hcalled
      exact List.mem_cons_of_mem _ hcalled
    | inr other =>
      rw [htitle] at hcalled
      exact hcalled
  · by_cases hne : n = m
    · subst hne
      rw [hself] at hu ⊢
      obtain rfl : t = u := Option.some.inj hu
      exact hstands ht
    · rw [hmention n hne] at hu ⊢
      exact hstands (h.standsFor n hn u hu)

/-- A mention that declares no role name may get the player that it is called by. -/
lemma call (h : x.Sourced all declared) {m : MentionId} (hname : declared m = none)
    {t : ObjectTypeId} {byRoleName : Bool}
    (ht : x.IsCalled t (if byRoleName then .inl (x.mention m).term else .inr (x.mention m).term)) :
    (x.modifyMention m
      ({ · with player := some t, playerByRoleName := byRoleName })).Sourced all declared := by
  have hmention : ∀ n, (declared n).isSome → (x.modifyMention m
      ({ · with player := some t, playerByRoleName := byRoleName })).mention n = x.mention n := by
    intro n hn
    rw [mention_modifyMention, if_neg]
    rintro ⟨rfl, -⟩
    rw [hname] at hn
    cases hn
  have hsame : ∀ n, ((x.modifyMention m
      ({ · with player := some t, playerByRoleName := byRoleName })).mention n).declaredName? =
        (x.mention n).declaredName? :=
    mention_modifyMention_apply Mention.declaredName? m fun _ => rfl
  refine ⟨fun n => (hsame n).trans (h.declaredName?_eq n), fun n hn => ?_, fun other u hu => ?_,
    fun n hn u hu => ?_, fun n hn u hu => ?_⟩
  · rw [hmention n hn]
    exact h.plain n hn
  · obtain ⟨n, hn, hother, hplayer⟩ := h.source other u hu
    exact ⟨n, hn, hother, (hmention n (hother ▸ rfl)).symm ▸ hplayer⟩
  · rw [mention_modifyMention] at hu ⊢
    split at hu
    · next hnm =>
      obtain rfl : t = u := Option.some.inj hu
      have hplain := (h.declaredName?_eq m).trans hname
      have htitle : Mention.title { x.mention m with
          player := some t, playerByRoleName := byRoleName } =
            if byRoleName then .inl (x.mention m).term else .inr (x.mention m).term :=
        Mention.title_of_plain hplain
      rw [if_pos hnm, htitle]
      exact ht
    · next hnm =>
      rw [if_neg hnm]
      exact h.isCalled n hn u hu
  · rw [hmention n hn] at hu ⊢
    exact h.standsFor n hn u hu

end Sourced

/-- The mention is the only one of the clauses, at all depths, that declares the role name. -/
structure OnlyDeclares (x : Context) (cs : List Clause) (name : String) (d : MentionId) : Prop where
  mem : d ∈ allMentions cs
  declares : (x.mention d).declaredName? = some name
  only : ∀ m ∈ allMentions cs, (x.mention m).declaredName? = some name → m = d

instance (x : Context) (cs : List Clause) (name : String) (d : MentionId) :
    Decidable (x.OnlyDeclares cs name d) :=
  decidable_of_iff (d ∈ allMentions cs ∧ (x.mention d).declaredName? = some name ∧
      ∀ m ∈ allMentions cs, (x.mention m).declaredName? = some name → m = d)
    ⟨fun h => ⟨h.1, h.2.1, h.2.2⟩, fun h => ⟨h.mem, h.declares, h.only⟩⟩

end Context

namespace Compile

open Context

variable {x y : Context} {declared : MentionId → Option String} {all : List MentionId}

/-- Finding the player of a mention, declared role name or not, keeps where role names come from,
and changes no other mention. -/
lemma sourced_identify (hx : x.Sourced all declared) {m : MentionId} (hm : m ∈ all)
    (hnone : (declared m).isSome → (x.mention m).player = none) {u : Unit}
    (h : (match declared m with
      | some roleName => identifyDeclaring m roleName
      | none => identifyPlain m).perform x = (.ok u, y)) :
    y.Sourced all declared ∧ ∀ n, n ≠ m → y.mention n = x.mention n := by
  cases hname : declared m with
  | some name =>
    rw [hname] at h hnone
    obtain ⟨-, player, z, hplayer, rfl⟩ := perform_identifyDeclaring_eq_ok.1 h
    have hfinds := finds_of_resolvePlayer hplayer
    have hmention : z.mention m = x.mention m := hfinds.mention_eq m
    refine ⟨(hx.finds hfinds).name hm hname (hmention.symm ▸ hnone rfl)
      (hmention.symm ▸ hfinds.standsFor), fun n hn => ?_⟩
    rw [mention_modifyMention, if_neg fun hnm => hn hnm.1]
    exact hfinds.mention_eq n
  | none =>
    rw [hname] at h
    obtain ⟨player, z, hplayer, rfl⟩ := perform_identifyPlain_eq_ok.1 h
    have hfinds := finds_of_resolvePlayer hplayer
    have hmention : z.mention m = x.mention m := hfinds.mention_eq m
    refine ⟨(hx.finds hfinds).call hname (hmention.symm ▸ hfinds.isCalled), fun n hn => ?_⟩
    rw [mention_modifyMention, if_neg fun hnm => hn hnm.1]
    exact hfinds.mention_eq n

/-- Finding the players of different mentions keeps where role names come from, if those that
declare role names have no players yet.

**Proof sketch.** By induction on the mentions. A mention that is given its player could have been a
source before only if it had one. -/
lemma sourced_identifyEach (hx : x.Sourced all declared) {ms : List MentionId} (hnodup : ms.Nodup)
    (hall : ms ⊆ all) {change : MentionId → Compile PUnit}
    (hchange : ∀ m ∈ ms, change m = pure ⟨⟩ ∨
      ((declared m).isSome → (x.mention m).player = none) ∧ change m = match declared m with
        | some roleName => identifyDeclaring m roleName
        | none => identifyPlain m) {u : PUnit} (h : (ms.forM change).perform x = (.ok u, y)) :
    y.Sourced all declared := by
  induction ms generalizing x with
  | nil =>
    cases h
    exact hx
  | cons m ms ih =>
    obtain ⟨hnew, hnodup⟩ := List.nodup_cons.1 hnodup
    rw [List.forM] at h
    obtain ⟨_, z, hfirst, hrest⟩ := perform_bind_eq_ok.1 h
    have hlater := (List.cons_subset.1 hall).2
    rcases hchange m List.mem_cons_self with hpure | ⟨hnone, hsome⟩
    · rw [hpure] at hfirst
      cases hfirst
      exact ih hx hnodup hlater (fun n hn => hchange n (List.mem_cons_of_mem m hn)) hrest
    · rw [hsome] at hfirst
      obtain ⟨hz, hothers⟩ := sourced_identify hx (List.cons_subset.1 hall).1 hnone hfirst
      refine ih hz hnodup hlater (fun n hn => ?_) hrest
      have hne : n ≠ m := fun heq => hnew (heq ▸ hn)
      rw [hothers n hne]
      exact hchange n (List.mem_cons_of_mem m hn)

/-- Finding the players of clauses keeps where role names come from, if no player is known yet. -/
theorem sourced_identifyPlayers {cs : List Clause} (hx : x.Sourced (allMentions cs) declared)
    (hnodup : (allMentions cs).Nodup) (hnone : ∀ m, (x.mention m).player = none) {u : Unit}
    (h : (identifyPlayers cs).perform x = (.ok u, y)) : y.Sourced (allMentions cs) declared := by
  rw [identifyPlayers, perform_get_bind] at h
  obtain ⟨_, z, hdeclaring, hplain⟩ := perform_bind_eq_ok.1 h
  have hz := sourced_identifyEach hx hnodup (List.Subset.refl _) (fun m _ => by
    rw [hx.declaredName?_eq]
    cases declared m with
    | some roleName => exact .inr ⟨fun _ => hnone m, rfl⟩
    | none => exact .inl rfl) hdeclaring
  refine sourced_identifyEach hz hnodup (List.Subset.refl _) (fun m _ => ?_) hplain
  rw [hx.declaredName?_eq]
  cases declared m with
  | some roleName => exact .inl rfl
  | none => exact .inr ⟨by simp, rfl⟩

/-- Binding mentions does not change who the role names stand for. -/
lemma roleNamePlayers_of_bindEach {ms : List MentionId} {u : Unit}
    (h : (bindEach ms).perform x = (.ok u, y)) : y.roleNamePlayers = x.roleNamePlayers := by
  induction ms generalizing x with
  | nil =>
    cases h
    rfl
  | cons m ms ih =>
    obtain ⟨b, z, hbind, hrest⟩ := perform_bind_eq_ok.1 h
    obtain ⟨player, -, hbind⟩ := perform_bind_mention_eq_ok.1 hbind
    obtain rfl : (x.bindAs m player).2 = z := congrArg Prod.snd hbind
    rw [ih hrest]
    unfold bindAs
    split <;> rfl

/-- Binding mentions keeps where role names come from. -/
lemma sourced_of_bindsEach {ms : List MentionId} (hx : x.Sourced all declared)
    (hbinds : BindsEach ms x y) (hnames : y.roleNamePlayers = x.roleNamePlayers) :
    y.Sourced all fun m => (y.mention m).declaredName? := by
  have hdeclared : ∀ m, (y.mention m).declaredName? = declared m := fun m => by
    rw [hbinds.mention_eq]
    exact hx.declaredName?_eq m
  have hvocabulary := hbinds.vocabulary_eq
  refine ⟨fun _ => rfl, fun m hm => ?_, fun name t ht => ?_, fun m hm t ht => ?_,
    fun m hm t ht => ?_⟩
  · rw [hdeclared] at hm
    rw [hbinds.mention_eq]
    exact hx.plain m hm
  · rw [hnames] at ht
    obtain ⟨m, hm, hname, hplayer⟩ := hx.source name t ht
    refine ⟨m, hm, (hdeclared m).trans hname, ?_⟩
    rw [hbinds.mention_eq]
    exact hplayer
  · rw [hbinds.mention_eq] at ht ⊢
    have hcalled := hx.isCalled m ((hdeclared m).symm.trans hm) t ht
    change y.IsCalled t (x.mention m).title
    cases htitle : (x.mention m).title with
    | inl name =>
      rw [htitle] at hcalled
      change (name, t) ∈ y.roleNamePlayers
      exact hnames ▸ hcalled
    | inr term =>
      rw [htitle] at hcalled
      change y.vocabulary.findObjectType? term = some t
      exact hvocabulary ▸ hcalled
  · rw [hdeclared] at hm
    rw [hbinds.mention_eq] at ht ⊢
    have hstands := hx.standsFor m hm t ht
    unfold StandsFor at hstands ⊢
    rw [hvocabulary, hnames]
    exact hstands

/-- In clauses that have been entered, role names have the players of mentions that declare them. -/
theorem sourced_enter {v : Vocabulary} {forwardTerms : List String} {clauses : List Script.Clause}
    {cs : List Clause}
    (h : (enter clauses).perform { vocabulary := v, forwardTerms } = (.ok cs, y)) :
    y.Sourced (allMentions cs) fun m => (y.mention m).declaredName? := by
  let x : Context := { vocabulary := v, forwardTerms }
  obtain ⟨_, z, hidentify, hrest⟩ := perform_bind_eq_ok.1
    (show (do
      identifyPlayers (adoptAll clauses x).1
      bindClauses (adoptAll clauses x).1
      pure (adoptAll clauses x).1 : Compile (List Clause)).perform (adoptAll clauses x).2 =
        (.ok cs, y)
      from h)
  obtain ⟨_, w, hbind, hpure⟩ := perform_bind_eq_ok.1 hrest
  cases hpure
  obtain ⟨hnone, hunknown⟩ := (adopts_adoptAll clauses x).unknown
  have hx : (adoptAll clauses x).2.Sourced (allMentions (adoptAll clauses x).1)
      fun m => ((adoptAll clauses x).2.mention m).declaredName? := by
    refine ⟨fun _ => rfl, fun m _ => (hunknown m).2, fun name t ht => ?_, fun m _ t ht => ?_,
      fun m _ t ht => ?_⟩
    · rw [hnone] at ht
      cases ht
    · rw [(hunknown m).1] at ht
      cases ht
    · rw [(hunknown m).1] at ht
      cases ht
  have hz := sourced_identifyPlayers hx (places_adoptAll clauses x).nodup (fun m => (hunknown m).1)
    hidentify
  have heach := bindEach_of_bindClauses _ hbind
  exact sourced_of_bindsEach hz (bindsEach_of_bindEach heach) (roleNamePlayers_of_bindEach heach)

end Compile

namespace Session

/-- **Role names denote.** Let clauses be entered after any scripts, and let `d` be the one mention
of them, at any depth, that declares a role name, which is no name of a type. A mention `u`, at any
depth, whose term is the role name and which declares none, has the player of `d`. Both are bound,
and they are bound together just in case they carry the same literal and the term of `d` is not a
role name itself.

**Proof sketch.** As its term is no name of a type, `u` has the player that the role name has been
given, and only `d` gave it one. The key of `u` has the name of this player, and that of `d` has the
term of `d`. A term that finds a type is its name, and a role name is not. -/
theorem denotes_enter (settings : Settings) (scripts : List String) {clauses : List Script.Clause}
    {cs : List Clause} {x : Context}
    (h : (Compile.enter clauses).perform ((start settings).compileAll scripts).context =
      (.ok cs, x))
    {name : String} {d : MentionId} (hd : x.OnlyDeclares cs name d)
    (hname : x.vocabulary.findObjectType? name = none) {u : MentionId} (hu : u ∈ allMentions cs)
    (hterm : (x.mention u).term = name) (hplain : (x.mention u).declaredName? = none) :
    (x.mention u).player.isSome ∧ (x.mention u).player = (x.mention d).player ∧
      (x.mention u).binding.isSome ∧ (x.mention d).binding.isSome ∧
      ((x.mention u).binding = (x.mention d).binding ↔
        (x.mention u).literal = (x.mention d).literal ∧
          (x.vocabulary.findObjectType? (x.mention d).term).isSome) := by
  have hsourced := Compile.sourced_enter h
  obtain ⟨hbound, -, -, hall⟩ := isBound_of_enter h
  have hvalid : x.Valid := by
    have hconsistent := consistent_compileAll (consistent_start settings) scripts
    have hleads := (Compile.leads_enter (valid_context hconsistent) clauses).snd
    rw [h] at hleads
    exact hleads.valid
  have hwell := hvalid.consistent.toWellFormed
  obtain ⟨t, ht⟩ := Option.isSome_iff_exists.1 (hall u hu).player
  have hcalled := hsourced.isCalled u hplain t ht
  rw [Mention.title_of_plain hplain, hterm] at hcalled
  -- The name of a type is never a role name, so `u` is called by the role name.
  have hby : (x.mention u).playerByRoleName = true := by
    by_contra hby
    rw [if_neg hby] at hcalled
    cases hname.symm.trans hcalled
  rw [if_pos hby] at hcalled
  obtain ⟨m, hm, hdeclares, hplayer⟩ := hsourced.source name t hcalled
  obtain rfl := hd.only m hm hdeclares
  have hmem := hvalid.player_mem u t ht
  have hstands := hsourced.standsFor m (hdeclares ▸ rfl) t hplayer
  have hkeyu : x.bindingKey u =
      .role (x.vocabulary.nameOf t) (.named name) (x.mention u).literal := by
    simp only [Context.bindingKey, hby, ht, hterm]
  have hkeyd : x.bindingKey m = .role (x.mention m).term (.named name) (x.mention m).literal := by
    have hroleName := Mention.roleName_of_declares hdeclares
    simp only [Context.bindingKey, hsourced.plain m (hdeclares ▸ rfl), hroleName]
  have hnamed : x.vocabulary.nameOf t = (x.mention m).term ↔
      (x.vocabulary.findObjectType? (x.mention m).term).isSome := by
    constructor
    · intro hnamed
      rw [← hnamed, (hwell.findObjectType?_iff _ t).2 ⟨hmem, rfl⟩, Option.isSome_some]
    · intro hsome
      rcases hstands with hfind | ⟨hnone, -⟩
      · exact ((hwell.findObjectType?_iff _ t).1 hfind).2
      · rw [hnone] at hsome
        cases hsome
  refine ⟨(hall u hu).player, ht.trans hplayer.symm, (hall u hu).binding,
    (hall m hm).binding, ?_⟩
  rw [hbound.toTied.binding_eq_iff (hall u hu).binding (hall m hm).binding, hkeyu,
    hkeyd, ← hnamed]
  simp only [BindingKey.role.injEq, true_and, and_comm]

/-- In `Person has Name (as Nickname) and Nickname is short` the nickname is the name. -/
theorem denotes_enter_nickname :
    let clauses : List Script.Clause := [
      { phrases := [.mention { term := "Person" }, .word "has",
          .mention { term := "Name", roleName := some (.named "Nickname") }] },
      { phrases := [.mention { term := "Nickname" }, .word "is", .word "short"] }]
    let r := (Compile.enter clauses).perform
      ((start {}).compileAll ["entity type Person; entity type Name;"]).context
    let x := r.2
    ∃ cs ∈ r.1.toOption, (x.OnlyDeclares cs "Nickname" ⟨1⟩ ∧
        x.vocabulary.findObjectType? "Nickname" = none ∧ ⟨2⟩ ∈ allMentions cs ∧
        (x.mention ⟨2⟩).term = "Nickname" ∧ (x.mention ⟨2⟩).declaredName? = none ∧
        (x.mention ⟨2⟩).literal = (x.mention ⟨1⟩).literal ∧
        (x.vocabulary.findObjectType? (x.mention ⟨1⟩).term).isSome) ∧
      (x.mention ⟨2⟩).player = (x.mention ⟨1⟩).player ∧
      (x.mention ⟨2⟩).binding = (x.mention ⟨1⟩).binding := by
  intro clauses r x
  have hcomputed : ∃ cs ∈ r.1.toOption, x.OnlyDeclares cs "Nickname" ⟨1⟩ ∧
      x.vocabulary.findObjectType? "Nickname" = none ∧ ⟨2⟩ ∈ allMentions cs ∧
      (x.mention ⟨2⟩).term = "Nickname" ∧ (x.mention ⟨2⟩).declaredName? = none ∧
      (x.mention ⟨2⟩).literal = (x.mention ⟨1⟩).literal ∧
      (x.vocabulary.findObjectType? (x.mention ⟨1⟩).term).isSome := by
    unfold x r
    rw [compileAll_cons, compile_ofList, compileAll_nil]
    decide +kernel
  obtain ⟨cs, hcs, hd, hname, hu, hterm, hplain, hliteral, hsome⟩ := hcomputed
  have hdenotes := denotes_enter {} ["entity type Person; entity type Name;"]
    (Prod.ext (eq_ok_of_toOption hcs) rfl : r = (.ok cs, x)) hd hname hu hterm hplain
  exact ⟨cs, hcs, ⟨hd, hname, hu, hterm, hplain, hliteral, hsome⟩, hdenotes.2.1,
    hdenotes.2.2.2.2.2 ⟨hliteral, hsome⟩⟩

/-- **A role name declared for a role name.** In `Person (as Boss) leads Boss (as Chief) and Chief
is happy` the last mention has the player of the mention that declares its term, and no literal
tells them apart, and yet they are not bound together. -/
theorem exists_unshared :
    let clauses : List Script.Clause := [
      { phrases := [.mention { term := "Person", roleName := some (.named "Boss") }, .word "leads",
          .mention { term := "Boss", roleName := some (.named "Chief") }] },
      { phrases := [.mention { term := "Chief" }, .word "is", .word "happy"] }]
    let r := (Compile.enter clauses).perform
      ((start {}).compileAll ["entity type Person;"]).context
    let x := r.2
    ∃ cs ∈ r.1.toOption, ∃ d ∈ allMentions cs, ∃ u ∈ allMentions cs,
      x.OnlyDeclares cs "Chief" d ∧ x.vocabulary.findObjectType? "Chief" = none ∧
        (x.mention u).term = "Chief" ∧ (x.mention u).declaredName? = none ∧
        (x.mention u).literal = (x.mention d).literal ∧
        (x.mention u).player = (x.mention d).player ∧
        (x.mention u).binding ≠ (x.mention d).binding := by
  rw [compileAll_cons, compile_ofList, compileAll_nil]
  decide +kernel

end Session

end FactModel
