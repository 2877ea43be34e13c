import FactModel.Proofs.Definition.Creation
import FactModel.Proofs.Matching.RoleNames
import FactModel.Proofs.Session.Definitions
set_option autoImplicit false

/-!
# Role names within clauses

Binding refuses a clause in which two mentions have the same role name. From there on no mention is
renamed, and mentions are put into clauses by completion only, which does not look at role names.

## Main definitions

* `FactModel.Context.SameNames` — no mention has been renamed.

## Main results

* `FactModel.Compile.names_of_enter` — entered clauses name no role twice.
* `FactModel.Compile.names_defineFactType` — nor do the clauses of a definition.
* `FactModel.Session.names_declare` — clauses name no role twice but by a mention that they borrow.
-/

namespace FactModel

open Attempt Compile Context

namespace Context

variable {x y z : Context} {c : Clause}

/-- No mention has been renamed. -/
def SameNames (x y : Context) : Prop :=
  ∀ m, (y.mention m).roleName = (x.mention m).roleName

/-- Mentions that are not renamed twice are not renamed. -/
lemma SameNames.trans (h : x.SameNames y) (h' : y.SameNames z) : x.SameNames z :=
  fun m => (h' m).trans (h m)

/-- Whether a clause names a role twice depends only on role names. -/
lemma SameNames.namesOnce_iff (h : x.SameNames y) : y.NamesOnce c ↔ x.NamesOnce c := by
  simp only [NamesOnce, roleNames, h _]

/-- Clauses at all depths that name no role twice did so before. -/
lemma SameNames.everywhere (h : x.SameNames y) (hc : c.Everywhere y.NamesOnce) :
    c.Everywhere x.NamesOnce :=
  hc.imp fun _ => h.namesOnce_iff.1

end Context

namespace Compile

variable {x y : Context}

/-! ## Binding -/

/-- No item is repeated just in case none is found. -/
lemma firstRepeated?_eq_none {α : Type} [DecidableEq α] {seen as : List α} :
    firstRepeated? seen as = none ↔ as.Nodup ∧ ∀ a ∈ as, a ∉ seen := by
  induction as generalizing seen with
  | nil => simp [firstRepeated?]
  | cons a as ih =>
    rw [firstRepeated?]
    split
    · next hmem => simp [hmem]
    · next hmem =>
      rw [ih, List.nodup_cons, List.forall_mem_cons]
      constructor
      · rintro ⟨hnodup, hnew⟩
        refine ⟨⟨fun ha => hnew a ha List.mem_cons_self, hnodup⟩, hmem, fun b hb => ?_⟩
        exact fun hseen => hnew b hb (List.mem_cons_of_mem a hseen)
      · rintro ⟨⟨ha, hnodup⟩, -, hnew⟩
        refine ⟨hnodup, fun b hb hseen => ?_⟩
        rcases List.mem_cons.1 hseen with rfl | hseen
        · exact ha hb
        · exact hnew b hb hseen

/-- Binding a mention renames none. -/
lemma sameNames_bind {m : MentionId} {b : BindingId} (h : (bind m).perform x = (.ok b, y)) :
    x.SameNames y := by
  obtain ⟨player, -, hbind⟩ := perform_bind_mention_eq_ok.1 h
  intro n
  have hname := mention_bindAs_apply (·.roleName) (fun _ _ => rfl) (x := x) m player n
  rwa [hbind] at hname

mutual

/-- Clauses in a slot that can be bound name no role twice. -/
lemma namesOnce_of_bindSlot : ∀ (s : Slot) {x y : Context} {u : Unit},
    (bindSlot s).perform x = (.ok u, y) → x.SameNames y ∧ s.Below x.NamesOnce
  | ⟨m, nested⟩, x, y, u, h => by
    rw [bindSlot] at h
    obtain ⟨b, z, hbind, hrest⟩ := perform_bind_eq_ok.1 h
    have hxz := sameNames_bind hbind
    obtain ⟨hzy, hnested⟩ := namesOnce_of_bindClauses nested hrest
    exact ⟨hxz.trans hzy, fun d hd => hxz.everywhere (hnested d hd)⟩

/-- Clauses in a phrase that can be bound name no role twice. -/
lemma namesOnce_of_bindPhrase : ∀ (p : Phrase) {x y : Context} {u : Unit},
    (bindPhrase p).perform x = (.ok u, y) → x.SameNames y ∧ ∀ s ∈ p.slots, s.Below x.NamesOnce
  | .word _, x, y, u, h => by
    rw [bindPhrase] at h
    cases h
    exact ⟨fun _ => rfl, fun _ hs => nomatch hs⟩
  | .slot s, x, y, u, h => by
    rw [bindPhrase] at h
    obtain ⟨hxy, hs⟩ := namesOnce_of_bindSlot s h
    exact ⟨hxy, fun t ht => List.mem_singleton.1 ht ▸ hs⟩
  | .comparison _ left right, x, y, u, h => by
    rw [bindPhrase] at h
    obtain ⟨_, z, hleft, hright⟩ := perform_bind_eq_ok.1 h
    obtain ⟨hxz, hleft⟩ := namesOnce_of_bindSlot left hleft
    obtain ⟨hzy, hright⟩ := namesOnce_of_bindSlot right hright
    refine ⟨hxz.trans hzy, fun t ht => ?_⟩
    rcases List.mem_pair.1 ht with rfl | rfl
    · exact hleft
    · exact fun d hd => hxz.everywhere (hright d hd)

/-- Clauses in phrases that can be bound name no role twice. -/
lemma namesOnce_of_bindPhrases : ∀ (ps : List Phrase) {x y : Context} {u : Unit},
    (bindPhrases ps).perform x = (.ok u, y) →
      x.SameNames y ∧ ∀ s ∈ ps.flatMap Phrase.slots, s.Below x.NamesOnce
  | [], x, y, u, h => by
    rw [bindPhrases] at h
    cases h
    exact ⟨fun _ => rfl, fun _ hs => nomatch hs⟩
  | p :: ps, x, y, u, h => by
    rw [bindPhrases] at h
    obtain ⟨_, z, hfirst, hrest⟩ := perform_bind_eq_ok.1 h
    obtain ⟨hxz, hp⟩ := namesOnce_of_bindPhrase p hfirst
    obtain ⟨hzy, hps⟩ := namesOnce_of_bindPhrases ps hrest
    refine ⟨hxz.trans hzy, fun s hs => ?_⟩
    rcases List.mem_append.1 hs with hs | hs
    · exact hp s hs
    · exact fun d hd => hxz.everywhere (hps s hs d hd)

/-- A clause that can be bound names no role twice, at any depth. -/
lemma namesOnce_of_bindClause : ∀ (c : Clause) {x y : Context} {u : Unit},
    (bindClause c).perform x = (.ok u, y) → x.SameNames y ∧ c.Everywhere x.NamesOnce
  | ⟨phrases, _, _, _, _, _, _, _, _⟩, x, y, u, h => by
    rw [bindClause] at h
    obtain ⟨_, z, hcheck, hrest⟩ := perform_bind_eq_ok.1 h
    obtain ⟨hnone, rfl⟩ := checkRoleNames_eq_ok.1 hcheck
    obtain ⟨hxy, hbelow⟩ := namesOnce_of_bindPhrases phrases hrest
    exact ⟨hxy, .intro (firstRepeated?_eq_none.1 hnone).1 hbelow⟩

/-- Clauses that have been bound name no role twice, and binding renames nothing.

**Proof sketch.** By recursion on the clauses. Each clause is checked before its mentions are
bound. -/
lemma namesOnce_of_bindClauses : ∀ (cs : List Clause) {x y : Context} {u : Unit},
    (bindClauses cs).perform x = (.ok u, y) → x.SameNames y ∧ ∀ c ∈ cs, c.Everywhere x.NamesOnce
  | [], x, y, u, h => by
    rw [bindClauses] at h
    cases h
    exact ⟨fun _ => rfl, fun _ hc => nomatch hc⟩
  | c :: cs, x, y, u, h => by
    rw [bindClauses] at h
    obtain ⟨_, z, hfirst, hrest⟩ := perform_bind_eq_ok.1 h
    obtain ⟨hxz, hc⟩ := namesOnce_of_bindClause c hfirst
    obtain ⟨hzy, hcs⟩ := namesOnce_of_bindClauses cs hrest
    refine ⟨hxz.trans hzy, List.forall_mem_cons.2 ⟨hc, fun d hd => ?_⟩⟩
    exact hxz.everywhere (hcs d hd)

end

/-- A clause whose mentions exist names no role twice. -/
lemma everywhere_names {n : Nat} {c : Clause} (h : c.Everywhere x.NamesOnce)
    (hlt : ∀ m ∈ c.allMentions, m.index < n) : c.Everywhere (x.Names n) := by
  induction h with
  | @intro c here _ ih =>
    refine .intro ⟨fun m hm => hlt m (c.mentions_subset_allMentions hm), here⟩ fun s hs d hd => ?_
    exact ih s hs d hd fun m hm => hlt m (Clause.allMentions_subset_of_nested hs hd hm)

/-- Entered clauses name no role twice. -/
theorem names_of_enter {s : Session} {clauses : List Script.Clause} {cs : List Clause}
    (h : (enter clauses).perform s.context = (.ok cs, y)) :
    ∀ c ∈ cs, c.Everywhere (y.Names y.mentions.size) := by
  obtain ⟨-, -, -, hbound⟩ := isBound_of_enter h
  have hrest : (do
      identifyPlayers (Context.adoptAll clauses s.context).1
      bindClauses (Context.adoptAll clauses s.context).1
      pure (Context.adoptAll clauses s.context).1 : Compile (List Clause)).perform
        (Context.adoptAll clauses s.context).2 = (.ok cs, y) := h
  obtain ⟨_, z, hidentify, hrest⟩ := perform_bind_eq_ok.1 hrest
  obtain ⟨_, w, hbind, hpure⟩ := perform_bind_eq_ok.1 hrest
  cases hpure
  obtain ⟨hzw, hcs⟩ := namesOnce_of_bindClauses _ hbind
  intro c hc
  refine everywhere_names ((hcs c hc).imp fun _ => hzw.namesOnce_iff.2) fun m hm => ?_
  exact (hbound m (mem_allMentions_of_mem hc hm)).index_lt

/-! ## Definitions -/

variable {n : Nat} {cs ds : List Clause} {f : FactTypeId}

/-- Resolving clauses that state readings keeps that they name no role twice. -/
lemma leads_resolveAllStated_names (hx : x.Carries n x) (hcs : ∀ c ∈ cs, c.Everywhere (x.Names n)) :
    (resolveAllStated cs).Leads (Carries n) x fun ds y => ∀ d ∈ ds, d.Everywhere (y.Names n) := by
  have hnames := resolves_names { exactTypes := true } n
  induction cs generalizing x with
  | nil => exact leads_pure hx fun _ hd => nomatch hd
  | cons c cs ih =>
    have hfirst : (resolveStated c).Leads (Carries n) x fun d y => d.Everywhere (y.Names n) := by
      unfold resolveStated
      split
      · exact leads_get_bind (leads_throw_bind hx)
      · refine Leads.bind (hnames.leads_resolve c hx (hcs c List.mem_cons_self)) fun r y hy hr => ?_
        exact leads_pure hy.refl_right hr.1
    refine Leads.bind hfirst fun d y hxy hd => ?_
    refine Leads.bind (ih hxy.refl_right fun e he => ?_) fun ds z hyz hds => ?_
    · exact hnames.everywhere_mono hxy (hcs e (List.mem_cons_of_mem c he))
    · exact leads_pure hyz.refl_right
        (List.forall_mem_cons.2 ⟨hnames.everywhere_mono hyz hd, hds⟩)

/-- Clauses keep their phrases when they give the fact type. -/
lemma phrases_statedFactType {created : Bool}
    (h : (statedFactType cs).perform x = (.ok (f, created, ds), y)) :
    ds.map (·.phrases) = cs.map (·.phrases) := by
  unfold statedFactType at h
  split at h
  · cases h
    rfl
  · next first others _ =>
    obtain ⟨⟨g, first'⟩, z, hmake, hpure⟩ := perform_bind_eq_ok.1 h
    cases hpure
    obtain ⟨g', w, hnew, hroles⟩ := perform_bind_eq_ok.1 hmake
    obtain ⟨_, w', hroles, hpure⟩ := perform_bind_eq_ok.1 hroles
    cases hpure
    rfl
  · cases h
  · rw [perform_get_bind] at h
    cases h

/-- A clause keeps its phrases when it is adjusted to a reading. -/
lemma phrases_adjust {c d : Clause} (h : (adjust c).perform x = (.ok d, y)) :
    d.phrases = c.phrases := by
  unfold adjust at h
  split at h
  · cases h
    rfl
  obtain ⟨_, z, -, hrest⟩ := perform_bind_eq_ok.1 h
  rw [perform_get_bind] at hrest
  split at hrest
  · cases hrest
    rfl
  obtain ⟨refs, w, -, hrest⟩ := perform_bind_eq_ok.1 hrest
  obtain ⟨s, u, -, hrest⟩ := perform_bind_eq_ok.1 hrest
  obtain ⟨_, u', -, hpure⟩ := perform_bind_eq_ok.1 hrest
  cases hpure
  rfl

/-- Clauses keep their phrases when they come to state readings. -/
lemma phrases_stateReadings (h : (stateReadings f cs).perform x = (.ok ds, y)) :
    ds.map (·.phrases) = cs.map (·.phrases) := by
  induction cs generalizing x ds with
  | nil =>
    cases h
    rfl
  | cons c cs ih =>
    obtain ⟨d, z, es, rfl, hothers, hfirst⟩ := stateReadings_cons_eq_ok h
    rw [List.map_cons, ih hothers, List.map_cons]
    refine congrArg (· :: _) ?_
    rcases hfirst with ⟨-, hadjust⟩ | ⟨-, r, hmake⟩
    · exact phrases_adjust hadjust
    · obtain ⟨_, _, _, _, rfl, _⟩ := perform_makeReading_eq_ok hmake
      rfl

/-- Definitions keep role names apart. -/
theorem names_defineFactType {created : Bool} (hx : x.Sustains n x)
    (hcs : ∀ c ∈ cs, c.Everywhere (x.Names n))
    (h : (defineFactType cs).perform x = (.ok (f, created, ds), y)) :
    ∀ d ∈ ds, d.Everywhere (y.Names n) := by
  obtain ⟨resolved, y₁, hresolve, hrest⟩ := perform_bind_eq_ok.1 h
  obtain ⟨⟨g, isNew, stated⟩, y₂, hstated, hrest⟩ := perform_bind_eq_ok.1 hrest
  obtain ⟨read, y₃, hread, hrest⟩ := perform_bind_eq_ok.1 hrest
  obtain ⟨_, y₄, hembed, hpure⟩ := perform_bind_eq_ok.1 hrest
  cases hpure
  obtain ⟨hxy₁, hresolved⟩ := (leads_resolveAllStated_names hx.carries hcs).of_perform hresolve
  have hdefines := defines_sustains n
  have hy₁ := ((hdefines.resolveAllStated cs hx).of_perform hresolve).1.refl_right
  have hy₂ := ((hdefines.statedFactType resolved hy₁).of_perform hstated).1
  have hy₃ := ((hdefines.stateReadings f stated hy₂.refl_right).of_perform hread).1
  have hy₄ := ((hdefines.embed ds hy₃.refl_right).of_perform hembed).1
  have hphrases := (phrases_stateReadings hread).trans (phrases_statedFactType hstated)
  intro d hd
  obtain ⟨c, hc, heq⟩ := List.mem_map.1 (hphrases ▸ List.mem_map_of_mem hd)
  replace heq : d.phrases = c.phrases := heq.symm
  have hnames := (hresolved c hc).imp fun _ => (·.carries
    (Trans.trans (Trans.trans hy₂.carries hy₃.carries) hy₄.carries))
  have hslots : d.slots = c.slots := by rw [Clause.slots, heq, Clause.slots]
  exact .intro (hnames.here.of_mentions_eq (by rw [Clause.mentions, hslots, Clause.mentions]))
    fun s hs => hnames.nested s (hslots ▸ hs)

end Compile

namespace Session

variable {s t : Session} {clauses : List Script.Clause}

/-- The clauses that state a fact type name no role twice. -/
lemma names_of_define (hs : s.vocabulary.Consistent) (hplain : Script.ArePlain clauses)
    {entered head : List Clause} {split : Option Nat} {x y : Context} {f : FactTypeId}
    {created : Bool}
    (henter : (enter clauses).perform s.context = (.ok entered, x))
    (hdefine : (defineFactType (split.elim entered entered.take)).perform x =
      (.ok (f, created, head), y)) :
    ∀ c ∈ head, c.Everywhere (y.Names x.mentions.size) := by
  have hsubset : split.elim entered entered.take ⊆ entered := by
    cases split with
    | none => exact List.Subset.refl _
    | some n => exact List.take_subset n entered
  exact names_defineFactType (ready_of_enter hs hplain henter).sustains
    (fun c hc => names_of_enter henter c (hsubset hc)) hdefine

/-- The clauses of a query name no role twice but by mentions that they borrow. -/
lemma QueryRun.names (run : s.QueryRun clauses) :
    run.matched.AllNameOwnOnce none run.resolved := by
  obtain ⟨-, hunmerged, hnone, hbound⟩ := isBound_of_enter run.enter_eq
  exact names_resolveAll (.refl (Nat.le_refl _) hunmerged) hbound (names_of_enter run.enter_eq)
    hnone
    (fun _ hp => nomatch hp) run.resolveAll_eq

/-- The clauses behind the `where` of a derivation name no role twice but by mentions that they
borrow. -/
lemma DerivationRun.names {split : Nat} (run : s.DerivationRun split clauses)
    (hs : s.vocabulary.Consistent) (hplain : Script.ArePlain clauses) :
    run.matched.AllNameOwnOnce none run.body := by
  have hready := ready_of_enter hs hplain run.enter_eq
  have hsustains := ((defines_sustains run.bound.mentions.size).defineFactType
    (run.entered.take split) hready.sustains).of_perform run.define_eq |>.1
  have hmem : ∀ c ∈ run.entered.drop split, c ∈ run.entered := fun c =>
    (List.mem_of_mem_drop ·)
  refine names_resolveAll hsustains.carries.refl_right (fun m hm => ?_) (fun c hc => ?_)
    (fun c hc => (hready.unmatched c (hmem c hc)).2) (fun _ hp => nomatch hp) run.resolveAll_eq
  · rw [allMentions_eq] at hm
    obtain ⟨c, hc, hm⟩ := List.mem_flatMap.1 hm
    have hbound := hready.isBound m (mem_allMentions_of_mem (hmem c hc) hm)
    exact hsustains.carries.isBound hbound.index_lt hbound
  · exact (names_of_enter run.enter_eq c (hmem c hc)).imp fun _ => (·.carries hsustains.carries)

/-- **Role names within clauses.** Let a declaration compile, whatever scripts have been compiled.
The clauses that state a fact type name no role twice, nested clauses included. Neither do those of
a query or behind the `where` of a derivation, but by a mention that they borrow: a completed clause
has its own mentions, which have different role names, and a copy of a mention of the clause before,
which has the role name of that mention. The clause names a role twice just in case one of its own
mentions has this role name too.

**Proof sketch.** Clauses are checked when they are bound. No mention is renamed afterwards, and
resolution takes only words out of clauses. -/
theorem names_declare (settings : Settings) (scripts : List String) :
    let s := (start settings).compileAll scripts
    ∀ script ds, Script.parse script = .ok ds → ∀ d ∈ ds, ∀ outcome t,
      s.declare d = (.ok outcome, t) →
      (∀ clauses split, definition? d = some (clauses, split) →
        ∃ run : s.DefinitionRun split clauses,
          (∃ reports, outcome = .factType run.factType run.created
          reports) ∧ ∀ c ∈ run.head, c.Everywhere run.defined.NamesOnce) ∧
      (∀ clauses, d = .query clauses → ∃ run : s.QueryRun clauses, outcome = run.outcome ∧
        run.matched.AllNameOwnOnce none run.resolved) ∧
      (∀ clauses split, d = .factType clauses → derivationSplit? clauses = some split →
        ∃ run : s.DerivationRun split clauses, outcome = run.outcome ∧
          run.matched.AllNameOwnOnce none run.body) := by
  intro s script ds hparse d hd outcome t h
  have hs := consistent_compileAll (consistent_start settings) scripts
  have hplain : Script.ArePlain d.clauses :=
    Script.arePlain_iff.2 (Script.isPlain_of_parse hparse d hd)
  refine ⟨fun clauses split hdefinition => ?_, ?_, ?_⟩
  · obtain rfl := clauses_of_definition? hdefinition
    obtain ⟨run, houtcome, -⟩ := exists_definitionRun_evolves hdefinition h
    refine ⟨run, houtcome, fun c hc => ?_⟩
    exact (names_of_define hs hplain run.enter_eq run.define_eq c hc).imp fun _ => (·.once)
  · rintro clauses rfl
    obtain ⟨run, houtcome, -⟩ := declare_query_eq_ok.1 h
    exact ⟨run, houtcome, run.names⟩
  · rintro clauses split rfl hsplit
    obtain ⟨run, houtcome, -⟩ := (declare_derived_eq_ok hsplit).1 h
    exact ⟨run, houtcome, run.names hs hplain⟩

/-- A clause borrows the last mention of the clause before, and with it the subscript. -/
theorem names_declare_sees :
    let s := (start {}).compileAll
      ["entity type A; entity type B; entity type C; A likes B; B sees C;"]
    ∃ clauses outcome t, Script.parse "A(1) likes B(2) and sees C(3)?" = .ok [.query clauses] ∧
      s.declare (.query clauses) = (.ok outcome, t) ∧
      ∃ run : s.QueryRun clauses, outcome = run.outcome ∧
        run.matched.AllNameOwnOnce none run.resolved := by
  intro s
  have hcompiles : s.compiles "A(1) likes B(2) and sees C(3)?" isQuery = true := by
    unfold s
    rw [compileAll_cons, compile_ofList, compileAll_nil, compiles_ofList]
    decide +kernel
  obtain ⟨d, outcome, t, hparse, hquery, h⟩ := exists_of_compiles hcompiles
  obtain ⟨clauses, rfl⟩ : ∃ clauses, d = .query clauses := by
    cases d with
    | query clauses => exact ⟨clauses, rfl⟩
    | _ => cases hquery
  have hnames := names_declare {} _ _ _ hparse _ List.mem_cons_self outcome t h
  exact ⟨clauses, outcome, t, hparse, h, hnames.2.1 clauses rfl⟩

instance (x : Context) (c : Clause) : Decidable (x.NamesOnce c) :=
  inferInstanceAs (Decidable (List.Nodup _))

/-- Whether a declaration is a query of which a clause names a role twice once it is resolved. -/
def repeatsName (s : Session) : Script.Declaration → Bool
  | .query clauses =>
    let entered := (enter clauses).perform s.context
    let resolved := (resolveAll s.settings.contraction none
      (entered.1.toOption.getD [])).perform entered.2
    (resolved.1.toOption.getD []).any fun c => !decide (resolved.2.NamesOnce c)
  | _ => false

/-- A clause may borrow a mention with a subscript that it has itself. -/
theorem exists_repeated_subscript :
    let s := (start {}).compileAll
      ["entity type A; entity type B; entity type C; A likes B; B sees C;"]
    ∃ clauses outcome t, Script.parse "A(1) likes B(2) and sees C(2)?" = .ok [.query clauses] ∧
      s.declare (.query clauses) = (.ok outcome, t) ∧
      ∃ run : s.QueryRun clauses, ∃ c ∈ run.resolved, ¬run.matched.NamesOnce c := by
  intro s
  have hcompiles : s.compiles "A(1) likes B(2) and sees C(2)?" s.repeatsName = true := by
    unfold s
    rw [compileAll_cons, compile_ofList, compileAll_nil, compiles_ofList]
    decide +kernel
  obtain ⟨d, outcome, t, hparse, hrepeats, h⟩ := exists_of_compiles hcompiles
  obtain ⟨clauses, rfl⟩ : ∃ clauses, d = .query clauses := by
    cases d with
    | query clauses => exact ⟨clauses, rfl⟩
    | _ => cases hrepeats
  obtain ⟨run, -, -⟩ := declare_query_eq_ok.1 h
  refine ⟨clauses, outcome, t, hparse, h, run, ?_⟩
  rw [repeatsName] at hrepeats
  rw [← run.entered_eq, ← run.bound_eq, ← run.resolved_eq, ← run.matched_eq, List.any_eq_true]
    at hrepeats
  obtain ⟨c, hc, hrepeats⟩ := hrepeats
  exact ⟨c, hc, by simpa using hrepeats⟩

end Session

end FactModel
