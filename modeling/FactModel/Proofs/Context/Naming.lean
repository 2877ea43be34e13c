import Mathlib.Data.List.Induction
import FactModel.Proofs.Context.Replay
import FactModel.Proofs.Session.Players
set_option autoImplicit false

/-!
# What terms come to name

Whom a term names depends on what has been found before: on the object types that were added for
terms which are not declared yet, and on the role names that were declared. Here this is said by
names alone, so that it can be compared for mentions that are taken in another order.

## Main definitions

* `FactModel.Call` — a mention whose player has been found.
* `FactModel.Call.Names` — whom a term names after some calls.
* `FactModel.Call.Follows` — calls that were found one after the other.
-/

namespace FactModel

/-- A mention whose player has been found, by names: its term, the role name that it declares and
its player. -/
structure Call where
  term : String
  declares : Option String
  player : String
deriving DecidableEq

namespace Call

variable {known : String → Prop} {forwards : List String} {done more before after : List Call}
  {c : Call} {term name other : String}

/-- The player of the last call that declares a role name. -/
def declared? (done : List Call) (roleName : String) : Option String :=
  ((done.filter (·.declares == some roleName)).getLast?).map (·.player)

/-- A term is the name of an object type: one that was there, or one that a call has added. -/
def IsKnown (known : String → Prop) (done : List Call) (term : String) : Prop :=
  known term ∨ ∃ c ∈ done, c.term = term ∧ c.player = term

/-- Whom a term names after some calls: the object type of that name, or else the player of that
role name, or else the object type that is added for it. -/
inductive Names (known : String → Prop) (forwards : List String) (done : List Call)
    (term : String) :
    String → Prop
  | known (h : IsKnown known done term) : Names known forwards done term term
  | roleName {name : String} (h : ¬IsKnown known done term)
      (hname : declared? done term = some name) :
      Names known forwards done term name
  | forward (h : ¬IsKnown known done term) (hname : declared? done term = none)
      (hterm : term ∈ forwards) : Names known forwards done term term

/-- Calls of which each names its player after those before it. -/
def Follows (known : String → Prop) (forwards : List String) (calls : List Call) : Prop :=
  ∀ before c after, calls = before ++ c :: after → Names known forwards before c.term c.player

/-- Later calls declare a role name over again. -/
lemma declared?_append :
    declared? (done ++ more) term = (declared? more term).or (declared? done term) := by
  rw [declared?, declared?, declared?, List.filter_append, List.getLast?_append, Option.map_or]

/-- The last call declares its role name. -/
lemma declared?_concat : declared? (done ++ [c]) term =
    if c.declares = some term then some c.player else declared? done term := by
  rw [declared?_append, declared?]
  by_cases hc : c.declares = some term
  · simp [hc]
  · simp [hc]

/-- A role name has no player exactly where no call declares it. -/
lemma declared?_eq_none_iff : declared? done term = none ↔ ∀ c ∈ done, c.declares ≠ some term := by
  rw [declared?, Option.map_eq_none_iff, List.getLast?_eq_none_iff, List.filter_eq_nil_iff]
  simp

/-- The player of a role name is that of a call that declares it. -/
lemma exists_of_declared? (h : declared? done term = some name) :
    ∃ c ∈ done, c.declares = some term ∧ c.player = name := by
  obtain ⟨c, hc, rfl⟩ := Option.map_eq_some_iff.1 h
  obtain ⟨hmem, hdeclares⟩ := List.mem_filter.1 (List.mem_of_getLast? hc)
  exact ⟨c, hmem, beq_iff_eq.1 hdeclares, rfl⟩

/-- A term is known after further calls if it was before, or if one of them has added it. -/
lemma isKnown_append : IsKnown known (done ++ more) term ↔
    IsKnown known done term ∨ ∃ c ∈ more, c.term = term ∧ c.player = term := by
  simp only [IsKnown, List.mem_append, or_and_right, exists_or, or_assoc]

/-- A term names one player. -/
lemma Names.unique (h : Names known forwards done term name)
    (h' : Names known forwards done term other) :
    name = other := by
  cases h with
  | known hk =>
    cases h' with
    | known _ => rfl
    | roleName hk' _ => exact absurd hk hk'
    | forward hk' _ _ => exact absurd hk hk'
  | roleName hk hname =>
    cases h' with
    | known hk' => exact absurd hk' hk
    | roleName _ hname' => exact Option.some.inj (hname.symm.trans hname')
    | forward _ hnone _ => cases hname.symm.trans hnone
  | forward hk hnone _ =>
    cases h' with
    | known hk' => exact absurd hk' hk
    | roleName _ hname => cases hname.symm.trans hnone
    | forward _ _ _ => rfl

/-- A term that is no name is one that may be used before it is declared. -/
lemma Names.mem_forwards (h : Names known forwards done term name)
    (hunknown : ¬IsKnown known done term)
    (hnone : declared? done term = none) : term ∈ forwards := by
  cases h with
  | known hk => exact absurd hk hunknown
  | roleName _ hname => cases hname.symm.trans hnone
  | forward _ _ hterm => exact hterm

/-- Calls follow each other if all but the last do and the last names its player after them. -/
lemma follows_append : Follows known forwards (done ++ [c]) ↔
    Follows known forwards done ∧ Names known forwards done c.term c.player := by
  constructor
  · intro h
    refine ⟨fun before d after hdone => h before d (after ++ [c]) ?_, h done c [] rfl⟩
    rw [hdone, List.append_assoc, List.cons_append]
  · rintro ⟨h, hc⟩ before d after hsplit
    rcases List.eq_nil_or_concat after with rfl | ⟨after, e, rfl⟩
    · obtain ⟨rfl, hd⟩ := List.append_inj' hsplit rfl
      cases hd
      exact hc
    · have hsplit' : done ++ [c] = (before ++ d :: after) ++ [e] := by
        rw [hsplit, List.concat_eq_append, List.append_assoc, List.cons_append]
      exact h before d after (List.append_inj' hsplit' rfl).1

/-! ## Calls that declare role names -/

/-- The calls of the second list declare none of the terms of the first that are not names of
types. -/
def Apart (known : String → Prop) (calls others : List Call) : Prop :=
  ∀ c ∈ calls, ¬known c.term → ∀ d ∈ others, d.declares ≠ some c.term

/-- A call may use its own term as a name only if there is a type of this name or one may be
added. -/
def Grounded (known : String → Prop) (forwards : List String) (calls : List Call) : Prop :=
  ∀ c ∈ calls, c.player = c.term → known c.term ∨ c.term ∈ forwards

section Apart

variable {others others' : List Call}

/-- What a call of a clause names depends on the calls before it in the clause only, as far as calls
of other clauses are apart. -/
lemma Names.of_apart {calls : List Call} (hcalls : calls = before ++ c :: after)
    (hground : Grounded known forwards others) (hground' : Grounded known forwards others')
    (hothers : Apart known others calls) (hothers' : Apart known others' calls)
    (hcall : Apart known calls others) (hcall' : Apart known calls others')
    (h : Names known forwards (others ++ before) c.term c.player) :
    Names known forwards (others' ++ before) c.term c.player := by
  have hmem : c ∈ calls := by simp [hcalls]
  by_cases hknown : known c.term
  · have hc := h.unique (.known (.inl hknown))
    rw [hc]
    exact .known (.inl hknown)
  -- calls of other clauses do not declare the term
  have hdeclared : declared? (others ++ before) c.term = declared? before c.term := by
    rw [declared?_append, declared?_eq_none_iff.2 (hcall c hmem hknown), Option.or_none]
  have hdeclared' : declared? (others' ++ before) c.term = declared? before c.term := by
    rw [declared?_append, declared?_eq_none_iff.2 (hcall' c hmem hknown), Option.or_none]
  -- if one of them has added a type for it, no call of this clause declares it
  have hadded : ∀ {es}, Apart known es calls → Grounded known forwards es →
      (∃ e ∈ es, e.term = c.term ∧ e.player = c.term) →
        declared? before c.term = none ∧ c.term ∈ forwards := by
    rintro es hes hground ⟨e, he, hterm, hplayer⟩
    have hunknown : ¬known e.term := hterm ▸ hknown
    refine ⟨declared?_eq_none_iff.2 fun d hd => ?_, ?_⟩
    · exact hterm ▸ hes e he hunknown d (by simp [hcalls, hd])
    · exact hterm ▸ (hground e he (hplayer.trans hterm.symm)).resolve_left hunknown
  have hisKnown : ∀ es, IsKnown known (es ++ before) c.term ↔
      (∃ e ∈ es, e.term = c.term ∧ e.player = c.term) ∨
        ∃ e ∈ before, e.term = c.term ∧ e.player = c.term := by
    intro es
    rw [isKnown_append, IsKnown]
    simp only [hknown, false_or]
  by_cases hbefore : ∃ e ∈ before, e.term = c.term ∧ e.player = c.term
  · have hc := h.unique (.known ((hisKnown others).2 (.inr hbefore)))
    rw [hc]
    exact .known ((hisKnown others').2 (.inr hbefore))
  have hnames : ∀ {es}, declared? (es ++ before) c.term = declared? before c.term →
      declared? before c.term = none → c.term ∈ forwards →
        Names known forwards (es ++ before) c.term c.term := by
    intro es hes hnone hforward
    by_cases hes' : IsKnown known (es ++ before) c.term
    · exact .known hes'
    · exact .forward hes' (hes.trans hnone) hforward
  by_cases hothers₁ : ∃ e ∈ others, e.term = c.term ∧ e.player = c.term
  · obtain ⟨hnone, hforward⟩ := hadded hothers hground hothers₁
    have hc := h.unique (.known ((hisKnown others).2 (.inl hothers₁)))
    rw [hc]
    exact hnames hdeclared' hnone hforward
  have hunknown : ¬IsKnown known (others ++ before) c.term := by
    rw [hisKnown]
    exact not_or.2 ⟨hothers₁, hbefore⟩
  cases hlast : declared? before c.term with
  | some name =>
    have hc := h.unique (.roleName hunknown (hdeclared.trans hlast))
    rw [hc]
    refine .roleName ?_ (hdeclared'.trans hlast)
    rw [hisKnown]
    refine not_or.2 ⟨fun hex => ?_, hbefore⟩
    rw [(hadded hothers' hground' hex).1] at hlast
    cases hlast
  | none =>
    have hforward := h.mem_forwards hunknown (hdeclared.trans hlast)
    have hc := h.unique (.forward hunknown (hdeclared.trans hlast) hforward)
    rw [hc]
    exact hnames hdeclared' hlast hforward

end Apart

/-! ## Calls that declare none -/

section Plain

variable {plain : List Call}

/-- Calls that declare nothing change no role name. -/
lemma declared?_append_plain (hplain : ∀ d ∈ plain, d.declares = none) :
    declared? (done ++ plain) term = declared? done term := by
  have hnone : declared? plain term = none :=
    declared?_eq_none_iff.2 fun d hd heq => by cases (hplain d hd).symm.trans heq
  rw [declared?_append, hnone, Option.none_or]

/-- Calls that declare no role names do not matter, if they name what they would name without the
others. -/
lemma names_append_plain (hplain : ∀ d ∈ plain, d.declares = none)
    (hnames : ∀ d ∈ plain, Names known forwards done d.term d.player) :
    Names known forwards (done ++ plain) term name ↔ Names known forwards done term name := by
  have hadded : (∃ d ∈ plain, d.term = term ∧ d.player = term) →
    Names known forwards done term term := by
    rintro ⟨d, hd, hterm, hplayer⟩
    have h := hnames d hd
    rwa [hterm, hplayer] at h
  have hdeclared : declared? (done ++ plain) term = declared? done term :=
    declared?_append_plain hplain
  constructor
  · intro h
    cases h with
    | known hk => exact (isKnown_append.1 hk).elim .known hadded
    | roleName hk hname =>
      exact .roleName (fun hk' => hk (isKnown_append.2 (.inl hk'))) (hdeclared.symm.trans hname)
    | forward hk hnone hterm =>
      exact .forward (fun hk' => hk (isKnown_append.2 (.inl hk')))
        (hdeclared.symm.trans hnone) hterm
  · intro h
    by_cases hplain' : ∃ d ∈ plain, d.term = term ∧ d.player = term
    · rw [h.unique (hadded hplain')]
      exact .known (isKnown_append.2 (.inr hplain'))
    · have hk : ¬IsKnown known done term → ¬IsKnown known (done ++ plain) term :=
        fun hk hk' => (isKnown_append.1 hk').elim hk hplain'
      cases h with
      | known hk' => exact .known (isKnown_append.2 (.inl hk'))
      | roleName hk' hname => exact .roleName (hk hk') (hdeclared.trans hname)
      | forward hk' hnone hterm => exact .forward (hk hk') (hdeclared.trans hnone) hterm

/-- Each of several calls that declare no role names names what it would name without the others. -/
lemma follows_append_plain (hplain : ∀ d ∈ plain, d.declares = none) :
    Follows known forwards (done ++ plain) ↔
      Follows known forwards done ∧ ∀ d ∈ plain, Names known forwards done d.term d.player := by
  induction plain using List.reverseRecOn with
  | nil => simp
  | append_singleton plain c ih =>
    have hplain' : ∀ d ∈ plain, d.declares = none :=
      fun d hd => hplain d (List.mem_append_left _ hd)
    rw [← List.append_assoc, follows_append, ih hplain']
    constructor
    · rintro ⟨⟨hdone, hnames⟩, hc⟩
      refine ⟨hdone, fun d hd => ?_⟩
      rcases List.mem_append.1 hd with hd | hd
      · exact hnames d hd
      · obtain rfl := List.mem_singleton.1 hd
        exact (names_append_plain hplain' hnames).1 hc
    · rintro ⟨hdone, hnames⟩
      have hnames' : ∀ d ∈ plain, Names known forwards done d.term d.player :=
        fun d hd => hnames d (List.mem_append_left _ hd)
      exact ⟨⟨hdone, hnames'⟩, (names_append_plain hplain' hnames').2 (hnames c (by simp))⟩

/-- It does not matter in which order role names have been declared, if a term that is used as one
is declared for one player only. -/
lemma Names.of_perm (hperm : done.Perm more) (h : Names known forwards done term name)
    (honce : ¬IsKnown known done term → ∀ d ∈ done, d.declares = some term → d.player = name) :
    Names known forwards more term name := by
  have hknown : IsKnown known more term ↔ IsKnown known done term := by
    simp only [IsKnown, hperm.mem_iff]
  cases h with
  | known hk => exact .known (hknown.2 hk)
  | roleName hk hname =>
    cases hlast : declared? more term with
    | none =>
      obtain ⟨d, hd, hdeclares, -⟩ := exists_of_declared? hname
      exact absurd hdeclares (declared?_eq_none_iff.1 hlast d (hperm.mem_iff.1 hd))
    | some other =>
      obtain ⟨d, hd, hdeclares, rfl⟩ := exists_of_declared? hlast
      rw [← honce hk d (hperm.mem_iff.2 hd) hdeclares]
      exact .roleName (mt hknown.1 hk) hlast
  | forward hk hnone hterm =>
    refine .forward (mt hknown.1 hk) ?_ hterm
    exact declared?_eq_none_iff.2 fun d hd => declared?_eq_none_iff.1 hnone d (hperm.mem_iff.2 hd)

end Plain

/-! ## Another order -/

/-- Calls of one clause are apart from those of another one, both ways. -/
def BothApart (known : String → Prop) (block other : List Call) : Prop :=
  Apart known block other ∧ Apart known other block

/-- Being apart goes both ways. -/
lemma BothApart.symm {block other : List Call} (h : BothApart known block other) :
    BothApart known other block :=
  ⟨h.2, h.1⟩

section Blocks

variable {blocks blocks' : List (List Call)} {block : List Call}

/-- Calls that are apart from those of each clause are apart from those of all of them. -/
lemma bothApart_flatten (h : ∀ other ∈ blocks, BothApart known other block) :
    BothApart known blocks.flatten block := by
  constructor
  · intro c hc hunknown d hd
    obtain ⟨other, hother, hc⟩ := List.mem_flatten.1 hc
    exact (h other hother).1 c hc hunknown d hd
  · intro c hc hunknown d hd
    obtain ⟨other, hother, hd⟩ := List.mem_flatten.1 hd
    exact (h other hother).2 c hc hunknown d hd

/-- Calls follow each other with a block of further ones if each of these names its player after
those before it. -/
lemma follows_append_block : Follows known forwards (done ++ block) ↔ Follows known forwards done ∧
    ∀ before c after, block = before ++ c :: after →
      Names known forwards (done ++ before) c.term c.player := by
  induction block using List.reverseRecOn with
  | nil => simp
  | append_singleton block e ih =>
    rw [← List.append_assoc, follows_append, ih]
    constructor
    · rintro ⟨⟨hdone, hblock⟩, he⟩
      refine ⟨hdone, fun before c after hsplit => ?_⟩
      rcases List.eq_nil_or_concat after with rfl | ⟨after, d, rfl⟩
      · obtain ⟨rfl, hd⟩ := List.append_inj' hsplit rfl
        cases hd
        exact he
      · have hsplit' : block ++ [e] = (before ++ c :: after) ++ [d] := by
          rw [hsplit, List.concat_eq_append, List.append_assoc, List.cons_append]
        exact hblock before c after (List.append_inj' hsplit' rfl).1
    · rintro ⟨hdone, hblock⟩
      refine ⟨⟨hdone, fun before c after hsplit => hblock before c (after ++ [e]) ?_⟩,
        hblock block e [] rfl⟩
      rw [hsplit, List.append_assoc, List.cons_append]

variable (hground : Grounded known forwards blocks.flatten)
  (hapart : blocks.Pairwise (BothApart known)) (hperm : blocks.Perm blocks')

include hground hapart hperm

/-- Whole clauses may be taken in another order if their calls are apart. -/
lemma Follows.of_perm_blocks (h : Follows known forwards blocks.flatten) :
    Follows known forwards blocks'.flatten := by
  have hground' : Grounded known forwards blocks'.flatten :=
    fun c hc => hground c (hperm.flatten.mem_iff.2 hc)
  have hapart' : blocks'.Pairwise (BothApart known) :=
    (hperm.pairwise_iff BothApart.symm).1 hapart
  suffices hfront : ∀ front back, blocks' = front ++ back → Follows known forwards front.flatten by
    exact hfront blocks' [] (List.append_nil _).symm
  intro front
  induction front using List.reverseRecOn with
  | nil =>
    rintro - - before c after hsplit
    exact absurd hsplit.symm (by simp)
  | append_singleton front block ih =>
    intro back hblocks'
    rw [List.append_assoc, List.singleton_append] at hblocks'
    rw [List.flatten_append, List.flatten_singleton]
    refine follows_append_block.2 ⟨ih _ hblocks', fun before c after hblock => ?_⟩
    -- the clause stands somewhere among the others in the first order
    obtain ⟨others, rest, rfl⟩ :=
      List.append_of_mem (hperm.mem_iff.2 (by simp [hblocks'] : block ∈ blocks'))
    have hnames : Names known forwards (others.flatten ++ before) c.term c.player := by
      refine h (others.flatten ++ before) c (after ++ rest.flatten) ?_
      simp [hblock]
    have hothers : BothApart known others.flatten block :=
      bothApart_flatten fun other hother =>
        (List.pairwise_append.1 hapart).2.2 other hother block (by simp)
    have hfront : BothApart known front.flatten block := by
      rw [hblocks'] at hapart'
      exact bothApart_flatten fun other hother =>
        (List.pairwise_append.1 hapart').2.2 other hother block (by simp)
    refine hnames.of_apart hblock (fun d hd => hground d ?_)
      (fun d hd => hground' d ?_) hothers.1 hfront.1
      hothers.2 hfront.2
    · simp [hd]
    · simp [hblocks', hd]

/-- **Calls in another order.** Let calls be found one after the other: first those that declare
role names, clause by clause, then the others. The same calls are found if the clauses are taken in
another order, if the calls that declare role names are apart, and terms that are used as role names
are declared for one player. -/
theorem Follows.of_perm {plain plain' : List Call} (hplain : ∀ d ∈ plain, d.declares = none)
    (hplainPerm : plain.Perm plain')
    (honce : ∀ c ∈ plain, ¬IsKnown known blocks.flatten c.term → ∀ d ∈ blocks.flatten,
      d.declares = some c.term → d.player = c.player)
    (h : Follows known forwards (blocks.flatten ++ plain)) :
    Follows known forwards (blocks'.flatten ++ plain') := by
  have hplain' : ∀ d ∈ plain', d.declares = none := fun d hd => hplain d (hplainPerm.mem_iff.2 hd)
  obtain ⟨hblocks, hnames⟩ := (follows_append_plain hplain).1 h
  refine (follows_append_plain hplain').2 ⟨hblocks.of_perm_blocks hground hapart hperm,
    fun c hc => ?_⟩
  have hmem := hplainPerm.mem_iff.2 hc
  exact (hnames c hmem).of_perm hperm.flatten (honce c hmem)

end Blocks

end Call

open Attempt Compile Call

/-- There is an object type of that name. -/
def Vocabulary.Knows (v : Vocabulary) (name : String) : Prop :=
  (v.findObjectType? name).isSome

instance (v : Vocabulary) (name : String) : Decidable (v.Knows name) :=
  inferInstanceAs (Decidable (_ = true))

namespace Compile

/-- Finds the player of a mention, which declares a role name or not. -/
def identify (declared : Option String) (m : MentionId) : Compile Unit :=
  match declared with
  | some roleName => identifyDeclaring m roleName
  | none => identifyPlain m

variable {x y z : Context} {term : String} {player : ObjectTypeId × Bool}

/-- What finding the player of a term consists of. -/
lemma perform_resolvePlayer_eq_ok : (resolvePlayer term).perform x = (.ok player, z) ↔
    x.vocabulary.findObjectType? term = some player.1 ∧ player.2 = false ∧ z = x ∨
    x.vocabulary.findObjectType? term = none ∧ x.roleNamePlayers.lookup term = some player.1 ∧
      player.2 = true ∧ z = x ∨
    x.vocabulary.findObjectType? term = none ∧ x.roleNamePlayers.lookup term = none ∧
      term ∈ x.forwardTerms ∧ player = (⟨x.vocabulary.objectTypes.size⟩, false) ∧
      z = x.onto (x.vocabulary.pushObjectType term .entity true) := by
  obtain ⟨t, byRoleName⟩ := player
  unfold resolvePlayer
  rw [perform_get_bind]
  cases hfind : x.vocabulary.findObjectType? term with
  | some u =>
    dsimp only
    rw [perform_pure]
    constructor
    · rintro ⟨⟩
      exact .inl ⟨rfl, rfl, rfl⟩
    · rintro (⟨⟨⟩, rfl, rfl⟩ | ⟨⟨⟩, -⟩ | ⟨⟨⟩, -⟩)
      rfl
  | none =>
    dsimp only
    cases hlookup : x.roleNamePlayers.lookup term with
    | some u =>
      dsimp only
      rw [perform_pure]
      constructor
      · rintro ⟨⟩
        exact .inr (.inl ⟨rfl, rfl, rfl, rfl⟩)
      · rintro (⟨⟨⟩, -⟩ | ⟨-, ⟨⟩, rfl, rfl⟩ | ⟨-, ⟨⟩, -⟩)
        rfl
    | none =>
      dsimp only
      by_cases hterm : x.forwardTerms.contains term = true
      · rw [if_pos hterm]
        have hedit : (edit (Vocabulary.addForwardEntityType term)).perform x =
            (.ok ⟨x.vocabulary.objectTypes.size⟩,
              x.onto (x.vocabulary.pushObjectType term .entity true)) := by
          rw [edit, perform_within, perform_addForwardEntityType hfind]
          rfl
        rw [perform_bind, hedit]
        constructor
        · rintro ⟨⟩
          exact .inr (.inr ⟨rfl, rfl, List.contains_iff_mem.1 hterm, rfl, rfl⟩)
        · rintro (⟨⟨⟩, -⟩ | ⟨-, ⟨⟩, -⟩ | ⟨-, -, -, ⟨⟩, rfl⟩)
          rfl
      · rw [if_neg hterm]
        constructor
        · rintro ⟨⟩
        · rintro (⟨⟨⟩, -⟩ | ⟨-, ⟨⟩, -⟩ | ⟨-, -, hmem, -⟩)
          exact absurd (List.contains_iff_mem.2 hmem) hterm

end Compile

namespace Context

variable {v : Vocabulary} {forwards : List String} {x y z : Context} {done : List Call}
  {term name : String} {player : ObjectTypeId × Bool}

/-- What a mention whose player has been found says. -/
def call (x : Context) (m : MentionId) : Call where
  term := (x.mention m).term
  declares := (x.mention m).declaredName?
  player := ((x.mention m).player.map x.vocabulary.nameOf).getD ""

/-- A context in which the players of some mentions have been found, of which these are the calls.
It began with a vocabulary and without role names. -/
structure Recalls (v : Vocabulary) (forwards : List String) (done : List Call)
    (x : Context) : Prop where
  valid : x.Valid
  forwardTerms_eq : x.forwardTerms = forwards
  isKnown_iff : ∀ term, x.vocabulary.Knows term ↔ IsKnown v.Knows done term
  lookup_eq : ∀ term, (x.roleNamePlayers.lookup term).map x.vocabulary.nameOf = declared? done term
  grounded : Grounded v.Knows forwards done

namespace Recalls

variable (h : x.Recalls v forwards done)

include h

/-- The player that is found for a term is what the term names. -/
lemma names (hp : (resolvePlayer term).perform x = (.ok player, z)) :
    Call.Names v.Knows forwards done term (z.vocabulary.nameOf player.1) ∧
      (player.2 = true ↔ z.vocabulary.nameOf player.1 ≠ term) ∧
      x.Extends z ∧ player.1 ∈ z.vocabulary.objectTypeIds := by
  obtain ⟨hextends, hmem⟩ := (leads_resolvePlayer h.valid term).of_perform hp
  have hiff := h.isKnown_iff term
  have hw := h.valid.consistent.toWellFormed
  rcases perform_resolvePlayer_eq_ok.1 hp with ⟨hfind, hfalse, rfl⟩ | ⟨hfind, hlookup, htrue, rfl⟩ |
    ⟨hfind, hlookup, hterm, rfl, rfl⟩
  · have hname := ((hw.findObjectType?_iff term player.1).1 hfind).2
    refine ⟨?_, by simp [hfalse, hname], hextends, hmem⟩
    rw [hname]
    exact .known (hiff.1 (Option.isSome_iff_exists.2 ⟨_, hfind⟩))
  · have hunknown : ¬IsKnown v.Knows done term := by
      rw [← hiff, Vocabulary.Knows, hfind]
      exact Bool.false_ne_true
    have hne : z.vocabulary.nameOf player.1 ≠ term := fun hname => by
      have hfind' := (hw.findObjectType?_iff term player.1).2 ⟨hmem, hname⟩
      cases hfind.symm.trans hfind'
    refine ⟨.roleName hunknown ?_, by simp [htrue, hne], hextends, hmem⟩
    rw [← h.lookup_eq, hlookup]
    rfl
  · have hunknown : ¬IsKnown v.Knows done term := by
      rw [← hiff, Vocabulary.Knows, hfind]
      exact Bool.false_ne_true
    have hname :
      (x.vocabulary.pushObjectType term .entity true).nameOf ⟨x.vocabulary.objectTypes.size⟩ =
        term := by
      rw [Vocabulary.nameOf, Vocabulary.objectType_pushObjectType, if_pos rfl]
    refine ⟨?_, ?_, hextends, hmem⟩
    · refine hname.symm ▸ .forward hunknown ?_ (h.forwardTerms_eq ▸ hterm)
      rw [← h.lookup_eq, hlookup]
      rfl
    · exact iff_of_false Bool.false_ne_true fun hne => hne hname

/-- For a term that names someone a player is found. -/
lemma exists_player (hnames : Call.Names v.Knows forwards done term name) :
    ∃ player z, (resolvePlayer term).perform x = (.ok player, z) := by
  have hiff := h.isKnown_iff term
  cases hfind : x.vocabulary.findObjectType? term with
  | some t => exact ⟨(t, false), x, perform_resolvePlayer_eq_ok.2 (.inl ⟨hfind, rfl, rfl⟩)⟩
  | none =>
    cases hlookup : x.roleNamePlayers.lookup term with
    | some t =>
      exact ⟨(t, true), x, perform_resolvePlayer_eq_ok.2 (.inr (.inl ⟨hfind, hlookup, rfl, rfl⟩))⟩
    | none =>
      have hunknown : ¬IsKnown v.Knows done term := by
        rw [← hiff, Vocabulary.Knows, hfind]
        exact Bool.false_ne_true
      have hnone : declared? done term = none := by
        rw [← h.lookup_eq, hlookup]
        rfl
      have hterm := hnames.mem_forwards hunknown hnone
      exact ⟨_, _, perform_resolvePlayer_eq_ok.2
        (.inr (.inr ⟨hfind, hlookup, h.forwardTerms_eq ▸ hterm, rfl, rfl⟩))⟩

/-- What is a name once the player of a term has been found. -/
lemma isKnown_found (hp : (resolvePlayer term).perform x = (.ok player, z)) {c : Call}
    (hterm : c.term = term)
    (hplayer : c.player = z.vocabulary.nameOf player.1) (other : String) :
    z.vocabulary.Knows other ↔ IsKnown v.Knows (done ++ [c]) other := by
  have hadded : z.vocabulary.Knows other ↔
      x.vocabulary.Knows other ∨ z.vocabulary.nameOf player.1 = term ∧ other = term := by
    obtain ⟨-, hbyName, -, -⟩ := h.names hp
    rcases perform_resolvePlayer_eq_ok.1 hp with ⟨hfind, -, rfl⟩ | ⟨-, -, htrue, rfl⟩ |
      ⟨-, -, -, rfl, rfl⟩
    · refine ⟨.inl, ?_⟩
      rintro (hknown | ⟨-, rfl⟩)
      · exact hknown
      · exact Option.isSome_iff_exists.2 ⟨_, hfind⟩
    · exact ⟨.inl, fun hor => hor.resolve_right fun hboth => hbyName.1 htrue hboth.1⟩
    · have hname : (x.vocabulary.pushObjectType term .entity true).nameOf
          ⟨x.vocabulary.objectTypes.size⟩ = term := by
        rw [Vocabulary.nameOf, Vocabulary.objectType_pushObjectType, if_pos rfl]
      change (x.vocabulary.pushObjectType term .entity true).Knows other ↔
        _ ∨ (x.vocabulary.pushObjectType term .entity true).nameOf _ = term ∧ _
      rw [hname, Vocabulary.Knows, Vocabulary.findObjectType?_pushObjectType, Vocabulary.Knows]
      by_cases hother : other = term
      · simp [hother]
      · simp [hother]
  rw [hadded, h.isKnown_iff, isKnown_append]
  simp only [List.mem_singleton, exists_eq_left, hterm, hplayer]
  refine or_congr_right ⟨?_, ?_⟩
  · rintro ⟨hname, rfl⟩
    exact ⟨rfl, hname⟩
  · rintro ⟨rfl, hname⟩
    exact ⟨hname, rfl⟩

/-- Whom role names stand for once the player of a term has been found. -/
lemma lookup_found (hp : (resolvePlayer term).perform x = (.ok player, z)) (other : String) :
    (z.roleNamePlayers.lookup other).map z.vocabulary.nameOf = declared? done other := by
  obtain ⟨-, -, hextends, -⟩ := h.names hp
  have hsame : z.roleNamePlayers = x.roleNamePlayers := by
    rcases perform_resolvePlayer_eq_ok.1 hp with ⟨-, -, rfl⟩ | ⟨-, -, -, rfl⟩
      | ⟨-, -, -, -, rfl⟩ <;> rfl
  rw [hsame, ← h.lookup_eq]
  cases hlookup : x.roleNamePlayers.lookup other with
  | none => rfl
  | some t =>
    obtain ⟨before, after, heq, -⟩ := List.lookup_eq_some_iff.1 hlookup
    have hmem := h.valid.roleName_mem (other, t) (heq ▸ by simp)
    exact congrArg some (hextends.grows.nameOf_eq hmem)

/-- A term that comes to be a name was one, or may be used before its declaration. -/
lemma grounded_found (hp : (resolvePlayer term).perform x = (.ok player, z))
    (hname : z.vocabulary.nameOf player.1 = term) : v.Knows term ∨ term ∈ forwards := by
  obtain ⟨-, hbyName, -, -⟩ := h.names hp
  rcases perform_resolvePlayer_eq_ok.1 hp with ⟨hfind, -, rfl⟩ | ⟨-, -, htrue, rfl⟩
    | ⟨-, -, hterm, -, -⟩
  · rcases (h.isKnown_iff term).1 (Option.isSome_iff_exists.2 ⟨_, hfind⟩) with
      hknown | ⟨c, hc, rfl, hplayer⟩
    · exact .inl hknown
    · exact h.grounded c hc hplayer
  · exact absurd hname (hbyName.1 htrue)
  · exact .inr (h.forwardTerms_eq ▸ hterm)

end Recalls

/-- The player of a mention has been found. Nothing else has changed, but for a type that may have
been added. -/
structure Found (x : Context) (m : MentionId) (y : Context) : Prop where
  hasAdjectives_eq : (x.mention m).declaredName?.isSome → (x.mention m).hasAdjectives = false
  grows : x.vocabulary.Grows y.vocabulary
  size_eq : y.mentions.size = x.mentions.size
  mention_eq_of_ne : ∀ n ≠ m, y.mention n = x.mention n
  mention_eq : ∃ t ∈ y.vocabulary.objectTypeIds, y.mention m = { x.mention m with
    player := some t
    playerByRoleName :=
      if (x.mention m).declaredName?.isSome then (x.mention m).playerByRoleName
      else y.vocabulary.nameOf t ≠ (x.mention m).term }

namespace Found

variable {m : MentionId} (h : x.Found m y)

include h

/-- Finding players changes neither terms nor declared role names. -/
lemma call_eq : (y.call m).term = (x.mention m).term ∧
    (y.call m).declares = (x.mention m).declaredName? := by
  obtain ⟨t, -, hmention⟩ := h.mention_eq
  rw [call, hmention]
  exact ⟨rfl, rfl⟩

end Found

/-- Finding a player extends a valid context. -/
lemma extends_of_identify (hx : x.Valid) {m : MentionId} {declared : Option String} {u : Unit}
    (hp : (Compile.identify declared m).perform x = (.ok u, y)) : x.Extends y := by
  cases declared with
  | some roleName => exact ((leads_identifyDeclaring hx m roleName).of_perform hp).1
  | none => exact ((leads_identifyPlain hx m).of_perform hp).1

/-- What finding the player of a mention consists of, whether it declares a role name or not. -/
lemma exists_of_identify {m : MentionId} (hm : m.index < x.mentions.size) {u : Unit}
    (hp : (Compile.identify (x.mention m).declaredName? m).perform x = (.ok u, y)) :
    ∃ player z, (resolvePlayer (x.mention m).term).perform x = (.ok player, z) ∧
      ((x.mention m).declaredName?.isSome → (x.mention m).hasAdjectives = false) ∧
      y.vocabulary = z.vocabulary ∧ y.forwardTerms = z.forwardTerms ∧
      y.roleNamePlayers = ((x.mention m).declaredName?.map fun roleName =>
        (roleName, player.1)).toList ++ z.roleNamePlayers ∧
      y.mentions.size = x.mentions.size ∧ (∀ n ≠ m, y.mention n = x.mention n) ∧
      y.mention m = { x.mention m with
        player := some player.1
        playerByRoleName := if (x.mention m).declaredName?.isSome
          then (x.mention m).playerByRoleName
          else player.2 } := by
  have hof : ∀ {z : Context} {names : List (String × ObjectTypeId)} (change : Mention → Mention)
      {player : ObjectTypeId × Bool},
      (resolvePlayer (x.mention m).term).perform x = (.ok player, z) →
      ({ z with roleNamePlayers := names }.modifyMention m change).mentions.size = x.mentions.size ∧
      (∀ n ≠ m, ({ z with roleNamePlayers := names }.modifyMention m change).mention n =
        x.mention n) ∧
      ({ z with roleNamePlayers := names }.modifyMention m change).mention m =
        change (x.mention m) := by
    intro z names change player hplayer
    have hmentions : z.mentions = x.mentions := by
      rcases perform_resolvePlayer_eq_ok.1 hplayer with
        ⟨-, -, rfl⟩ | ⟨-, -, -, rfl⟩ | ⟨-, -, -, -, rfl⟩ <;>
        rfl
    have hmention : ∀ n,
      ({ z with roleNamePlayers := names } : Context).mention n = x.mention n := by
      intro n
      rw [mention, hmentions, mention]
    refine ⟨?_, fun n hn => ?_, ?_⟩
    · rw [modifyMention, Array.size_modify, hmentions]
    · rw [mention_modifyMention, if_neg fun hn' => hn hn'.1, hmention]
    · rw [mention_modifyMention, if_pos ⟨rfl, hmentions ▸ hm⟩, hmention]
  cases hdeclared : (x.mention m).declaredName? with
  | some roleName =>
    rw [hdeclared] at hp
    obtain ⟨hadjectives, player, z, hplayer, rfl⟩ := perform_identifyDeclaring_eq_ok.1 hp
    obtain ⟨hsize, hothers, hmention⟩ := hof _ hplayer
    exact ⟨player, z, hplayer, fun _ => hadjectives, rfl, rfl, rfl, hsize, hothers, hmention⟩
  | none =>
    rw [hdeclared] at hp
    obtain ⟨player, z, hplayer, rfl⟩ := perform_identifyPlain_eq_ok.1 hp
    obtain ⟨hsize, hothers, hmention⟩ := @hof z z.roleNamePlayers _ player hplayer
    exact ⟨player, z, hplayer, fun h => absurd h Bool.false_ne_true, rfl, rfl, rfl, hsize, hothers,
      hmention⟩

namespace Recalls

variable (h : x.Recalls v forwards done)

include h

/-- Finding the player of a mention adds its call. -/
theorem identify {m : MentionId} (hm : m.index < x.mentions.size) {u : Unit}
    (hp : (Compile.identify (x.mention m).declaredName? m).perform x = (.ok u, y)) :
    y.Recalls v forwards (done ++ [y.call m]) ∧ x.Found m y ∧
      Call.Names v.Knows forwards done (y.call m).term (y.call m).player := by
  obtain ⟨player, z, hplayer, hadjectives, hvocabulary, hforwards, hroleNames, hsize, hothers,
    hmention⟩ :=
    exists_of_identify hm hp
  have hextends := extends_of_identify h.valid hp
  obtain ⟨hnames, hbyName, hz, hmem⟩ := h.names hplayer
  have hcall : y.call m =
      ⟨(x.mention m).term, (x.mention m).declaredName?, z.vocabulary.nameOf player.1⟩ := by
    rw [call, hmention, hvocabulary]
    rfl
  have hnames' : Call.Names v.Knows forwards done (y.call m).term (y.call m).player := by
    rw [hcall]
    exact hnames
  refine ⟨⟨hextends.valid, ?_, fun other => ?_, fun other => ?_, ?_⟩,
    ⟨hadjectives, hextends.grows, hsize, hothers, player.1, hvocabulary ▸ hmem, ?_⟩, hnames'⟩
  · rw [hforwards, ← h.forwardTerms_eq]
    rcases perform_resolvePlayer_eq_ok.1 hplayer with
      ⟨-, -, rfl⟩ | ⟨-, -, -, rfl⟩ | ⟨-, -, -, -, rfl⟩ <;> rfl
  · rw [hvocabulary, h.isKnown_found hplayer (c := y.call m) (by rw [hcall]) (by rw [hcall])]
  · have hlookup := h.lookup_found hplayer other
    rw [hvocabulary, hroleNames, declared?_concat, hcall]
    cases hdeclared : (x.mention m).declaredName? with
    | none => exact hlookup
    | some roleName =>
      rw [Option.map_some, Option.toList_some, List.singleton_append, lookup_cons_eq_ite]
      by_cases hother : other = roleName
      · simp [hother]
      · simpa [hother, Ne.symm hother] using hlookup
  · intro c hc hterm
    rcases List.mem_append.1 hc with hc | hc
    · exact h.grounded c hc hterm
    obtain rfl := List.mem_singleton.1 hc
    rw [hcall] at hterm ⊢
    exact h.grounded_found hplayer hterm
  · rw [hmention, hvocabulary]
    split
    · rfl
    · have hiff : player.2 = decide (z.vocabulary.nameOf player.1 ≠ (x.mention m).term) := by
        rw [Bool.eq_iff_iff, hbyName, decide_eq_true_iff]
      rw [hiff]

/-- A player is found for a mention whose term names someone, unless it declares a role name and has
adjectives. -/
lemma exists_identify {m : MentionId}
    (hnames : Call.Names v.Knows forwards done (x.mention m).term name)
    (hadjectives : (x.mention m).declaredName?.isSome → (x.mention m).hasAdjectives = false) :
    ∃ y, (Compile.identify (x.mention m).declaredName? m).perform x = (.ok ⟨⟩, y) := by
  obtain ⟨player, z, hplayer⟩ := h.exists_player hnames
  cases hdeclared : (x.mention m).declaredName? with
  | some roleName =>
    rw [hdeclared] at hadjectives
    exact ⟨_, perform_identifyDeclaring_eq_ok.2 ⟨hadjectives rfl, player, z, hplayer, rfl⟩⟩
  | none => exact ⟨_, perform_identifyPlain_eq_ok.2 ⟨player, z, hplayer, rfl⟩⟩

end Recalls

/-! ## Finding all players -/

/-- The players of mentions have been found. Nothing else has changed, but for types that may have
been added. -/
structure FoundEach (x : Context) (ms : List MentionId) (y : Context) : Prop where
  hasAdjectives_eq : ∀ m ∈ ms, (x.mention m).declaredName?.isSome →
    (x.mention m).hasAdjectives = false
  grows : x.vocabulary.Grows y.vocabulary
  size_eq : y.mentions.size = x.mentions.size
  mention_eq_of_not_mem : ∀ n ∉ ms, y.mention n = x.mention n
  mention_eq : ∀ m ∈ ms, ∃ t ∈ y.vocabulary.objectTypeIds, y.mention m = { x.mention m with
    player := some t
    playerByRoleName :=
      if (x.mention m).declaredName?.isSome then (x.mention m).playerByRoleName
      else y.vocabulary.nameOf t ≠ (x.mention m).term }

/-- The players of no mentions have been found. -/
lemma foundEach_nil (x : Context) : x.FoundEach [] x where
  hasAdjectives_eq _ hm := absurd hm List.not_mem_nil
  grows := .refl _
  size_eq := rfl
  mention_eq_of_not_mem _ _ := rfl
  mention_eq _ hm := absurd hm List.not_mem_nil

/-- Finding one player and then others is finding all of them. -/
lemma Found.cons {m : MentionId} {ms : List MentionId} (h : x.Found m y) (h' : y.FoundEach ms z)
    (hm : m ∉ ms) : x.FoundEach (m :: ms) z where
  hasAdjectives_eq n hn := by
    by_cases hnm : n = m
    · exact hnm ▸ h.hasAdjectives_eq
    · rw [← h.mention_eq_of_ne n hnm]
      exact h'.hasAdjectives_eq n ((List.mem_cons.1 hn).resolve_left hnm)
  grows := h.grows.trans h'.grows
  size_eq := h'.size_eq.trans h.size_eq
  mention_eq_of_not_mem n hn := by
    rw [h'.mention_eq_of_not_mem n fun hmem => hn (List.mem_cons_of_mem m hmem),
      h.mention_eq_of_ne n fun heq => hn (List.mem_cons.2 (.inl heq))]
  mention_eq n hn := by
    by_cases hnm : n = m
    · obtain ⟨t, ht, hmention⟩ := h.mention_eq
      refine ⟨t, h'.grows.mem_objectTypeIds ht, ?_⟩
      rw [hnm, h'.mention_eq_of_not_mem m hm, hmention, h'.grows.nameOf_eq ht]
    · obtain ⟨t, ht, hmention⟩ := h'.mention_eq n ((List.mem_cons.1 hn).resolve_left hnm)
      refine ⟨t, ht, ?_⟩
      rw [hmention, h.mention_eq_of_ne n hnm]

namespace FoundEach

variable {ms : List MentionId} (h : x.FoundEach ms y)

include h

/-- The call of a mention does not change when the players of others are found. -/
lemma call_eq (hx : x.Valid) {n : MentionId} (hn : n ∉ ms) : y.call n = x.call n := by
  have hmention := h.mention_eq_of_not_mem n hn
  have hplayer : (x.mention n).player.map y.vocabulary.nameOf =
      (x.mention n).player.map x.vocabulary.nameOf := by
    cases ht : (x.mention n).player with
    | none => rfl
    | some t => exact congrArg some (h.grows.nameOf_eq (hx.player_mem n t ht))
  rw [call, hmention, hplayer, call]

/-- Nothing of a mention changes but its player. -/
lemma mention_apply {α : Type} (field : Mention → α)
    (hfield : ∀ (k : Mention) player playerByRoleName,
    field { k with player, playerByRoleName } = field k) (n : MentionId) :
    field (y.mention n) = field (x.mention n) := by
  by_cases hn : n ∈ ms
  · obtain ⟨t, -, hmention⟩ := h.mention_eq n hn
    rw [hmention]
    exact hfield _ _ _
  · rw [h.mention_eq_of_not_mem n hn]

end FoundEach

namespace Recalls

variable {ms : List MentionId} {declared : MentionId → Option String}

/-- Finding the players of mentions adds their calls. -/
theorem identifyEach (h : x.Recalls v forwards done) (hnodup : ms.Nodup)
    (hsize : ∀ m ∈ ms, m.index < x.mentions.size)
    (hdeclared : ∀ m ∈ ms, (x.mention m).declaredName? = declared m) {u : Unit}
    (hp : (ms.forM fun m => Compile.identify (declared m) m).perform x = (.ok u, y)) :
    y.Recalls v forwards (done ++ ms.map y.call) ∧ x.FoundEach ms y ∧
      (Follows v.Knows forwards done → Follows v.Knows forwards (done ++ ms.map y.call)) := by
  induction ms generalizing x done with
  | nil =>
    cases hp
    rw [List.map_nil, List.append_nil]
    exact ⟨h, foundEach_nil _, id⟩
  | cons m ms ih =>
    obtain ⟨hm, hnodup⟩ := List.nodup_cons.1 hnodup
    obtain ⟨⟨⟩, z, hfirst, hrest⟩ := perform_bind_eq_ok.1 hp
    change (Compile.identify (declared m) m).perform x = _ at hfirst
    rw [← hdeclared m List.mem_cons_self] at hfirst
    obtain ⟨hz, hfound, hnames⟩ := h.identify (hsize m List.mem_cons_self) hfirst
    have hne : ∀ n ∈ ms, n ≠ m := fun n hn heq => hm (heq ▸ hn)
    obtain ⟨hy, hlater, hfollows⟩ := ih hz hnodup
      (fun n hn => hfound.size_eq ▸ hsize n (List.mem_cons_of_mem m hn))
      (fun n hn => by
        rw [hfound.mention_eq_of_ne n (hne n hn), hdeclared n (List.mem_cons_of_mem m hn)])
      hrest
    have hcalls : done ++ (m :: ms).map y.call = done ++ [z.call m] ++ ms.map y.call := by
      rw [List.map_cons, hlater.call_eq hz.valid hm, List.append_assoc, List.singleton_append]
    rw [hcalls]
    exact ⟨hy, hfound.cons hlater hm, fun hdone => hfollows (follows_append.2 ⟨hdone, hnames⟩)⟩

/-- Players are found for mentions whose calls follow each other. -/
theorem exists_identifyEach (h : x.Recalls v forwards done) {calls : MentionId → Call}
    (hnodup : ms.Nodup)
    (hsize : ∀ m ∈ ms, m.index < x.mentions.size)
    (hdeclared : ∀ m ∈ ms, (x.mention m).declaredName? = declared m)
    (hcalls : ∀ m ∈ ms, (calls m).term = (x.mention m).term ∧ (calls m).declares = declared m)
    (hadjectives : ∀ m ∈ ms, (x.mention m).declaredName?.isSome →
      (x.mention m).hasAdjectives = false)
    (hfollows : Follows v.Knows forwards (done ++ ms.map calls)) :
    ∃ y, (ms.forM fun m => Compile.identify (declared m) m).perform x = (.ok ⟨⟩, y) ∧
      ∀ m ∈ ms, y.call m = calls m := by
  induction ms generalizing x done with
  | nil => exact ⟨x, rfl, fun m hm => absurd hm List.not_mem_nil⟩
  | cons m ms ih =>
    obtain ⟨hm, hnodup⟩ := List.nodup_cons.1 hnodup
    obtain ⟨hterm, hdeclares⟩ := hcalls m List.mem_cons_self
    have hnames : Call.Names v.Knows forwards done (x.mention m).term (calls m).player :=
      hterm ▸ hfollows done (calls m) (ms.map calls) rfl
    obtain ⟨z, hfirst⟩ := h.exists_identify hnames (hadjectives m List.mem_cons_self)
    obtain ⟨hz, hfound, hnames'⟩ := h.identify (hsize m List.mem_cons_self) hfirst
    obtain ⟨hterm', hdeclares'⟩ := hfound.call_eq
    have hcall : z.call m = calls m := by
      have hplayer := (hterm' ▸ hnames').unique hnames
      cases hz : z.call m
      cases hc : calls m
      simp_all
    have hne : ∀ n ∈ ms, n ≠ m := fun n hn heq => hm (heq ▸ hn)
    have hsame : ∀ n ∈ ms, z.mention n = x.mention n :=
      fun n hn => hfound.mention_eq_of_ne n (hne n hn)
    obtain ⟨y, hrest, hy⟩ := ih hz hnodup
      (fun n hn => hfound.size_eq ▸ hsize n (List.mem_cons_of_mem m hn))
      (fun n hn => by rw [hsame n hn, hdeclared n (List.mem_cons_of_mem m hn)])
      (fun n hn => by rw [hsame n hn]; exact hcalls n (List.mem_cons_of_mem m hn))
      (fun n hn => by rw [hsame n hn]; exact hadjectives n (List.mem_cons_of_mem m hn))
      (by rw [hcall, List.append_assoc]; exact hfollows)
    obtain ⟨-, hlater, -⟩ := hz.identifyEach hnodup
      (fun n hn => hfound.size_eq ▸ hsize n (List.mem_cons_of_mem m hn))
      (fun n hn => by rw [hsame n hn, hdeclared n (List.mem_cons_of_mem m hn)]) hrest
    rw [hdeclared m List.mem_cons_self] at hfirst
    refine ⟨y, perform_bind_eq_ok.2 ⟨⟨⟩, z, hfirst, hrest⟩, fun n hn => ?_⟩
    rcases List.mem_cons.1 hn with rfl | hn
    · rw [hlater.call_eq hz.valid hm, hcall]
    · exact hy n hn

end Recalls

end Context

end FactModel
