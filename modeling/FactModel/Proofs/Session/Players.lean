import FactModel.Proofs.Context.Replay
import FactModel.Proofs.Session.Adjectives
set_option autoImplicit false

/-!
# What mentions are called by

A mention is called by a role name, if it declares one or its term is one, and otherwise by its
term. Mentions that are bound together are called by the same. They could have different players
only if a role name were declared for two terms.

## Main definitions

* `FactModel.Script.NamesFixed` — in some clauses each role name is declared for one term only.
* `FactModel.Mention.title` — what a mention is called by.
* `FactModel.Context.PlayersAgree` — mentions called by the same have the same player.

## Main results

* `FactModel.Compile.playersAgree_of_enter` — in clauses that have been entered they have, if each
  role name is declared for one term only.
-/

namespace FactModel

open Attempt

/-! ## Role names that clauses declare -/

namespace Script

mutual

/-- The role names that are declared under a mention, each with its term. -/
def Mention.declares : Mention → List (String × String)
  | ⟨term, _, _, some (.named name), _, _, nested⟩ => (name, term) :: declaresAll nested
  | ⟨_, _, _, _, _, _, nested⟩ => declaresAll nested

/-- The role names that are declared under an operand. -/
def Operand.declares : Operand → List (String × String)
  | .mention m => m.declares
  | .literal _ => []

/-- The role names that are declared in a phrase, at any depth. -/
def Phrase.declares : Phrase → List (String × String)
  | .word _ => []
  | .mention m => m.declares
  | .comparison _ left right => left.declares ++ right.declares

/-- The role names that are declared in phrases, at any depth. -/
def Phrase.declaresAll : List Phrase → List (String × String)
  | [] => []
  | p :: ps => p.declares ++ Phrase.declaresAll ps

/-- The role names that are declared in a clause, at any depth. -/
def Clause.declares : Clause → List (String × String)
  | ⟨phrases, _, _, _⟩ => Phrase.declaresAll phrases

/-- The role names that are declared in clauses, at any depth, each with its term. -/
def declaresAll : List Clause → List (String × String)
  | [] => []
  | c :: cs => c.declares ++ declaresAll cs

end

/-- Each role name that is declared in the clauses is declared for one term only. -/
def NamesFixed (cs : List Clause) : Prop :=
  ∀ d ∈ declaresAll cs, ∀ e ∈ declaresAll cs, d.1 = e.1 → d.2 = e.2

instance (cs : List Clause) : Decidable (NamesFixed cs) :=
  inferInstanceAs (Decidable (∀ d ∈ declaresAll cs, ∀ e ∈ declaresAll cs, d.1 = e.1 → d.2 = e.2))

end Script

namespace Context

variable {x y : Context} {names : List (String × String)}

/-- The role names that mentions declare are among those given, with their terms. -/
def DeclaresAmong (x : Context) (names : List (String × String)) : Prop :=
  ∀ m, ∀ name ∈ (x.mention m).declaredName?, (name, (x.mention m).term) ∈ names

/-- A new mention declares a role name among those given if its text does. -/
lemma DeclaresAmong.pushMention (h : x.DeclaresAmong names) {m : Mention}
    (hm : ∀ name ∈ m.declaredName?, (name, m.term) ∈ names) :
    (x.pushMention m).DeclaresAmong names := by
  intro n
  rw [mention_pushMention]
  split
  · exact hm
  · exact h n

mutual

/-- Taking in a mention declares the role names of its text. -/
lemma declaresAmong_adoptMention : ∀ (m : Script.Mention) {x : Context}, x.DeclaresAmong names →
    m.declares ⊆ names → (adoptMention m x).2.DeclaresAmong names
  | ⟨term, leading, trailing, roleName, quantifier, literal, nested⟩, x, h, hsub => by
    rw [adoptMention]
    have hnested : Script.declaresAll nested ⊆ names := by
      refine List.Subset.trans ?_ hsub
      unfold Script.Mention.declares
      split
      · next heq =>
        cases heq
        exact List.subset_cons_self ..
      · next heq =>
        cases heq
        exact List.Subset.refl _
    refine (declaresAmong_adoptAll nested h hnested).pushMention fun name hname => hsub ?_
    rcases roleName with _ | ⟨other⟩ | ⟨k⟩ <;> cases hname
    rw [Script.Mention.declares]
    exact List.mem_cons_self

/-- Taking in a side of a comparison declares the role names of its text. -/
lemma declaresAmong_adoptOperand (other : Script.Operand) :
    ∀ (operand : Script.Operand) {x : Context},
    x.DeclaresAmong names → operand.declares ⊆ names →
      (adoptOperand other operand x).2.DeclaresAmong names
  | .mention m, x, h, hsub => by
    rw [adoptOperand]
    rw [Script.Operand.declares] at hsub
    exact declaresAmong_adoptMention m h hsub
  | .literal _, x, h, _ => by
    rw [adoptOperand]
    exact h.pushMention fun _ hname => nomatch hname

/-- Taking in a phrase declares the role names of its text. -/
lemma declaresAmong_adoptPhrase : ∀ (p : Script.Phrase) {x : Context}, x.DeclaresAmong names →
    p.declares ⊆ names → (adoptPhrase p x).2.DeclaresAmong names
  | .word _, x, h, _ => by
    rw [adoptPhrase]
    exact h
  | .mention m, x, h, hsub => by
    rw [adoptPhrase]
    rw [Script.Phrase.declares] at hsub
    exact declaresAmong_adoptMention m h hsub
  | .comparison _ left right, x, h, hsub => by
    rw [adoptPhrase]
    rw [Script.Phrase.declares, List.append_subset] at hsub
    exact declaresAmong_adoptOperand left right (declaresAmong_adoptOperand right left h hsub.1)
      hsub.2

/-- Taking in phrases declares the role names of their text. -/
lemma declaresAmong_adoptPhrases : ∀ (ps : List Script.Phrase) {x : Context},
    x.DeclaresAmong names →
    Script.Phrase.declaresAll ps ⊆ names → (adoptPhrases ps x).2.DeclaresAmong names
  | [], x, h, _ => by
    rw [adoptPhrases]
    exact h
  | p :: ps, x, h, hsub => by
    rw [adoptPhrases]
    rw [Script.Phrase.declaresAll, List.append_subset] at hsub
    exact declaresAmong_adoptPhrases ps (declaresAmong_adoptPhrase p h hsub.1) hsub.2

/-- Taking in a clause declares the role names of its text. -/
lemma declaresAmong_adopt : ∀ (c : Script.Clause) {x : Context}, x.DeclaresAmong names →
    c.declares ⊆ names → (adopt c x).2.DeclaresAmong names
  | ⟨phrases, _, _, _⟩, x, h, hsub => by
    rw [adopt]
    rw [Script.Clause.declares] at hsub
    exact declaresAmong_adoptPhrases phrases h hsub

/-- Clauses that are taken into a context declare the role names that they declare in the script. -/
theorem declaresAmong_adoptAll : ∀ (cs : List Script.Clause) {x : Context}, x.DeclaresAmong names →
    Script.declaresAll cs ⊆ names → (adoptAll cs x).2.DeclaresAmong names
  | [], x, h, _ => by
    rw [adoptAll]
    exact h
  | c :: cs, x, h, hsub => by
    rw [adoptAll]
    rw [Script.declaresAll, List.append_subset] at hsub
    exact declaresAmong_adoptAll cs (declaresAmong_adopt c h hsub.1) hsub.2

end

/-! ## What mentions are called by -/

end Context

/-- What a mention is called by: a role name, or else its term. -/
def Mention.title (m : Mention) : String ⊕ String :=
  if m.playerByRoleName then .inl m.term
  else
    match m.declaredName? with
    | some name => .inl name
    | none => .inr m.term

/-- A mention that declares a role name is called by it. -/
lemma Mention.title_of_declares {m : Mention} {name : String} (hname : m.declaredName? = some name)
    (hfalse : m.playerByRoleName = false) : m.title = .inl name := by
  rw [title, hfalse, hname]
  rfl

/-- Any other mention is called by its term, which is a role name or not. -/
lemma Mention.title_of_plain {m : Mention} (hname : m.declaredName? = none) :
    m.title = if m.playerByRoleName then .inl m.term else .inr m.term := by
  rw [title, hname]

/-- What the mentions of a key are called by. -/
def BindingKey.title : BindingKey → String ⊕ String
  | role _ (.named name) _ => .inl name
  | role term (.subscript _) _ => .inr term
  | adjectival _ term _ _ => .inr term

namespace Context

variable {x y z : Context} {names : List (String × String)} {declared : MentionId → Option String}

/-- Mentions called by the same have the same player. -/
def PlayersAgree (x : Context) : Prop :=
  ∀ m n, ∀ t ∈ (x.mention m).player, ∀ u ∈ (x.mention n).player,
    (x.mention m).title = (x.mention n).title → t = u

/-- A mention that has a player is called by what the mentions of its key are called by. -/
lemma title_bindingKey {m : MentionId} (hm : (x.mention m).player.isSome) :
    (x.bindingKey m).title = (x.mention m).title := by
  obtain ⟨t, ht⟩ := Option.isSome_iff_exists.1 hm
  unfold bindingKey Mention.title Mention.declaredName?
  dsimp only
  rw [ht]
  cases (x.mention m).playerByRoleName with
  | true => rfl
  | false => rcases (x.mention m).roleName with _ | ⟨_ | _⟩ <;> rfl

/-- Where players agree, mentions of one key have the same player. -/
lemma PlayersAgree.eq_of_bindingKey_eq (h : x.PlayersAgree) {m n : MentionId} {t u : ObjectTypeId}
    (ht : (x.mention m).player = some t) (hu : (x.mention n).player = some u)
    (hkey : x.bindingKey m = x.bindingKey n) : t = u := by
  refine h m n t ht u hu ?_
  rw [← title_bindingKey (ht ▸ rfl), hkey, title_bindingKey (hu ▸ rfl)]

/-! ## Finding players -/

/-- How a term comes to have a player: by its name, by a role name, or by being used before its
declaration. -/
inductive Finds (x : Context) (term : String) : ObjectTypeId × Bool → Context → Prop
  | named {t : ObjectTypeId} (h : x.vocabulary.findObjectType? term = some t) :
      Finds x term (t, false) x
  | roleName {t : ObjectTypeId} (h : x.vocabulary.findObjectType? term = none)
      (hname : (term, t) ∈ x.roleNamePlayers) : Finds x term (t, true) x
  | forward (h : x.vocabulary.findObjectType? term = none)
      (hname : ∀ t, (term, t) ∉ x.roleNamePlayers) :
      Finds x term (⟨x.vocabulary.objectTypes.size⟩, false)
        (x.onto (x.vocabulary.pushObjectType term .entity true))

/-- The object type of a term is found in one of the ways. -/
lemma finds_of_resolvePlayer {term : String} {player : ObjectTypeId × Bool}
    (h : (Compile.resolvePlayer term).perform x = (.ok player, z)) : x.Finds term player z := by
  unfold Compile.resolvePlayer at h
  rw [perform_get_bind] at h
  split at h
  · next hfind =>
    cases h
    exact .named hfind
  next hfind =>
  split at h
  · next t hname =>
    cases h
    obtain ⟨before, after, heq, -⟩ := List.lookup_eq_some_iff.1 hname
    exact .roleName hfind (heq ▸ by simp)
  next hname =>
  split at h
  · obtain ⟨t, w, hedit, hpure⟩ := perform_bind_eq_ok.1 h
    rw [Compile.edit, perform_within, Compile.perform_addForwardEntityType hfind] at hedit
    cases hedit
    cases hpure
    refine .forward hfind fun t ht => ?_
    simpa using List.lookup_eq_none_iff.1 hname _ ht
  · cases h

/-- A term stands for an object type: it is its name, or else a role name of a mention that the type
plays. -/
def StandsFor (x : Context) (term : String) (t : ObjectTypeId) : Prop :=
  x.vocabulary.findObjectType? term = some t ∨
    x.vocabulary.findObjectType? term = none ∧ (term, t) ∈ x.roleNamePlayers

/-- What the player of a mention is known to be from what the mention is called by. -/
def IsCalled (x : Context) (t : ObjectTypeId) : String ⊕ String → Prop
  | .inl name => (name, t) ∈ x.roleNamePlayers
  | .inr term => x.vocabulary.findObjectType? term = some t

/-- What is known while players are found: the players are those of the role names and the terms
that the mentions are called by, and each role name has one player. -/
structure Identified (names : List (String × String)) (declared : MentionId → Option String)
    (x : Context) : Prop where
  declaredName?_eq : ∀ m, (x.mention m).declaredName? = declared m
  declares : ∀ m, ∀ name ∈ declared m,
    (name, (x.mention m).term) ∈ names ∧ (x.mention m).playerByRoleName = false
  standsFor : ∀ name t, (name, t) ∈ x.roleNamePlayers →
    ∃ term, (name, term) ∈ names ∧ x.StandsFor term t
  once : ∀ name t u, (name, t) ∈ x.roleNamePlayers → (name, u) ∈ x.roleNamePlayers → t = u
  isCalled : ∀ m, ∀ t ∈ (x.mention m).player, x.IsCalled t (x.mention m).title

/-- Once all players are found they agree. -/
lemma Identified.playersAgree (h : x.Identified names declared) : x.PlayersAgree := by
  intro m n t ht u hu htitle
  have hcalled := h.isCalled m t ht
  have hcalled' := h.isCalled n u hu
  rw [← htitle] at hcalled'
  cases htitle' : (x.mention m).title with
  | inl name =>
    rw [htitle'] at hcalled hcalled'
    exact h.once name t u hcalled hcalled'
  | inr term =>
    rw [htitle'] at hcalled hcalled'
    exact Option.some.inj (hcalled.symm.trans hcalled')

/-- A term stands for one object type only. -/
lemma Identified.eq_of_standsFor (h : x.Identified names declared) {term : String}
    {t u : ObjectTypeId}
    (ht : x.StandsFor term t) (hu : x.StandsFor term u) : t = u := by
  rcases ht with ht | ⟨hnone, ht⟩ <;> rcases hu with hu | ⟨hnone', hu⟩
  · exact Option.some.inj (ht.symm.trans hu)
  · rw [hnone'] at ht
    cases ht
  · rw [hnone] at hu
    cases hu
  · exact h.once term t u ht hu

section Finds

variable {term : String} {player : ObjectTypeId × Bool} (hfinds : x.Finds term player z)

include hfinds

/-- Finding an object type leaves the mentions as they are. -/
lemma Finds.mention_eq (m : MentionId) : z.mention m = x.mention m := by
  cases hfinds <;> rfl

/-- Finding an object type leaves the players of role names as they are. -/
lemma Finds.roleNamePlayers_eq : z.roleNamePlayers = x.roleNamePlayers := by
  cases hfinds <;> rfl

/-- The term stands for the player that it has been found to have. -/
lemma Finds.standsFor : z.StandsFor term player.1 := by
  cases hfinds with
  | named h => exact .inl h
  | roleName h hname => exact .inr ⟨h, hname⟩
  | forward h hname =>
    refine .inl ((x.vocabulary.findObjectType?_pushObjectType term .entity true term).trans ?_)
    rw [if_pos rfl]

/-- The object type that is found is what the term calls. -/
lemma Finds.isCalled : z.IsCalled player.1 (if player.2 then .inl term else .inr term) := by
  cases hfinds with
  | named h => exact h
  | roleName h hname => exact hname
  | forward h hname =>
    refine (x.vocabulary.findObjectType?_pushObjectType term .entity true term).trans ?_
    rw [if_pos rfl]

/-- Whatever another term is found to be, or not to be, it still is. -/
lemma Finds.findObjectType?_eq {other : String}
    (h : (x.vocabulary.findObjectType? other).isSome ∨ ∃ t, (other, t) ∈ x.roleNamePlayers) :
    z.vocabulary.findObjectType? other = x.vocabulary.findObjectType? other := by
  cases hfinds with
  | named | roleName => rfl
  | forward hnone hname =>
    refine (x.vocabulary.findObjectType?_pushObjectType term .entity true other).trans (if_neg ?_)
    rintro rfl
    rcases h with h | ⟨t, h⟩
    · rw [hnone] at h
      cases h
    · exact hname t h

/-- What a term stands for it still stands for. -/
lemma Finds.standsFor_of {other : String} {t : ObjectTypeId} (h : x.StandsFor other t) :
    z.StandsFor other t := by
  rcases h with hfind | ⟨hnone, hname⟩
  · refine .inl ((hfinds.findObjectType?_eq (.inl ?_)).trans hfind)
    rw [hfind]
    rfl
  · exact .inr ⟨(hfinds.findObjectType?_eq (.inr ⟨t, hname⟩)).trans hnone,
      hfinds.roleNamePlayers_eq ▸ hname⟩

/-- What a mention is called by still gives its player. -/
lemma Finds.isCalled_of {title : String ⊕ String} {t : ObjectTypeId} (h : x.IsCalled t title) :
    z.IsCalled t title := by
  cases title with
  | inl name =>
    change (name, t) ∈ z.roleNamePlayers
    rw [hfinds.roleNamePlayers_eq]
    exact h
  | inr other =>
    have hother : x.vocabulary.findObjectType? other = some t := h
    refine (hfinds.findObjectType?_eq (.inl ?_)).trans hother
    rw [hother]
    rfl

/-- Finding the player of a term keeps what is known. -/
lemma Identified.finds (h : x.Identified names declared) : z.Identified names declared := by
  have hnames := hfinds.roleNamePlayers_eq
  refine ⟨fun m => ?_, fun m => ?_, fun name t ht => ?_, ?_, fun m t ht => ?_⟩
  · rw [hfinds.mention_eq]
    exact h.declaredName?_eq m
  · rw [hfinds.mention_eq]
    exact h.declares m
  · rw [hnames] at ht
    obtain ⟨other, hmem, hstands⟩ := h.standsFor name t ht
    exact ⟨other, hmem, hfinds.standsFor_of hstands⟩
  · rw [hnames]
    exact h.once
  · rw [hfinds.mention_eq] at ht ⊢
    exact hfinds.isCalled_of (h.isCalled m t ht)

end Finds

/-- A mention may be told its player if this is the one that it is called by. -/
lemma Identified.tell (h : x.Identified names declared) {m : MentionId} {change : Mention → Mention}
    (hchange : ∀ k, (change k).declaredName? = k.declaredName? ∧ (change k).term = k.term)
    (hdeclares : (declared m).isSome → (change (x.mention m)).playerByRoleName = false)
    (hcalled : ∀ t ∈ (change (x.mention m)).player, x.IsCalled t (change (x.mention m)).title) :
    (x.modifyMention m change).Identified names declared := by
  have hname := fun n => mention_modifyMention_apply (x := x) Mention.declaredName? m
    (fun k => (hchange k).1) n
  have hterm := fun n => mention_modifyMention_apply (x := x) Mention.term m
    (fun k => (hchange k).2) n
  refine ⟨fun n => (hname n).trans (h.declaredName?_eq n), fun n name hn => ?_, h.standsFor, h.once,
    fun n => ?_⟩
  · obtain ⟨hmem, hfalse⟩ := h.declares n name hn
    refine ⟨(hterm n).symm ▸ hmem, ?_⟩
    rw [mention_modifyMention]
    split
    · next heq => exact hdeclares (heq.1 ▸ hn ▸ rfl)
    · exact hfalse
  · rw [mention_modifyMention]
    split
    · exact hcalled
    · exact h.isCalled n

/-- A role name may be declared for a term that stands for its player, if it is declared for one
term only. -/
lemma Identified.name (h : x.Identified names declared)
    (hfixed : ∀ d ∈ names, ∀ e ∈ names, d.1 = e.1 → d.2 = e.2) {name term : String}
    {t : ObjectTypeId} (hmem : (name, term) ∈ names) (hstands : x.StandsFor term t) :
    { x with roleNamePlayers := (name, t) :: x.roleNamePlayers }.Identified names declared := by
  have hlater : ∀ {term u}, x.StandsFor term u →
      { x with roleNamePlayers := (name, t) :: x.roleNamePlayers }.StandsFor term u := fun hu =>
    hu.imp_right fun hu => ⟨hu.1, List.mem_cons_of_mem _ hu.2⟩
  have hsame : ∀ u, (name, u) ∈ x.roleNamePlayers → u = t := by
    intro u hu
    obtain ⟨other, hother, hstands'⟩ := h.standsFor name u hu
    obtain rfl := hfixed _ hmem _ hother rfl
    exact h.eq_of_standsFor hstands' hstands
  refine ⟨h.declaredName?_eq, h.declares, fun other u hu => ?_, fun other u u' hu hu' => ?_,
    fun m u hu => ?_⟩
  · rcases List.mem_cons.1 hu with heq | hu
    · cases heq
      exact ⟨term, hmem, hlater hstands⟩
    · obtain ⟨term', hmem', hstands'⟩ := h.standsFor other u hu
      exact ⟨term', hmem', hlater hstands'⟩
  · rcases List.mem_cons.1 hu with heq | hu <;> rcases List.mem_cons.1 hu' with heq' | hu'
    · cases heq
      cases heq'
      rfl
    · cases heq
      exact (hsame u' hu').symm
    · cases heq'
      exact hsame u hu
    · exact h.once other u u' hu hu'
  · have hcalled := h.isCalled m u hu
    cases htitle : (x.mention m).title with
    | inl other =>
      rw [htitle] at hcalled
      refine htitle.symm ▸ List.mem_cons_of_mem _ hcalled
    | inr other =>
      rw [htitle] at hcalled
      exact htitle.symm ▸ hcalled

/-- Where mentions have only been taken into a context no player is known. -/
lemma Adopts.unknown {v : Vocabulary} {forwardTerms : List String}
    (h : Adopts { vocabulary := v, forwardTerms } x) : x.roleNamePlayers = [] ∧
      ∀ m, (x.mention m).player = none ∧ (x.mention m).playerByRoleName = false := by
  induction h with
  | refl => exact ⟨rfl, fun _ => ⟨rfl, rfl⟩⟩
  | pushMention _ m ih =>
    refine ⟨ih.1, fun n => ?_⟩
    rw [mention_pushMention]
    split
    · exact ⟨rfl, rfl⟩
    · exact ih.2 n

end Context

namespace Compile

open Context

variable {x y : Context} {names : List (String × String)} {declared : MentionId → Option String}

section Identify

variable (hfixed : ∀ d ∈ names, ∀ e ∈ names, d.1 = e.1 → d.2 = e.2)

include hfixed

/-- Finding the player of a mention, declared role name or not, keeps what is known. -/
lemma identified_identify (hx : x.Identified names declared) {m : MentionId} {u : Unit}
    (h : (match declared m with
      | some roleName => identifyDeclaring m roleName
      | none => identifyPlain m).perform x = (.ok u, y)) : y.Identified names declared := by
  cases hname : declared m with
  | some name =>
    rw [hname] at h
    obtain ⟨-, player, z, hplayer, rfl⟩ := perform_identifyDeclaring_eq_ok.1 h
    have hfinds := finds_of_resolvePlayer hplayer
    obtain ⟨hmem, hfalse⟩ := hx.declares m name hname
    have hdeclares := (hx.declaredName?_eq m).trans hname
    have hmention : z.mention m = x.mention m := hfinds.mention_eq m
    rw [← hmention] at hfalse hdeclares
    refine ((hx.finds hfinds).name hfixed hmem hfinds.standsFor).tell (fun _ => ⟨rfl, rfl⟩)
      (fun _ => hfalse) ?_
    rintro t ⟨⟩
    have htitle : Mention.title { z.mention m with player := some player.1 } = .inl name :=
      Mention.title_of_declares hdeclares hfalse
    exact htitle.symm ▸ List.mem_cons_self
  | none =>
    rw [hname] at h
    obtain ⟨player, z, hplayer, rfl⟩ := perform_identifyPlain_eq_ok.1 h
    have hfinds := finds_of_resolvePlayer hplayer
    have hmention : z.mention m = x.mention m := hfinds.mention_eq m
    refine (hx.finds hfinds).tell (fun _ => ⟨rfl, rfl⟩) (fun hsome => ?_) ?_
    · rw [hname] at hsome
      cases hsome
    · rintro t ⟨⟩
      have hplain := (hx.declaredName?_eq m).trans hname
      rw [← hmention] at hplain
      have htitle : Mention.title { z.mention m with
          player := some player.1, playerByRoleName := player.2 } =
            if player.2 then .inl (z.mention m).term else .inr (z.mention m).term :=
        Mention.title_of_plain hplain
      rw [htitle, hmention]
      exact hfinds.isCalled

/-- Finding the players of some mentions keeps what is known. -/
lemma identified_identifyEach (hx : x.Identified names declared) {ms : List MentionId}
    {change : MentionId → Compile PUnit}
    (hchange : ∀ m, change m = pure ⟨⟩ ∨ change m = match declared m with
      | some roleName => identifyDeclaring m roleName
      | none => identifyPlain m) {u : PUnit} (h : (ms.forM change).perform x = (.ok u, y)) :
    y.Identified names declared := by
  induction ms generalizing x with
  | nil =>
    cases h
    exact hx
  | cons m ms ih =>
    rw [List.forM] at h
    obtain ⟨_, z, hfirst, hrest⟩ := perform_bind_eq_ok.1 h
    rcases hchange m with hnone | hsome
    · rw [hnone] at hfirst
      cases hfirst
      exact ih hx hrest
    · rw [hsome] at hfirst
      exact ih (identified_identify hfixed hx hfirst) hrest

/-- Finding the players of clauses keeps what is known.

**Proof sketch.** Whether a mention declares a role name does not change, so it does not matter when
this is looked up. -/
lemma identified_identifyPlayers {cs : List Clause} (hx : x.Identified names declared) {u : Unit}
    (h : (identifyPlayers cs).perform x = (.ok u, y)) : y.Identified names declared := by
  rw [identifyPlayers, perform_get_bind] at h
  obtain ⟨_, z, hdeclaring, hplain⟩ := perform_bind_eq_ok.1 h
  have hz := identified_identifyEach hfixed hx (fun m => by
    rw [hx.declaredName?_eq]
    cases declared m with
    | some roleName => exact .inr rfl
    | none => exact .inl rfl) hdeclaring
  refine identified_identifyEach hfixed hz (fun m => ?_) hplain
  rw [hx.declaredName?_eq]
  cases declared m with
  | some roleName => exact .inl rfl
  | none => exact .inr rfl

end Identify

/-- Of mentions that have only been taken into a context no player is known. -/
lemma identified_adoptAll {v : Vocabulary} {forwardTerms : List String}
    (clauses : List Script.Clause) :
    let x := (adoptAll clauses { vocabulary := v, forwardTerms }).2
    x.Identified (Script.declaresAll clauses) fun m => (x.mention m).declaredName? := by
  intro x
  have hdeclares : x.DeclaresAmong (Script.declaresAll clauses) :=
    declaresAmong_adoptAll clauses (fun _ _ hname => nomatch hname) (List.Subset.refl _)
  obtain ⟨hnone, hunknown⟩ := (adopts_adoptAll clauses { vocabulary := v, forwardTerms }).unknown
  refine ⟨fun _ => rfl, fun m name hname => ⟨hdeclares m name hname, (hunknown m).2⟩,
    fun name t ht => ?_, fun name t _ ht => ?_, fun m t ht => ?_⟩
  · rw [hnone] at ht
    cases ht
  · rw [hnone] at ht
    cases ht
  · rw [(hunknown m).1] at ht
    cases ht

/-- **Players agree.** Once clauses have been entered in which each role name is declared for one
term only, mentions that are called by the same have the same player.

**Proof sketch.** A role name has the player of the term that it is declared for. A term that is a
role name by then is never declared afterwards, and so it always stands for the same. -/
theorem playersAgree_of_enter {v : Vocabulary} {forwardTerms : List String}
    {clauses : List Script.Clause} {cs : List Clause} (hfixed : Script.NamesFixed clauses)
    (h : (enter clauses).perform { vocabulary := v, forwardTerms } = (.ok cs, y)) :
    y.PlayersAgree := by
  let x : Context := { vocabulary := v, forwardTerms }
  obtain ⟨_, z, hidentify, hrest⟩ := perform_bind_eq_ok.1
    (show (do
      identifyPlayers (adoptAll clauses x).1
      bindClauses (adoptAll clauses x).1
      pure (adoptAll clauses x).1 : Compile (List Clause)).perform (adoptAll clauses x).2 =
        (.ok cs, y)
      from h)
  obtain ⟨_, w, hbind, hpure⟩ := perform_bind_eq_ok.1 hrest
  cases hpure
  have hz :=
    (identified_identifyPlayers hfixed (identified_adoptAll clauses) hidentify).playersAgree
  have hbinds := bindsEach_of_bindEach (bindEach_of_bindClauses _ hbind)
  intro m n t ht u hu htitle
  rw [hbinds.mention_eq] at ht hu
  rw [hbinds.mention_eq m, hbinds.mention_eq n] at htitle
  exact hz m n t ht u hu htitle

end Compile

end FactModel
