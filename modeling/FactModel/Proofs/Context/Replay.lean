import FactModel.Proofs.Context.Validity
import FactModel.Session
set_option autoImplicit false

/-!
# Entering clauses again

The vocabulary grows while clauses are entered, by the terms that may be used before their
declaration. Over a vocabulary that has grown this far the same clauses can be entered again: every
mention gets the player and the binding that it got before.

## Main definitions

* `FactModel.Context.onto` — a context over another vocabulary.
* `FactModel.Context.CompletedBy` — a vocabulary with all terms that a context refers to.
* `FactModel.Compile.Replays` — a change that does the same over such a vocabulary.

## Main results

* `FactModel.Compile.composes_replays` — changes in sequence can be replayed if each of them can.
* `FactModel.Compile.perform_enter_over` — entering clauses can be replayed.
-/

namespace FactModel

open Attempt Compile

namespace Context

/-- The context over another vocabulary. -/
def onto (x : Context) (w : Vocabulary) : Context :=
  { x with vocabulary := w }

/-- A vocabulary that the vocabulary of a context has grown into, and in which no term that the
context takes for a role name has become an object type. -/
structure CompletedBy (x : Context) (w : Vocabulary) : Prop where
  grows : x.vocabulary.Grows w
  wellFormed : w.WellFormed
  roleName : ∀ term, x.vocabulary.findObjectType? term = none →
    (x.roleNamePlayers.lookup term).isSome → w.findObjectType? term = none

variable {x : Context} {w : Vocabulary}

/-- A term that names an object type still does. -/
lemma CompletedBy.findObjectType?_eq_some (h : x.CompletedBy w) (hx : x.Valid) {term : String}
    {t : ObjectTypeId} (ht : x.vocabulary.findObjectType? term = some t) :
    w.findObjectType? term = some t := by
  obtain ⟨hmem, hname⟩ := (hx.consistent.findObjectType?_iff term t).1 ht
  refine (h.wellFormed.findObjectType?_iff term t).2 ⟨h.grows.mem_objectTypeIds hmem, ?_⟩
  rw [h.grows.nameOf_eq hmem, hname]

/-- Over a vocabulary in which the player of a mention has the same name, its key is the same. -/
lemma bindingKey_over {m : MentionId}
    (hname : ∀ t ∈ (x.mention m).player, w.nameOf t = x.vocabulary.nameOf t) :
    (x.onto w).bindingKey m = x.bindingKey m := by
  have hmention : (x.onto w).mention m = x.mention m := rfl
  unfold bindingKey
  dsimp only
  rw [hmention]
  split
  · next player _ hplayer =>
    rw [show (x.onto w).vocabulary.nameOf player = _ from hname player hplayer]
  · rfl
  · rfl

/-- Binding a mention does the same over another vocabulary in which its player has the same
name. -/
lemma bindAs_over {m : MentionId} {player : ObjectTypeId}
    (hname : ∀ t ∈ (x.mention m).player, w.nameOf t = x.vocabulary.nameOf t) :
    (x.onto w).bindAs m player = ((x.bindAs m player).1, (x.bindAs m player).2.onto w) := by
  have hbinding : ∀ key, (x.onto w).bindingOf? key = x.bindingOf? key := fun _ => rfl
  rw [bindAs, bindAs, bindingKey_over hname, hbinding]
  split <;> rfl

end Context

open Context

/-! ## Taking clauses into a context -/

namespace Context

/-- Taking something into a context does the same over another vocabulary. -/
def AdoptsOver {α : Type} (adoption : StateM Context α) : Prop :=
  ∀ (x : Context) (w : Vocabulary), adoption (x.onto w) = ((adoption x).1, (adoption x).2.onto w)

/-- A value is the same over another vocabulary. -/
lemma adoptsOver_pure {α : Type} (a : α) : AdoptsOver (pure a) :=
  fun _ _ => rfl

/-- What does the same over another vocabulary may be followed by what does. -/
lemma AdoptsOver.bind {α β : Type} {adoption : StateM Context α} {next : α → StateM Context β}
    (h : AdoptsOver adoption) (hnext : ∀ a, AdoptsOver (next a)) :
    AdoptsOver (adoption >>= next) := by
  intro x w
  have hrun : ∀ y, (adoption >>= next) y = next (adoption y).1 (adoption y).2 := fun _ => rfl
  rw [hrun, hrun, h x w]
  exact hnext _ _ w

/-- Keeping a mention does the same over another vocabulary. -/
lemma adoptsOver_keepMention (m : Mention) : AdoptsOver (keepMention m) :=
  fun _ _ => rfl

mutual

/-- Taking in a mention does the same over another vocabulary. -/
lemma adoptsOver_adoptMention : ∀ m : Script.Mention, AdoptsOver (adoptMention m)
  | ⟨_, _, _, _, _, _, nested⟩ => by
    rw [adoptMention]
    exact (adoptsOver_adoptAll nested).bind fun _ => (adoptsOver_keepMention _).bind fun _ =>
      adoptsOver_pure _

/-- Taking in a side of a comparison does the same over another vocabulary. -/
lemma adoptsOver_adoptOperand (other : Script.Operand) :
    ∀ operand : Script.Operand, AdoptsOver (adoptOperand other operand)
  | .mention m => by
    rw [adoptOperand]
    exact adoptsOver_adoptMention m
  | .literal _ => by
    rw [adoptOperand]
    exact (adoptsOver_keepMention _).bind fun _ => adoptsOver_pure _

/-- Taking in a phrase does the same over another vocabulary. -/
lemma adoptsOver_adoptPhrase : ∀ p : Script.Phrase, AdoptsOver (adoptPhrase p)
  | .word _ => by
    rw [adoptPhrase]
    exact adoptsOver_pure _
  | .mention m => by
    rw [adoptPhrase]
    exact (adoptsOver_adoptMention m).bind fun _ => adoptsOver_pure _
  | .comparison _ left right => by
    rw [adoptPhrase]
    exact (adoptsOver_adoptOperand right left).bind fun _ =>
      (adoptsOver_adoptOperand left right).bind fun _ => adoptsOver_pure _

/-- Taking in phrases does the same over another vocabulary. -/
lemma adoptsOver_adoptPhrases : ∀ ps : List Script.Phrase, AdoptsOver (adoptPhrases ps)
  | [] => by
    rw [adoptPhrases]
    exact adoptsOver_pure _
  | p :: ps => by
    rw [adoptPhrases]
    exact (adoptsOver_adoptPhrase p).bind fun _ => (adoptsOver_adoptPhrases ps).bind fun _ =>
      adoptsOver_pure _

/-- Taking in a clause does the same over another vocabulary. -/
lemma adoptsOver_adopt : ∀ c : Script.Clause, AdoptsOver (adopt c)
  | ⟨phrases, _, _, _⟩ => by
    rw [adopt]
    exact (adoptsOver_adoptPhrases phrases).bind fun _ => adoptsOver_pure _

/-- Taking in clauses does the same over another vocabulary. -/
lemma adoptsOver_adoptAll : ∀ cs : List Script.Clause, AdoptsOver (adoptAll cs)
  | [] => by
    rw [adoptAll]
    exact adoptsOver_pure _
  | c :: cs => by
    rw [adoptAll]
    exact (adoptsOver_adopt c).bind fun _ => (adoptsOver_adoptAll cs).bind fun _ =>
      adoptsOver_pure _

end

end Context

/-! ## Players and bindings -/

namespace Compile

variable {x y : Context}

/-- A change that does the same over every vocabulary with all terms that the context refers to
after it. -/
def Replays {α : Type} (change : Compile α) : Prop :=
  ∀ {x y : Context} {a : α}, x.Valid → change.perform x = (.ok a, y) → y.Valid ∧
    ∀ w, y.CompletedBy w → x.CompletedBy w ∧ change.perform (x.onto w) = (.ok a, y.onto w)

/-- Changes in sequence can be replayed if each of them can. -/
theorem composes_replays : Composes Replays where
  pure a := by
    rintro x y b hx ⟨⟩
    exact ⟨hx, fun w hw => ⟨hw, rfl⟩⟩
  throw fault := by
    rintro x y a - ⟨⟩
  bind {_ _ change next} hchange hnext := by
    intro x y b hx h
    obtain ⟨a, z, hfirst, hsecond⟩ := perform_bind_eq_ok.1 h
    obtain ⟨hz, hreplay⟩ := hchange hx hfirst
    obtain ⟨hy, hreplay'⟩ := hnext a hz hsecond
    refine ⟨hy, fun w hw => ?_⟩
    obtain ⟨hzw, hsecond'⟩ := hreplay' w hw
    obtain ⟨hxw, hfirst'⟩ := hreplay w hzw
    exact ⟨hxw, perform_bind_eq_ok.2 ⟨a, _, hfirst', hsecond'⟩⟩
  get {_ next} hnext h := by
    intro x y a hx hperform
    rw [perform_get_bind] at hperform
    obtain ⟨hy, hreplay⟩ := h x hx hperform
    refine ⟨hy, fun w hw => ?_⟩
    rw [perform_get_bind, onto, hnext]
    exact hreplay w hw

/-- A term that may be used before its declaration becomes an object type, which it names. -/
lemma perform_addForwardEntityType {v : Vocabulary} {term : String}
    (hterm : v.findObjectType? term = none) :
    (Vocabulary.addForwardEntityType term).perform v =
      (.ok ⟨v.objectTypes.size⟩, v.pushObjectType term .entity true) := by
  rw [Vocabulary.addForwardEntityType, perform_get_bind, hterm]
  dsimp only
  rw [Vocabulary.declareObjectType, perform_get_bind, hterm]
  rfl

/-- Finding the player of a term can be replayed. A term that is added to the vocabulary is there
when it is looked up again. -/
lemma replays_resolvePlayer (term : String) : Replays (resolvePlayer term) := by
  intro x y player hx h
  obtain ⟨hextends, -⟩ := (leads_resolvePlayer hx term).of_perform h
  refine ⟨hextends.valid, fun w hw => ?_⟩
  unfold resolvePlayer at h ⊢
  rw [perform_get_bind] at h ⊢
  cases hfind : x.vocabulary.findObjectType? term with
  | some t =>
    rw [hfind] at h
    cases h
    have hfind' : (x.onto w).vocabulary.findObjectType? term = some t :=
      hw.findObjectType?_eq_some hx hfind
    rw [hfind']
    exact ⟨hw, rfl⟩
  | none =>
    rw [hfind] at h
    dsimp only at h
    cases hname : x.roleNamePlayers.lookup term with
    | some t =>
      rw [hname] at h
      cases h
      have hfind' : (x.onto w).vocabulary.findObjectType? term = none :=
        hw.roleName term hfind (hname ▸ rfl)
      have hname' : (x.onto w).roleNamePlayers.lookup term = some t := hname
      rw [hfind', hname']
      exact ⟨hw, rfl⟩
    | none =>
      rw [hname] at h
      dsimp only at h
      split at h
      · obtain ⟨t, z, hedit, hpure⟩ := perform_bind_eq_ok.1 h
        rw [edit, perform_within, perform_addForwardEntityType hfind] at hedit
        cases hedit
        cases hpure
        have hnew := x.vocabulary.findObjectType?_pushObjectType term .entity true
        have hfind' : (x.onto w).vocabulary.findObjectType? term =
            some ⟨x.vocabulary.objectTypes.size⟩ :=
          hw.findObjectType?_eq_some hextends.valid ((hnew term).trans (if_pos rfl))
        rw [hfind']
        refine ⟨⟨hextends.grows.trans hw.grows, hw.wellFormed, fun other hother hlookup => ?_⟩, rfl⟩
        refine hw.roleName other ((hnew other).trans ?_) hlookup
        rw [if_neg, hother]
        rintro rfl
        rw [hname] at hlookup
        cases hlookup
      · cases h

/-- What finding the player of a mention that declares a role name consists of. -/
lemma perform_identifyDeclaring_eq_ok {m : MentionId} {roleName : String} {u : Unit} :
    (identifyDeclaring m roleName).perform x = (.ok u, y) ↔
      (x.mention m).hasAdjectives = false ∧ ∃ player z,
        (resolvePlayer (x.mention m).term).perform x = (.ok player, z) ∧
        y = { z with roleNamePlayers := (roleName, player.1) :: z.roleNamePlayers }.modifyMention m
          ({ · with player := some player.1 }) := by
  unfold identifyDeclaring
  rw [perform_get_bind]
  dsimp only
  split
  · next hadjectives =>
    constructor
    · rintro ⟨⟩
    · rintro ⟨hnone, -⟩
      rw [hadjectives] at hnone
      cases hnone
  · next hadjectives =>
    rw [perform_bind_eq_ok]
    constructor
    · rintro ⟨player, z, hplayer, ⟨⟩⟩
      exact ⟨Bool.eq_false_iff.2 hadjectives, player, z, hplayer, rfl⟩
    · rintro ⟨-, player, z, hplayer, rfl⟩
      exact ⟨player, z, hplayer, rfl⟩

/-- Finding the player of a mention that declares a role name can be replayed. -/
lemma replays_identifyDeclaring (m : MentionId) (roleName : String) :
    Replays (identifyDeclaring m roleName) := by
  intro x y u hx h
  obtain ⟨hextends, -⟩ := (leads_identifyDeclaring hx m roleName).of_perform h
  refine ⟨hextends.valid, fun w hw => ?_⟩
  obtain ⟨hadjectives, player, z, hplayer, rfl⟩ := perform_identifyDeclaring_eq_ok.1 h
  obtain ⟨hz, hreplay⟩ := replays_resolvePlayer (x.mention m).term hx hplayer
  have hzw : z.CompletedBy w := by
    refine ⟨hw.grows, hw.wellFormed, fun term hterm hlookup => hw.roleName term hterm ?_⟩
    have hcons := lookup_cons_eq_ite roleName term player.1 z.roleNamePlayers
    refine (congrArg Option.isSome hcons).trans ?_
    split
    · rfl
    · exact hlookup
  obtain ⟨hxw, hplayer'⟩ := hreplay w hzw
  exact ⟨hxw, perform_identifyDeclaring_eq_ok.2 ⟨hadjectives, player, z.onto w, hplayer', rfl⟩⟩

/-- What finding the player of any other mention consists of. -/
lemma perform_identifyPlain_eq_ok {m : MentionId} {u : Unit} :
    (identifyPlain m).perform x = (.ok u, y) ↔ ∃ player z,
      (resolvePlayer (x.mention m).term).perform x = (.ok player, z) ∧
      y = z.modifyMention m
        ({ · with player := some player.1, playerByRoleName := player.2 }) := by
  unfold identifyPlain
  rw [perform_get_bind, perform_bind_eq_ok]
  constructor
  · rintro ⟨player, z, hplayer, ⟨⟩⟩
    exact ⟨player, z, hplayer, rfl⟩
  · rintro ⟨player, z, hplayer, rfl⟩
    exact ⟨player, z, hplayer, rfl⟩

/-- Finding the player of another mention can be replayed. -/
lemma replays_identifyPlain (m : MentionId) : Replays (identifyPlain m) := by
  intro x y u hx h
  obtain ⟨hextends, -⟩ := (leads_identifyPlain hx m).of_perform h
  refine ⟨hextends.valid, fun w hw => ?_⟩
  obtain ⟨player, z, hplayer, rfl⟩ := perform_identifyPlain_eq_ok.1 h
  obtain ⟨hz, hreplay⟩ := replays_resolvePlayer (x.mention m).term hx hplayer
  obtain ⟨hxw, hplayer'⟩ := hreplay w ⟨hw.grows, hw.wellFormed, hw.roleName⟩
  exact ⟨hxw, perform_identifyPlain_eq_ok.2 ⟨player, z.onto w, hplayer', rfl⟩⟩

/-- Asking for a player succeeds if there is one, and changes nothing. -/
lemma perform_playerOf_eq_ok {m : MentionId} {player : ObjectTypeId} :
    (playerOf m).perform x = (.ok player, y) ↔ (x.mention m).player = some player ∧ y = x := by
  rw [playerOf, perform_get_bind, perform_ofExcept_eq_ok, Context.playerOf]
  cases (x.mention m).player <;> simp

/-- What binding a mention consists of. -/
lemma perform_bind_mention_eq_ok {m : MentionId} {b : BindingId} :
    (Compile.bind m).perform x = (.ok b, y) ↔
      ∃ player, (x.mention m).player = some player ∧ x.bindAs m player = (b, y) := by
  rw [Compile.bind, perform_bind_eq_ok]
  constructor
  · rintro ⟨player, z, hplayer, hbind⟩
    obtain ⟨hplayer, rfl⟩ := perform_playerOf_eq_ok.1 hplayer
    cases hbind
    exact ⟨player, hplayer, rfl⟩
  · rintro ⟨player, hplayer, hbind⟩
    refine ⟨player, x, perform_playerOf_eq_ok.2 ⟨hplayer, rfl⟩, ?_⟩
    exact congrArg (fun r => (Except.ok r.1, r.2)) hbind

/-- What binding a mention changes. -/
lemma bindAs_spec (m : MentionId) (player : ObjectTypeId) :
    (x.bindAs m player).2.vocabulary = x.vocabulary ∧
      (x.bindAs m player).2.roleNamePlayers = x.roleNamePlayers := by
  rw [bindAs]
  split <;> exact ⟨rfl, rfl⟩

/-- Binding a mention can be replayed, because its player keeps its name. -/
lemma replays_bind (m : MentionId) : Replays (Compile.bind m) := by
  intro x y b hx h
  obtain ⟨hextends, -⟩ := (leads_bind hx m).of_perform h
  refine ⟨hextends.valid, fun w hw => ?_⟩
  obtain ⟨player, hplayer, hbind⟩ := perform_bind_mention_eq_ok.1 h
  obtain ⟨hvocabulary, hnames⟩ := bindAs_spec (x := x) m player
  rw [hbind] at hvocabulary hnames
  have hxw : x.CompletedBy w :=
    ⟨hvocabulary ▸ hw.grows, hw.wellFormed, hvocabulary ▸ hnames ▸ hw.roleName⟩
  refine ⟨hxw, perform_bind_mention_eq_ok.2 ⟨player, hplayer, ?_⟩⟩
  rw [bindAs_over fun t ht => hxw.grows.nameOf_eq (hx.player_mem m t ht), hbind]

/-- **Clauses can be entered again.** Over any vocabulary with all terms that the context refers to
after clauses were entered, the same clauses become the same, and the context is the same but for
its vocabulary.

**Proof sketch.** By induction on the changes in sequence, from the last one to the first: a term
that a change adds is found by the same change later on, and a term that was taken for a role name
has not become an object type. -/
theorem perform_enter_over (hx : x.Valid) {clauses : List Script.Clause} {cs : List Clause}
    (h : (enter clauses).perform x = (.ok cs, y)) {w : Vocabulary} (hw : y.CompletedBy w) :
    (enter clauses).perform (x.onto w) = (.ok cs, y.onto w) := by
  have hadopt := hx.of_adopts (adopts_adoptAll clauses x)
  let rest : List Clause → Compile (List Clause) := fun cs => do
    identifyPlayers cs
    bindClauses cs
    pure cs
  have henter : ∀ z : Context, (enter clauses).perform z =
      (rest (adoptAll clauses z).1).perform (adoptAll clauses z).2 := fun _ => rfl
  have hreplays : ∀ ds, Replays (rest ds) := fun ds =>
    composes_replays.bind (composes_replays.identifyPlayers replays_identifyDeclaring
      replays_identifyPlain ds) fun _ =>
        composes_replays.bind (composes_replays.bindClauses replays_bind ds) fun _ =>
          composes_replays.pure ds
  rw [henter] at h
  rw [henter, adoptsOver_adoptAll clauses x w]
  exact ((hreplays _ hadopt.valid h).2 w hw).2

end Compile

end FactModel
