import FactModel.Proofs.Matching.Carrying
import FactModel.Proofs.Matching.Kinds
import FactModel.Proofs.Session.Ranking
set_option autoImplicit false

/-!
# Clauses about kinds after scripts

## Main definitions

* `FactModel.Script.kindClause` — the clause that says that one term is a kind of another.

## Main results

* `FactModel.Session.kindOf_iff_ranked` — after any scripts, what is ranked about kinds is true, and
  what is true is ranked.
-/

namespace FactModel

open Attempt Relation

/-- The clause that says, without adjectives, that one term is a kind of another. -/
def Script.kindClause (lower upper : String) : Script.Clause where
  phrases := [.mention { term := lower }, .word "is", .word "a", .word "kind", .word "of",
    .mention { term := upper }]

namespace Compile

variable {x : Context}

/-- The player of a mention without a role name is the object type that its term names, if there is
one. -/
lemma perform_identifyPlain_of_find {m : MentionId} {t : ObjectTypeId}
    (h : x.vocabulary.findObjectType? (x.mention m).term = some t) :
    (identifyPlain m).perform x =
      (.ok (), x.modifyMention m ({ · with player := some t, playerByRoleName := false })) := by
  refine perform_identifyPlain_eq_ok.2 ⟨(t, false), x, ?_, rfl⟩
  rw [resolvePlayer, perform_get_bind, h]
  rfl

/-- A clause about kinds can be entered where its terms name object types, and then its mentions
have these as their players. -/
lemma enter_kindClause {lower upper : String} {s t : ObjectTypeId} {v : Vocabulary}
    (forwardTerms : List String) (hlower : v.findObjectType? lower = some s)
    (hupper : v.findObjectType? upper = some t) :
    ∃ c y, (enter [Script.kindClause lower upper]).perform { vocabulary := v, forwardTerms } =
        (.ok [c], y) ∧ y.vocabulary = v ∧ c.phrases = Context.kindPhrases ⟨0⟩ ⟨1⟩ ∧
      ((y.mention ⟨0⟩).player = some s ∧ (y.mention ⟨0⟩).leading = none ∧
        (y.mention ⟨0⟩).trailing = none) ∧
      ((y.mention ⟨1⟩).player = some t ∧ (y.mention ⟨1⟩).leading = none ∧
        (y.mention ⟨1⟩).trailing = none) := by
  let c : Clause := { phrases := Context.kindPhrases ⟨0⟩ ⟨1⟩ }
  let x : Context :=
    { vocabulary := v, forwardTerms, mentions := #[{ term := lower }, { term := upper }] }
  let x₁ := x.modifyMention ⟨0⟩ ({ · with player := some s, playerByRoleName := false })
  let x₂ := x₁.modifyMention ⟨1⟩ ({ · with player := some t, playerByRoleName := false })
  let x₃ := (x₂.bindAs ⟨0⟩ s).2
  let y := (x₃.bindAs ⟨1⟩ t).2
  have hidentify : (identifyPlayers [c]).perform x = (.ok (), x₂) := by
    refine perform_bind_eq_ok.2 ⟨_, _, rfl, ?_⟩
    refine perform_bind_eq_ok.2 ⟨(), x, rfl, ?_⟩
    refine perform_bind_eq_ok.2 ⟨(), x₁, perform_identifyPlain_of_find hlower, ?_⟩
    refine perform_bind_eq_ok.2 ⟨(), x₂, perform_identifyPlain_of_find hupper, rfl⟩
  have hplayers : (x₂.mention ⟨0⟩).player = some s ∧ (x₃.mention ⟨1⟩).player = some t :=
    ⟨rfl, Context.mention_bindAs_apply Mention.player (fun _ _ => rfl) ⟨0⟩ s ⟨1⟩⟩
  have hbind : (bindClauses [c]).perform x₂ = (.ok (), y) := by
    have hlower' : (Compile.bind ⟨0⟩).perform x₂ = (.ok (x₂.bindAs ⟨0⟩ s).1, x₃) :=
      perform_bind_mention_eq_ok.2 ⟨s, hplayers.1, rfl⟩
    have hupper' : (Compile.bind ⟨1⟩).perform x₃ = (.ok (x₃.bindAs ⟨1⟩ t).1, y) :=
      perform_bind_mention_eq_ok.2 ⟨t, hplayers.2, rfl⟩
    refine perform_bind_eq_ok.2 ⟨(), y, perform_bind_eq_ok.2 ⟨(), x₂, rfl, ?_⟩, rfl⟩
    refine perform_bind_eq_ok.2 ⟨(), x₃, perform_bind_eq_ok.2 ⟨_, x₃, hlower', rfl⟩, ?_⟩
    refine perform_bind_eq_ok.2 ⟨(), x₃, rfl, perform_bind_eq_ok.2 ⟨(), x₃, rfl, ?_⟩⟩
    refine perform_bind_eq_ok.2 ⟨(), x₃, rfl, perform_bind_eq_ok.2 ⟨(), x₃, rfl, ?_⟩⟩
    exact perform_bind_eq_ok.2 ⟨(), y, perform_bind_eq_ok.2 ⟨_, y, hupper', rfl⟩, rfl⟩
  have hmention : ∀ {α : Type} (field : Mention → α),
      (∀ mention binding, field { mention with binding } = field mention) →
        ∀ n, field (y.mention n) = field (x₂.mention n) := fun field h n =>
    (Context.mention_bindAs_apply field h ⟨1⟩ t n).trans
      (Context.mention_bindAs_apply field h ⟨0⟩ s n)
  have hplayer := hmention Mention.player fun _ _ => rfl
  have hleading := hmention Mention.leading fun _ _ => rfl
  have htrailing := hmention Mention.trailing fun _ _ => rfl
  refine ⟨c, y, perform_bind_eq_ok.2 ⟨[c], x, rfl, perform_bind_eq_ok.2 ⟨(), x₂, hidentify,
    perform_bind_eq_ok.2 ⟨(), y, hbind, rfl⟩⟩⟩, ?_, rfl, ?_, ?_⟩
  · exact (Context.vocabulary_bindAs ..).trans (Context.vocabulary_bindAs ..)
  · exact ⟨hplayer ⟨0⟩, hleading ⟨0⟩, htrailing ⟨0⟩⟩
  · exact ⟨hplayer ⟨1⟩, hleading ⟨1⟩, htrailing ⟨1⟩⟩

end Compile

namespace Session

/-- What entering clauses after any scripts makes of the vocabulary has evolved from the one without
constructs. -/
lemma evolves_enter (settings : Settings) (scripts : List String)
    (clauses : List Script.Clause) :
    Vocabulary.Evolves { name := settings.vocabulary }
      ((Compile.enter clauses).perform
        ((start settings).compileAll scripts).context).2.vocabulary :=
  Trans.trans (evolves_compileAll_start settings scripts)
    (Compile.evolving_enter clauses ((start settings).compileAll scripts).context).snd

/-- **Matching about kinds is sound and complete.** After any scripts, let clauses be entered. If
the ranking of a clause has a reading of a fact type about kinds, then the clause has two mentions,
and the type of the mention that takes the first role is a kind of the type of the other one,
directly or through others. Conversely, if one type is a kind of another, then the clause that says
so can be entered, and its ranking has such a reading.

**Proof sketch.** Such a fact type has a role for the lower type and one for the upper type. Only
steps downwards from the one and upwards from the other are taken. Conversely, the first edge on the
way from the one type to the other has a fact type, and the other one is reached from its upper type
by one step. -/
theorem kindOf_iff_ranked (settings : Settings) (scripts : List String) :
    let s := (start settings).compileAll scripts
    (∀ (clauses : List Script.Clause) (options : MatchOptions) (c : Clause),
      let x := ((Compile.enter clauses).perform s.context).2
      ∀ a ∈ (x.rank options c).alignments,
        (x.vocabulary.factType a.factType).isTypeInheritance →
          ∃ p q lower upper, a.placements.Perm [p, q] ∧
            (x.vocabulary.role p.role).ordinal = 0 ∧ (x.vocabulary.role q.role).ordinal = 1 ∧
            (x.mention p.mention).player = some lower ∧
            (x.mention q.mention).player = some upper ∧
            TransGen x.vocabulary.IsKindOf lower upper) ∧
      ∀ lower upper, TransGen s.vocabulary.IsKindOf lower upper →
        ∃ c x, (Compile.enter [Script.kindClause (s.vocabulary.nameOf lower)
            (s.vocabulary.nameOf upper)]).perform s.context = (.ok [c], x) ∧
          ∃ a ∈ (x.rank {} c).alignments,
            (x.vocabulary.factType a.factType).isTypeInheritance := by
  intro s
  constructor
  · intro clauses options c x a ha hkind
    have hevolves := evolves_enter settings scripts clauses
    exact Context.kindOf_of_mem_rank (consistent_enter settings scripts clauses).toWellFormed
      (hevolves.preserves (.empty _) Vocabulary.inherits_of_change) hevolves.kindsTold ha hkind
  · intro lower upper hkind
    have hs : s.vocabulary.WellFormed :=
      (consistent_compileAll (consistent_start settings) scripts).toWellFormed
    have hevolves : Vocabulary.Evolves { name := settings.vocabulary } s.vocabulary :=
      evolves_compileAll_start settings scripts
    have hkinds := hevolves.preserves (.empty _) Vocabulary.inherits_of_change
    have hfind : ∀ t ∈ s.vocabulary.objectTypeIds,
        s.vocabulary.findObjectType? (s.vocabulary.nameOf t) = some t := fun t ht =>
      (hs.findObjectType?_iff _ t).2 ⟨ht, rfl⟩
    obtain ⟨_, hfirst, -⟩ := TransGen.head'_iff.1 hkind
    obtain ⟨_, -, hlast⟩ := TransGen.tail'_iff.1 hkind
    obtain ⟨c, x, henter, hx, hphrases, hlower, hupper⟩ :=
      Compile.enter_kindClause s.settings.forwardTerms
        (hfind lower (hkinds.mem hfirst).1) (hfind upper (hkinds.mem hlast).2)
    refine ⟨c, x, henter, ?_⟩
    rw [← hx] at hs hkind hkinds
    exact Context.exists_mem_rank_of_kindOf hs hkinds (hx ▸ hevolves.kindsTold) hphrases hlower
      hupper hkind

/-- An employee is a kind of agent through persons, and the clause that says so has one mention for
each of the two. -/
theorem kindOf_iff_ranked_employee :
    let s := (start {}).compileAll
      ["entity type Agent; Person is a kind of Agent; Employee is a kind of Person;"]
    s.vocabulary.nameOf ⟨2⟩ = "Employee" ∧ s.vocabulary.nameOf ⟨0⟩ = "Agent" ∧
      TransGen s.vocabulary.IsKindOf ⟨2⟩ ⟨0⟩ ∧
      ∃ c x, (Compile.enter [Script.kindClause (s.vocabulary.nameOf ⟨2⟩)
          (s.vocabulary.nameOf ⟨0⟩)]).perform s.context = (.ok [c], x) ∧
        ∃ a ∈ (x.rank {} c).alignments, (x.vocabulary.factType a.factType).isTypeInheritance ∧
          ∃ p q lower upper, a.placements.Perm [p, q] ∧
            (x.mention p.mention).player = some lower ∧
            (x.mention q.mention).player = some upper ∧
            TransGen x.vocabulary.IsKindOf lower upper := by
  intro s
  have hfacts : s.vocabulary.nameOf ⟨2⟩ = "Employee" ∧ s.vocabulary.nameOf ⟨0⟩ = "Agent" ∧
      s.vocabulary.IsKindOf ⟨2⟩ ⟨1⟩ ∧ s.vocabulary.IsKindOf ⟨1⟩ ⟨0⟩ := by
    unfold Vocabulary.IsKindOf s
    rw [compileAll_cons, compile_ofList, compileAll_nil]
    decide +kernel
  have hkind : TransGen s.vocabulary.IsKindOf ⟨2⟩ ⟨0⟩ :=
    .tail (.single hfacts.2.2.1) hfacts.2.2.2
  obtain ⟨hsound, hcomplete⟩ := kindOf_iff_ranked {}
    ["entity type Agent; Person is a kind of Agent; Employee is a kind of Person;"]
  obtain ⟨c, x, henter, a, ha, htold⟩ := hcomplete ⟨2⟩ ⟨0⟩ hkind
  obtain rfl : _ = x := congrArg Prod.snd henter
  obtain ⟨p, q, lower, upper, hperm, -, -, hlower, hupper, hbelow⟩ := hsound _ {} c a ha htold
  exact ⟨hfacts.1, hfacts.2.1, hkind, c, _, henter, a, ha, htold, p, q, lower,
    upper, hperm, hlower, hupper, hbelow⟩

end Session

end FactModel
