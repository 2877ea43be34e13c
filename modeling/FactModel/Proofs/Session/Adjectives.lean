import Mathlib.Data.List.Perm.Subperm
import FactModel.Proofs.Matching.Adjectives
import FactModel.Proofs.Session.Entering
set_option autoImplicit false

/-!
# Clauses with one more word in an adjective

The mentions of one individual have the same adjectives. Where all of them get one more word that
stands in no other adjective, they are still mentions of one individual, and no others are. So
whatever the clauses invoke with the word they invoke without it, at no higher cost.

## Main definitions

* `FactModel.Compile.identifyAndBind` — finds the players of mentions and binds them.
* `FactModel.Context.withAdjectives` — a context with other adjectives for certain mentions.

## Main results

* `FactModel.Compile.blind_identifyPlayers` — players do not depend on adjectives.
* `FactModel.align_cost_le` — a word put into an adjective lowers no cost.
-/

namespace FactModel

open Attempt Compile

namespace Context

variable {x y : Context} {ms : List MentionId} {leading trailing : Option String}

/-- The context with other adjectives for certain mentions. -/
def withAdjectives (x : Context) (ms : List MentionId) (leading trailing : Option String) :
    Context :=
  { x with mentions := x.mentions.mapIdx fun i m =>
      if (⟨i⟩ : MentionId) ∈ ms then { m with leading, trailing } else m }

/-- Other adjectives change certain mentions only. -/
lemma mention_withAdjectives (m : MentionId) :
    (x.withAdjectives ms leading trailing).mention m =
      if m ∈ ms ∧ m.index < x.mentions.size then { x.mention m with leading, trailing }
      else x.mention m := by
  simp only [mention, withAdjectives, Array.getElem?_mapIdx]
  by_cases hm : m.index < x.mentions.size
  · rw [Array.getElem?_eq_getElem hm, Option.map_some, Option.getD_some, Option.getD_some]
    simp only [hm, and_true]
  · rw [Array.getElem?_eq_none (Nat.le_of_not_lt hm)]
    simp [hm]

/-- Other adjectives leave alone whatever is not made of them. -/
lemma mention_withAdjectives_apply {α : Type} (field : Mention → α)
    (h : ∀ mention, field { mention with leading, trailing } = field mention) (m : MentionId) :
    field ((x.withAdjectives ms leading trailing).mention m) = field (x.mention m) := by
  rw [mention_withAdjectives]
  split
  · exact h _
  · rfl

/-- Other adjectives bind nothing. -/
lemma Unbound.withAdjectives (h : x.Unbound) :
    (x.withAdjectives ms leading trailing).Unbound where
  binding?_eq := h.binding?_eq
  binding_eq m := (mention_withAdjectives_apply (·.binding) (fun _ => rfl) m).trans (h.binding_eq m)
  bindingOf?_eq := h.bindingOf?_eq

/-- A change of a mention that does not touch adjectives may come before or after other
adjectives. -/
lemma withAdjectives_modifyMention (m : MentionId) {change : Mention → Mention}
    (h : ∀ mention, change { mention with leading, trailing } =
      { change mention with leading, trailing }) :
    (x.modifyMention m change).withAdjectives ms leading trailing =
      (x.withAdjectives ms leading trailing).modifyMention m change := by
  refine congrArg (fun mentions => { x with mentions }) (Array.ext_getElem? fun i => ?_)
  simp only [modifyMention, withAdjectives, Array.getElem?_mapIdx, Array.getElem?_modify]
  by_cases hi : m.index = i
  · simp only [hi, if_true, Option.map_map]
    refine congrArg (Option.map · x.mentions[i]?) (funext fun mention => ?_)
    by_cases hmem : (⟨i⟩ : MentionId) ∈ ms
    · simp [hmem, h]
    · simp [hmem]
  · simp [hi]

end Context

open Context

namespace Compile

variable {α β : Type} {ms : List MentionId} {leading trailing : Option String} {x y : Context}

/-! ## Players -/

/-- A change that does the same whichever adjectives certain mentions have. -/
def IsBlind (ms : List MentionId) (leading trailing : Option String) (change : Compile α) : Prop :=
  ∀ x, change.perform (x.withAdjectives ms leading trailing) =
    ((change.perform x).1, (change.perform x).2.withAdjectives ms leading trailing)

/-- A value is the same whichever adjectives there are. -/
lemma blind_pure (a : α) : IsBlind ms leading trailing (pure a : Compile α) :=
  fun _ => rfl

/-- What is blind to adjectives may be followed by what is. -/
lemma IsBlind.bind {change : Compile α} {next : α → Compile β}
    (h : IsBlind ms leading trailing change)
    (hnext : ∀ a, IsBlind ms leading trailing (next a)) :
    IsBlind ms leading trailing (change >>= next) := by
  intro x
  rw [perform_bind, perform_bind, h x]
  rcases change.perform x with ⟨fault | a, y⟩
  · rfl
  · exact hnext a y

/-- Changes in turn are blind to adjectives if each is. -/
lemma IsBlind.forM {ι : Type} {f : ι → Compile PUnit} {is : List ι}
    (h : ∀ i ∈ is, IsBlind ms leading trailing (f i)) :
    IsBlind ms leading trailing (is.forM f) := by
  induction is with
  | nil => exact blind_pure _
  | cons i is ih =>
    exact (h i List.mem_cons_self).bind fun _ => ih fun j hj => h j (List.mem_cons_of_mem i hj)

/-- Finding the object type of a term is blind to adjectives. -/
lemma blind_resolvePlayer (term : String) :
    IsBlind ms leading trailing (resolvePlayer term) := by
  intro x
  unfold resolvePlayer
  have hnames : (x.withAdjectives ms leading trailing).roleNamePlayers = x.roleNamePlayers := rfl
  have hterms : (x.withAdjectives ms leading trailing).forwardTerms = x.forwardTerms := rfl
  have hvocabulary : (x.withAdjectives ms leading trailing).vocabulary = x.vocabulary := rfl
  rw [perform_get_bind, perform_get_bind, hnames, hterms, hvocabulary]
  cases x.vocabulary.findObjectType? term with
  | some player => rfl
  | none =>
    cases x.roleNamePlayers.lookup term with
    | some player => rfl
    | none =>
      dsimp only
      split
      · have hedit : IsBlind ms leading trailing (edit (Vocabulary.addForwardEntityType term)) :=
          fun _ => rfl
        exact hedit.bind (fun _ => blind_pure _) x
      · rfl

/-- A change of a mention that does not touch adjectives is blind to them. -/
lemma blind_modifyMention (m : MentionId) {change : Mention → Mention}
    (h : ∀ mention, change { mention with leading, trailing } =
      { change mention with leading, trailing }) :
    IsBlind ms leading trailing (modifyMention m change) := by
  intro x
  show ((.ok ⟨⟩, (x.withAdjectives ms leading trailing).modifyMention m change) :
    Except Fault PUnit × Context) =
      (.ok ⟨⟩, (x.modifyMention m change).withAdjectives ms leading trailing)
  rw [withAdjectives_modifyMention m h]

/-- Finding the player of a mention is blind to adjectives. -/
lemma blind_identifyPlain (m : MentionId) : IsBlind ms leading trailing (identifyPlain m) := by
  intro x
  unfold identifyPlain
  rw [perform_get_bind, perform_get_bind, mention_withAdjectives_apply (·.term) fun _ => rfl]
  exact (blind_resolvePlayer _).bind (fun _ => blind_modifyMention m fun _ => rfl) x

/-- A mention that declares a role name must have no adjectives. -/
lemma blind_identifyDeclaring {m : MentionId} (hm : m ∉ ms) (roleName : String) :
    IsBlind ms leading trailing (identifyDeclaring m roleName) := by
  intro x
  have hmention : (x.withAdjectives ms leading trailing).mention m = x.mention m := by
    rw [mention_withAdjectives, if_neg fun h => hm h.1]
  unfold identifyDeclaring
  rw [perform_get_bind, perform_get_bind, hmention]
  dsimp only
  split
  · rfl
  · refine (blind_resolvePlayer _).bind (fun player => ?_) x
    refine IsBlind.bind (fun _ => rfl) fun _ => blind_modifyMention m fun _ => rfl

/-- Finding players does not depend on the adjectives of mentions without role names. -/
theorem blind_identifyPlayers (cs : List Clause) (hnone : ∀ m ∈ ms, (x.mention m).roleName = none) :
    (identifyPlayers cs).perform (x.withAdjectives ms leading trailing) =
      (((identifyPlayers cs).perform x).1,
        ((identifyPlayers cs).perform x).2.withAdjectives ms leading trailing) := by
  have hdeclared : ∀ m, ((x.withAdjectives ms leading trailing).mention m).declaredName? =
      (x.mention m).declaredName? := mention_withAdjectives_apply (·.declaredName?) fun _ => rfl
  unfold identifyPlayers
  rw [perform_get_bind, perform_get_bind]
  simp only [hdeclared]
  refine (IsBlind.forM fun m _ => ?_).bind (fun _ => IsBlind.forM fun m _ => ?_) x
  · split
    · next roleName hroleName =>
      refine blind_identifyDeclaring (fun hm => ?_) roleName
      rw [Mention.declaredName?, hnone m hm] at hroleName
      cases hroleName
    · exact blind_pure _
  · split
    · exact blind_pure _
    · exact blind_identifyPlain m

/-! ## Bindings -/

/-- Finding players changes no adjectives and no role names. -/
def SameWording (x y : Context) : Prop :=
  ∀ m, (y.mention m).leading = (x.mention m).leading ∧
    (y.mention m).trailing = (x.mention m).trailing ∧
    (y.mention m).roleName = (x.mention m).roleName

instance : Trans SameWording SameWording SameWording where
  trans h h' m := ⟨(h' m).1.trans (h m).1, (h' m).2.1.trans (h m).2.1, (h' m).2.2.trans (h m).2.2⟩

/-- The wording of a context is the same. -/
lemma sameWording_refl (x : Context) : SameWording x x :=
  fun _ => ⟨rfl, rfl, rfl⟩

/-- A change of a mention that keeps adjectives and role name keeps the wording. -/
lemma sameWording_modifyMention (m : MentionId) (change : Mention → Mention)
    (h : ∀ mention, (change mention).leading = mention.leading ∧
      (change mention).trailing = mention.trailing ∧ (change mention).roleName = mention.roleName) :
    SameWording x (x.modifyMention m change) := fun n =>
  ⟨mention_modifyMention_apply (·.leading) m (fun mention => (h mention).1) n,
    mention_modifyMention_apply (·.trailing) m (fun mention => (h mention).2.1) n,
    mention_modifyMention_apply (·.roleName) m (fun mention => (h mention).2.2) n⟩

/-- Finding players keeps the wording. -/
lemma sameWording_identifyPlayers {cs : List Clause} {u : Unit}
    (h : (identifyPlayers cs).perform x = (.ok u, y)) : SameWording x y := by
  have hplayer : ∀ term (z : Context), (resolvePlayer term).Leads SameWording z fun _ _ =>
    True := by
    intro term z
    refine leads_get_bind ?_
    split
    · exact leads_pure (sameWording_refl z) trivial
    split
    · exact leads_pure (sameWording_refl z) trivial
    split
    · have hedit : (edit (Vocabulary.addForwardEntityType term)).Leads SameWording z fun _ _ =>
        True :=
        Leads.within (leads_true _ _) (fun _ _ => sameWording_refl z) fun _ _ _ _ => trivial
      exact Leads.bind hedit fun _ w _ _ => leads_pure (sameWording_refl w) trivial
    · exact leads_throw (sameWording_refl z)
  have hdeclaring : ∀ m roleName, (identifyDeclaring m roleName).Keeps SameWording := by
    intro m roleName z _
    refine leads_get_bind ?_
    dsimp only
    split
    · exact leads_throw_bind (sameWording_refl z)
    · refine Leads.bind (hplayer _ z) fun player w _ _ => leads_modify_bind (sameWording_refl w) ?_
      exact leads_modify (sameWording_modifyMention m _ fun _ => ⟨rfl, rfl, rfl⟩) trivial
  have hplain : ∀ m, (identifyPlain m).Keeps SameWording := by
    intro m z _
    refine leads_get_bind (Leads.bind (hplayer _ z) fun player w _ _ => ?_)
    exact leads_modify (sameWording_modifyMention m _ fun _ => ⟨rfl, rfl, rfl⟩) trivial
  exact (((composes_keeps fun {_ y} _ => sameWording_refl y).identifyPlayers hdeclaring hplain cs
    (sameWording_refl x)).of_perform h).1

/-- What binding mentions one after the other changes: they are bound, and nothing else is. -/
structure BindsEach (ms : List MentionId) (x y : Context) : Prop where
  vocabulary_eq : y.vocabulary = x.vocabulary
  size_eq : y.mentions.size = x.mentions.size
  mention_eq : ∀ m, y.mention m = { x.mention m with binding := (y.mention m).binding }
  isSome_iff : ∀ m, (y.mention m).binding.isSome ↔ m ∈ ms ∨ (x.mention m).binding.isSome

/-- Binding mentions, one after the other, binds each and changes nothing else. -/
lemma bindsEach_of_bindEach {ms : List MentionId} {u : Unit}
    (h : (bindEach ms).perform x = (.ok u, y)) : BindsEach ms x y := by
  induction ms generalizing x with
  | nil =>
    cases h
    exact ⟨rfl, rfl, fun _ => rfl, fun _ => by simp⟩
  | cons m ms ih =>
    obtain ⟨b, z, hbind, hrest⟩ := perform_bind_eq_ok.1 h
    obtain ⟨player, hplayer, hbind⟩ := perform_bind_mention_eq_ok.1 hbind
    obtain rfl : (x.bindAs m player).2 = z := congrArg Prod.snd hbind
    have hlater := ih hrest
    have hmention := mention_bindAs (lt_of_player hplayer) player
    refine ⟨hlater.vocabulary_eq.trans (vocabulary_bindAs ..),
      hlater.size_eq.trans (size_bindAs ..),
      fun n => ?_, fun n => ?_⟩
    · rw [hlater.mention_eq, hmention]
      split
      · next hn => rw [hn]
      · rfl
    · rw [hlater.isSome_iff, hmention, List.mem_cons]
      by_cases hn : n = m
      · simp [hn]
      · simp [hn]

/-- Finds the players of the mentions of clauses and binds the mentions. -/
def identifyAndBind (cs : List Clause) : Compile Unit := do
  identifyPlayers cs
  bindClauses cs

/-- Finding players binds nothing. -/
lemma unbound_of_identifyPlayers {cs : List Clause} (hx : x.Unbound) {u : Unit}
    (h : (identifyPlayers cs).perform x = (.ok u, y)) : y.Unbound :=
  (((composes_keeps (R := Unbound.Stays) fun h => h).identifyPlayers
    (fun m name _ h => Unbound.leads_identifyDeclaring h m name)
    (fun m _ h => Unbound.leads_identifyPlain h m) cs hx).of_perform h).1

/-- Once clauses have been bound, the context is bound. -/
lemma bound_of_bindClauses {cs : List Clause} (hx : x.Unbound) {u : Unit}
    (h : (bindClauses cs).perform x = (.ok u, y)) : y.Bound :=
  (((composes_keeps (R := BecomesBound) fun h => h).bindClauses
    (fun m _ h => leads_bind_bound h m) cs
    hx.bound).of_perform h).1

end Compile

/-! ## Keys -/

namespace Context

variable {x y : Context}

/-- A key without a role name is made of the adjectives, the term and the literal of a mention. -/
lemma bindingKey_eq_adjectival_iff {m : MentionId} {leading trailing : Option String}
    {term : String}
    {literal : Option Literal} :
    x.bindingKey m = .adjectival leading term trailing literal ↔
      ((x.mention m).playerByRoleName = true → (x.mention m).player = none) ∧
        (x.mention m).roleName = none ∧ (x.mention m).leading = leading ∧
        (x.mention m).term = term ∧ (x.mention m).trailing = trailing ∧
        (x.mention m).literal = literal := by
  unfold bindingKey
  dsimp only
  constructor
  · intro h
    split at h
    · cases h
    · cases h
    · next hnone hplayer =>
      obtain ⟨rfl, rfl, rfl, rfl⟩ := BindingKey.adjectival.inj h
      refine ⟨fun hname => ?_, hnone, rfl, rfl, rfl, rfl⟩
      rcases hsome : (x.mention m).player with _ | player
      · rfl
      · exact absurd hsome (hplayer player hname)
  · rintro ⟨hplayer, hnone, rfl, rfl, rfl, rfl⟩
    split
    · next player hname hsome =>
      rw [hplayer hname] at hsome
      cases hsome
    · next hsome _ =>
      rw [hnone] at hsome
      cases hsome
    · rfl

/-- Fewer mentions share a binding where equal keys were equal before. -/
lemma shareCount_le_of_keys (hx : x.Bound) (hy : y.Bound)
    (hbound : ∀ m, (y.mention m).binding.isSome → (x.mention m).binding.isSome)
    (hkey : ∀ m n, (y.mention m).binding.isSome → (y.mention n).binding.isSome →
      y.bindingKey m = y.bindingKey n → x.bindingKey m = x.bindingKey n) (m : MentionId) :
    y.shareCount m ≤ x.shareCount m := by
  unfold shareCount
  rcases hm : (y.mention m).binding with _ | b'
  · exact Nat.zero_le _
  obtain ⟨B', hB', hmem'⟩ := (hy.binding_iff m b').1 hm
  have hsome : (y.mention m).binding.isSome := by rw [hm]; rfl
  obtain ⟨b, hb⟩ := Option.isSome_iff_exists.1 (hbound m hsome)
  obtain ⟨B, hB, -⟩ := (hx.binding_iff m b).1 hb
  rw [hb, Option.bind_some, Option.bind_some, hB, hB', Option.map_some, Option.map_some,
    Option.getD_some, Option.getD_some]
  refine (List.subperm_of_subset (hy.mentions_nodup hB') fun n hn => ?_).length_le
  have hn' : (y.mention n).binding = some b' := (hy.binding_iff n b').2 ⟨B', hB', hn⟩
  have hnSome : (y.mention n).binding.isSome := by rw [hn']; rfl
  have hsame : y.bindingKey n = y.bindingKey m := by
    rw [hy.bindingKey_eq hB' hn, hy.bindingKey_eq hB' hmem']
  have hbinding :=
    (hx.binding_eq_iff (hbound n hnSome) (hbound m hsome)).2 (hkey n m hnSome hsome hsame)
  obtain ⟨C, hC, hnC⟩ := (hx.binding_iff n b).1 (hbinding.trans hb)
  rw [hB, Option.some.injEq] at hC
  exact hC ▸ hnC

end Context

/-- **A word put into an adjective lowers no cost.** Let the mentions of some clauses be found
players and bound, and let a word stand in none of their adjectives. If the word is put in at one
place of the leading or of the trailing adjective of all mentions of one individual, which has
neither a role name nor a subscript, every reading without the word that then matches a clause also
matched it before, at no higher cost.

**Proof sketch.** Players do not depend on adjectives. No other mention has the word, so that the
same mentions are bound together. Where the word is left over by a role, so is the rest of the
adjective without it, if any; and a role accounts for no adjective with the word in any other
way. -/
theorem align_cost_le {x y y' : Context} {cs : List Clause} {w : String} {b : BindingId}
    {B : Binding}
    {leading trailing leading' trailing' : Option String} {term : String} {literal : Option Literal}
    (hx : x.Unbound) (hy : (identifyAndBind cs).perform x = (.ok (), y))
    (hw : ∀ m ∈ allMentions cs, w ∉ Adjective.words (x.mention m).leading ∧
      w ∉ Adjective.words (x.mention m).trailing)
    (hB : y.binding? b = some B) (hkey : B.key = .adjectival leading term trailing literal)
    (hinsert : Adjective.Inserts w leading leading' ∧ trailing' = trailing ∨
      leading' = leading ∧ Adjective.Inserts w trailing trailing')
    (hy' : (identifyAndBind cs).perform (x.withAdjectives B.mentions leading' trailing') =
      (.ok (), y'))
    {options : MatchOptions} {c : Clause} {r : ReadingId} {a' : Alignment}
    (hr : ∀ ref ∈ y.vocabulary.readingRefs r, w ∉ Adjective.words ref.leading ∧
      w ∉ Adjective.words ref.trailing)
    (ha' : y'.align options c r = .ok a') :
    ∃ a, y.align options c r = .ok a ∧ a.cost ≤ a'.cost := by
  obtain ⟨_, z, hidentify, hbind⟩ := perform_bind_eq_ok.1 hy
  obtain ⟨_, z', hidentify', hbind'⟩ := perform_bind_eq_ok.1 hy'
  have hwording := sameWording_identifyPlayers hidentify
  have hz := unbound_of_identifyPlayers hx hidentify
  have hbound := bound_of_bindClauses hz hbind
  have heach := bindsEach_of_bindEach (bindEach_of_bindClauses cs hbind)
  have hsome : ∀ m, (y.mention m).binding.isSome ↔ m ∈ allMentions cs := fun m => by
    rw [heach.isSome_iff, hz.binding_eq]
    simp
  -- the mentions of the individual have neither a role name nor a subscript
  have hmem : ∀ m ∈ B.mentions, m ∈ allMentions cs := fun m hm =>
    (hsome m).1 (Option.isSome_iff_exists.2 ⟨b, (hbound.binding_iff m b).2 ⟨B, hB, hm⟩⟩)
  have hkeyOf : ∀ m ∈ B.mentions, y.bindingKey m = .adjectival leading term trailing literal :=
    fun m hm => (hbound.bindingKey_eq hB hm).trans hkey
  have hnone : ∀ m ∈ B.mentions, (x.mention m).roleName = none := by
    intro m hm
    rw [← (hwording m).2.2, ← (bindingKey_eq_adjectival_iff.1 (hkeyOf m hm)).2.1, heach.mention_eq]
  -- the players are the same
  rw [blind_identifyPlayers cs hnone, hidentify] at hidentify'
  obtain rfl : z.withAdjectives B.mentions leading' trailing' = z' := congrArg Prod.snd hidentify'
  have hbound' := bound_of_bindClauses hz.withAdjectives hbind'
  have heach' := bindsEach_of_bindEach (bindEach_of_bindClauses cs hbind')
  have hsome' : ∀ m, (y'.mention m).binding.isSome ↔ m ∈ allMentions cs := fun m => by
    rw [heach'.isSome_iff, hz.withAdjectives.binding_eq]
    simp
  have hvocabulary : y'.vocabulary = y.vocabulary :=
    heach'.vocabulary_eq.trans heach.vocabulary_eq.symm
  have hother : ∀ m, m ∉ B.mentions → y'.mention m =
      { y.mention m with binding := (y'.mention m).binding } := by
    intro m hm
    rw [heach'.mention_eq, heach.mention_eq, mention_withAdjectives, if_neg fun h => hm h.1]
  have hchanged : ∀ m ∈ B.mentions, y'.mention m =
      { y.mention m with
        leading := leading', trailing := trailing', binding := (y'.mention m).binding } := by
    intro m hm
    have hlt : m.index < z.mentions.size :=
      heach.size_eq ▸ index_lt_of_binding ((hsome m).2 (hmem m hm))
    rw [heach'.mention_eq, heach.mention_eq, mention_withAdjectives, if_pos ⟨hm, hlt⟩]
  have hkeyOf' : ∀ m ∈ B.mentions,
    y'.bindingKey m = .adjectival leading' term trailing' literal := by
    intro m hm
    obtain ⟨hplayer, hroleName, -, hterm, -, hliteral⟩ :=
      bindingKey_eq_adjectival_iff.1 (hkeyOf m hm)
    rw [bindingKey_eq_adjectival_iff, hchanged m hm]
    exact ⟨hplayer, hroleName, rfl, hterm, rfl, hliteral⟩
  have hkeyOther : ∀ m, m ∉ B.mentions → y'.bindingKey m = y.bindingKey m := fun m hm =>
    bindingKey_congr (fun t => by rw [hvocabulary]) (by rw [hother m hm])
  -- no other mention has the word, so that the same mentions are bound together
  have hfresh : ∀ m ∈ allMentions cs, m ∉ B.mentions →
      y'.bindingKey m ≠ .adjectival leading' term trailing' literal := by
    intro m hm hnot heq
    obtain ⟨-, -, hleading, -, htrailing, -⟩ := bindingKey_eq_adjectival_iff.1 heq
    rw [hother m hnot, heach.mention_eq] at hleading htrailing
    obtain ⟨hwLeading, hwTrailing⟩ := hw m hm
    rcases hinsert with ⟨⟨front, back, -, hafter⟩, -⟩ | ⟨-, front, back, -, hafter⟩
    · rw [← (hwording m).1, show (z.mention m).leading = leading' from hleading,
        hafter] at hwLeading
      simp at hwLeading
    · rw [← (hwording m).2.1, show (z.mention m).trailing = trailing' from htrailing, hafter]
        at hwTrailing
      simp at hwTrailing
  have hshare := shareCount_le_of_keys hbound hbound' (fun m hm => (hsome m).2 ((hsome' m).1 hm))
    fun m n hm hn heq => by
      rw [hsome'] at hm hn
      by_cases hmB : m ∈ B.mentions
      · by_cases hnB : n ∈ B.mentions
        · rw [hkeyOf m hmB, hkeyOf n hnB]
        · exact absurd (heq ▸ hkeyOf' m hmB) (hfresh n hn hnB)
      · by_cases hnB : n ∈ B.mentions
        · exact absurd (heq ▸ hkeyOf' n hnB) (hfresh m hm hmB)
        · rw [← hkeyOther m hmB, ← hkeyOther n hnB, heq]
  have hplainer : y.Plainer w y' := by
    refine ⟨hvocabulary, fun m => ?_, hshare, fun m => ?_, fun m => ?_⟩
    · by_cases hm : m ∈ B.mentions
      · rw [hchanged m hm]
      · rw [hother m hm]
    · by_cases hm : m ∈ B.mentions
      · obtain ⟨-, -, hleading, -⟩ := bindingKey_eq_adjectival_iff.1 (hkeyOf m hm)
        rw [hchanged m hm, hleading]
        exact hinsert.elim (fun h => .inr h.1) fun h => .inl h.1
      · exact .inl (by rw [hother m hm])
    · by_cases hm : m ∈ B.mentions
      · obtain ⟨-, -, -, -, htrailing, -⟩ := bindingKey_eq_adjectival_iff.1 (hkeyOf m hm)
        rw [hchanged m hm, htrailing]
        exact hinsert.elim (fun h => .inl h.2) fun h => .inr h.2
      · exact .inl (by rw [hother m hm])
  exact hplainer.align (fun ref href => (hr ref href).1) (fun ref href => (hr ref href).2) ha'

/-- Two mentions of `Name` become mentions of `spare- Name`. -/
theorem align_cost_le_spare :
    let clause (word : String) : Script.Clause :=
      { phrases := [.mention { term := "Person" }, .word word, .mention { term := "Name" }] }
    let s := ((Session.start {}).declareAll
      [.entityType "Person", .entityType "Name", .factType [clause "has"]]).2
    let adopted := adoptAll [clause "has", clause "owns"] s.context
    let y := ((identifyAndBind adopted.1).perform adopted.2).2
    let y' := ((identifyAndBind adopted.1).perform
      (adopted.2.withAdjectives [⟨1⟩, ⟨3⟩] (some "spare") none)).2
    let c := adopted.1.headD default
    ∃ a', y'.align {} c ⟨0⟩ = .ok a' ∧ a'.cost = 1 ∧
      ∃ a, y.align {} c ⟨0⟩ = .ok a ∧ a.cost ≤ a'.cost := by
  intro clause s adopted y y' c
  let B : Binding :=
    { id := ⟨1⟩, key := .adjectival none "Name" none none, player := ⟨1⟩, roleName := none
      literal := none, mentions := [⟨1⟩, ⟨3⟩] }
  have hcomputed : ((((identifyAndBind adopted.1).perform adopted.2).1.toOption = some () ∧
      ((identifyAndBind adopted.1).perform
        (adopted.2.withAdjectives [⟨1⟩, ⟨3⟩] (some "spare") none)).1.toOption = some ()) ∧
      y.binding? ⟨1⟩ = some B ∧ (y'.align {} c ⟨0⟩).toOption.map (·.cost) = some 1) ∧
      (∀ m ∈ allMentions adopted.1, "spare" ∉ Adjective.words (adopted.2.mention m).leading ∧
        "spare" ∉ Adjective.words (adopted.2.mention m).trailing) ∧
      ∀ ref ∈ y.vocabulary.readingRefs ⟨0⟩, "spare" ∉ Adjective.words ref.leading ∧
        "spare" ∉ Adjective.words ref.trailing := by
    decide +kernel
  obtain ⟨⟨⟨hy, hy'⟩, hB, hcost⟩, hw, hr⟩ := hcomputed
  have hx : adopted.2.Unbound :=
    (Unbound.of_declaration s.vocabulary s.settings.forwardTerms).of_adopts
      (adopts_adoptAll [clause "has", clause "owns"] s.context)
  clear_value adopted
  have hrun : (identifyAndBind adopted.1).perform adopted.2 = (.ok (), y) :=
    Prod.ext (eq_ok_of_toOption hy) rfl
  have hrun' : (identifyAndBind adopted.1).perform
      (adopted.2.withAdjectives B.mentions (some "spare") none) = (.ok (), y') :=
    Prod.ext (eq_ok_of_toOption hy') rfl
  obtain ⟨a', ha', hcost⟩ := Option.map_eq_some_iff.1 hcost
  have hinserts : Adjective.Inserts "spare" none (some "spare") := ⟨[], [], rfl, by decide +kernel⟩
  rw [toOption_align_eq_some] at ha'
  exact ⟨a', ha', hcost, align_cost_le hx hrun hw hB rfl (.inl ⟨hinserts, rfl⟩) hrun' hr ha'⟩

end FactModel
