import FactModel.Proofs.Session.Growth
import FactModel.Proofs.Vocabulary.Sparing
set_option autoImplicit false

/-!
# Links mirror roles

A link relates the type that objectifies a fact type to the player of one of its roles. The link is
added when a join graph needs it for the first time, and its roles are those of these players for
ever, since types and roles stay what they are.

## Main definitions

* `FactModel.Vocabulary.MirrorsRole` — a fact type relates a type to the player of a role.
* `FactModel.Vocabulary.LinksMirror` — every link does so for what it links.
* `FactModel.Vocabulary.Unlinked` — no link has been added.

## Main results

* `FactModel.Vocabulary.Evolves.linksMirror` — other changes leave it so.
* `FactModel.Vocabulary.ends_linkFactType` — the link of a type and a role that exists mirrors it.
-/

namespace FactModel.Vocabulary

open Attempt

variable {v w : Vocabulary} {f : FactTypeId} {t : ObjectTypeId} {r : RoleId}

/-- A fact type has two roles, one for a type and one for what plays a role that exists. -/
structure MirrorsRole (v : Vocabulary) (f : FactTypeId) (t : ObjectTypeId) (r : RoleId) : Prop where
  mirrored_mem : r ∈ v.roleIds
  roles : ∃ first second, (v.factType f).roles = [first, second] ∧ first ∈ v.roleIds ∧
    second ∈ v.roleIds ∧ v.playerOf first = t ∧ v.playerOf second = v.playerOf r

/-- Every link mirrors the role that it is a link to. -/
def LinksMirror (v : Vocabulary) : Prop :=
  ∀ f ∈ v.factTypeIds, ∀ t r, (v.factType f).kind = .link t r → v.MirrorsRole f t r

/-- A fact type that mirrors a role does so for ever. -/
lemma MirrorsRole.retains (h : v.MirrorsRole f t r) (hf : f ∈ v.factTypeIds) (hw : v.Retains w) :
    w.MirrorsRole f t r := by
  obtain ⟨first, second, hroles, hfirst, hsecond, htype, hplayer⟩ := h.roles
  refine ⟨hw.mem_roleIds h.mirrored_mem, first, second, (hw.roles_eq f hf).trans hroles,
    hw.mem_roleIds hfirst, hw.mem_roleIds hsecond, ?_, ?_⟩
  · rw [hw.playerOf_eq hfirst, htype]
  · rw [hw.playerOf_eq hsecond, hplayer, hw.playerOf_eq h.mirrored_mem]

/-- A vocabulary that retains another one has, beyond its links, those that mirror roles. -/
lemma LinksMirror.retains (h : v.LinksMirror) (hw : v.Retains w)
    (hnew : ∀ f ∈ w.factTypeIds, f ∉ v.factTypeIds → ∀ t r, (w.factType f).kind = .link t r →
      w.MirrorsRole f t r) : w.LinksMirror := by
  intro f hf t r hkind
  by_cases hold : f ∈ v.factTypeIds
  · exact (h f hold t r ((hw.factType hold).kind_eq.symm.trans hkind)).retains hold hw
  · exact hnew f hf hold t r hkind

/-! ## Changes -/

/-- A change adds a link only where it indexes it. -/
lemma kind_ne_link_of_change (h : Change v w) (hlinks : w.links = v.links) (hf : f ∈ w.factTypeIds)
    (hnew : f ∉ v.factTypeIds) (t : ObjectTypeId) (r : RoleId) :
    (w.factType f).kind ≠ .link t r := by
  have hsame : w.factTypeIds = v.factTypeIds → (w.factType f).kind ≠ .link t r :=
    fun hids => absurd (hids ▸ hf) hnew
  have hbinary : ∀ {kind first second text} {links comparisons},
      f ∈ { v.withBinary kind first second text with links, comparisons }.factTypeIds →
        ({ v.withBinary kind first second text with links, comparisons }.factType f).kind =
          kind := by
    intro kind first second text links comparisons hmem
    have hf := ((v.mem_factTypeIds_withBinary kind first second text f).1 hmem).resolve_right hnew
    change ((v.withBinary kind first second text).factType f).kind = kind
    rw [factType_withBinary, if_pos hf]
  cases h with
  | objectType kind isForward _ => exact hsame rfl
  | declared isForward _ => exact hsame rfl
  | @subtype a b _ _ _ _ =>
    rw [factType_withSubtype_kind,
      if_pos ((mem_factTypeIds_withSubtype ..).1 hf |>.resolve_right hnew)]
    exact FactTypeKind.noConfusion
  | objectification _ _ => exact hsame (factTypeIds_linkObjectification ..)
  | factType players =>
    rw [factTypeIds_withFactType, mem_factTypeIds_pushFactType] at hf
    rw [factType_withFactType_apply v players FactType.kind fun _ _ => rfl, factType_pushFactType,
      if_pos (hf.resolve_right hnew)]
    exact FactTypeKind.noConfusion
  | roleSequence refs => exact hsame rfl
  | reading _ => exact hsame (factTypeIds_pushReading ..)
  | roleName name _ => exact hsame rfl
  | derivation g q => exact hsame (factTypeIds_modifyFactType ..)
  | query g => exact hsame rfl
  | link _ => exact absurd hlinks (List.cons_ne_self _ _)
  | comparison _ =>
    rw [hbinary hf]
    exact FactTypeKind.noConfusion
  | presenceConstraint s min max enforcement => exact hsame rfl
  | restriction _ _ => exact hsame rfl
  | ringConstraint role otherRole kinds => exact hsame rfl

/-- A change takes no links out of the index. -/
lemma links_suffix_of_change (h : Change v w) : v.links <:+ w.links := by
  have hsame : w.links = v.links → v.links <:+ w.links := fun heq => heq ▸ List.suffix_rfl
  cases h with
  | subtype _ _ _ _ => exact hsame (spares_withSubtype ..).links_eq
  | factType players => exact hsame (spares_withFactType _ players).links_eq
  | link _ => exact List.suffix_cons ..
  | objectType kind isForward _ => exact hsame rfl
  | declared isForward _ => exact hsame rfl
  | objectification _ _ => exact hsame rfl
  | roleSequence refs => exact hsame rfl
  | reading _ => exact hsame rfl
  | roleName name _ => exact hsame rfl
  | derivation g q => exact hsame rfl
  | query g => exact hsame rfl
  | comparison _ => exact hsame rfl
  | presenceConstraint s min max enforcement => exact hsame rfl
  | restriction _ _ => exact hsame rfl
  | ringConstraint role otherRole kinds => exact hsame rfl

/-- Changes in sequence take no links out of the index. -/
lemma Evolves.links_suffix (h : v.Evolves w) : v.links <:+ w.links :=
  h.of_change (R := fun v w => v.links <:+ w.links) (fun _ => List.suffix_rfl) List.IsSuffix.trans
    links_suffix_of_change

/-- Changes that add no link leave every link mirroring its role. -/
theorem Evolves.linksMirror (h : v.Evolves w) (hlinks : w.links = v.links) (hv : v.LinksMirror) :
    w.LinksMirror := by
  induction h with
  | refl => exact hv
  | @tail u w hvu huw ih =>
    have hsuffix := links_suffix_of_change huw
    rw [hlinks] at hsuffix
    have hu : u.links = v.links :=
      hsuffix.eq_of_length_le (Evolves.links_suffix hvu).length_le
    exact (ih hu).retains (retains_of_change huw) fun f hf hnew t r hkind =>
      absurd hkind (kind_ne_link_of_change huw (hlinks.trans hu.symm) hf hnew t r)

/-! ## Edits -/

/-- No link has been added. -/
def Unlinked (v w : Vocabulary) : Prop :=
  w.links = v.links

/-- Changing nothing adds no links. -/
lemma Unlinked.refl (v : Vocabulary) : v.Unlinked v :=
  rfl

instance : Trans Unlinked Unlinked Unlinked :=
  ⟨fun h h' => Eq.trans h' h⟩

/-- What spares links and constraints adds no link. -/
lemma Spares.unlinked (h : v.Spares w) : v.Unlinked w :=
  h.links_eq

/-- Restricting a presence constraint adds no links. -/
lemma unlinked_restrictPresenceConstraint (v : Vocabulary) (c : PresenceConstraintId)
    (min max : Option Nat) :
    (restrictPresenceConstraint c min max).Leads Unlinked v fun _ _ => True := by
  refine leads_get_bind ?_
  dsimp only
  split
  · exact leads_throw_bind rfl
  split
  · exact leads_throw_bind rfl
  · exact leads_set rfl trivial

/-! ## Links -/

/-- The vocabulary with the link of a type and a role. -/
def withLink (v : Vocabulary) (t : ObjectTypeId) (r : RoleId) : Vocabulary :=
  { v.withBinary (.link t r) t (v.playerOf r) "\x7b0\x7d involves \x7b1\x7d" with
    links := ((t, r), ⟨v.factTypes.size⟩) :: v.links }

/-- A new link has a role for the type and one for the player of the mirrored role. -/
lemma factType_withLink (t : ObjectTypeId) (r : RoleId) :
    (v.withLink t r).factType ⟨v.factTypes.size⟩ =
      { id := ⟨v.factTypes.size⟩, kind := .link t r
        roles := [⟨v.roles.size⟩, ⟨v.roles.size + 1⟩], readings := [⟨v.readings.size⟩] } := by
  have hbinary := factType_withBinary (v := v) (.link t r) t (v.playerOf r)
    "\x7b0\x7d involves \x7b1\x7d" ⟨v.factTypes.size⟩
  rw [if_pos rfl] at hbinary
  exact hbinary

/-- The vocabulary has grown by it. -/
lemma grows_withLink (t : ObjectTypeId) (r : RoleId) : v.Grows (v.withLink t r) :=
  { v.grows_withBinary (.link t r) t (v.playerOf r) "\x7b0\x7d involves \x7b1\x7d" with }

/-- It is the only new fact type. -/
lemma mem_factTypeIds_withLink {t : ObjectTypeId} {r : RoleId} :
    f ∈ (v.withLink t r).factTypeIds ↔ f = ⟨v.factTypes.size⟩ ∨ f ∈ v.factTypeIds :=
  v.mem_factTypeIds_withBinary (.link t r) t (v.playerOf r) "\x7b0\x7d involves \x7b1\x7d" f

/-- It mirrors the role it is a link to. -/
lemma mirrorsRole_withLink (t : ObjectTypeId) (hr : r ∈ v.roleIds) :
    (v.withLink t r).MirrorsRole ⟨v.factTypes.size⟩ t r := by
  have hgrows := grows_withLink (v := v) t r
  have hmem := v.mem_roleIds_withBinary (.link t r) t (v.playerOf r) "\x7b0\x7d involves \x7b1\x7d"
  have hplayers : [⟨v.roles.size⟩, ⟨v.roles.size + 1⟩].map (v.withLink t r).playerOf =
      [t, v.playerOf r] :=
    v.playerOf_withBinary (.link t r) t (v.playerOf r) "\x7b0\x7d involves \x7b1\x7d"
  refine ⟨hgrows.mem_roleIds hr, ⟨v.roles.size⟩, ⟨v.roles.size + 1⟩, ?_, ?_, ?_,
    (List.cons.inj hplayers).1, ?_⟩
  · rw [factType_withLink]
  · exact (hmem _).2 (.inr (.inl rfl))
  · exact (hmem _).2 (.inl rfl)
  · rw [hgrows.playerOf_eq hr]
    exact (List.cons.inj (List.cons.inj hplayers).2).1

/-- The link of a type and a role that exists mirrors the role, and so do all other links.

**Proof sketch.** A link that is there mirrors what it is a link to. A new one has a role for the
type and one for the player of the mirrored role. -/
theorem ends_linkFactType (hv : v.Consistent) (hlinks : v.LinksMirror) (t : ObjectTypeId)
    (hr : r ∈ v.roleIds) : (linkFactType t r).Ends v (fun f w => w.LinksMirror ∧
      w.MirrorsRole f t r ∧ (w.factType f).kind = .link t r) fun _ => True := by
  refine ends_bind.2 (ends_get.2 ?_)
  split
  · next existing hlookup =>
    obtain ⟨hf, hkind⟩ := (hv.links_iff t r existing).1 hlookup
    exact ⟨hlinks, hlinks existing hf t r hkind, hkind⟩
  · next hlookup =>
    have hretains : v.Retains (v.withLink t r) := retains_of_change (Change.link hlookup)
    have hmirrors := mirrorsRole_withLink t hr
    have hkind := congrArg FactType.kind (factType_withLink (v := v) t r)
    refine ends_bind.2 ((ends_of_perform (perform_addBinary ..)).2 (ends_bind.2 ?_))
    refine ⟨hlinks.retains hretains fun f hf hnew t' r' hkind' => ?_, hmirrors, hkind⟩
    obtain rfl : f = ⟨v.factTypes.size⟩ :=
      (mem_factTypeIds_withLink.1 hf).resolve_right hnew
    obtain ⟨rfl, rfl⟩ := FactTypeKind.link.inj (hkind.symm.trans hkind')
    exact hmirrors

end FactModel.Vocabulary
