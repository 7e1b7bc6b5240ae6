import DriveSync.Small
import DriveSync.Plan.Resolve

/-!
# DriveSync.Plan.Pairing

The pairing of local and remote paths as a relation on the two inventories, and its laws.

* `Partner`: what a local path is paired with directly, by case or by normalisation.
* `Counterpart`: where a local path lies on the NAS: at its partner, else under its own name in the
  counterpart of its folder. `counterpart_iff` says that a resolution computes it.
* `pairing_laws_iff`: the pairing is an injection that keeps folds and is undone by its reverse. It
  keeps folders too exactly when every partner lies in its own folder's counterpart.
-/

namespace DriveSync

open Path

section Pairing

variable [Unicode] (L : LocalInventory) (R : RemoteInventory) (rules : IgnoreRules) (delete : Bool)

/-- A local path and the NAS path it is paired with directly: its case-only rename in a mirror run,
else its only spelling under NFC. -/
def Partner (x r : RelPath) : Prop :=
  delete = true ∧ CaseRename L R rules x r ∨
    Correspondence.NfcPair L R x r ∧ ∀ r', ¬(delete = true ∧ CaseRename L R rules x r')

/-- Where a local path lies on the NAS. -/
inductive Counterpart : RelPath → RelPath → Prop
  | root : Counterpart .root .root
  | paired {p : RelPath} {n : Name} {r : RelPath} (h : Partner L R rules delete (.child p n) r) :
      Counterpart (.child p n) r
  | inherited {p q : RelPath} {n : Name} (h : ∀ r, ¬Partner L R rules delete (.child p n) r)
      (hp : Counterpart p q) : Counterpart (.child p n) (.child q n)

/-- The laws of a pairing: on the local paths outside the shield the reverse map undoes it, it is
one to one, it keeps folds, and it keeps folders. -/
structure PairingLaws (resolution : Resolution) : Prop where
  undone : ∀ x ∈ L.entries.keys, resolution.shield.covers x = false →
    resolution.pairs.localRelative (resolution.pairs.remoteRelative x) = x
  injective : ∀ x ∈ L.entries.keys, ∀ y ∈ L.entries.keys, resolution.shield.covers x = false →
    resolution.shield.covers y = false →
    resolution.pairs.remoteRelative x = resolution.pairs.remoteRelative y → x = y
  fold : ∀ x ∈ L.entries.keys, resolution.shield.covers x = false →
    portableFold (resolution.pairs.remoteRelative x) = portableFold x
  folder : ∀ x ∈ L.entries.keys, resolution.shield.covers x = false →
    (resolution.pairs.remoteRelative x).parent = resolution.pairs.remoteRelative x.parent

variable {L R rules delete} {refused : List SkippedEntry}

theorem CaseRename.right_unique {x r r' : RelPath} (h : CaseRename L R rules x r)
    (h' : CaseRename L R rules x r') : r = r' := h'.onlyRemote r h.isRemote h.fold_eq

theorem Partner.fold_eq {x r : RelPath} (h : Partner L R rules delete x r) :
    portableFold r = portableFold x := by
  rcases h with ⟨_, h⟩ | ⟨h, _⟩
  · exact h.fold_eq
  · exact portableFold_eq_of_nfc_eq h.nfc_eq

theorem not_covers_of_atOrUnder {shield : Shield} {a p : RelPath} (h : AtOrUnder a p)
    (hp : shield.covers p = false) : shield.covers a = false := by
  cases ha : shield.covers a with
  | false => rfl
  | true => rw [Shield.covers_of_atOrUnder h ha] at hp; cases hp

theorem toRemote_eq_some_iff {x r : RelPath}
    (hx : (resolve L R rules delete refused).shield.covers x = false) :
    (resolve L R rules delete refused).pairs.toRemote[x]? = some r ↔
      Partner L R rules delete x r := by
  have hblocked : (resolveSpellings L R rules delete refused).blocked.covers x = false := by
    cases h : (resolveSpellings L R rules delete refused).blocked.covers x with
    | false => rfl
    | true => rw [covers_resolve_of_blocked h] at hx; cases hx
  have hren : ∀ r', (x, r') ∈ renamesOf L R rules delete refused ↔
      delete = true ∧ CaseRename L R rules x r' := by
    intro r'
    rw [renamesOf, mem_renames]
    exact ⟨fun h => ⟨h.1, h.2.1⟩, fun h => ⟨h.1, h.2, hblocked⟩⟩
  rw [toRemote_resolve, Partner, hren]
  simp only [hren, and_comm]

theorem counterpart_iff {x r : RelPath}
    (hx : (resolve L R rules delete refused).shield.covers x = false) :
    Counterpart L R rules delete x r ↔
      (resolve L R rules delete refused).pairs.remoteRelative x = r := by
  induction x generalizing r with
  | root =>
    rw [Correspondence.remoteRelative_root]
    exact ⟨fun h => by cases h; rfl, fun h => h ▸ .root⟩
  | child p n ih =>
    have hfolder : ∀ {q}, Counterpart L R rules delete p q ↔
        (resolve L R rules delete refused).pairs.remoteRelative p = q := by
      intro q
      by_cases hp : p = .root
      · subst hp
        rw [Correspondence.remoteRelative_root]
        exact ⟨fun h => by cases h; rfl, fun h => h ▸ .root⟩
      · exact ih (not_covers_of_atOrUnder (.inr (mem_ancestors_child.mpr ⟨hp, .inl rfl⟩)) hx)
    rw [Correspondence.remoteRelative_child]
    constructor
    · intro h
      cases h with
      | paired h => rw [(toRemote_eq_some_iff hx).mpr h]; rfl
      | @inherited _ q _ hnone hq =>
        have : (resolve L R rules delete refused).pairs.toRemote[Path.child p n]? = none := by
          cases hget : (resolve L R rules delete refused).pairs.toRemote[Path.child p n]? with
          | none => rfl
          | some r => exact absurd ((toRemote_eq_some_iff hx).mp hget) (hnone r)
        rw [this, hfolder.mp hq]
        rfl
    · rintro rfl
      cases hget : (resolve L R rules delete refused).pairs.toRemote[Path.child p n]? with
      | some r => exact .paired ((toRemote_eq_some_iff hx).mp hget)
      | none =>
        refine .inherited (fun r hr => ?_) (hfolder.mpr rfl)
        rw [(toRemote_eq_some_iff hx).mpr hr] at hget
        cases hget

/-- Where every folder on the way to it is unshielded, a path's counterpart lies in its folder's
counterpart exactly when its partner does, if it has one. -/
theorem parent_remoteRelative_iff {p : RelPath} {n : Name}
    (hx : (resolve L R rules delete refused).shield.covers (.child p n) = false) :
    ((resolve L R rules delete refused).pairs.remoteRelative (.child p n)).parent =
        (resolve L R rules delete refused).pairs.remoteRelative p ↔
      ∀ r, Partner L R rules delete (.child p n) r → Counterpart L R rules delete p r.parent := by
  have hfolder : ∀ {q}, Counterpart L R rules delete p q ↔
      (resolve L R rules delete refused).pairs.remoteRelative p = q := by
    intro q
    by_cases hp : p = .root
    · subst hp
      rw [Correspondence.remoteRelative_root]
      exact ⟨fun h => by cases h; rfl, fun h => h ▸ .root⟩
    · exact counterpart_iff
        (not_covers_of_atOrUnder (.inr (mem_ancestors_child.mpr ⟨hp, .inl rfl⟩)) hx)
  rw [Correspondence.remoteRelative_child]
  cases hget : (resolve L R rules delete refused).pairs.toRemote[Path.child p n]? with
  | some r =>
    have hr := (toRemote_eq_some_iff hx).mp hget
    simp only [Option.getD_some]
    constructor
    · intro h r' hr'
      rw [(toRemote_eq_some_iff hx).mpr hr'] at hget
      rw [Option.some.inj hget]
      exact hfolder.mpr h.symm
    · intro h
      exact (hfolder.mp (h r hr)).symm
  | none =>
    simp only [Option.getD_none, parent_child, true_iff]
    intro r hr
    rw [(toRemote_eq_some_iff hx).mpr hr] at hget
    cases hget

/-- The pairing a resolution builds obeys its laws exactly when no unshielded local path has a
partner outside its own folder's counterpart. -/
theorem pairing_laws_iff (closed : L.entries.ParentClosed LocalEntry.kind)
    (distinct : L.entries.DistinctFolds) :
    PairingLaws L (resolve L R rules delete refused) ↔
      ∀ x ∈ L.entries.keys, (resolve L R rules delete refused).shield.covers x = false →
        ∀ r, Partner L R rules delete x r → Counterpart L R rules delete x.parent r.parent := by
  constructor
  · intro h x hx hcov
    have hfolder := h.folder x hx hcov
    cases x with
    | root =>
      obtain ⟨e, he⟩ := EntryMap.mem_keys.mp hx
      rw [EntryMap.get?_root] at he
      cases he
    | child p n => exact (parent_remoteRelative_iff hcov).mp hfolder
  · intro h
    refine ⟨fun x hx _ => localRelative_remoteRelative closed distinct hx,
      fun x hx y hy _ _ => remoteRelative_injective closed distinct hx hy,
      fun x _ _ => fold_remoteRelative_resolve x, ?_⟩
    intro x hx hcov
    cases x with
    | root => rfl
    | child p n => exact (parent_remoteRelative_iff hcov).mpr (h _ hx hcov)

end Pairing

/-! ## A folder the NAS holds under two normalisations -/

namespace TwinFolder

open Small

/-- The file is paired with the one in the twin, its folder with the folder of its own spelling. -/
theorem parent_differs :
    letI := charwise
    ((resolve localSide remoteSide noRules true []).pairs.remoteRelative
        (.child folder (name 'x'))).parent ≠
      (resolve localSide remoteSide noRules true []).pairs.remoteRelative folder := by
  decide +kernel

theorem not_pairing_laws :
    letI := charwise
    localSide.entries.ParentClosed LocalEntry.kind ∧ localSide.entries.DistinctFolds ∧
      remoteSide.entries.ParentClosed RemoteEntry.kind ∧
      ¬PairingLaws localSide (resolve localSide remoteSide noRules true []) := by
  let := charwise
  refine ⟨by decide +kernel, by decide +kernel, by decide +kernel, fun h => ?_⟩
  exact parent_differs (h.folder (.child folder (name 'x')) (by decide +kernel) (by decide +kernel))

theorem partner_outside_counterpart :
    letI := charwise
    ¬∀ x ∈ localSide.entries.keys,
      (resolve localSide remoteSide noRules true []).shield.covers x = false →
        ∀ r, Partner localSide remoteSide noRules true x r →
          Counterpart localSide remoteSide noRules true x.parent r.parent := by
  let := charwise
  intro h
  have hlaws := (pairing_laws_iff (by decide +kernel) (by decide +kernel)).mpr h
  exact parent_differs (hlaws.folder (.child folder (name 'x')) (by decide +kernel)
    (by decide +kernel))

end TwinFolder

end DriveSync
