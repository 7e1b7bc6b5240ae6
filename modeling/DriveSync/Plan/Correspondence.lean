import DriveSync.Lib.Loop
import DriveSync.Plan.Types

/-!
# DriveSync.Plan.Correspondence

How local spellings pair with remote ones that differ in their bytes. Exact equality pairs almost
everything; `build` adds the pairs equal after NFC, where only one choice is possible, and the
spelling resolution adds its case-only renames.

* `NfcPair`: what `build` pairs, as a relation on the two sets of keys; `toRemote_build` and
  `toLocal_build` say that its two maps hold exactly that.
* `fold_remoteRelative`: a pairing of equal folds maps every path to one of the same fold.
-/

namespace DriveSync

open Path

/-- Local to remote spelling, and the reverse, for the pairs that differ. -/
structure Correspondence where
  toRemote : Std.TreeMap RelPath RelPath
  toLocal : Std.TreeMap RelPath RelPath

namespace Correspondence

def empty : Correspondence := ⟨∅, ∅⟩

def insert (pairs : Correspondence) (l r : RelPath) : Correspondence :=
  ⟨pairs.toRemote.insert l r, pairs.toLocal.insert r l⟩

/-- The remote spelling of a local path: its own pair, or beneath its nearest paired folder. -/
def remoteRelative (pairs : Correspondence) (p : RelPath) : RelPath :=
  inherit (fun l => pairs.toRemote[l]?) p

def remoteOf (pairs : Correspondence) (R : RemoteInventory) (p : RelPath) : Option RemoteEntry :=
  R.entries.get? (pairs.remoteRelative p)

/-- The local spelling of a remote path, through the same pairing in reverse. -/
def localRelative (pairs : Correspondence) (p : RelPath) : RelPath :=
  inherit (fun r => pairs.toLocal[r]?) p

def localOf (pairs : Correspondence) (L : LocalInventory) (p : RelPath) : Option LocalEntry :=
  L.entries.get? (pairs.localRelative p)

@[simp] theorem toRemote_empty (l : RelPath) : empty.toRemote[l]? = none :=
  Std.TreeMap.getElem?_emptyc

@[simp] theorem toLocal_empty (r : RelPath) : empty.toLocal[r]? = none :=
  Std.TreeMap.getElem?_emptyc

theorem toRemote_insert (pairs : Correspondence) (l r p : RelPath) :
    (pairs.insert l r).toRemote[p]? = if l = p then some r else pairs.toRemote[p]? := by
  simp only [insert, Std.TreeMap.getElem?_insert, compare_eq_iff_eq]

theorem toLocal_insert (pairs : Correspondence) (l r p : RelPath) :
    (pairs.insert l r).toLocal[p]? = if r = p then some l else pairs.toLocal[p]? := by
  simp only [insert, Std.TreeMap.getElem?_insert, compare_eq_iff_eq]

theorem remoteRelative_child (pairs : Correspondence) (p : RelPath) (n : Name) :
    pairs.remoteRelative (.child p n) =
      (pairs.toRemote[Path.child p n]?).getD (.child (pairs.remoteRelative p) n) := rfl

@[simp] theorem remoteRelative_root (pairs : Correspondence) :
    pairs.remoteRelative .root = .root := rfl

/-! ## Inserting several pairs -/

/-- A pairing with more pairs inserted. -/
def insertAll (pairs : Correspondence) (l : List (RelPath × RelPath)) : Correspondence :=
  l.foldl (fun pairs xr => pairs.insert xr.1 xr.2) pairs

theorem toRemote_insertAll {l : List (RelPath × RelPath)} (pairs : Correspondence)
    (hl : ∀ x r r', (x, r) ∈ l → (x, r') ∈ l → r = r') {x r : RelPath} :
    (pairs.insertAll l).toRemote[x]? = some r ↔
      (x, r) ∈ l ∨ (∀ r', (x, r') ∉ l) ∧ pairs.toRemote[x]? = some r := by
  induction l generalizing pairs with
  | nil => simp [insertAll]
  | cons yr l ih =>
    obtain ⟨y, s⟩ := yr
    have ih := ih (pairs.insert y s)
      fun x r r' h h' => hl x r r' (.tail _ h) (.tail _ h')
    rw [show pairs.insertAll ((y, s) :: l) = (pairs.insert y s).insertAll l from rfl, ih,
      toRemote_insert]
    by_cases hy : y = x
    · subst hy
      simp only [if_true, Option.some.injEq, List.mem_cons, Prod.mk.injEq, true_and, not_or]
      constructor
      · rintro (h | ⟨_, rfl⟩)
        · exact .inl (.inr h)
        · exact .inl (.inl rfl)
      · rintro ((rfl | h) | ⟨h, _⟩)
        · by_cases hex : ∃ r', (y, r') ∈ l
          · obtain ⟨r', hr'⟩ := hex
            obtain rfl := hl y r r' (.head _) (.tail _ hr')
            exact .inl hr'
          · exact .inr ⟨fun r' hr' => hex ⟨r', hr'⟩, rfl⟩
        · exact .inl h
        · exact absurd rfl (h s).1
    · simp [hy, Ne.symm hy]

theorem toLocal_insertAll {l : List (RelPath × RelPath)} (pairs : Correspondence)
    (hl : ∀ x x' r, (x, r) ∈ l → (x', r) ∈ l → x = x') {x r : RelPath} :
    (pairs.insertAll l).toLocal[r]? = some x ↔
      (x, r) ∈ l ∨ (∀ x', (x', r) ∉ l) ∧ pairs.toLocal[r]? = some x := by
  -- the pairing read the other way round
  have h := toRemote_insertAll (l := l.map Prod.swap) ⟨pairs.toLocal, pairs.toRemote⟩
    (x := r) (r := x) (by
      simp only [List.mem_map, Prod.exists, Prod.swap_prod_mk, Prod.mk.injEq]
      rintro s y y' ⟨_, _, h, rfl, rfl⟩ ⟨_, _, h', rfl, rfl⟩
      exact hl _ _ _ h h')
  have hswap : ∀ (l : List (RelPath × RelPath)) (pairs : Correspondence),
      (insertAll ⟨pairs.toLocal, pairs.toRemote⟩ (l.map Prod.swap)).toRemote =
        (pairs.insertAll l).toLocal := by
    intro l
    induction l with
    | nil => intro pairs; rfl
    | cons a l ih => intro pairs; exact ih (pairs.insert a.1 a.2)
  rw [hswap] at h
  simpa using h

section Fold

variable [Unicode]

/-- Every pair joins two spellings of one fold. -/
def FoldPreserving (pairs : Correspondence) : Prop :=
  (∀ l r, pairs.toRemote[l]? = some r → portableFold r = portableFold l) ∧
    ∀ r l, pairs.toLocal[r]? = some l → portableFold l = portableFold r

theorem fold_remoteRelative {pairs : Correspondence} (h : pairs.FoldPreserving) (p : RelPath) :
    portableFold (pairs.remoteRelative p) = portableFold p := map_inherit h.1 p

theorem fold_localRelative {pairs : Correspondence} (h : pairs.FoldPreserving) (p : RelPath) :
    portableFold (pairs.localRelative p) = portableFold p := map_inherit h.2 p

theorem remoteRelative_ne_root {pairs : Correspondence} (h : pairs.FoldPreserving) {p : RelPath}
    (hp : p ≠ .root) : pairs.remoteRelative p ≠ .root :=
  fun hroot => hp ((inherit_eq_root h.1).mp hroot)

end Fold

end Correspondence

/-! ## Pairs equal after normalisation -/

/-- A list without repetitions whose only member is `a` is `[a]`. -/
theorem eq_singleton_of_forall {α : Type} {l : List α} {a : α} (hl : l.Nodup) (ha : a ∈ l)
    (h : ∀ b ∈ l, b = a) : l = [a] := by
  cases l with
  | nil => simp at ha
  | cons b l =>
    obtain rfl := h b (.head _)
    cases l with
    | nil => rfl
    | cons c l => exact absurd (h c (by simp)).symm (by simp at hl; exact hl.1.1)

section Build

variable [Unicode]

/-- The keys that are not already NFC, grouped by their NFC form. -/
def nonNfcByNfc (keys : List RelPath) : Std.TreeMap RelPath (List RelPath) :=
  keys.foldl (fun odd key =>
    if nfc key = key then odd
    else odd.insert (nfc key) (odd.getD (nfc key) [] ++ [key])) ∅

/-- The keys of one group. -/
def oddSpellings (keys : List RelPath) (composed : RelPath) : List RelPath :=
  keys.filter fun key => decide (nfc key ≠ key) && decide (nfc key = composed)

theorem getElem?_nonNfcByNfc (keys : List RelPath) (composed : RelPath) :
    (nonNfcByNfc keys)[composed]? =
      if oddSpellings keys composed = [] then none else some (oddSpellings keys composed) := by
  refine Loop.foldl_done (I := fun done odd => odd[composed]? =
    if oddSpellings done composed = [] then none else some (oddSpellings done composed)) keys
    (by simp [oddSpellings]) ?_
  intro done key rest odd _ ih
  have happend : oddSpellings (done ++ [key]) composed =
      oddSpellings done composed ++ oddSpellings [key] composed := List.filter_append ..
  by_cases hkey : nfc key = key
  · have : oddSpellings [key] composed = [] := by simp [oddSpellings, hkey]
    rw [if_pos hkey, happend, this, List.append_nil]
    exact ih
  · rw [if_neg hkey, Std.TreeMap.getElem?_insert]
    by_cases hc : nfc key = composed
    · subst hc
      have : oddSpellings [key] (nfc key) = [key] := by simp [oddSpellings, hkey]
      rw [if_pos Std.ReflCmp.compare_self, happend, this, if_neg (by simp),
        Std.TreeMap.getD_eq_getD_getElem?, ih]
      split <;> simp_all
    · have : oddSpellings [key] composed = [] := by simp [oddSpellings, hc]
      rw [if_neg (fun h => hc (compare_eq_iff_eq.mp h)), happend, this, List.append_nil]
      exact ih

namespace Correspondence

/-- One local group: its only spelling, with the only remote spelling of the same NFC form. -/
def pairLocalOdd (L : LocalInventory) (R : RemoteInventory)
    (remoteOdd : Std.TreeMap RelPath (List RelPath)) (pairs : Correspondence)
    (group : RelPath × List RelPath) : Correspondence :=
  match group.2 with
  | [localSpelling] =>
    if R.entries.contains localSpelling then pairs
    else
      match remoteOdd.getD group.1 [] ++
          (if R.entries.contains group.1 then [group.1] else []) with
      | [remoteSpelling] =>
        if L.entries.contains remoteSpelling then pairs
        else pairs.insert localSpelling remoteSpelling
      | _ => pairs
  | _ => pairs

/-- One remote group whose only spelling pairs with a local spelling in NFC. -/
def pairRemoteOdd (L : LocalInventory) (R : RemoteInventory)
    (localOdd : Std.TreeMap RelPath (List RelPath)) (pairs : Correspondence)
    (group : RelPath × List RelPath) : Correspondence :=
  match group.2 with
  | [remoteSpelling] =>
    if pairs.toLocal.contains remoteSpelling || L.entries.contains remoteSpelling ||
        localOdd.contains group.1 || R.entries.contains group.1 ||
        !L.entries.contains group.1 then pairs
    else pairs.insert group.1 remoteSpelling
  | _ => pairs

def build (L : LocalInventory) (R : RemoteInventory) : Correspondence :=
  let localOdd := nonNfcByNfc L.entries.keys
  let remoteOdd := nonNfcByNfc R.entries.keys
  let pairs := localOdd.toList.foldl (pairLocalOdd L R remoteOdd) empty
  remoteOdd.toList.foldl (pairRemoteOdd L R localOdd) pairs

/-- `x` and `r` are the only choice on either side for one name under NFC, and neither side holds
the other's spelling. A local spelling already in NFC gives way to a single one that is not. -/
structure NfcPair (L : LocalInventory) (R : RemoteInventory) (x r : RelPath) : Prop where
  isLocal : x ∈ L.entries.keys
  isRemote : r ∈ R.entries.keys
  nfc_eq : nfc r = nfc x
  notRemote : x ∉ R.entries.keys
  notLocal : r ∉ L.entries.keys
  onlyRemote : ∀ r' ∈ R.entries.keys, nfc r' = nfc x → r' = r
  onlyLocal : ∀ x' ∈ L.entries.keys, nfc x' = nfc x → nfc x' = x' ∨ x' = x

theorem NfcPair.ne {L : LocalInventory} {R : RemoteInventory} {x r : RelPath}
    (h : NfcPair L R x r) : x ≠ r := by
  rintro rfl
  exact h.notRemote h.isRemote

theorem NfcPair.right_unique {L : LocalInventory} {R : RemoteInventory} {x r r' : RelPath}
    (h : NfcPair L R x r) (h' : NfcPair L R x r') : r = r' :=
  h'.onlyRemote r h.isRemote h.nfc_eq

theorem NfcPair.left_unique {L : LocalInventory} {R : RemoteInventory} {x x' r : RelPath}
    (h : NfcPair L R x r) (h' : NfcPair L R x' r) : x = x' := by
  have hnfc : nfc x = nfc x' := h.nfc_eq.symm.trans h'.nfc_eq
  rcases h'.onlyLocal x h.isLocal hnfc with hx | hx
  · rcases h.onlyLocal x' h'.isLocal hnfc.symm with hx' | hx'
    · rw [← hx, hnfc, hx']
    · exact hx'.symm
  · exact hx

/-- The two maps of a pairing agree with one relation, as far as they go. -/
structure Within (P : RelPath → RelPath → Prop) (pairs : Correspondence) : Prop where
  sound : ∀ x r : RelPath, pairs.toRemote[x]? = some r → P x r
  linked : ∀ x r : RelPath, pairs.toRemote[x]? = some r ↔ pairs.toLocal[r]? = some x

variable {L : LocalInventory} {R : RemoteInventory}

theorem within_insert {pairs : Correspondence} {x r : RelPath} (h : pairs.Within (NfcPair L R))
    (hxr : NfcPair L R x r) : (pairs.insert x r).Within (NfcPair L R) := by
  constructor
  · intro x' r' hget
    rw [toRemote_insert] at hget
    split at hget
    · rename_i heq
      cases hget
      exact heq ▸ hxr
    · exact h.sound x' r' hget
  · intro x' r'
    rw [toRemote_insert, toLocal_insert]
    by_cases hx : x = x' <;> by_cases hr : r = r'
    · simp [hx, hr]
    · subst hx
      simp only [if_true, Option.some.injEq, hr, false_iff]
      intro hlocal
      exact hr (hxr.right_unique (h.sound _ _ ((h.linked _ _).mpr hlocal)))
    · subst hr
      simp only [if_true, Option.some.injEq, hx, iff_false]
      intro hremote
      exact hx (hxr.left_unique (h.sound _ _ hremote))
    · rw [if_neg hx, if_neg hr]
      exact h.linked x' r'

theorem keep_insert {pairs : Correspondence} {x r x' r' : RelPath} (hxr : NfcPair L R x r)
    (hget : pairs.toRemote[x']? = some r') (hxr' : NfcPair L R x' r') :
    (pairs.insert x r).toRemote[x']? = some r' := by
  rw [toRemote_insert]
  split
  · rename_i heq
    subst heq
    rw [hxr.right_unique hxr']
  · exact hget

theorem mem_oddSpellings {keys : List RelPath} {composed p : RelPath} :
    p ∈ oddSpellings keys composed ↔ p ∈ keys ∧ nfc p ≠ p ∧ nfc p = composed := by
  simp [oddSpellings]

/-- A group of the odd spellings is what the keys hold of its NFC form. -/
theorem mem_toList_nonNfcByNfc {keys : List RelPath} {group : RelPath × List RelPath} :
    group ∈ (nonNfcByNfc keys).toList ↔
      group.2 = oddSpellings keys group.1 ∧ oddSpellings keys group.1 ≠ [] := by
  obtain ⟨composed, spellings⟩ := group
  rw [Std.TreeMap.mem_toList_iff_getElem?_eq_some, getElem?_nonNfcByNfc]
  split
  · rename_i h; simp [h]
  · rename_i h; simp [h, eq_comm]

theorem getD_nonNfcByNfc (keys : List RelPath) (composed : RelPath) :
    (nonNfcByNfc keys).getD composed [] = oddSpellings keys composed := by
  rw [Std.TreeMap.getD_eq_getD_getElem?, getElem?_nonNfcByNfc]
  split
  · rename_i h; simp [h]
  · rfl

theorem contains_nonNfcByNfc {keys : List RelPath} {composed : RelPath} :
    (nonNfcByNfc keys).contains composed = true ↔ oddSpellings keys composed ≠ [] := by
  rw [Std.TreeMap.contains_eq_isSome_getElem?, getElem?_nonNfcByNfc]
  split
  · rename_i h; simp [h]
  · rename_i h; simp [h]

/-- The remote spellings of one NFC form. -/
def remoteCandidates (R : RemoteInventory) (composed : RelPath) : List RelPath :=
  oddSpellings R.entries.keys composed ++ (if R.entries.contains composed then [composed] else [])

theorem mem_remoteCandidates {composed r : RelPath} (hc : nfc composed = composed) :
    r ∈ remoteCandidates R composed ↔ r ∈ R.entries.keys ∧ nfc r = composed := by
  rw [remoteCandidates, List.mem_append, mem_oddSpellings]
  constructor
  · rintro (⟨h, _, hr⟩ | h)
    · exact ⟨h, hr⟩
    · split at h
      · rename_i hmem
        obtain rfl := List.mem_singleton.mp h
        exact ⟨EntryMap.contains_iff.mp hmem, hc⟩
      · simp at h
  · rintro ⟨h, hr⟩
    by_cases hodd : nfc r = r
    · right
      obtain rfl : r = composed := hodd.symm.trans hr
      simp [EntryMap.contains_iff.mpr h]
    · exact .inl ⟨h, hodd, hr⟩

theorem nodup_remoteCandidates {composed : RelPath} : (remoteCandidates R composed).Nodup := by
  rw [remoteCandidates, List.nodup_append]
  refine ⟨(R.entries.nodup_keys).filter _, by split <;> simp, ?_⟩
  intro p hp q hq hpq
  obtain ⟨_, hodd, hcomp⟩ := mem_oddSpellings.mp hp
  split at hq
  · obtain rfl := List.mem_singleton.mp hq
    exact hodd (hcomp.trans hpq.symm)
  · simp at hq

/-- What the local loop does with one group. -/
theorem pairLocalOdd_cases (pairs : Correspondence) {group : RelPath × List RelPath}
    (hgroup : group ∈ (nonNfcByNfc L.entries.keys).toList) :
    pairLocalOdd L R (nonNfcByNfc R.entries.keys) pairs group = pairs ∧
        (∀ x r, NfcPair L R x r → nfc x ≠ x → nfc x ≠ group.1) ∨
      ∃ x r, NfcPair L R x r ∧ nfc x = group.1 ∧
        pairLocalOdd L R (nonNfcByNfc R.entries.keys) pairs group = pairs.insert x r := by
  obtain ⟨composed, spellings⟩ := group
  obtain ⟨hspell, hne⟩ := mem_toList_nonNfcByNfc.mp hgroup
  simp only at hspell hne
  subst hspell
  have hcomposed : nfc composed = composed := by
    obtain ⟨p, hp⟩ := List.exists_mem_of_ne_nil _ hne
    rw [← (mem_oddSpellings.mp hp).2.2, nfc_nfc]
  -- whatever pairs an odd `x` of this form has only it in its group, and only `r` opposite
  have hpair : ∀ x r, NfcPair L R x r → nfc x ≠ x → nfc x = composed →
      oddSpellings L.entries.keys composed = [x] ∧ remoteCandidates R composed = [r] := by
    intro x r h hodd hx
    constructor
    · refine eq_singleton_of_forall ((L.entries.nodup_keys).filter _)
        (mem_oddSpellings.mpr ⟨h.isLocal, hodd, hx⟩) ?_
      intro x' hx'
      obtain ⟨hmem, hodd', hcomp⟩ := mem_oddSpellings.mp hx'
      exact (h.onlyLocal x' hmem (hcomp.trans hx.symm)).resolve_left hodd'
    · refine eq_singleton_of_forall nodup_remoteCandidates
        ((mem_remoteCandidates hcomposed).mpr ⟨h.isRemote, h.nfc_eq.trans hx⟩) ?_
      intro r' hr'
      obtain ⟨hmem, hr'⟩ := (mem_remoteCandidates hcomposed).mp hr'
      exact h.onlyRemote r' hmem (hr'.trans hx.symm)
  simp only [pairLocalOdd, getD_nonNfcByNfc]
  split
  · rename_i x hx
    split
    · rename_i hmem
      refine .inl ⟨rfl, fun y r h hodd hy => ?_⟩
      rw [(hpair y r h hodd hy).1] at hx
      obtain rfl : y = x := by simpa using hx
      exact h.notRemote (EntryMap.contains_iff.mp hmem)
    · rename_i hnot
      split
      · rename_i r hr
        split
        · rename_i hmem
          refine .inl ⟨rfl, fun y r' h hodd hy => ?_⟩
          have hr' := (hpair y r' h hodd hy).2
          rw [remoteCandidates, hr] at hr'
          obtain rfl : r = r' := by simpa using hr'
          exact h.notLocal (EntryMap.contains_iff.mp hmem)
        · rename_i hnotL
          have hxmem : x ∈ oddSpellings L.entries.keys composed := by rw [hx]; simp
          obtain ⟨hxL, hxodd, hxc⟩ := mem_oddSpellings.mp hxmem
          have hrmem : r ∈ remoteCandidates R composed := by rw [remoteCandidates, hr]; simp
          obtain ⟨hrR, hrc⟩ := (mem_remoteCandidates hcomposed).mp hrmem
          refine .inr ⟨x, r, ⟨hxL, hrR, hrc.trans hxc.symm, ?_, ?_, ?_, ?_⟩, hxc, rfl⟩
          · exact fun h => hnot (EntryMap.contains_iff.mpr h)
          · exact fun h => hnotL (EntryMap.contains_iff.mpr h)
          · intro r' hr' hnfc
            have : r' ∈ remoteCandidates R composed :=
              (mem_remoteCandidates hcomposed).mpr ⟨hr', hnfc.trans hxc⟩
            rw [remoteCandidates, hr] at this
            exact List.mem_singleton.mp this
          · intro x' hx' hnfc
            by_cases hodd' : nfc x' = x'
            · exact .inl hodd'
            · right
              have : x' ∈ oddSpellings L.entries.keys composed :=
                mem_oddSpellings.mpr ⟨hx', hodd', hnfc.trans hxc⟩
              rw [hx] at this
              exact List.mem_singleton.mp this
      · rename_i hr
        refine .inl ⟨rfl, fun y r h hodd hy => ?_⟩
        exact hr r (hpair y r h hodd hy).2
  · rename_i hx
    refine .inl ⟨rfl, fun y r h hodd hy => ?_⟩
    exact hx y (hpair y r h hodd hy).1

/-- What the remote loop does with one group: its pair is in the result, new or not. -/
theorem pairRemoteOdd_within {pairs : Correspondence} {group : RelPath × List RelPath}
    (hgroup : group ∈ (nonNfcByNfc R.entries.keys).toList) (h : pairs.Within (NfcPair L R)) :
    (pairRemoteOdd L R (nonNfcByNfc L.entries.keys) pairs group).Within (NfcPair L R) ∧
      (∀ x r : RelPath, pairs.toRemote[x]? = some r →
        (pairRemoteOdd L R (nonNfcByNfc L.entries.keys) pairs group).toRemote[x]? = some r) ∧
      ∀ x r, NfcPair L R x r → nfc x = x → x = group.1 →
        (pairRemoteOdd L R (nonNfcByNfc L.entries.keys) pairs group).toRemote[x]? = some r := by
  obtain ⟨composed, spellings⟩ := group
  obtain ⟨hspell, -⟩ := mem_toList_nonNfcByNfc.mp hgroup
  simp only at hspell
  subst hspell
  have hpair : ∀ x r, NfcPair L R x r → nfc x = x → x = composed →
      oddSpellings R.entries.keys composed = [r] ∧ oddSpellings L.entries.keys composed = [] ∧
        R.entries.contains composed = false := by
    rintro x r hp hx rfl
    refine ⟨eq_singleton_of_forall ((R.entries.nodup_keys).filter _)
        (mem_oddSpellings.mpr ⟨hp.isRemote, ?_, hp.nfc_eq.trans hx⟩) ?_, ?_, ?_⟩
    · intro hr
      exact hp.ne (by rw [← hx, ← hp.nfc_eq, hr])
    · intro r' hr'
      obtain ⟨hmem, _, hcomp⟩ := mem_oddSpellings.mp hr'
      exact hp.onlyRemote r' hmem (hcomp.trans hx.symm)
    · rw [List.eq_nil_iff_forall_not_mem]
      intro x' hx'
      obtain ⟨hmem, hodd, hcomp⟩ := mem_oddSpellings.mp hx'
      rcases hp.onlyLocal x' hmem (hcomp.trans hx.symm) with h' | rfl
      · exact hodd h'
      · exact hodd hx
    · rw [← Bool.not_eq_true]
      exact fun hc => hp.notRemote (EntryMap.contains_iff.mp hc)
  simp only [pairRemoteOdd]
  split
  · rename_i r hr
    split
    · rename_i hskip
      refine ⟨h, fun _ _ hget => hget, fun x r' hp hx hxc => ?_⟩
      obtain ⟨hodd, hnone, hnotR⟩ := hpair x r' hp hx hxc
      obtain rfl : r = r' := by rw [hodd] at hr; simpa using hr.symm
      subst hxc
      -- of the loop's reasons to pass over the group only an earlier pair of `r` is left
      have hcontains : pairs.toLocal.contains r = true := by
        have hlocalOdd : (nonNfcByNfc L.entries.keys).contains x = false := by
          rw [← Bool.not_eq_true, contains_nonNfcByNfc, hnone]; simp
        have hL : L.entries.contains x = true := EntryMap.contains_iff.mpr hp.isLocal
        have hLr : L.entries.contains r = false := by
          rw [← Bool.not_eq_true]; exact fun hc => hp.notLocal (EntryMap.contains_iff.mp hc)
        simpa [hlocalOdd, hL, hLr, hnotR] using hskip
      rw [Std.TreeMap.contains_eq_isSome_getElem?, Option.isSome_iff_exists] at hcontains
      obtain ⟨x', hx'⟩ := hcontains
      have hremote := (h.linked x' r).mpr hx'
      rw [← hp.left_unique (h.sound _ _ hremote)] at hremote
      exact hremote
    · rename_i hgo
      simp only [Bool.or_eq_true, Bool.not_eq_true', not_or, Bool.not_eq_false] at hgo
      obtain ⟨⟨⟨⟨_, hLr⟩, hodd⟩, hRc⟩, hLc⟩ := hgo
      have hrmem : r ∈ oddSpellings R.entries.keys composed := by rw [hr]; simp
      obtain ⟨hrR, hrodd, hrc⟩ := mem_oddSpellings.mp hrmem
      have hc : nfc composed = composed := by rw [← hrc, nfc_nfc]
      have hp : NfcPair L R composed r := by
        refine ⟨EntryMap.contains_iff.mp hLc, hrR, hrc.trans hc.symm, ?_, ?_, ?_, ?_⟩
        · exact fun hmem => hRc (EntryMap.contains_iff.mpr hmem)
        · exact fun hmem => hLr (EntryMap.contains_iff.mpr hmem)
        · intro r' hr' hnfc
          by_cases hodd' : nfc r' = r'
          · exact absurd (EntryMap.contains_iff.mpr (show composed ∈ R.entries.keys from
              hc ▸ hnfc ▸ hodd'.symm ▸ hr')) hRc
          · have : r' ∈ oddSpellings R.entries.keys composed :=
              mem_oddSpellings.mpr ⟨hr', hodd', hnfc.trans hc⟩
            rw [hr] at this
            exact List.mem_singleton.mp this
        · intro x' hx' hnfc
          by_cases hodd' : nfc x' = x'
          · exact .inl hodd'
          · exact absurd (contains_nonNfcByNfc.mpr (List.ne_nil_of_mem
              (mem_oddSpellings.mpr ⟨hx', hodd', hnfc.trans hc⟩))) hodd
      refine ⟨within_insert h hp, fun x' r' hget => keep_insert hp hget (h.sound _ _ hget), ?_⟩
      rintro x r' hp' _ rfl
      rw [toRemote_insert, if_pos rfl, hp.right_unique hp']
  · rename_i hr
    refine ⟨h, fun _ _ hget => hget, fun x r hp hx hxc => ?_⟩
    exact absurd (hpair x r hp hx hxc).1 (hr r)

/-- `build` pairs exactly the spellings that are each other's only choice. -/
theorem build_within (L : LocalInventory) (R : RemoteInventory) :
    (build L R).Within (NfcPair L R) ∧
      ∀ x r, NfcPair L R x r → (build L R).toRemote[x]? = some r := by
  have hempty : empty.Within (NfcPair L R) := ⟨by simp, by simp⟩
  have hlocal : ∀ pairs : Correspondence, ∀ group ∈ (nonNfcByNfc L.entries.keys).toList,
      pairs.Within (NfcPair L R) →
        (pairLocalOdd L R (nonNfcByNfc R.entries.keys) pairs group).Within (NfcPair L R) ∧
        ∀ x r : RelPath, pairs.toRemote[x]? = some r →
          (pairLocalOdd L R (nonNfcByNfc R.entries.keys) pairs group).toRemote[x]? = some r := by
    intro pairs group hgroup h
    rcases pairLocalOdd_cases pairs hgroup with ⟨heq, _⟩ | ⟨x, r, hp, _, heq⟩
    · rw [heq]; exact ⟨h, fun _ _ hget => hget⟩
    · rw [heq]
      exact ⟨within_insert h hp, fun x' r' hget => keep_insert hp hget (h.sound _ _ hget)⟩
  have hmid : ((nonNfcByNfc L.entries.keys).toList.foldl
      (pairLocalOdd L R (nonNfcByNfc R.entries.keys)) empty).Within (NfcPair L R) :=
    List.foldlRecOn (motive := fun pairs : Correspondence => pairs.Within (NfcPair L R)) _ _ hempty
      fun pairs h group hg => (hlocal pairs group hg h).1
  refine ⟨List.foldlRecOn (motive := fun pairs : Correspondence => pairs.Within (NfcPair L R))
    _ _ hmid fun pairs h group hg => (pairRemoteOdd_within hg h).1, ?_⟩
  intro x r hp
  by_cases hx : nfc x = x
  · -- paired by the remote loop, at the group of its own spelling
    have hodd : oddSpellings R.entries.keys x ≠ [] := List.ne_nil_of_mem
      (mem_oddSpellings.mpr ⟨hp.isRemote, fun hr => hp.ne (by rw [← hx, ← hp.nfc_eq, hr]),
        hp.nfc_eq.trans hx⟩)
    have hgroup : (x, oddSpellings R.entries.keys x) ∈ (nonNfcByNfc R.entries.keys).toList :=
      mem_toList_nonNfcByNfc.mpr ⟨rfl, hodd⟩
    exact Loop.foldl_establish (I := fun pairs : Correspondence => pairs.Within (NfcPair L R))
      (Q := fun pairs : Correspondence => pairs.toRemote[x]? = some r) hmid
      (fun pairs group hg h => (pairRemoteOdd_within hg h).1)
      (fun pairs group hg h => (pairRemoteOdd_within hg h).2.1 x r)
      hgroup fun pairs h => (pairRemoteOdd_within hgroup h).2.2 x r hp hx rfl
  · -- paired by the local loop, and kept by the remote one
    have hodd : oddSpellings L.entries.keys (nfc x) ≠ [] := List.ne_nil_of_mem
      (mem_oddSpellings.mpr ⟨hp.isLocal, hx, rfl⟩)
    have hgroup : (nfc x, oddSpellings L.entries.keys (nfc x)) ∈
        (nonNfcByNfc L.entries.keys).toList := mem_toList_nonNfcByNfc.mpr ⟨rfl, hodd⟩
    have hget := Loop.foldl_establish
      (I := fun pairs : Correspondence => pairs.Within (NfcPair L R))
      (Q := fun pairs : Correspondence => pairs.toRemote[x]? = some r) hempty
      (fun pairs group hg h => (hlocal pairs group hg h).1)
      (fun pairs group hg h => (hlocal pairs group hg h).2 x r) hgroup fun pairs _ => by
        rcases pairLocalOdd_cases (R := R) pairs hgroup with
          ⟨_, hno⟩ | ⟨x', r', hp', hx', heq⟩
        · exact absurd rfl (hno x r hp hx)
        · rw [heq]
          have : x' = x := by
            rcases hp'.onlyLocal x hp.isLocal hx'.symm with h | h
            · exact absurd h hx
            · exact h.symm
          subst this
          rw [toRemote_insert, if_pos rfl, hp'.right_unique hp]
    have hkeep := List.foldlRecOn
      (motive := fun pairs : Correspondence =>
        pairs.Within (NfcPair L R) ∧ pairs.toRemote[x]? = some r)
      (nonNfcByNfc R.entries.keys).toList (pairRemoteOdd L R (nonNfcByNfc L.entries.keys))
      ⟨hmid, hget⟩ fun pairs h group hg =>
        ⟨(pairRemoteOdd_within hg h.1).1, (pairRemoteOdd_within hg h.1).2.1 x r h.2⟩
    exact hkeep.2

theorem toRemote_build {x r : RelPath} :
    (build L R).toRemote[x]? = some r ↔ NfcPair L R x r :=
  ⟨(build_within L R).1.sound x r, (build_within L R).2 x r⟩

theorem toLocal_build {x r : RelPath} :
    (build L R).toLocal[r]? = some x ↔ NfcPair L R x r := by
  rw [← (build_within L R).1.linked, toRemote_build]

end Correspondence

end Build

end DriveSync
