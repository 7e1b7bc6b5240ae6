import Mathlib.Data.List.Induction
import Mathlib.Data.List.Sort
import Mathlib.Order.Lattice

/-!
# DriveSync.Lib.Latest

A map from keys to values that carry their key, filled from a list in which the last value of a key
counts. It is kept as its values in the order of their keys.

* `mem_latest`, `exists_of_mem`: its values are of the list, and every key of the list has one.
* `latest_filter`: leaving out some keys before or after is the same.
* `latest_perm_iff`: the order of the list does not matter exactly if no key has two values.
-/

namespace DriveSync
namespace Latest

variable {α κ : Type} [LinearOrder κ] (key : α → κ)

/-- The values with one more, in place of that of its key. -/
def put (a : α) : List α → List α
  | [] => [a]
  | b :: rest =>
    if key a < key b then a :: b :: rest
    else if key a = key b then a :: rest
    else b :: put a rest

def latest (values : List α) : List α := values.foldl (fun kept a => put key a kept) []

/-- One value a key, in the order of the keys. -/
def Ordered (kept : List α) : Prop := kept.Pairwise fun a b => key a < key b

variable {key} {a b : α} {kept kept' values values' : List α}

theorem mem_put (h : Ordered key kept) :
    b ∈ put key a kept ↔ b = a ∨ b ∈ kept ∧ key b ≠ key a := by
  induction kept with
  | nil => simp [put]
  | cons c rest ih =>
    obtain ⟨hhead, hrest⟩ := List.pairwise_cons.mp h
    unfold put
    split
    · rename_i hlt
      have hne : ∀ d ∈ c :: rest, key d ≠ key a := by
        intro d hd heq
        rcases List.mem_cons.mp hd with rfl | hd
        · exact absurd heq hlt.ne'
        · exact absurd heq (hlt.trans (hhead d hd)).ne'
      rw [List.mem_cons]
      constructor
      · rintro (rfl | hd)
        · exact .inl rfl
        · exact .inr ⟨hd, hne b hd⟩
      · rintro (rfl | ⟨hd, -⟩)
        · exact .inl rfl
        · exact .inr hd
    · split
      · rename_i heq
        rw [List.mem_cons, List.mem_cons]
        constructor
        · rintro (rfl | hd)
          · exact .inl rfl
          · exact .inr ⟨.inr hd, heq ▸ (hhead b hd).ne'⟩
        · rintro (rfl | ⟨rfl | hd, hne⟩)
          · exact .inl rfl
          · exact absurd heq.symm hne
          · exact .inr hd
      · rename_i hne
        rw [List.mem_cons, List.mem_cons, ih hrest]
        constructor
        · rintro (rfl | rfl | ⟨hd, hne'⟩)
          · exact .inr ⟨.inl rfl, fun heq => hne heq.symm⟩
          · exact .inl rfl
          · exact .inr ⟨.inr hd, hne'⟩
        · rintro (rfl | ⟨rfl | hd, hne'⟩)
          · exact .inr (.inl rfl)
          · exact .inl rfl
          · exact .inr (.inr ⟨hd, hne'⟩)

theorem Ordered.put (h : Ordered key kept) (a : α) : Ordered key (put key a kept) := by
  induction kept with
  | nil => exact List.pairwise_singleton _ _
  | cons c rest ih =>
    obtain ⟨hhead, hrest⟩ := List.pairwise_cons.mp h
    unfold Latest.put
    split
    · rename_i hlt
      refine List.pairwise_cons.mpr ⟨fun d hd => ?_, h⟩
      rcases List.mem_cons.mp hd with rfl | hd
      · exact hlt
      · exact hlt.trans (hhead d hd)
    · split
      · rename_i heq
        exact List.pairwise_cons.mpr ⟨fun d hd => heq ▸ hhead d hd, hrest⟩
      · rename_i hnlt hne
        refine List.pairwise_cons.mpr ⟨fun d hd => ?_, ih hrest⟩
        rcases (mem_put hrest).mp hd with rfl | ⟨hd, -⟩
        · exact lt_of_le_of_ne (not_lt.mp hnlt) fun heq => hne heq.symm
        · exact hhead d hd

/-- Two maps of the same values are one. -/
theorem Ordered.ext (h : Ordered key kept) (h' : Ordered key kept')
    (hmem : ∀ a, a ∈ kept ↔ a ∈ kept') : kept = kept' := by
  have hnodup : kept.Nodup := h.imp fun hlt heq => absurd (congrArg key heq) hlt.ne
  have hnodup' : kept'.Nodup := h'.imp fun hlt heq => absurd (congrArg key heq) hlt.ne
  have hanti : ∀ a b, a ∈ kept → b ∈ kept' → key a < key b → key b < key a → a = b :=
    fun a b _ _ hlt hlt' => absurd hlt hlt'.asymm
  exact List.Perm.eq_of_pairwise hanti h h' ((List.perm_ext_iff_of_nodup hnodup hnodup').mpr hmem)

theorem latest_push : latest key (values ++ [a]) = put key a (latest key values) := by
  unfold latest
  rw [List.foldl_append]
  rfl

theorem latest_ordered : Ordered key (latest key values) := by
  induction values using List.reverseRecOn with
  | nil => exact List.Pairwise.nil
  | append_singleton values a ih =>
    rw [latest_push]
    exact ih.put a

theorem mem_latest_push : b ∈ latest key (values ++ [a]) ↔
    b = a ∨ b ∈ latest key values ∧ key b ≠ key a := by
  rw [latest_push, mem_put latest_ordered]

theorem mem_of_mem_latest (h : b ∈ latest key values) : b ∈ values := by
  induction values using List.reverseRecOn with
  | nil => cases h
  | append_singleton values a ih =>
    rcases mem_latest_push.mp h with rfl | ⟨h, -⟩
    · simp
    · exact List.mem_append_left _ (ih h)

variable (key) in
theorem exists_of_mem (h : b ∈ values) : ∃ c ∈ latest key values, key c = key b := by
  induction values using List.reverseRecOn with
  | nil => cases h
  | append_singleton values a ih =>
    by_cases heq : key b = key a
    · exact ⟨a, mem_latest_push.mpr (.inl rfl), heq.symm⟩
    · have hb : b ∈ values := by
        rcases List.mem_append.mp h with h | h
        · exact h
        · exact absurd (congrArg key (List.mem_singleton.mp h)) heq
      obtain ⟨c, hc, hkey⟩ := ih hb
      exact ⟨c, mem_latest_push.mpr (.inr ⟨hc, hkey ▸ heq⟩), hkey⟩

/-- With one value a key, the map holds them all. -/
theorem mem_latest_of_single (hsingle : ∀ a ∈ values, ∀ b ∈ values, key a = key b → a = b) :
    b ∈ latest key values ↔ b ∈ values := by
  constructor
  · exact mem_of_mem_latest
  · intro hb
    obtain ⟨c, hc, hkey⟩ := exists_of_mem key hb
    rwa [← hsingle c (mem_of_mem_latest hc) b hb hkey]

theorem latest_filter (p : κ → Bool) :
    latest key (values.filter fun a => p (key a)) = (latest key values).filter fun a => p (key a) := by
  refine Ordered.ext latest_ordered (latest_ordered.filter _) fun b => ?_
  rw [List.mem_filter]
  induction values using List.reverseRecOn with
  | nil => simp [latest]
  | append_singleton values a ih =>
    rw [List.filter_append, mem_latest_push]
    by_cases ha : p (key a) = true
    · rw [List.filter_singleton, ha, cond_true, mem_latest_push, ih]
      constructor
      · rintro (rfl | ⟨⟨hb, hp⟩, hne⟩)
        · exact ⟨.inl rfl, ha⟩
        · exact ⟨.inr ⟨hb, hne⟩, hp⟩
      · rintro ⟨rfl | ⟨hb, hne⟩, hp⟩
        · exact .inl rfl
        · exact .inr ⟨⟨hb, hp⟩, hne⟩
    · rw [List.filter_singleton, Bool.eq_false_of_not_eq_true ha, cond_false, List.append_nil, ih]
      constructor
      · rintro ⟨hb, hp⟩
        exact ⟨.inr ⟨hb, fun heq => ha (heq ▸ hp)⟩, hp⟩
      · rintro ⟨rfl | ⟨hb, -⟩, hp⟩
        · exact absurd hp ha
        · exact ⟨hb, hp⟩

/-- The order of the list does not matter exactly if no key has two values. -/
theorem latest_perm_iff : (∀ values', values'.Perm values → latest key values' = latest key values) ↔
    ∀ a ∈ values, ∀ b ∈ values, key a = key b → a = b := by
  constructor
  · intro h a ha b hb hkey
    have hpush (c : α) (hc : c ∈ values) : ∃ others,
        latest key (others ++ [c]) = latest key values := by
      obtain ⟨before, after, rfl⟩ := List.append_of_mem hc
      exact ⟨before ++ after,
        h _ ((List.perm_append_singleton c _).trans List.perm_middle.symm)⟩
    obtain ⟨_, hlastA⟩ := hpush a ha
    obtain ⟨_, hlastB⟩ := hpush b hb
    have hkept : a ∈ latest key values := hlastA ▸ mem_latest_push.mpr (.inl rfl)
    rw [← hlastB] at hkept
    rcases mem_latest_push.mp hkept with heq | ⟨-, hne⟩
    · exact heq
    · exact absurd hkey hne
  · intro h values' hperm
    refine Ordered.ext latest_ordered latest_ordered fun a => ?_
    have h' : ∀ a ∈ values', ∀ b ∈ values', key a = key b → a = b := fun a ha b hb =>
      h a (hperm.subset ha) b (hperm.subset hb)
    rw [mem_latest_of_single h, mem_latest_of_single h', hperm.mem_iff]

end Latest
end DriveSync
