import Mathlib.Data.Finset.Max
import Mathlib.Data.List.Sort
import Mathlib.Order.Lattice

/-!
# DriveSync.Lib.Topmost

A sorted list read once for its topmost bad elements: an element beneath the last one kept is passed
over, and any other bad one is kept. `above` is a nesting: what is above comes first, and the elements
above one are above each other.

* `covers_scan`: every bad element is kept, or lies beneath a kept one.
* `antichain_scan_iff`: what is kept is topmost but for the bad elements that come between a topmost
  one and what lies beneath it.
-/

namespace DriveSync
namespace Topmost

variable {α : Type}

/-- What is above an element comes before it, and any two such are one above the other. -/
structure Nesting [LinearOrder α] (above : α → α → Prop) : Prop where
  lt : ∀ {a b}, above a b → a < b
  trans : ∀ {a b c}, above a b → above b c → above a c
  comparable : ∀ {a b c}, above a c → above b c → a = b ∨ above a b ∨ above b a

section Scan

variable (above : α → α → Prop) [DecidableRel above] (bad : α → Prop) [DecidablePred bad]

def step (kept : List α) (x : α) : List α :=
  if kept.getLast?.any fun last => decide (above last x) then kept
  else if bad x then kept ++ [x]
  else kept

def scan (l : List α) : List α := l.foldl (step above bad) []

theorem scan_snoc (l : List α) (x : α) :
    scan above bad (l ++ [x]) = step above bad (scan above bad l) x := by
  simp [scan, List.foldl_append]

/-- Either nothing is kept of an element, or the element is bad and not beneath the last one. -/
theorem step_cases (kept : List α) (x : α) :
    (step above bad kept x = kept ∧
        (bad x → ∃ last, kept.getLast? = some last ∧ above last x)) ∨
      (step above bad kept x = kept ++ [x] ∧ bad x ∧
        ∀ last, kept.getLast? = some last → ¬above last x) := by
  by_cases hlast : kept.getLast?.any (fun last => decide (above last x)) = true
  · left
    refine ⟨if_pos hlast, fun _ => ?_⟩
    simpa [Option.any_eq_true] using hlast
  · have hnot : ∀ last, kept.getLast? = some last → ¬above last x := by
      intro last heq habove
      exact hlast (by simp [heq, habove])
    by_cases hbad : bad x
    · exact .inr ⟨by rw [step, if_neg hlast, if_pos hbad], hbad, hnot⟩
    · exact .inl ⟨by rw [step, if_neg hlast, if_neg hbad], fun h => absurd h hbad⟩

end Scan

variable {above : α → α → Prop} [DecidableRel above] {bad : α → Prop} [DecidablePred bad]

theorem scan_sublist (l : List α) : (scan above bad l).Sublist l := by
  induction l using List.reverseRecOn with
  | nil => exact .slnil
  | append_singleton l x ih =>
    rw [scan_snoc]
    rcases step_cases above bad (scan above bad l) x with ⟨h, _⟩ | ⟨h, _, _⟩
    · rw [h]
      exact ih.trans (List.sublist_append_left l [x])
    · rw [h]
      exact ih.append (List.Sublist.refl [x])

theorem bad_of_mem_scan {l : List α} {x : α} (h : x ∈ scan above bad l) : bad x := by
  induction l using List.reverseRecOn with
  | nil => simp [scan] at h
  | append_singleton l y ih =>
    rw [scan_snoc] at h
    rcases step_cases above bad (scan above bad l) y with
      ⟨heq, _⟩ | ⟨heq, hbad, _⟩
    · exact ih (heq ▸ h)
    · rw [heq, List.mem_append, List.mem_singleton] at h
      rcases h with h | rfl
      · exact ih h
      · exact hbad

theorem mem_of_mem_scan {l : List α} {x : α} (h : x ∈ scan above bad l) : x ∈ l :=
  (scan_sublist l).subset h

/-- Reading on only adds to what is kept, and what it adds comes from what is read on. -/
theorem mem_scan_append {l rest : List α} {x : α} :
    (x ∈ scan above bad l → x ∈ scan above bad (l ++ rest)) ∧
      (x ∈ scan above bad (l ++ rest) → x ∈ scan above bad l ∨ x ∈ rest) := by
  induction rest using List.reverseRecOn with
  | nil => simp
  | append_singleton rest y ih =>
    rw [← List.append_assoc, scan_snoc]
    rcases step_cases above bad (scan above bad (l ++ rest)) y with
      ⟨h, _⟩ | ⟨h, _, _⟩
    · rw [h]
      refine ⟨ih.1, fun hx => (ih.2 hx).imp_right ?_⟩
      exact List.mem_append_left _
    · rw [h]
      refine ⟨fun hx => List.mem_append_left _ (ih.1 hx), fun hx => ?_⟩
      rcases List.mem_append.mp hx with hx | hx
      · exact (ih.2 hx).imp_right (List.mem_append_left _)
      · exact .inr (List.mem_append_right _ hx)

/-- A bad element is kept where the last one kept before it is not above it. -/
theorem mem_scan_of_last {before after : List α} {x : α} (hbad : bad x)
    (hlast : ∀ last, (scan above bad before).getLast? = some last → ¬above last x) :
    x ∈ scan above bad (before ++ x :: after) := by
  have hkept : x ∈ scan above bad (before ++ [x]) := by
    rw [scan_snoc]
    rcases step_cases above bad (scan above bad before) x with
      ⟨_, hpassed⟩ | ⟨h, _, _⟩
    · obtain ⟨last, hget, habove⟩ := hpassed hbad
      exact absurd habove (hlast last hget)
    · rw [h]
      simp
  have hread : x ∈ scan above bad ((before ++ [x]) ++ after) := mem_scan_append.1 hkept
  simpa using hread

variable [LinearOrder α]

theorem sorted_scan {l : List α} (hl : l.Pairwise (· < ·)) :
    (scan above bad l).Pairwise (· < ·) := hl.sublist (scan_sublist l)

theorem le_getLast {l : List α} (hl : l.Pairwise (· < ·)) {last : α}
    (hlast : l.getLast? = some last) : ∀ x ∈ l, x ≤ last := by
  obtain ⟨l', rfl⟩ := List.getLast?_eq_some_iff.mp hlast
  intro x hx
  rcases List.mem_append.mp hx with hx | hx
  · exact le_of_lt ((List.pairwise_append.mp hl).2.2 x hx last (by simp))
  · exact le_of_eq (List.mem_singleton.mp hx)

/-- A bad element is kept or lies beneath a kept one, and nothing kept comes between the two. -/
theorem covers_scan {l : List α} (hl : l.Pairwise (· < ·)) {x : α} (hx : x ∈ l) (hbad : bad x) :
    ∃ k ∈ scan above bad l, (k = x ∨ above k x) ∧ ∀ j ∈ scan above bad l, j ≤ x → j ≤ k := by
  induction l using List.reverseRecOn with
  | nil => simp at hx
  | append_singleton l y ih =>
    obtain ⟨hl', _, hbefore⟩ := List.pairwise_append.mp hl
    have hlast : ∀ j ∈ l, j < y := fun j hj => hbefore j hj y (by simp)
    rw [scan_snoc]
    rcases List.mem_append.mp hx with hx | hx
    · obtain ⟨k, hk, hkx, hnext⟩ := ih hl' hx
      rcases step_cases above bad (scan above bad l) y with
        ⟨heq, _⟩ | ⟨heq, _, _⟩
      · rw [heq]
        exact ⟨k, hk, hkx, hnext⟩
      · rw [heq]
        refine ⟨k, List.mem_append_left _ hk, hkx, ?_⟩
        intro j hj hle
        rcases List.mem_append.mp hj with hj | hj
        · exact hnext j hj hle
        · rw [List.mem_singleton.mp hj] at hle
          exact absurd (hlast x hx) (not_lt_of_ge hle)
    · obtain rfl := List.mem_singleton.mp hx
      rcases step_cases above bad (scan above bad l) x with
        ⟨heq, hpassed⟩ | ⟨heq, _, _⟩
      · rw [heq]
        obtain ⟨last, hget, habove⟩ := hpassed hbad
        exact ⟨last, List.mem_of_getLast? hget, .inr habove,
          fun j hj _ => le_getLast (sorted_scan hl') hget j hj⟩
      · rw [heq]
        exact ⟨x, by simp, .inl rfl, fun j _ hle => hle⟩

/-- The bad elements no bad one is above. -/
def IsTopmost (above : α → α → Prop) (bad : α → Prop) (l : List α) (x : α) : Prop :=
  x ∈ l ∧ bad x ∧ ∀ y ∈ l, bad y → ¬above y x

theorem mem_scan_of_isTopmost {l : List α} (hl : l.Pairwise (· < ·)) {x : α}
    (h : IsTopmost above bad l x) : x ∈ scan above bad l := by
  obtain ⟨k, hk, rfl | habove, _⟩ :
      ∃ k ∈ scan above bad l, (k = x ∨ above k x) ∧ ∀ j ∈ scan above bad l, j ≤ x → j ≤ k :=
    covers_scan hl h.1 h.2.1
  · exact hk
  · exact absurd habove (h.2.2 k (mem_of_mem_scan hk) (bad_of_mem_scan hk))

theorem exists_least (l : List α) (P : α → Prop) [DecidablePred P] (h : ∃ x ∈ l, P x) :
    ∃ x ∈ l, P x ∧ ∀ y ∈ l, P y → x ≤ y := by
  obtain ⟨x, hx, hP⟩ := h
  obtain ⟨m, hm, hle⟩ := Finset.exists_min_image (l.toFinset.filter P) id ⟨x, by simp [hx, hP]⟩
  simp only [Finset.mem_filter, List.mem_toFinset, id_eq, and_imp] at hm hle
  exact ⟨m, hm.1, hm.2, hle⟩

/-- A sorted list cut at one of its elements: everything smaller comes before it. -/
theorem exists_cut {l : List α} (hl : l.Pairwise (· < ·)) {x : α} (hx : x ∈ l) :
    ∃ before after, l = before ++ x :: after ∧ before.Pairwise (· < ·) ∧
      ∀ y, y ∈ before ↔ y ∈ l ∧ y < x := by
  obtain ⟨before, after, rfl⟩ := List.append_of_mem hx
  obtain ⟨hbefore, hrest, hlt⟩ := List.pairwise_append.mp hl
  refine ⟨before, after, rfl, hbefore, fun y => ⟨fun hy => ?_, ?_⟩⟩
  · exact ⟨List.mem_append_left _ hy, hlt y hy x (by simp)⟩
  · rintro ⟨hy, hyx⟩
    rcases List.mem_append.mp hy with hy | hy
    · exact hy
    · rcases List.mem_cons.mp hy with rfl | hy
      · exact absurd hyx (lt_irrefl _)
      · exact absurd hyx (lt_asymm ((List.pairwise_cons.mp hrest).1 y hy))

/-- What is kept before an element of a sorted list is what is kept of it that is smaller. -/
theorem mem_scan_before {before after : List α} {x : α}
    (hl : (before ++ x :: after).Pairwise (· < ·)) {y : α} :
    y ∈ scan above bad before ↔ y ∈ scan above bad (before ++ x :: after) ∧ y < x := by
  obtain ⟨_, hrest, hlt⟩ := List.pairwise_append.mp hl
  constructor
  · intro hy
    exact ⟨mem_scan_append.1 hy, hlt y (mem_of_mem_scan hy) x (by simp)⟩
  · rintro ⟨hy, hyx⟩
    rcases mem_scan_append.2 hy with hy | hy
    · exact hy
    · rcases List.mem_cons.mp hy with rfl | hy
      · exact absurd hyx (lt_irrefl _)
      · exact absurd hyx (lt_asymm ((List.pairwise_cons.mp hrest).1 y hy))

/-- An element is kept only where the last one kept before it is not above it. -/
theorem last_of_mem_scan {before after : List α} {x : α}
    (hl : (before ++ x :: after).Pairwise (· < ·))
    (hx : x ∈ scan above bad (before ++ x :: after)) :
    ∀ last, (scan above bad before).getLast? = some last → ¬above last x := by
  have hcut : before ++ x :: after = (before ++ [x]) ++ after := by simp
  have hkept : x ∈ scan above bad (before ++ [x]) := by
    rw [hcut] at hx hl
    rcases mem_scan_append.2 hx with hx | hx
    · exact hx
    · exact absurd ((List.pairwise_append.mp hl).2.2 x (by simp) x hx) (lt_irrefl _)
  rw [scan_snoc] at hkept
  rcases step_cases above bad (scan above bad before) x with
    ⟨h, _⟩ | ⟨_, _, hnot⟩
  · rw [h] at hkept
    have := (List.pairwise_append.mp hl).2.2 x (mem_of_mem_scan hkept) x (by simp)
    exact absurd this (lt_irrefl _)
  · exact hnot

/-- A bad element between a topmost one and a bad one beneath it. -/
structure Parted (above : α → α → Prop) (bad : α → Prop) (l : List α) (top between under : α) :
    Prop where
  topmost : IsTopmost above bad l top
  between_mem : between ∈ l
  between_bad : bad between
  aside : ¬above top between
  under_mem : under ∈ l
  under_bad : bad under
  beneath : above top under
  first : top < between
  second : between < under

def Antichain (above : α → α → Prop) (l : List α) : Prop := ∀ a ∈ l, ∀ b ∈ l, ¬above a b

/-- The first bad element that comes back beneath a topmost one is kept a second time. -/
theorem not_antichain_of_parted (hnest : Nesting above) {l : List α} (hl : l.Pairwise (· < ·))
    {top between under : α} (h : Parted above bad l top between under) :
    ¬Antichain above (scan above bad l) := by
  obtain ⟨q, hq, ⟨hbad, habove, hlt⟩, hleast⟩ := exists_least l
    (fun x => bad x ∧ above top x ∧ between < x)
    ⟨under, h.under_mem, h.under_bad, h.beneath, h.second⟩
  obtain ⟨before, after, rfl, hbefore, hmem⟩ := exists_cut hl hq
  have htop : top ∈ scan above bad before := (mem_scan_before hl).mpr
    ⟨mem_scan_of_isTopmost hl h.topmost, hnest.lt habove⟩
  obtain ⟨k, hk, hcover, hnext⟩ :
      ∃ k ∈ scan above bad before, (k = between ∨ above k between) ∧
        ∀ j ∈ scan above bad before, j ≤ between → j ≤ k :=
    covers_scan hbefore ((hmem between).mpr ⟨h.between_mem, hlt⟩) h.between_bad
  have htopk : top < k := by
    refine lt_of_le_of_ne (hnext top htop (le_of_lt h.first)) ?_
    rintro rfl
    rcases hcover with rfl | hcover
    · exact lt_irrefl _ h.first
    · exact h.aside hcover
  intro hanti
  refine hanti top (mem_scan_of_isTopmost hl h.topmost) q ?_ habove
  refine mem_scan_of_last hbad fun last hget hlast => ?_
  have hkl : k ≤ last := le_getLast (sorted_scan hbefore) hget k hk
  have hlastmem : last ∈ scan above bad before := List.mem_of_getLast? hget
  rcases hnest.comparable habove hlast with rfl | htl | hlt'
  · exact absurd htopk (not_lt_of_ge hkl)
  · rcases lt_or_ge between last with hbl | hlb
    · -- the last one kept would have come back before `q`
      have hin := (hmem last).mp (mem_of_mem_scan hlastmem)
      exact absurd (hleast last hin.1 ⟨bad_of_mem_scan hlastmem, htl, hbl⟩) (not_le_of_gt hin.2)
    · obtain rfl : k = last := le_antisymm hkl (hnext last hlastmem hlb)
      rcases hcover with rfl | hcover
      · exact h.aside htl
      · exact h.aside (hnest.trans htl hcover)
  · exact absurd (hnest.lt hlt') (not_lt_of_ge (le_of_lt (lt_of_lt_of_le htopk hkl)))

theorem exists_parted (hnest : Nesting above) {l : List α} (hl : l.Pairwise (· < ·))
    (h : ¬Antichain above (scan above bad l)) :
    ∃ top between under, Parted above bad l top between under := by
  obtain ⟨a, ha, b, hb, hab⟩ : ∃ a ∈ scan above bad l, ∃ b ∈ scan above bad l, above a b := by
    simpa [Antichain] using h
  obtain ⟨top, htopmem, ⟨htopbad, htopb⟩, hleast⟩ := exists_least l
    (fun x => bad x ∧ above x b) ⟨a, mem_of_mem_scan ha, bad_of_mem_scan ha, hab⟩
  have htop : IsTopmost above bad l top := by
    refine ⟨htopmem, htopbad, fun y hy hbad habove => ?_⟩
    exact absurd (hnest.lt habove) (not_lt_of_ge (hleast y hy ⟨hbad, hnest.trans habove htopb⟩))
  obtain ⟨under, hunder, habove, hfirst⟩ := exists_least
    (scan above bad l) (fun x => above top x) ⟨b, hb, htopb⟩
  obtain ⟨before, after, rfl, hbefore, hmem⟩ := exists_cut hl (mem_of_mem_scan hunder)
  have htopin : top ∈ scan above bad before :=
    (mem_scan_before hl).mpr ⟨mem_scan_of_isTopmost hl htop, hnest.lt habove⟩
  obtain ⟨last, hget⟩ : ∃ last, (scan above bad before).getLast? = some last := by
    cases hlast : (scan above bad before).getLast? with
    | none => rw [List.getLast?_eq_none_iff.mp hlast] at htopin; simp at htopin
    | some last => exact ⟨last, rfl⟩
  have hlastmem := List.mem_of_getLast? hget
  have hnot : ¬above last under := last_of_mem_scan hl hunder last hget
  obtain ⟨hlastscan, hlastlt⟩ := (mem_scan_before hl).mp hlastmem
  refine ⟨top, last, under, htop, mem_of_mem_scan hlastscan, bad_of_mem_scan hlastmem, ?_,
    mem_of_mem_scan hunder, bad_of_mem_scan hunder, habove, ?_, hlastlt⟩
  · intro hbelow
    exact absurd hlastlt (not_lt_of_ge (hfirst last hlastscan hbelow))
  · refine lt_of_le_of_ne (le_getLast (sorted_scan hbefore) hget top htopin) ?_
    rintro rfl
    exact hnot habove

/-- The scan keeps the topmost alone where no bad element parts a topmost one from what lies beneath
it. -/
theorem antichain_scan_iff (hnest : Nesting above) {l : List α} (hl : l.Pairwise (· < ·)) :
    Antichain above (scan above bad l) ↔
      ¬∃ top between under, Parted above bad l top between under := by
  constructor
  · rintro h ⟨top, between, under, hparted⟩
    exact not_antichain_of_parted hnest hl hparted h
  · intro h
    by_contra hnot
    exact h (exists_parted hnest hl hnot)

end Topmost
end DriveSync
