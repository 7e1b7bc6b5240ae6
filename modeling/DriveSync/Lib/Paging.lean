import Mathlib.Data.List.Induction
import Mathlib.Data.List.Sort

/-!
# DriveSync.Lib.Paging

Reading a sorted listing page by page. A page is what lies past a cursor, cut at a limit; the cursor
it hands out is the key of its last row, and there is one exactly when a further row is left.

* `take`: how one pass over the rows fills a page.
* `IsPage`: what a page is, said of the listing.
* `follow`: asking for the next page with the cursor of the last one, until there is none.
* `follow_done`: the pages of one such reading, one after the other, are the listing.
-/

namespace DriveSync
namespace Paging

variable {ρ κ : Type} [LinearOrder κ]

/-- The rows past a cursor. -/
def past (key : ρ → κ) (rows : List ρ) (after : Option κ) : List ρ :=
  rows.filter fun row => after.all fun cursor => decide (cursor < key row)

/-- One row of the pass: skipped where the cursor has it behind, put on the page while there is
room, and the first row without room fixes the cursor. -/
def take (key : ρ → κ) (after : Option κ) (limit : Nat) (page : List ρ × Option κ) (row : ρ) :
    List ρ × Option κ :=
  if after.any fun cursor => decide (key row ≤ cursor) then page
  else if page.1.length = limit then
    (page.1, if page.2.isNone then page.1.getLast?.map key else page.2)
  else (page.1 ++ [row], page.2)

/-- The page past a cursor: as many rows as the limit allows, and a cursor where one is left. -/
structure IsPage (key : ρ → κ) (rows : List ρ) (after : Option κ) (limit : Nat)
    (page : List ρ × Option κ) : Prop where
  taken : page.1 = (past key rows after).take limit
  next : page.2 = if limit < (past key rows after).length then page.1.getLast?.map key else none

theorem past_append (key : ρ → κ) (rows : List ρ) (row : ρ) (after : Option κ) :
    past key (rows ++ [row]) after =
      past key rows after ++
        if after.any fun cursor => decide (key row ≤ cursor) then [] else [row] := by
  cases after with
  | none => simp [past]
  | some cursor =>
    by_cases h : key row ≤ cursor
    · simp [past, h]
    · simp [past, h, not_le.mp h]

/-- The step of the pass: a page of the rows so far becomes one of the rows with one more. -/
theorem take_isPage {key : ρ → κ} {rows : List ρ} {after : Option κ} {limit : Nat}
    {page : List ρ × Option κ} (h : IsPage key rows after limit page)
    (row : ρ) : IsPage key (rows ++ [row]) after limit (take key after limit page row) := by
  obtain ⟨htaken, hnext⟩ := h
  obtain ⟨taken, next⟩ := page
  simp only at htaken hnext
  by_cases hbehind : (after.any fun cursor => decide (key row ≤ cursor)) = true
  · have hpast := past_append key rows row after
    rw [if_pos hbehind, List.append_nil] at hpast
    rw [take, if_pos hbehind]
    exact ⟨by rw [hpast]; exact htaken, by rw [hpast]; exact hnext⟩
  · have hpast := past_append key rows row after
    rw [if_neg hbehind] at hpast
    have hlength : taken.length = min limit (past key rows after).length := by
      rw [htaken, List.length_take]
    rw [take, if_neg hbehind]
    by_cases hfull : taken.length = limit
    · have hle : limit ≤ (past key rows after).length := by omega
      rw [if_pos hfull]
      constructor
      · show taken = _
        rw [hpast, List.take_append_of_le_length hle]; exact htaken
      · have hmore : limit < (past key (rows ++ [row]) after).length := by
          rw [hpast, List.length_append, List.length_singleton]; omega
        rw [if_pos hmore, hnext]
        by_cases hover : limit < (past key rows after).length
        · simp only [if_pos hover, ite_self]
        · simp [if_neg hover]
    · have hlt : (past key rows after).length < limit := by omega
      rw [if_neg hfull]
      constructor
      · show taken ++ [row] = _
        rw [htaken, hpast, List.take_of_length_le (by omega),
          List.take_of_length_le (by simp; omega)]
      · show next = _
        rw [hnext, if_neg (by omega), hpast, if_neg (by simp; omega)]

/-- A pass over the rows leaves the page past the cursor. -/
theorem foldl_take_isPage (key : ρ → κ) (rows : List ρ) (after : Option κ) (limit : Nat) :
    IsPage key rows after limit (rows.foldl (take key after limit) ([], none)) := by
  induction rows using List.reverseRecOn with
  | nil => exact ⟨by simp [past], by simp [past]⟩
  | append_singleton rows row ih =>
    rw [List.foldl_append]
    exact take_isPage ih row

/-- What lies past the last row of a page is the rest of what lies past its cursor. -/
theorem past_next {key : ρ → κ} {rows : List ρ} {after : Option κ} {limit : Nat}
    {page : List ρ × Option κ} {cursor : κ} (hrows : rows.Pairwise fun a b => key a < key b)
    (h : IsPage key rows after limit page) (hnext : page.2 = some cursor) :
    past key rows (some cursor) = (past key rows after).drop limit := by
  have hn := h.next
  rw [hnext] at hn
  split at hn
  · obtain ⟨last, hlast, rfl⟩ := Option.map_eq_some_iff.mp hn.symm
    have hcut := List.take_append_drop limit (past key rows after)
    rw [← h.taken] at hcut
    have hpast : (page.1 ++ (past key rows after).drop limit).Pairwise fun a b => key a < key b := by
      rw [hcut]; exact hrows.filter _
    obtain ⟨hpage, _, hcross⟩ := List.pairwise_append.mp hpast
    -- the last row is past the old cursor, so what lies past it lies past the old cursor too
    have hmem : last ∈ past key rows after := by
      rw [← hcut]; exact List.mem_append_left _ (List.mem_of_getLast? hlast)
    have hafter : past key rows (some (key last)) =
        (past key rows after).filter fun row => decide (key last < key row) := by
      rw [past, past, List.filter_filter]
      refine List.filter_congr fun row _ => ?_
      by_cases hlt : key last < key row
      · have : after.all (fun cursor => decide (cursor < key row)) = true := by
          have hpassed := (List.mem_filter.mp hmem).2
          cases after with
          | none => rfl
          | some c => simpa using lt_trans (by simpa using hpassed) hlt
        simp [hlt, this]
      · simp [hlt]
    rw [hafter, ← hcut, List.filter_append]
    have hbehind : page.1.filter (fun row => decide (key last < key row)) = [] := by
      rw [List.filter_eq_nil_iff]
      intro row hrow
      obtain ⟨front, hfront⟩ := List.getLast?_eq_some_iff.mp hlast
      rw [hfront] at hrow hpage
      rcases List.mem_append.mp hrow with hrow | hrow
      · have := (List.pairwise_append.mp hpage).2.2 row hrow last (by simp)
        simpa using this.le
      · simp [List.mem_singleton.mp hrow]
    have hahead : ((past key rows after).drop limit).filter (fun row => decide (key last < key row)) =
        (past key rows after).drop limit := by
      rw [List.filter_eq_self]
      intro row hrow
      simpa using hcross last (List.mem_of_getLast? hlast) row hrow
    rw [hbehind, hahead, List.nil_append, hcut]
  · cases hn

/-! ## Following the cursor -/

variable {π ε : Type}

/-- Ask for page after page, each with the cursor of the one before, until a page has none. -/
def follow (page : Nat → Option κ → Except ε π) (next : π → Option κ) :
    Nat → Nat → Option κ → Option (Except ε (List π))
  | 0, _, _ => none
  | fuel + 1, call, after =>
    match page call after with
    | .error e => some (.error e)
    | .ok p =>
      match next p with
      | none => some (.ok [p])
      | some cursor =>
        (follow page next fuel (call + 1) (some cursor)).map fun rest => rest.map (p :: ·)

/-- Where every answer is the page past its cursor, following the cursor comes to an end, and the
pages together are what lies past the first cursor. -/
theorem follow_done {page : Nat → Option κ → Except ε π} {next : π → Option κ} {key : ρ → κ}
    {rows : List ρ} {rowsOf : π → List ρ} {limits : Nat → Nat}
    (hrows : rows.Pairwise fun a b => key a < key b) (hlimits : ∀ call, 0 < limits call)
    (hpage : ∀ call after, ∃ p, page call after = .ok p ∧
      IsPage key rows after (limits call) (rowsOf p, next p))
    {fuel : Nat} (call : Nat) (after : Option κ) (hfuel : (past key rows after).length < fuel) :
    ∃ pages, follow page next fuel call after = some (.ok pages) ∧
      pages.flatMap rowsOf = past key rows after ∧
      ∀ p ∈ pages, ∃ call after, page call after = .ok p := by
  induction fuel generalizing call after with
  | zero => omega
  | succ fuel ih =>
    obtain ⟨p, hp, his⟩ := hpage call after
    simp only [follow, hp]
    cases hnext : next p with
    | none =>
      refine ⟨[p], rfl, ?_, by simpa using ⟨call, after, hp⟩⟩
      have htaken := his.taken
      have hlast := his.next
      rw [hnext] at hlast htaken
      simp only at htaken hlast
      rw [List.flatMap_singleton, htaken, List.take_of_length_le]
      by_contra hmore
      rw [if_pos (not_le.mp hmore)] at hlast
      -- a page that leaves a row behind is not empty, and so hands out a cursor
      rw [eq_comm, Option.map_eq_none_iff, List.getLast?_eq_none_iff, htaken,
        List.take_eq_nil_iff] at hlast
      have := hlimits call
      rcases hlast with h0 | h0
      · omega
      · rw [h0, List.length_nil] at hmore; omega
    | some cursor =>
      have hrest := past_next hrows his hnext
      have hlimit := hlimits call
      have hshort : (past key rows (some cursor)).length < fuel := by
        rw [hrest, List.length_drop]
        have hlast := his.next
        rw [hnext] at hlast
        split at hlast
        · omega
        · cases hlast
      obtain ⟨pages, hfollow, hflat, hall⟩ := ih (call + 1) (some cursor) hshort
      refine ⟨p :: pages, by simp [hfollow, Except.map], ?_, ?_⟩
      · have htaken : rowsOf p = _ := his.taken
        rw [List.flatMap_cons, hflat, hrest, htaken, List.take_append_drop]
      · intro q hq
        rcases List.mem_cons.mp hq with rfl | hq
        · exact ⟨call, after, hp⟩
        · exact hall q hq

end Paging
end DriveSync
