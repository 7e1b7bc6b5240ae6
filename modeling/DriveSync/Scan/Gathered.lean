import DriveSync.Scan.Found

/-!
# DriveSync.Scan.Gathered

What the walk has recorded after some of its findings: every entry carried whose folder was not found
unreadable since, every path declined, and as many records as findings that count against the budget.

* `Gathered`: the state, in terms of the findings gone over.
* `Gathered.step`: one more finding.
* `rationed`: the walk under a budget is the free one until the budget is spent.
-/

namespace DriveSync

namespace EntryMap

variable {ε : Type} {relative : ε → RelPath} {m : EntryMap ε relative}

theorem contains_map_of_get? {k : RelPath} {e : ε} (h : m.get? k = some e) :
    m.map.contains k = true := by
  rw [Std.TreeMap.contains_eq_isSome_getElem?]
  exact Option.isSome_iff_exists.mpr ⟨e, h⟩

theorem length_values_insert {e : ε} (h : relative e ≠ .root) (hnew : m.get? (relative e) = none) :
    (m.insert e).values.length = m.values.length + 1 := by
  have hcontains : m.map.contains (relative e) = false := by
    rw [Std.TreeMap.contains_eq_isSome_getElem?]
    exact Option.isSome_eq_false_iff.mpr (by simpa [get?] using hnew)
  simp [values, insert, h, Std.TreeMap.length_toList, Std.TreeMap.size_insert, hcontains]

theorem length_values_erase {k : RelPath} {e : ε} (h : m.get? k = some e) :
    (m.erase k).values.length + 1 = m.values.length := by
  have hcontains := contains_map_of_get? h
  have hpos : m.map.size ≠ 0 := by
    have hempty := Std.TreeMap.isEmpty_eq_false_of_contains hcontains
    rw [Std.TreeMap.isEmpty_eq_size_eq_zero] at hempty
    simpa using hempty
  simp only [values, List.length_map, Std.TreeMap.length_toList, erase, Std.TreeMap.size_erase,
    hcontains, if_true]
  omega

end EntryMap

namespace Scan

open Path

/-! ## Without a budget -/

/-- What a reading adds where nothing limits what is recorded. -/
def ScanState.grow (s : ScanState) : Reading → ScanState
  | .passed => s
  | .excluded relative => { s with excluded := s.excluded.insert relative }
  | .skip skip => { s with output := ⟨s.output.entries, s.output.skipped ++ [skip]⟩ }
  | .carry entry => { s with output := ⟨s.output.entries.insert entry, s.output.skipped⟩ }

def free (ctx : Context) (s : ScanState) : Finding → Except ExecError ScanState
  | .check cancelled => if cancelled then .error .cancelled else .ok s
  | .unreadable folder failure =>
    if folder = .root then .error (.fileIo ctx.tree.rootPath failure.kind failure.text)
    else .ok (s.withholdUnreadable folder (ctx.tree.folderPath folder) failure)
  | .read reading => .ok (s.grow reading)

/-- What a finding counts for. A folder that cannot be read is a skip in place of its entry. -/
def cost : Finding → Nat
  | .read (.carry _) => 1
  | .read (.skip _) => 1
  | _ => 0

/-- The path a finding declines to carry. -/
def declined? (ctx : Context) : Finding → Option SkippedEntry
  | .read (.skip skip) => some skip
  | .unreadable folder failure =>
    some ⟨folder, .deferred (readFailureDetail (ctx.tree.folderPath folder) failure)⟩
  | _ => none

/-- What is recorded after some findings. -/
structure Gathered (ctx : Context) (done : List Finding) (s : ScanState) : Prop where
  entries : ∀ k e, s.output.entries.get? k = some e ↔ .read (.carry e) ∈ done ∧ e.relative = k ∧
    ∀ failure, .unreadable k failure ∉ done
  skipped : s.output.skipped = done.filterMap (declined? ctx)
  excluded : ∀ k, k ∈ s.excluded ↔ .read (.excluded k) ∈ done
  complete : s.complete = true

section Gathered

variable {ctx : Context}

theorem gathered_start : Gathered ctx [] .start where
  entries := by
    intro k e
    simp [ScanState.start, EntryMap.empty, EntryMap.get?]
  skipped := rfl
  excluded := by
    intro k
    simp [ScanState.start]
  complete := rfl

theorem get?_withholdUnreadable (s : ScanState) (relative : RelPath) (path : String)
    (failure : ReadFailure) (k : RelPath) :
    (s.withholdUnreadable relative path failure).output.entries.get? k =
      if AtOrUnder relative k then none else s.output.entries.get? k := by
  have hwithhold : (s.withholdUnreadable relative path failure).output.entries =
      ((⟨"", s.output.entries, []⟩ : LocalInventory).withhold relative
        .linkOrReparsePoint).entries := by
    simp [ScanState.withholdUnreadable, LocalInventory.withhold, LocalInventory.atOrBeneath,
      List.foldl_append]
  rw [hwithhold, LocalInventory.get?_withhold]

variable [Unicode]

/-- No finding follows that tells of the same entry again, or that its folder could not be read
before it was found. -/
theorem fresh {done rest : List Finding} {e : LocalEntry}
    (hall : findings ctx 248 .root = done ++ .read (.carry e) :: rest) :
    (∀ d, .read (.carry d) ∈ done → d.relative ≠ e.relative) ∧
      ∀ failure, .unreadable e.relative failure ∉ done := by
  have hnodup : (marks (findings ctx 248 .root)).Nodup := nodup_marks 248 .root
  rw [hall, marks_append, marks_cons, List.nodup_append] at hnodup
  have hfirst : ∀ d, .read (.carry d) ∈ done → d.relative ≠ e.relative := fun d hd heq =>
    hnodup.2.2 _ (mem_marks_of_carry hd) (true, e.relative) (by simp [Finding.mark?])
      (by rw [heq])
  refine ⟨hfirst, fun failure hmem => ?_⟩
  obtain ⟨before, after, rfl⟩ := List.append_of_mem hmem
  have hled : Led [.root] (findings ctx 248 .root) := led_findings 248 .root
  rw [hall, List.append_assoc, List.cons_append] at hled
  rcases hled.known (p := e.relative) (by simp [Finding.needs]) with hroot | ⟨d, hd, _, hrel⟩
  · have hcame : Came ctx (.carry e) :=
      mem_findings_read.mp (by rw [hall]; simp)
    obtain ⟨folder, name, _, hread⟩ := hcame
    rw [carry_relative hread] at hroot
    simp at hroot
  · exact hfirst d (by simp [hd]) hrel

theorem relative_ne_root_of_carry {e : LocalEntry} (h : Came ctx (.carry e)) :
    e.relative ≠ .root := by
  obtain ⟨folder, name, _, hread⟩ := h
  rw [carry_relative hread]
  simp

/-- Nothing is carried of a folder that cannot be read. -/
theorem not_beneath_unreadable {e : LocalEntry} {folder : RelPath} {failure : ReadFailure}
    (h : Came ctx (.carry e)) (hread : ctx.tree.readDir folder = .error failure) :
    folder ∉ e.relative.ancestors := by
  intro hmem
  obtain ⟨parent, name, hlisted, hcarry⟩ := h
  rw [carry_relative hcarry] at hmem
  obtain ⟨_, _, names, hok⟩ := hlisted.above hmem
  rw [hread] at hok
  cases hok

theorem Gathered.carried {done : List Finding} {s : ScanState} (h : Gathered ctx done s)
    (hdone : ∀ x ∈ done, x ∈ findings ctx 248 .root) {k : RelPath} {e : LocalEntry}
    (hget : s.output.entries.get? k = some e) : Came ctx (.carry e) ∧ e.relative = k := by
  obtain ⟨hmem, hrel, _⟩ := (h.entries k e).mp hget
  exact ⟨mem_findings_read.mp (hdone _ hmem), hrel⟩

theorem Gathered.grow {done rest : List Finding} {s : ScanState} {reading : Reading}
    (h : Gathered ctx done s)
    (hall : findings ctx 248 .root = done ++ .read reading :: rest) :
    Gathered ctx (done ++ [.read reading]) (s.grow reading) ∧
      (s.grow reading).recorded = s.recorded + cost (.read reading) := by
  cases reading with
  | passed =>
    refine ⟨⟨?_, ?_, ?_, h.complete⟩, rfl⟩
    · intro k e
      simpa [ScanState.grow] using h.entries k e
    · simpa [ScanState.grow, declined?, List.filterMap_cons] using h.skipped
    · intro k
      simpa [ScanState.grow] using h.excluded k
  | excluded relative =>
    refine ⟨⟨?_, ?_, ?_, h.complete⟩, rfl⟩
    · intro k e
      simpa [ScanState.grow] using h.entries k e
    · simpa [ScanState.grow, declined?, List.filterMap_cons] using h.skipped
    · intro k
      simp only [ScanState.grow, Std.TreeSet.mem_insert, compare_eq_iff_eq, h.excluded k,
        List.mem_append, List.mem_singleton, Finding.read.injEq, Reading.excluded.injEq]
      rw [or_comm, eq_comm]
  | skip skip =>
    refine ⟨⟨?_, ?_, ?_, h.complete⟩, ?_⟩
    · intro k e
      simpa [ScanState.grow] using h.entries k e
    · simp [ScanState.grow, declined?, h.skipped]
    · intro k
      simpa [ScanState.grow] using h.excluded k
    · simp [ScanState.grow, ScanState.recorded, cost]
      omega
  | carry e =>
    obtain ⟨hfirst, hreadable⟩ := fresh hall
    have hroot : e.relative ≠ .root :=
      relative_ne_root_of_carry (mem_findings_read.mp (by rw [hall]; simp : Finding.read (.carry e) ∈
        findings ctx 248 .root))
    have hnew : s.output.entries.get? e.relative = none := by
      cases hget : s.output.entries.get? e.relative with
      | none => rfl
      | some d =>
        obtain ⟨hd, hrel, _⟩ := (h.entries _ _).mp hget
        exact absurd hrel (hfirst d hd)
    refine ⟨⟨?_, ?_, ?_, h.complete⟩, ?_⟩
    · intro k d
      simp only [ScanState.grow, EntryMap.get?_insert hroot]
      by_cases hk : e.relative = k
      · subst hk
        simp only [if_true, Option.some.injEq, List.mem_append, List.mem_singleton,
          Finding.read.injEq, Reading.carry.injEq, reduceCtorEq, or_false]
        constructor
        · intro heq
          subst heq
          exact ⟨.inr rfl, rfl, hreadable⟩
        · intro hd
          rcases hd.1 with hmem | heq
          · exact absurd hd.2.1 (hfirst d hmem)
          · exact heq.symm
      · rw [if_neg hk, h.entries k d]
        simp only [List.mem_append, List.mem_singleton, Finding.read.injEq, Reading.carry.injEq,
          reduceCtorEq, or_false]
        constructor
        · intro hd
          exact ⟨.inl hd.1, hd.2⟩
        · intro hd
          rcases hd.1 with hmem | heq
          · exact ⟨hmem, hd.2⟩
          · exact absurd (heq ▸ hd.2.1) hk
    · simpa [ScanState.grow, declined?, List.filterMap_cons] using h.skipped
    · intro k
      simpa [ScanState.grow] using h.excluded k
    · simp only [ScanState.grow, ScanState.recorded, cost,
        EntryMap.length_values_insert hroot hnew]
      omega

theorem Gathered.withhold {done rest : List Finding} {s : ScanState} {folder : RelPath}
    {failure : ReadFailure} (h : Gathered ctx done s) (hroot : folder ≠ .root)
    (hall : findings ctx 248 .root = done ++ .unreadable folder failure :: rest) :
    Gathered ctx (done ++ [.unreadable folder failure])
        (s.withholdUnreadable folder (ctx.tree.folderPath folder) failure) ∧
      (s.withholdUnreadable folder (ctx.tree.folderPath folder) failure).recorded = s.recorded := by
  have hin : ∀ x ∈ done, x ∈ findings ctx 248 .root := fun x hx => by simp [hall, hx]
  obtain ⟨_, hfail⟩ := mem_findings_unreadable.mp
    (show Finding.unreadable folder failure ∈ findings ctx 248 .root by simp [hall])
  have hbeneath : ∀ k e, s.output.entries.get? k = some e → folder ∉ k.ancestors := by
    intro k e hget
    obtain ⟨hcame, hrel⟩ := h.carried hin hget
    rw [← hrel]
    exact not_beneath_unreadable hcame hfail
  have hget : ∀ k, (s.withholdUnreadable folder (ctx.tree.folderPath folder)
      failure).output.entries.get? k = if k = folder then none else s.output.entries.get? k := by
    intro k
    rw [get?_withholdUnreadable]
    by_cases hk : k = folder
    · rw [if_pos hk, if_pos (.inl hk)]
    · rw [if_neg hk]
      cases hentry : s.output.entries.get? k with
      | none => simp
      | some e =>
        have hat : ¬AtOrUnder folder k := not_or.mpr ⟨hk, hbeneath k e hentry⟩
        rw [if_neg hat]
  have hnodup : (marks (findings ctx 248 .root)).Nodup := nodup_marks 248 .root
  rw [hall, marks_append, marks_cons, List.nodup_append] at hnodup
  have hfirst : ∀ failure', .unreadable folder failure' ∉ done := fun failure' hmem =>
    hnodup.2.2 _ (mem_marks_of_unreadable hmem) (false, folder) (by simp [Finding.mark?]) rfl
  refine ⟨⟨?_, ?_, ?_, h.complete⟩, ?_⟩
  · intro k e
    rw [hget]
    by_cases hk : k = folder
    · rw [if_pos hk]
      constructor
      · intro hnone
        cases hnone
      · intro hd
        exact absurd (hd.2.2 failure) (by simp [hk])
    · rw [if_neg hk, h.entries k e]
      simp [hk]
  · simp [ScanState.withholdUnreadable, declined?, h.skipped]
  · intro k
    simpa [ScanState.withholdUnreadable] using h.excluded k
  · have hled : Led [.root] (findings ctx 248 .root) := led_findings 248 .root
    rw [hall] at hled
    rcases hled.known (p := folder) (by simp [Finding.needs]) with hmem | ⟨d, hd, _, hrel⟩
    · exact absurd (List.mem_singleton.mp hmem) hroot
    · have hentry : s.output.entries.get? folder = some d := (h.entries folder d).mpr
        ⟨hd, hrel, hfirst⟩
      have hnone : rangeBeneath s.output.entries.map folder = [] := by
        rw [List.eq_nil_iff_forall_not_mem]
        intro pair hmem
        obtain ⟨k, e⟩ := pair
        obtain ⟨hk, hanc⟩ := mem_rangeBeneath.mp hmem
        exact hbeneath k e (Std.TreeMap.mem_toList_iff_getElem?_eq_some.mp hk) hanc
      have hlength := EntryMap.length_values_erase hentry
      simp only [ScanState.recorded, ScanState.withholdUnreadable, hnone, List.map_nil,
        List.foldl_nil, List.length_append, List.length_singleton]
      omega

theorem Gathered.step {done rest : List Finding} {s s' : ScanState} {x : Finding}
    (h : Gathered ctx done s) (hall : findings ctx 248 .root = done ++ x :: rest)
    (hstep : free ctx s x = .ok s') :
    Gathered ctx (done ++ [x]) s' ∧ s'.recorded = s.recorded + cost x := by
  cases x with
  | check cancelled =>
    cases cancelled with
    | true => simp [free] at hstep
    | false =>
      obtain rfl : s = s' := Except.ok.inj hstep
      refine ⟨⟨?_, ?_, ?_, h.complete⟩, rfl⟩
      · intro k e
        simpa using h.entries k e
      · simpa [declined?, List.filterMap_cons] using h.skipped
      · intro k
        simpa using h.excluded k
  | unreadable folder failure =>
    by_cases hroot : folder = .root
    · simp [free, hroot] at hstep
    · rw [free, if_neg hroot] at hstep
      obtain rfl := Except.ok.inj hstep
      exact h.withhold hroot hall
  | read reading =>
    obtain rfl := Except.ok.inj hstep
    exact h.grow hall

/-- The walk under a budget is the free walk until the budget is spent. -/
theorem rationed (budget : Nat) : Ration.Rationed (follow ctx budget) (free ctx)
    ScanState.complete ScanState.recorded cost
    (fun s rest => ∃ done, findings ctx 248 .root = done ++ rest ∧ Gathered ctx done s)
    (fun s => { s with complete := false }) budget where
  within := by
    intro s x hfits
    cases x with
    | check cancelled => rfl
    | unreadable folder failure => rfl
    | read reading =>
      cases reading with
      | passed => rfl
      | excluded relative => rfl
      | skip skip =>
        have hlt : ¬budget ≤ s.recorded := by
          simp [cost] at hfits
          omega
        simp [follow, free, ScanState.record, ScanState.grow, ScanState.skip, hlt]
      | carry e =>
        have hlt : ¬budget ≤ s.recorded := by
          simp [cost] at hfits
          omega
        simp [follow, free, ScanState.record, ScanState.grow, ScanState.insert, hlt]
  beyond := by
    intro s x hcost hspent
    cases x with
    | check cancelled => exact absurd rfl hcost
    | unreadable folder failure => exact absurd rfl hcost
    | read reading =>
      cases reading with
      | passed => exact absurd rfl hcost
      | excluded relative => exact absurd rfl hcost
      | skip skip => simp [follow, ScanState.record, ScanState.skip, hspent]
      | carry e => simp [follow, ScanState.record, ScanState.insert, hspent]
  stopped := fun s => rfl
  unit := by
    intro x
    cases x with
    | check cancelled => simp [cost]
    | unreadable folder failure => simp [cost]
    | read reading => cases reading <;> simp [cost]
  keeps := by
    intro s s' x rest hI hstep
    obtain ⟨done, hall, h⟩ := hI
    obtain ⟨h', hcost⟩ := h.step hall hstep
    exact ⟨⟨done ++ [x], by simpa using hall, h'⟩, hcost, fun _ => h'.complete⟩

/-- Wherever the walk ends, it has recorded a first part of its findings: all of them, or as many as
the budget allows. -/
theorem gathered_of_pass {budget : Nat} {t : ScanState}
    (h : pass ctx budget (findings ctx 248 .root) .start = .ok t) :
    ∃ done rest u, findings ctx 248 .root = done ++ rest ∧ Gathered ctx done u ∧
      u.recorded ≤ budget ∧ (rest = [] ∧ t = u ∨
        rest ≠ [] ∧ t = { u with complete := false } ∧ u.recorded = budget) := by
  obtain ⟨done, rest, u, hl, _, ⟨done', hall, hgathered⟩, hle, hend⟩ :=
    (rationed budget).run_ok ⟨[], rfl, gathered_start⟩ rfl
      (by simp [ScanState.start, ScanState.recorded, EntryMap.values, EntryMap.empty]) h
  obtain rfl : done' = done := List.append_cancel_right (hall.symm.trans hl)
  refine ⟨_, rest, u, hl, hgathered, hle, ?_⟩
  rcases hend with ⟨hnil, ht, _⟩ | ⟨⟨x, rest', hrest, _⟩, ht, hspent⟩
  · exact .inl ⟨hnil, ht⟩
  · exact .inr ⟨by simp [hrest], ht, hspent⟩

end Gathered

end Scan
end DriveSync
