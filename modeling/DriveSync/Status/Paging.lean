import DriveSync.Lib.Loop
import DriveSync.Small
import DriveSync.Status.Page

/-!
# DriveSync.Status.Paging

Following `nextCursor` through a status listing. One pass counts every row of the scope into the
totals and cuts one page out of those the filters admit, so the pages of a reading are a partition
of them whatever limit each call asks for, unless a row of the scope cannot be made.

* `Partitions`: the pages of a reading are the rows the filters admit.
* `partitions_iff`: they are where every path that the NAS does not hold joins the destination.
* `LongName`: one path that does not, and no row is read.
-/

namespace DriveSync

open Path

/-! ## The totals, counted -/

/-- The bytes of the local side, as the totals add them up. -/
def localBytes (entries : List StatusEntry) : Nat :=
  entries.foldl (fun bytes entry => bytes + entry.localSide.elim 0 (·.size)) 0

/-- Whether a row stands for bytes to be sent. -/
def StatusEntry.transfers (entry : StatusEntry) : Bool :=
  entry.state.kind = .differs ∨ entry.state.kind = .typeConflict ∨
    entry.state.kind = .missingRemote ∧ entry.kind = .file

/-- The totals of a list of rows, each a count of its own. -/
def StatusStats.counted (compare : CompareMode) (rows : List StatusEntry) : StatusStats where
  compare := compare
  inSyncFiles := rows.countP fun row => row.state.kind = .inSync ∧ row.kind = .file
  differingFiles := rows.countP fun row => row.state.kind = .differs
  missingRemoteFiles := rows.countP fun row => row.state.kind = .missingRemote ∧ row.kind = .file
  remoteOnlyEntries := rows.countP fun row => row.state.kind = .remoteOnly
  typeConflicts := rows.countP fun row => row.state.kind = .typeConflict
  excludedEntries := rows.countP fun row => row.state.kind = .excluded
  notComparedEntries := rows.countP fun row => row.state.kind = .notCompared
  directories := rows.countP fun row => row.kind = .directory ∧ row.state.kind ≠ .excluded
  inSyncBytes := saturatingAdd 0
    (localBytes (rows.filter fun row => row.state.kind = .inSync ∧ row.kind = .file))
  transferBytes := saturatingAdd 0 (localBytes (rows.filter StatusEntry.transfers))
  totalEntries := rows.length
  attentionEntries := rows.countP fun row => row.state.kind.needsAttention
  complete := true

theorem localBytes_append (entries : List StatusEntry) (entry : StatusEntry) :
    localBytes (entries ++ [entry]) = localBytes entries + entry.localSide.elim 0 (·.size) := by
  rw [localBytes, List.foldl_append]; rfl

theorem saturatingAdd_saturatingAdd (a b : Nat) :
    saturatingAdd (saturatingAdd 0 a) b = saturatingAdd 0 (a + b) := by
  simp only [saturatingAdd]; omega

theorem accumulate_counted (compare : CompareMode) (rows : List StatusEntry) (row : StatusEntry) :
    (StatusStats.counted compare rows).accumulate row = .counted compare (rows ++ [row]) := by
  obtain ⟨relative, remotePath, kind, state, localSide, remoteSide⟩ := row
  cases state <;> cases kind <;>
    simp [StatusStats.accumulate, StatusStats.counted, StateKind.needsAttention,
      StateKind.attention, StatusState.kind, StatusEntry.transfers, localBytes_append,
      saturatingAdd_saturatingAdd, List.filter_append]

theorem foldl_accumulate (compare : CompareMode) (rows : List StatusEntry) :
    rows.foldl StatusStats.accumulate (.empty compare) = .counted compare rows := by
  induction rows using List.reverseRecOn with
  | nil => simp [StatusStats.counted, StatusStats.empty, localBytes, saturatingAdd]
  | append_singleton rows row ih =>
    rw [List.foldl_append, ih]
    exact accumulate_counted compare rows row

/-! ## One pass -/

section Page

variable [Unicode] [Lowercase] {root : RemoteRoot} {L : LocalInventory} {R : RemoteInventory}
  {excluded : ExcludedPaths} {rules : IgnoreRules}

omit [Lowercase] in
theorem relative_of_statusRow {query : StatusQuery} {relative : RelPath} {row : StatusEntry}
    (h : statusRow root L R excluded rules query relative = .ok row) : row.relative = relative := by
  rw [statusRow, classify] at h
  obtain ⟨remotePath, _, h⟩ := Loop.bind_eq_ok.mp h
  cases h
  rfl

/-- Where a row stands in the pass: the cursor is compared with the string of its path. -/
def rowKey (row : StatusEntry) : StatusCursor := row.relative.render

/-- The step of the pass: a row is counted, and taken where the filters admit it. -/
theorem pageStep_ok {query : StatusQuery} {limit : Nat} {s : PageState} {relative : RelPath}
    {row : StatusEntry} (h : statusRow root L R excluded rules query relative = .ok row) :
    pageStep root L R excluded rules query limit s relative =
      .ok ⟨s.stats.accumulate row,
        (if admitted query row then Paging.take rowKey query.cursor limit (s.entries, s.nextCursor) row
          else (s.entries, s.nextCursor)).1,
        (if admitted query row then Paging.take rowKey query.cursor limit (s.entries, s.nextCursor) row
          else (s.entries, s.nextCursor)).2⟩ := by
  obtain rfl := relative_of_statusRow h
  rw [pageStep, h]
  simp only [bind, Except.bind]
  have hadmitted : admitted query row =
      !(!query.states.admits row.state.kind || !matchesFilter row.relative query.filter) := by
    simp [admitted]
  by_cases hout : (!query.states.admits row.state.kind ||
      !matchesFilter row.relative query.filter) = true
  · rw [if_pos hout, hadmitted, hout]
    rfl
  · rw [if_neg hout, hadmitted, Bool.eq_false_iff.mpr hout]
    simp only [Bool.not_false, if_true, Paging.take]
    have hcursor : (query.cursor.any fun cursor => decide (row.relative.render ≤ cursor)) =
        query.cursor.any fun cursor => decide (rowKey row ≤ cursor) := by
      congr
    rw [hcursor]
    by_cases hbehind : (query.cursor.any fun cursor => decide (rowKey row ≤ cursor)) = true
    · rw [if_pos hbehind, if_pos hbehind]; rfl
    · rw [if_neg hbehind, if_neg hbehind]
      by_cases hfull : s.entries.length = limit
      · rw [if_pos hfull, if_pos hfull]; rfl
      · rw [if_neg hfull, if_neg hfull]; rfl

/-- The pass over a list of keys: every row is counted, and the page is cut from the admitted ones.
It fails exactly where a row does. -/
theorem foldlM_pageStep {query : StatusQuery} {limit : Nat} (keys : List RelPath) (s : PageState) :
    keys.foldlM (pageStep root L R excluded rules query limit) s =
      (keys.mapM (statusRow root L R excluded rules query)).map fun rows =>
        let page := (rows.filter (admitted query)).foldl (Paging.take rowKey query.cursor limit)
          (s.entries, s.nextCursor)
        ⟨rows.foldl StatusStats.accumulate s.stats, page.1, page.2⟩ := by
  induction keys generalizing s with
  | nil => rfl
  | cons relative keys ih =>
    rw [List.foldlM_cons, List.mapM_cons]
    cases hrow : statusRow root L R excluded rules query relative with
    | error e =>
      rw [pageStep, hrow]; rfl
    | ok row =>
      rw [pageStep_ok hrow]
      show List.foldlM _ _ keys = _
      rw [ih]
      cases keys.mapM (statusRow root L R excluded rules query) with
      | error e => rfl
      | ok rows =>
        simp only [Except.map, bind, Except.bind, pure, Except.pure, List.filter_cons]
        by_cases hin : admitted query row = true
        · simp only [if_pos hin, List.foldl_cons]
        · simp only [if_neg hin, List.foldl_cons]

/-- One call: the totals over every row, and the page past the cursor. -/
theorem buildStatusPage_ok (query : StatusQuery) {rows : List StatusEntry}
    (h : statusRows root L R excluded rules query = .ok rows) :
    ∃ page, buildStatusPage root L R excluded rules query = .ok page ∧
      page.stats = .counted query.compare rows ∧
      Paging.IsPage rowKey (rows.filter (admitted query)) query.cursor
        (min (max query.limit 1) statusPageSizeMax) (page.entries, page.nextCursor) := by
  rw [statusRows] at h
  simp only [buildStatusPage, foldlM_pageStep, h]
  refine ⟨_, rfl, foldl_accumulate query.compare rows, ?_⟩
  exact Paging.foldl_take_isPage rowKey _ query.cursor _

theorem buildStatusPage_error (query : StatusQuery) {e : PlanError}
    (h : statusRows root L R excluded rules query = .error e) :
    buildStatusPage root L R excluded rules query = .error e := by
  rw [statusRows] at h
  simp only [buildStatusPage, foldlM_pageStep, h]
  rfl

omit [Lowercase] in
theorem relatives_statusRows {query : StatusQuery} {rows : List StatusEntry}
    (h : statusRows root L R excluded rules query = .ok rows) :
    rows.map (·.relative) = (statusKeys L R excluded query).toList := by
  rw [statusRows] at h
  generalize (statusKeys L R excluded query).toList = keys at h
  induction keys generalizing rows with
  | nil => cases h; rfl
  | cons relative keys ih =>
    rw [List.mapM_cons] at h
    obtain ⟨row, hrow, h⟩ := Loop.bind_eq_ok.mp h
    obtain ⟨rest, hrest, h⟩ := Loop.bind_eq_ok.mp h
    cases h
    rw [List.map_cons, ih hrest, relative_of_statusRow hrow]

omit [Lowercase] in
theorem pairwise_statusRows {query : StatusQuery} {rows : List StatusEntry}
    (h : statusRows root L R excluded rules query = .ok rows) :
    rows.Pairwise fun a b => a.relative < b.relative := by
  have hsorted := (statusKeys L R excluded query).ordered_toList
  rw [← relatives_statusRows h, List.pairwise_map] at hsorted
  exact hsorted.imp fun h => compare_lt_iff_lt.mp h

omit [Lowercase] in
theorem mem_statusKeys {query : StatusQuery} {p : RelPath} :
    p ∈ statusKeys L R excluded query ↔ query.scope.matches p = true ∧
      (p ∈ L.entries.keys ∨
        p ∈ R.entries.keys ∧ isPairedRemote (Correspondence.build L R) p = false ∨
        query.includeExcluded = true ∧ p ∈ excluded.paths) := by
  rw [statusKeys, mem_insertAll]
  simp only [List.mem_append, List.mem_filter, Std.TreeSet.not_mem_emptyc, or_false,
    Bool.and_eq_true, Bool.not_eq_true']
  by_cases hin : query.includeExcluded = true
  · rw [if_pos hin, List.mem_filter, Std.TreeSet.mem_toList]
    tauto
  · rw [if_neg hin]
    simp only [List.not_mem_nil, hin]
    tauto

omit [Lowercase] in
theorem ne_root_of_mem_statusKeys {query : StatusQuery} {p : RelPath}
    (h : p ∈ statusKeys L R excluded query) : p ≠ .root := by
  obtain ⟨_, h | ⟨h, _⟩ | ⟨_, h⟩⟩ := mem_statusKeys.mp h
  · obtain ⟨e, he⟩ := EntryMap.mem_keys.mp h
    exact (L.entries.keyed p e he).2
  · obtain ⟨e, he⟩ := EntryMap.mem_keys.mp h
    exact (R.entries.keyed p e he).2
  · rintro rfl
    exact excluded.not_root h

/-- No row stands for the root, so none is behind the empty cursor. -/
theorem past_empty_cursor {query : StatusQuery} {rows : List StatusEntry}
    (h : statusRows root L R excluded rules query = .ok rows) :
    Paging.past rowKey (rows.filter (admitted query)) (some []) = rows.filter (admitted query) := by
  rw [Paging.past, List.filter_eq_self]
  intro row hrow
  have hkey : row.relative ∈ (statusKeys L R excluded query).toList := by
    rw [← relatives_statusRows h]
    exact List.mem_map_of_mem (List.mem_filter.mp hrow).1
  have hroot : row.relative ≠ .root := by
    rw [Std.TreeSet.mem_toList] at hkey
    exact ne_root_of_mem_statusKeys hkey
  have hne := render_ne_nil hroot
  cases hrender : row.relative.render with
  | nil => exact absurd hrender hne
  | cons c s => simp [rowKey, hrender]

/-- One reading of a listing: call after call with the cursor of the page before, each with a limit
of its own. -/
def readStatus (root : RemoteRoot) (L : LocalInventory) (R : RemoteInventory)
    (excluded : ExcludedPaths) (rules : IgnoreRules) (query : StatusQuery) (limits : Nat → Nat)
    (fuel : Nat) : Option (Except PlanError (List StatusPage)) :=
  Paging.follow
    (fun call cursor =>
      buildStatusPage root L R excluded rules { query with limit := limits call, cursor := cursor })
    (·.nextCursor) fuel 0 (some [])

/-- What the NAS holds under the row of a key. -/
def remoteSide (L : LocalInventory) (R : RemoteInventory) (relative : RelPath) :
    Option RemoteEntry :=
  match L.entries.get? relative with
  | some _ => (Correspondence.build L R).remoteOf R relative
  | none => R.entries.get? relative

/-- The row of a key, whatever the destination makes of its path. -/
def listedRow (root : RemoteRoot) (L : LocalInventory) (R : RemoteInventory)
    (excluded : ExcludedPaths) (rules : IgnoreRules) (query : StatusQuery) (relative : RelPath) :
    StatusEntry :=
  let pairs := Correspondence.build L R
  let localEntry := L.entries.get? relative
  let remoteEntry := remoteSide L R relative
  ⟨relative, remoteEntry.elim (root.path.append relative) (·.remotePath),
    (localEntry.map (·.kind)).getD ((remoteEntry.map (·.kind)).getD .directory),
    rowState excluded rules pairs
      (isBeneathAny (pairs.remoteRelative relative) (mountPoints R)) query relative localEntry
      remoteEntry,
    localEntry.map localSideInfo, remoteEntry.map remoteSideInfo⟩

def listing (root : RemoteRoot) (L : LocalInventory) (R : RemoteInventory)
    (excluded : ExcludedPaths) (rules : IgnoreRules) (query : StatusQuery) : List StatusEntry :=
  (statusKeys L R excluded query).toList.map (listedRow root L R excluded rules query)

omit [Lowercase] in
theorem statusRow_eq_ok {query : StatusQuery} {relative : RelPath} {row : StatusEntry} :
    statusRow root L R excluded rules query relative = .ok row ↔
      row = listedRow root L R excluded rules query relative ∧
        (remoteSide L R relative = none → ∃ joined, root.join relative = .ok joined) := by
  have hrow : statusRow root L R excluded rules query relative = (do
      let remotePath ← rowRemotePath root (remoteSide L R relative) relative
      return { listedRow root L R excluded rules query relative with remotePath := remotePath }) :=
    rfl
  rw [hrow]
  simp only [listedRow]
  cases hremote : remoteSide L R relative with
  | some e =>
    constructor
    · intro h
      exact ⟨(Except.ok.inj h).symm, fun hnone => (by cases hnone)⟩
    · rintro ⟨rfl, _⟩
      rfl
  | none =>
    constructor
    · intro h
      obtain ⟨remotePath, hpath, h⟩ := Loop.bind_eq_ok.mp h
      have hjoin := Loop.mapError_eq_ok.mp hpath
      obtain rfl := RemoteRoot.join_eq hjoin
      exact ⟨(Except.ok.inj h).symm, fun _ => ⟨_, hjoin⟩⟩
    · rintro ⟨rfl, hjoins⟩
      obtain ⟨joined, hjoin⟩ := hjoins rfl
      have hpath : rowRemotePath root none relative = .ok (root.path.append relative) := by
        rw [rowRemotePath, joinRemote, hjoin, RemoteRoot.join_eq hjoin]
        rfl
      rw [hpath]
      rfl

omit [Lowercase] in
theorem statusRows_eq_ok {query : StatusQuery} {rows : List StatusEntry} :
    statusRows root L R excluded rules query = .ok rows ↔
      rows = listing root L R excluded rules query ∧
        ∀ p ∈ statusKeys L R excluded query, remoteSide L R p = none →
          ∃ joined, root.join p = .ok joined := by
  simp only [← Std.TreeSet.mem_toList]
  exact Loop.mapM_eq_ok fun _ _ => statusRow_eq_ok

/-- A reading comes to an end, its pages, one after the other, are the rows the filters admit, in the
order of their paths and each once, and every page carries the totals over all rows. -/
def Partitions (root : RemoteRoot) (L : LocalInventory) (R : RemoteInventory)
    (excluded : ExcludedPaths) (rules : IgnoreRules) (query : StatusQuery) (limits : Nat → Nat) :
    Prop :=
  let rows := listing root L R excluded rules query
  rows.Pairwise (fun a b => a.relative < b.relative) ∧
    ∃ fuel pages, readStatus root L R excluded rules query limits fuel = some (.ok pages) ∧
      pages.flatMap (·.entries) = rows.filter (admitted query) ∧
      ∀ page ∈ pages, page.stats = .counted query.compare rows

theorem joins_of_partitions {query : StatusQuery} {limits : Nat → Nat}
    (h : Partitions root L R excluded rules query limits) :
    ∀ p ∈ statusKeys L R excluded query, remoteSide L R p = none →
      ∃ joined, root.join p = .ok joined := by
  obtain ⟨_, fuel, pages, hread, _⟩ := h
  cases hrows : statusRows root L R excluded rules query with
  | ok rows => exact (statusRows_eq_ok.mp hrows).2
  | error e =>
    -- the first call fails, and the reading with it
    have hpage := buildStatusPage_error { query with limit := limits 0, cursor := some [] }
      (e := e) hrows
    cases fuel with
    | zero => cases hread
    | succ fuel =>
      simp only [readStatus, Paging.follow, hpage] at hread
      cases hread

/-- A listing is read so exactly where every path of it that the NAS does not hold joins the
destination. -/
theorem partitions_iff (root : RemoteRoot) (L : LocalInventory) (R : RemoteInventory)
    (excluded : ExcludedPaths) (rules : IgnoreRules) (query : StatusQuery) (limits : Nat → Nat) :
    Partitions root L R excluded rules query limits ↔
      ∀ p ∈ statusKeys L R excluded query, remoteSide L R p = none →
        ∃ joined, root.join p = .ok joined := by
  constructor
  · exact joins_of_partitions
  · intro hjoins
    have hrows : statusRows root L R excluded rules query =
        .ok (listing root L R excluded rules query) := statusRows_eq_ok.mpr ⟨rfl, hjoins⟩
    have hpairwise := pairwise_statusRows hrows
    have hpage : ∀ call cursor, ∃ page,
        buildStatusPage root L R excluded rules
          { query with limit := limits call, cursor := cursor } = .ok page ∧
        page.stats = .counted query.compare (listing root L R excluded rules query) ∧
        Paging.IsPage rowKey ((listing root L R excluded rules query).filter (admitted query))
          cursor (min (max (limits call) 1) statusPageSizeMax) (page.entries, page.nextCursor) :=
      fun call cursor => buildStatusPage_ok
        { query with limit := limits call, cursor := cursor } hrows
    have hsorted : ((listing root L R excluded rules query).filter (admitted query)).Pairwise
        fun a b => rowKey a < rowKey b := hpairwise.filter _
    obtain ⟨pages, hfollow, hflat, hall⟩ := Paging.follow_done hsorted
      (fun call => by simp [statusPageSizeMax])
      (fun call cursor => (hpage call cursor).imp fun _ h => ⟨h.1, h.2.2⟩)
      0 (some []) (Nat.lt_succ_self _)
    refine ⟨hpairwise, _, pages, hfollow, ?_, ?_⟩
    · rw [hflat, past_empty_cursor hrows]
    · intro page hmem
      obtain ⟨call, cursor, hcall⟩ := hall page hmem
      obtain ⟨page', hcall', hstats, _⟩ := hpage call cursor
      rw [hcall] at hcall'
      cases hcall'
      exact hstats

end Page

/-! ## A path that is too long below the destination

The source holds `x` and a file with a name of 245 letters, which is short enough by itself. -/

namespace LongName

open Small

def long : RelPath := path [⟨List.replicate 245 'a', by decide⟩]

def localSide : LocalInventory := locals [localFile (path [name 'x']) 1, localFile long 1]

def remoteSide : RemoteInventory := remotes [remoteFile (path [name 'x']) 1]

def nothing : ExcludedPaths := ⟨∅, by simp⟩

def query : StatusQuery :=
  ⟨⟨.root⟩, .metadata, none, .all, false, 200, none, true, true⟩

/-- No call returns a page, though the row of `x` can be made. -/
theorem not_partitions :
    letI := charwise
    letI : Lowercase := ⟨id⟩
    ¬Partitions root localSide remoteSide nothing noRules query fun _ => 200 := by
  let := charwise
  let : Lowercase := ⟨id⟩
  intro h
  obtain ⟨_, hjoin⟩ := joins_of_partitions h long (by decide +kernel) (by decide +kernel)
  have hrefused : (root.join long).toOption = none := by decide +kernel
  rw [hjoin] at hrefused
  cases hrefused

end LongName
end DriveSync
