import DriveSync.Scan.Gathered
import DriveSync.Walk.Collisions

/-!
# DriveSync.Scan.Scanned

A whole scan: the checks of the source root, the walk, and the names that differ only by case or
normalisation taken out.

* `scanScoped`: the scan, by what is answered of the root and of everything below it.
* `scanScoped_scanned`: what it returns is what the planner takes an inventory to be.
* `scanScoped_accounts`: a scan that completes drops no name it came to without saying so.
* `walk_budget`: a budget that is not enough cuts the walk short, and changes nothing else.
-/

namespace DriveSync
namespace Scan

open Path

/-! ## The source root -/

/-- The source root once its links are resolved. -/
structure CanonicalRoot where
  path : String
  isDir : Bool
  hasParent : Bool
  /-- The share a UNC path names, which may be empty. -/
  uncShare : Option (List Char)
  components : List FileName

/-- What is answered of the source root. -/
structure SourceRoot where
  cancelled : Bool
  path : String
  metadata : Except ReadFailure Metadata
  canonical : Except ReadFailure CanonicalRoot

/-- One of the shares Windows publishes for a disk or a system endpoint. -/
def isAdministrativeShare (share : List Char) : Bool :=
  if share.getLast? = some '$' then
    let name := share.dropLast
    (match name with
      | [letter] => letter.isAlpha
      | _ => false) ||
      decide (name.map Char.toLower = "admin".toList) ||
        decide (name.map Char.toLower = "ipc".toList)
  else false

def uncShareRootName (root : CanonicalRoot) : Option (List Char) :=
  root.uncShare.filter fun share => !share.isEmpty

def rejectFilesystemRoot (root : CanonicalRoot) : Except ExecError Unit :=
  if root.hasParent then .ok ()
  else
    match uncShareRootName root with
    | none => .error (.unsupportedLocalEntry root.path
        "the canonical source root cannot be a filesystem root")
    | some share =>
      if isAdministrativeShare share then
        .error (.unsupportedLocalEntry root.path ("`" ++ String.ofList share ++
          "` is a Windows administrative share, which names a whole disk or a system endpoint " ++
          "rather than a folder of files"))
      else .ok ()

def pathContainsDsmManagedComponent (root : CanonicalRoot) : Bool :=
  root.components.any fun component =>
    match component with
    | .text name => isDsmManagedName name
    | .raw _ _ => false

/-- The checks of the source root, in their order. -/
def checkRoot (source : SourceRoot) : Except ExecError CanonicalRoot :=
  if source.cancelled then .error .cancelled
  else
    match source.metadata with
    | .error failure => .error (.fileIo source.path failure.kind failure.text)
    | .ok metadata =>
      if metadata.isLinkOrReparse then
        .error (.unsupportedLocalEntry source.path
          "the source root itself is a symbolic link or junction")
      else
        match source.canonical with
        | .error failure => .error (.fileIo source.path failure.kind failure.text)
        | .ok canonical =>
          if !canonical.isDir then
            .error (.other ("local source is not a readable directory: " ++ canonical.path.quote))
          else
            match rejectFilesystemRoot canonical with
            | .error e => .error e
            | .ok () =>
              if pathContainsDsmManagedComponent canonical then
                .error (.unsupportedLocalEntry canonical.path
                  "a DSM-managed directory cannot be selected as the source root")
              else .ok canonical

/-- The listing and the metadata of a name agree on whether it is a directory. -/
def SourceTree.Agrees (tree : SourceTree) : Prop :=
  ∀ folder name isDir metadata, tree.fileType folder name = .ok isDir →
    tree.metadata folder name = .ok metadata → metadata.linkClass = .ordinary →
      metadata.isDir = isDir

/-! ## A small source

A folder `d` with a file `x` in it, a file `D`, which differs from it by case only, a folder `k` that
cannot be listed, and a file `a`. -/

namespace Small

open DriveSync.Small

def denied : ReadFailure := ⟨.permissionDenied, "permission denied"⟩

def metadata (isDir : Bool) : Metadata := ⟨false, isDir, !isDir, 0, false, 1, .ok 5000000⟩

def text (c : Char) : FileName := .text (name c)

def tree : SourceTree where
  cancelledAt := fun _ => false
  readDir := fun folder =>
    if folder = .root then .ok [text 'd', text 'D', text 'k', text 'a']
    else if folder = path [name 'd'] then .ok [text 'x']
    else if folder = path [name 'k'] then .error denied
    else .ok []
  distinct := by
    intro folder names h
    split at h
    · cases h
      decide
    · split at h
      · cases h
        decide
      · split at h
        · cases h
        · cases h
          decide
  cancelledBefore := fun _ _ => false
  fileType := fun _ name => .ok (decide (name = text 'd') || decide (name = text 'k'))
  metadata := fun _ name => .ok (metadata (decide (name = text 'd') || decide (name = text 'k')))
  fullPath := fun folder name => String.ofList (folder.child name.shown).render
  rootPath := "/source"

def context : Context := ⟨tree, noRules, ⟨.root⟩, false⟩

def source : SourceRoot :=
  ⟨false, "/source", .ok (metadata true), .ok ⟨"/source", true, true, none, []⟩⟩

theorem agrees : tree.Agrees := by
  intro folder name isDir metadata htype hmetadata _
  cases htype
  cases hmetadata
  rfl

end Small

/-- Whether a computation ends well, with a result in `p`. -/
def finished {α ε : Type} (x : Option (Except ε α)) (p : α → Bool) : Bool :=
  x.any fun result => Loop.okAnd result p

theorem exists_of_finished {α ε : Type} {x : Option (Except ε α)} {p : α → Bool}
    (h : finished x p = true) : ∃ a, x = some (.ok a) ∧ p a = true := by
  obtain ⟨result, rfl, hresult⟩ := (Option.any_eq_true _ _).mp h
  obtain ⟨a, rfl, ha⟩ := Loop.exists_of_okAnd hresult
  exact ⟨a, rfl, ha⟩

/-! ## The scan -/

structure ScopedScan where
  inventory : LocalInventory
  excluded : Std.TreeSet RelPath
  /-- False when the budget stopped the walk, making the inventory a subset of the scope. -/
  complete : Bool

section Scan

variable [Unicode] (ctx : Context) (budget : Nat)

/-- The walk from the root on, no deeper than a path can be long. -/
def walk : Option (Except ExecError ScanState) := scanDir ctx budget 248 .root .start

def sortSkipped (skipped : List SkippedEntry) : List SkippedEntry :=
  skipped.insertionSort fun left right => left.relative ≤ right.relative

/-- What the scan makes of the walk. -/
def finish (root : CanonicalRoot) (s : ScanState) : ScopedScan :=
  let output := skipPortableCaseCollisions s.output
  ⟨⟨root.path, output.entries, sortSkipped output.skipped⟩, s.excluded, s.complete⟩

def scanScoped (source : SourceRoot) : Option (Except ExecError ScopedScan) :=
  match checkRoot source with
  | .error e => some (.error e)
  | .ok canonical =>
    match walk ctx budget with
    | none => none
    | some (.error e) => some (.error e)
    | some (.ok s) => some (.ok (finish canonical s))

variable {ctx budget}

/-- The walk is one pass over all it comes to. -/
theorem walk_eq : walk ctx budget = some (pass ctx budget (findings ctx 248 .root) .start) :=
  scanDir_eq (by simp [render]) (by simp [render]) rfl

theorem exists_of_scanScoped {source : SourceRoot} {scan : ScopedScan}
    (h : scanScoped ctx budget source = some (.ok scan)) :
    ∃ root s, checkRoot source = .ok root ∧ walk ctx budget = some (.ok s) ∧
      scan = finish root s := by
  rw [scanScoped] at h
  cases hroot : checkRoot source with
  | error e => simp [hroot] at h
  | ok root =>
    rw [hroot] at h
    simp only at h
    cases hwalk : walk ctx budget with
    | none => simp [hwalk] at h
    | some result =>
      cases result with
      | error e => simp [hwalk] at h
      | ok s =>
        simp only [hwalk, Option.some.injEq, Except.ok.injEq] at h
        exact ⟨root, s, rfl, rfl, h.symm⟩

/-- What has been recorded where the walk ended, whether or not it completed. -/
theorem gathered_of_walk {s : ScanState} (h : walk ctx budget = some (.ok s)) :
    ∃ done rest u, findings ctx 248 .root = done ++ rest ∧ Gathered ctx done u ∧
      u.recorded ≤ budget ∧ s.output = u.output ∧ s.excluded = u.excluded ∧
        (rest = [] ∧ s = u ∨ rest ≠ [] ∧ s.complete = false ∧ u.recorded = budget) := by
  rw [walk_eq] at h
  obtain ⟨done, rest, u, hall, hgathered, hle, hend⟩ := gathered_of_pass (Option.some.inj h)
  refine ⟨done, rest, u, hall, hgathered, hle, ?_⟩
  rcases hend with ⟨hnil, rfl⟩ | ⟨hrest, rfl, hspent⟩
  · exact ⟨rfl, rfl, .inl ⟨hnil, rfl⟩⟩
  · exact ⟨rfl, rfl, .inr ⟨hrest, rfl, hspent⟩⟩

/-! ## What the walk records -/

theorem carried_above {done rest : List Finding} (hall : findings ctx 248 .root = done ++ rest)
    {p : RelPath} : ∀ e, .read (.carry e) ∈ done → e.relative = p → ∀ a ∈ p.ancestors,
      ∃ d, .read (.carry d) ∈ done ∧ d.kind = .directory ∧ d.relative = a := by
  induction p with
  | root =>
    intro e _ _ a ha
    simp at ha
  | child q n ih =>
    intro e he hrel a ha
    obtain ⟨hq, hat⟩ := mem_ancestors_child.mp ha
    obtain ⟨before, after, rfl⟩ := List.append_of_mem he
    have hled : Led [.root] (findings ctx 248 .root) := led_findings 248 .root
    rw [hall, List.append_assoc, List.cons_append] at hled
    rcases hled.known (p := q) (by simp [Finding.needs, hrel]) with hroot | ⟨d, hd, hdir, hdrel⟩
    · exact absurd (List.mem_singleton.mp hroot) hq
    · rcases hat with rfl | hat
      · exact ⟨d, by simp [hd], hdir, hdrel⟩
      · exact ih d (by simp [hd]) hdrel a hat

theorem Gathered.closed {done rest : List Finding} {s : ScanState} (h : Gathered ctx done s)
    (hall : findings ctx 248 .root = done ++ rest) :
    s.output.entries.ParentClosed LocalEntry.kind := by
  intro e he a ha
  obtain ⟨hmem, hrel, _⟩ := (h.entries _ e).mp (EntryMap.mem_values.mp he)
  obtain ⟨d, hd, hdir, hdrel⟩ := carried_above hall e hmem rfl a ha
  refine ⟨d, (h.entries a d).mpr ⟨hd, hdrel, fun failure hunreadable => ?_⟩, hdir⟩
  have hcame : Came ctx (.carry e) := mem_findings_read.mp (by simp [hall, hmem])
  obtain ⟨_, hfail⟩ := mem_findings_unreadable.mp
    (show Finding.unreadable a failure ∈ findings ctx 248 .root by simp [hall, hunreadable])
  exact not_beneath_unreadable hcame hfail ha

theorem Gathered.came {done rest : List Finding} {s : ScanState} (h : Gathered ctx done s)
    (hall : findings ctx 248 .root = done ++ rest) {k : RelPath} {e : LocalEntry}
    (hget : s.output.entries.get? k = some e) : Came ctx (.carry e) ∧ e.relative = k :=
  h.carried (fun x hx => by simp [hall, hx]) hget

theorem Came.carry_checked {e : LocalEntry} (h : Came ctx (.carry e)) :
    isDsmManaged e.relative = false ∧ (ctx.tree.Agrees →
      ctx.rules.isIgnored e.relative (e.kind = .directory) = false) := by
  obtain ⟨folder, name, _, hread⟩ := h
  obtain ⟨component, isDir, metadata, rfl, hmanaged, _, htype, hignored, _, hmetadata, hentry⟩ :=
    read_carry hread
  obtain ⟨hrel, hlink, _, _, hkind⟩ := readEntry_carry hentry
  rw [hrel]
  refine ⟨hmanaged, fun hagrees => ?_⟩
  have hordinary : metadata.linkClass = .ordinary := by
    rw [Metadata.linkSkipReason] at hlink
    split at hlink
    · assumption
    · cases hlink
    · cases hlink
  have hdir := hagrees folder (.text component) isDir metadata htype hmetadata hordinary
  rcases hkind with ⟨hisDir, hkind, _⟩ | ⟨hisDir, _, hkind, _⟩
  · simpa [hkind, ← hdir, hisDir] using hignored
  · simpa [hkind, ← hdir, hisDir] using hignored

theorem get?_finish {root : CanonicalRoot} {s : ScanState} {k : RelPath} {e : LocalEntry} :
    (finish root s).inventory.entries.get? k = some e ↔
      ¬Dropped s.output k ∧ s.output.entries.get? k = some e := by
  show (skipPortableCaseCollisions s.output).entries.get? k = some e ↔ _
  rw [get?_skipPortableCaseCollisions]
  by_cases hdropped : Dropped s.output k
  · simp [hdropped]
  · simp [hdropped]

theorem mem_skipped_finish {root : CanonicalRoot} {s : ScanState} {skip : SkippedEntry} :
    skip ∈ (finish root s).inventory.skipped ↔
      skip ∈ s.output.skipped ∨ skip ∈ collisionReport s.output := by
  show skip ∈ sortSkipped (skipPortableCaseCollisions s.output).skipped ↔ _
  rw [sortSkipped, (List.perm_insertionSort _ _).mem_iff, skipPortableCaseCollisions,
    skipped_foldl_dropColliding, List.mem_append, collisionReport]

theorem kept_of_scanScoped {source : SourceRoot} {scan : ScopedScan}
    (h : scanScoped ctx budget source = some (.ok scan)) :
    scan.inventory.entries.ParentClosed LocalEntry.kind ∧ scan.inventory.entries.DistinctFolds := by
  obtain ⟨root, s, _, hwalk, rfl⟩ := exists_of_scanScoped h
  obtain ⟨done, rest, u, hall, hgathered, _, houtput, _⟩ := gathered_of_walk hwalk
  have hclosed : s.output.entries.ParentClosed LocalEntry.kind := houtput ▸ hgathered.closed hall
  constructor
  · intro e he a ha
    obtain ⟨hkept, hget⟩ := get?_finish.mp (EntryMap.mem_values.mp he)
    obtain ⟨d, hd, hdir⟩ := hclosed e (EntryMap.mem_values_of_get? hget) a ha
    refine ⟨d, get?_finish.mpr ⟨fun hdropped => ?_, hd⟩, hdir⟩
    obtain ⟨pair, hpair, hat⟩ := hdropped
    exact hkept ⟨pair, hpair, .inr (mem_ancestors_of_atOrUnder hat ha)⟩
  · intro x hx y hy hfold
    obtain ⟨hkept, hgetx⟩ := get?_finish.mp (EntryMap.mem_values.mp hx)
    obtain ⟨_, hgety⟩ := get?_finish.mp (EntryMap.mem_values.mp hy)
    refine EntryMap.eq_of_relative_eq hx hy ?_
    by_contra hne
    exact hkept (dropped_of_same_fold hclosed (EntryMap.mem_keys.mpr ⟨x, hgetx⟩)
      (EntryMap.mem_keys.mpr ⟨y, hgety⟩) hne hfold.symm)

theorem came_of_scanScoped {source : SourceRoot} {scan : ScopedScan}
    (h : scanScoped ctx budget source = some (.ok scan)) {x : LocalEntry}
    (hx : x ∈ scan.inventory.entries.values) : Came ctx (.carry x) := by
  obtain ⟨root, s, _, hwalk, rfl⟩ := exists_of_scanScoped h
  obtain ⟨done, rest, u, hall, hgathered, _, houtput, _⟩ := gathered_of_walk hwalk
  have hget := (get?_finish.mp (EntryMap.mem_values.mp hx)).2
  rw [houtput] at hget
  exact (hgathered.came hall hget).1

/-- Whatever the file system answers, what a scan returns, complete or cut short, holds every folder
on the way to an entry, no two names of one fold and nothing DSM-managed; where the listing and the
metadata agree on what is a directory, it is an inventory as the planner takes it to be. -/
theorem scanScoped_scanned {source : SourceRoot} {scan : ScopedScan}
    (h : scanScoped ctx budget source = some (.ok scan)) :
    scan.inventory.entries.ParentClosed LocalEntry.kind ∧
      scan.inventory.entries.DistinctFolds ∧
      (∀ x ∈ scan.inventory.entries.values, isDsmManaged x.relative = false) ∧
      (ctx.tree.Agrees → scan.inventory.Scanned ctx.rules) := by
  obtain ⟨hclosed, hdistinct⟩ := kept_of_scanScoped h
  have hmanaged : ∀ x ∈ scan.inventory.entries.values, isDsmManaged x.relative = false :=
    fun x hx => (came_of_scanScoped h hx).carry_checked.1
  refine ⟨hclosed, hdistinct, hmanaged, fun hagrees => ⟨hclosed, hdistinct, hmanaged, ?_⟩⟩
  intro x hx
  exact (came_of_scanScoped h hx).carry_checked.2 hagrees

end Scan

theorem scanScoped_scanned_small :
    letI := charwise
    ∃ scan, scanScoped Small.context 100 Small.source = some (.ok scan) ∧
      scan.inventory.Scanned DriveSync.Small.noRules := by
  let _ := charwise
  obtain ⟨scan, h, _⟩ := exists_of_finished (x := scanScoped Small.context 100 Small.source)
    (p := ScopedScan.complete) (by decide +kernel)
  exact ⟨scan, h, (scanScoped_scanned h).2.2.2 Small.agrees⟩

/-! ## Nothing is lost -/

section Accounts

variable [Unicode] {ctx : Context} {budget : Nat}

/-- Why a name the walk came to is neither carried nor named: it is DSM's own, out of scope, excluded
by a rule, or gone by the time it was read. -/
def PassedOver (ctx : Context) (folder : RelPath) (name : FileName) : Prop :=
  isDsmManaged (folder.child name.shown) = true ∨
    ctx.scope.matches (folder.child name.shown) = false ∨
      (∃ isDir, ctx.tree.fileType folder name = .ok isDir ∧
        ctx.rules.isIgnored (folder.child name.shown) isDir = true) ∨
          ∃ failure, ctx.tree.metadata folder name = .error failure ∧ failure.kind = .notFound

/-- A verdict by its kind, with what it says of the name. -/
inductive Verdict (ctx : Context) (folder : RelPath) (name : FileName) : Reading → Prop
  | passed (h : PassedOver ctx folder name) : Verdict ctx folder name .passed
  | excluded (h : PassedOver ctx folder name) :
      Verdict ctx folder name (.excluded (folder.child name.shown))
  | skip (reason : SkipReason) : Verdict ctx folder name (.skip ⟨folder.child name.shown, reason⟩)
  | carry (e : LocalEntry) (h : e.relative = folder.child name.shown) :
      Verdict ctx folder name (.carry e)

theorem noteExcluded_verdict {folder : RelPath} {name : FileName}
    (h : PassedOver ctx folder name) :
    Verdict ctx folder name (ctx.noteExcluded (folder.child name.shown)) := by
  rw [Context.noteExcluded]
  split
  · exact .excluded h
  · exact .passed h

theorem readEntry_verdict {folder : RelPath} {name : Name} {metadata : Metadata} :
    Verdict ctx folder (.text name) (ctx.readEntry folder name metadata) := by
  simp only [Context.readEntry]
  split
  · exact .skip _
  · split
    · exact .skip _
    · split
      · exact .skip _
      · split
        · exact .carry _ rfl
        · split
          · split
            · exact .skip _
            · rename_i hscope
              exact .passed (.inr (.inl (by simpa [FileName.shown] using hscope)))
          · split
            · exact .carry _ rfl
            · rename_i hscope
              exact .passed (.inr (.inl (by simpa [FileName.shown] using hscope)))

theorem read_verdict (folder : RelPath) (name : FileName) :
    Verdict ctx folder name (ctx.read folder name) := by
  cases name with
  | raw bytes lossy =>
    cases htype : ctx.tree.fileType folder (.raw bytes lossy) with
    | error failure =>
      simp only [Context.read, htype]
      exact .skip _
    | ok isDir =>
      simp only [Context.read, htype]
      split
      · rename_i hexcluded
        refine noteExcluded_verdict ?_
        rw [Bool.or_eq_true] at hexcluded
        rcases hexcluded with hmanaged | hignored
        · exact .inl hmanaged
        · exact .inr (.inr (.inl ⟨isDir, htype, hignored⟩))
      · exact .skip _
  | text component =>
    cases hmanaged : isDsmManaged (folder.child component) with
    | true =>
      simp only [Context.read, FileName.shown, hmanaged, if_true]
      exact noteExcluded_verdict (.inl hmanaged)
    | false =>
      by_cases hscope : (!ctx.scope.matches (folder.child component) &&
          !isAncestorOfScope ctx.scope (folder.child component)) = true
      · simp only [Context.read, FileName.shown, hmanaged, hscope, if_true]
        refine .passed (.inr (.inl ?_))
        rw [Bool.and_eq_true, Bool.not_eq_true'] at hscope
        exact hscope.1
      · cases htype : ctx.tree.fileType folder (.text component) with
        | error failure =>
          simp only [Context.read, FileName.shown, hmanaged, hscope, htype]
          exact .skip _
        | ok isDir =>
          cases hignored : ctx.rules.isIgnored (folder.child component) isDir with
          | true =>
            simp only [Context.read, FileName.shown, hmanaged, hscope, htype, hignored, if_true]
            exact noteExcluded_verdict (.inr (.inr (.inl ⟨isDir, htype, hignored⟩)))
          | false =>
            cases hrefusal : refusal (folder.child component) with
            | some reason =>
              simp only [Context.read, FileName.shown, hmanaged, hscope, htype, hignored, hrefusal]
              exact .skip _
            | none =>
              cases hmetadata : ctx.tree.metadata folder (.text component) with
              | error failure =>
                by_cases hgone : failure.kind = .notFound
                · simp only [Context.read, FileName.shown, hmanaged, hscope, htype, hignored,
                    hrefusal, hmetadata, hgone, if_true]
                  exact .passed (.inr (.inr (.inr ⟨failure, hmetadata, hgone⟩)))
                · simp only [Context.read, FileName.shown, hmanaged, hscope, htype, hignored,
                    hrefusal, hmetadata, hgone, if_false]
                  exact .skip _
              | ok metadata =>
                simp only [Context.read, FileName.shown, hmanaged, hscope, htype, hignored,
                  hrefusal, hmetadata]
                exact readEntry_verdict

theorem mem_declined {skip : SkippedEntry} :
    skip ∈ (findings ctx 248 .root).filterMap (declined? ctx) ↔ Came ctx (.skip skip) ∨
      ∃ failure, Entered ctx skip.relative ∧ ctx.tree.readDir skip.relative = .error failure ∧
        skip.reason = .deferred (readFailureDetail (ctx.tree.folderPath skip.relative) failure) := by
  rw [List.mem_filterMap]
  constructor
  · intro h
    obtain ⟨x, hx, hdeclined⟩ := h
    cases x with
    | check cancelled => cases hdeclined
    | unreadable folder failure =>
      obtain ⟨hentered, hfail⟩ := mem_findings_unreadable.mp hx
      obtain rfl := Option.some.inj hdeclined
      exact .inr ⟨failure, hentered, hfail, rfl⟩
    | read reading =>
      cases reading with
      | passed => cases hdeclined
      | excluded relative => cases hdeclined
      | carry e => cases hdeclined
      | skip skip' =>
        obtain rfl := Option.some.inj hdeclined
        exact .inl (mem_findings_read.mp hx)
  · intro h
    rcases h with hcame | ⟨failure, hentered, hfail, hreason⟩
    · exact ⟨_, mem_findings_read.mpr hcame, rfl⟩
    · refine ⟨_, mem_findings_unreadable.mpr ⟨hentered, hfail⟩, ?_⟩
      rw [declined?, ← hreason]

theorem gathered_of_complete {source : SourceRoot} {scan : ScopedScan}
    (h : scanScoped ctx budget source = some (.ok scan)) (hcomplete : scan.complete = true) :
    ∃ root s, Gathered ctx (findings ctx 248 .root) s ∧ scan = finish root s := by
  obtain ⟨root, s, _, hwalk, rfl⟩ := exists_of_scanScoped h
  obtain ⟨done, rest, u, hall, hgathered, _, _, _, hend⟩ := gathered_of_walk hwalk
  rcases hend with ⟨rfl, rfl⟩ | ⟨_, hstopped, _⟩
  · rw [List.append_nil] at hall
    exact ⟨root, s, hall ▸ hgathered, rfl⟩
  · exact absurd (hcomplete.symm.trans hstopped) (by simp)

theorem accounted_of_scanScoped {source : SourceRoot} {scan : ScopedScan}
    (h : scanScoped ctx budget source = some (.ok scan)) (hcomplete : scan.complete = true)
    {folder : RelPath} {name : FileName} (hlisted : Listed ctx folder name) :
    (∃ e, ctx.read folder name = .carry e ∧
      scan.inventory.entries.get? (folder.child name.shown) = some e) ∨
    (∃ skip ∈ scan.inventory.skipped, AtOrUnder skip.relative (folder.child name.shown)) ∨
    PassedOver ctx folder name := by
  obtain ⟨root, s, hgathered, rfl⟩ := gathered_of_complete h hcomplete
  have hcame : Came ctx (ctx.read folder name) := ⟨folder, name, hlisted, rfl⟩
  have hverdict : Verdict ctx folder name (ctx.read folder name) := read_verdict folder name
  generalize hread : ctx.read folder name = reading at hcame hverdict
  cases hverdict with
  | passed hpassed => exact .inr (.inr hpassed)
  | excluded hpassed => exact .inr (.inr hpassed)
  | skip reason =>
    refine .inr (.inl ⟨⟨folder.child name.shown, reason⟩, mem_skipped_finish.mpr (.inl ?_),
      atOrUnder_refl _⟩)
    rw [hgathered.skipped]
    exact mem_declined.mpr (.inl hcame)
  | carry e hrel =>
    by_cases hunreadable : ∃ failure, .unreadable e.relative failure ∈ findings ctx 248 .root
    · obtain ⟨failure, hmem⟩ := hunreadable
      obtain ⟨hentered, hfail⟩ := mem_findings_unreadable.mp hmem
      refine .inr (.inl ⟨⟨e.relative,
        .deferred (readFailureDetail (ctx.tree.folderPath e.relative) failure)⟩,
        mem_skipped_finish.mpr (.inl ?_), .inl hrel.symm⟩)
      rw [hgathered.skipped]
      exact mem_declined.mpr (.inr ⟨failure, hentered, hfail, rfl⟩)
    · have hget : s.output.entries.get? (folder.child name.shown) = some e :=
        (hgathered.entries _ e).mpr ⟨mem_findings_read.mpr hcame, hrel, fun failure hmem =>
          hunreadable ⟨failure, hrel ▸ hmem⟩⟩
      by_cases hdropped : Dropped s.output (folder.child name.shown)
      · obtain ⟨pair, hpair, hat⟩ := hdropped
        exact .inr (.inl ⟨_, mem_skipped_finish.mpr
          (.inr (List.mem_map.mpr ⟨pair, hpair, rfl⟩)), hat⟩)
      · exact .inl ⟨e, rfl, get?_finish.mpr ⟨hdropped, hget⟩⟩

/-- A scan that completes accounts for every name of every folder it went into: the name is carried
as it was read, a skip at or above it names it, or it was passed over. It carries nothing it did not
read, and skips nothing it did not decline, fail to list or find spelled twice. -/
theorem scanScoped_accounts {source : SourceRoot} {scan : ScopedScan}
    (h : scanScoped ctx budget source = some (.ok scan)) (hcomplete : scan.complete = true) :
    (∀ folder name, Listed ctx folder name →
      (∃ e, ctx.read folder name = .carry e ∧
        scan.inventory.entries.get? (folder.child name.shown) = some e) ∨
      (∃ skip ∈ scan.inventory.skipped, AtOrUnder skip.relative (folder.child name.shown)) ∨
      PassedOver ctx folder name) ∧
    (∀ k e, scan.inventory.entries.get? k = some e → Came ctx (.carry e) ∧ e.relative = k) ∧
    ∀ skip ∈ scan.inventory.skipped, Came ctx (.skip skip) ∨
      (∃ failure, Entered ctx skip.relative ∧ ctx.tree.readDir skip.relative = .error failure ∧
        skip.reason = .deferred (readFailureDetail (ctx.tree.folderPath skip.relative) failure)) ∨
      ∃ other e, skip.reason = .localCaseCollision other ∧ Came ctx (.carry e) ∧
        e.relative = skip.relative := by
  refine ⟨fun folder name hlisted => accounted_of_scanScoped h hcomplete hlisted, ?_⟩
  obtain ⟨root, s, hgathered, rfl⟩ := gathered_of_complete h hcomplete
  refine ⟨fun k e hget => ?_, fun skip hskip => ?_⟩
  · exact hgathered.came (List.append_nil _).symm (get?_finish.mp hget).2
  · rcases mem_skipped_finish.mp hskip with hwalked | hreport
    · rw [hgathered.skipped] at hwalked
      exact (mem_declined.mp hwalked).imp_right .inl
    · obtain ⟨pair, hpair, rfl⟩ := List.mem_map.mp hreport
      obtain ⟨hkey, _⟩ := mem_colliding hpair
      obtain ⟨e, hget⟩ := EntryMap.mem_keys.mp hkey
      obtain ⟨hcame, hrel⟩ := hgathered.came (List.append_nil _).symm hget
      exact .inr (.inr ⟨pair.2, e, rfl, hcame, hrel⟩)

end Accounts

theorem scanScoped_accounts_small :
    letI := charwise
    ∃ scan, scanScoped Small.context 100 Small.source = some (.ok scan) ∧
      (∀ folder name, Listed Small.context folder name →
        (∃ e, Small.context.read folder name = .carry e ∧
          scan.inventory.entries.get? (folder.child name.shown) = some e) ∨
        (∃ skip ∈ scan.inventory.skipped, AtOrUnder skip.relative (folder.child name.shown)) ∨
        PassedOver Small.context folder name) ∧
      (∀ k e, scan.inventory.entries.get? k = some e →
        Came Small.context (.carry e) ∧ e.relative = k) ∧
      ∀ skip ∈ scan.inventory.skipped, Came Small.context (.skip skip) ∨
        (∃ failure, Entered Small.context skip.relative ∧
          Small.tree.readDir skip.relative = .error failure ∧
          skip.reason =
            .deferred (readFailureDetail (Small.tree.folderPath skip.relative) failure)) ∨
        ∃ other e, skip.reason = .localCaseCollision other ∧ Came Small.context (.carry e) ∧
          e.relative = skip.relative := by
  let _ := charwise
  obtain ⟨scan, h, hcomplete⟩ := exists_of_finished
    (x := scanScoped Small.context 100 Small.source) (p := ScopedScan.complete) (by decide +kernel)
  exact ⟨scan, h, scanScoped_accounts h hcomplete⟩

/-! ## The budget -/

section Budget

variable [Unicode] {ctx : Context} {budget : Nat}

/-- A walk that a budget does not stop is the walk no budget limits. -/
theorem free_of_complete {s : ScanState} (h : walk ctx budget = some (.ok s))
    (hcomplete : s.complete = true) :
    (findings ctx 248 .root).foldlM (free ctx) .start = .ok s := by
  rw [walk_eq] at h
  obtain ⟨before, rest, u, hl, hbefore, _, _, hend⟩ := (rationed budget).run_ok
    ⟨[], rfl, gathered_start⟩ rfl
    (by simp [ScanState.start, ScanState.recorded, EntryMap.values, EntryMap.empty])
    (Option.some.inj h)
  rcases hend with ⟨hnil, hs, _⟩ | ⟨_, hs, _⟩
  · have hall : findings ctx 248 .root = before ++ rest := hl
    rw [hall, hnil, List.append_nil, hs]
    exact hbefore
  · rw [hs] at hcomplete
    cases hcomplete

/-- What a walk under any budget comes to, of what a walk with budget to spare came to: the same
where the budget is enough, else a walk that stopped with the budget spent to the last record, with
the first of the skips, and no entry that the whole walk does not have or did not withhold. -/
theorem walk_budget {ample : Nat} {whole : ScanState} (hwhole : walk ctx ample = some (.ok whole))
    (hcomplete : whole.complete = true) :
    (whole.recorded ≤ budget → walk ctx budget = some (.ok whole)) ∧
    (budget < whole.recorded → ∃ part, walk ctx budget = some (.ok part) ∧
      part.complete = false ∧ part.recorded = budget ∧
      part.output.skipped <+: whole.output.skipped ∧
      ∀ k e, part.output.entries.get? k = some e → whole.output.entries.get? k = some e ∨
        ∃ skip ∈ whole.output.skipped, skip.relative = k) := by
  have hfree := free_of_complete hwhole hcomplete
  have hstart : ScanState.start.recorded ≤ budget := by
    simp [ScanState.start, ScanState.recorded, EntryMap.values, EntryMap.empty]
  have hI : ∃ done, findings ctx 248 .root = done ++ findings ctx 248 .root ∧
      Gathered ctx done .start := ⟨[], rfl, gathered_start⟩
  refine ⟨fun hle => ?_, fun hlt => ?_⟩
  · rw [walk_eq, pass, ((rationed budget).run_eq hI rfl hfree hle).1]
  · obtain ⟨before, rest, u, _, _, hspent, hrun⟩ :=
      (rationed budget).run_stops hI rfl hfree hstart hlt
    refine ⟨{ u with complete := false }, by rw [walk_eq, pass, hrun], rfl, hspent, ?_⟩
    obtain ⟨done, rest', v, hall, hpart, _, houtput, _⟩ := gathered_of_walk
      (show walk ctx budget = some (.ok { u with complete := false }) by rw [walk_eq, pass, hrun])
    obtain ⟨done', rest'', w, hall', hrest, _, houtput', _, hend'⟩ := gathered_of_walk hwhole
    obtain ⟨rfl, rfl⟩ : rest'' = [] ∧ whole = w := by
      rcases hend' with hdone | ⟨_, hstopped, _⟩
      · exact hdone
      · exact absurd (hcomplete.symm.trans hstopped) (by simp)
    rw [List.append_nil] at hall'
    subst hall'
    have houtput : u.output = v.output := houtput
    refine ⟨?_, fun k e hget => ?_⟩
    · rw [houtput, hpart.skipped, hrest.skipped, hall, List.filterMap_append]
      exact List.prefix_append _ _
    · rw [houtput] at hget
      obtain ⟨hmem, hrel, _⟩ := (hpart.entries k e).mp hget
      by_cases hunreadable : ∃ failure, .unreadable k failure ∈ findings ctx 248 .root
      · obtain ⟨failure, hmem⟩ := hunreadable
        obtain ⟨hentered, hfail⟩ := mem_findings_unreadable.mp hmem
        refine .inr ⟨⟨k, .deferred (readFailureDetail (ctx.tree.folderPath k) failure)⟩, ?_, rfl⟩
        rw [hrest.skipped]
        exact mem_declined.mpr (.inr ⟨failure, hentered, hfail, rfl⟩)
      · exact .inl ((hrest.entries k e).mpr ⟨by simp [hall, hmem], hrel, fun failure hmem =>
          hunreadable ⟨failure, hmem⟩⟩)

end Budget

/-- Of the five records of the small source, a budget of three keeps three. -/
theorem walk_budget_small :
    letI := charwise
    ∃ whole part, walk Small.context 100 = some (.ok whole) ∧ whole.complete = true ∧
      walk Small.context whole.recorded = some (.ok whole) ∧
      walk Small.context 3 = some (.ok part) ∧ part.complete = false ∧ part.recorded = 3 ∧
      part.output.skipped <+: whole.output.skipped ∧
      ∀ k e, part.output.entries.get? k = some e → whole.output.entries.get? k = some e ∨
        ∃ skip ∈ whole.output.skipped, skip.relative = k := by
  let _ := charwise
  obtain ⟨whole, h, hp⟩ := exists_of_finished (x := walk Small.context 100)
    (p := fun s => s.complete && decide (3 < s.recorded)) (by decide +kernel)
  rw [Bool.and_eq_true, decide_eq_true_eq] at hp
  obtain ⟨part, hpart, hstopped⟩ := (walk_budget h hp.1).2 hp.2
  exact ⟨whole, part, h, hp.1, (walk_budget h hp.1).1 (Nat.le_refl _), hpart, hstopped⟩

/-! ## One path, outside the walk -/

section OnePath

variable {ctx : Context}

/-- What the checks of a name's metadata say, in and outside the walk. -/
theorem entryAt_readEntry {folder : RelPath} {name : Name} {metadata : Metadata}
    (hscope : ctx.scope.matches (folder.child name) = true)
    (hmanaged : isDsmManaged (folder.child name) = false)
    (hrefusal : refusal (folder.child name) = none) :
    (∀ e, entryAt (ctx.tree.fullPath folder (.text name)) (.ok metadata) (folder.child name) =
        .ok (some e) ↔ ctx.readEntry folder name metadata = .carry e) ∧
    ∀ failure, entryAt (ctx.tree.fullPath folder (.text name)) (.ok metadata)
        (folder.child name) = .error failure →
      ∃ skip, ctx.readEntry folder name metadata = .skip skip := by
  have hvalid : validateRelative (folder.child name) = .ok () := by
    rw [refusal] at hrefusal
    split at hrefusal
    · cases hrefusal
    · assumption
  have hissue : drivePathIssue (folder.child name) = none := by
    simpa [refusal, hvalid] using hrefusal
  simp only [entryAt, reduceCtorEq, if_false, hmanaged, Bool.false_eq_true, hvalid, hissue,
    Context.readEntry]
  cases hclass : metadata.linkClass with
  | link => simp [Metadata.isLinkOrReparse, Metadata.linkSkipReason, hclass]
  | dehydratedPlaceholder => simp [Metadata.isLinkOrReparse, Metadata.linkSkipReason, hclass]
  | ordinary =>
    simp only [Metadata.isLinkOrReparse, Metadata.linkSkipReason, hclass]
    cases hattributes : metadata.hasUnsupportedWindowsAttributes with
    | true => simp
    | false =>
      cases hdir : metadata.isDir with
      | true => simp
      | false =>
        cases hfile : metadata.isFile with
        | false => simp
        | true =>
          cases hmodified : metadata.modified with
          | error failure => simp [mtimeMs, hmodified, hscope]
          | ok nanos =>
            by_cases hnegative : nanos < 0
            · simp [mtimeMs, hmodified, hscope, hnegative]
            · by_cases hbig : nanos / 1000000 ≤ 9223372036854775807
              · simp [mtimeMs, hmodified, hscope, hnegative, hbig]
              · simp [mtimeMs, hmodified, hscope, hnegative, hbig]

variable [Unicode]

/-- For a name that is in scope and not excluded, looking at the one path says what the walk would
say: it is carried as the same entry or not at all, and what fails there is skipped here. -/
theorem entryAt_agrees {folder : RelPath} {name : Name} {isDir : Bool}
    (hscope : ctx.scope.matches (folder.child name) = true)
    (htype : ctx.tree.fileType folder (.text name) = .ok isDir)
    (hignored : ctx.rules.isIgnored (folder.child name) isDir = false) :
    (∀ e, entryAt (ctx.tree.fullPath folder (.text name)) (ctx.tree.metadata folder (.text name))
        (folder.child name) = .ok (some e) ↔ ctx.read folder (.text name) = .carry e) ∧
    ∀ failure, entryAt (ctx.tree.fullPath folder (.text name))
        (ctx.tree.metadata folder (.text name)) (folder.child name) = .error failure →
      ∃ skip, ctx.read folder (.text name) = .skip skip := by
  cases hmanaged : isDsmManaged (folder.child name) with
  | true =>
    cases hinclude : ctx.includeExcluded with
    | true => simp [entryAt, Context.read, FileName.shown, hmanaged, Context.noteExcluded, hinclude,
        hscope]
    | false => simp [entryAt, Context.read, FileName.shown, hmanaged, Context.noteExcluded, hinclude]
  | false =>
    cases hmetadata : ctx.tree.metadata folder (.text name) with
    | error failure =>
      cases hrefusal : refusal (folder.child name) with
      | some reason =>
        by_cases hgone : failure.kind = .notFound
        · simp [entryAt, Context.read, FileName.shown, hmanaged, hscope, htype, hignored, hrefusal,
            hgone]
        · simp [entryAt, Context.read, FileName.shown, hmanaged, hscope, htype, hignored, hrefusal,
            hgone]
      | none =>
        by_cases hgone : failure.kind = .notFound
        · simp [entryAt, Context.read, FileName.shown, hmanaged, hscope, htype, hignored, hrefusal,
            hmetadata, hgone]
        · simp [entryAt, Context.read, FileName.shown, hmanaged, hscope, htype, hignored, hrefusal,
            hmetadata, hgone]
    | ok metadata =>
      cases hrefusal : refusal (folder.child name) with
      | none =>
        have hread : ctx.read folder (.text name) = ctx.readEntry folder name metadata := by
          simp [Context.read, FileName.shown, hmanaged, hscope, htype, hignored, hrefusal, hmetadata]
        rw [hread]
        exact entryAt_readEntry hscope hmanaged hrefusal
      | some reason =>
        have hread : ctx.read folder (.text name) =
            .skip ⟨folder.child name, unsupportedEntry reason⟩ := by
          simp [Context.read, FileName.shown, hmanaged, hscope, htype, hignored, hrefusal]
        refine ⟨fun e => ?_, fun failure _ => ⟨_, hread⟩⟩
        rw [hread]
        simp only [reduceCtorEq, iff_false]
        rw [refusal] at hrefusal
        simp only [entryAt, reduceCtorEq, if_false, hmanaged, Bool.false_eq_true]
        split at hrefusal
        · simp
        · simp [hrefusal]

end OnePath

theorem entryAt_agrees_small :
    letI := charwise
    (∀ e, entryAt "a" (.ok (Small.metadata false)) (.child .root (DriveSync.Small.name 'a')) =
        .ok (some e) ↔
      Small.context.read .root (Small.text 'a') = .carry e) ∧
    ∀ failure, entryAt "a" (.ok (Small.metadata false)) (.child .root (DriveSync.Small.name 'a')) =
        .error failure → ∃ skip, Small.context.read .root (Small.text 'a') = .skip skip := by
  let _ := charwise
  exact @entryAt_agrees Small.context charwise .root (DriveSync.Small.name 'a') false
    (by decide) (by decide) (by decide)

end Scan
end DriveSync
