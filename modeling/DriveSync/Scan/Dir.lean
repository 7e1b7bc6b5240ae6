import DriveSync.Lib.Ration
import DriveSync.Scan.Read

/-!
# DriveSync.Scan.Dir

The local walk: folder by folder, each listing in the order of its names, every entry and every skip
on one budget. No path longer than Synology Drive's limit is descended into, so the limit is depth
enough for any tree (`scanDir_eq`).

* `scanDir`: the walk, on one state it changes as it goes.
* `findings`: all that the walk comes to, in order, whatever becomes of it.
* `scanDir_eq`: the walk is one pass over its findings, which stops when the budget is spent.
-/

namespace DriveSync
namespace Scan

open Path

structure ScanState where
  output : ScanOutput
  excluded : Std.TreeSet RelPath
  /-- False once the budget has stopped the walk. -/
  complete : Bool

namespace ScanState

def start : ScanState := ⟨⟨.empty, []⟩, ∅, true⟩

/-- What counts against the budget. -/
def recorded (s : ScanState) : Nat := s.output.entries.values.length + s.output.skipped.length

def insert (budget : Nat) (entry : LocalEntry) (s : ScanState) : ScanState :=
  if budget ≤ s.recorded then { s with complete := false }
  else { s with output := ⟨s.output.entries.insert entry, s.output.skipped⟩ }

def skip (budget : Nat) (skip : SkippedEntry) (s : ScanState) : ScanState :=
  if budget ≤ s.recorded then { s with complete := false }
  else { s with output := ⟨s.output.entries, s.output.skipped ++ [skip]⟩ }

/-- A folder that could not be read, withheld with what was recorded for it. -/
def withholdUnreadable (relative : RelPath) (path : String) (failure : ReadFailure)
    (s : ScanState) : ScanState :=
  { s with output :=
    ⟨(((rangeBeneath s.output.entries.map relative).map (·.1)).foldl EntryMap.erase
        s.output.entries).erase relative,
      s.output.skipped ++ [⟨relative, .deferred (readFailureDetail path failure)⟩]⟩ }

def record (budget : Nat) (s : ScanState) : Reading → ScanState
  | .passed => s
  | .excluded relative => { s with excluded := s.excluded.insert relative }
  | .skip skip => s.skip budget skip
  | .carry entry => s.insert budget entry

end ScanState

/-- A listing in the order it is read in. -/
def sortedNames (names : List FileName) : List FileName :=
  names.insertionSort fun a b => a.bytes ≤ b.bytes

section Scan

variable [Unicode] (ctx : Context) (budget : Nat)

/-- The names of one folder, each with what lies beneath it. The walk of the folder ends where the
budget does. -/
def scanChildren (descend : RelPath → ScanState → Option (Except ExecError ScanState))
    (folder : RelPath) : List FileName → ScanState → Option (Except ExecError ScanState)
  | [], s => some (.ok s)
  | name :: names, s =>
    if ctx.tree.cancelledBefore folder name then some (.error .cancelled)
    else
      let s := s.record budget (ctx.read folder name)
      if !s.complete then some (.ok s)
      else
        match ctx.read folder name with
        | .carry ⟨relative, .directory, _, _, _⟩ =>
          match descend relative s with
          | some (.ok s) => if s.complete then scanChildren descend folder names s else some (.ok s)
          | failed => failed
        | _ => scanChildren descend folder names s

def scanDir : Nat → RelPath → ScanState → Option (Except ExecError ScanState)
  | 0, _, _ => none
  | depth + 1, folder, s =>
    if ctx.tree.cancelledAt folder then some (.error .cancelled)
    else
      match ctx.tree.readDir folder with
      | .error failure =>
        -- the root itself must be readable; any other folder is that folder's skip
        if folder = .root then
          some (.error (.fileIo ctx.tree.rootPath failure.kind failure.text))
        else some (.ok (s.withholdUnreadable folder (ctx.tree.folderPath folder) failure))
      | .ok names => scanChildren ctx budget (scanDir depth) folder (sortedNames names) s

/-! ## What the walk comes to -/

inductive Finding where
  /-- Whether the run is cancelled by now. -/
  | check (cancelled : Bool)
  | unreadable (folder : RelPath) (failure : ReadFailure)
  | read (reading : Reading)
deriving DecidableEq, Repr

def follow (s : ScanState) : Finding → Except ExecError ScanState
  | .check cancelled => if cancelled then .error .cancelled else .ok s
  | .unreadable folder failure =>
    if folder = .root then .error (.fileIo ctx.tree.rootPath failure.kind failure.text)
    else .ok (s.withholdUnreadable folder (ctx.tree.folderPath folder) failure)
  | .read reading => .ok (s.record budget reading)

/-- What stands beneath a name, of what stands in a folder. -/
def beneath (within : RelPath → List Finding) : Reading → List Finding
  | .carry ⟨relative, .directory, _, _, _⟩ => within relative
  | _ => []

def ofName (within : RelPath → List Finding) (folder : RelPath) (name : FileName) : List Finding :=
  .check (ctx.tree.cancelledBefore folder name) :: .read (ctx.read folder name) ::
    beneath within (ctx.read folder name)

def findings : Nat → RelPath → List Finding
  | 0, _ => []
  | depth + 1, folder =>
    .check (ctx.tree.cancelledAt folder) ::
      match ctx.tree.readDir folder with
      | .error failure => [.unreadable folder failure]
      | .ok names => (sortedNames names).flatMap (ofName ctx (findings depth) folder)

end Scan

/-! ## The walk is one pass -/

section Pass

variable {ctx : Context} {budget : Nat}

theorem length_of_refusal {relative : RelPath} (h : refusal relative = none) :
    relative.render.length ≤ 247 := by
  rw [refusal] at h
  split at h
  · cases h
  · rw [drivePathIssue] at h
    split at h
    · cases h
    · omega

theorem render_length_lt (folder : RelPath) (name : Name) :
    folder.render.length < (folder.child name).render.length := by
  by_cases hroot : folder = .root
  · subst hroot
    have := List.length_pos_iff.mpr name.2.1
    simpa [render] using this
  · rw [render_child hroot]
    simp

theorem readEntry_carry {folder : RelPath} {name : Name} {metadata : Metadata} {e : LocalEntry}
    (h : ctx.readEntry folder name metadata = .carry e) :
    e.relative = folder.child name ∧ metadata.linkSkipReason = none ∧
      metadata.hasUnsupportedWindowsAttributes = false ∧ e.contentMd5 = none ∧
      (metadata.isDir = true ∧ e.kind = .directory ∧ e.size = 0 ∧ e.mtimeMs = 0 ∨
        metadata.isDir = false ∧ metadata.isFile = true ∧ e.kind = .file ∧
          e.size = metadata.size ∧
          mtimeMs (ctx.tree.fullPath folder (.text name)) metadata = .ok e.mtimeMs ∧
          ctx.scope.matches (folder.child name) = true) := by
  simp only [Context.readEntry] at h
  split at h
  · cases h
  · rename_i hlink
    split at h
    · cases h
    · rename_i hattributes
      rw [Bool.not_eq_true] at hattributes
      split at h
      · cases h
      · rename_i hordinary
        split at h
        · rename_i hdir
          cases h
          exact ⟨rfl, hlink, hattributes, rfl, .inl ⟨hdir, rfl, rfl, rfl⟩⟩
        · rename_i hdir
          split at h
          · split at h <;> cases h
          · rename_i ms hms
            split at h
            · rename_i hscope
              cases h
              refine ⟨rfl, hlink, hattributes, rfl, .inr ⟨by simpa using hdir, ?_, rfl, rfl, hms,
                hscope⟩⟩
              simpa [hdir] using hordinary
            · cases h

/-- How a walk goes over findings. -/
abbrev pass (ctx : Context) (budget : Nat) (l : List Finding) (s : ScanState) :
    Except ExecError ScanState := Ration.run (follow ctx budget) ScanState.complete l s

theorem pass_check {cancelled : Bool} {l : List Finding} {s : ScanState} (hs : s.complete = true) :
    pass ctx budget (.check cancelled :: l) s =
      if cancelled then .error .cancelled else pass ctx budget l s := by
  cases cancelled with
  | true => exact Ration.run_cons_of_error rfl
  | false => exact Ration.run_cons_of_going rfl hs

variable [Unicode]

/-- A name that is carried is text, and every check before its metadata let it through. -/
theorem read_carry {folder : RelPath} {name : FileName} {e : LocalEntry}
    (h : ctx.read folder name = .carry e) :
    ∃ component isDir metadata, name = .text component ∧
      isDsmManaged (folder.child component) = false ∧
      (ctx.scope.matches (folder.child component) = true ∨
        isAncestorOfScope ctx.scope (folder.child component) = true) ∧
      ctx.tree.fileType folder name = .ok isDir ∧
      ctx.rules.isIgnored (folder.child component) isDir = false ∧
      refusal (folder.child component) = none ∧
      ctx.tree.metadata folder name = .ok metadata ∧
      ctx.readEntry folder component metadata = .carry e := by
  cases name with
  | raw bytes lossy =>
    simp only [Context.read, Context.noteExcluded] at h
    split at h
    · cases h
    · split at h
      · split at h <;> cases h
      · cases h
  | text component =>
    have hnote : ∀ relative, ctx.noteExcluded relative ≠ .carry e := by
      intro relative hnote
      rw [Context.noteExcluded] at hnote
      split at hnote <;> cases hnote
    cases hmanaged : isDsmManaged (folder.child component) with
    | true =>
      simp only [Context.read, FileName.shown, hmanaged, if_true] at h
      exact absurd h (hnote _)
    | false =>
      by_cases hscope : (!ctx.scope.matches (folder.child component) &&
          !isAncestorOfScope ctx.scope (folder.child component)) = true
      · simp [Context.read, FileName.shown, hmanaged, hscope] at h
      · simp only [Context.read, FileName.shown, hmanaged, hscope] at h
        cases htype : ctx.tree.fileType folder (.text component) with
        | error failure => simp [htype] at h
        | ok isDir =>
          cases hignored : ctx.rules.isIgnored (folder.child component) isDir with
          | true =>
            simp only [htype, hignored, if_true] at h
            exact absurd h (hnote _)
          | false =>
            cases hrefusal : refusal (folder.child component) with
            | some reason => simp [htype, hignored, hrefusal] at h
            | none =>
              cases hmetadata : ctx.tree.metadata folder (.text component) with
              | error failure =>
                by_cases hgone : failure.kind = .notFound
                · simp [htype, hignored, hrefusal, hmetadata, hgone] at h
                · simp [htype, hignored, hrefusal, hmetadata, hgone] at h
              | ok metadata =>
                simp only [htype, hignored, hrefusal, hmetadata, Bool.false_eq_true, if_false] at h
                refine ⟨component, isDir, metadata, rfl, hmanaged, ?_, rfl, hignored, hrefusal,
                  rfl, h⟩
                simp only [Bool.and_eq_true, Bool.not_eq_true', not_and_or, Bool.not_eq_false]
                  at hscope
                exact hscope

theorem carry_relative {folder : RelPath} {name : FileName} {e : LocalEntry}
    (h : ctx.read folder name = .carry e) : e.relative = folder.child name.shown := by
  obtain ⟨component, _, _, rfl, _, _, _, _, _, _, hentry⟩ := read_carry h
  exact (readEntry_carry hentry).1

/-- The walk goes no deeper than the limit of a path. -/
theorem length_of_carry {folder : RelPath} {name : FileName} {e : LocalEntry}
    (h : ctx.read folder name = .carry e) :
    folder.render.length < e.relative.render.length ∧ e.relative.render.length ≤ 247 := by
  obtain ⟨component, _, _, rfl, _, _, _, _, hrefusal, _, hentry⟩ := read_carry h
  rw [(readEntry_carry hentry).1]
  exact ⟨render_length_lt folder component, length_of_refusal hrefusal⟩

theorem scanChildren_eq {descend : RelPath → ScanState → Option (Except ExecError ScanState)}
    {within : RelPath → List Finding} {folder : RelPath} {names : List FileName}
    (hdescend : ∀ name ∈ names, ∀ e, ctx.read folder name = .carry e → e.kind = .directory →
      ∀ s : ScanState, s.complete = true →
        descend e.relative s = some (pass ctx budget (within e.relative) s))
    {s : ScanState} (hs : s.complete = true) :
    scanChildren ctx budget descend folder names s =
      some (pass ctx budget (names.flatMap (ofName ctx within folder)) s) := by
  induction names generalizing s with
  | nil => rfl
  | cons name names ih =>
    have ih' := fun {s : ScanState} => ih (s := s) fun n hn => hdescend n (.tail _ hn)
    rw [List.flatMap_cons, ofName, List.cons_append, pass_check hs]
    simp only [scanChildren]
    split
    · rfl
    · have hstep : follow ctx budget s (.read (ctx.read folder name)) =
          .ok (s.record budget (ctx.read folder name)) := rfl
      cases hgo : (s.record budget (ctx.read folder name)).complete with
      | false =>
        rw [List.cons_append, pass, Ration.run_cons_of_stopped hstep hgo]
        simp
      | true =>
        rw [List.cons_append, pass, Ration.run_cons_of_going hstep hgo, Ration.run_append _ _ _ hgo]
        simp only [Bool.not_true, Bool.false_eq_true, if_false]
        cases hread : ctx.read folder name with
        | passed =>
          rw [hread] at hgo
          simpa [beneath, hgo] using ih' hgo
        | excluded relative =>
          rw [hread] at hgo
          simpa [beneath, hgo] using ih' hgo
        | skip skip =>
          rw [hread] at hgo
          simpa [beneath, hgo] using ih' hgo
        | carry e =>
          rw [hread] at hgo
          obtain ⟨relative, kind, size, mtime, digest⟩ := e
          cases kind with
          | file => simpa [beneath, hgo] using ih' hgo
          | directory =>
            have hd := hdescend name (.head _) _ hread rfl _ hgo
            simp only [hd, beneath]
            cases hpass : pass ctx budget (within relative)
                (s.record budget (.carry ⟨relative, .directory, size, mtime, digest⟩)) with
            | error e =>
              rw [pass] at hpass
              simp [hpass]
            | ok t =>
              rw [pass] at hpass
              simp only [hpass]
              cases ht : t.complete with
              | true => simpa using ih' ht
              | false => simp

/-- The walk, with depth enough, is one pass over what it comes to. -/
theorem scanDir_eq {depth : Nat} {folder : RelPath} {s : ScanState}
    (hdepth : 247 < folder.render.length + depth) (hlength : folder.render.length ≤ 247)
    (hs : s.complete = true) :
    scanDir ctx budget depth folder s = some (pass ctx budget (findings ctx depth folder) s) := by
  induction depth generalizing folder s with
  | zero => omega
  | succ depth ih =>
    rw [findings, pass_check hs]
    simp only [scanDir]
    split
    · rfl
    · cases hread : ctx.tree.readDir folder with
      | error failure =>
        simp only []
        by_cases hroot : folder = .root
        · have hstep : follow ctx budget s (.unreadable folder failure) =
              .error (.fileIo ctx.tree.rootPath failure.kind failure.text) := if_pos hroot
          rw [if_pos hroot, pass, Ration.run_cons_of_error hstep]
        · have hstep : follow ctx budget s (.unreadable folder failure) =
              .ok (s.withholdUnreadable folder (ctx.tree.folderPath folder) failure) :=
            if_neg hroot
          rw [if_neg hroot, pass, Ration.run_cons_of_going hstep hs]
          rfl
      | ok names =>
        refine scanChildren_eq (fun name _ e he _ t ht => ?_) hs
        obtain ⟨hlt, hle⟩ := length_of_carry he
        exact ih (by omega) hle ht

end Pass

end Scan
end DriveSync
