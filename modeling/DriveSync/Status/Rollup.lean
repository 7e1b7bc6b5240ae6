import DriveSync.Lib.Latest
import Mathlib.Data.List.Dedup
import Mathlib.Data.String.Basic

/-!
# DriveSync.Status.Rollup

The totals of the last unscoped pass of each profile, and the figure for the whole NAS composed from
them. A document is keyed by the name inside it; which profiles are configured is only used to find
those that are missing. So the figure is that of the configured profiles exactly while the directory
holds no document of another, and does not depend on the order it is read in exactly while no two
documents of a profile, and no two issues, differ (`compose_counts_iff`).
-/

namespace DriveSync
namespace Rollup

open Latest (latest)

def u64Max : Nat := 18446744073709551615

/-! ## Totals -/

/-- `+=` on a counter, as a release build computes it. -/
def wrappingAdd (a b : Nat) : Nat := (a + b) % 18446744073709551616

def saturatingAdd (a b : Nat) : Nat := min (a + b) u64Max

structure FilesAndBytes where
  files : Nat
  bytes : Nat
deriving DecidableEq, Repr

def FilesAndBytes.add (a b : FilesAndBytes) : FilesAndBytes :=
  ⟨wrappingAdd a.files b.files, saturatingAdd a.bytes b.bytes⟩

structure RollupState where
  inSync : FilesAndBytes
  wouldTransfer : FilesAndBytes
  differs : Nat
  missingRemote : Nat
  remoteOnly : Nat
  typeConflicts : Nat
  excluded : Nat
  directories : Nat
  totalEntries : Nat
  attentionEntries : Nat
deriving DecidableEq, Repr

namespace RollupState

def default : RollupState := ⟨⟨0, 0⟩, ⟨0, 0⟩, 0, 0, 0, 0, 0, 0, 0, 0⟩

def add (a b : RollupState) : RollupState :=
  { inSync := a.inSync.add b.inSync
    wouldTransfer := a.wouldTransfer.add b.wouldTransfer
    differs := wrappingAdd a.differs b.differs
    missingRemote := wrappingAdd a.missingRemote b.missingRemote
    remoteOnly := wrappingAdd a.remoteOnly b.remoteOnly
    typeConflicts := wrappingAdd a.typeConflicts b.typeConflicts
    excluded := wrappingAdd a.excluded b.excluded
    directories := wrappingAdd a.directories b.directories
    totalEntries := wrappingAdd a.totalEntries b.totalEntries
    attentionEntries := wrappingAdd a.attentionEntries b.attentionEntries }

end RollupState

/-! ## Documents -/

structure RollupObservation where
  complete : Bool
  budget : Nat
  digestsReused : Nat
  digestsComputed : Nat
  oldestEvidenceEpoch : Option Int
deriving DecidableEq, Repr

structure RollupDocument where
  schema : String
  binary : String
  profile : String
  source : String
  remote : String
  compare : String
  observedAtEpoch : Int
  observation : RollupObservation
  state : RollupState
deriving DecidableEq, Repr

def rollupSchema : String := "sdsync.status-rollup.v1"

structure CacheIssue where
  code : String
  severity : String
  path : String
  cause : String
deriving DecidableEq, Repr

def CacheIssue.warning (code path cause : String) : CacheIssue := ⟨code, "warning", path, cause⟩

def CacheIssue.info (code path cause : String) : CacheIssue := ⟨code, "info", path, cause⟩

/-! ## The directory -/

/-- What a file holds, or why it cannot be told. -/
inductive Content where
  | unreadable (error : String)
  | corrupt (error : String)
  | document (document : RollupDocument)
deriving DecidableEq, Repr

inductive DirEntry where
  | failed (error : String)
  | file (name : String) (content : Content)
deriving DecidableEq, Repr

/-- What reading the directory gives, in the order it is read in. -/
inductive Directory where
  | notFound
  | unreadable (error : String)
  | entries (entries : List DirEntry)
deriving DecidableEq, Repr

/-- A build: its version, where the directory is, and how it prints a quoted text. -/
structure Build where
  version : String
  directory : String
  quoted : String → String

section Compose

variable (build : Build)

/-- What an entry contributes: a document, an issue, or nothing. -/
inductive Found where
  | document (document : RollupDocument)
  | issue (issue : CacheIssue)
  | nothing
deriving DecidableEq, Repr

def isRollupName (name : String) : Bool :=
  ".rollup.json".toList.isSuffixOf name.toList && name.toList.head? != some '.'

def readEntry : DirEntry → Found
  | .failed error => .issue (.warning "rollup-directory-unreadable" build.directory error)
  | .file name content =>
    let path := build.directory ++ "/" ++ name
    if isRollupName name then
      match content with
      | .unreadable error => .issue (.warning "rollup-unreadable" path error)
      | .corrupt error => .issue (.warning "rollup-corrupt" path error)
      | .document document =>
        if document.schema ≠ rollupSchema ∨ document.binary ≠ build.version then
          .issue (.info "rollup-foreign" path
            ("written by schema " ++ build.quoted document.schema ++ " / build " ++
              build.quoted document.binary ++ "; waiting for this build's next status pass"))
        else .document document
    else .nothing

def usable? (entry : DirEntry) : Option RollupDocument :=
  match readEntry build entry with
  | .document document => some document
  | _ => none

def issue? (entry : DirEntry) : Option CacheIssue :=
  match readEntry build entry with
  | .issue issue => some issue
  | _ => none

def Directory.entryList : Directory → List DirEntry
  | .entries list => list
  | _ => []

/-- The documents by the profile they name, the last read of a profile kept. -/
def documentsOf (directory : Directory) : List RollupDocument :=
  latest RollupDocument.profile (directory.entryList.filterMap (usable? build))

def issuesOf (directory : Directory) : List CacheIssue :=
  match directory with
  | .unreadable error => [.warning "rollup-directory-unreadable" build.directory error]
  | _ => directory.entryList.filterMap (issue? build)

/-! ## The figure for the whole NAS -/

def trimEndSeparators (path : List Char) : List Char :=
  (path.reverse.dropWhile fun c => c == '/' || c == '\\').reverse

/-- Whether a text starts with another and goes on with a separator. -/
def continues (shorter longer : List Char) : Bool :=
  shorter.isPrefixOf longer &&
    match longer.drop shorter.length with
    | c :: _ => c == '/' || c == '\\'
    | [] => false

def byteLength (text : List Char) : Nat := (text.map Char.utf8Size).foldl (· + ·) 0

/-- Whether two roots cover any of the same tree. -/
def treesOverlap (left right : String) : Bool :=
  let left := trimEndSeparators left.toList
  let right := trimEndSeparators right.toList
  if left.isEmpty || right.isEmpty then false
  else if left = right then true
  else if byteLength left < byteLength right then continues left right
  else continues right left

def overlapping : List RollupDocument → Bool
  | [] => false
  | left :: rest =>
    rest.any (fun right => treesOverlap left.source right.source ||
      treesOverlap left.remote right.remote) || overlapping rest

structure RollupAggregate where
  schema : String
  generatedAtEpoch : Int
  profilesTotal : Nat
  profilesObserved : Nat
  profilesNeverObserved : List String
  complete : Bool
  observedAtEpoch : Option Int
  overlappingProfiles : Bool
  total : Option RollupState
  totalUnavailableReason : Option String
  profiles : List RollupDocument
  issues : List CacheIssue
deriving DecidableEq, Repr

def overlapReason : String :=
  "two or more profiles cover overlapping trees, so a combined total would count the same files more than once"

def sumStates (documents : List RollupDocument) : RollupState :=
  documents.foldl (fun sum document => sum.add document.state) .default

def totalOf (documents : List RollupDocument) : Option RollupState × Option String :=
  if overlapping documents then (none, some overlapReason)
  else if documents.isEmpty then (none, some "no profile has been observed yet")
  else (some (sumStates documents), none)

def neverObserved (documents : List RollupDocument) (expected : Option (List String)) :
    List String :=
  (expected.map fun names => names.filter fun name =>
    !documents.any fun document => document.profile == name).getD []

/-- The figure composed from the documents and issues that were read. -/
def aggregate (documents : List RollupDocument) (issues : List CacheIssue)
    (expected : Option (List String)) (now : Int) : RollupAggregate :=
  let never := neverObserved documents expected
  { schema := "sdsync.status-rollup-aggregate.v1"
    generatedAtEpoch := now
    profilesTotal := (expected.map List.length).getD documents.length
    profilesObserved := documents.length
    profilesNeverObserved := never
    complete := expected.isSome && never.isEmpty &&
      documents.all fun document => document.observation.complete
    observedAtEpoch := (documents.map fun document => document.observedAtEpoch).min?
    overlappingProfiles := overlapping documents
    total := (totalOf documents).1
    totalUnavailableReason := (totalOf documents).2
    profiles := documents
    issues := issues }

def composeRollups (directory : Directory) (expected : Option (List String)) (now : Int) :
    RollupAggregate :=
  aggregate (documentsOf build directory) (issuesOf build directory) expected now

end Compose

/-! ## What the figure counts -/

section Counts

variable (build : Build) (directory : Directory) (names : List String)

/-- The same directory, read in another order. -/
inductive Directory.Reordered : Directory → Directory → Prop where
  | same (directory : Directory) : Reordered directory directory
  | entries (l l' : List DirEntry) (h : l'.Perm l) : Reordered (.entries l) (.entries l')

/-- The directory without the documents of profiles that are not named. -/
def Directory.without : Directory → Directory
  | .entries l => .entries (l.filter fun entry =>
      match usable? build entry with
      | some document => names.contains document.profile
      | none => true)
  | directory => directory

/-- What a reader is told of the whole NAS. -/
def RollupAggregate.figures (aggregate : RollupAggregate) :
    Option RollupState × Bool × Bool × Option Int × Nat :=
  (aggregate.total, aggregate.complete, aggregate.overlappingProfiles, aggregate.observedAtEpoch,
    aggregate.profilesObserved)

def Usable (document : RollupDocument) : Prop :=
  document ∈ directory.entryList.filterMap (usable? build)

/-- The figure is that of the named profiles, whatever order the directory is read in. -/
structure CountsNamed (now : Int) : Prop where
  order : ∀ directory', Directory.Reordered directory directory' →
    composeRollups build directory' (some names) now = composeRollups build directory (some names) now
  others : (composeRollups build (directory.without build names) (some names) now).figures =
    (composeRollups build directory (some names) now).figures
  exact : (composeRollups build directory (some names) now).complete = true →
    ∀ total, (composeRollups build directory (some names) now).total = some total →
      ∃ documents, (documents.map RollupDocument.profile).Perm names.dedup ∧
        (∀ document ∈ documents, Usable build directory document) ∧ total = sumStates documents

/-- Every document is of a named profile, and there is one of each, and no two issues. -/
structure Tidy : Prop where
  named : ∀ document, Usable build directory document → document.profile ∈ names
  single : ∀ document, Usable build directory document → ∀ document',
    Usable build directory document' → document.profile = document'.profile → document = document'
  issues : ∀ issue ∈ issuesOf build directory, ∀ issue' ∈ issuesOf build directory, issue = issue'

variable {build directory names} {now : Int}

/-- What is found in a list can be found in any order. -/
theorem exists_perm_filterMap {α β : Type} {f : α → Option β} {found : List β} {l : List α}
    (h : found.Perm (l.filterMap f)) : ∃ l' : List α, l'.Perm l ∧ l'.filterMap f = found := by
  induction found generalizing l with
  | nil => exact ⟨l, .refl l, h.nil_eq.symm⟩
  | cons b found ih =>
    obtain ⟨a, ha, hb⟩ := List.mem_filterMap.mp (h.subset (.head _))
    obtain ⟨before, after, rfl⟩ := List.append_of_mem ha
    have hrest : found.Perm ((before ++ after).filterMap f) := by
      rw [List.filterMap_append, List.filterMap_cons_some hb] at h
      rw [List.filterMap_append]
      exact (h.trans List.perm_middle).cons_inv
    obtain ⟨l', hperm, hfound⟩ := ih hrest
    refine ⟨a :: l', (hperm.cons a).trans List.perm_middle.symm, ?_⟩
    rw [List.filterMap_cons_some hb, hfound]

theorem perm_eq_iff {α : Type} {l : List α} :
    (∀ l', l'.Perm l → l' = l) ↔ ∀ a ∈ l, ∀ b ∈ l, a = b := by
  constructor
  · intro h a ha b hb
    have hfirst (c : α) (hc : c ∈ l) : l.head? = some c := by
      obtain ⟨before, after, rfl⟩ := List.append_of_mem hc
      rw [← h _ List.perm_middle.symm]
      rfl
    exact Option.some.inj ((hfirst a ha).symm.trans (hfirst b hb))
  · intro h l' hperm
    cases l with
    | nil => exact hperm.eq_nil
    | cons a l =>
      have hrep : a :: l = List.replicate (l.length + 1) a :=
        List.eq_replicate_iff.mpr ⟨rfl, fun b hb => h b hb a (.head _)⟩
      rw [hrep] at hperm ⊢
      exact List.perm_replicate.mp hperm

theorem filterMap_without (l : List DirEntry) :
    (l.filter fun entry =>
      match usable? build entry with
      | some document => names.contains document.profile
      | none => true).filterMap (usable? build) =
    (l.filterMap (usable? build)).filter fun document => names.contains document.profile := by
  induction l with
  | nil => rfl
  | cons entry l ih =>
    cases h : usable? build entry with
    | none =>
      simp only [List.filter_cons, h, if_true, List.filterMap_cons_none]
      exact ih
    | some document =>
      by_cases hnamed : names.contains document.profile = true
      · simp only [List.filter_cons, hnamed, if_true, List.filterMap_cons_some h, h, ih]
      · simp only [List.filter_cons, hnamed, if_false, List.filterMap_cons_some h, h, ih,
          Bool.false_eq_true]

theorem documentsOf_without : documentsOf build (directory.without build names) =
    (documentsOf build directory).filter fun document => names.contains document.profile := by
  unfold documentsOf
  rw [← Latest.latest_filter (fun profile => names.contains profile)]
  cases directory with
  | entries l => rw [← filterMap_without]; rfl
  | notFound => rfl
  | unreadable error => rfl

theorem Directory.Reordered.perm {directory' : Directory}
    (h : Directory.Reordered directory directory') :
    directory'.entryList.Perm directory.entryList := by
  cases h with
  | same => exact .refl _
  | entries l l' h => exact h

theorem issuesOf_reordered {directory' : Directory}
    (h : Directory.Reordered directory directory') :
    (issuesOf build directory').Perm (issuesOf build directory) := by
  cases h with
  | same => exact .refl _
  | entries l l' h => exact h.filterMap _

/-- The documents of a profile are one exactly if reading them in another order changes nothing. -/
theorem documentsOf_order_iff : (∀ directory', Directory.Reordered directory directory' →
      documentsOf build directory' = documentsOf build directory) ↔
    ∀ document, Usable build directory document → ∀ document',
      Usable build directory document' → document.profile = document'.profile →
        document = document' := by
  rw [show (∀ document, Usable build directory document → ∀ document',
    Usable build directory document' → document.profile = document'.profile →
      document = document') ↔ _ from Iff.symm Latest.latest_perm_iff]
  constructor
  · intro h values hperm
    obtain ⟨l, hl, rfl⟩ := exists_perm_filterMap hperm
    cases directory with
    | entries entries => exact h (.entries l) (.entries _ _ hl)
    | notFound => rw [hl.eq_nil]; rfl
    | unreadable error => rw [hl.eq_nil]; rfl
  · intro h directory' hreordered
    exact h _ (hreordered.perm.filterMap _)

theorem issuesOf_order_iff : (∀ directory', Directory.Reordered directory directory' →
      issuesOf build directory' = issuesOf build directory) ↔
    ∀ issue ∈ issuesOf build directory, ∀ issue' ∈ issuesOf build directory, issue = issue' := by
  rw [← perm_eq_iff]
  constructor
  · intro h issues hperm
    cases directory with
    | entries entries =>
      obtain ⟨l, hl, rfl⟩ := exists_perm_filterMap hperm
      exact h (.entries l) (.entries _ _ hl)
    | notFound => exact hperm.eq_nil
    | unreadable error => exact List.perm_singleton.mp hperm
  · intro h directory' hreordered
    exact h _ (issuesOf_reordered hreordered)

theorem Tidy.documentsOf_without (h : Tidy build directory names) :
    documentsOf build (directory.without build names) = documentsOf build directory := by
  rw [Rollup.documentsOf_without, List.filter_eq_self]
  intro document hmem
  exact List.contains_iff_mem.mpr (h.named document (Latest.mem_of_mem_latest hmem))

/-- The profiles of the documents are those that are named, if none of these is missing. -/
theorem profiles_perm (h : Tidy build directory names)
    (hobserved : neverObserved (documentsOf build directory) (some names) = []) :
    ((documentsOf build directory).map RollupDocument.profile).Perm names.dedup := by
  have hnodup : ((documentsOf build directory).map RollupDocument.profile).Nodup :=
    List.pairwise_map.mpr (Latest.latest_ordered.imp fun hlt => hlt.ne)
  refine (List.perm_ext_iff_of_nodup hnodup (List.nodup_dedup names)).mpr fun name => ?_
  rw [List.mem_dedup, List.mem_map]
  constructor
  · rintro ⟨document, hmem, rfl⟩
    exact h.named document (Latest.mem_of_mem_latest hmem)
  · intro hname
    have hseen := List.filter_eq_nil_iff.mp hobserved name hname
    simp only [Bool.not_eq_true, Bool.not_eq_false', List.any_eq_true, beq_iff_eq] at hseen
    exact hseen

theorem counts_of_tidy (h : Tidy build directory names) : CountsNamed build directory names now where
  order directory' hreordered := by
    unfold composeRollups
    rw [documentsOf_order_iff.mpr h.single directory' hreordered,
      issuesOf_order_iff.mpr h.issues directory' hreordered]
  others := by
    unfold composeRollups
    rw [h.documentsOf_without]
    rfl
  exact hcomplete total htotal := by
    unfold composeRollups aggregate at hcomplete htotal
    simp only [Bool.and_eq_true, List.isEmpty_iff] at hcomplete
    refine ⟨documentsOf build directory, profiles_perm h hcomplete.1.2,
      fun document hmem => Latest.mem_of_mem_latest hmem, ?_⟩
    unfold totalOf at htotal
    split at htotal
    · cases htotal
    · split at htotal
      · cases htotal
      · exact (Option.some.inj htotal).symm

theorem tidy_of_counts (h : CountsNamed build directory names now) : Tidy build directory names where
  named document husable := by
    obtain ⟨kept, hkept, hprofile⟩ := Latest.exists_of_mem RollupDocument.profile husable
    have hlength : (documentsOf build (directory.without build names)).length =
        (documentsOf build directory).length :=
      congrArg (fun figures => figures.2.2.2.2) h.others
    rw [documentsOf_without, List.length_filter_eq_length_iff] at hlength
    have := hlength kept hkept
    rw [hprofile] at this
    exact List.contains_iff_mem.mp this
  single := documentsOf_order_iff.mp fun directory' hreordered =>
    congrArg RollupAggregate.profiles (h.order directory' hreordered)
  issues := issuesOf_order_iff.mp fun directory' hreordered =>
    congrArg RollupAggregate.issues (h.order directory' hreordered)

/-- The figure counts exactly the configured profiles while the directory is tidy, and not else. -/
theorem compose_counts_iff :
    CountsNamed build directory names now ↔ Tidy build directory names :=
  ⟨tidy_of_counts, counts_of_tidy⟩

end Counts

/-! A profile that was removed: its last totals stay in the directory and are added to the others'. -/
namespace Removed

def build : Build := ⟨"1.0.0", "/var/rollups", fun text => text⟩

def documentOf (profile : String) (files : Nat) : RollupDocument :=
  { schema := rollupSchema, binary := "1.0.0", profile := profile, source := "/volume1/" ++ profile
    remote := "/home/" ++ profile, compare := "size", observedAtEpoch := 7
    observation := ⟨true, 100, 0, 0, none⟩
    state := { RollupState.default with inSync := ⟨files, files⟩ } }

def directory : Directory := .entries
  [.file "photos.rollup.json" (.document (documentOf "photos" 3)),
    .file "old.rollup.json" (.document (documentOf "old" 5))]

theorem not_countsNamed : ¬ CountsNamed build directory ["photos"] 9 := by
  intro h
  have hothers := congrArg (fun figures => figures.2.2.2.2) h.others
  revert hothers
  decide

end Removed

end Rollup
end DriveSync
