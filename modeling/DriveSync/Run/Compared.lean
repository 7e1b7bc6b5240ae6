import DriveSync.Run.Digested

/-!
# DriveSync.Run.Compared

Where the digests of a run come from. Neither walk reads a file: a digest that two files are compared
by is what the side the file lies on answered when it was asked for it.

* `SameFile`: a local file and a remote one that compare equal, by what their sides answer.
* `read_of_populatePlanDigests`: the inventories a run plans from hold no other digests.
-/

namespace DriveSync

open Path

namespace DigestSource

/-- The digest is what a read of the local file came to. -/
def AnswersLocal (source : DigestSource) (x : LocalEntry) (digest : ContentFingerprint) : Prop :=
  source.hashMd5 x = .ok digest ∨ ∃ full, source.hash x = .ok full ∧ full.1 = digest

/-- The digest is what the NAS answered for the file, or a download of it came to. -/
def AnswersRemote (source : DigestSource) (e : RemoteEntry) (digest : ContentFingerprint) : Prop :=
  source.md5 e.remotePath = .ok digest ∨
    ∃ full, source.fingerprint e.remotePath e.size = .ok full ∧ full.1 = digest

end DigestSource

/-- The two files compare equal, by what is read of them. -/
def SameFile (source : DigestSource) (compare : CompareMode) (x : LocalEntry) (e : RemoteEntry) :
    Prop :=
  ∃ mine theirs : Option ContentFingerprint,
    (∀ digest ∈ mine, source.AnswersLocal x digest) ∧
      (∀ digest ∈ theirs, source.AnswersRemote e digest) ∧
      compareFiles { x with contentMd5 := mine } { e with contentMd5 := theirs } compare = none

theorem LocalEntry.undigested_eq_self {x : LocalEntry} (h : x.contentMd5 = none) :
    x.undigested = x := by
  rw [undigested, ← h]

theorem RemoteEntry.undigested_eq_self {e : RemoteEntry} (h : e.contentMd5 = none) :
    e.undigested = e := by
  rw [undigested, ← h]

theorem LocalInventory.mem_values_of_withhold {L : LocalInventory} {relative : RelPath}
    {reason : SkipReason} {x : LocalEntry} (hx : x ∈ (L.withhold relative reason).entries.values) :
    x ∈ L.entries.values := by
  rw [EntryMap.mem_values, get?_withhold] at hx
  split at hx
  · cases hx
  · exact EntryMap.mem_values.mpr hx

/-! ## One digest -/

section Passes

variable {source : DigestSource}

variable (source) in
/-- Each digest of the local entries was read. -/
def LocalRead (entries : LocalMap) : Prop :=
  ∀ y ∈ entries.values, ∀ digest ∈ y.contentMd5, source.AnswersLocal y.undigested digest

variable (source) in
def RemoteRead (entries : RemoteMap) : Prop :=
  ∀ r ∈ entries.values, ∀ digest ∈ r.contentMd5, source.AnswersRemote r digest

theorem localRead_of_undigested {entries : LocalMap}
    (h : ∀ x ∈ entries.values, x.contentMd5 = none) : LocalRead source entries := by
  intro y hy digest hdigest
  rw [h y hy] at hdigest
  cases hdigest

theorem remoteRead_of_undigested {entries : RemoteMap}
    (h : ∀ e ∈ entries.values, e.contentMd5 = none) : RemoteRead source entries := by
  intro r hr digest hdigest
  rw [h r hr] at hdigest
  cases hdigest

theorem LocalRead.withhold {L : LocalInventory} (h : LocalRead source L.entries)
    (relative : RelPath) (reason : SkipReason) :
    LocalRead source (L.withhold relative reason).entries :=
  fun y hy => h y (LocalInventory.mem_values_of_withhold hy)

theorem LocalRead.hashOne {comparison : Std.TreeSet RelPath} {pass pass' : HashPass} {x : LocalEntry}
    (h : LocalRead source pass.entries) (hrun : hashOne source comparison pass x = .ok pass') :
    LocalRead source pass'.entries := by
  unfold DriveSync.hashOne at hrun
  split at hrun
  · cases hrun
    exact h
  · rename_i hunread
    have hsame : x.undigested = x :=
      LocalEntry.undigested_eq_self (by simpa using fun h => hunread (.inr h))
    dsimp only at hrun
    split at hrun
    · rename_i digest hdigest
      cases hrun
      intro y hy digest' hdigest'
      rcases EntryMap.of_mem_values_insert hy with rfl | hy
      · obtain rfl : digest = digest' := Option.some.inj hdigest'
        show source.AnswersLocal x.undigested digest
        rw [hsame]
        split at hdigest
        · exact .inl hdigest
        · cases hhash : source.hash x with
          | error error => rw [hhash] at hdigest; cases hdigest
          | ok full =>
            rw [hhash] at hdigest
            exact .inr ⟨full, hhash, Except.ok.inj hdigest⟩
      · exact h y hy digest' hdigest'
    · cases hrun
    · cases hrun
      exact h

theorem RemoteRead.record {pass pass' : DigestPass} {e : RemoteEntry}
    {answer : Except DigestError ContentFingerprint} (h : RemoteRead source pass.entries)
    (hread : ∀ digest, answer = .ok digest → source.AnswersRemote e digest)
    (hrun : pass.record (e, answer) = .ok pass') : RemoteRead source pass'.entries := by
  obtain ⟨breaker, _, hrun⟩ := Loop.bind_eq_ok.mp hrun
  cases answer with
  | ok digest =>
    obtain rfl := Except.ok.inj hrun
    intro r hr digest' hdigest'
    rcases EntryMap.of_mem_values_insert hr with rfl | hr
    · obtain rfl : digest = digest' := Option.some.inj hdigest'
      exact hread digest rfl
    · exact h r hr digest' hdigest'
  | error error =>
    obtain rfl := Except.ok.inj hrun
    exact h

theorem RemoteRead.fingerprintOne {pass pass' : DigestPass} {p : RelPath}
    (h : RemoteRead source pass.entries) (hrun : fingerprintOne source pass p = .ok pass') :
    RemoteRead source pass'.entries := by
  obtain ⟨e, _, hread⟩ := Loop.bind_eq_ok.mp hrun
  obtain ⟨judged, hjudged, hrecord⟩ := Loop.bind_eq_ok.mp hread
  obtain ⟨rfl, hdigest⟩ := judgeDigest_eq_ok hjudged
  refine h.record (fun digest hd => ?_) hrecord
  have hanswer := hdigest digest hd
  cases hfull : source.fingerprint judged.1.remotePath judged.1.size with
  | error error => rw [hfull] at hanswer; cases hanswer
  | ok full =>
    rw [hfull] at hanswer
    exact .inr ⟨full, hfull, Except.ok.inj hanswer⟩

theorem RemoteRead.md5Batch {batch : List RelPath} {pass pass' : DigestPass}
    (h : RemoteRead source pass.entries) (hrun : md5Batch source pass batch = .ok pass') :
    RemoteRead source pass'.entries := by
  obtain ⟨files, _, hrun⟩ := Loop.bind_eq_ok.mp hrun
  obtain ⟨answers, hanswers, hrun⟩ := Loop.bind_eq_ok.mp hrun
  refine Loop.foldlM_done (I := fun _ s => RemoteRead source s.entries) answers h ?_ hrun
  intro done answer rest s s' hsplit hs hstep
  obtain ⟨e, _, hjudged⟩ := Loop.mem_of_mapM hanswers answer (by rw [hsplit]; simp)
  obtain ⟨rfl, hdigest⟩ := judgeDigest_eq_ok hjudged
  exact hs.record (fun digest hd => .inl (hdigest digest hd)) hstep

/-! ## The passes of a run -/

theorem LocalRead.populate {L L' : LocalInventory} {comparison : Std.TreeSet RelPath}
    {failed : List (RelPath × ExecError)} (h : LocalRead source L.entries)
    (hrun : populateContentMd5SelectiveDeferring source L comparison = .ok (L', failed)) :
    LocalRead source L'.entries := by
  obtain ⟨pass, hpass, hrun⟩ := Loop.bind_eq_ok.mp hrun
  cases hrun
  exact Loop.foldlM_done (I := fun _ (s : HashPass) => LocalRead source s.entries) _ h
    (fun _ _ _ _ _ _ hs hstep => hs.hashOne hstep) hpass

theorem RemoteRead.fingerprints {R R' : RemoteInventory} {selected : Std.TreeSet RelPath}
    {deferred : List (RelPath × DigestError)} (h : RemoteRead source R.entries)
    (hrun : populateRemoteContentFingerprintsDeferring source R selected = .ok (R', deferred)) :
    RemoteRead source R'.entries := by
  obtain ⟨_, _, hrun⟩ := Loop.bind_eq_ok.mp hrun
  obtain ⟨pass, hpass, hrun⟩ := Loop.bind_eq_ok.mp hrun
  cases hrun
  exact Loop.foldlM_done (I := fun _ (s : DigestPass) => RemoteRead source s.entries) _ h
    (fun _ _ _ _ _ _ hs hstep => hs.fingerprintOne hstep) hpass

theorem RemoteRead.md5With {R R' : RemoteInventory} {selected : List RelPath}
    {deferred : List (RelPath × DigestError)} (h : RemoteRead source R.entries)
    (hrun : populateRemoteContentMd5With source R selected = .ok (R', deferred)) :
    RemoteRead source R'.entries := by
  obtain ⟨_, _, hrun⟩ := Loop.bind_eq_ok.mp hrun
  obtain ⟨pass, hpass, hrun⟩ := Loop.bind_eq_ok.mp hrun
  cases hrun
  exact Loop.foldlM_done (I := fun _ (s : DigestPass) => RemoteRead source s.entries) _ h
    (fun _ _ _ _ _ _ hs hstep => hs.md5Batch hstep) hpass

theorem RemoteRead.digests {R R' : RemoteInventory} {comparison strong : Std.TreeSet RelPath}
    {deferred : List (RelPath × DigestError)} (h : RemoteRead source R.entries)
    (hrun : populateRemoteContentDigestsDeferring source R comparison strong = .ok (R', deferred)) :
    RemoteRead source R'.entries := by
  obtain ⟨⟨R₁, first⟩, hfirst, hrun⟩ := Loop.bind_eq_ok.mp hrun
  obtain ⟨⟨R₂, second⟩, hsecond, hrun⟩ := Loop.bind_eq_ok.mp hrun
  cases hrun
  exact (h.fingerprints hfirst).md5With hsecond

end Passes

/-! ## The digests of a run -/

variable {source : DigestSource}

/-- Each digest of what has been prepared was read. -/
structure Prepared.Read (source : DigestSource) (prepared : Prepared) : Prop where
  mine : LocalRead source prepared.L.entries
  theirs : RemoteRead source prepared.R.entries

variable {prepared prepared' : Prepared}

theorem Prepared.Read.withhold (h : prepared.Read source) (relative : RelPath) (reason : DeferReason)
    (detail : String) : (prepared.withhold relative reason detail).Read source :=
  ⟨h.mine.withhold relative _, h.theirs⟩

theorem Prepared.Read.withholdLocal (h : prepared.Read source)
    (failed : List (RelPath × ExecError)) :
    (failed.foldl Prepared.withholdLocal prepared).Read source :=
  List.foldlRecOn _ _ h fun _ h _ _ => h.withhold _ _ _

theorem Prepared.Read.withholdRemote (h : prepared.Read source)
    (failed : List (RelPath × DigestError)) :
    (failed.foldl Prepared.withholdRemote prepared).Read source :=
  List.foldlRecOn _ _ h fun _ h _ _ => h.withhold _ _ _

/-- Files that are read equal as a run compared them compare equal by what was read. -/
theorem Prepared.Read.sameFile (h : prepared.Read source) {compare : CompareMode} {x y : LocalEntry}
    {e r : RemoteEntry} (hy : y ∈ prepared.L.entries.values) (hr : r ∈ prepared.R.entries.values)
    (hyx : y.undigested = x) (hre : r.undigested = e) (hequal : compareFiles y r compare = none) :
    SameFile source compare x e := by
  subst hyx hre
  exact ⟨y.contentMd5, r.contentMd5, h.mine y hy, h.theirs r hr, hequal⟩

section Populate

variable [Unicode] {L : LocalInventory} {R : RemoteInventory} {rules : IgnoreRules}
  {mode : CompareMode} {serverCopy delete : Bool} {incomplete : List RelPath}

theorem LocalRead.withholdByListing (h : LocalRead source L.entries) (guarded : Bool) :
    LocalRead source (withholdByListing L R rules guarded incomplete).entries := by
  simp only [DriveSync.withholdByListing]
  split
  · exact List.foldlRecOn (motive := fun L' : LocalInventory => LocalRead source L'.entries) _ _ h
      fun _ h _ _ => h.withhold _ _
  · exact h

theorem Prepared.Read.populateContent (h : prepared.Read source)
    (hrun : populateContent source rules serverCopy delete incomplete prepared = .ok prepared') :
    prepared'.Read source := by
  obtain ⟨_, _, hrun⟩ := Loop.bind_eq_ok.mp hrun
  obtain ⟨⟨L₁, failed⟩, hlocal, hrun⟩ := Loop.bind_eq_ok.mp hrun
  obtain ⟨⟨R₁, deferred⟩, hremote, hrun⟩ := Loop.bind_eq_ok.mp hrun
  cases hrun
  have hmine : ({ prepared with L := L₁ } : Prepared).Read source :=
    ⟨h.mine.populate (Loop.mapError_eq_ok.mp hlocal), h.theirs⟩
  have hmine := hmine.withholdLocal failed
  have htheirs : ({ failed.foldl Prepared.withholdLocal { prepared with L := L₁ } with
      R := R₁ } : Prepared).Read source :=
    ⟨hmine.mine, hmine.theirs.digests (Loop.mapError_eq_ok.mp hremote)⟩
  exact htheirs.withholdRemote deferred

theorem Prepared.Read.populateForced (h : prepared.Read source)
    (hrun : populateForced source rules incomplete prepared = .ok prepared') :
    prepared'.Read source := by
  obtain ⟨_, _, hrun⟩ := Loop.bind_eq_ok.mp hrun
  obtain ⟨⟨R₁, deferred⟩, hremote, hrun⟩ := Loop.bind_eq_ok.mp hrun
  cases hrun
  have htheirs : ({ prepared with R := R₁ } : Prepared).Read source :=
    ⟨h.mine, h.theirs.fingerprints (Loop.mapError_eq_ok.mp hremote)⟩
  exact htheirs.withholdRemote deferred

theorem read_of_populatePlanDigests (hrun : populatePlanDigests source rules mode serverCopy delete
    incomplete L R = .ok prepared) (hmine : ∀ x ∈ L.entries.values, x.contentMd5 = none)
    (htheirs : ∀ e ∈ R.entries.values, e.contentMd5 = none) : prepared.Read source := by
  have hstart : Prepared.Read source
      ⟨withholdByListing L R rules (delete && mode.requiresDeletionDigest) incomplete, R,
        if (delete && mode.requiresDeletionDigest) = true then
          (deletionsWithheldByListing L R rules incomplete).map fun relative =>
            ⟨relative, .listingIncomplete, listingIncompleteDetail⟩
        else []⟩ :=
    ⟨(localRead_of_undigested hmine).withholdByListing _, remoteRead_of_undigested htheirs⟩
  simp only [populatePlanDigests] at hrun
  split at hrun
  · exact hstart.populateContent hrun
  · split at hrun
    · exact hstart.populateForced hrun
    · cases hrun
      exact hstart
  · cases hrun
    exact hstart
  · cases hrun
    exact hstart

end Populate

end DriveSync
