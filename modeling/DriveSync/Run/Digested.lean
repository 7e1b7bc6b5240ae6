import DriveSync.Run.Tagged

/-!
# DriveSync.Run.Digested

What taking digests does to the two inventories: nothing but that. An entry keeps all it has besides
its digest, and a path that is taken out of the run is named among the skips.

* `EntryMap.Alike`: two maps that agree in what is kept of their entries.
* `DigestPass.After`: a pass over the selected remote files, and what each is left with.
* `populatePlanDigests_ok`: the inventories a run plans from, against those it walked.
-/

namespace DriveSync

open Path

/-! ## Maps that agree in part -/

namespace EntryMap

variable {ε β : Type} {relative : ε → RelPath} {m m' m'' : EntryMap ε relative}

/-- The entries of two maps agree in what `f` keeps of them. -/
def Alike (f : ε → β) (m m' : EntryMap ε relative) : Prop :=
  ∀ k, (m.get? k).map f = (m'.get? k).map f

variable {f : ε → β}

theorem Alike.refl (m : EntryMap ε relative) : m.Alike f m := fun _ => rfl

theorem Alike.symm (h : m.Alike f m') : m'.Alike f m := fun k => (h k).symm

theorem Alike.trans (h : m.Alike f m') (h' : m'.Alike f m'') : m.Alike f m'' := fun k =>
  (h k).trans (h' k)

/-- An entry in the place of one it agrees with. -/
theorem Alike.insert (h : m.Alike f m') {e : ε}
    (he : (m'.get? (relative e)).map f = some (f e)) : (m.insert e).Alike f m' := by
  intro k
  have hroot : relative e ≠ .root := by
    obtain ⟨d, hd, _⟩ := Option.map_eq_some_iff.mp he
    exact relative_of_get? hd ▸ relative_ne_root (mem_values_of_get? hd)
  rw [get?_insert hroot]
  split
  · rename_i hk
    rw [← hk, he]
    rfl
  · exact h k

theorem Alike.of_get? (h : m.Alike f m') {k : RelPath} {e : ε} (hk : m.get? k = some e) :
    ∃ d, m'.get? k = some d ∧ f d = f e := by
  have hf := h k
  rw [hk, Option.map_some, eq_comm, Option.map_eq_some_iff] at hf
  exact hf

theorem Alike.none_iff (h : m.Alike f m') {k : RelPath} : m.get? k = none ↔ m'.get? k = none := by
  have hf := h k
  cases hm : m.get? k <;> cases hm' : m'.get? k <;> simp [hm, hm'] at hf ⊢

end EntryMap

/-- What is known of an entry without reading it. -/
def LocalEntry.undigested (entry : LocalEntry) : LocalEntry := { entry with contentMd5 := none }

def RemoteEntry.undigested (entry : RemoteEntry) : RemoteEntry := { entry with contentMd5 := none }

/-! ## A pass over the remote files -/

section Passes

variable {source : DigestSource} {R R' : RemoteInventory} {good : Option ContentFingerprint → Prop}

variable (R good) in
/-- A pass after the files of `done`: each has a digest that is good enough, or is deferred. -/
structure DigestPass.After (done : List RelPath) (pass : DigestPass) : Prop where
  alike : pass.entries.Alike RemoteEntry.undigested R.entries
  settled : ∀ p ∈ done, (∃ e, pass.entries.get? p = some e ∧ good e.contentMd5) ∨
    ∃ error, (p, error) ∈ pass.deferred
  frame : ∀ k, k ∉ done → pass.entries.get? k = R.entries.get? k

theorem after_start : DigestPass.After R good [] (.start R) :=
  ⟨.refl _, fun p hp => (by cases hp), fun _ _ => rfl⟩

theorem DigestPass.After.record {done : List RelPath} {pass pass' : DigestPass} {e : RemoteEntry}
    {answer : Except DigestError ContentFingerprint} (h : DigestPass.After R good done pass)
    (he : (R.entries.get? e.relative).map RemoteEntry.undigested = some e.undigested)
    (hgood : ∀ digest, answer = .ok digest → good (some digest))
    (hrun : pass.record (e, answer) = .ok pass') : DigestPass.After R good (done ++ [e.relative]) pass' := by
  obtain ⟨breaker, _, hrun⟩ := Loop.bind_eq_ok.mp hrun
  have hroot : e.relative ≠ .root := by
    obtain ⟨d, hd, _⟩ := Option.map_eq_some_iff.mp he
    exact EntryMap.relative_of_get? hd ▸ EntryMap.relative_ne_root (EntryMap.mem_values_of_get? hd)
  cases answer with
  | ok digest =>
    have hpass : pass' = { pass with
        entries := pass.entries.insert { e with contentMd5 := some digest }
        breaker } := (Except.ok.inj hrun).symm
    subst hpass
    have hinsert : ∀ k, (pass.entries.insert { e with contentMd5 := some digest }).get? k =
        if e.relative = k then some { e with contentMd5 := some digest }
        else pass.entries.get? k :=
      EntryMap.get?_insert (e := { e with contentMd5 := some digest }) hroot
    refine ⟨h.alike.insert he, fun p hp => ?_, fun k hk => ?_⟩
    · simp only [hinsert]
      by_cases hpe : e.relative = p
      · rw [if_pos hpe]
        exact .inl ⟨_, rfl, hgood digest rfl⟩
      · rw [if_neg hpe]
        refine h.settled p ?_
        simpa [Ne.symm hpe] using hp
    · simp only [hinsert]
      rw [if_neg fun heq => hk (by simp [heq])]
      exact h.frame k fun hk' => hk (List.mem_append_left _ hk')
  | error error =>
    obtain rfl := Except.ok.inj hrun
    refine ⟨h.alike, fun p hp => ?_, fun k hk => ?_⟩
    · rcases List.mem_append.mp hp with hp | hp
      · rcases h.settled p hp with hp | ⟨error', hp⟩
        · exact .inl hp
        · exact .inr ⟨error', List.mem_append_left _ hp⟩
      · rw [List.mem_singleton.mp hp]
        exact .inr ⟨error, by simp⟩
    · exact h.frame k fun hk' => hk (List.mem_append_left _ hk')

theorem selectedFile_eq_ok {pass : DigestPass} {p : RelPath} {e : RemoteEntry}
    (h : pass.selectedFile p = .ok e) : pass.entries.get? p = some e ∧ e.relative = p := by
  simp only [DigestPass.selectedFile] at h
  split at h
  · cases h
  · rename_i d hd
    split at h
    · obtain rfl := Except.ok.inj h
      exact ⟨hd, EntryMap.relative_of_get? hd⟩
    · cases h

/-- What is judged is an answer about the same file. -/
theorem judgeDigest_eq_ok {e : RemoteEntry} {answer : Except DigestError ContentFingerprint}
    {judged : RemoteEntry × Except DigestError ContentFingerprint}
    (h : judgeDigest source e answer = .ok judged) :
    judged.1 = e ∧ ∀ digest, judged.2 = .ok digest → answer = .ok digest := by
  cases answer with
  | ok digest =>
    obtain rfl := Except.ok.inj h
    exact ⟨rfl, fun _ hd => hd⟩
  | error error =>
    simp only [judgeDigest] at h
    split at h
    · cases h
    · obtain rfl := Except.ok.inj h
      exact ⟨rfl, fun _ hd => by cases hd⟩

theorem after_fingerprintOne {done : List RelPath} {pass pass' : DigestPass} {p : RelPath}
    (hgood : ∀ digest : FullFingerprint, good (some digest.1)) (h : DigestPass.After R good done pass)
    (hrun : fingerprintOne source pass p = .ok pass') : DigestPass.After R good (done ++ [p]) pass' := by
  obtain ⟨e, hsel, hread⟩ := Loop.bind_eq_ok.mp hrun
  obtain ⟨judged, hjudged, hrecord⟩ := Loop.bind_eq_ok.mp hread
  obtain ⟨hget, hrel⟩ := selectedFile_eq_ok hsel
  obtain ⟨rfl, hdigest⟩ := judgeDigest_eq_ok hjudged
  rw [← hrel]
  refine h.record ?_ (fun digest hd => ?_) hrecord
  · rw [hrel, ← h.alike p, hget]
    rfl
  · have hanswer := hdigest digest hd
    cases hfull : source.fingerprint judged.1.remotePath judged.1.size with
    | error error => rw [hfull] at hanswer; cases hanswer
    | ok full =>
      rw [hfull] at hanswer
      obtain rfl := Except.ok.inj hanswer
      exact hgood full

theorem fingerprints_ok (good : Option ContentFingerprint → Prop)
    {selected : Std.TreeSet RelPath} {deferred : List (RelPath × DigestError)}
    (hgood : ∀ digest : FullFingerprint, good (some digest.1))
    (h : populateRemoteContentFingerprintsDeferring source R selected = .ok (R', deferred)) :
    ∃ pass, DigestPass.After R good selected.toList pass ∧ R' = { R with entries := pass.entries } ∧
      deferred = pass.deferred := by
  obtain ⟨_, _, h⟩ := Loop.bind_eq_ok.mp h
  obtain ⟨pass, hpass, h⟩ := Loop.bind_eq_ok.mp h
  cases h
  exact ⟨pass, Loop.foldlM_done _ after_start
    (fun done p rest s s' _ hs hstep => after_fingerprintOne hgood hs hstep) hpass, rfl, rfl⟩

theorem flatten_batches {α : Type} {n : Nat} (hn : 0 < n) (l : List α) :
    (batches n l).flatten = l := by
  have htake : ∀ k, ((List.range k).map fun i => (l.drop (n * i)).take n).flatten =
      l.take (n * k) := by
    intro k
    induction k with
    | zero => simp
    | succ k ih =>
      rw [List.range_succ, List.map_append, List.flatten_append, ih]
      simp [Nat.mul_succ, List.take_add]
  rw [batches, htake, List.take_of_length_le]
  have := Nat.div_add_mod (l.length + (n - 1)) n
  have := Nat.mod_lt (l.length + (n - 1)) hn
  omega

theorem after_md5Batch {done batch : List RelPath} {pass pass' : DigestPass}
    (hgood : ∀ digest, good (some digest)) (h : DigestPass.After R good done pass)
    (hrun : md5Batch source pass batch = .ok pass') : DigestPass.After R good (done ++ batch) pass' := by
  obtain ⟨files, hfiles, hrun⟩ := Loop.bind_eq_ok.mp hrun
  obtain ⟨answers, hanswers, hrun⟩ := Loop.bind_eq_ok.mp hrun
  have hfound : ∀ e ∈ files, (R.entries.get? e.relative).map RemoteEntry.undigested =
      some e.undigested := by
    intro e he
    obtain ⟨p, _, hp⟩ := Loop.mem_of_mapM hfiles e he
    obtain ⟨hget, hrel⟩ := selectedFile_eq_ok hp
    rw [hrel, ← h.alike p, hget]
    rfl
  have hread : ∀ answer ∈ answers, answer.1 ∈ files := by
    intro answer hanswer
    obtain ⟨e, he, hjudged⟩ := Loop.mem_of_mapM hanswers answer hanswer
    exact (judgeDigest_eq_ok hjudged).1 ▸ he
  have hbatch : answers.map (·.1.relative) = batch := by
    have hjudged : answers.map (·.1) = files.map id :=
      Loop.map_of_mapM (fun e _ judged hj => (judgeDigest_eq_ok hj).1) hanswers
    have hselected : files.map (·.relative) = batch.map id :=
      Loop.map_of_mapM (fun p _ e he => (selectedFile_eq_ok he).2) hfiles
    rw [List.map_id] at hjudged hselected
    rw [← hselected, ← hjudged, List.map_map]
    rfl
  rw [← hbatch]
  refine Loop.foldlM_done (I := fun asked s => DigestPass.After R good (done ++ asked.map (·.1.relative)) s)
    answers (by simpa using h) ?_ hrun
  intro asked answer rest s s' hsplit hs hstep
  have hmem : answer ∈ answers := by rw [hsplit]; simp
  rw [List.map_append, ← List.append_assoc]
  exact hs.record (hfound _ (hread answer hmem)) (fun digest _ => hgood digest) hstep

theorem md5With_ok (good : Option ContentFingerprint → Prop) {selected : List RelPath} {deferred : List (RelPath × DigestError)}
    (hgood : ∀ digest, good (some digest))
    (h : populateRemoteContentMd5With source R selected = .ok (R', deferred)) :
    ∃ pass, DigestPass.After R good selected pass ∧ R' = { R with entries := pass.entries } ∧
      deferred = pass.deferred := by
  obtain ⟨_, _, h⟩ := Loop.bind_eq_ok.mp h
  obtain ⟨pass, hpass, h⟩ := Loop.bind_eq_ok.mp h
  cases h
  refine ⟨pass, ?_, rfl, rfl⟩
  have hall : DigestPass.After R good (batches remoteMd5Batch selected).flatten pass :=
    Loop.foldlM_done (I := fun done s => DigestPass.After R good done.flatten s) _ after_start
      (fun done batch rest s s' _ hs hstep => by simpa using after_md5Batch hgood hs hstep) hpass
  rwa [flatten_batches (by decide)] at hall

end Passes

/-! ## What becomes of the local inventory -/

/-- `L'` is `L` with digests filled in, and with the paths that were taken out of it named. -/
structure LocalInventory.Reduced (L L' : LocalInventory) : Prop where
  kept : ∀ k e, L'.entries.get? k = some e →
    ∃ d, L.entries.get? k = some d ∧ d.undigested = e.undigested
  gone : ∀ k d, L.entries.get? k = some d → L'.entries.get? k = none →
    ∃ skip ∈ L'.skipped, AtOrUnder skip.relative k
  skipped : ∀ skip ∈ L.skipped, skip ∈ L'.skipped

namespace LocalInventory

variable {L L' L'' : LocalInventory}

theorem Reduced.refl (L : LocalInventory) : L.Reduced L :=
  ⟨fun _ e h => ⟨e, h, rfl⟩, fun _ _ h hgone => absurd (hgone ▸ h) nofun, fun _ h => h⟩

theorem Reduced.trans (h : L.Reduced L') (h' : L'.Reduced L'') : L.Reduced L'' where
  kept k e hk := by
    obtain ⟨d, hd, hde⟩ := h'.kept k e hk
    obtain ⟨c, hc, hcd⟩ := h.kept k d hd
    exact ⟨c, hc, hcd.trans hde⟩
  gone k d hk hgone := by
    cases hmid : L'.entries.get? k with
    | none =>
      obtain ⟨skip, hskip, hat⟩ := h.gone k d hk hmid
      exact ⟨skip, h'.skipped skip hskip, hat⟩
    | some e => exact h'.gone k e hmid hgone
  skipped skip hskip := h'.skipped skip (h.skipped skip hskip)

theorem reduced_withhold (L : LocalInventory) (relative : RelPath) (reason : SkipReason) :
    L.Reduced (L.withhold relative reason) where
  kept k e hk := by
    rw [get?_withhold] at hk
    split at hk
    · cases hk
    · exact ⟨e, hk, rfl⟩
  gone k d hk hgone := by
    rw [get?_withhold] at hgone
    split at hgone
    · exact ⟨⟨relative, reason⟩, mem_skipped_withhold.mpr (.inl rfl), ‹_›⟩
    · rw [hk] at hgone
      cases hgone
  skipped _ hskip := mem_skipped_withhold.mpr (.inr hskip)

theorem reduced_of_alike {entries : LocalMap}
    (h : entries.Alike LocalEntry.undigested L.entries) : L.Reduced { L with entries } where
  kept _ _ hk := h.of_get? hk
  gone k d hk hgone := by
    rw [h.none_iff.mp hgone] at hk
    cases hk
  skipped _ hskip := hskip

theorem mem_values_of_reduced (h : L.Reduced L') {x : LocalEntry} (hx : x ∈ L'.entries.values) :
    ∃ d ∈ L.entries.values, d.undigested = x.undigested := by
  obtain ⟨d, hd, hdx⟩ := h.kept x.relative x (EntryMap.mem_values.mp hx)
  exact ⟨d, EntryMap.mem_values_of_get? hd, hdx⟩

end LocalInventory

section Populate

variable [Unicode] {source : DigestSource} {L : LocalInventory} {R : RemoteInventory}
  {rules : IgnoreRules} {mode : CompareMode} {serverCopy delete guarded : Bool}
  {incomplete : List RelPath} {prepared prepared' : Prepared}

theorem reduced_withholdByListing :
    L.Reduced (withholdByListing L R rules guarded incomplete) := by
  simp only [withholdByListing]
  split
  · refine List.foldlRecOn _ _ (LocalInventory.Reduced.refl L) fun L' h relative _ => ?_
    exact h.trans (L'.reduced_withhold relative _)
  · exact .refl L

omit [Unicode] in
/-- Only a file that has no digest yet is read, and only its digest changes. -/
theorem hashOne_alike {comparison : Std.TreeSet RelPath} {pass pass' : HashPass} {x : LocalEntry}
    (hx : x ∈ L.entries.values) (h : pass.entries.Alike LocalEntry.undigested L.entries)
    (hrun : hashOne source comparison pass x = .ok pass') :
    pass'.entries.Alike LocalEntry.undigested L.entries := by
  have hget : (L.entries.get? x.relative).map LocalEntry.undigested = some x.undigested := by
    rw [EntryMap.mem_values.mp hx]
    rfl
  unfold hashOne at hrun
  split at hrun
  · cases hrun
    exact h
  · dsimp only at hrun
    split at hrun
    · cases hrun
      exact h.insert hget
    · cases hrun
    · cases hrun
      exact h

/-- What has been prepared of two inventories. -/
structure Prepared.Of (L : LocalInventory) (R : RemoteInventory) (prepared : Prepared) : Prop where
  reduced : L.Reduced prepared.L
  rootExists : prepared.R.rootExists = R.rootExists
  alike : prepared.R.entries.Alike RemoteEntry.undigested R.entries
  tagged : (∀ skip ∈ L.skipped, skip.Tagged) → ∀ skip ∈ prepared.L.skipped, skip.Tagged

omit [Unicode] in
theorem Prepared.Of.withhold (h : prepared.Of L R) (relative : RelPath) (reason : DeferReason)
    (detail : String) : (prepared.withhold relative reason detail).Of L R where
  reduced := h.reduced.trans (prepared.L.reduced_withhold relative _)
  rootExists := h.rootExists
  alike := h.alike
  tagged hsource skip hskip := by
    rcases LocalInventory.mem_skipped_withhold.mp hskip with rfl | hskip
    · exact .of_deferred reason rfl
    · exact h.tagged hsource skip hskip

omit [Unicode] in
theorem Prepared.Of.withholdLocal (h : prepared.Of L R) (failed : List (RelPath × ExecError)) :
    (failed.foldl Prepared.withholdLocal prepared).Of L R :=
  List.foldlRecOn _ _ h fun _ h _ _ => h.withhold _ _ _

omit [Unicode] in
theorem Prepared.Of.withholdRemote (h : prepared.Of L R) (failed : List (RelPath × DigestError)) :
    (failed.foldl Prepared.withholdRemote prepared).Of L R :=
  List.foldlRecOn _ _ h fun _ h _ _ => h.withhold _ _ _

omit [Unicode] in
theorem populateLocal_reduced {comparison : Std.TreeSet RelPath} {L' : LocalInventory}
    {failed : List (RelPath × ExecError)}
    (h : populateContentMd5SelectiveDeferring source L comparison = .ok (L', failed)) :
    L.Reduced L' ∧ L'.skipped = L.skipped := by
  obtain ⟨pass, hpass, h⟩ := Loop.bind_eq_ok.mp h
  cases h
  refine ⟨LocalInventory.reduced_of_alike ?_, rfl⟩
  exact Loop.foldlM_done (I := fun _ (s : HashPass) => s.entries.Alike LocalEntry.undigested L.entries)
    _ (.refl _) (fun done x rest s s' hsplit hs hstep =>
      hashOne_alike (by rw [hsplit]; simp) hs hstep) hpass

omit [Unicode] in
theorem fingerprints_alike {selected : Std.TreeSet RelPath} {R' : RemoteInventory}
    {deferred : List (RelPath × DigestError)}
    (h : populateRemoteContentFingerprintsDeferring source R selected = .ok (R', deferred)) :
    R'.rootExists = R.rootExists ∧ R'.entries.Alike RemoteEntry.undigested R.entries := by
  obtain ⟨pass, hpass, rfl, _⟩ := fingerprints_ok (fun _ => True) (fun _ => trivial) h
  exact ⟨rfl, hpass.alike⟩

omit [Unicode] in
theorem populateRemote_alike {comparison strong : Std.TreeSet RelPath} {R' : RemoteInventory}
    {deferred : List (RelPath × DigestError)}
    (h : populateRemoteContentDigestsDeferring source R comparison strong = .ok (R', deferred)) :
    R'.rootExists = R.rootExists ∧ R'.entries.Alike RemoteEntry.undigested R.entries := by
  obtain ⟨⟨R₁, first⟩, hfirst, h⟩ := Loop.bind_eq_ok.mp h
  obtain ⟨⟨R₂, second⟩, hsecond, h⟩ := Loop.bind_eq_ok.mp h
  cases h
  obtain ⟨hroot, halike⟩ := fingerprints_alike hfirst
  obtain ⟨pass, hpass, rfl, _⟩ := md5With_ok (fun _ => True) (fun _ => trivial) hsecond
  exact ⟨hroot, hpass.alike.trans halike⟩

theorem populateContent_of (h : prepared.Of L R)
    (hrun : populateContent source rules serverCopy delete incomplete prepared = .ok prepared') :
    prepared'.Of L R := by
  obtain ⟨_, _, hrun⟩ := Loop.bind_eq_ok.mp hrun
  obtain ⟨⟨L₁, failed⟩, hlocal, hrun⟩ := Loop.bind_eq_ok.mp hrun
  obtain ⟨⟨R₁, deferred⟩, hremote, hrun⟩ := Loop.bind_eq_ok.mp hrun
  cases hrun
  obtain ⟨hreduced, hskipped⟩ := populateLocal_reduced (Loop.mapError_eq_ok.mp hlocal)
  have hL : ({ prepared with L := L₁ } : Prepared).Of L R :=
    ⟨h.reduced.trans hreduced, h.rootExists, h.alike, hskipped ▸ h.tagged⟩
  have hL := hL.withholdLocal failed
  obtain ⟨hroot, halike⟩ := populateRemote_alike (Loop.mapError_eq_ok.mp hremote)
  have hR : ({ failed.foldl Prepared.withholdLocal { prepared with L := L₁ } with
      R := R₁ } : Prepared).Of L R :=
    ⟨hL.reduced, hroot.trans hL.rootExists, halike.trans hL.alike, hL.tagged⟩
  exact hR.withholdRemote deferred

theorem populateForced_of (h : prepared.Of L R)
    (hrun : populateForced source rules incomplete prepared = .ok prepared') :
    prepared'.Of L R := by
  obtain ⟨_, _, hrun⟩ := Loop.bind_eq_ok.mp hrun
  obtain ⟨⟨R₁, deferred⟩, hremote, hrun⟩ := Loop.bind_eq_ok.mp hrun
  cases hrun
  obtain ⟨hroot, halike⟩ := fingerprints_alike (Loop.mapError_eq_ok.mp hremote)
  have hR : ({ prepared with R := R₁ } : Prepared).Of L R :=
    ⟨h.reduced, hroot.trans h.rootExists, halike.trans h.alike, h.tagged⟩
  exact hR.withholdRemote deferred

theorem populatePlanDigests_of (hrun : populatePlanDigests source rules mode serverCopy delete
    incomplete L R = .ok prepared) : prepared.Of L R := by
  have hstart : Prepared.Of L R
      ⟨withholdByListing L R rules (delete && mode.requiresDeletionDigest) incomplete, R,
        if (delete && mode.requiresDeletionDigest) = true then
          (deletionsWithheldByListing L R rules incomplete).map fun relative =>
            ⟨relative, .listingIncomplete, listingIncompleteDetail⟩
        else []⟩ := by
    refine ⟨reduced_withholdByListing, rfl, .refl _, fun hsource skip hskip => ?_⟩
    rcases mem_skipped_withholdByListing.mp hskip with hskip | ⟨_, p, _, rfl⟩
    · exact hsource skip hskip
    · exact .of_deferred .listingIncomplete rfl
  simp only [populatePlanDigests] at hrun
  split at hrun
  · exact populateContent_of hstart hrun
  · split at hrun
    · exact populateForced_of hstart hrun
    · cases hrun
      exact hstart
  · cases hrun
    exact hstart
  · cases hrun
    exact hstart

end Populate

end DriveSync
