import Mathlib.Data.List.Pairwise
import DriveSync.Batch.Run

/-!
# DriveSync.Batch.Profiles

A run of one profile is refused where its destination overlaps that of another profile on the same
NAS, and one of the two deletes.

* `BatchJob.parse`: a job from the texts of its settings.
* `refuseOverlappingProfiles_eq_ok`: which runs are let through.
* `validateProfileOverlaps_lets`: a valid configuration lets its profiles run.
* `refuseOverlappingProfiles_spares`: what a run that is let through leaves alone.
-/

namespace DriveSync

open Path

/-! ## A job from its settings -/

/-- An address, as it was read. -/
structure Url where
  scheme : String
  host : Option String
  username : String
  password : Option String
  query : Option String
  fragment : Option String
  text : String

inductive JobError where
  | invalidJobName (jobName reason : String)
  | invalidUsername (jobName reason : String)
  | invalidEndpoint (jobName reason : String)
  | invalidRemote (jobName : String) (remote : List Char) (error : UnsafePath)

/-- The checks of a name that a batch compares. -/
def validateIdentity (fails : String → JobError) (value blank control : String) :
    Except JobError Unit :=
  if value = "" || decide (trim value.toList ≠ value.toList) then .error (fails blank)
  else if value.toList.any isControl then .error (fails control)
  else .ok ()

def validateJobName (name : String) : Except JobError Unit :=
  validateIdentity (.invalidJobName name) name
    "the name must be non-empty and have no surrounding whitespace"
    "control characters are not allowed"

def validateUsername (jobName username : String) : Except JobError Unit :=
  validateIdentity (.invalidUsername jobName) username
    "the username must be non-empty and have no surrounding whitespace"
    "control characters are not allowed"

def normalizeEndpoint (jobName : String) (endpoint : Url) : Except JobError String :=
  if decide (endpoint.scheme ≠ "http") && decide (endpoint.scheme ≠ "https") then
    .error (.invalidEndpoint jobName "the endpoint scheme must be HTTP or HTTPS")
  else if endpoint.host.isNone then
    .error (.invalidEndpoint jobName "the endpoint must have a host")
  else if decide (endpoint.username ≠ "") || endpoint.password.isSome then
    .error (.invalidEndpoint jobName "the endpoint must not contain credentials")
  else if endpoint.query.isSome || endpoint.fragment.isSome then
    .error (.invalidEndpoint jobName "the endpoint must not contain a query string or fragment")
  else if endpoint.text.toList.getLast? = some '/' then .ok endpoint.text
  else .ok (endpoint.text ++ "/")

namespace BatchJob

def new (name : String) (endpoint : Url) (username : String) (remote : RemoteRoot) (delete : Bool)
    (maxDelete : Nat) : Except JobError BatchJob := do
  validateJobName name
  validateUsername name username
  let endpoint ← normalizeEndpoint name endpoint
  return ⟨name, endpoint, username, remote, delete, maxDelete⟩

def parse (parseUrl : List Char → Option Url) (name endpoint username : String)
    (remote : List Char) (delete : Bool) (maxDelete : Nat) : Except JobError BatchJob := do
  validateJobName name
  match parseUrl (trim endpoint.toList) with
  | none => .error (.invalidEndpoint name "the endpoint is not a valid URL")
  | some endpoint =>
    let root ← (RemoteRoot.parse remote).mapError (.invalidRemote name remote)
    new name endpoint username root delete maxDelete

theorem fields_of_new {name username : String} {endpoint : Url} {remote : RemoteRoot}
    {delete : Bool} {maxDelete : Nat} {job : BatchJob}
    (h : new name endpoint username remote delete maxDelete = .ok job) :
    job.name = name ∧ job.remote = remote := by
  obtain ⟨_, _, h⟩ := Loop.bind_eq_ok.mp h
  obtain ⟨_, _, h⟩ := Loop.bind_eq_ok.mp h
  obtain ⟨_, _, h⟩ := Loop.bind_eq_ok.mp h
  obtain rfl := Except.ok.inj h
  exact ⟨rfl, rfl⟩

theorem fields_of_parse {parseUrl : List Char → Option Url} {name endpoint username : String}
    {remote : List Char} {delete : Bool} {maxDelete : Nat} {job : BatchJob}
    (h : parse parseUrl name endpoint username remote delete maxDelete = .ok job) :
    job.name = name ∧ RemoteRoot.parse remote = .ok job.remote := by
  obtain ⟨_, _, h⟩ := Loop.bind_eq_ok.mp h
  split at h
  · cases h
  · obtain ⟨root, hroot, h⟩ := Loop.bind_eq_ok.mp h
    obtain ⟨hname, hremote⟩ := fields_of_new h
    rw [hremote]
    exact ⟨hname, Loop.mapError_eq_ok.mp hroot⟩

/-- What a job may delete takes no part in what its texts are read as. -/
theorem parse_settings {parseUrl : List Char → Option Url} {name endpoint username : String}
    {remote : List Char} {delete delete' : Bool} {maxDelete maxDelete' : Nat} {job : BatchJob}
    (h : parse parseUrl name endpoint username remote delete maxDelete = .ok job) :
    parse parseUrl name endpoint username remote delete' maxDelete' =
      .ok { job with delete := delete', maxDelete := maxDelete' } := by
  obtain ⟨_, hname, h⟩ := Loop.bind_eq_ok.mp h
  refine Loop.bind_eq_ok.mpr ⟨_, hname, ?_⟩
  split at h
  · cases h
  · obtain ⟨root, hroot, h⟩ := Loop.bind_eq_ok.mp h
    refine Loop.bind_eq_ok.mpr ⟨root, hroot, ?_⟩
    obtain ⟨_, hvalid, h⟩ := Loop.bind_eq_ok.mp h
    obtain ⟨_, huser, h⟩ := Loop.bind_eq_ok.mp h
    obtain ⟨_, hend, h⟩ := Loop.bind_eq_ok.mp h
    obtain rfl := Except.ok.inj h
    exact Loop.bind_eq_ok.mpr ⟨_, hvalid, Loop.bind_eq_ok.mpr ⟨_, huser,
      Loop.bind_eq_ok.mpr ⟨_, hend, rfl⟩⟩⟩

end BatchJob

/-! ## The overlap of two profiles -/

/-- A profile of the configuration, as its destination is compared. -/
structure Profile where
  name : String
  remote : Option (List Char)
  url : Option String
  delete : Option Bool
  maxDelete : Option Nat

/-- The account takes no part in the comparison. -/
def overlapCheckAccount : String := "overlap-check"

structure ProfileDestination where
  job : BatchJob
  deletes : Bool

inductive ProfileOverlap where
  | refused (this that deleting : String) (overlap : BatchError)
  | named (this that : String) (overlap : BatchError)

inductive ProfileError where
  | overlapping (this that deleting : String) (overlap : BatchError)
  | configuration (error : BatchError)
  | job (error : JobError)

namespace ProfileDestination

/-- A profile that names no destination has none to compare. -/
def ofProfile (parseUrl : List Char → Option Url) (profile : Profile) (fallbackUrl : String) :
    Except JobError (Option ProfileDestination) :=
  match profile.remote with
  | none => .ok none
  | some remote =>
    let deletes := decide (profile.delete = some true)
    (BatchJob.parse parseUrl profile.name (profile.url.getD fallbackUrl) overlapCheckAccount remote
      deletes (profile.maxDelete.getD 0)).map fun job => some ⟨job, deletes⟩

def overlap (this that : ProfileDestination) : Except ProfileError (Option ProfileOverlap) :=
  match ValidatedBatch.new [this.job, that.job] with
  | .ok _ => .ok none
  | .error (.overlappingRemoteRoots endpoint firstJob firstRemote secondJob secondRemote) =>
    let overlap := .overlappingRemoteRoots endpoint firstJob firstRemote secondJob secondRemote
    let (name, other) := (this.job.name, that.job.name)
    match this.deletes, that.deletes with
    | false, false => .ok (some (.named name other overlap))
    | true, true => .ok (some (.refused name other "both delete" overlap))
    | true, false => .ok (some (.refused name other (name.quote ++ " deletes") overlap))
    | false, true => .ok (some (.refused name other (other.quote ++ " deletes") overlap))
  | .error error => .error (.configuration error)

end ProfileDestination

section Refuse

variable (parseUrl : List Char → Option Url)

/-- One other profile. One that cannot be compared cannot run either. -/
def judgeProfile (this : ProfileDestination) (url : String) (profile : Profile) :
    Except ProfileError Unit :=
  if profile.name = this.job.name then .ok ()
  else
    match ProfileDestination.ofProfile parseUrl profile url with
    | .error _ => .ok ()
    | .ok none => .ok ()
    | .ok (some other) =>
      match this.overlap other with
      | .error error => .error error
      | .ok (some (.refused name that deleting overlap)) =>
        .error (.overlapping name that deleting overlap)
      | .ok _ => .ok ()

/-- The settings of a run of one profile, as its destination is compared. -/
structure RunDestination where
  name : String
  url : String
  remote : List Char
  delete : Bool
  maxDelete : Nat
  /-- Whether the profile is configured to delete, whatever this run was asked. -/
  configuredDelete : Bool

def RunDestination.destination (run : RunDestination) : Except JobError ProfileDestination :=
  (BatchJob.parse parseUrl run.name run.url overlapCheckAccount run.remote run.delete
    run.maxDelete).map fun job => ⟨job, run.delete || run.configuredDelete⟩

def refuseOverlappingProfiles (profiles : Option (List Profile)) (run : RunDestination) :
    Except ProfileError Unit :=
  match profiles with
  | none => .ok ()
  | some profiles =>
    match run.destination parseUrl with
    | .error _ => .ok ()
    | .ok this => profiles.forM (judgeProfile parseUrl this run.url)

/-- Stands for the address that the environment gives to every profile that names none. -/
def unnamedEndpoint : String := "https://endpoint-from-the-environment.invalid"

def destinationsOf : List Profile → Except ProfileError (List (Bool × ProfileDestination))
  | [] => .ok []
  | profile :: profiles => do
    let found ← (ProfileDestination.ofProfile parseUrl profile unnamedEndpoint).mapError .job
    let more ← destinationsOf profiles
    return (found.map fun destination => (profile.url.isSome, destination)).toList ++ more

def judgePair (only : Option String) (left right : Bool × ProfileDestination) :
    Except ProfileError (List ProfileOverlap) :=
  if left.1 ≠ right.1 then .ok []
  else if only.any fun only =>
      decide (only ≠ left.2.job.name) && decide (only ≠ right.2.job.name) then .ok []
  else
    match left.2.overlap right.2 with
    | .error error => .error error
    | .ok (some (.refused name that deleting overlap)) =>
      .error (.overlapping name that deleting overlap)
    | .ok overlap => .ok overlap.toList

def judgePairs (only : Option String) :
    List (Bool × ProfileDestination) → Except ProfileError (List ProfileOverlap)
  | [] => .ok []
  | left :: rest => do
    let warnings ← rest.mapM (judgePair only left)
    let more ← judgePairs only rest
    return warnings.flatten ++ more

/-- The overlaps of a whole configuration, or those of one of its profiles. -/
def validateProfileOverlaps (profiles : List Profile) (only : Option String) :
    Except ProfileError (List ProfileOverlap) := do
  let destinations ← destinationsOf parseUrl profiles
  judgePairs only destinations

end Refuse

/-! ## Which runs are let through -/

section Refused

variable {parseUrl : List Char → Option Url}

theorem forM_eq_ok {α ε : Type} {f : α → Except ε Unit} {l : List α} :
    l.forM f = .ok () ↔ ∀ a ∈ l, f a = .ok () := by
  induction l with
  | nil => exact iff_of_true rfl (by simp)
  | cons a l ih =>
    show (f a >>= fun _ => l.forM f) = _ ↔ _
    rw [List.forall_mem_cons, Loop.bind_eq_ok, ← ih]
    constructor
    · rintro ⟨_, hfirst, hrest⟩
      exact ⟨hfirst, hrest⟩
    · rintro ⟨hfirst, hrest⟩
      exact ⟨(), hfirst, hrest⟩

/-- Two jobs of different names make a batch, or it is refused for their overlap. -/
theorem new_pair {left right : BatchJob} (hname : left.name ≠ right.name) :
    left.Apart right ∧ (∃ batch, ValidatedBatch.new [left, right] = .ok batch) ∨
      ¬left.Apart right ∧ ∃ endpoint firstJob firstRemote secondJob secondRemote,
        ValidatedBatch.new [left, right] = .error
          (.overlappingRemoteRoots endpoint firstJob firstRemote secondJob secondRemote) := by
  have hdistinct : ([left, right].map (·.name)).Nodup := by simp [hname]
  have hrepeated := (repeated?_sortJobs [left, right]).mpr hdistinct
  have hapart : overlap? (sortJobs [left, right]) = none ↔ left.Apart right := by
    rw [overlap?_eq_none, (perm_sortJobs [left, right]).pairwise_iff BatchJob.Apart.symm]
    simp
  cases hoverlap : overlap? (sortJobs [left, right]) with
  | none =>
    obtain ⟨batch, hnew, _⟩ := ValidatedBatch.new_of_clear (by simp) hrepeated hoverlap
    exact .inl ⟨hapart.mp hoverlap, batch, hnew⟩
  | some pair =>
    have hnew := ValidatedBatch.new_of_overlap (by simp) hrepeated hoverlap
    refine .inr ⟨fun h => ?_, _, _, _, _, _, hnew⟩
    rw [hapart.mpr h] at hoverlap
    cases hoverlap

theorem fields_of_ofProfile {profile : Profile} {url : String} {other : ProfileDestination}
    (h : ProfileDestination.ofProfile parseUrl profile url = .ok (some other)) :
    other.job.name = profile.name ∧ other.deletes = decide (profile.delete = some true) := by
  simp only [ProfileDestination.ofProfile] at h
  split at h
  · cases h
  · rename_i remote hremote
    cases hparse : BatchJob.parse parseUrl profile.name (profile.url.getD url) overlapCheckAccount
        remote (decide (profile.delete = some true)) (profile.maxDelete.getD 0) with
    | error error =>
      rw [hparse] at h
      cases h
    | ok job =>
      rw [hparse] at h
      obtain rfl := Option.some.inj (Except.ok.inj h)
      exact ⟨(BatchJob.fields_of_parse hparse).1, rfl⟩

theorem parse_of_destination {run : RunDestination} {this : ProfileDestination}
    (h : run.destination parseUrl = .ok this) :
    BatchJob.parse parseUrl run.name run.url overlapCheckAccount run.remote run.delete
        run.maxDelete = .ok this.job ∧
      this.deletes = (run.delete || run.configuredDelete) := by
  rw [RunDestination.destination] at h
  cases hparse : BatchJob.parse parseUrl run.name run.url overlapCheckAccount run.remote run.delete
      run.maxDelete with
  | error error =>
    rw [hparse] at h
    cases h
  | ok job =>
    rw [hparse] at h
    obtain rfl := Except.ok.inj h
    exact ⟨rfl, rfl⟩

theorem fields_of_destination {run : RunDestination} {this : ProfileDestination}
    (h : run.destination parseUrl = .ok this) : this.job.name = run.name ∧
      RemoteRoot.parse run.remote = .ok this.job.remote :=
  BatchJob.fields_of_parse (parse_of_destination h).1

theorem judgeProfile_eq_ok {this : ProfileDestination} {url : String} {profile : Profile} :
    judgeProfile parseUrl this url profile = .ok () ↔ (profile.name ≠ this.job.name →
      ∀ other, ProfileDestination.ofProfile parseUrl profile url = .ok (some other) →
        (this.deletes || other.deletes) = true → this.job.Apart other.job) := by
  rw [judgeProfile]
  by_cases hname : profile.name = this.job.name
  · simp [hname]
  · rw [if_neg hname]
    cases hof : ProfileDestination.ofProfile parseUrl profile url with
    | error error => simp
    | ok found =>
      cases found with
      | none => simp
      | some other =>
        have hother : this.job.name ≠ other.job.name := by
          rw [(fields_of_ofProfile hof).1]
          exact fun heq => hname heq.symm
        simp only [hname, ne_eq, not_false_eq_true, forall_const, Except.ok.injEq,
          Option.some.injEq, forall_eq']
        rcases new_pair hother with ⟨hapart, batch, hnew⟩ | ⟨hclash, _, _, _, _, _, hnew⟩
        · simp [ProfileDestination.overlap, hnew, hapart]
        · simp only [ProfileDestination.overlap, hnew, hclash]
          cases this.deletes <;> cases other.deletes <;> simp

theorem apart_of_refuse {profiles : List Profile} {run : RunDestination}
    {this other : ProfileDestination} {profile : Profile}
    (h : refuseOverlappingProfiles parseUrl (some profiles) run = .ok ())
    (hthis : run.destination parseUrl = .ok this) (hprofile : profile ∈ profiles)
    (hname : profile.name ≠ run.name)
    (hother : ProfileDestination.ofProfile parseUrl profile run.url = .ok (some other))
    (hdeletes : (this.deletes || other.deletes) = true) : this.job.Apart other.job := by
  simp only [refuseOverlappingProfiles, hthis, forM_eq_ok, judgeProfile_eq_ok] at h
  rw [← (fields_of_destination hthis).1] at hname
  exact h profile hprofile hname other hother hdeletes

/-- Which runs are let through: those whose destination cannot be compared, and those that overlap
no other profile's destination on their NAS, or only destinations where neither of the two
deletes. -/
theorem refuseOverlappingProfiles_eq_ok (parseUrl : List Char → Option Url)
    (profiles : List Profile) (run : RunDestination) :
    refuseOverlappingProfiles parseUrl (some profiles) run = .ok () ↔
      ∀ this, run.destination parseUrl = .ok this → ∀ profile ∈ profiles, profile.name ≠ run.name →
        ∀ other, ProfileDestination.ofProfile parseUrl profile run.url = .ok (some other) →
          (this.deletes || other.deletes) = true → this.job.Apart other.job := by
  constructor
  · intro h this hthis profile hprofile hname other hother hdeletes
    exact apart_of_refuse h hthis hprofile hname hother hdeletes
  · intro h
    cases hthis : run.destination parseUrl with
    | error error => simp [refuseOverlappingProfiles, hthis]
    | ok this =>
      simp only [refuseOverlappingProfiles, hthis, forM_eq_ok, judgeProfile_eq_ok]
      intro profile hprofile hname other hother hdeletes
      rw [(fields_of_destination hthis).1] at hname
      exact h this hthis profile hprofile hname other hother hdeletes

end Refused

/-! ## Which configurations are valid -/

section Valid

variable {parseUrl : List Char → Option Url} {only : Option String}

theorem exists_mapM {α β ε : Type} {f : α → Except ε β} {l : List α} :
    (∃ l', l.mapM f = .ok l') ↔ ∀ a ∈ l, ∃ b, f a = .ok b := by
  induction l with
  | nil => exact iff_of_true ⟨[], rfl⟩ (by simp)
  | cons a l ih =>
    rw [List.forall_mem_cons, ← ih]
    simp only [List.mapM_cons, Loop.bind_eq_ok]
    constructor
    · rintro ⟨_, b, hb, l', hl', _⟩
      exact ⟨⟨b, hb⟩, l', hl'⟩
    · rintro ⟨⟨b, hb⟩, l', hl'⟩
      exact ⟨b :: l', b, hb, l', hl', rfl⟩

/-- Two destinations may stand in one configuration. -/
def Compatible (only : Option String) (left right : Bool × ProfileDestination) : Prop :=
  left.1 = right.1 → (∀ name ∈ only, name = left.2.job.name ∨ name = right.2.job.name) →
    (left.2.deletes || right.2.deletes) = true → left.2.job.Apart right.2.job

theorem Compatible.symm {left right : Bool × ProfileDestination}
    (h : Compatible only left right) : Compatible only right left := by
  intro hnamed honly hdeletes
  refine (h hnamed.symm (fun name hname => (honly name hname).symm) ?_).symm
  rw [Bool.or_comm]
  exact hdeletes

theorem exists_judgePair {left right : Bool × ProfileDestination}
    (hname : left.2.job.name ≠ right.2.job.name) :
    (∃ warnings, judgePair only left right = .ok warnings) ↔ Compatible only left right := by
  rw [judgePair]
  by_cases hnamed : left.1 = right.1
  · rw [if_neg (not_not_intro hnamed)]
    by_cases honly : ∀ name ∈ only, name = left.2.job.name ∨ name = right.2.job.name
    · rw [if_neg (by simpa [Option.any_eq_true, Classical.or_iff_not_imp_left] using honly)]
      have hcompatible : Compatible only left right ↔
          ((left.2.deletes || right.2.deletes) = true → left.2.job.Apart right.2.job) :=
        ⟨fun h => h hnamed honly, fun h _ _ => h⟩
      rw [hcompatible]
      rcases new_pair hname with ⟨hapart, batch, hnew⟩ | ⟨hclash, _, _, _, _, _, hnew⟩
      · simp [ProfileDestination.overlap, hnew, hapart]
      · simp only [ProfileDestination.overlap, hnew, hclash]
        cases left.2.deletes <;> cases right.2.deletes <;> simp
    · rw [if_pos (by simpa [Option.any_eq_true, not_or] using honly)]
      exact iff_of_true ⟨[], rfl⟩ fun _ hall => absurd hall honly
  · rw [if_pos hnamed]
    exact iff_of_true ⟨[], rfl⟩ fun hsame => absurd hsame hnamed

theorem exists_judgePairs {destinations : List (Bool × ProfileDestination)}
    (hdistinct : (destinations.map (·.2.job.name)).Nodup) :
    (∃ warnings, judgePairs only destinations = .ok warnings) ↔
      destinations.Pairwise (Compatible only) := by
  induction destinations with
  | nil => exact iff_of_true ⟨[], rfl⟩ .nil
  | cons left rest ih =>
    rw [List.map_cons, List.nodup_cons] at hdistinct
    have hpairs : ∀ right ∈ rest,
        (∃ warnings, judgePair only left right = .ok warnings) ↔ Compatible only left right := by
      intro right hright
      refine exists_judgePair fun heq => hdistinct.1 ?_
      rw [heq]
      exact List.mem_map_of_mem (f := (·.2.job.name)) hright
    rw [List.pairwise_cons, ← ih hdistinct.2]
    simp only [judgePairs, Loop.bind_eq_ok]
    constructor
    · rintro ⟨_, warnings, hwarnings, more, hmore, _⟩
      have hall := exists_mapM.mp ⟨_, hwarnings⟩
      exact ⟨fun right hright => (hpairs right hright).mp (hall right hright), more, hmore⟩
    · rintro ⟨hall, more, hmore⟩
      obtain ⟨warnings, hwarnings⟩ := exists_mapM.mpr fun right hright =>
        (hpairs right hright).mpr (hall right hright)
      exact ⟨_, warnings, hwarnings, more, hmore, rfl⟩

/-- The destination of a profile in a configuration. -/
def destination? (parseUrl : List Char → Option Url) (profile : Profile) :
    Option (Bool × ProfileDestination) :=
  match ProfileDestination.ofProfile parseUrl profile unnamedEndpoint with
  | .ok (some destination) => some (profile.url.isSome, destination)
  | _ => none

/-- The destinations of a configuration are those of its profiles, in their order. -/
theorem destinationsOf_eq_ok {profiles : List Profile}
    {destinations : List (Bool × ProfileDestination)} :
    destinationsOf parseUrl profiles = .ok destinations ↔
      (∀ profile ∈ profiles, ∃ found,
        ProfileDestination.ofProfile parseUrl profile unnamedEndpoint = .ok found) ∧
      destinations = profiles.filterMap (destination? parseUrl) := by
  induction profiles generalizing destinations with
  | nil =>
    rw [destinationsOf]
    constructor
    · intro h
      exact ⟨by simp, (Except.ok.inj h).symm⟩
    · rintro ⟨-, rfl⟩
      rfl
  | cons profile profiles ih =>
    rw [destinationsOf, Loop.bind_eq_ok, List.forall_mem_cons]
    simp only [Loop.mapError_eq_ok, Loop.bind_eq_ok, ih]
    cases hfound : ProfileDestination.ofProfile parseUrl profile unnamedEndpoint with
    | error error => simp
    | ok found =>
      have hcons : (profile :: profiles).filterMap (destination? parseUrl) =
          (found.map fun destination => (profile.url.isSome, destination)).toList ++
            profiles.filterMap (destination? parseUrl) := by
        rw [List.filterMap_cons, destination?, hfound]
        cases found <;> rfl
      rw [hcons]
      constructor
      · rintro ⟨_, hsame, _, ⟨hall, rfl⟩, h⟩
        obtain rfl := Except.ok.inj hsame
        exact ⟨⟨⟨_, rfl⟩, hall⟩, (Except.ok.inj h).symm⟩
      · rintro ⟨⟨_, hall⟩, rfl⟩
        exact ⟨found, rfl, _, ⟨hall, rfl⟩, rfl⟩

theorem destination?_eq_some {profile : Profile} {destination : Bool × ProfileDestination} :
    destination? parseUrl profile = some destination ↔ destination.1 = profile.url.isSome ∧
      ProfileDestination.ofProfile parseUrl profile unnamedEndpoint = .ok (some destination.2) := by
  rw [destination?]
  obtain ⟨named, found⟩ := destination
  split
  · rename_i other hother
    simp [hother, eq_comm]
  · rename_i hnone
    simp only [reduceCtorEq, false_iff, not_and]
    exact fun _ hfound => hnone found hfound

/-- Two profiles may stand in one configuration, where they have a destination. -/
def MayStand (parseUrl : List Char → Option Url) (only : Option String) (left right : Profile) :
    Prop :=
  ∀ d ∈ destination? parseUrl left, ∀ e ∈ destination? parseUrl right, Compatible only d e

instance : Std.Symm (MayStand parseUrl only) := ⟨fun _ _ h e he d hd => (h d hd e he).symm⟩

/-- Which configurations are valid. -/
theorem exists_validateProfileOverlaps {profiles : List Profile}
    (hdistinct : (profiles.map (·.name)).Nodup) :
    (∃ warnings, validateProfileOverlaps parseUrl profiles only = .ok warnings) ↔
      (∀ profile ∈ profiles, ∃ found,
        ProfileDestination.ofProfile parseUrl profile unnamedEndpoint = .ok found) ∧
      profiles.Pairwise (MayStand parseUrl only) := by
  have hname : ∀ {profile d}, destination? parseUrl profile = some d →
      d.2.job.name = profile.name := by
    intro profile d hd
    exact (fields_of_ofProfile (destination?_eq_some.mp hd).2).1
  have hnames : ((profiles.filterMap (destination? parseUrl)).map (·.2.job.name)).Nodup := by
    rw [List.Nodup, List.pairwise_map, List.pairwise_filterMap]
    refine (List.pairwise_map.mp hdistinct).imp fun hne d hd e he => ?_
    rw [hname hd, hname he]
    exact hne
  simp only [validateProfileOverlaps, Loop.bind_eq_ok, destinationsOf_eq_ok]
  constructor
  · rintro ⟨warnings, _, ⟨hall, rfl⟩, hpairs⟩
    exact ⟨hall, List.pairwise_filterMap.mp ((exists_judgePairs hnames).mp ⟨warnings, hpairs⟩)⟩
  · rintro ⟨hall, hpairs⟩
    obtain ⟨warnings, hwarnings⟩ :=
      (exists_judgePairs hnames).mpr (List.pairwise_filterMap.mpr hpairs)
    exact ⟨warnings, _, ⟨hall, rfl⟩, hwarnings⟩

theorem ofProfile_of_named {profile : Profile} (h : profile.url.isSome = true)
    (url url' : String) : ProfileDestination.ofProfile parseUrl profile url =
      ProfileDestination.ofProfile parseUrl profile url' := by
  obtain ⟨named, hnamed⟩ := Option.isSome_iff_exists.mp h
  simp only [ProfileDestination.ofProfile, hnamed, Option.getD_some]

end Valid

/-! ## A NAS with two profiles -/

namespace SharedNas

open Small

/-- A NAS with a second profile, whose destination is a folder beside that of the first. -/
def otherRoot : RemoteRoot := ⟨path [name 's', name 'u'], by decide⟩

def address : Url := ⟨"https", some "nas", "", none, none, none, "https://nas:5001/"⟩

def readUrl (_ : List Char) : Option Url := some address

def dest : RunDestination := ⟨"docs", "https://nas:5001/", root.asStr, true, 10, true⟩

def music : Profile := ⟨"music", some otherRoot.asStr, none, none, none⟩

def docs : ProfileDestination :=
  ⟨⟨"docs", "https://nas:5001/", overlapCheckAccount, root, true, 10⟩, true⟩

def other : ProfileDestination :=
  ⟨⟨"music", "https://nas:5001/", overlapCheckAccount, otherRoot, false, 0⟩, false⟩

theorem parse_root : RemoteRoot.parse root.asStr = .ok root :=
  RemoteRoot.parse_eq_ok.mpr ⟨rfl, rfl, rfl, rfl⟩

theorem parse_other : RemoteRoot.parse otherRoot.asStr = .ok otherRoot :=
  RemoteRoot.parse_eq_ok.mpr ⟨rfl, rfl, rfl, rfl⟩

theorem destination_dest : dest.destination readUrl = .ok docs := by
  simp only [RunDestination.destination, BatchJob.parse, dest, parse_root]
  rfl

theorem ofProfile_music :
    ProfileDestination.ofProfile readUrl music dest.url = .ok (some other) := by
  simp only [ProfileDestination.ofProfile, BatchJob.parse, music, parse_other]
  rfl

theorem let_dest : refuseOverlappingProfiles readUrl (some [music]) dest = .ok () := by
  simp only [refuseOverlappingProfiles, destination_dest, forM_eq_ok, judgeProfile_eq_ok]
  intro profile hprofile _ found hfound _
  obtain rfl := List.mem_singleton.mp hprofile
  rw [ofProfile_music] at hfound
  obtain rfl := Option.some.inj (Except.ok.inj hfound)
  exact fun _ => by decide

def ownProfile : Profile :=
  ⟨"docs", some root.asStr, some "https://nas:5001/", some true, some 10⟩

def namedMusic : Profile := ⟨"music", some otherRoot.asStr, some "https://nas:5001/", none, none⟩

theorem ofProfile_own :
    ProfileDestination.ofProfile readUrl ownProfile unnamedEndpoint = .ok (some docs) := by
  simp only [ProfileDestination.ofProfile, BatchJob.parse, ownProfile, parse_root]
  rfl

theorem ofProfile_named :
    ProfileDestination.ofProfile readUrl namedMusic unnamedEndpoint = .ok (some other) := by
  simp only [ProfileDestination.ofProfile, BatchJob.parse, namedMusic, parse_other]
  rfl

theorem exists_valid : ∃ warnings,
    validateProfileOverlaps readUrl [ownProfile, namedMusic] (some "docs") = .ok warnings := by
  refine (exists_validateProfileOverlaps (by decide)).mpr ⟨?_, List.pairwise_pair.mpr ?_⟩
  · simp [ofProfile_own, ofProfile_named]
  · intro d hd e he
    obtain ⟨_, hown⟩ := destination?_eq_some.mp hd
    obtain ⟨_, hother⟩ := destination?_eq_some.mp he
    rw [ofProfile_own] at hown
    rw [ofProfile_named] at hother
    intro _ _ _
    rw [← Option.some.inj (Except.ok.inj hown), ← Option.some.inj (Except.ok.inj hother)]
    exact fun _ => by decide

end SharedNas

/-! ## The two checks -/

/-- A configuration that is valid, for one of its profiles or for them all, lets a run of that
profile through that deletes only where the profile is configured to, so long as each profile names
the address of its NAS. -/
theorem validateProfileOverlaps_lets {parseUrl : List Char → Option Url} {profiles : List Profile}
    {only : Option String} {warnings : List ProfileOverlap} {profile : Profile}
    {run : RunDestination} (hdistinct : (profiles.map (·.name)).Nodup)
    (hvalid : validateProfileOverlaps parseUrl profiles only = .ok warnings)
    (honly : ∀ name ∈ only, name = profile.name) (hprofile : profile ∈ profiles)
    (hnamed : ∀ profile ∈ profiles, profile.url.isSome = true) (hname : run.name = profile.name)
    (hurl : profile.url = some run.url) (hremote : profile.remote = some run.remote)
    (hdelete : (run.delete || run.configuredDelete) = true → profile.delete = some true) :
    refuseOverlappingProfiles parseUrl (some profiles) run = .ok () := by
  obtain ⟨_, hpairs⟩ := (exists_validateProfileOverlaps hdistinct).mp ⟨warnings, hvalid⟩
  simp only [refuseOverlappingProfiles]
  cases hthis : run.destination parseUrl with
  | error error => rfl
  | ok this =>
    simp only [forM_eq_ok, judgeProfile_eq_ok]
    intro other hother hne found hfound hdeletes
    obtain ⟨hparse, hthisDeletes⟩ := parse_of_destination hthis
    obtain ⟨hthisName, _⟩ := fields_of_destination hthis
    have hdifferent : profile ≠ other := by
      rintro rfl
      exact hne (hname.symm.trans hthisName.symm)
    let configured : ProfileDestination :=
      ⟨{ this.job with
          delete := decide (profile.delete = some true)
          maxDelete := profile.maxDelete.getD 0 }, decide (profile.delete = some true)⟩
    have hown : destination? parseUrl profile = some (true, configured) := by
      refine destination?_eq_some.mpr ⟨by rw [hurl]; rfl, ?_⟩
      simp only [ProfileDestination.ofProfile, hremote, hurl, Option.getD_some]
      rw [← hname, BatchJob.parse_settings hparse]
      rfl
    have hfound' : destination? parseUrl other = some (true, found) := by
      have hotherNamed := hnamed other hother
      refine destination?_eq_some.mpr ⟨hotherNamed.symm, ?_⟩
      rw [ofProfile_of_named hotherNamed unnamedEndpoint run.url]
      exact hfound
    have hcompatible := hpairs.forall hprofile hother hdifferent _ hown _ hfound'
    refine hcompatible rfl (fun name hin => .inl ?_) ?_
    · rw [honly name hin, ← hname, ← hthisName]
    · rw [hthisDeletes] at hdeletes
      rcases Bool.or_eq_true_iff.mp hdeletes with hdeletes | hdeletes
      · simp [configured, hdelete hdeletes]
      · rw [hdeletes, Bool.or_true]

namespace SharedNas

theorem lets_own :
    refuseOverlappingProfiles readUrl (some [ownProfile, namedMusic]) dest = .ok () := by
  obtain ⟨warnings, hvalid⟩ := exists_valid
  exact validateProfileOverlaps_lets (by decide) hvalid (by simp [ownProfile]) (.head _) (by decide)
    rfl rfl rfl fun _ => rfl

end SharedNas

/-! ## What a run leaves alone -/

/-- A run that is let through, where it or the other profile deletes, changes nothing in the
destination of another profile on its NAS, and nothing that holds it. -/
theorem refuseOverlappingProfiles_spares [Unicode] {parseUrl : List Char → Option Url}
    {profiles : List Profile} {dest : RunDestination} {this other : ProfileDestination}
    {profile : Profile} {settings : ResolvedSync} {job : JobSite} {planOnly : Bool}
    {guard : SyncPlan → Except RunError Unit} {run : JobRun}
    (hlet : refuseOverlappingProfiles parseUrl (some profiles) dest = .ok ())
    (hthis : dest.destination parseUrl = .ok this) (hprofile : profile ∈ profiles)
    (hname : profile.name ≠ dest.name)
    (hother : ProfileDestination.ofProfile parseUrl profile dest.url = .ok (some other))
    (hdeletes : (this.deletes || other.deletes) = true)
    (hendpoint : this.job.endpoint = other.job.endpoint)
    (hroot : RemoteRoot.parse dest.remote = .ok settings.root)
    (hrun : runSyncJob settings job planOnly guard = some run) :
    ∀ m ∈ run.changes, ∀ q, ¬AtOrUnder m.place (other.job.remote.path.append q) ∧
      ¬AtOrUnder (other.job.remote.path.append q) m.place := by
  have hclear := apart_of_refuse hlet hthis hprofile hname hother hdeletes
  have hsame : this.job.remote = settings.root := by
    have hparsed := (fields_of_destination hthis).2
    rw [hroot] at hparsed
    exact (Except.ok.inj hparsed).symm
  intro m hm q
  rcases changes_of_runSyncJob hrun with hnone | ⟨_, plan, _, _, _, hof, _⟩
  · rw [hnone] at hm
    cases hm
  · obtain ⟨p, hplace⟩ := hof.below m hm
    rw [hplace, ← hsame]
    exact ⟨not_atOrUnder_of_apart (hclear hendpoint),
      not_atOrUnder_of_apart (hclear.symm hendpoint.symm)⟩

namespace SharedNas

theorem spares_music : letI := charwise
    ∃ run : JobRun, runSyncJob ClearedFolder.settings ClearedFolder.job false (fun _ => .ok ()) =
        some run ∧ ∀ m ∈ run.changes, ∀ q, ¬AtOrUnder m.place (otherRoot.path.append q) ∧
          ¬AtOrUnder (otherRoot.path.append q) m.place := by
  let _ := charwise
  obtain ⟨run, _, hrun, _⟩ := ClearedFolder.exists_run
  have hroot : RemoteRoot.parse dest.remote = .ok ClearedFolder.settings.root := parse_root
  exact ⟨run, hrun, refuseOverlappingProfiles_spares let_dest destination_dest (.head _) (by decide)
    ofProfile_music rfl rfl hroot hrun⟩

end SharedNas

end DriveSync
