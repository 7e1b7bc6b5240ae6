import Mathlib.Algebra.BigOperators.Group.List.Basic
import Mathlib.Algebra.GroupWithZero.Nat
import Mathlib.Algebra.Order.BigOperators.Group.List
import Mathlib.Data.List.Sort
import Mathlib.Data.Prod.Lex
import Mathlib.Data.String.Basic
import DriveSync.Lib.Loop
import DriveSync.Lib.Sorted
import DriveSync.Batch.Root

/-!
# DriveSync.Batch.Jobs

The jobs of a batch: which of them may run together, and how much they may delete together.

* `ValidatedBatch`: jobs in the order of their names, no two of which write to one place.
* `ValidatedBatch.new_eq_ok`: which jobs make a batch.
* `ValidatedBatch.preflightDeletions_eq_ok`: which plans a batch is let through with.
-/

namespace DriveSync

/-- A job as the batch compares it, with the normalised address of its NAS. -/
structure BatchJob where
  name : String
  endpoint : String
  username : String
  remote : RemoteRoot
  delete : Bool
  maxDelete : Nat
deriving DecidableEq, Repr

inductive BatchError where
  | emptyBatch
  | duplicateJobName (jobName : String)
  | overlappingRemoteRoots (endpoint firstJob : String) (firstRemote : RemoteRoot)
      (secondJob : String) (secondRemote : RemoteRoot)
  | duplicateDeletionPlan (jobName : String)
  | unknownDeletionPlan (jobName : String)
  | missingDeletionPlan (jobName : String)
  | deletionDisabled (jobName : String) (planned : Nat)
  | jobDeletionLimit (jobName : String) (planned maximum : Nat)
  | aggregateDeletionLimit (planned maximum : Nat)
  | deletionCountOverflow
deriving DecidableEq, Repr

/-- What a job may delete. -/
def BatchJob.limit (job : BatchJob) : Nat := if job.delete then job.maxDelete else 0

def rootsOverlap (left right : RemoteRoot) : Bool :=
  decide (left = right) || left.containsChild right.path || right.containsChild left.path

def BatchJob.key (job : BatchJob) : String ×ₗ String ×ₗ List Char ×ₗ String :=
  toLex (job.name, toLex (job.endpoint, toLex (job.remote.asStr, job.username)))

def sortJobs (jobs : List BatchJob) : List BatchJob :=
  jobs.mergeSort fun left right => decide (left.key ≤ right.key)

/-- The first value that stands next to itself. -/
def repeated? : List String → Option String
  | a :: b :: rest => if a = b then some a else repeated? (b :: rest)
  | _ => none

theorem repeated?_eq_none {l : List String} (h : l.Pairwise (· ≤ ·)) :
    repeated? l = none ↔ l.Nodup := by
  induction l with
  | nil => simp [repeated?]
  | cons a l ih =>
    obtain ⟨ha, hl⟩ := List.pairwise_cons.mp h
    cases l with
    | nil => simp [repeated?]
    | cons b rest =>
      by_cases hab : a = b
      · subst hab
        simp [repeated?]
      · rw [repeated?, if_neg hab, ih hl, List.nodup_cons]
        have hnot : a ∉ b :: rest := by
          intro hmem
          have hba : b ≤ a := by
            rcases List.mem_cons.mp hmem with heq | hmem
            · exact absurd heq hab
            · exact (List.pairwise_cons.mp hl).1 a hmem
          exact hab (le_antisymm (ha b (.head _)) hba)
        simp [hnot]

theorem pairwise_sortJobs (jobs : List BatchJob) :
    ((sortJobs jobs).map (·.name)).Pairwise (· ≤ ·) := by
  have hsorted : (sortJobs jobs).Pairwise fun a b => decide (a.key ≤ b.key) = true :=
    List.pairwise_mergeSort
      (fun a b c hab hbc => by simp only [decide_eq_true_eq] at *; exact le_trans hab hbc)
      (fun a b => by simpa using le_total a.key b.key) jobs
  rw [List.pairwise_map]
  refine hsorted.imp fun {a b} h => ?_
  have hkey := of_decide_eq_true h
  rcases Prod.Lex.toLex_le_toLex.mp hkey with hlt | ⟨heq, _⟩
  · exact le_of_lt hlt
  · exact le_of_eq heq

theorem perm_sortJobs (jobs : List BatchJob) : (sortJobs jobs).Perm jobs :=
  List.mergeSort_perm jobs _

theorem sortJobs_eq_nil {jobs : List BatchJob} : sortJobs jobs = [] ↔ jobs = [] := by
  rw [← List.length_eq_zero_iff, ← List.length_eq_zero_iff, (perm_sortJobs jobs).length_eq]

theorem repeated?_sortJobs (jobs : List BatchJob) :
    repeated? ((sortJobs jobs).map (·.name)) = none ↔ (jobs.map (·.name)).Nodup := by
  rw [repeated?_eq_none (pairwise_sortJobs jobs)]
  exact ((perm_sortJobs jobs).map _).nodup_iff

/-! ## A batch -/

/-- Two jobs that write to different places. -/
def BatchJob.Apart (left right : BatchJob) : Prop :=
  left.endpoint = right.endpoint → rootsOverlap left.remote right.remote = false

theorem BatchJob.Apart.symm {left right : BatchJob} (h : left.Apart right) : right.Apart left := by
  intro heq
  have hclear := h heq.symm
  simp only [rootsOverlap, Bool.or_eq_false_iff, decide_eq_false_iff_not] at hclear ⊢
  exact ⟨⟨fun hsame => hclear.1.1 hsame.symm, hclear.2⟩, hclear.1.2⟩

/-- The first pair of jobs that write to one place. -/
def overlap? : List BatchJob → Option (BatchJob × BatchJob)
  | [] => none
  | left :: rest =>
    match rest.find? fun right =>
        decide (left.endpoint = right.endpoint) && rootsOverlap left.remote right.remote with
    | some right => some (left, right)
    | none => overlap? rest

theorem overlap?_eq_none {jobs : List BatchJob} :
    overlap? jobs = none ↔ jobs.Pairwise BatchJob.Apart := by
  induction jobs with
  | nil => simp [overlap?]
  | cons left rest ih =>
    rw [overlap?, List.pairwise_cons, ← ih]
    split
    · rename_i right hfound
      have hclash := List.find?_some hfound
      have hmem := List.mem_of_find?_eq_some hfound
      simp only [Bool.and_eq_true, decide_eq_true_eq] at hclash
      simp only [reduceCtorEq, false_iff, not_and]
      intro hall
      have hclear := hall right hmem hclash.1
      rw [hclash.2] at hclear
      cases hclear
    · rename_i hnone
      simp only [iff_and_self]
      intro _ right hright heq
      have hclear := List.find?_eq_none.mp hnone right hright
      simpa [heq] using hclear

structure ValidatedBatch where
  jobs : List BatchJob
  nonempty : jobs ≠ []
  distinct : (jobs.map (·.name)).Nodup
  apart : jobs.Pairwise BatchJob.Apart

namespace ValidatedBatch

/-- A catalog of jobs and the selection of all of it. Its jobs are sorted once, where the catalog and
the selection each sort them. -/
def new (jobs : List BatchJob) : Except BatchError ValidatedBatch :=
  if hempty : jobs = [] then .error .emptyBatch
  else
    match hrepeated : repeated? ((sortJobs jobs).map (·.name)) with
    | some name => .error (.duplicateJobName name)
    | none =>
      match hoverlap : overlap? (sortJobs jobs) with
      | some (left, right) =>
        .error (.overlappingRemoteRoots left.endpoint left.name left.remote right.name right.remote)
      | none => .ok
        { jobs := sortJobs jobs
          nonempty := fun h => hempty (sortJobs_eq_nil.mp h)
          distinct := (repeated?_eq_none (pairwise_sortJobs jobs)).mp hrepeated
          apart := overlap?_eq_none.mp hoverlap }

/-- The order jobs are given in makes no difference to their order in a batch. -/
theorem sortJobs_perm {jobs jobs' : List BatchJob} (h : jobs.Perm jobs')
    (hdistinct : (jobs.map (·.name)).Nodup) : sortJobs jobs = sortJobs jobs' := by
  have hperm : (sortJobs jobs).Perm (sortJobs jobs') :=
    (perm_sortJobs jobs).trans (h.trans (perm_sortJobs jobs').symm)
  exact Sorted.eq_of_perm_of_keys hperm (pairwise_sortJobs jobs) (pairwise_sortJobs jobs')
    (((perm_sortJobs jobs).map (·.name)).nodup_iff.mpr hdistinct)

theorem names_sortJobs_perm {jobs jobs' : List BatchJob} (h : jobs.Perm jobs') :
    (sortJobs jobs).map (·.name) = (sortJobs jobs').map (·.name) :=
  Sorted.keys_eq_of_perm ((perm_sortJobs jobs).trans (h.trans (perm_sortJobs jobs').symm))
    (pairwise_sortJobs jobs) (pairwise_sortJobs jobs')

theorem new_of_repeated {jobs : List BatchJob} {name : String} (hfull : jobs ≠ [])
    (h : repeated? ((sortJobs jobs).map (·.name)) = some name) :
    new jobs = .error (.duplicateJobName name) := by
  rw [new, dif_neg hfull]
  split
  · rename_i name' h'
    rw [h] at h'
    rw [Option.some.inj h']
  · rename_i h'
    rw [h] at h'
    cases h'

theorem new_of_overlap {jobs : List BatchJob} {left right : BatchJob} (hfull : jobs ≠ [])
    (hrepeated : repeated? ((sortJobs jobs).map (·.name)) = none)
    (h : overlap? (sortJobs jobs) = some (left, right)) :
    new jobs = .error (.overlappingRemoteRoots left.endpoint left.name left.remote right.name
      right.remote) := by
  rw [new, dif_neg hfull]
  split
  · rename_i name h'
    rw [hrepeated] at h'
    cases h'
  · split
    · rename_i left' right' h'
      rw [h] at h'
      cases h'
      rfl
    · rename_i h'
      rw [h] at h'
      cases h'

theorem new_of_clear {jobs : List BatchJob} (hfull : jobs ≠ [])
    (hrepeated : repeated? ((sortJobs jobs).map (·.name)) = none)
    (hoverlap : overlap? (sortJobs jobs) = none) :
    ∃ batch, new jobs = .ok batch ∧ batch.jobs = sortJobs jobs := by
  rw [new, dif_neg hfull]
  split
  · rename_i name h'
    rw [hrepeated] at h'
    cases h'
  · split
    · rename_i left right h'
      rw [hoverlap] at h'
      cases h'
    · exact ⟨_, rfl, rfl⟩

theorem eq_of_jobs {batch batch' : ValidatedBatch} (h : batch.jobs = batch'.jobs) :
    batch = batch' := by
  cases batch
  cases batch'
  congr

theorem new_ok_iff {jobs : List BatchJob} {batch : ValidatedBatch} : new jobs = .ok batch ↔
    jobs ≠ [] ∧ (jobs.map (·.name)).Nodup ∧ jobs.Pairwise BatchJob.Apart ∧
      batch.jobs = sortJobs jobs := by
  have hapart : (sortJobs jobs).Pairwise BatchJob.Apart ↔ jobs.Pairwise BatchJob.Apart :=
    (perm_sortJobs jobs).pairwise_iff BatchJob.Apart.symm
  rw [← repeated?_sortJobs, ← hapart, ← overlap?_eq_none]
  by_cases hnil : jobs = []
  · simp [new, hnil]
  · cases hrepeated : repeated? ((sortJobs jobs).map (·.name)) with
    | some name => simp [new_of_repeated hnil hrepeated]
    | none =>
      cases hoverlap : overlap? (sortJobs jobs) with
      | some pair => simp [new_of_overlap hnil hrepeated hoverlap]
      | none =>
        obtain ⟨batch', hnew, hjobs⟩ := new_of_clear hnil hrepeated hoverlap
        rw [hnew]
        constructor
        · intro h
          obtain rfl := Except.ok.inj h
          exact ⟨hnil, rfl, rfl, hjobs⟩
        · rintro ⟨-, -, -, hsame⟩
          rw [eq_of_jobs (hjobs.trans hsame.symm)]

theorem new_perm {jobs jobs' : List BatchJob} (h : jobs.Perm jobs') : new jobs = new jobs' := by
  by_cases hnil : jobs = []
  · subst hnil
    rw [List.nil_perm.mp h]
  · have hnil' : jobs' ≠ [] := by
      intro h'
      subst h'
      exact hnil (List.perm_nil.mp h)
    have hnames := names_sortJobs_perm h
    cases hrepeated : repeated? ((sortJobs jobs).map (·.name)) with
    | some name => rw [new_of_repeated hnil hrepeated, new_of_repeated hnil' (hnames ▸ hrepeated)]
    | none =>
      have hrepeated' := hnames ▸ hrepeated
      have hsorted := sortJobs_perm h ((repeated?_sortJobs jobs).mp hrepeated)
      cases hoverlap : overlap? (sortJobs jobs) with
      | some pair =>
        rw [new_of_overlap hnil hrepeated hoverlap,
          new_of_overlap hnil' hrepeated' (hsorted ▸ hoverlap)]
      | none =>
        obtain ⟨batch, hnew, hjobs⟩ := new_of_clear hnil hrepeated hoverlap
        obtain ⟨batch', hnew', hjobs'⟩ := new_of_clear hnil' hrepeated' (hsorted ▸ hoverlap)
        rw [hnew, hnew', eq_of_jobs (hjobs.trans (hsorted.trans hjobs'.symm))]

/-- Which jobs make a batch: some, of different names, no two of which write to one folder of one
NAS or to a folder in another's. The order in which they are given changes neither the batch, which
is in the order of their names, nor the error. -/
theorem new_eq_ok (jobs : List BatchJob) :
    (∀ batch, new jobs = .ok batch ↔ jobs ≠ [] ∧ (jobs.map (·.name)).Nodup ∧
      jobs.Pairwise BatchJob.Apart ∧ batch.jobs = sortJobs jobs) ∧
    ∀ jobs', jobs.Perm jobs' → new jobs = new jobs' :=
  ⟨fun _ => new_ok_iff, fun _ => new_perm⟩

end ValidatedBatch

/-! ## How much may be deleted -/

structure JobDeletionPreflight where
  jobName : String
  planned : Nat
  maximum : Nat
deriving DecidableEq, Repr

structure DeletionPreflight where
  perJob : List JobDeletionPreflight
  totalPlanned : Nat
  configuredLimit : Nat
  requestedAggregateLimit : Option Nat
  effectiveLimit : Nat
  remaining : Nat
deriving DecidableEq, Repr

/-- The largest count there is room for. -/
def maxCount : Nat := 18446744073709551615

def checkedAdd (total count : Nat) : Except BatchError Nat :=
  if total + count ≤ maxCount then .ok (total + count) else .error .deletionCountOverflow

def sortPlans (planned : List (String × Nat)) : List (String × Nat) :=
  planned.mergeSort fun left right => decide (left.1 ≤ right.1)

/-- One job against its own limit. -/
def judgeJob (planned : List (String × Nat)) (s : Nat × List JobDeletionPreflight) (job : BatchJob) :
    Except BatchError (Nat × List JobDeletionPreflight) :=
  match planned.lookup job.name with
  | none => .error (.missingDeletionPlan job.name)
  | some count =>
    if !job.delete && decide (count ≠ 0) then .error (.deletionDisabled job.name count)
    else if job.limit < count then .error (.jobDeletionLimit job.name count job.limit)
    else (checkedAdd s.1 count).map fun total =>
      (total, s.2 ++ [⟨job.name, count, job.limit⟩])

namespace ValidatedBatch

def configuredDeletionLimit (batch : ValidatedBatch) : Except BatchError Nat :=
  (batch.jobs.filter (·.delete)).foldlM (fun total job => checkedAdd total job.maxDelete) 0

def preflightDeletions (batch : ValidatedBatch) (planned : List (String × Nat))
    (aggregateLimit : Option Nat) : Except BatchError DeletionPreflight :=
  let planned := sortPlans planned
  match repeated? (planned.map (·.1)) with
  | some name => .error (.duplicateDeletionPlan name)
  | none =>
    match planned.find? fun plan => !(batch.jobs.map (·.name)).contains plan.1 with
    | some plan => .error (.unknownDeletionPlan plan.1)
    | none => do
      let configuredLimit ← batch.configuredDeletionLimit
      let (totalPlanned, perJob) ← batch.jobs.foldlM (judgeJob planned) (0, [])
      match aggregateLimit with
      | some maximum =>
        if maximum < totalPlanned then .error (.aggregateDeletionLimit totalPlanned maximum)
        else
          let effectiveLimit := min maximum configuredLimit
          .ok ⟨perJob, totalPlanned, configuredLimit, some maximum, effectiveLimit,
            effectiveLimit - totalPlanned⟩
      | none => .ok ⟨perJob, totalPlanned, configuredLimit, none, configuredLimit,
          configuredLimit - totalPlanned⟩

end ValidatedBatch

section Preflight

variable {planned : List (String × Nat)}

theorem checkedAdd_eq_ok {total count total' : Nat} : checkedAdd total count = .ok total' ↔
    total + count ≤ maxCount ∧ total' = total + count := by
  rw [checkedAdd]
  split
  · rename_i hroom
    simp [hroom, eq_comm]
  · rename_i hroom
    simp [hroom]

theorem foldlM_checkedAdd {count : BatchJob → Nat} {jobs : List BatchJob} {total total' : Nat}
    (hroom : total ≤ maxCount) :
    jobs.foldlM (fun total job => checkedAdd total (count job)) total = .ok total' ↔
      total' = total + (jobs.map count).sum ∧ total' ≤ maxCount := by
  induction jobs generalizing total with
  | nil =>
    simp only [List.foldlM_nil, List.map_nil, List.sum_nil, Nat.add_zero]
    constructor
    · intro h
      obtain rfl := Except.ok.inj h
      exact ⟨rfl, hroom⟩
    · rintro ⟨rfl, _⟩
      rfl
  | cons job jobs ih =>
    rw [List.foldlM_cons, Loop.bind_eq_ok, List.map_cons, List.sum_cons]
    constructor
    · rintro ⟨next, hnext, h⟩
      obtain ⟨hle, rfl⟩ := checkedAdd_eq_ok.mp hnext
      obtain ⟨htotal, hmax⟩ := (ih hle).mp h
      exact ⟨by omega, hmax⟩
    · rintro ⟨htotal, hmax⟩
      have hle : total + count job ≤ maxCount := by omega
      exact ⟨_, checkedAdd_eq_ok.mpr ⟨hle, rfl⟩, (ih hle).mpr ⟨by omega, hmax⟩⟩

/-- What a job plans to delete. -/
def plannedOf (planned : List (String × Nat)) (job : BatchJob) : Nat :=
  (planned.lookup job.name).getD 0

def preflightOf (planned : List (String × Nat)) (job : BatchJob) : JobDeletionPreflight :=
  ⟨job.name, plannedOf planned job, job.limit⟩

theorem judgeJob_eq_ok {job : BatchJob} {s s' : Nat × List JobDeletionPreflight} :
    judgeJob planned s job = .ok s' ↔
      (∃ count, planned.lookup job.name = some count ∧ count ≤ job.limit) ∧
        s.1 + plannedOf planned job ≤ maxCount ∧
        s' = (s.1 + plannedOf planned job, s.2 ++ [preflightOf planned job]) := by
  rw [judgeJob]
  cases hlookup : planned.lookup job.name with
  | none => simp
  | some count =>
    have hplanned : plannedOf planned job = count := by rw [plannedOf, hlookup, Option.getD_some]
    rw [preflightOf, hplanned]
    simp only [Option.some.injEq, exists_eq_left']
    by_cases hdisabled : (!job.delete && decide (count ≠ 0)) = true
    · have hover : ¬count ≤ job.limit := by
        simp only [Bool.and_eq_true, Bool.not_eq_true', decide_eq_true_eq] at hdisabled
        simp [BatchJob.limit, hdisabled.1, hdisabled.2]
      rw [if_pos hdisabled]
      simp [hover]
    · rw [if_neg hdisabled]
      by_cases hover : job.limit < count
      · rw [if_pos hover]
        simp [Nat.not_le_of_lt hover]
      · rw [if_neg hover, checkedAdd]
        by_cases hroom : s.1 + count ≤ maxCount
        · rw [if_pos hroom]
          simp [hroom, Nat.le_of_not_lt hover, Except.map, eq_comm]
        · rw [if_neg hroom]
          simp [hroom, Except.map]

theorem judgeJobs_eq_ok {jobs : List BatchJob} {s s' : Nat × List JobDeletionPreflight}
    (hroom : s.1 ≤ maxCount) : jobs.foldlM (judgeJob planned) s = .ok s' ↔
      (∀ job ∈ jobs, ∃ count, planned.lookup job.name = some count ∧ count ≤ job.limit) ∧
        s'.1 ≤ maxCount ∧
        s' = (s.1 + (jobs.map (plannedOf planned)).sum, s.2 ++ jobs.map (preflightOf planned)) := by
  induction jobs generalizing s with
  | nil =>
    simp only [List.foldlM_nil, List.map_nil, List.sum_nil, Nat.add_zero, List.append_nil]
    constructor
    · intro h
      obtain rfl := Except.ok.inj h
      exact ⟨by simp, hroom, rfl⟩
    · rintro ⟨-, -, rfl⟩
      rfl
  | cons job jobs ih =>
    rw [List.foldlM_cons, Loop.bind_eq_ok]
    constructor
    · rintro ⟨next, hnext, h⟩
      obtain ⟨hcount, hle, rfl⟩ := judgeJob_eq_ok.mp hnext
      obtain ⟨hall, hmax, rfl⟩ := (ih hle).mp h
      refine ⟨List.forall_mem_cons.mpr ⟨hcount, hall⟩, hmax, ?_⟩
      simp [Nat.add_assoc]
    · rintro ⟨hall, hmax, rfl⟩
      obtain ⟨hcount, hall⟩ := List.forall_mem_cons.mp hall
      simp only [List.map_cons, List.sum_cons] at hmax
      have hle : s.1 + plannedOf planned job ≤ maxCount := by omega
      refine ⟨_, judgeJob_eq_ok.mpr ⟨hcount, hle, rfl⟩, (ih hle).mpr ⟨hall, ?_, ?_⟩⟩
      · simp only [List.map_cons, List.sum_cons]
        omega
      · simp [Nat.add_assoc]

theorem sum_limits (jobs : List BatchJob) :
    ((jobs.filter (·.delete)).map (·.maxDelete)).sum = (jobs.map (·.limit)).sum := by
  induction jobs with
  | nil => rfl
  | cons job jobs ih =>
    cases hdelete : job.delete with
    | false => simp [hdelete, ih, BatchJob.limit]
    | true => simp [hdelete, ih, BatchJob.limit]

theorem lookup_eq_some {name : String} {count : Nat} (h : (planned.map (·.1)).Nodup) :
    planned.lookup name = some count ↔ (name, count) ∈ planned := by
  induction planned with
  | nil => simp
  | cons plan planned ih =>
    obtain ⟨hnew, hdistinct⟩ := List.nodup_cons.mp h
    obtain ⟨first, number⟩ := plan
    by_cases hname : name = first
    · subst hname
      have hnot : (name, count) ∉ planned := by
        intro hmem
        exact hnew (List.mem_map_of_mem (f := (·.1)) hmem)
      simp [hnot, eq_comm]
    · simp [List.lookup_cons, hname, beq_eq_false_iff_ne.mpr hname, ih hdistinct]

/-- Where each job has one number, those are the numbers. -/
theorem perm_planned {jobs : List BatchJob} (hdistinct : (jobs.map (·.name)).Nodup)
    (h : (planned.map (·.1)).Perm (jobs.map (·.name))) :
    planned.Perm (jobs.map fun job => (job.name, plannedOf planned job)) := by
  have hplanned : (planned.map (·.1)).Nodup := h.nodup_iff.mpr hdistinct
  have hjobs : ((jobs.map fun job => (job.name, plannedOf planned job)).map (·.1)).Nodup := by
    rw [List.map_map]
    exact hdistinct
  rw [List.perm_ext_iff_of_nodup hplanned.of_map hjobs.of_map]
  intro plan
  obtain ⟨name, count⟩ := plan
  simp only [List.mem_map, Prod.mk.injEq]
  constructor
  · intro hmem
    have hname : name ∈ jobs.map (·.name) := h.mem_iff.mp (List.mem_map_of_mem (f := (·.1)) hmem)
    obtain ⟨job, hjob, rfl⟩ := List.mem_map.mp hname
    refine ⟨job, hjob, rfl, ?_⟩
    rw [plannedOf, (lookup_eq_some hplanned).mpr hmem, Option.getD_some]
  · rintro ⟨job, hjob, rfl, rfl⟩
    have hname : job.name ∈ planned.map (·.1) := h.mem_iff.mpr (List.mem_map_of_mem hjob)
    obtain ⟨⟨name', count'⟩, hmem, heq⟩ := List.mem_map.mp hname
    have hlookup : planned.lookup name' = some count' := (lookup_eq_some hplanned).mpr hmem
    simp only at heq
    rw [heq] at hlookup hmem
    rw [plannedOf, hlookup]
    exact hmem

theorem lookup_perm {planned' : List (String × Nat)} (h : planned.Perm planned')
    (hdistinct : (planned'.map (·.1)).Nodup) (name : String) :
    planned.lookup name = planned'.lookup name := by
  apply Option.ext
  intro count
  have hdistinct' : (planned.map (·.1)).Nodup := (h.map _).nodup_iff.mpr hdistinct
  rw [lookup_eq_some hdistinct', lookup_eq_some hdistinct, h.mem_iff]

theorem perm_sortPlans (planned : List (String × Nat)) : (sortPlans planned).Perm planned :=
  List.mergeSort_perm planned _

theorem pairwise_sortPlans (planned : List (String × Nat)) :
    ((sortPlans planned).map (·.1)).Pairwise (· ≤ ·) := by
  have hsorted : (sortPlans planned).Pairwise fun a b => decide (a.1 ≤ b.1) = true :=
    List.pairwise_mergeSort
      (fun a b c hab hbc => by simp only [decide_eq_true_eq] at *; exact le_trans hab hbc)
      (fun a b => by simpa using le_total a.1 b.1) planned
  exact List.pairwise_map.mpr (hsorted.imp of_decide_eq_true)

theorem repeated?_sortPlans (planned : List (String × Nat)) :
    repeated? ((sortPlans planned).map (·.1)) = none ↔ (planned.map (·.1)).Nodup := by
  rw [repeated?_eq_none (pairwise_sortPlans planned)]
  exact ((perm_sortPlans planned).map _).nodup_iff

theorem find?_unknown {jobs : List BatchJob} :
    ((sortPlans planned).find? fun plan => !(jobs.map (·.name)).contains plan.1) = none ↔
      ∀ name ∈ planned.map (·.1), name ∈ jobs.map (·.name) := by
  rw [List.find?_eq_none, List.forall_mem_map]
  constructor
  · intro h plan hplan
    simpa using h plan ((perm_sortPlans planned).mem_iff.mpr hplan)
  · intro h plan hplan
    simpa using h plan ((perm_sortPlans planned).mem_iff.mp hplan)

namespace ValidatedBatch

theorem configuredDeletionLimit_eq_ok {batch : ValidatedBatch} {limit : Nat} :
    batch.configuredDeletionLimit = .ok limit ↔
      limit = (batch.jobs.map (·.limit)).sum ∧ limit ≤ maxCount := by
  rw [configuredDeletionLimit, foldlM_checkedAdd (Nat.zero_le _), sum_limits, Nat.zero_add]

/-- What the preflight reports of a batch it lets through. -/
def report (batch : ValidatedBatch) (planned : List (String × Nat)) (aggregateLimit : Option Nat) :
    DeletionPreflight :=
  let total := (planned.map (·.2)).sum
  let configured := (batch.jobs.map (·.limit)).sum
  let effective := (aggregateLimit.map (min · configured)).getD configured
  ⟨batch.jobs.map (preflightOf planned), total, configured, aggregateLimit, effective,
    effective - total⟩

/-- The sums, once each number is known to be a job's. -/
theorem preflightDeletions_of_known {batch : ValidatedBatch} {aggregateLimit : Option Nat}
    {result : DeletionPreflight} (hdistinct : (planned.map (·.1)).Nodup)
    (hknown : ∀ name ∈ planned.map (·.1), name ∈ batch.jobs.map (·.name)) :
    batch.preflightDeletions planned aggregateLimit = .ok result ↔
      (batch.jobs.map (·.limit)).sum ≤ maxCount ∧
        (∀ job ∈ batch.jobs, ∃ count, planned.lookup job.name = some count ∧ count ≤ job.limit) ∧
        (batch.jobs.map (plannedOf planned)).sum ≤ maxCount ∧
        (∀ maximum ∈ aggregateLimit, (batch.jobs.map (plannedOf planned)).sum ≤ maximum) ∧
        result = { batch.report planned aggregateLimit with
          totalPlanned := (batch.jobs.map (plannedOf planned)).sum
          remaining := (batch.report planned aggregateLimit).effectiveLimit -
            (batch.jobs.map (plannedOf planned)).sum } := by
  have hlookup := lookup_perm (perm_sortPlans planned) hdistinct
  have hplanned : plannedOf (sortPlans planned) = plannedOf planned := by
    funext job
    rw [plannedOf, plannedOf, hlookup]
  have hrow : preflightOf (sortPlans planned) = preflightOf planned := by
    funext job
    rw [preflightOf, preflightOf, hplanned]
  have hjudged : ∀ s', batch.jobs.foldlM (judgeJob (sortPlans planned)) (0, []) = .ok s' ↔
      (∀ job ∈ batch.jobs, ∃ count, planned.lookup job.name = some count ∧ count ≤ job.limit) ∧
        s'.1 ≤ maxCount ∧ s' = ((batch.jobs.map (plannedOf planned)).sum,
          batch.jobs.map (preflightOf planned)) := by
    intro s'
    rw [judgeJobs_eq_ok (s := (0, [])) (Nat.zero_le maxCount), hplanned, hrow, Nat.zero_add,
      List.nil_append]
    simp only [hlookup]
  simp only [preflightDeletions, (repeated?_sortPlans planned).mpr hdistinct,
    find?_unknown.mpr hknown, Loop.bind_eq_ok, configuredDeletionLimit_eq_ok, hjudged]
  constructor
  · rintro ⟨_, ⟨rfl, hlimit⟩, ⟨total, perJob⟩, ⟨hall, hmax, hsums⟩, h⟩
    obtain ⟨rfl, rfl⟩ := Prod.mk.inj hsums
    refine ⟨hlimit, hall, hmax, ?_⟩
    cases aggregateLimit with
    | none =>
      obtain rfl := Except.ok.inj h
      exact ⟨by simp, rfl⟩
    | some maximum =>
      simp only at h
      split at h
      · cases h
      · rename_i hwithin
        obtain rfl := Except.ok.inj h
        exact ⟨by simpa using hwithin, rfl⟩
  · rintro ⟨hlimit, hall, hmax, hwithin, rfl⟩
    refine ⟨_, ⟨rfl, hlimit⟩, _, ⟨hall, hmax, rfl⟩, ?_⟩
    cases aggregateLimit with
    | none => rfl
    | some maximum =>
      have hle := hwithin maximum rfl
      simp only [if_neg (Nat.not_lt_of_le hle)]
      rfl

theorem sum_plannedOf {batch : ValidatedBatch}
    (h : (planned.map (·.1)).Perm (batch.jobs.map (·.name))) :
    (batch.jobs.map (plannedOf planned)).sum = (planned.map (·.2)).sum := by
  have hperm := ((perm_planned batch.distinct h).map (·.2)).sum_eq
  rw [hperm, List.map_map]
  rfl

/-- What a batch that is let through has planned. -/
theorem of_preflightDeletions {batch : ValidatedBatch} {aggregateLimit : Option Nat}
    {result : DeletionPreflight} (h : batch.preflightDeletions planned aggregateLimit = .ok result) :
    (planned.map (·.1)).Perm (batch.jobs.map (·.name)) ∧
      (∀ job ∈ batch.jobs, ∀ count, (job.name, count) ∈ planned → count ≤ job.limit) ∧
      (batch.jobs.map (·.limit)).sum ≤ maxCount ∧
      (∀ maximum ∈ aggregateLimit, (planned.map (·.2)).sum ≤ maximum) ∧
      result = batch.report planned aggregateLimit := by
  have hdistinct : (planned.map (·.1)).Nodup := by
    rw [← repeated?_sortPlans]
    by_contra hrepeated
    obtain ⟨name, hname⟩ := Option.ne_none_iff_exists'.mp hrepeated
    simp [preflightDeletions, hname] at h
  have hknown : ∀ name ∈ planned.map (·.1), name ∈ batch.jobs.map (·.name) := by
    rw [← find?_unknown]
    by_contra hunknown
    obtain ⟨plan, hplan⟩ := Option.ne_none_iff_exists'.mp hunknown
    simp only [preflightDeletions, (repeated?_sortPlans planned).mpr hdistinct, hplan] at h
    cases h
  obtain ⟨hlimit, hall, _, hwithin, hresult⟩ := (preflightDeletions_of_known hdistinct hknown).mp h
  have hperm : (planned.map (·.1)).Perm (batch.jobs.map (·.name)) := by
    rw [List.perm_ext_iff_of_nodup hdistinct batch.distinct]
    intro name
    refine ⟨hknown name, fun hname => ?_⟩
    obtain ⟨job, hjob, rfl⟩ := List.mem_map.mp hname
    obtain ⟨count, hcount, _⟩ := hall job hjob
    exact List.mem_map_of_mem (f := (·.1)) ((lookup_eq_some hdistinct).mp hcount)
  refine ⟨hperm, ?_, hlimit, ?_, ?_⟩
  · intro job hjob count hmem
    obtain ⟨count', hcount', hle⟩ := hall job hjob
    rw [(lookup_eq_some hdistinct).mpr hmem] at hcount'
    rw [Option.some.inj hcount']
    exact hle
  · rw [← sum_plannedOf hperm]
    exact hwithin
  · rw [hresult, sum_plannedOf hperm]
    rfl

/-- With these plans a batch is let through. -/
theorem preflightDeletions_of {batch : ValidatedBatch} {aggregateLimit : Option Nat}
    (hperm : (planned.map (·.1)).Perm (batch.jobs.map (·.name)))
    (hall : ∀ job ∈ batch.jobs, ∀ count, (job.name, count) ∈ planned → count ≤ job.limit)
    (hlimit : (batch.jobs.map (·.limit)).sum ≤ maxCount)
    (hwithin : ∀ maximum ∈ aggregateLimit, (planned.map (·.2)).sum ≤ maximum) :
    batch.preflightDeletions planned aggregateLimit = .ok (batch.report planned aggregateLimit) := by
  have hdistinct : (planned.map (·.1)).Nodup := hperm.nodup_iff.mpr batch.distinct
  have hpresent : ∀ job ∈ batch.jobs, ∃ count, planned.lookup job.name = some count ∧
      count ≤ job.limit := by
    intro job hjob
    obtain ⟨⟨name, count⟩, hmem, hname⟩ :=
      List.mem_map.mp (hperm.mem_iff.mpr (List.mem_map_of_mem (f := (·.name)) hjob))
    simp only at hname
    subst hname
    exact ⟨count, (lookup_eq_some hdistinct).mpr hmem, hall job hjob count hmem⟩
  have hle : (batch.jobs.map (plannedOf planned)).sum ≤ (batch.jobs.map (·.limit)).sum := by
    refine List.sum_le_sum fun job hjob => ?_
    obtain ⟨count, hcount, hle⟩ := hpresent job hjob
    rw [plannedOf, hcount]
    exact hle
  refine (preflightDeletions_of_known hdistinct fun name => hperm.mem_iff.mp).mpr
    ⟨hlimit, hpresent, hle.trans hlimit, ?_, ?_⟩
  · rw [sum_plannedOf hperm]
    exact hwithin
  · rw [sum_plannedOf hperm]
    rfl

/-- The order the plans are given in decides nothing, not even which error is told. -/
theorem preflightDeletions_perm {batch : ValidatedBatch} {aggregateLimit : Option Nat}
    {planned' : List (String × Nat)} (h : planned.Perm planned') :
    batch.preflightDeletions planned aggregateLimit =
      batch.preflightDeletions planned' aggregateLimit := by
  have hperm : (sortPlans planned).Perm (sortPlans planned') :=
    (perm_sortPlans planned).trans (h.trans (perm_sortPlans planned').symm)
  have hnames := Sorted.keys_eq_of_perm hperm (pairwise_sortPlans planned)
    (pairwise_sortPlans planned')
  cases hrepeated : repeated? ((sortPlans planned).map (·.1)) with
  | some name => simp only [preflightDeletions, hrepeated, ← hnames]
  | none =>
    have hdistinct : ((sortPlans planned).map (·.1)).Nodup :=
      (repeated?_eq_none (pairwise_sortPlans planned)).mp hrepeated
    have hsorted := Sorted.eq_of_perm_of_keys hperm (pairwise_sortPlans planned)
      (pairwise_sortPlans planned') hdistinct
    rw [preflightDeletions, preflightDeletions, hsorted]

/-- Which plans a batch is let through with: each of its jobs has one number and nothing else has,
no number is over the limit of its job (none may be where the job does not delete), there is room for
the sum of the limits, and the sum of the numbers is within the limit of the whole, if there is one.
Then the report holds these sums. The order the plans are given in changes neither the report nor the
error. -/
theorem preflightDeletions_eq_ok (batch : ValidatedBatch) (planned : List (String × Nat))
    (aggregateLimit : Option Nat) :
    (∀ result, batch.preflightDeletions planned aggregateLimit = .ok result ↔
      (planned.map (·.1)).Perm (batch.jobs.map (·.name)) ∧
        (∀ job ∈ batch.jobs, ∀ count, (job.name, count) ∈ planned → count ≤ job.limit) ∧
        (batch.jobs.map (·.limit)).sum ≤ maxCount ∧
        (∀ maximum ∈ aggregateLimit, (planned.map (·.2)).sum ≤ maximum) ∧
        result = batch.report planned aggregateLimit) ∧
    ∀ planned', planned.Perm planned' → batch.preflightDeletions planned aggregateLimit =
      batch.preflightDeletions planned' aggregateLimit := by
  refine ⟨fun result => ?_, fun _ => preflightDeletions_perm⟩
  constructor
  · exact of_preflightDeletions
  · rintro ⟨hperm, hall, hlimit, hwithin, rfl⟩
    exact preflightDeletions_of hperm hall hlimit hwithin

end ValidatedBatch

end Preflight

end DriveSync
