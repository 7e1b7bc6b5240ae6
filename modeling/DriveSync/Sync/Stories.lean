import DriveSync.Sync.Run

/-!
# DriveSync.Sync.Stories

What a run's events are about. Each event belongs to one `Task`, and the events of one task, in
order, are one of the few sequences of `Task.Tells`: its story.
-/

namespace DriveSync

/-- What an event can be about: an action of the plan, a source opened before anything is sent, or
the upload in a kept deletion's place. -/
inductive Task where
  | source (relative : RelPath)
  | preDelete (action : DeleteAction)
  | create (action : CreateAction)
  | copy (action : CopyAction)
  | upload (action : UploadAction)
  | postDelete (action : DeleteAction)
  | followUp (relative : RelPath)
  | rename (action : RenameAction)
deriving DecidableEq, Repr

/-- The path a task is left by, for the next run. -/
def Task.relative : Task → RelPath
  | .source relative => relative
  | .preDelete action => action.relative
  | .create action => action.relative
  | .copy action => action.toRelative
  | .upload action => action.entry.relative
  | .postDelete action => action.relative
  | .followUp relative => relative
  | .rename action => action.relative

/-- The event that says a task was carried out, or, of a mirror deletion, that it is skipped. -/
inductive Task.Ends : Task → ExecutionEvent → Prop where
  | preDelete {a} : Ends (.preDelete a) (.typeConflictDeleted a.remotePath)
  | create {a} : Ends (.create a) (.directoryCreated a.remotePath)
  | copy {a} : Ends (.copy a)
      (.remoteContentCopied a.fromRemotePath a.toRemotePath a.expectedSize)
  | fallback {a} : Ends (.copy a) (.copyFallbackUploaded a.entry.relative a.expectedSize)
  | upload {a} : Ends (.upload a) (.uploaded a.entry.relative a.entry.size)
  | postDelete {a} : Ends (.postDelete a) (.remoteExtraDeleted a.remotePath)
  | skip {a reason} : Ends (.postDelete a)
      (.remoteExtraDeleteSkipped a.remotePath a.relative reason)
  | followUp {r bytes} : Ends (.followUp r) (.keptDeleteUploaded r bytes)
  | rename {a renamed} : Ends (.rename a) (.renamed a.fromRemotePath renamed)

/-- The events a task can have, in order: none, that it was carried out, or that its path was left.
Only a copy that was made may also be left, when its source cannot be read again after it. -/
inductive Task.Tells : Task → List ExecutionEvent → Prop where
  | silent {task} : Tells task []
  | ended {task event} (h : Ends task event) : Tells task [event]
  | left {task reason} : Tells task [.pathDeferred task.relative reason]
  | copiedLeft {a reason} : Tells (.copy a)
      [.remoteContentCopied a.fromRemotePath a.toRemotePath a.expectedSize,
        .pathDeferred a.toRelative reason]

/-- A task with its events. -/
structure Story where
  task : Task
  events : List ExecutionEvent
  tells : task.Tells events

def Story.silent (task : Task) : Story := ⟨task, [], .silent⟩

abbrev RunEntry : Type := Entry runInterface

def told? : RunEntry → Option ExecutionEvent
  | .told event => some event
  | .asked _ _ => none

/-- The events of a log, in order. -/
def events (log : List RunEntry) : List ExecutionEvent := log.filterMap told?

theorem map_task_silent (tasks : List Task) : (tasks.map Story.silent).map (·.task) = tasks := by
  simp [Function.comp_def, Story.silent]

theorem flatMap_silent (tasks : List Task) :
    (tasks.map Story.silent).flatMap (·.events) = [] := by
  rw [List.flatMap_eq_nil_iff]
  simp [Story.silent]

/-! ## Work on the NAS -/

/-- What a call can do to the NAS. -/
inductive Work where
  | delete
  | create
  | copy
  | upload
  | rename
deriving DecidableEq, Repr

/-- The work that a call answered with success did. -/
def ofAnswer {α : Type} (work : Work) : Except ExecError α → Option Work
  | .ok _ => some work
  | .error _ => none

def answered? : RunEntry → Option Work
  | .asked (.deleteNonRecursive _) reply => ofAnswer .delete reply
  | .asked (.createFolder _) reply => ofAnswer .create reply
  | .asked (.copyFileVerified _) reply => ofAnswer .copy reply
  | .asked (.upload _ _) reply => ofAnswer .upload reply
  | .asked (.rename _ _) reply => ofAnswer .rename reply
  | _ => none

/-- The work an event reports. -/
def ExecutionEvent.work? : ExecutionEvent → Option Work
  | .typeConflictDeleted _ => some .delete
  | .remoteExtraDeleted _ => some .delete
  | .directoryCreated _ => some .create
  | .remoteContentCopied _ _ _ => some .copy
  | .copyFallbackUploaded _ _ => some .upload
  | .uploaded _ _ => some .upload
  | .keptDeleteUploaded _ _ => some .upload
  | .renamed _ _ => some .rename
  | .remoteExtraDeleteSkipped _ _ _ => none
  | .pathDeferred _ _ => none

/-- Every answer of success is reported, and nothing else is. -/
def Balanced (log : List RunEntry) : Prop :=
  (log.filterMap answered?).Perm ((events log).filterMap ExecutionEvent.work?)

theorem Balanced.append {log log' : List RunEntry} (h : Balanced log) (h' : Balanced log') :
    Balanced (log ++ log') := by
  unfold Balanced events at *
  simp only [List.filterMap_append]
  exact h.append h'

end DriveSync
