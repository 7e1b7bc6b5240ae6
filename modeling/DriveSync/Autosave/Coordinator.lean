import DriveSync.Lib.Prog

/-!
# DriveSync.Autosave.Coordinator

The dashboard's autosave coordinator: each scope's value is sent once its debounce has passed, one
dispatch at a time over all scopes. A value is its canonical signature, and what a task carries.

The clock, and whether a dispatch throws, are the environment: `now` is asked for every reading of
the clock and says how far it moved on, so that it may between any two readings. The functions
call one another as deep as the clock and the throws make them, so they take fuel. Status callbacks
do nothing to the coordinator.
-/

namespace DriveSync
namespace Autosave

open Prog

variable {Scope Sig : Type} [DecidableEq Scope] [DecidableEq Sig]

structure Entry (Sig : Type) where
  baselineSignature : Option Sig
  signature : Option Sig
  revision : Nat
  epoch : Nat
  lastTouchedAt : Option Nat
  dueAt : Nat
  timer : Option Nat
  queued : Bool
  busy : Bool
  blocked : Bool
  cancelled : Bool
  inFlight : Bool
  inFlightSignature : Option Sig
  inFlightEpoch : Nat
deriving DecidableEq, Repr

def Entry.new : Entry Sig :=
  ⟨none, none, 0, 0, none, 0, none, false, false, false, false, false, none, 0⟩

namespace Entry

def effectiveBaseline (entry : Entry Sig) : Option Sig :=
  if entry.inFlight && decide (entry.inFlightEpoch = entry.epoch) then entry.inFlightSignature
  else entry.baselineSignature

def dirty (entry : Entry Sig) : Bool :=
  entry.signature.isSome && decide (entry.signature ≠ entry.effectiveBaseline)

end Entry

structure Task (Scope Sig : Type) where
  scope : Scope
  signature : Sig
  revision : Nat
  epoch : Nat
deriving DecidableEq, Repr

/-- `activeScope` is `none` where the source has the empty string. `promises` are the dispatches
that have not settled, and `clock` is the clock's last reading. -/
structure Coordinator (Scope Sig : Type) where
  delayMs : Nat
  entries : Scope → Option (Entry Sig)
  queue : List Scope
  activeScope : Option Scope
  globalBusy : Bool
  disposed : Bool
  promises : List (Task Scope Sig)
  clock : Nat

/-- What is called: the clock, and the dispatch, which may look at the coordinator as it is. -/
inductive Call (Scope Sig : Type) where
  | now
  | dispatch (task : Task Scope Sig) (seen : Coordinator Scope Sig)

/-- How far the clock moved on; whether the dispatch threw. -/
def Call.Reply : Call Scope Sig → Type
  | .now => Nat
  | .dispatch _ _ => Bool

/-- What happened: an accepted operation that sets a value, and the end of a dispatch. -/
inductive Event (Scope Sig : Type) where
  | hydrated (scope : Scope) (signature : Sig)
  | replaced (scope : Scope) (signature : Sig)
  | updated (scope : Scope) (signature : Sig)
  | settled (task : Task Scope Sig) (succeeded : Bool)
deriving DecidableEq, Repr

abbrev coordinatorInterface (Scope Sig : Type) : Interface :=
  ⟨Call Scope Sig, Call.Reply, Event Scope Sig⟩

/-- The functions were called deeper than their fuel. -/
structure OutOfFuel where

abbrev Exec (Scope Sig α : Type) : Type :=
  Prog (coordinatorInterface Scope Sig) (Coordinator Scope Sig) OutOfFuel α

def request (c : Call Scope Sig) : Exec Scope Sig c.Reply := ask (I := coordinatorInterface Scope Sig) c

def note (event : Event Scope Sig) : Exec Scope Sig Unit :=
  tell (I := coordinatorInterface Scope Sig) event

/-- `_time`. -/
def time : Exec Scope Sig Nat := do
  let moved : Nat ← request .now
  modify fun c => { c with clock := c.clock + moved }
  return (← get).clock

namespace Coordinator

variable (c : Coordinator Scope Sig)

/-- Change an entry, if the scope has one. -/
def setEntry (scope : Scope) (f : Entry Sig → Entry Sig) : Coordinator Scope Sig :=
  { c with entries := fun s => if s = scope then (c.entries s).map f else c.entries s }

/-- `_entry`: a scope has an entry from its first use on. -/
def register (scope : Scope) : Coordinator Scope Sig :=
  { c with entries := fun s =>
      if s = scope then some ((c.entries s).getD .new) else c.entries s }

def dirty (scope : Scope) : Bool := (c.entries scope).any (·.dirty)

/-- `_removeQueued`. -/
def removeQueued (scope : Scope) : Coordinator Scope Sig :=
  if (c.entries scope).any (·.queued) then
    { c.setEntry scope fun entry => { entry with queued := false } with
      queue := c.queue.filter fun s => decide (s ≠ scope) }
  else c

/-- `_clearPending`. -/
def clearPending (scope : Scope) : Coordinator Scope Sig :=
  (c.setEntry scope fun entry => { entry with timer := none }).removeQueued scope

/-- Take the scope at an index off the queue. -/
def dequeue (index : Nat) (scope : Scope) : Coordinator Scope Sig :=
  { c.setEntry scope fun entry => { entry with queued := false } with
    queue := c.queue.eraseIdx index }

/-- The end of a dispatch, before what is still to be sent is armed again. -/
def settle (task : Task Scope Sig) (succeeded : Bool) : Coordinator Scope Sig :=
  let released :=
    { c with activeScope := if c.activeScope = some task.scope then none else c.activeScope }
  released.setEntry task.scope fun entry =>
    let entry := { entry with
      inFlight := false
      inFlightSignature := none
      inFlightEpoch := 0 }
    if task.epoch ≠ entry.epoch then entry
    else if succeeded then { entry with baselineSignature := some task.signature }
    else if c.disposed then entry
    else { entry with blocked := true }

/-- An update's value, before its touch. -/
def revise (scope : Scope) (signature : Sig) : Coordinator Scope Sig :=
  (c.clearPending scope).setEntry scope fun entry => { entry with
    revision := entry.revision + 1
    signature := some signature }

def touch (scope : Scope) (touched : Nat) : Coordinator Scope Sig :=
  c.setEntry scope fun entry => { entry with
    lastTouchedAt := some touched
    dueAt := touched + c.delayMs
    cancelled := false }

/-- A scope's value on its way. -/
def launch (task : Task Scope Sig) : Coordinator Scope Sig :=
  { c with activeScope := some task.scope }.setEntry task.scope fun entry => { entry with
    inFlight := true
    inFlightSignature := some task.signature
    inFlightEpoch := task.epoch }

end Coordinator

mutual

/-- `_enqueue`. -/
def enqueue : Nat → Scope → Exec Scope Sig Unit
  | 0, _ => fail ⟨⟩
  | fuel + 1, scope => do
    let c ← get
    match c.entries scope with
    | none => pure ()
    | some entry =>
      if c.disposed || entry.cancelled || !entry.dirty || entry.queued then pure ()
      else
        modify fun c =>
          { c.setEntry scope fun entry => { entry with queued := true } with
            queue := c.queue ++ [scope] }
        drain fuel

/-- `_arm`. -/
def arm : Nat → Scope → Exec Scope Sig Unit
  | 0, _ => fail ⟨⟩
  | fuel + 1, scope => do
    let c ← get
    match c.entries scope with
    | none => pure ()
    | some entry =>
      if c.disposed || entry.cancelled || entry.lastTouchedAt.isNone || !entry.dirty then
        modify fun c =>
          let c := c.clearPending scope
          if !entry.dirty then
            c.setEntry scope fun entry => { entry with lastTouchedAt := none, dueAt := 0 }
          else c
      else if entry.timer.isSome || entry.queued then pure ()
      else
        let remaining := entry.dueAt - (← time)
        if remaining = 0 then enqueue fuel scope
        else modify fun c => c.setEntry scope fun entry => { entry with timer := some remaining }

/-- `_nextEligibleEntry`, from an index of the queue on. -/
def nextEligibleEntry : Nat → Nat → Exec Scope Sig (Option (Scope × Entry Sig))
  | 0, _ => fail ⟨⟩
  | fuel + 1, index => do
    let c ← get
    match c.queue[index]? with
    | none => return none
    | some scope =>
      match c.entries scope with
      | none =>
        modify (·.dequeue index scope)
        nextEligibleEntry fuel index
      | some entry =>
        if !entry.queued || entry.cancelled || !entry.dirty then
          modify (·.dequeue index scope)
          nextEligibleEntry fuel index
        else if (← time) < entry.dueAt then
          modify (·.dequeue index scope)
          arm fuel scope
          nextEligibleEntry fuel index
        else if entry.busy || entry.blocked then nextEligibleEntry fuel (index + 1)
        else
          modify (·.dequeue index scope)
          return some (scope, entry)

/-- `_finishDispatch`. -/
def finishDispatch : Nat → Task Scope Sig → Bool → Exec Scope Sig Unit
  | 0, _, _ => fail ⟨⟩
  | fuel + 1, task, succeeded => do
    note (.settled task succeeded)
    modify (·.settle task succeeded)
    let c ← get
    if !c.disposed && !(c.entries task.scope).any (·.cancelled) then arm fuel task.scope
    if !(← get).disposed then drain fuel

/-- `_startDispatch`. -/
def startDispatch : Nat → Scope → Entry Sig → Exec Scope Sig Unit
  | 0, _, _ => fail ⟨⟩
  | fuel + 1, scope, entry =>
    match entry.signature with
    | none => pure ()
    | some signature => do
      let task := ⟨scope, signature, entry.revision, entry.epoch⟩
      modify (·.launch task)
      let threw : Bool ← request (.dispatch task (← get))
      if threw then finishDispatch fuel task false
      else modify fun c => { c with promises := task :: c.promises }

/-- `_drain`. -/
def drain : Nat → Exec Scope Sig Unit
  | 0 => fail ⟨⟩
  | fuel + 1 => do
    let c ← get
    if c.disposed || c.globalBusy || c.activeScope.isSome then pure ()
    else
      match ← nextEligibleEntry fuel 0 with
      | some (scope, entry) => startDispatch fuel scope entry
      | none => pure ()

end

/-! ## Operations -/

/-- What happens to a coordinator from outside. -/
inductive Op (Scope Sig : Type) where
  | hydrate (scope : Scope) (signature : Sig)
  | replaceBaseline (scope : Scope) (signature : Sig)
  | update (scope : Scope) (signature : Sig)
  | setScopeBusy (scope : Scope) (busy : Bool)
  | setScopeBlocked (scope : Scope) (blocked : Bool)
  | setGlobalBusy (busy : Bool)
  | cancel (scope : Scope)
  | cancelAll
  | dispose
  | fire (scope : Scope)
  | complete (task : Task Scope Sig) (succeeded : Bool)
deriving DecidableEq, Repr

def hydrate (scope : Scope) (signature : Sig) : Exec Scope Sig Unit := do
  modify fun c => ((c.register scope).clearPending scope).setEntry scope fun entry => { entry with
    epoch := entry.epoch + 1
    revision := entry.revision + 1
    baselineSignature := some signature
    signature := some signature
    lastTouchedAt := none
    dueAt := 0
    blocked := false
    cancelled := false }
  note (.hydrated scope signature)

def replaceBaseline (fuel : Nat) (scope : Scope) (signature : Sig) : Exec Scope Sig Unit := do
  modify fun c => (c.register scope).setEntry scope fun entry =>
    let entry := { entry with epoch := entry.epoch + 1, baselineSignature := some signature }
    if entry.signature.isNone then
      { entry with signature := some signature, revision := entry.revision + 1 }
    else entry
  note (.replaced scope signature)
  if !(← get).dirty scope then
    modify fun c => (c.clearPending scope).setEntry scope fun entry =>
      { entry with lastTouchedAt := none, dueAt := 0 }
  else arm fuel scope

/-- Nothing but the scope's entry where `update` throws, as it does before the scope is hydrated. -/
def update (fuel : Nat) (scope : Scope) (signature : Sig) : Exec Scope Sig Unit := do
  modify (·.register scope)
  match (← get).entries scope with
  | none => pure ()
  | some entry =>
    if entry.baselineSignature.isNone then pure ()
    else
      note (.updated scope signature)
      if decide (some signature = entry.signature) && !entry.cancelled then pure ()
      else
        modify (·.revise scope signature)
        let touched ← time
        modify (·.touch scope touched)
        arm fuel scope

def setScopeBusy (fuel : Nat) (scope : Scope) (busy : Bool) : Exec Scope Sig Unit := do
  modify fun c => (c.register scope).setEntry scope fun entry => { entry with busy := busy }
  if busy then pure ()
  else
    arm fuel scope
    drain fuel

def setScopeBlocked (fuel : Nat) (scope : Scope) (blocked : Bool) : Exec Scope Sig Unit := do
  modify fun c => (c.register scope).setEntry scope fun entry => { entry with blocked := blocked }
  if blocked then pure ()
  else
    arm fuel scope
    drain fuel

def setGlobalBusy (fuel : Nat) (busy : Bool) : Exec Scope Sig Unit := do
  modify fun c => { c with globalBusy := busy }
  if busy then pure () else drain fuel

namespace Coordinator

variable (c : Coordinator Scope Sig)

def cancel (scope : Scope) : Coordinator Scope Sig :=
  (c.clearPending scope).setEntry scope fun entry => { entry with cancelled := true, dueAt := 0 }

/-- The scopes of the queue whose entries are not marked as queued. -/
def unmarked : List Scope := c.queue.filter fun scope => !(c.entries scope).any (·.queued)

def cancelAll : Coordinator Scope Sig :=
  { c with
    queue := c.unmarked
    entries := fun scope => (c.entries scope).map fun entry => { entry with
      timer := none
      queued := false
      cancelled := true
      dueAt := 0 } }

def dispose : Coordinator Scope Sig :=
  { c with
    queue := []
    disposed := true
    entries := fun scope => (c.entries scope).map fun entry => { entry with
      timer := none
      queued := false
      cancelled := true } }

end Coordinator

/-- The timer a scope armed calls back. -/
def fire (fuel : Nat) (scope : Scope) : Exec Scope Sig Unit := do
  let c ← get
  if (c.entries scope).any (·.timer.isSome) then
    modify fun c => c.setEntry scope fun entry => { entry with timer := none }
    if c.disposed then pure () else enqueue fuel scope
  else pure ()

/-- A dispatch settles, once. -/
def complete (fuel : Nat) (task : Task Scope Sig) (succeeded : Bool) : Exec Scope Sig Unit := do
  if task ∈ (← get).promises then
    modify fun c => { c with promises := c.promises.erase task }
    finishDispatch fuel task succeeded
  else pure ()

/-- `_assertActive`: a disposed coordinator refuses an operation. -/
def whileActive (operation : Exec Scope Sig Unit) : Exec Scope Sig Unit := do
  if (← get).disposed then pure () else operation

/-- One operation, a timer's call or a completion. -/
def perform (fuel : Nat) : Op Scope Sig → Exec Scope Sig Unit
  | .hydrate scope signature => whileActive (hydrate scope signature)
  | .replaceBaseline scope signature => whileActive (replaceBaseline fuel scope signature)
  | .update scope signature => whileActive (update fuel scope signature)
  | .setScopeBusy scope busy => whileActive (setScopeBusy fuel scope busy)
  | .setScopeBlocked scope blocked => whileActive (setScopeBlocked fuel scope blocked)
  | .setGlobalBusy busy => whileActive (setGlobalBusy fuel busy)
  | .cancel scope => whileActive (modify (·.cancel scope))
  | .cancelAll => whileActive (modify (·.cancelAll))
  | .dispose => whileActive (modify (·.dispose))
  | .fire scope => fire fuel scope
  | .complete task succeeded => complete fuel task succeeded

def Coordinator.new (delayMs : Nat) : Coordinator Scope Sig :=
  ⟨delayMs, fun _ => none, [], none, false, false, [], 0⟩

/-- A run of operations, one after the other. -/
def performed (env : Env (coordinatorInterface Scope Sig)) (fuel : Nat) (delayMs : Nat)
    (ops : List (Op Scope Sig)) :
    Except OutOfFuel Unit × World (coordinatorInterface Scope Sig) (Coordinator Scope Sig) :=
  ops.forM (perform fuel) env ⟨[], .new delayMs⟩

end Autosave
end DriveSync
