import DriveSync.Path
import DriveSync.Lib.Arena
import DriveSync.Lib.Utf8

/-!
# DriveSync.Watch.Types

What the watch of a source tree is about: the kernel's events and watch descriptors, what may be
watched, what is reported, and why a tree cannot be watched.

A name on disk is bytes; the changes and the filter have its text, in which every ill-formed part of
it is replaced.
-/

namespace DriveSync
namespace Watch

abbrev OsText := List UInt8

/-- How many bytes a character with this first byte is spelled with. -/
def width (lead : UInt8) : Nat :=
  if lead < 0x80 then 1
  else if 0xc2 ≤ lead ∧ lead ≤ 0xdf then 2
  else if 0xe0 ≤ lead ∧ lead ≤ 0xef then 3
  else if 0xf0 ≤ lead ∧ lead ≤ 0xf4 then 4
  else 0

/-- Whether the byte may come second after this first one. -/
def second (lead byte : UInt8) : Bool :=
  if lead = 0xe0 then 0xa0 ≤ byte && byte ≤ 0xbf
  else if lead = 0xed then 0x80 ≤ byte && byte ≤ 0x9f
  else if lead = 0xf0 then 0x90 ≤ byte && byte ≤ 0xbf
  else if lead = 0xf4 then 0x80 ≤ byte && byte ≤ 0x8f
  else 0x80 ≤ byte && byte ≤ 0xbf

/-- How many of the bytes continue this first one, up to the width it asks for. -/
def continued (lead : UInt8) (rest : List UInt8) : Nat :=
  match rest.take (width lead - 1) with
  | [] => 0
  | byte :: more =>
    if second lead byte then 1 + (more.takeWhile fun b => 0x80 ≤ b && b ≤ 0xbf).length else 0

/-- The text of a name, U+FFFD for each part that spells no character. -/
def toStringLossy : OsText → List Char
  | [] => []
  | lead :: rest =>
    (match Utf8.decode (lead :: rest.take (continued lead rest)) with
      | some text => text
      | none => [Char.ofNat 0xfffd]) ++ toStringLossy (rest.drop (continued lead rest))
termination_by bytes => bytes.length
decreasing_by
  simp only [List.length_drop, List.length_cons]
  omega

abbrev Wd := Nat

/-- `PathBuf::join` with a relative path. -/
def joinPath (path name : OsText) : OsText :=
  if path = [] ∨ path.getLast? = some 0x2f then path ++ name else path ++ 0x2f :: name

/-- `entry` under `dir`, both relative and slash-separated. -/
def joinRelative (dir entry : List Char) : List Char :=
  if dir = [] then entry else dir ++ '/' :: entry

def isDsmManagedText (relative : List Char) : Bool :=
  (relative.splitOn '/').any dsmManagedNames.contains

/-- The sync's own rules: the defaults, the ignore file, the profile's patterns. -/
abbrev IgnoreRules := List Char → Bool → Bool

structure Filter where
  rules : IgnoreRules

/-- Whether the path is outside the watch. -/
def Filter.excludes (filter : Filter) (relative : List Char) (isDir : Bool) : Bool :=
  !relative.isEmpty && (isDsmManagedText relative || filter.rules relative isDir)

def defaultIgnoreFile : List Char := ".sdsyncignore".toList

def isRulesFile (relative : List Char) : Bool := relative == defaultIgnoreFile

inductive Kind where
  | closeWrite | create | delete | movedFrom | movedTo | attrib | modify | newDir | other
deriving DecidableEq, Repr

structure EventSet where
  closeWrite : Bool
  create : Bool
  delete : Bool
  movedFrom : Bool
  movedTo : Bool
  attrib : Bool
  modify : Bool
deriving DecidableEq, Repr

def EventSet.reports (events : EventSet) : Kind → Bool
  | .closeWrite => events.closeWrite
  | .create => events.create
  | .delete => events.delete
  | .movedFrom => events.movedFrom
  | .movedTo => events.movedTo
  | .attrib => events.attrib
  | .modify => events.modify
  | .newDir => true
  | .other => false

/-- The bits of an event's mask that are looked at. -/
structure Mask where
  qOverflow : Bool := false
  deleteSelf : Bool := false
  moveSelf : Bool := false
  unmount : Bool := false
  ignored : Bool := false
  isDir : Bool := false
  closeWrite : Bool := false
  create : Bool := false
  delete : Bool := false
  movedFrom : Bool := false
  movedTo : Bool := false
  attrib : Bool := false
  modify : Bool := false
deriving DecidableEq, Repr

/-- The single kind a change carries for the mask. -/
def kindOf (mask : Mask) : Kind :=
  if mask.closeWrite then .closeWrite
  else if mask.create then .create
  else if mask.delete then .delete
  else if mask.movedFrom then .movedFrom
  else if mask.movedTo then .movedTo
  else if mask.attrib then .attrib
  else if mask.modify then .modify
  else .other

structure Event where
  wd : Wd
  mask : Mask
  cookie : Nat
  name : Option OsText
deriving DecidableEq, Repr

inductive Change where
  | path (dir entry : List Char) (kind : Kind)
  | overflow
deriving DecidableEq, Repr

structure LimitExceeded where
  dirs : Nat
  budget : Option Nat
  limit : Option Nat
  held : Nat
  refusedAt : Option OsText
deriving DecidableEq, Repr

/-- Why a tree that is being watched stops being watched, and why one cannot be. -/
inductive WatchError where
  | sourceMissing (path : OsText) (detail : String)
  | sourceGone (path : OsText)
  | limit (exceeded : LimitExceeded)
  | deadline (path : OsText) (deadline : Nat)
  | setup (path : OsText) (detail : String)
deriving DecidableEq, Repr

structure Budget where
  budget : Option Nat
  limit : Option Nat
  held : Nat
deriving DecidableEq, Repr

def Budget.exceeded (budget : Budget) (dirs : Nat) (refusedAt : Option OsText) : WatchError :=
  .limit ⟨dirs, budget.budget, budget.limit, budget.held, refusedAt⟩

/-! ## The kernel and the disk -/

/-- `inotify_add_watch`, with the texts of the errors that have no meaning here. -/
inductive AddWatch where
  | armed (wd : Wd)
  | gone
  | noSpace
  | refused (desc : String)
deriving DecidableEq, Repr

/-- The subdirectories of one directory. -/
inductive Listing where
  | names (names : List OsText)
  | gone (error : String)
  | failed (error : String)
deriving DecidableEq, Repr

/-- What the kernel and the disk answer while one batch is processed. The directories of a walk are
numbered as it comes to them: what is asked twice may be answered differently. -/
structure World where
  addWatch : Nat → OsText → AddWatch
  subdirectories : Nat → OsText → Listing
  /-- The directories a walk gets through before its deadline. -/
  inTime : Nat
  /-- The ignore file, read again. -/
  reread : Option Filter
  /-- The order a hash map is gone through. -/
  order : List Wd → List Wd
  order_perm : ∀ wds, (order wds).Perm wds

end Watch
end DriveSync
