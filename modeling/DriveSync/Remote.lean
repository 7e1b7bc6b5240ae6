import DriveSync.Inventory
import DriveSync.Integrity

/-!
# DriveSync.Remote

The NAS side of a run, as the remote walk reports it.
-/

namespace DriveSync

structure RemoteEntry where
  relative : RelPath
  remotePath : RelPath
  kind : EntryKind
  size : Nat
  mtimeSeconds : Int
  mountPointType : Option String
  contentMd5 : Option ContentFingerprint
deriving DecidableEq, Repr

/-- The mount type the walk gives a link. -/
def linkedEntryMountType : String := "link"

/-- The mount type the walk gives a folder this account may not list. -/
def unlistableEntryMountType : String := "unlistable"

/-- Why the remote walk will not carry an entry. -/
inductive RemoteSkipReason where
  | unrepresentableName
  | linksOutsideDestination
  | revisitedFolder
  | unlistableFolder
deriving DecidableEq, Repr

abbrev RemoteMap := EntryMap RemoteEntry RemoteEntry.relative

structure RemoteInventory where
  rootExists : Bool
  entries : RemoteMap

/-- What the walk guarantees of its entries: every folder on the way to one is there, and each lies
below the destination at its own path. -/
structure RemoteInventory.Walked (root : RemoteRoot) (inv : RemoteInventory) : Prop where
  closed : inv.entries.ParentClosed RemoteEntry.kind
  located : ∀ e ∈ inv.entries.values, e.remotePath = root.path.append e.relative

instance (root : RemoteRoot) (inv : RemoteInventory) : Decidable (inv.Walked root) :=
  decidable_of_iff (inv.entries.ParentClosed RemoteEntry.kind ∧
      ∀ e ∈ inv.entries.values, e.remotePath = root.path.append e.relative)
    ⟨fun h => ⟨h.1, h.2⟩, fun h => ⟨h.closed, h.located⟩⟩

end DriveSync
