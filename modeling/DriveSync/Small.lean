import DriveSync.Plan.Types

/-!
# DriveSync.Small

Small inventories written by hand, for the concrete cases of later modules. Paths are lists of
names; the destination is a folder of a share.
-/

namespace DriveSync
namespace Small

/-- The name of one letter. The slash is no name; it is spelled as an underscore. -/
def name (c : Char) : Name :=
  if h : c = '/' then ⟨['_'], by decide⟩ else ⟨[c], by simp, by simpa using Ne.symm h⟩

def path (names : List Name) : RelPath := names.foldl Path.child .root

def root : RemoteRoot := ⟨path [name 's', name 't'], by decide⟩

def localFile (p : RelPath) (size : Nat) : LocalEntry := ⟨p, .file, size, 0, none⟩

def localFolder (p : RelPath) : LocalEntry := ⟨p, .directory, 0, 0, none⟩

def remoteFile (p : RelPath) (size : Nat) : RemoteEntry :=
  ⟨p, root.path.append p, .file, size, 0, none, none⟩

def remoteFolder (p : RelPath) : RemoteEntry :=
  ⟨p, root.path.append p, .directory, 0, 0, none, none⟩

def locals (entries : List LocalEntry) : LocalInventory := ⟨"/source", .ofList entries, []⟩

def remotes (entries : List RemoteEntry) : RemoteInventory := ⟨true, .ofList entries⟩

def noRules : IgnoreRules := ⟨fun _ _ => false, fun _ _ => false⟩

/-- A mirror run over the whole tree that compares metadata. -/
def mirror : PlanOptions := ⟨true, true, 1000, .metadata, false, ⟨.root⟩⟩

end Small

/-! ## A folder the NAS holds under two normalisations

The source holds `K/x`; the NAS holds `K`, and beside it the same name spelled with the Kelvin
sign, with `x` in that one. -/

namespace TwinFolder

open Small

def folder : RelPath := path [name 'K']

def twin : RelPath := path [name '\u212a']

def localSide : LocalInventory := locals [localFolder folder, localFile (.child folder (name 'x')) 1]

def remoteSide : RemoteInventory :=
  remotes [remoteFolder folder, remoteFolder twin, remoteFile (.child twin (name 'x')) 1]

end TwinFolder
end DriveSync
