import Mathlib.Tactic.Common

/-!
# DriveSync.Integrity

Content fingerprints. An MD5 alone decides whether to upload; a deletion or a server copy takes the
full MD5/CRC32/SHA-256 proof.
-/

namespace DriveSync

structure StrongContentDigests where
  crc32 : BitVec 32
  sha256 : BitVec 256
deriving DecidableEq, Repr

structure ContentFingerprint where
  md5 : BitVec 128
  strong : Option StrongContentDigests
deriving DecidableEq, Repr

/-- What a fingerprint comparison established. -/
inductive ContentMatch where
  | strong
  | md5Only
  | differs
deriving DecidableEq, Repr

namespace ContentFingerprint

def hasFullProof (f : ContentFingerprint) : Bool := f.strong.isSome

/-- Equality of all three digests; `none` where a side is MD5-only. -/
def fullMatch (f other : ContentFingerprint) : Option Bool :=
  match f.strong, other.strong with
  | some left, some right => some (decide (f.md5 = other.md5) && decide (left = right))
  | _, _ => none

def compareContent (f other : ContentFingerprint) : ContentMatch :=
  if f.md5 ≠ other.md5 then .differs
  else
    match f.strong, other.strong with
    | some left, some right => if left = right then .strong else .differs
    | _, _ => .md5Only

end ContentFingerprint
end DriveSync
