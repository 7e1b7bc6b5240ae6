import Mathlib.Algebra.Group.Nat.Defs
import Std.Data.String.ToNat
import DriveSync.Lib.Lines
import DriveSync.Plan.Build
import DriveSync.Small

/-!
# DriveSync.Plan.Ticket

The text a resync ticket is the hash of. It names each file by the spelling the source holds and by
the digest of what would be written. So it is injective in those (`ResyncRun.alike_of_canonical`), and
says nothing of where a file is written to or of what is there.
-/

namespace DriveSync

open Path

/-- Where a forced re-upload would write, as the ticket describes it. -/
structure ResyncTarget where
  remoteRoot : List Char
  endpoint : List Char
deriving DecidableEq, Repr

def CompareMode.ticketName : CompareMode → List Char
  | content => "content".toList
  | metadata => "metadata".toList
  | sizeOnly => "size-only".toList
  | force => "force".toList

def hexDigit (n : Nat) : Char := "0123456789abcdef".toList.getD (n % 16) '0'

/-- The low `width` hexadecimal digits of a number, the highest first. -/
def hexEncode : Nat → Nat → List Char
  | 0, _ => []
  | width + 1, n => hexEncode width (n / 16) ++ [hexDigit n]

def ContentFingerprint.sha256Hex (f : ContentFingerprint) : Option (List Char) :=
  f.strong.map fun strong => hexEncode 64 strong.sha256.toNat

/-- The digest a file is named by: the SHA-256 of what would be written. -/
def uploadDigest (upload : UploadAction) : List Char :=
  (upload.entry.contentMd5.bind ContentFingerprint.sha256Hex).getD "none".toList

def uploadFields (upload : UploadAction) : List Char :=
  upload.entry.relative.render ++ '\x00' ::
    (Nat.toDigits 10 upload.entry.size ++ '\x00' :: uploadDigest upload)

def ticketTag : List Char := "sdsync.resync-ticket.v3\n".toList

/-- The text the ticket hashes. -/
def resyncCanonical (target : ResyncTarget) (scope : Scope) (compare : CompareMode)
    (plan : SyncPlan) : List Char :=
  ticketTag ++ (target.endpoint ++ '\n' ::
    Lines.unlines '\n' (target.remoteRoot :: scope.path.render :: compare.ticketName ::
      Nat.toDigits 10 plan.uploadBytes :: plan.uploads.map uploadFields))

/-! ## The fields of the text -/

theorem hexDigit_inj {a b : Nat} (ha : a < 16) (hb : b < 16) (h : hexDigit a = hexDigit b) :
    a = b := by
  have key : ∀ a < 16, ∀ b < 16, hexDigit a = hexDigit b → a = b := by decide
  exact key a ha b hb h

theorem hexEncode_inj (width : Nat) {a b : Nat} (ha : a < 16 ^ width) (hb : b < 16 ^ width)
    (h : hexEncode width a = hexEncode width b) : a = b := by
  induction width generalizing a b with
  | zero => simp at ha hb; omega
  | succ width ih =>
    obtain ⟨hhigh, hlow⟩ := List.append_inj' h rfl
    rw [Nat.pow_succ] at ha hb
    have hdiv := ih (by omega) (by omega) hhigh
    have hmod : a % 16 = b % 16 := by
      refine hexDigit_inj (Nat.mod_lt _ (by omega)) (Nat.mod_lt _ (by omega)) ?_
      simpa [hexDigit] using hlow
    omega

theorem length_hexEncode (width n : Nat) : (hexEncode width n).length = width := by
  induction width generalizing n with
  | zero => rfl
  | succ width ih => rw [hexEncode, List.length_append, ih]; rfl

theorem hexDigit_mem (n : Nat) : hexDigit n ∈ "0123456789abcdef".toList := by
  have key : ∀ d < 16, "0123456789abcdef".toList.getD d '0' ∈ "0123456789abcdef".toList := by decide
  exact key (n % 16) (Nat.mod_lt _ (by omega))

theorem mem_hexEncode {width n : Nat} {c : Char} (h : c ∈ hexEncode width n) :
    c ∈ "0123456789abcdef".toList := by
  induction width generalizing n with
  | zero => simp [hexEncode] at h
  | succ width ih =>
    rw [hexEncode] at h
    rcases List.mem_append.mp h with h | h
    · exact ih h
    · rw [List.mem_singleton.mp h]; exact hexDigit_mem n

theorem toDigits_inj {a b : Nat} (h : Nat.toDigits 10 a = Nat.toDigits 10 b) : a = b :=
  Nat.repr_injective (String.toList_injective (by rw [Nat.toList_repr, Nat.toList_repr, h]))

theorem isControl_of_isDigit {c : Char} (h : c.isDigit = true) : isControl c = false := by
  have hb : 48 ≤ c.toNat ∧ c.toNat ≤ 57 := by
    simp only [Char.isDigit, Bool.and_eq_true, decide_eq_true_eq, UInt32.le_iff_toNat_le] at h
    exact h
  simp only [isControl, Bool.or_eq_false_iff, decide_eq_false_iff_not, Bool.and_eq_false_iff]
  omega

theorem toDigits_plain {n : Nat} {c : Char} (h : c ∈ Nat.toDigits 10 n) : isControl c = false :=
  isControl_of_isDigit (Nat.isDigit_of_mem_toDigits (by omega) (by omega) h)

theorem uploadDigest_plain {u : UploadAction} {c : Char} (h : c ∈ uploadDigest u) :
    isControl c = false := by
  have hhex : ("0123456789abcdef".toList.all fun c => !isControl c) = true := by decide
  have hnone : ("none".toList.all fun c => !isControl c) = true := by decide
  simp only [List.all_eq_true, Bool.not_eq_true'] at hhex hnone
  rw [uploadDigest] at h
  cases hd : u.entry.contentMd5.bind ContentFingerprint.sha256Hex with
  | none => rw [hd] at h; exact hnone c h
  | some hex =>
    rw [hd] at h
    obtain ⟨f, _, hf⟩ := Option.bind_eq_some_iff.mp hd
    obtain ⟨strong, _, rfl⟩ := Option.map_eq_some_iff.mp hf
    exact hhex c (mem_hexEncode h)

/-- The SHA-256 of a file's content, where one is known. -/
def sha256? (entry : LocalEntry) : Option (BitVec 256) :=
  entry.contentMd5.bind fun f => f.strong.map (·.sha256)

theorem uploadDigest_eq (u : UploadAction) :
    uploadDigest u = ((sha256? u.entry).map fun sha => hexEncode 64 sha.toNat).getD "none".toList := by
  rw [uploadDigest, sha256?]
  congr 1
  cases u.entry.contentMd5 with
  | none => rfl
  | some f => cases hs : f.strong <;> simp [ContentFingerprint.sha256Hex, hs]

/-- A digest's text is longer than the text for none, and two digests have two texts. -/
theorem uploadDigest_inj {u v : UploadAction} (h : uploadDigest u = uploadDigest v) :
    sha256? u.entry = sha256? v.entry := by
  rw [uploadDigest_eq, uploadDigest_eq] at h
  have hlen : ∀ sha : BitVec 256, hexEncode 64 sha.toNat ≠ "none".toList := by
    intro sha heq
    have := congrArg List.length heq
    rw [length_hexEncode] at this
    simp at this
  cases hu : sha256? u.entry with
  | none =>
    cases hv : sha256? v.entry with
    | none => rfl
    | some b => rw [hu, hv] at h; exact absurd h.symm (hlen b)
  | some a =>
    cases hv : sha256? v.entry with
    | none => rw [hu, hv] at h; exact absurd h (hlen a)
    | some b =>
      rw [hu, hv] at h
      rw [BitVec.eq_of_toNat_eq (hexEncode_inj 64 a.isLt b.isLt h)]

/-- A path without control characters: `validate_relative` and `RemoteRoot::parse` refuse others. -/
def Plain (p : RelPath) : Prop := ∀ c ∈ p.render, isControl c = false

instance (p : RelPath) : Decidable (Plain p) :=
  List.decidableBAll (fun c => isControl c = false) p.render

theorem not_mem_of_plain {text : List Char} {c : Char} (h : ∀ c ∈ text, isControl c = false)
    (hc : isControl c = true) : c ∉ text := fun hmem => by
  rw [h c hmem] at hc; cases hc

/-- No path is spelled with a slash in front. -/
theorem head?_render (p : RelPath) : p.render.head? ≠ some '/' := by
  induction p with
  | root => simp [render]
  | child p n ih =>
    by_cases hp : p = .root
    · subst hp
      obtain ⟨s, hne, hs⟩ := n
      cases s with
      | nil => exact absurd rfl hne
      | cons c s =>
        simp only [List.mem_cons, not_or] at hs
        simpa [render] using Ne.symm hs.1
    · rw [render_child hp]
      cases hr : p.render with
      | nil => exact absurd hr (render_ne_nil hp)
      | cons c s => rw [hr] at ih; simpa using ih

theorem uploadFields_inj {u v : UploadAction} (hu : Plain u.entry.relative)
    (hv : Plain v.entry.relative) (h : uploadFields u = uploadFields v) :
    u.entry.relative = v.entry.relative ∧ u.entry.size = v.entry.size ∧
      sha256? u.entry = sha256? v.entry := by
  obtain ⟨hrelative, h⟩ := Lines.cut_inj (not_mem_of_plain hu (by decide))
    (not_mem_of_plain hv (by decide)) h
  obtain ⟨hsize, h⟩ := Lines.cut_inj (not_mem_of_plain (fun _ => toDigits_plain) (by decide))
    (not_mem_of_plain (fun _ => toDigits_plain) (by decide)) h
  exact ⟨render_injective hrelative, toDigits_inj hsize, uploadDigest_inj h⟩

theorem not_mem_uploadFields {u : UploadAction} (hu : Plain u.entry.relative) :
    '\n' ∉ uploadFields u := by
  simp only [uploadFields, List.mem_append, List.mem_cons, not_or]
  exact ⟨not_mem_of_plain hu (by decide), by decide,
    not_mem_of_plain (fun _ => toDigits_plain) (by decide), by decide,
    not_mem_of_plain (fun _ => uploadDigest_plain) (by decide)⟩

theorem head?_uploadFields (u : UploadAction) : (uploadFields u).head? ≠ some '/' := by
  have h := head?_render u.entry.relative
  rw [uploadFields]
  cases hr : u.entry.relative.render with
  | nil => simp
  | cons c s => rw [hr] at h; simpa using h

/-! ## What a ticket tells apart -/

/-- One forced re-upload a ticket is made for. -/
structure ResyncRun where
  endpoint : List Char
  root : RemoteRoot
  scope : Scope
  compare : CompareMode
  plan : SyncPlan
  root_plain : Plain root.path
  scope_plain : Plain scope.path
  uploads_plain : ∀ u ∈ plan.uploads, Plain u.entry.relative

namespace ResyncRun

def canonical (run : ResyncRun) : List Char :=
  resyncCanonical ⟨'/' :: run.root.path.render, run.endpoint⟩ run.scope run.compare run.plan

/-- The lines behind the line of the root. -/
def lines (run : ResyncRun) : List (List Char) :=
  run.scope.path.render :: run.compare.ticketName :: Nat.toDigits 10 run.plan.uploadBytes ::
    run.plan.uploads.map uploadFields

/-- Each file the run writes: where to, and, where a file is there, its size and its digest. -/
def overwritten (run : ResyncRun) : List (RelPath × Option (Nat × Option ContentFingerprint)) :=
  run.plan.uploads.map fun u =>
    (u.remotePath, u.expectedRemote.map fun there => (there.size, there.contentMd5))

/-- Each file as the ticket names it: its spelling in the source, its size and its content. -/
def named (run : ResyncRun) : List (RelPath × Nat × Option (BitVec 256)) :=
  run.plan.uploads.map fun u => (u.entry.relative, u.entry.size, sha256? u.entry)

/-- The runs of one ticket go to one destination, with one scope and comparison, and overwrite the
same files. -/
def Authorised (i j : ResyncRun) : Prop :=
  i.canonical = j.canonical →
    i.endpoint = j.endpoint ∧ i.root = j.root ∧ i.scope = j.scope ∧ i.compare = j.compare ∧
      i.overwritten = j.overwritten

/-- The two runs agree in everything the ticket names. -/
structure Alike (i j : ResyncRun) : Prop where
  endpoint : i.endpoint = j.endpoint
  root : i.root = j.root
  scope : i.scope = j.scope
  compare : i.compare = j.compare
  uploadBytes : i.plan.uploadBytes = j.plan.uploadBytes
  named : i.named = j.named

theorem ticketName_plain (mode : CompareMode) :
    '\n' ∉ mode.ticketName ∧ mode.ticketName.head? ≠ some '/' := by
  cases mode <;> decide

theorem ticketName_inj {a b : CompareMode} (h : a.ticketName = b.ticketName) : a = b := by
  have key : ∀ a b : CompareMode, a.ticketName = b.ticketName → a = b := by
    intro a b; cases a <;> cases b <;> decide
  exact key a b h

theorem head?_toDigits (n : Nat) : (Nat.toDigits 10 n).head? ≠ some '/' := by
  intro h
  have := Nat.isDigit_of_mem_toDigits (b := 10) (by omega) (by omega) (List.mem_of_mem_head? h)
  revert this
  decide

theorem lines_plain (run : ResyncRun) :
    ∀ line ∈ run.lines, '\n' ∉ line ∧ line.head? ≠ some '/' := by
  intro line hline
  simp only [lines, List.mem_cons, List.mem_map] at hline
  rcases hline with rfl | rfl | rfl | ⟨u, hu, rfl⟩
  · exact ⟨not_mem_of_plain run.scope_plain (by decide), head?_render _⟩
  · exact ticketName_plain _
  · exact ⟨not_mem_of_plain (fun _ => toDigits_plain) (by decide), head?_toDigits _⟩
  · exact ⟨not_mem_uploadFields (run.uploads_plain u hu), head?_uploadFields u⟩

theorem canonical_eq (run : ResyncRun) : run.canonical =
    ticketTag ++ (run.endpoint ++ '\n' :: '/' ::
      Lines.unlines '\n' (run.root.path.render :: run.lines)) := rfl

theorem named_inj {us vs : List UploadAction} (hus : ∀ u ∈ us, Plain u.entry.relative)
    (hvs : ∀ v ∈ vs, Plain v.entry.relative)
    (h : us.map uploadFields = vs.map uploadFields) :
    us.map (fun u => (u.entry.relative, u.entry.size, sha256? u.entry)) =
      vs.map fun u => (u.entry.relative, u.entry.size, sha256? u.entry) := by
  induction us generalizing vs with
  | nil =>
    cases vs with
    | nil => rfl
    | cons v vs => simp at h
  | cons u us ih =>
    cases vs with
    | nil => simp at h
    | cons v vs =>
      simp only [List.map_cons, List.cons.injEq] at h
      obtain ⟨hrelative, hsize, hsha⟩ :=
        uploadFields_inj (hus u (.head _)) (hvs v (.head _)) h.1
      rw [List.map_cons, List.map_cons, hrelative, hsize, hsha,
        ih (fun u hu => hus u (.tail _ hu)) (fun v hv => hvs v (.tail _ hv)) h.2]

/-- The text is injective on what it names. The line of the root is the last that starts with a
slash, so an endpoint may hold anything. -/
theorem alike_of_canonical {i j : ResyncRun} (h : i.canonical = j.canonical) : Alike i j := by
  rw [canonical_eq, canonical_eq, List.append_cancel_left_eq] at h
  have hroot : ∀ run : ResyncRun, '\n' ∉ run.root.path.render :=
    fun run => not_mem_of_plain run.root_plain (by decide)
  obtain ⟨hendpoint, hrest⟩ := Lines.cut_last_inj (by decide)
    (Lines.not_infix_unlines (by decide) (hroot i) i.lines_plain)
    (Lines.not_infix_unlines (by decide) (hroot j) j.lines_plain) h
  have hlines := Lines.unlines_inj '\n'
    (List.forall_mem_cons.mpr ⟨hroot i, fun l hl => (i.lines_plain l hl).1⟩)
    (List.forall_mem_cons.mpr ⟨hroot j, fun l hl => (j.lines_plain l hl).1⟩) hrest
  simp only [lines, List.cons.injEq] at hlines
  obtain ⟨hroot, hscope, hcompare, hbytes, huploads⟩ := hlines
  refine ⟨hendpoint, ?_, congrArg Scope.mk (render_injective hscope), ticketName_inj hcompare,
    toDigits_inj hbytes, named_inj i.uploads_plain j.uploads_plain huploads⟩
  show RemoteRoot.mk i.root.path i.root.path_ne_root = ⟨j.root.path, j.root.path_ne_root⟩
  simp only [RemoteRoot.mk.injEq]
  exact render_injective hroot

/-- A line of the text is made of what it names, so runs alike in that have one text. -/
theorem canonical_of_alike {i j : ResyncRun} (h : Alike i j) : i.canonical = j.canonical := by
  have hfields : ∀ run : ResyncRun, run.plan.uploads.map uploadFields =
      run.named.map fun file => file.1.render ++ '\x00' :: (Nat.toDigits 10 file.2.1 ++ '\x00' ::
        (file.2.2.map fun sha => hexEncode 64 sha.toNat).getD "none".toList) := by
    intro run
    rw [named, List.map_map]
    exact List.map_congr_left fun u _ => by simp [uploadFields, uploadDigest_eq]
  rw [canonical_eq, canonical_eq, lines, lines, hfields, hfields, h.endpoint, h.root, h.scope,
    h.compare, h.uploadBytes, h.named]

/-- What is there by another time: a file that was there has grown by a byte, and where none was
there is an empty one. -/
def grown : Option RemoteSnapshot → RemoteSnapshot
  | some there => { there with size := there.size + 1 }
  | none => ⟨.file, 0, 0, none, true⟩

/-- The same run at another time. -/
def later (run : ResyncRun) : ResyncRun :=
  { run with
    plan := { run.plan with uploads := run.plan.uploads.map fun u =>
      { u with expectedRemote := some (grown u.expectedRemote) } }
    uploads_plain := by
      intro upload hupload
      obtain ⟨u, hu, hsame⟩ := List.mem_map.mp hupload
      rw [← hsame]
      exact run.uploads_plain u hu }

/-- Nothing the text names is of the NAS. -/
theorem canonical_later (run : ResyncRun) : run.later.canonical = run.canonical := by
  refine canonical_of_alike ⟨rfl, rfl, rfl, rfl, rfl, ?_⟩
  rw [named, named, later, List.map_map]
  rfl

theorem overwritten_later (run : ResyncRun) : run.later.overwritten =
    run.plan.uploads.map fun u =>
      (u.remotePath, some ((grown u.expectedRemote).size, (grown u.expectedRemote).contentMd5)) := by
  rw [overwritten, later, List.map_map]
  rfl

/-- A run's ticket authorises one set of files exactly if the run writes none: it is the ticket of
the run that finds other files at the same destinations too. -/
theorem authorises_iff (i : ResyncRun) : (∀ j, Authorised i j) ↔ i.plan.uploads = [] := by
  constructor
  · intro h
    obtain ⟨_, _, _, _, hover⟩ := h i.later (canonical_later i).symm
    cases huploads : i.plan.uploads with
    | nil => rfl
    | cons u us =>
      rw [overwritten_later, overwritten, huploads] at hover
      have hthere := (Prod.mk.inj (List.cons.inj hover).1).2
      cases hexpected : u.expectedRemote with
      | none => simp [hexpected] at hthere
      | some there => simp [hexpected, grown] at hthere
  · intro hnone j heq
    have halike := alike_of_canonical heq
    have hnamed := halike.named
    rw [named, named, hnone, List.map_nil] at hnamed
    have hnone' : j.plan.uploads = [] := List.map_eq_nil_iff.mp hnamed.symm
    refine ⟨halike.endpoint, halike.root, halike.scope, halike.compare, ?_⟩
    rw [overwritten, overwritten, hnone, hnone']

end ResyncRun

/-! ## One name under two normalisations

The source holds the file `K`. The NAS holds it once under that name, and once spelled with the
Kelvin sign; the forced upload goes to the name it finds. -/

namespace TwinTicket

open Small

def localSide : LocalInventory := locals [localFile (path [name 'K']) 1]

def options : PlanOptions := { mirror with compare := .force, delete := false }

def plainly : RemoteInventory := remotes [remoteFile (path [name 'K']) 1]

def twin : RemoteInventory := remotes [remoteFile (path [name '\u212a']) 1]

/-- Two plans of one source and destination share a ticket and overwrite two different files. -/
theorem not_authorised : letI := charwise
    ¬∀ i j : ResyncRun,
      (∃ R, buildPlan i.root localSide R noRules options = .ok i.plan) →
      (∃ R, buildPlan j.root localSide R noRules options = .ok j.plan) → i.Authorised j := by
  let := charwise
  intro h
  have hplain : Plain root.path := by decide
  have hplans : Loop.okAnd (buildPlan root localSide plainly noRules options) (fun p =>
      Loop.okAnd (buildPlan root localSide twin noRules options) fun q =>
        (p.uploads.all fun u => decide (Plain u.entry.relative)) &&
        (q.uploads.all fun u => decide (Plain u.entry.relative)) &&
        decide (p.uploadBytes = q.uploadBytes) &&
        decide (p.uploads.map (fun u => (u.entry.relative, u.entry.size, sha256? u.entry)) =
          q.uploads.map fun u => (u.entry.relative, u.entry.size, sha256? u.entry)) &&
        decide (p.uploads.map (·.remotePath) ≠ q.uploads.map (·.remotePath))) = true := by
    decide +kernel
  obtain ⟨p, hp, hplans⟩ := Loop.exists_of_okAnd hplans
  obtain ⟨q, hq, hplans⟩ := Loop.exists_of_okAnd hplans
  simp only [Bool.and_eq_true, List.all_eq_true, decide_eq_true_eq] at hplans
  obtain ⟨⟨⟨⟨hpp, hqp⟩, hbytes⟩, hnamed⟩, hne⟩ := hplans
  have hauth := h ⟨[], root, ⟨.root⟩, .force, p, hplain, by simp [Plain, render], hpp⟩
    ⟨[], root, ⟨.root⟩, .force, q, hplain, by simp [Plain, render], hqp⟩ ⟨plainly, hp⟩ ⟨twin, hq⟩
  obtain ⟨_, _, _, _, hover⟩ :=
    hauth (ResyncRun.canonical_of_alike ⟨rfl, rfl, rfl, rfl, hbytes, hnamed⟩)
  have hpaths := congrArg (List.map Prod.fst) hover
  rw [ResyncRun.overwritten, ResyncRun.overwritten, List.map_map, List.map_map] at hpaths
  exact hne hpaths

end TwinTicket
end DriveSync
