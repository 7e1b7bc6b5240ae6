import Mathlib.Data.List.Lex
import Mathlib.Data.Char
import Mathlib.Order.Compare
import Std.Data.TreeMap
import Std.Data.TreeSet
import DriveSync.Lib.Lines
import DriveSync.Lib.Path
import DriveSync.Lib.Sorted

/-!
# DriveSync.Path

Relative paths of a synchronised tree, as `path.rs` treats them: `/`-separated names, ordered by
their bytes, compared under Unicode normalisation (`nfc`) and under the fold Synology Drive clients
cannot tell apart (`portableFold`), and mapped below a destination root (`RemoteRoot.join`).

`nfc` and lower-casing are parameters (`Unicode`). Neither moves text across a `/`, so both are
functions of one name and act on a path component by component.
-/

namespace DriveSync

/-- One component of a path: a non-empty string without a separator. -/
abbrev Name := { s : List Char // s ≠ [] ∧ '/' ∉ s }

abbrev RelPath := Path Name

namespace Path

/-- The string a path is spelled with. -/
def render : RelPath → List Char
  | root => []
  | child root n => n.1
  | child (child p m) n => (child p m).render ++ '/' :: n.1

theorem render_child {p : RelPath} (hp : p ≠ root) (n : Name) :
    (child p n).render = p.render ++ '/' :: n.1 := by
  cases p with
  | root => exact absurd rfl hp
  | child p m => rfl

theorem render_ne_nil {p : RelPath} (hp : p ≠ root) : p.render ≠ [] := by
  cases p with
  | root => exact absurd rfl hp
  | child p n =>
    cases p with
    | root => exact n.2.1
    | child q m => simp [render]

/-- Two strings cut at their last separator. -/
theorem append_slash_inj {a b n m : List Char} (hn : '/' ∉ n) (hm : '/' ∉ m)
    (h : a ++ '/' :: n = b ++ '/' :: m) : a = b ∧ n = m := by
  have h' : n.reverse ++ '/' :: a.reverse = m.reverse ++ '/' :: b.reverse := by
    simpa using congrArg List.reverse h
  obtain ⟨hnm, hab⟩ := Lines.cut_inj (by simpa using hn) (by simpa using hm) h'
  exact ⟨List.reverse_injective hab, List.reverse_injective hnm⟩

theorem render_injective : Function.Injective render := by
  intro p
  induction p with
  | root =>
    intro q h
    by_contra hq
    exact render_ne_nil (Ne.symm hq) h.symm
  | child p n ih =>
    intro q h
    cases q with
    | root => exact absurd h (render_ne_nil (by simp))
    | child q m =>
      by_cases hp : p = root <;> by_cases hq : q = root
      · subst hp hq
        simpa [render, Subtype.ext_iff] using h
      · subst hp
        rw [render_child hq] at h
        exact absurd (by simp [render] at h; simp [h]) n.2.2
      · subst hq
        rw [render_child hp] at h
        exact absurd (by simp [render] at h; simp [← h]) m.2.2
      · rw [render_child hp, render_child hq] at h
        obtain ⟨h1, h2⟩ := append_slash_inj n.2.2 m.2.2 h
        rw [ih h1, Subtype.ext h2]

/-- Paths are ordered as their strings, byte by byte. -/
instance : LinearOrder RelPath := LinearOrder.lift' render render_injective

instance : Std.LawfulEqOrd RelPath := ⟨compare_eq_iff_eq.mp⟩

theorem lt_iff_render {p q : RelPath} : p < q ↔ p.render < q.render := Iff.rfl

theorem lt_append_cons (l : List Char) (c : Char) (t : List Char) : l < l ++ c :: t := by
  induction l with
  | nil => exact List.Lex.nil
  | cons a l ih => exact List.Lex.cons ih

/-- A folder sorts before everything beneath it. -/
theorem lt_of_mem_ancestors {a p : RelPath} (h : a ∈ p.ancestors) : a < p := by
  induction p with
  | root => simp at h
  | child p n ih =>
    obtain ⟨hp, ha⟩ := mem_ancestors_child.mp h
    have hlt : p < child p n := by
      rw [lt_iff_render, render_child hp]
      exact lt_append_cons _ _ _
    rcases ha with rfl | ha
    · exact hlt
    · exact lt_trans (ih ha) hlt

/-! ## Everything beneath a folder, by its string prefix -/

/-- The string every path beneath `p` starts with. -/
def slash (p : RelPath) : List Char := p.render ++ ['/']

theorem slash_prefix_child {a p : RelPath} {n : Name} (hp : p ≠ root) :
    a.slash <+: (child p n).render ↔ a = p ∨ a.slash <+: p.render := by
  rw [render_child hp, slash]
  constructor
  · rintro ⟨t, ht⟩
    by_cases hslash : '/' ∈ t
    · right
      -- the last separator lies beyond the prefix, so the prefix lies in the folder's string
      obtain ⟨v, u, huv, hv⟩ := List.eq_append_cons_of_mem (List.mem_reverse.mpr hslash)
      have ht' : t = u.reverse ++ '/' :: v.reverse := by
        have := congrArg List.reverse huv
        simpa using this
      have h1 : (a.render ++ '/' :: u.reverse) ++ '/' :: v.reverse = p.render ++ '/' :: n.1 := by
        rw [← ht, ht']; simp
      exact ⟨u.reverse, by rw [← (append_slash_inj (by simpa using hv) n.2.2 h1).1]; simp⟩
    · left
      have h1 : a.render ++ '/' :: t = p.render ++ '/' :: n.1 := by simpa using ht
      exact render_injective (append_slash_inj hslash n.2.2 h1).1
  · rintro (rfl | ⟨t, ht⟩)
    · exact ⟨n.1, by simp⟩
    · exact ⟨t ++ '/' :: n.1, by rw [← ht]; simp⟩

/-- The strings that start with a folder's string and a separator name what lies beneath it. -/
theorem slash_prefix_iff {a p : RelPath} :
    a.slash <+: p.render ↔ a ∈ p.ancestors := by
  induction p with
  | root => simp [render, slash, List.prefix_nil]
  | child p n ih =>
    by_cases hp : p = root
    · subst hp
      simp only [mem_ancestors_child, ne_eq, not_true_eq_false, false_and, iff_false]
      rintro ⟨t, ht⟩
      exact n.2.2 (by simp only [render] at ht; rw [← ht]; simp [slash])
    · rw [slash_prefix_child hp, ih, mem_ancestors_child, AtOrUnder]
      simp [hp, eq_comm]

/-- Between a prefix and a string that starts with it every string starts with it. -/
theorem prefix_of_le_of_le {w k l : List Char} (hwk : w ≤ k) (hkl : k ≤ l) (hl : w <+: l) :
    w <+: k := by
  induction w generalizing k l with
  | nil => exact List.nil_prefix
  | cons c w ih =>
    obtain ⟨t, rfl⟩ := hl
    cases k with
    | nil => exact absurd hwk (not_le_of_gt List.Lex.nil)
    | cons d k =>
      simp only [List.cons_append, ← not_lt, List.cons_lt_cons_iff, not_or, not_and] at hwk hkl
      obtain rfl : c = d := le_antisymm (not_lt.mp hwk.1) (not_lt.mp hkl.1)
      exact List.cons_prefix_cons.mpr
        ⟨rfl, ih (not_lt.mp (hwk.2 rfl)) (not_lt.mp (hkl.2 rfl)) ⟨t, rfl⟩⟩

theorem le_of_prefix {w l : List Char} (h : w <+: l) : w ≤ l := by
  obtain ⟨t, rfl⟩ := h
  cases t with
  | nil => simp
  | cons c t => exact le_of_lt (lt_append_cons w c t)

/-- The entries beneath a folder: the map read from `p/` on, while its keys start with `p/`. -/
def rangeBeneath {ν : Type} (entries : Std.TreeMap RelPath ν) (p : RelPath) : List (RelPath × ν) :=
  (entries.toList.filter fun entry => decide (p.slash ≤ entry.1.render)).takeWhile
    fun entry => p.slash.isPrefixOf entry.1.render

theorem pairwise_lt_toList {ν : Type} (entries : Std.TreeMap RelPath ν) :
    entries.toList.Pairwise fun a b => a.1 < b.1 := by
  refine entries.ordered_keys_toList.imp ?_
  intro a b h
  exact compare_lt_iff_lt.mp h

theorem mem_rangeBeneath {ν : Type} {entries : Std.TreeMap RelPath ν} {p : RelPath}
    {entry : RelPath × ν} :
    entry ∈ rangeBeneath entries p ↔ entry ∈ entries.toList ∧ p ∈ entry.1.ancestors := by
  have hsorted := (pairwise_lt_toList entries).filter
    fun entry => decide (p.slash ≤ entry.1.render)
  rw [rangeBeneath, Sorted.mem_takeWhile hsorted]
  · simp only [List.mem_filter, decide_eq_true_eq, List.isPrefixOf_iff_prefix, slash_prefix_iff]
    constructor
    · rintro ⟨⟨h, _⟩, hp⟩; exact ⟨h, hp⟩
    · rintro ⟨h, hp⟩; exact ⟨⟨h, le_of_prefix (slash_prefix_iff.mpr hp)⟩, hp⟩
  · intro a ha b _ hab hb
    simp only [List.mem_filter, decide_eq_true_eq, List.isPrefixOf_iff_prefix] at ha hb ⊢
    exact prefix_of_le_of_le ha.2 (le_of_lt hab) hb

theorem mem_insertAll {l : List RelPath} {folds : Std.TreeSet RelPath} {p : RelPath} :
    p ∈ l.foldl Std.TreeSet.insert folds ↔ p ∈ l ∨ p ∈ folds := by
  induction l generalizing folds with
  | nil => simp
  | cons a l ih =>
    rw [List.foldl_cons, ih, Std.TreeSet.mem_insert, compare_eq_iff_eq, List.mem_cons,
      eq_comm (a := a)]
    tauto

end Path

/-! ## The orders actions are carried out in -/

/-- The order of deletions and renames: what is deeper goes first. -/
def DeepestFirst (p q : RelPath) : Prop := q.depth < p.depth ∨ q.depth = p.depth ∧ p ≤ q

/-- The order of creations: a folder before what it holds. -/
def ShallowestFirst (p q : RelPath) : Prop := p.depth < q.depth ∨ p.depth = q.depth ∧ p ≤ q

instance (p q : RelPath) : Decidable (DeepestFirst p q) := inferInstanceAs (Decidable (_ ∨ _))

instance (p q : RelPath) : Decidable (ShallowestFirst p q) := inferInstanceAs (Decidable (_ ∨ _))

theorem deepestFirst_total (p q : RelPath) : DeepestFirst p q ∨ DeepestFirst q p := by
  simp only [DeepestFirst]
  rcases lt_trichotomy p.depth q.depth with h | h | h
  · exact .inr (.inl h)
  · rcases le_total p q with hle | hle
    · exact .inl (.inr ⟨h.symm, hle⟩)
    · exact .inr (.inr ⟨h, hle⟩)
  · exact .inl (.inl h)

theorem deepestFirst_trans {p q r : RelPath} (h : DeepestFirst p q) (h' : DeepestFirst q r) :
    DeepestFirst p r := by
  rcases h with h | ⟨h, hle⟩ <;> rcases h' with h' | ⟨h', hle'⟩
  · exact .inl (h'.trans h)
  · exact .inl (h' ▸ h)
  · exact .inl (h ▸ h')
  · exact .inr ⟨h'.trans h, hle.trans hle'⟩

theorem shallowestFirst_total (p q : RelPath) : ShallowestFirst p q ∨ ShallowestFirst q p := by
  simp only [ShallowestFirst]
  rcases lt_trichotomy p.depth q.depth with h | h | h
  · exact .inl (.inl h)
  · rcases le_total p q with hle | hle
    · exact .inl (.inr ⟨h, hle⟩)
    · exact .inr (.inr ⟨h.symm, hle⟩)
  · exact .inr (.inl h)

theorem shallowestFirst_trans {p q r : RelPath} (h : ShallowestFirst p q)
    (h' : ShallowestFirst q r) : ShallowestFirst p r := by
  rcases h with h | ⟨h, hle⟩ <;> rcases h' with h' | ⟨h', hle'⟩
  · exact .inl (h.trans h')
  · exact .inl (h' ▸ h)
  · exact .inl (h ▸ h')
  · exact .inr ⟨h.trans h', hle.trans hle'⟩

/-! ## Unicode normalisation and case -/

/-- Unicode normalisation (NFC) and lower-casing of one name. -/
class Unicode where
  nfc : Name → Name
  lower : Name → Name
  nfc_nfc : ∀ n, nfc (nfc n) = nfc n
  lower_lower : ∀ n, lower (lower n) = lower n

section Fold

variable [Unicode]

/-- The name two spellings share when they differ only by case or normalisation. -/
def foldName (n : Name) : Name := Unicode.lower (Unicode.nfc n)

/-- A path in NFC. -/
def nfc (p : RelPath) : RelPath := p.map Unicode.nfc

/-- The key two spellings share when a Synology Drive client cannot hold both: case folded, after
Unicode normalisation. -/
def portableFold (p : RelPath) : RelPath := p.map foldName

@[simp] theorem foldName_nfc (n : Name) : foldName (Unicode.nfc n) = foldName n := by
  simp [foldName, Unicode.nfc_nfc]

@[simp] theorem nfc_nfc (p : RelPath) : nfc (nfc p) = nfc p := by
  induction p with
  | root => rfl
  | child p n ih => simpa [nfc, Unicode.nfc_nfc] using ih

@[simp] theorem portableFold_nfc (p : RelPath) : portableFold (nfc p) = portableFold p := by
  induction p with
  | root => rfl
  | child p n ih => simpa [nfc, portableFold] using ih

theorem portableFold_eq_of_nfc_eq {p q : RelPath} (h : nfc p = nfc q) :
    portableFold p = portableFold q := by
  rw [← portableFold_nfc p, h, portableFold_nfc]

/-- Whether two spellings of one fold differ in their own name, rather than only in a folder above
them, whose own class decides for them. -/
def namesDiffer (left right : RelPath) : Bool :=
  left.name?.map Unicode.nfc != right.name?.map Unicode.nfc

end Fold

/-! ## Normalisation and case of single characters -/

/-- The NFC form of the characters that have one of their own: the Kelvin and the Angstrom sign. -/
def composeChar (c : Char) : Char :=
  if c = '\u212a' then 'K' else if c = '\u212b' then '\u00c5' else c

theorem composeChar_composeChar (c : Char) : composeChar (composeChar c) = composeChar c := by
  simp only [composeChar]
  split
  · decide
  · split
    · decide
    · simp_all

/-- An upper-case letter is moved by one offset, and every other character is left alone. -/
theorem toLower_cases (c : Char) :
    ('A'.val ≤ c.val ∧ c.val ≤ 'Z'.val) ∧ c.toLower.val = c.val + ('a'.val - 'A'.val) ∨
      ¬('A'.val ≤ c.val ∧ c.val ≤ 'Z'.val) ∧ c.toLower = c := by
  by_cases h : 'A'.val ≤ c.val ∧ c.val ≤ 'Z'.val
  · exact .inl ⟨h, congrArg Char.val (dif_pos h)⟩
  · exact .inr ⟨h, dif_neg h⟩

theorem toLower_toLower (c : Char) : c.toLower.toLower = c.toLower := by
  rcases toLower_cases c with ⟨h, hval⟩ | ⟨_, hc⟩
  · rcases toLower_cases c.toLower with ⟨h', _⟩ | ⟨_, hc'⟩
    · rw [hval] at h'
      simp only [UInt32.le_iff_toNat_le, UInt32.toNat_add] at h h'
      simp at h h'
      omega
    · exact hc'
  · rw [hc]; exact hc

theorem composeChar_ne_slash {c : Char} (h : c ≠ '/') : composeChar c ≠ '/' := by
  simp only [composeChar]
  split
  · decide
  · split
    · decide
    · exact h

theorem toLower_ne_slash {c : Char} (h : c ≠ '/') : c.toLower ≠ '/' := by
  intro heq
  rcases toLower_cases c with ⟨hup, hval⟩ | ⟨_, hc⟩
  · rw [heq] at hval
    have hval := congrArg UInt32.toNat hval
    simp only [UInt32.le_iff_toNat_le, UInt32.toNat_add] at hup hval
    simp at hup hval
    omega
  · exact h (hc ▸ heq)

/-- A function on characters, applied to a name. -/
def mapName (f : Char → Char) (hf : ∀ c, c ≠ '/' → f c ≠ '/') (n : Name) : Name :=
  ⟨n.1.map f, by simpa using n.2.1, by
    simp only [List.mem_map, not_exists, not_and]
    intro c hc
    exact hf c fun h => n.2.2 (h ▸ hc)⟩

/-- Normalisation and case on the names spelled with ASCII and the Kelvin and Angstrom signs. -/
@[reducible] def charwise : Unicode where
  nfc := mapName composeChar fun _ => composeChar_ne_slash
  lower := mapName Char.toLower fun _ => toLower_ne_slash
  nfc_nfc n := Subtype.ext (by
    simp only [mapName, List.map_map]
    exact List.map_congr_left fun c _ => composeChar_composeChar c)
  lower_lower n := Subtype.ext (by
    simp only [mapName, List.map_map]
    exact List.map_congr_left fun c _ => toLower_toLower c)

/-! ## Names a destination refuses -/

def dsmManagedNames : List (List Char) :=
  ["#recycle", "#snapshot", "@eaDir", "@tmp", "@sharebin", "@apphome", "@appdata", "@appstore",
    "@apptemp", "@appconf", ".SynologyWorkingDirectory"].map String.toList

def isDsmManagedName (n : Name) : Bool := dsmManagedNames.contains n.1

/-- Whether a component of the path is a directory DSM administers. -/
def isDsmManaged (p : RelPath) : Bool := p.components.any isDsmManagedName

/-- A path as it is refused, and why. -/
structure UnsafePath where
  path : String
  reason : String
deriving DecidableEq, Repr

/-- The string of a relative path. -/
def spelled (p : RelPath) : String := String.ofList p.render

/-- The string of an absolute path. -/
def absolute (p : RelPath) : String := String.ofList ('/' :: p.render)

def isControl (c : Char) : Bool := c.toNat < 32 || (127 ≤ c.toNat && c.toNat < 160)

/-- The characters `str::trim` takes off. -/
def isWhitespace (c : Char) : Bool :=
  let n := c.toNat
  decide (9 ≤ n ∧ n ≤ 13) || decide (0x2000 ≤ n ∧ n ≤ 0x200a) ||
    [0x20, 0x85, 0xa0, 0x1680, 0x2028, 0x2029, 0x202f, 0x205f, 0x3000].any fun w => decide (w = n)

def trim (s : List Char) : List Char :=
  ((s.dropWhile isWhitespace).reverse.dropWhile isWhitespace).reverse

/-- The checks of a relative path that a list of non-empty names without separators can fail. -/
def validateRelative (value : RelPath) : Except UnsafePath Unit :=
  if value.components.any (fun part => part.1.contains '\\') then
    .error ⟨spelled value, "relative path is not normalized"⟩
  else if value.components.any (fun part => part.1.any isControl) then
    .error ⟨spelled value, "control characters are not allowed"⟩
  else if value.components.any (fun part => part.1 = ['.'] || part.1 = ['.', '.']) then
    .error ⟨spelled value, "relative path contains an unsafe component"⟩
  else .ok ()

def windowsReserved : List (List Char) :=
  ["CON", "PRN", "AUX", "NUL", "COM1", "COM2", "COM3", "COM4", "COM5", "COM6", "COM7", "COM8",
    "COM9", "LPT1", "LPT2", "LPT3", "LPT4", "LPT5", "LPT6", "LPT7", "LPT8", "LPT9"].map
      String.toList

/-- The length of a name in UTF-8. -/
def utf8Len (s : List Char) : Nat := s.foldl (fun n c => n + c.utf8Size) 0

def componentIssue (component : List Char) : Option String :=
  if component.length > 255 then
    some "a path component exceeds Synology Drive's 255-character limit"
  else if utf8Len component > 255 then
    some ("a path component is " ++ toString (utf8Len component) ++
      " bytes in UTF-8, over the NAS filesystem's 255-byte name limit")
  else if component.head? = some '~' then
    some "names beginning with ~ are not synchronized by Synology Drive"
  else if component.any isControl then
    some "name contains a terminal-unsafe control character"
  else if component.any (fun c => ['*', ':', '?', '\"', '<', '>', '|'].contains c) then
    some "name contains characters unsupported by Windows Synology Drive clients"
  else if component.getLast? = some '.' || component.getLast? = some ' ' then
    some "name ends with a dot or space and is not Windows-compatible"
  else if windowsReserved.contains ((component.takeWhile (· != '.')).map Char.toUpper) then
    some "name is reserved by Windows and cannot sync portably"
  else none

/-- Why Synology Drive would not hold a path, its first reason. -/
def drivePathIssue (path : RelPath) : Option String :=
  if path.render.length > 247 then
    some "path exceeds Synology Drive's 247-character Windows compatibility limit"
  else path.components.findSome? fun component => componentIssue component.1

/-! ## The destination -/

/-- A destination folder, by its absolute path: a shared folder, or a folder in one. -/
structure RemoteRoot where
  path : RelPath
  path_ne_root : path ≠ .root
deriving DecidableEq, Repr

namespace RemoteRoot

def shareName (root : RemoteRoot) : Option Name := root.path.components.head?

/-- Whether the destination is a whole shared folder. -/
def isShare (root : RemoteRoot) : Bool := root.path.depth == 1

/-- The absolute path of a relative one below the destination. -/
def join (root : RemoteRoot) (relative : RelPath) : Except UnsafePath RelPath := do
  validateRelative relative
  let joined := root.path.append relative
  match drivePathIssue joined with
  | some reason => .error ⟨absolute joined, reason⟩
  | none => .ok joined

theorem join_eq {root : RemoteRoot} {relative joined : RelPath}
    (h : root.join relative = .ok joined) : joined = root.path.append relative := by
  simp only [join, bind, Except.bind] at h
  split at h
  · cases h
  · split at h
    · cases h
    · cases h; rfl

end RemoteRoot

/-- The folder and the name of an absolute path, which has to lie in a shared folder. -/
def parentAndName (remote : RelPath) : Except UnsafePath (RelPath × Name) :=
  match remote with
  | .child (.child p m) n =>
    if n.1 = ['.'] || n.1 = ['.', '.'] then
      .error ⟨absolute remote, "remote path has an invalid final component"⟩
    else .ok (.child p m, n)
  | .child .root _ => .error ⟨absolute remote, "remote path has an invalid final component"⟩
  | .root => .error ⟨absolute remote, "remote path has no parent"⟩

end DriveSync
