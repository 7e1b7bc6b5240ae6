import DriveSync.Lib.Windows
import DriveSync.Path

/-!
# DriveSync.Walk.Listing

One directory of the NAS, read page by page. A pass is judged by two things it can see: whether the
`total` a page claims moved, and whether as many entries came as the first page claimed. An entry
removed before the offset and another added anywhere leave both alone and shift every entry between
them by one place, so a pass judged whole can lack an entry that was there all along.

* `listDirectoryPass`, `listDirectory`: what the client does.
* `listDirectoryPass_served`: what a pass over a sequence of directory states returns.
* `listing_complete_iff`: when it keeps its promise.
-/

namespace DriveSync

open Windows (window length_window)

/-! ## What a request to DSM can answer -/

inductive ApiError where
  | api (api operation : String) (code : Int) (description : String)
  | invalidResponse (operation message : String)
  | unsafeRemotePath (path : List Char) (reason : String)
  | remoteEscape (path : List Char)
  | remoteMountRoot (path : List Char) (mountType : String)
  | remoteLinkInScope (path : List Char) (cause : String)
  | message (text : String)
  | cancelled
  | transport (text : String)
deriving DecidableEq, Repr

def ApiError.apiCode : ApiError → Option Int
  | api _ _ code _ => some code
  | _ => none

def quoteText (text : List Char) : String := (String.ofList text).quote

/-- Attach the folder a failed listing was for. -/
def namingListedFolder (folder : List Char) : ApiError → ApiError
  | .api api operation code description =>
    .api api operation code (description ++ " (listing " ++ quoteText folder ++ ")")
  | .invalidResponse operation message =>
    .invalidResponse operation (message ++ " (listing " ++ quoteText folder ++ ")")
  | other => other

structure RemoteAdditionalWire where
  size : Option Nat
  mtime : Option Int
  mountPointType : Option String
  realPath : Option (List Char)
deriving DecidableEq, Repr

/-- An entry as DSM sends it. -/
structure RemoteItemWire where
  path : List Char
  name : Option (List Char)
  isdir : Option Bool
  code : Option Int
  additional : Option RemoteAdditionalWire
deriving DecidableEq, Repr

/-- An entry whose shape has been checked. -/
structure RemoteItem where
  path : List Char
  name : List Char
  isdir : Bool
  additional : Option RemoteAdditionalWire
deriving DecidableEq, Repr

/-- The texts DSM's codes are shown with. -/
abbrev Descriptions := String → Int → Option String

/-- A per-entry status is the error it stands for; an entry DSM describes has a name and a kind. -/
def RemoteItemWire.intoItem (describe : Descriptions) (api method : String)
    (item : RemoteItemWire) : Except ApiError RemoteItem :=
  match item.code.filter (· ≠ 0) with
  | some code =>
    .error (.api api method code (((describe api code).map (": " ++ ·)).getD ""))
  | none =>
    match item.name, item.isdir with
    | some name, some isdir => .ok ⟨item.path, name, isdir, item.additional⟩
    | none, some _ =>
      .error (.invalidResponse (api ++ "." ++ method) "entry described no name")
    | some _, none =>
      .error (.invalidResponse (api ++ "." ++ method) "entry described no isdir")
    | none, none =>
      .error (.invalidResponse (api ++ "." ++ method) "entry described no name or isdir")

structure ListData where
  total : Nat
  files : List RemoteItemWire
deriving DecidableEq, Repr

/-- What one pass over a directory meets: whether the run is cancelled before its `k`-th page, and
what DSM answers to the request of that page at an offset. -/
structure Pages where
  cancelled : Nat → Bool
  list : (request offset limit : Nat) → Except ApiError (Option ListData)

/-! ## Reading a directory -/

/-- One pass over a directory's pages, with the evidence for whether it saw the whole directory. -/
structure DirectoryListing where
  items : List RemoteItem
  declared : Nat
  changedTo : Option Nat
deriving DecidableEq, Repr

/-- Whether a pass can be trusted as the complete directory. -/
def DirectoryListing.isWhole (listing : DirectoryListing) : Bool :=
  listing.changedTo.isNone && listing.items.length == listing.declared

def listPageSize : Nat := 500

def listOperation : String := "SYNO.FileStation.List.list"

section Pass

variable (describe : Descriptions) (folder : List Char) (limit : Nat) (pages : Pages)

/-- The request of one page. -/
def requestPage (request offset : Nat) : Except ApiError ListData :=
  if pages.cancelled request then .error .cancelled
  else
    match pages.list request offset limit with
    | .error e => .error (namingListedFolder folder e)
    | .ok none => .error (.invalidResponse listOperation
        ("successful response contained no directory data for " ++ quoteText folder))
    | .ok (some data) => .ok data

/-- The loop over the pages: the offset moves by what came, so the pass ends. -/
def passLoop (request offset declared : Nat) (output : List RemoteItem) :
    Except ApiError DirectoryListing :=
  match requestPage folder limit pages request offset with
  | .error e => .error e
  | .ok data =>
    if _ : offset ≠ 0 ∧ data.total ≠ declared then
      -- what is read from here on belongs to another state of the directory
      .ok ⟨output, declared, some data.total⟩
    else
      match data.files.mapM (RemoteItemWire.intoItem describe "SYNO.FileStation.List" "list") with
      | .error e => .error e
      | .ok items =>
        let declared' := if offset = 0 then data.total else declared
        if _ : data.total ≤ offset + data.files.length then
          .ok ⟨output ++ items, declared', none⟩
        else if _ : data.files.length = 0 then .ok ⟨output ++ items, declared', none⟩
        else passLoop (request + 1) (offset + data.files.length) declared' (output ++ items)
termination_by (if offset = 0 then 1 else 0, declared - offset)
decreasing_by
  by_cases h0 : offset = 0
  · subst h0
    exact Prod.Lex.left _ _ (by rw [if_neg (by omega), if_pos rfl]; omega)
  · simp only [h0, if_false, dite_false]
    rw [if_neg (by omega)]
    exact Prod.Lex.right _ (by omega)

def listDirectoryPass : Except ApiError DirectoryListing :=
  passLoop describe folder limit pages 0 0 0 []

end Pass

structure DirectoryRead where
  items : List RemoteItem
  whole : Bool
deriving DecidableEq, Repr

/-- Read every page of one directory, and once more where the pages disagreed. -/
def listDirectory (describe : Descriptions) (folder : List Char) (pass : Nat → Pages) :
    Except ApiError DirectoryRead := do
  let first ← listDirectoryPass describe folder listPageSize (pass 0)
  if first.isWhole then return ⟨first.items, true⟩
  let second ← listDirectoryPass describe folder listPageSize (pass 1)
  if second.isWhole then return ⟨second.items, true⟩
  return ⟨second.items, false⟩

/-! ## A directory that changes while it is read -/

/-- The entry as DSM sends it. -/
def RemoteItem.wire (item : RemoteItem) : RemoteItemWire :=
  ⟨item.path, some item.name, some item.isdir, none, item.additional⟩

theorem intoItem_wire (describe : Descriptions) (api method : String) (item : RemoteItem) :
    item.wire.intoItem describe api method = .ok item := rfl

theorem mapM_wire (describe : Descriptions) (api method : String) (items : List RemoteItem) :
    (items.map RemoteItem.wire).mapM (RemoteItemWire.intoItem describe api method) = .ok items := by
  induction items with
  | nil => rfl
  | cons item items ih =>
    rw [List.map_cons, List.mapM_cons, intoItem_wire, ih]
    rfl

variable {κ : Type} [LinearOrder κ] {key : List Char → κ}

/-- A state of a directory: its entries in the order DSM sorts their names by. -/
structure Folder (key : List Char → κ) where
  entries : List RemoteItem
  sorted : entries.Pairwise fun a b => key a.name < key b.name

namespace Folder

def names (folder : Folder key) : List (List Char) := folder.entries.map (·.name)

/-- How many entries sort before a name. -/
def before (folder : Folder key) (name : List Char) : Nat :=
  folder.entries.countP fun e => decide (key e.name < key name)

theorem nodup_names (folder : Folder key) : folder.names.Nodup := by
  rw [names, List.Nodup, List.pairwise_map]
  exact folder.sorted.imp fun h heq => absurd h (by rw [heq]; exact lt_irrefl _)

theorem exists_split {folder : Folder key} {name : List Char} (h : name ∈ folder.names) :
    ∃ front back, folder.names = front ++ name :: back ∧ front.length = folder.before name := by
  obtain ⟨e, he, rfl⟩ := List.mem_map.mp h
  obtain ⟨front, back, hsplit⟩ := List.append_of_mem he
  refine ⟨front.map (·.name), back.map (·.name), by rw [names, hsplit]; simp, ?_⟩
  have hsorted := folder.sorted
  rw [hsplit] at hsorted
  obtain ⟨_, hback, hcross⟩ := List.pairwise_append.mp hsorted
  have hfront : front.countP (fun a => decide (key a.name < key e.name)) = front.length := by
    rw [List.countP_eq_length]
    intro a ha
    simpa using hcross a ha e (.head _)
  have hrest : back.countP (fun a => decide (key a.name < key e.name)) = 0 := by
    rw [List.countP_eq_zero]
    intro a ha
    simpa using ((List.pairwise_cons.mp hback).1 a ha).le
  rw [before, hsplit, List.countP_append, List.countP_cons, hfront, hrest]
  simp

end Folder

/-- The pages of a directory that is `states k` when page `k` is asked for: what lies between the
offset and the limit, with the number of entries there then are. -/
def served (states : Nat → Folder key) : Pages where
  cancelled _ := false
  list request offset limit := .ok (some
    ⟨(states request).entries.length,
      (((states request).entries.drop offset).take limit).map RemoteItem.wire⟩)

section Served

variable (describe : Descriptions) (folder : List Char) (states : Nat → Folder key) (limit : Nat)

/-- How many pages a pass asks for while the first total stands. -/
def pageCount : Nat := ((states 0).entries.length + limit - 1) / limit

/-- The total page `k` claims is the one the first page claimed. -/
def SameTotal (k : Nat) : Prop := (states k).entries.length = (states 0).entries.length

variable {limit}

theorem lt_pageCount (hlimit : 0 < limit) {k : Nat} :
    k < pageCount states limit ↔ k * limit < (states 0).entries.length := by
  rw [pageCount, Nat.lt_iff_add_one_le, Nat.le_div_iff_mul_le hlimit, Nat.succ_mul]
  omega

/-- What a pass over a sequence of directory states returns: it ends at the first total that is
another one, and else it has read every page of the first total. -/
theorem passLoop_served (hlimit : 0 < limit) {k declared : Nat}
    (hk : k ≠ 0 → k < pageCount states limit ∧ declared = (states 0).entries.length) :
    ∃ listing, passLoop describe folder limit (served states) k (k * limit) declared
        (Windows.read limit (fun k => (states k).entries) k) = .ok listing ∧
      listing.declared = (states 0).entries.length ∧
      (listing.changedTo = none →
        (∀ j, k ≤ j → j < pageCount states limit → SameTotal states j) ∧
        listing.items =
          Windows.read limit (fun k => (states k).entries) (pageCount states limit)) ∧
      ((∀ j, k ≤ j → j < pageCount states limit → SameTotal states j) →
        listing.changedTo = none) := by
  -- by the pages left to ask for
  induction hleft : pageCount states limit - k using Nat.strong_induction_on
    generalizing k declared with | _ left ih =>
  have hpage := length_window limit (states k).entries k
  have hcount : pageCount states limit = 0 ↔ (states 0).entries.length = 0 := by
    have := lt_pageCount states hlimit (k := 0)
    omega
  rw [passLoop, requestPage]
  simp only [served, Bool.false_eq_true, if_false, mapM_wire, List.length_map]
  by_cases hmoved : k * limit ≠ 0 ∧ (states k).entries.length ≠ declared
  · have hk0 : k ≠ 0 := by rintro rfl; simp at hmoved
    obtain ⟨hlt, rfl⟩ := hk hk0
    rw [dif_pos hmoved]
    exact ⟨_, rfl, rfl, fun h => absurd h (by simp),
      fun h => absurd (h k (Nat.le_refl k) hlt) hmoved.2⟩
  · rw [dif_neg hmoved]
    have hsame : SameTotal states k := by
      by_cases hk0 : k = 0
      · rw [hk0]; rfl
      · have hoff : k * limit ≠ 0 := Nat.mul_ne_zero hk0 (by omega)
        show (states k).entries.length = _
        rw [← (hk hk0).2]
        exact not_not.mp fun h => hmoved ⟨hoff, h⟩
    have hdeclared : (if k * limit = 0 then (states k).entries.length else declared) =
        (states 0).entries.length := by
      split
      · exact hsame
      · rename_i hoff
        exact (hk fun h => hoff (by simp [h])).2
    have hread : Windows.read limit (fun k => (states k).entries) k ++
        ((states k).entries.drop (k * limit)).take limit =
          Windows.read limit (fun k => (states k).entries) (k + 1) :=
      (Windows.read_succ limit (fun k => (states k).entries) k).symm
    have hlength : (((states k).entries.drop (k * limit)).take limit).length =
        min limit ((states 0).entries.length - k * limit) := by rw [← hsame]; exact hpage
    rw [hdeclared, hread, hlength, hsame]
    have hnext := lt_pageCount states hlimit (k := k + 1)
    have hthis := lt_pageCount states hlimit (k := k)
    have hmul : (k + 1) * limit = k * limit + limit := Nat.succ_mul k limit
    by_cases hlast : (states 0).entries.length ≤
        k * limit + min limit ((states 0).entries.length - k * limit)
    · rw [dif_pos hlast]
      refine ⟨_, rfl, rfl, fun _ => ⟨fun j hj hj' => ?_, ?_⟩, fun _ => rfl⟩
      · obtain rfl : j = k := by omega
        exact hsame
      · show Windows.read limit _ (k + 1) = _
        by_cases h0 : (states 0).entries.length = 0
        · obtain rfl : k = 0 := by
            by_contra hk0
            have := (hk hk0).1
            omega
          have hnil : (states 0).entries = [] := List.length_eq_zero_iff.mp h0
          rw [Windows.read_succ, hcount.mpr h0]
          simp [Windows.read, window, hnil]
        · congr 1; omega
    · rw [dif_neg hlast, dif_neg (by omega)]
      have hfull : k * limit + min limit ((states 0).entries.length - k * limit) =
          (k + 1) * limit := by omega
      rw [hfull]
      obtain ⟨listing, hpass, hdecl, hwhole, hnone⟩ := ih (pageCount states limit - (k + 1))
        (by omega) (k := k + 1) (fun _ => ⟨by omega, rfl⟩) rfl
      refine ⟨listing, hpass, hdecl, fun h => ⟨fun j hj hj' => ?_, (hwhole h).2⟩,
        fun h => hnone fun j hj => h j (by omega)⟩
      rcases Nat.eq_or_lt_of_le hj with rfl | hj
      · exact hsame
      · exact (hwhole h).1 j hj hj'

theorem listDirectoryPass_served (hlimit : 0 < limit) :
    ∃ listing, listDirectoryPass describe folder limit (served states) = .ok listing ∧
      (listing.isWhole = true ↔ ∀ k < pageCount states limit, SameTotal states k) ∧
      (listing.isWhole = true → listing.items =
        Windows.read limit (fun k => (states k).entries) (pageCount states limit)) := by
  obtain ⟨listing, hpass, hdeclared, hwhole, hnone⟩ :=
    passLoop_served describe folder states hlimit (k := 0) (by exact fun h => absurd rfl h)
  rw [Nat.zero_mul] at hpass
  refine ⟨listing, hpass, ⟨fun h k hk => ?_, fun h => ?_⟩, fun h => ?_⟩
  · simp only [DirectoryListing.isWhole, Bool.and_eq_true, Option.isNone_iff_eq_none] at h
    exact (hwhole h.1).1 k (Nat.zero_le k) hk
  · have hchanged := hnone fun j _ hj => h j hj
    have hend := lt_pageCount states hlimit (k := pageCount states limit)
    have hlength := Windows.length_read limit (fun k => (states k).entries)
      (pageCount states limit) h
    simp only [DirectoryListing.isWhole, hchanged, (hwhole hchanged).2, hlength, hdeclared,
      Option.isNone_none, Bool.true_and, beq_iff_eq]
    omega
  · simp only [DirectoryListing.isWhole, Bool.and_eq_true, Option.isNone_iff_eq_none] at h
    exact (hwhole h.1).2

/-! ## What a whole listing promises -/

variable (limit)

/-- A state that the pass asks a page of, while the total stands. -/
def Asked (k : Nat) : Prop := k = 0 ∨ k < pageCount states limit

/-- The entry is there at every page of the pass. -/
def Throughout (name : List Char) : Prop := ∀ k, Asked states limit k → name ∈ (states k).names

/-- A listing reported whole has every entry that was there throughout, once; and of a directory
that does not change, the pass is whole and has its entries. -/
structure Complete : Prop where
  present : ∀ listing, listDirectoryPass describe folder limit (served states) = .ok listing →
    listing.isWhole = true → ∀ name, Throughout states limit name →
      (listing.items.map (·.name)).count name = 1
  still : (∀ k, Asked states limit k → (states k).entries = (states 0).entries) →
    ∃ listing, listDirectoryPass describe folder limit (served states) = .ok listing ∧
      listing.isWhole = true ∧ listing.items = (states 0).entries

/-- Either the number of entries is another one at some page, or every entry that is there
throughout has, at exactly one page, as many entries before it as put it on that page. -/
def Undisturbed : Prop :=
  (∃ k < pageCount states limit, ¬SameTotal states k) ∨
    ∀ name, Throughout states limit name →
      ∃! k, k < pageCount states limit ∧ (states k).before name / limit = k

variable {states limit}

/-- How often a whole listing has an entry that was there throughout. -/
theorem count_names (hlimit : 0 < limit) {name : List Char} (h : Throughout states limit name) :
    ((Windows.read limit (fun k => (states k).entries) (pageCount states limit)).map
        (·.name)).count name =
      (List.range (pageCount states limit)).countP fun k =>
        decide ((states k).before name / limit = k) := by
  rw [Windows.map_read]
  exact Windows.count_read hlimit _ fun k hk =>
    ⟨(states k).nodup_names, Folder.exists_split (h k (.inr hk))⟩

theorem read_still (hlimit : 0 < limit)
    (h : ∀ k, Asked states limit k → (states k).entries = (states 0).entries) :
    Windows.read limit (fun k => (states k).entries) (pageCount states limit) =
      (states 0).entries := by
  have hconst : Windows.read limit (fun k => (states k).entries) (pageCount states limit) =
      Windows.read limit (fun _ => (states 0).entries) (pageCount states limit) := by
    simp only [Windows.read]
    refine List.flatMap_congr fun k hk => ?_
    rw [h k (.inr (List.mem_range.mp hk))]
  rw [hconst, Windows.read_const, List.take_of_length_le]
  have := lt_pageCount states hlimit (k := pageCount states limit)
  omega

/-- A whole listing is complete exactly when no entry moved past the page it was to be read on. -/
theorem listing_complete_iff (hlimit : 0 < limit) :
    Complete describe folder states limit ↔ Undisturbed states limit := by
  obtain ⟨listing, hpass, hwhole, hitems⟩ :=
    listDirectoryPass_served describe folder states hlimit
  constructor
  · intro hcomplete
    by_cases hsame : ∀ k < pageCount states limit, SameTotal states k
    · refine .inr fun name hname => ?_
      have hone := hcomplete.present listing hpass (hwhole.mpr hsame) name hname
      rw [hitems (hwhole.mpr hsame), count_names hlimit hname] at hone
      simpa using Windows.countP_range_eq_one.mp hone
    · simp only [not_forall] at hsame
      obtain ⟨k, hk, hne⟩ := hsame
      exact .inl ⟨k, hk, hne⟩
  · intro h
    refine ⟨fun listing' hpass' hw name hname => ?_, fun hstill => ⟨listing, hpass, ?_, ?_⟩⟩
    · obtain rfl : listing = listing' := by simpa [hpass] using hpass'
      have hsame := hwhole.mp hw
      rcases h with ⟨k, hk, hne⟩ | honce
      · exact absurd (hsame k hk) hne
      · rw [hitems hw, count_names hlimit hname, Windows.countP_range_eq_one]
        simpa using honce name hname
    · exact hwhole.mpr fun k hk => congrArg List.length (hstill k (.inr hk))
    · rw [hitems (hwhole.mpr fun k hk => congrArg List.length (hstill k (.inr hk))),
        read_still hlimit hstill]

/-- An entry keeps its place on every page when none before it comes or goes. -/
theorem undisturbed_of_before_eq (hlimit : 0 < limit)
    (h : ∀ k, Asked states limit k → ∀ name, Throughout states limit name →
      (states k).before name = (states 0).before name) : Undisturbed states limit := by
  refine .inr fun name hname => ?_
  have hpage : (states 0).before name / limit < pageCount states limit := by
    obtain ⟨front, back, hsplit, hfront⟩ := Folder.exists_split (hname 0 (.inl rfl))
    have hlength := congrArg List.length hsplit
    simp only [Folder.names, List.length_map, List.length_append, List.length_cons] at hlength
    rw [lt_pageCount _ hlimit]
    have := Nat.div_mul_le_self ((states 0).before name) limit
    omega
  refine ⟨_, ⟨hpage, by rw [h _ (.inr hpage) name hname]⟩, ?_⟩
  rintro k ⟨hk, hplace⟩
  rw [← hplace, h k (.inr hk) name hname]

end Served

/-! ## A folder that loses its first entry and gains a last one

The folder holds one entry more than a page; between the two page reads its first entry is removed
and another is added after the last. -/

namespace ShiftedFolder

def name (i : Nat) : List Char := [Char.ofNat (0x4e00 + i)]

def entry (i : Nat) : RemoteItem := ⟨"/share/".toList ++ name i, name i, false, none⟩

theorem name_lt {i j : Nat} (hij : i < j) (hj : j ≤ listPageSize + 1) : name i < name j := by
  have hlt : Char.ofNat (0x4e00 + i) < Char.ofNat (0x4e00 + j) := by
    rw [listPageSize] at hj
    rw [Char.ofNat, dif_pos (.inl (by omega)), Char.ofNat, dif_pos (.inl (by omega))]
    show (0x4e00 + i : Nat) < 0x4e00 + j
    omega
  exact List.Lex.rel hlt

/-- The folder from an entry on, one more than a page. -/
def fromEntry (i : Nat) (hi : i ≤ 1) : Folder (id : List Char → List Char) where
  entries := (List.range' i (listPageSize + 1)).map entry
  sorted := by
    rw [List.pairwise_map]
    refine (List.pairwise_lt_range' ..).imp_of_mem fun {a b} ha hb hab => ?_
    rw [List.mem_range'_1] at hb
    exact name_lt hab (by omega)

theorem mem_names {i j : Nat} (hi : i ≤ 1) (hij : i ≤ j) (hj : j < i + (listPageSize + 1)) :
    name j ∈ (fromEntry i hi).names := by
  rw [Folder.names, fromEntry, List.map_map, List.mem_map]
  exact ⟨j, List.mem_range'_1.mpr ⟨hij, hj⟩, rfl⟩

def states (k : Nat) : Folder (id : List Char → List Char) :=
  fromEntry (min k 1) (Nat.min_le_right k 1)

theorem window_zero : window listPageSize (states 0).entries 0 =
    (List.range' 0 listPageSize).map entry := by
  show (((List.range' 0 (listPageSize + 1)).map entry).drop (0 * listPageSize)).take listPageSize = _
  rw [Nat.zero_mul, List.drop_zero, ← List.map_take,
    List.take_range'_of_length_ge (Nat.le_succ listPageSize)]

theorem window_one : window listPageSize (states 1).entries 1 =
    (List.range' (listPageSize + 1) 1).map entry := by
  show (((List.range' 1 (listPageSize + 1)).map entry).drop (1 * listPageSize)).take listPageSize = _
  rw [Nat.one_mul, ← List.map_drop, ← List.map_take, List.drop_range', Nat.mul_one,
    Nat.add_comm 1, Nat.add_sub_cancel_left, List.take_range'_of_length_le (by decide)]

/-- The pass is judged whole and lacks the entry that moved into the page already read. -/
theorem not_complete : ¬∀ (describe : Descriptions) (folder : List Char)
    (states : Nat → Folder (id : List Char → List Char)) (limit : Nat), 0 < limit →
      Complete describe folder states limit := by
  intro h
  obtain ⟨listing, hpass, hwhole, hitems⟩ := listDirectoryPass_served (fun _ _ => none)
    "/share".toList states (show 0 < listPageSize by decide)
  have hw : listing.isWhole = true := hwhole.mpr fun k _ => by
    cases k <;> simp [SameTotal, states, fromEntry]
  have hthere : Throughout states listPageSize (name listPageSize) := by
    intro k _
    refine mem_names (Nat.min_le_right k 1) ?_ ?_
    · exact (Nat.min_le_right k 1).trans (by decide)
    · rw [listPageSize]
      omega
  have hone := (h _ _ states listPageSize (by decide)).present listing hpass hw _ hthere
  have hpages : pageCount states listPageSize = 2 := by
    simp [pageCount, states, fromEntry, listPageSize]
  have hread : listing.items.map (·.name) =
      (List.range' 0 listPageSize ++ List.range' (listPageSize + 1) 1).map name := by
    rw [hitems hw, hpages, Windows.read_succ, Windows.read_succ]
    rw [window_zero, window_one, List.map_append, List.map_append, List.map_append, List.map_map,
      List.map_map]
    rfl
  have hnone : name listPageSize ∉ listing.items.map (·.name) := by
    rw [hread, List.mem_map]
    rintro ⟨i, hi, heq⟩
    simp only [List.mem_append, List.mem_range'_1] at hi
    rcases hi with hi | hi
    · exact absurd heq (name_lt (by omega) (by omega)).ne
    · exact absurd heq (name_lt (by omega) (by omega)).ne'
  rw [List.count_eq_zero_of_not_mem hnone] at hone
  cases hone

/-- Of the folder as it stands a pass is complete. -/
theorem still_complete : Complete (fun _ _ => none) "/share".toList
    (fun _ => fromEntry 0 (Nat.zero_le 1)) listPageSize :=
  (listing_complete_iff _ _ (by decide)).mpr
    (undisturbed_of_before_eq (by decide) fun _ _ _ _ => rfl)

end ShiftedFolder

end DriveSync
