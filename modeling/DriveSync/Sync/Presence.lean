import DriveSync.Small
import DriveSync.Sync.Run

/-!
# DriveSync.Sync.Presence

Whether the source holds a path by now, asked again before a mirror deletion. Each component is
looked for in the listing of its folder, by its bytes or by the single other name that is equal to it
under normalisation.

The source is a tree of names. A folder holds a name once, but may hold several spellings of it; a
name that is not text is equal to no other.
-/

namespace DriveSync

inductive FileName where
  | text (name : Name)
  | undecodable (bytes : List UInt8)
deriving DecidableEq

inductive Node where
  | file
  | folder (names : List FileName) (distinct : names.Nodup) (child : Fin names.length → Node)

namespace Node

def names : Node → List FileName
  | file => []
  | folder names _ _ => names

/-- The entry stored under exactly this name. -/
def entryAt : Node → FileName → Option Node
  | file, _ => none
  | folder names _ child, name => (names.finIdxOf? name).map child

theorem entryAt_isSome_iff {node : Node} {name : FileName} :
    (node.entryAt name).isSome = true ↔ name ∈ node.names := by
  cases node with
  | file => simp [entryAt, names]
  | folder names distinct child =>
    rw [entryAt, Option.isSome_map, ← Option.ne_none_iff_isSome, ne_eq, List.finIdxOf?_eq_none_iff,
      not_not]
    rfl

end Node

/-- What a stat of a path answers. -/
inductive Stat where
  | found
  | notFound
  | notADirectory
  | invalidFilename
deriving DecidableEq, Repr

/-- The host a source lies on, and the source. The host may hold no file of some names at all. -/
structure Source where
  root : String
  tree : Node
  tree_ne_file : tree ≠ .file
  representable : RelPath → Bool
  refusesName : RelPath → Bool

section Presence

/-- A stat goes down by exact names. -/
def statFrom : Node → List Name → Stat
  | _, [] => .found
  | .file, _ :: _ => .notADirectory
  | .folder names distinct child, component :: rest =>
    match (Node.folder names distinct child).entryAt (.text component) with
    | none => .notFound
    | some node => statFrom node rest

def Source.symlinkMetadata (source : Source) (relative : RelPath) : Stat :=
  match statFrom source.tree relative.components with
  | .notFound => if source.refusesName relative then .invalidFilename else .notFound
  | stat => stat

theorem symlinkMetadata_cases (source : Source) (relative : RelPath) :
    (source.symlinkMetadata relative = statFrom source.tree relative.components) ∨
      (source.symlinkMetadata relative = .invalidFilename ∧ source.refusesName relative = true) := by
  rw [Source.symlinkMetadata]
  split
  · rename_i hstat
    split
    · rename_i hrefuses
      exact .inr ⟨rfl, hrefuses⟩
    · exact .inl hstat.symm
  · exact .inl rfl

theorem statFrom_ne_invalidFilename (components : List Name) :
    ∀ node : Node, statFrom node components ≠ .invalidFilename := by
  induction components with
  | nil => intro node; cases node <;> simp [statFrom]
  | cons component rest ih =>
    intro node
    cases node with
    | file => simp [statFrom]
    | folder names distinct child =>
      simp only [statFrom]
      split
      · simp
      · exact ih _

def readFailed (source : Source) (p : RelPath) : ExecError :=
  .fileIo (source.root ++ "/" ++ spelled p) .other "Not a directory"

/-- Whether no other string is equal to the path under normalisation. True of ASCII, except the
characters that other ones compose to. -/
def hasASingleNormalForm (relative : RelPath) : Bool :=
  relative.components.all fun component => component.1.all fun c =>
    decide (c.toNat < 128) && !(['K', ';', '\x60'].contains c)

variable [Unicode]

/-- The other names of a listing that are equal to a component under normalisation. -/
def equivalentTo (component : Name) : FileName → Option Name
  | .text name =>
    if name ≠ component ∧ Unicode.nfc name = Unicode.nfc component then some name else none
  | .undecodable _ => none

/-- One listing a component, down from a folder. -/
def findFrom (source : Source) : Node → RelPath → List Name → Except ExecError LocalPresence
  | _, spelling, [] => .ok (.present spelling)
  | .file, spelling, _ :: _ => .error (readFailed source spelling)
  | .folder names distinct child, spelling, component :: rest =>
    let descend (found : Name) : Except ExecError LocalPresence :=
      match (Node.folder names distinct child).entryAt (.text found) with
      | none => .ok .absent
      | some node => findFrom source node (.child spelling found) rest
    match names.contains (.text component), names.filterMap (equivalentTo component) with
    | true, [] => descend component
    | false, [found] => descend found
    | false, [] => .ok .absent
    | _, _ => .ok (.ambiguous (.child spelling component))

/-- The empty path has one empty component, which no entry has for its name. -/
def findLocalSpelling (source : Source) (relative : RelPath) : Except ExecError LocalPresence :=
  match relative with
  | .root => .ok .absent
  | .child p n => findFrom source source.tree .root (Path.child p n).components

def localPresence (source : Source) (relative : RelPath) : Except ExecError LocalPresence :=
  if !source.representable relative then .ok .unrepresentable
  else
    match source.symlinkMetadata relative with
    | .found => findLocalSpelling source relative
    | .notFound =>
      if hasASingleNormalForm relative then .ok .absent else findLocalSpelling source relative
    | .invalidFilename => .ok .unrepresentable
    | .notADirectory => .error (readFailed source relative)

/-! ## Chains of entries -/

/-- Entries lead from a node to another, under names equal to the components. -/
def Leads : Node → List Name → Node → Prop
  | node, [], last => last = node
  | node, component :: rest, last => ∃ name next, Unicode.nfc name = Unicode.nfc component ∧
      node.entryAt (.text name) = some next ∧ Leads next rest last

/-- The source holds a chain of entries for the path. -/
def Holds (tree : Node) (relative : RelPath) : Prop :=
  relative ≠ .root ∧ ∃ last, Leads tree relative.components last

/-- A folder on a chain for the path holds two names equal to the next component. -/
def Twinned (tree : Node) (components : List Name) : Prop :=
  ∃ above component rest, components = above ++ component :: rest ∧
    ∃ folder, Leads tree above folder ∧ ∃ name other, name ≠ other ∧
      FileName.text name ∈ folder.names ∧ FileName.text other ∈ folder.names ∧
      Unicode.nfc name = Unicode.nfc component ∧ Unicode.nfc other = Unicode.nfc component

/-- A chain for a part of the path ends at a file. -/
def ThroughFile (tree : Node) (components : List Name) : Prop :=
  ∃ above component rest, components = above ++ component :: rest ∧ Leads tree above .file

theorem Twinned.cons {node next : Node} {component name : Name} {rest : List Name}
    (hname : Unicode.nfc name = Unicode.nfc component)
    (hentry : node.entryAt (.text name) = some next) (h : Twinned next rest) :
    Twinned node (component :: rest) := by
  obtain ⟨above, c, below, rfl, folder, hleads, htwins⟩ := h
  exact ⟨component :: above, c, below, rfl, folder, ⟨name, next, hname, hentry, hleads⟩, htwins⟩

theorem ThroughFile.cons {node next : Node} {component name : Name} {rest : List Name}
    (hname : Unicode.nfc name = Unicode.nfc component)
    (hentry : node.entryAt (.text name) = some next) (h : ThroughFile next rest) :
    ThroughFile node (component :: rest) := by
  obtain ⟨above, c, below, rfl, hleads⟩ := h
  exact ⟨component :: above, c, below, rfl, name, next, hname, hentry, hleads⟩

theorem mem_filterMap_equivalentTo {names : List FileName} {component name : Name} :
    name ∈ names.filterMap (equivalentTo component) ↔ FileName.text name ∈ names ∧
      name ≠ component ∧ Unicode.nfc name = Unicode.nfc component := by
  rw [List.mem_filterMap]
  constructor
  · rintro ⟨entry, hmem, heq⟩
    cases entry with
    | undecodable bytes => cases heq
    | text other =>
      simp only [equivalentTo] at heq
      split at heq
      · rename_i h
        obtain rfl := Option.some.inj heq
        exact ⟨hmem, h⟩
      · cases heq
  · rintro ⟨hmem, h⟩
    exact ⟨.text name, hmem, if_pos h⟩

/-- A component is looked for in a listing: no name is equal to it, or a single one, and the search
goes down by that, or two, and the search ends. -/
theorem findFrom_cases (source : Source) {node : Node} (hnode : node ≠ .file) (spelling : RelPath)
    (component : Name) (rest : List Name) :
    ((∀ name next, Unicode.nfc name = Unicode.nfc component → node.entryAt (.text name) ≠ some next) ∧
        findFrom source node spelling (component :: rest) = .ok .absent) ∨
      (∃ found next, Unicode.nfc found = Unicode.nfc component ∧
        node.entryAt (.text found) = some next ∧
        (∀ name, FileName.text name ∈ node.names → Unicode.nfc name = Unicode.nfc component →
          name = found) ∧
        findFrom source node spelling (component :: rest) =
          findFrom source next (.child spelling found) rest) ∨
      ((∃ name other, name ≠ other ∧ FileName.text name ∈ node.names ∧
          FileName.text other ∈ node.names ∧ Unicode.nfc name = Unicode.nfc component ∧
          Unicode.nfc other = Unicode.nfc component) ∧
        findFrom source node spelling (component :: rest) =
          .ok (.ambiguous (.child spelling component))) := by
  cases node with
  | file => exact absurd rfl hnode
  | folder names distinct child =>
    have hentry : ∀ name, FileName.text name ∈ names →
        ∃ next, (Node.folder names distinct child).entryAt (.text name) = some next := fun name h =>
      Option.isSome_iff_exists.mp (Node.entryAt_isSome_iff.mpr h)
    have hmem : ∀ name next, (Node.folder names distinct child).entryAt (.text name) = some next →
        FileName.text name ∈ names := fun name next h =>
      Node.entryAt_isSome_iff.mp (Option.isSome_iff_exists.mpr ⟨next, h⟩)
    have hnodup : (names.filterMap (equivalentTo component)).Nodup := by
      refine distinct.filterMap fun a b c ha hb => ?_
      cases a <;> cases b <;> simp_all [equivalentTo]
    have hequivalent := @mem_filterMap_equivalentTo _ names component
    by_cases hexact : FileName.text component ∈ names
    · match hother : names.filterMap (equivalentTo component) with
      | [] =>
        right; left
        obtain ⟨next, hnext⟩ := hentry component hexact
        refine ⟨component, next, rfl, hnext, fun name hname hnfc => ?_, ?_⟩
        · by_contra hne
          have := hequivalent.mpr ⟨hname, hne, hnfc⟩
          rw [hother] at this
          simp at this
        · simp [findFrom, hexact, hother, hnext]
      | other :: others =>
        right; right
        obtain ⟨hname, hne, hnfc⟩ := hequivalent.mp (hother ▸ List.mem_cons_self)
        exact ⟨⟨other, component, hne, hname, hexact, hnfc, rfl⟩, by simp [findFrom, hexact, hother]⟩
    · match hother : names.filterMap (equivalentTo component) with
      | [] =>
        left
        refine ⟨fun name next hnfc hnext => ?_, by simp [findFrom, hexact, hother]⟩
        have hname := hmem name next hnext
        have := hequivalent.mpr ⟨hname, fun h => hexact (h ▸ hname), hnfc⟩
        rw [hother] at this
        simp at this
      | [found] =>
        right; left
        obtain ⟨hname, _, hnfc⟩ := hequivalent.mp (hother ▸ List.mem_cons_self)
        obtain ⟨next, hnext⟩ := hentry found hname
        refine ⟨found, next, hnfc, hnext, fun name hname hnfc => ?_, ?_⟩
        · have := hequivalent.mpr ⟨hname, fun h => hexact (h ▸ hname), hnfc⟩
          rw [hother] at this
          exact List.mem_singleton.mp this
        · simp [findFrom, hexact, hother, hnext]
      | found :: other :: others =>
        right; right
        obtain ⟨hname, _, hnfc⟩ := hequivalent.mp (hother ▸ List.mem_cons_self)
        obtain ⟨hname', _, hnfc'⟩ :=
          hequivalent.mp (hother ▸ List.mem_cons_of_mem _ List.mem_cons_self)
        refine ⟨⟨found, other, ?_, hname, hname', hnfc, hnfc'⟩, by simp [findFrom, hexact, hother]⟩
        rintro rfl
        rw [hother] at hnodup
        simp at hnodup

theorem not_leads_file {component : Name} {rest : List Name} {last : Node} :
    ¬Leads .file (component :: rest) last := by
  rintro ⟨name, next, _, hentry, _⟩
  cases hentry

/-- The search answers that a path is absent only where there is no chain for it. -/
theorem not_leads_of_findFrom_absent {source : Source} {components : List Name} :
    ∀ {node : Node} {spelling : RelPath}, findFrom source node spelling components = .ok .absent →
      ¬∃ last, Leads node components last := by
  induction components with
  | nil =>
    intro node spelling h
    cases node <;> simp [findFrom] at h
  | cons component rest ih =>
    intro node spelling h
    by_cases hfile : node = .file
    · rintro ⟨last, hleads⟩
      exact not_leads_file (hfile ▸ hleads)
    · rcases findFrom_cases source hfile spelling component rest with
        ⟨hmissing, _⟩ | ⟨found, next, _, hentry, honly, heq⟩ | ⟨_, heq⟩
      · rintro ⟨last, name, next, hnfc, hentry, _⟩
        exact hmissing name next hnfc hentry
      · rintro ⟨last, name, next', hnfc, hentry', hleads⟩
        have hname := Node.entryAt_isSome_iff.mp (Option.isSome_iff_exists.mpr ⟨next', hentry'⟩)
        obtain rfl := honly name hname hnfc
        obtain rfl := Option.some.inj (hentry.symm.trans hentry')
        exact ih (heq ▸ h) ⟨last, hleads⟩
      · rw [heq] at h
        cases h

/-- Where there is no chain for a path, the search answers that it is absent, or comes to two
spellings of a component, or to a file. -/
theorem findFrom_of_not_leads {source : Source} {components : List Name} :
    ∀ {node : Node} (spelling : RelPath), (¬∃ last, Leads node components last) →
      findFrom source node spelling components = .ok .absent ∨
        (Twinned node components ∧
          ∃ p, findFrom source node spelling components = .ok (.ambiguous p)) ∨
        (ThroughFile node components ∧
          ∃ e, findFrom source node spelling components = .error e) := by
  induction components with
  | nil =>
    intro node spelling h
    exact absurd ⟨node, rfl⟩ h
  | cons component rest ih =>
    intro node spelling h
    by_cases hfile : node = .file
    · subst hfile
      exact .inr (.inr ⟨⟨[], component, rest, rfl, rfl⟩, readFailed source spelling, rfl⟩)
    · rcases findFrom_cases source hfile spelling component rest with
        ⟨_, heq⟩ | ⟨found, next, hnfc, hentry, _, heq⟩ | ⟨htwins, heq⟩
      · exact .inl heq
      · have hnext : ¬∃ last, Leads next rest last := by
          rintro ⟨last, hleads⟩
          exact h ⟨last, found, next, hnfc, hentry, hleads⟩
        rw [heq]
        rcases ih (.child spelling found) hnext with habsent | ⟨htwins, hp⟩ | ⟨hthrough, he⟩
        · exact .inl habsent
        · exact .inr (.inl ⟨htwins.cons hnfc hentry, hp⟩)
        · exact .inr (.inr ⟨hthrough.cons hnfc hentry, he⟩)
      · exact .inr (.inl ⟨⟨[], component, rest, rfl, node, rfl, htwins⟩, _, heq⟩)

/-! ## The short cut -/

theorem throughFile_of_statFrom {components : List Name} :
    ∀ {node : Node}, statFrom node components = .notADirectory → ThroughFile node components := by
  induction components with
  | nil =>
    intro node h
    cases node <;> simp [statFrom] at h
  | cons component rest ih =>
    intro node h
    cases node with
    | file => exact ⟨[], component, rest, rfl, rfl⟩
    | folder names distinct child =>
      simp only [statFrom] at h
      split at h
      · cases h
      · rename_i next hentry
        exact (ih h).cons rfl hentry

/-- Where no other name is equal to a component, a stat that finds nothing is what the listings
would say. -/
theorem findFrom_of_statFrom {source : Source} {components : List Name}
    (hsingle : ∀ component ∈ components, ∀ name, Unicode.nfc name = Unicode.nfc component →
      name = component) :
    ∀ {node : Node} {spelling : RelPath}, statFrom node components = .notFound →
      findFrom source node spelling components = .ok .absent := by
  induction components with
  | nil =>
    intro node spelling h
    cases node <;> simp [statFrom] at h
  | cons component rest ih =>
    intro node spelling h
    have hone := hsingle component List.mem_cons_self
    by_cases hfile : node = .file
    · subst hfile
      simp [statFrom] at h
    · rcases findFrom_cases source hfile spelling component rest with
        ⟨_, heq⟩ | ⟨found, next, hnfc, hentry, _, heq⟩ | ⟨⟨name, other, hne, _, _, hnfc, hnfc'⟩, _⟩
      · exact heq
      · obtain rfl := hone found hnfc
        rw [heq]
        refine ih (fun c hc => hsingle c (List.mem_cons_of_mem _ hc)) ?_
        cases node with
        | file => exact absurd rfl hfile
        | folder names distinct child => simpa [statFrom, hentry] using h
      · exact absurd ((hone name hnfc).trans (hone other hnfc').symm) hne

/-! ## What is answered -/

/-- No string but a path that passes the test is equal to it under normalisation. -/
def SingleNormalFormSound : Prop :=
  ∀ p q : RelPath, hasASingleNormalForm p = true → nfc q = nfc p → q = p

theorem single_of_sound (hsound : SingleNormalFormSound) {relative : RelPath}
    (h : hasASingleNormalForm relative = true) {component : Name}
    (hmem : component ∈ relative.components) {name : Name}
    (hnfc : Unicode.nfc name = Unicode.nfc component) : name = component := by
  have hone : hasASingleNormalForm (.child .root component) = true := by
    simp only [hasASingleNormalForm, Path.components, List.nil_append, List.all_cons, List.all_nil,
      Bool.and_true]
    exact List.all_eq_true.mp h component hmem
  have heq : Path.child .root name = Path.child .root component :=
    hsound _ _ hone (by simp [nfc, hnfc])
  simpa using heq

theorem findLocalSpelling_child (source : Source) {relative : RelPath} (h : relative ≠ .root) :
    findLocalSpelling source relative = findFrom source source.tree .root relative.components := by
  cases relative with
  | root => exact absurd rfl h
  | child p n => rfl

theorem findLocalSpelling_absent {source : Source} {relative : RelPath}
    (h : findLocalSpelling source relative = .ok .absent) : ¬Holds source.tree relative := by
  rintro ⟨hroot, hleads⟩
  rw [findLocalSpelling_child source hroot] at h
  exact not_leads_of_findFrom_absent h hleads

theorem findLocalSpelling_of_not_holds {source : Source} {relative : RelPath}
    (h : ¬Holds source.tree relative) :
    findLocalSpelling source relative = .ok .absent ∨
      (Twinned source.tree relative.components ∧
        ∃ p, findLocalSpelling source relative = .ok (.ambiguous p)) ∨
      (ThroughFile source.tree relative.components ∧
        ∃ e, findLocalSpelling source relative = .error e) := by
  by_cases hroot : relative = .root
  · exact .inl (by rw [hroot]; rfl)
  · rw [findLocalSpelling_child source hroot]
    exact findFrom_of_not_leads .root fun hleads => h ⟨hroot, hleads⟩

/-- The short cut gives the answer of the listings. -/
theorem shortCut_eq (hsound : SingleNormalFormSound) {source : Source} {relative : RelPath}
    (hstat : source.symlinkMetadata relative = .notFound)
    (hsingle : hasASingleNormalForm relative = true) :
    findLocalSpelling source relative = .ok .absent := by
  rcases symlinkMetadata_cases source relative with h | ⟨h, _⟩
  · by_cases hroot : relative = .root
    · rw [hroot]
      rfl
    · rw [findLocalSpelling_child source hroot]
      refine findFrom_of_statFrom (fun component hmem name hnfc => ?_) (h.symm.trans hstat)
      exact single_of_sound hsound hsingle hmem hnfc
  · rw [h] at hstat
    cases hstat

/-- What is said of a path the source does or does not hold. -/
structure AnswersPresence (source : Source) (relative : RelPath) : Prop where
  sound : localPresence source relative = .ok .absent → ¬Holds source.tree relative
  complete : ¬Holds source.tree relative →
    localPresence source relative = .ok .absent ∨
      (Twinned source.tree relative.components ∧
        ∃ p, localPresence source relative = .ok (.ambiguous p)) ∨
      (ThroughFile source.tree relative.components ∧
        ∃ e, localPresence source relative = .error e) ∨
      ((source.representable relative = false ∨ source.refusesName relative = true) ∧
        localPresence source relative = .ok .unrepresentable)
  shortCut : source.symlinkMetadata relative = .notFound → hasASingleNormalForm relative = true →
    findLocalSpelling source relative = .ok .absent

/-- A path is called absent only where the source holds no chain of entries for it; where it holds
none, the path is called absent unless two spellings, a file or the host stand in the way. -/
theorem localPresence_answers (hsound : SingleNormalFormSound) (source : Source)
    (relative : RelPath) : AnswersPresence source relative := by
  have hanswer : localPresence source relative = findLocalSpelling source relative ∨
      (ThroughFile source.tree relative.components ∧
        localPresence source relative = .error (readFailed source relative)) ∨
      ((source.representable relative = false ∨ source.refusesName relative = true) ∧
        localPresence source relative = .ok .unrepresentable) := by
    rw [localPresence]
    by_cases hrep : source.representable relative = true
    · rw [if_neg (by simp [hrep])]
      cases hstat : source.symlinkMetadata relative with
      | found => exact .inl rfl
      | notFound =>
        left
        dsimp only
        split
        · rename_i hsingle
          exact (shortCut_eq hsound hstat hsingle).symm
        · rfl
      | invalidFilename =>
        right; right
        rcases symlinkMetadata_cases source relative with h | ⟨_, h⟩
        · exact absurd (h.symm.trans hstat) (statFrom_ne_invalidFilename _ _)
        · exact ⟨.inr h, rfl⟩
      | notADirectory =>
        right; left
        rcases symlinkMetadata_cases source relative with h | ⟨h, _⟩
        · exact ⟨throughFile_of_statFrom (h.symm.trans hstat), rfl⟩
        · rw [h] at hstat
          cases hstat
    · rw [Bool.not_eq_true] at hrep
      exact .inr (.inr ⟨.inl hrep, if_pos (by simp [hrep])⟩)
  refine ⟨fun habsent => ?_, fun hnone => ?_, fun hstat hsingle => shortCut_eq hsound hstat hsingle⟩
  · rcases hanswer with h | ⟨_, h⟩ | ⟨_, h⟩
    · exact findLocalSpelling_absent (h ▸ habsent)
    · rw [h] at habsent
      cases habsent
    · rw [h] at habsent
      cases habsent
  · rcases hanswer with h | ⟨hthrough, h⟩ | ⟨hhost, h⟩
    · rw [h]
      rcases findLocalSpelling_of_not_holds hnone with habsent | htwins | hthrough
      · exact .inl habsent
      · exact .inr (.inl htwins)
      · exact .inr (.inr (.inl hthrough))
    · exact .inr (.inr (.inl ⟨hthrough, _, h⟩))
    · exact .inr (.inr (.inr ⟨hhost, h⟩))

end Presence

/-! ## Two spellings of a folder

The source holds `K` and the same name spelled with the Kelvin sign, both empty. -/

namespace TwinSource

open Small

def empty : Node := .folder [] .nil Fin.elim0

def tree : Node :=
  .folder [.text (name 'K'), .text (name '\u212a')] (by decide) fun _ => empty

def source : Source := ⟨"/source", tree, Node.noConfusion, fun _ => true, fun _ => false⟩

def missing : RelPath := path [name 'K', name 'x']

theorem composeChar_single {c d : Char} (hd : d.toNat < 128) (hne : d ≠ 'K')
    (h : composeChar c = composeChar d) : c = d := by
  have hself : composeChar d = d := by
    rw [composeChar, if_neg, if_neg]
    · rintro rfl
      exact absurd hd (by decide)
    · rintro rfl
      exact absurd hd (by decide)
  rw [hself, composeChar] at h
  split at h
  · exact absurd h.symm hne
  · split at h
    · rw [← h] at hd
      exact absurd hd (by decide)
    · exact h

theorem map_composeChar_single : ∀ {l k : List Char},
    (k.all fun c => decide (c.toNat < 128) && !(['K', ';', '\x60'].contains c)) = true →
      l.map composeChar = k.map composeChar → l = k
  | [], [], _, _ => rfl
  | [], _ :: _, _, h => by simp at h
  | _ :: _, [], _, h => by simp at h
  | c :: l, d :: k, hk, h => by
    rw [List.all_cons, Bool.and_eq_true] at hk
    rw [List.map_cons, List.map_cons, List.cons.injEq] at h
    obtain ⟨hd, hnot⟩ := Bool.and_eq_true_iff.mp hk.1
    have hne : d ≠ 'K' := by
      rintro rfl
      exact absurd hnot (by decide)
    rw [composeChar_single (by simpa using hd) hne h.1, map_composeChar_single hk.2 h.2]

theorem singleNormalFormSound_charwise :
    letI := charwise
    SingleNormalFormSound := by
  intro p
  induction p with
  | root =>
    intro q _ h
    cases q with
    | root => rfl
    | child q n => simp [nfc] at h
  | child p n ih =>
    intro q hp h
    cases q with
    | root => simp [nfc] at h
    | child q m =>
      simp only [hasASingleNormalForm, Path.components, List.all_append, List.all_cons,
        List.all_nil, Bool.and_true, Bool.and_eq_true] at hp
      simp only [nfc, Path.map_child, Path.child.injEq] at h
      rw [ih q hp.1 h.1, Subtype.ext (map_composeChar_single hp.2 (congrArg Subtype.val h.2))]

/-- No path is found below either folder, and the search ends at the two. -/
theorem not_absent :
    letI := charwise
    ¬(localPresence source missing = .ok .absent ↔ ¬Holds tree missing) := by
  let _ := charwise
  intro h
  have hanswer : localPresence source missing = .ok (.ambiguous (path [name 'K'])) := by
    decide +kernel
  have hnone : ¬Holds tree missing := by
    rintro ⟨_, last, first, folder, _, hfolder, second, inside, _, hinside, _⟩
    obtain ⟨i, _, rfl⟩ := Option.map_eq_some_iff.mp hfolder
    cases hinside
  rw [h.mpr hnone] at hanswer
  cases hanswer

/-- The path is absent below a folder that has one spelling. -/
theorem localPresence_answers_missing :
    letI := charwise
    AnswersPresence source (path [name 'y']) := by
  exact @localPresence_answers charwise singleNormalFormSound_charwise source (path [name 'y'])

end TwinSource
end DriveSync
