import DriveSync.Lib.Records
import DriveSync.Walk.Visits

/-!
# DriveSync.Batch.Root

A destination as it is configured: a text, which `RemoteRoot.parse` takes for a folder of the NAS or
refuses. The paths of a run are lists of names here (`Path`) and texts in the program.

* `pathOf`: the path a text spells.
* `RemoteRoot.parse_eq_ok`: which texts are taken, and for which folder.
* `RemoteRoot.text_round_trip`: the way down from a destination and the way back, on texts.
-/

namespace DriveSync

open Path

/-! ## Texts of paths -/

/-- The parts of a path, as they stand between its separators. -/
def parts (p : RelPath) : List (List Char) := p.components.map (·.1)

theorem parts_child (p : RelPath) (n : Name) : parts (.child p n) = parts p ++ [n.1] := by
  simp [parts, components]

theorem mem_parts {p : RelPath} {part : List Char} (h : part ∈ parts p) :
    part ≠ [] ∧ '/' ∉ part := by
  obtain ⟨n, _, rfl⟩ := List.mem_map.mp h
  exact n.2

theorem splitOn_render {p : RelPath} (hp : p ≠ .root) : p.render.splitOn '/' = parts p := by
  induction p with
  | root => exact absurd rfl hp
  | child p n ih =>
    have hlast : n.1.splitOn '/' = [n.1] := List.splitOn_eq_singleton n.2.2
    by_cases hroot : p = .root
    · subst hroot
      simpa [render, parts, components] using hlast
    · rw [render_child hroot, List.splitOn_append_cons_self, ih hroot, hlast, parts_child]

theorem render_eq_intercalate (p : RelPath) : p.render = ['/'].intercalate (parts p) := by
  by_cases hp : p = .root
  · subst hp
    rfl
  · rw [← splitOn_render hp, List.intercalate_splitOn]

def enterPart (p : RelPath) (part : List Char) : RelPath :=
  if h : part ≠ [] ∧ '/' ∉ part then p.child ⟨part, h⟩ else p

/-- The path that has the parts for its names; a part that is no name is passed over. -/
def pathOf (names : List (List Char)) : RelPath := names.foldl enterPart .root

theorem parts_foldl {names : List (List Char)} (h : ∀ part ∈ names, part ≠ [] ∧ '/' ∉ part)
    (p : RelPath) : parts (names.foldl enterPart p) = parts p ++ names := by
  induction names generalizing p with
  | nil => simp
  | cons part rest ih =>
    have hpart := h part (.head _)
    rw [List.foldl_cons, ih (fun x hx => h x (.tail _ hx)), enterPart, dif_pos hpart, parts_child]
    simp

theorem parts_pathOf {names : List (List Char)} (h : ∀ part ∈ names, part ≠ [] ∧ '/' ∉ part) :
    parts (pathOf names) = names := parts_foldl h .root

/-- A text with no empty part spells a path. -/
theorem spells_of_parts {value : List Char} (h : ∀ part ∈ value.splitOn '/', part ≠ []) :
    parts (pathOf (value.splitOn '/')) = value.splitOn '/' ∧
      (pathOf (value.splitOn '/')).render = value := by
  have hparts := parts_pathOf fun part hpart => ⟨h part hpart, Records.not_mem_of_mem_splitOn hpart⟩
  exact ⟨hparts, by rw [render_eq_intercalate, hparts, List.intercalate_splitOn]⟩

theorem pathOf_ne_root {value : List Char} (h : ∀ part ∈ value.splitOn '/', part ≠ []) :
    pathOf (value.splitOn '/') ≠ .root := by
  intro hroot
  have hparts := (spells_of_parts h).1
  rw [hroot] at hparts
  exact List.splitOn_ne_nil '/' value hparts.symm

theorem pathOf_splitOn_render {p : RelPath} (hp : p ≠ .root) :
    pathOf (p.render.splitOn '/') = p := by
  refine render_injective (spells_of_parts fun part hpart => ?_).2
  rw [splitOn_render hp] at hpart
  exact (mem_parts hpart).1

/-- A test that no separator passes is made of a text by making it of each name. -/
theorem any_render {f : Char → Bool} (hf : f '/' = false) (p : RelPath) :
    p.render.any f = p.components.any fun n => n.1.any f := by
  induction p with
  | root => rfl
  | child p n ih =>
    by_cases hroot : p = .root
    · subst hroot
      simp [render, components]
    · rw [render_child hroot, List.any_append, List.any_cons, hf, ih]
      simp [components]

theorem contains_backslash_render (p : RelPath) :
    p.render.contains '\\' = p.components.any fun n => n.1.contains '\\' := by
  simp only [List.contains_eq_any_beq]
  exact any_render rfl p

theorem render_append {p q : RelPath} (hp : p ≠ .root) (hq : q ≠ .root) :
    (p.append q).render = p.render ++ '/' :: q.render := by
  induction q with
  | root => exact absurd rfl hq
  | child q n ih =>
    have hpq : p.append q ≠ .root := fun h => hp (append_eq_root.mp h).1
    rw [append_child, render_child hpq]
    by_cases hroot : q = .root
    · subst hroot
      rfl
    · rw [ih hroot, render_child hroot]
      simp

theorem render_head {p : RelPath} : p.render.head? ≠ some '/' := by
  induction p with
  | root => simp [render]
  | child p n ih =>
    by_cases hroot : p = .root
    · subst hroot
      exact fun h => n.2.2 (List.mem_of_head? h)
    · rw [render_child hroot, List.head?_append_of_ne_nil _ (render_ne_nil hroot)]
      exact ih

theorem render_last {p : RelPath} : p.render.getLast? ≠ some '/' := by
  cases p with
  | root => simp [render]
  | child p n =>
    by_cases hroot : p = .root
    · subst hroot
      exact fun h => n.2.2 (List.mem_of_getLast? h)
    · have hcons : ('/' :: n.1).getLast? = n.1.getLast? := by
        cases hn : n.1 with
        | nil => exact absurd hn n.2.1
        | cons c t => rfl
      rw [render_child hroot, List.getLast?_append_of_ne_nil _ (List.cons_ne_nil _ _), hcons]
      exact fun h => n.2.2 (List.mem_of_getLast? h)

/-! ## The checks, on texts -/

/-- `path::validate_relative` of a text. -/
def validateRelativeText (value : List Char) : Except UnsafePath Unit :=
  if value.isEmpty then .ok ()
  else if value.head? = some '/' || value.getLast? = some '/' || value.contains '\\' then
    .error ⟨String.ofList value, "relative path is not normalized"⟩
  else if value.any isControl then
    .error ⟨String.ofList value, "control characters are not allowed"⟩
  else if (value.splitOn '/').any fun part =>
      part.isEmpty || part = ['.'] || part = ['.', '.'] || part.contains '/' then
    .error ⟨String.ofList value, "relative path contains an unsafe component"⟩
  else .ok ()

/-- `path::drive_path_issue` of a text. -/
def drivePathIssueText (path : List Char) : Option String :=
  if path.length > 247 then
    some "path exceeds Synology Drive's 247-character Windows compatibility limit"
  else (path.splitOn '/').findSome? componentIssue

theorem validateRelativeText_render (p : RelPath) :
    validateRelativeText p.render = validateRelative p := by
  by_cases hroot : p = .root
  · subst hroot
    rfl
  · have hunsafe : ((parts p).any fun part =>
        part.isEmpty || part = ['.'] || part = ['.', '.'] || part.contains '/') =
          p.components.any fun part => part.1 = ['.'] || part.1 = ['.', '.'] := by
      rw [parts, List.any_map]
      congr 1
      funext n
      simp [List.isEmpty_eq_false_iff.mpr n.2.1, n.2.2]
    have hempty : p.render.isEmpty = false := List.isEmpty_eq_false_iff.mpr (render_ne_nil hroot)
    rw [validateRelativeText, validateRelative, splitOn_render hroot, hunsafe,
      contains_backslash_render, any_render (f := isControl) rfl, hempty,
      decide_eq_false render_head, decide_eq_false render_last]
    rfl

theorem drivePathIssueText_render (p : RelPath) :
    drivePathIssueText p.render = drivePathIssue p := by
  by_cases hroot : p = .root
  · subst hroot
    rfl
  · rw [drivePathIssueText, drivePathIssue, splitOn_render hroot, parts, List.findSome?_map]
    rfl

/-- A text that passes as a relative path spells one. -/
theorem spells_of_validateRelativeText {value : List Char}
    (h : validateRelativeText value = .ok ()) : ∃ p : RelPath, p.render = value := by
  by_cases hempty : value = []
  · exact ⟨.root, hempty.symm⟩
  · simp only [validateRelativeText, List.isEmpty_iff, hempty, if_false] at h
    split at h
    · cases h
    · split at h
      · cases h
      · split at h
        · cases h
        · rename_i hsafe
          refine ⟨_, (spells_of_parts fun part hpart hnil => hsafe ?_).2⟩
          exact List.any_eq_true.mpr ⟨part, hpart, by simp [hnil]⟩

namespace RemoteRoot

/-! ## A configured destination -/

/-- Why a text is no destination. -/
def issue (value : List Char) : Option String :=
  if value.head? ≠ some '/' then some "it must begin with a shared-folder slash"
  else if value = ['/'] then some "DSM root is never a valid sync destination"
  else if value.getLast? = some '/' then some "trailing slashes are not allowed"
  else if value.contains '\\' then some "use forward slashes, not backslashes"
  else if value.any isControl then some "control characters are not allowed"
  else
    let components := (value.drop 1).splitOn '/'
    if components.any (·.isEmpty) then some "empty path components are not allowed"
    else if components.any fun part => part = ['.'] || part = ['.', '.'] then
      some ". and .. components are not allowed"
    else if components.any dsmManagedNames.contains then
      some "DSM-managed directories cannot be sync roots"
    else drivePathIssueText (value.drop 1)

theorem ne_nil_of_issue {value : List Char} (h : issue value = none) :
    ∀ part ∈ (value.drop 1).splitOn '/', part ≠ [] := by
  intro part hpart hnil
  have hempty : ((value.drop 1).splitOn '/').any (·.isEmpty) = true :=
    List.any_eq_true.mpr ⟨part, hpart, by simp [hnil]⟩
  simp only [issue, hempty, if_true] at h
  repeat' split at h
  all_goals cases h

def parse (value : List Char) : Except UnsafePath RemoteRoot :=
  match h : issue value with
  | some reason => .error ⟨String.ofList value, reason⟩
  | none => .ok ⟨pathOf ((value.drop 1).splitOn '/'), pathOf_ne_root (ne_nil_of_issue h)⟩

def asStr (root : RemoteRoot) : List Char := absoluteText root.path

/-- What is asked of a text is asked of the folder it spells. -/
theorem issue_asStr (root : RemoteRoot) : issue root.asStr = none ↔
    validateRelative root.path = .ok () ∧ isDsmManaged root.path = false ∧
      drivePathIssue root.path = none := by
  have hroot := root.path_ne_root
  have hne := render_ne_nil hroot
  have hlast : root.asStr.getLast? ≠ some '/' := by
    rw [asStr, absoluteText, List.getLast?_cons, List.getLast?_eq_some_getLast hne]
    have h := @render_last root.path
    rw [List.getLast?_eq_some_getLast hne] at h
    simpa using h
  have hempty : ((parts root.path).any (·.isEmpty)) = false := by
    simp only [List.any_eq_false, List.isEmpty_iff]
    exact fun part hpart => (mem_parts hpart).1
  have hdots : ((parts root.path).any fun part => part = ['.'] || part = ['.', '.']) =
      root.path.components.any fun part => part.1 = ['.'] || part.1 = ['.', '.'] := by
    rw [parts, List.any_map]
    rfl
  have hmanaged : (parts root.path).any dsmManagedNames.contains = isDsmManaged root.path := by
    rw [parts, List.any_map]
    rfl
  have hback : root.asStr.contains '\\' =
      root.path.components.any fun n => n.1.contains '\\' := by
    rw [asStr, absoluteText, List.contains_cons, contains_backslash_render]
    simp
  have hcontrol : root.asStr.any isControl = root.path.components.any fun n => n.1.any isControl := by
    rw [asStr, absoluteText, List.any_cons, any_render (f := isControl) rfl]
    simp [isControl]
  have hdrop : root.asStr.drop 1 = root.path.render := rfl
  simp only [issue, hback, hcontrol, hlast, if_false, hdrop, splitOn_render hroot, hempty, hdots,
    hmanaged, drivePathIssueText_render, validateRelative]
  have hhead : root.asStr.head? = some '/' := rfl
  have hslash : root.asStr ≠ ['/'] := by simp [asStr, absoluteText, hne]
  simp only [hhead, hslash, ne_eq, not_true_eq_false, if_false, Bool.false_eq_true]
  split_ifs <;> simp_all

/-- A text is taken for the folder it spells, where no component of that is a name DSM keeps for
itself, and Synology Drive could hold it. -/
theorem parse_eq_ok {value : List Char} {root : RemoteRoot} : parse value = .ok root ↔
    value = root.asStr ∧ validateRelative root.path = .ok () ∧ isDsmManaged root.path = false ∧
      drivePathIssue root.path = none := by
  constructor
  · intro h
    simp only [parse] at h
    split at h
    · cases h
    · rename_i hissue
      have hspells := spells_of_parts (ne_nil_of_issue hissue)
      obtain rfl := Except.ok.inj h
      have hvalue : value = asStr ⟨_, pathOf_ne_root (ne_nil_of_issue hissue)⟩ := by
        rw [asStr, absoluteText, hspells.2]
        cases value with
        | nil => simp [issue] at hissue
        | cons c rest =>
          have hc : c = '/' := by
            by_contra hc
            simp [issue, hc] at hissue
          rw [hc]
          rfl
      exact ⟨hvalue, (issue_asStr _).mp (hvalue ▸ hissue)⟩
  · rintro ⟨hvalue, h⟩
    subst hvalue
    have hnone := (issue_asStr root).mpr h
    simp only [parse]
    split
    · rename_i hsome
      rw [hnone] at hsome
      cases hsome
    · congr 1
      cases root with
      | mk path hpath =>
        congr 1
        exact pathOf_splitOn_render hpath

/-! ## Down from a destination and back -/

def joinText (root : RemoteRoot) (relative : List Char) : Except UnsafePath (List Char) :=
  match validateRelativeText relative with
  | .error error => .error error
  | .ok () =>
    let joined := if relative.isEmpty then root.asStr else root.asStr ++ '/' :: relative
    match drivePathIssueText (joined.drop 1) with
    | some reason => .error ⟨String.ofList joined, reason⟩
    | none => .ok joined

def relativeText (root : RemoteRoot) (remote : List Char) : Except ApiError (List Char) :=
  if remote = root.asStr then .ok []
  else if (root.asStr ++ ['/']).isPrefixOf remote then
    let relative := remote.drop (root.asStr ++ ['/']).length
    match validateRelativeText relative with
    | .error error => .error (unsafePathError error)
    | .ok () => .ok relative
  else .error (.remoteEscape remote)

def containsChildText (root : RemoteRoot) (remote : List Char) : Bool :=
  (root.asStr ++ ['/']).isPrefixOf remote

section Text

variable {root : RemoteRoot} {relative remote joined : List Char}

theorem containsChildText_iff :
    root.containsChildText remote = true ↔ ∃ rest, remote = root.asStr ++ '/' :: rest := by
  rw [containsChildText, List.isPrefixOf_iff_prefix]
  constructor
  · rintro ⟨rest, h⟩
    exact ⟨rest, by simp [← h]⟩
  · rintro ⟨rest, h⟩
    exact ⟨rest, by simp [h]⟩

theorem relativeText_eq_ok : root.relativeText remote = .ok relative ↔
    remote = root.asStr ∧ relative = [] ∨
      remote = root.asStr ++ '/' :: relative ∧ validateRelativeText relative = .ok () := by
  by_cases hself : remote = root.asStr
  · subst hself
    simp [relativeText, eq_comm]
  · by_cases hbelow : (root.asStr ++ ['/']).isPrefixOf remote = true
    · obtain ⟨rest, hrest⟩ := List.isPrefixOf_iff_prefix.mp hbelow
      subst hrest
      cases hvalid : validateRelativeText rest with
      | error e =>
        have hne : rest = relative → validateRelativeText relative ≠ .ok () := by
          intro heq
          rw [← heq, hvalid]
          simp
        simpa [relativeText, hself, hvalid] using hne
      | ok u =>
        have hok : rest = relative → validateRelativeText relative = .ok () := by
          intro heq
          rw [← heq, hvalid]
        simpa [relativeText, hself, hvalid] using hok
    · have hnot : ∀ rest, remote ≠ root.asStr ++ '/' :: rest := by
        intro rest h
        exact hbelow (containsChildText_iff.mpr ⟨rest, h⟩)
      simp only [relativeText, hself, hbelow, if_false, false_and, false_or]
      simp [hnot]

theorem joinText_eq_ok : root.joinText relative = .ok joined ↔
    validateRelativeText relative = .ok () ∧
      joined = (if relative = [] then root.asStr else root.asStr ++ '/' :: relative) ∧
      drivePathIssueText (joined.drop 1) = none := by
  rw [joinText]
  cases validateRelativeText relative with
  | error e => simp
  | ok u =>
    simp only [List.isEmpty_iff, true_and]
    split
    · rename_i reason hissue
      constructor
      · intro h
        cases h
      · rintro ⟨h, hnone⟩
        subst h
        rw [hissue] at hnone
        cases hnone
    · rename_i hnone
      constructor
      · intro h
        obtain rfl := Except.ok.inj h
        exact ⟨rfl, hnone⟩
      · rintro ⟨h, _⟩
        rw [h]

theorem absoluteText_append (p : RelPath) : absoluteText (root.path.append p) =
    if p.render = [] then root.asStr else root.asStr ++ '/' :: p.render := by
  by_cases hp : p = .root
  · subst hp
    rfl
  · rw [if_neg (render_ne_nil hp), absoluteText, render_append root.path_ne_root hp]
    rfl

theorem absoluteText_injective {p q : RelPath} (h : absoluteText p = absoluteText q) : p = q :=
  render_injective (List.cons.inj h).2

theorem joinText_render (p : RelPath) :
    root.joinText p.render = (root.join p).map absoluteText := by
  have hempty : (if p.render.isEmpty = true then root.asStr else root.asStr ++ '/' :: p.render) =
      absoluteText (root.path.append p) := by
    simp only [absoluteText_append, List.isEmpty_iff]
  have hissue : drivePathIssueText ((absoluteText (root.path.append p)).drop 1) =
      drivePathIssue (root.path.append p) := drivePathIssueText_render _
  simp only [joinText, join, validateRelativeText_render, hempty, hissue, bind, Except.bind]
  cases validateRelative p with
  | error e => rfl
  | ok u =>
    cases drivePathIssue (root.path.append p) <;> rfl

theorem containsChild_iff_encloses {p : RelPath} :
    root.containsChild p = true ↔ Encloses root.path p := by
  rw [containsChild, Option.any_eq_true]
  simp only [below?_eq_some, decide_eq_true_eq, Encloses]
  constructor
  · rintro ⟨q, hq, hne⟩
    exact ⟨q, hne, hq⟩
  · rintro ⟨q, hne, hq⟩
    exact ⟨q, hq, hne⟩

theorem containsChildText_absolute (p : RelPath) :
    root.containsChildText (absoluteText p) = root.containsChild p := by
  have hslash : root.asStr ++ ['/'] = '/' :: root.path.slash := rfl
  rw [Bool.eq_iff_iff, containsChildText, List.isPrefixOf_iff_prefix, containsChild_iff_encloses,
    encloses_iff_mem_ancestors root.path_ne_root, ← slash_prefix_iff, hslash, absoluteText,
    List.cons_prefix_cons]
  simp

theorem relativeText_absolute (p : RelPath) :
    root.relativeText (absoluteText p) = (root.relative p).map render := by
  cases hbelow : below? root.path p with
  | none =>
    have hself : absoluteText p ≠ root.asStr := by
      intro heq
      rw [absoluteText_injective heq, below?_eq_some.mpr (append_root root.path).symm] at hbelow
      cases hbelow
    have hnot : (root.asStr ++ ['/']).isPrefixOf (absoluteText p) = false := by
      have hchild : root.containsChildText (absoluteText p) = root.containsChild p :=
        containsChildText_absolute p
      rw [containsChild, hbelow] at hchild
      exact hchild
    simp [relativeText, relative, hself, hnot, hbelow, Except.map]
  | some q =>
    have hp := below?_eq_some.mp hbelow
    by_cases hq : q = .root
    · subst hq
      have hself : absoluteText p = root.asStr := by rw [hp]; rfl
      rw [relativeText, if_pos hself, relative, hbelow]
      rfl
    · have htext : absoluteText p = (root.asStr ++ ['/']) ++ q.render := by
        rw [hp, absoluteText_append, if_neg (render_ne_nil hq)]
        simp
      have hself : absoluteText p ≠ root.asStr := by
        intro heq
        have hlength := congrArg List.length (heq.symm.trans htext)
        simp at hlength
      have hbeneath : (root.asStr ++ ['/']).isPrefixOf (absoluteText p) = true :=
        List.isPrefixOf_iff_prefix.mpr ⟨q.render, htext.symm⟩
      have hdrop : (absoluteText p).drop (root.asStr ++ ['/']).length = q.render := by
        rw [htext, List.drop_left]
      simp only [relativeText, if_neg hself, if_pos hbeneath, hdrop, validateRelativeText_render,
        relative, hbelow]
      cases validateRelative q <;> rfl

/-- The way from a destination to what lies below it, and back. A text is taken for a destination
where it names it, and every name in it is one the NAS leaves to its users and Synology Drive can
hold. What is joined to it is found below it again, as it was; what is found below it is joined to
the same text, where Synology Drive could hold that: only a separator after the destination is
lost. -/
theorem text_round_trip (root : RemoteRoot) :
    (∀ value, (parse value = .ok root ↔ value = root.asStr ∧ validateRelative root.path = .ok () ∧
        isDsmManaged root.path = false ∧ drivePathIssue root.path = none) ∧
      (parse value = .ok root → root.joinText [] = .ok value)) ∧
      (∀ relative joined, root.joinText relative = .ok joined →
        root.relativeText joined = .ok relative ∧
          root.containsChildText joined = !relative.isEmpty) ∧
      ∀ remote relative, root.relativeText remote = .ok relative →
        remote = root.asStr ++ ['/'] ∨ root.joinText relative = .ok remote ∨
          ∃ reason, drivePathIssueText (remote.drop 1) = some reason := by
  refine ⟨?_, ?_, ?_⟩
  · intro value
    refine ⟨parse_eq_ok, fun h => ?_⟩
    obtain ⟨hvalue, _, _, hissue⟩ := parse_eq_ok.mp h
    refine joinText_eq_ok.mpr ⟨rfl, hvalue, ?_⟩
    rw [hvalue, ← hissue]
    exact drivePathIssueText_render root.path
  · intro relative joined h
    obtain ⟨hvalid, hjoined, _⟩ := joinText_eq_ok.mp h
    by_cases hempty : relative = []
    · subst hempty
      rw [if_pos rfl] at hjoined
      refine ⟨relativeText_eq_ok.mpr (.inl ⟨hjoined, rfl⟩), ?_⟩
      have hself : root.containsChildText joined ≠ true := by
        intro hchild
        obtain ⟨rest, hrest⟩ := containsChildText_iff.mp hchild
        have := congrArg List.length (hjoined.symm.trans hrest)
        simp at this
      simpa using hself
    · rw [if_neg hempty] at hjoined
      refine ⟨relativeText_eq_ok.mpr (.inr ⟨hjoined, hvalid⟩), ?_⟩
      rw [containsChildText_iff.mpr ⟨relative, hjoined⟩]
      simp [hempty]
  · intro remote relative h
    cases hissue : drivePathIssueText (remote.drop 1) with
    | some reason => exact .inr (.inr ⟨reason, rfl⟩)
    | none =>
      rcases relativeText_eq_ok.mp h with ⟨hself, hempty⟩ | ⟨hbelow, hvalid⟩
      · subst hempty
        exact .inr (.inl (joinText_eq_ok.mpr ⟨rfl, hself, hissue⟩))
      · by_cases hempty : relative = []
        · subst hempty
          exact .inl hbelow
        · exact .inr (.inl (joinText_eq_ok.mpr ⟨hvalid, by rw [if_neg hempty]; exact hbelow, hissue⟩))

end Text

end RemoteRoot

end DriveSync
