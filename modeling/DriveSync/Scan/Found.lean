import DriveSync.Scan.Dir

/-!
# DriveSync.Scan.Found

What the walk comes to, and in what order. A finding stands in the list where a listing of a folder
that was entered names it, and nowhere else (`mem_findings_read`, `mem_findings_unreadable`).

* `Entered`, `Came`: the folders the walk goes into, and its verdicts on the names in them.
* `Led`: every entry comes after its folder's, and a folder that cannot be read after its own.
* `nodup_marks`: no path is carried twice, or found unreadable twice.
-/

namespace DriveSync
namespace Scan

open Path

/-! ## Findings -/

/-- The path a finding is about: an entry carried there, or no listing of it to be had. -/
def Finding.mark? : Finding → Option (Bool × RelPath)
  | .read (.carry e) => some (true, e.relative)
  | .unreadable folder _ => some (false, folder)
  | _ => none

def marks (l : List Finding) : List (Bool × RelPath) := l.filterMap Finding.mark?

@[simp] theorem marks_nil : marks [] = [] := rfl

@[simp] theorem marks_cons (x : Finding) (l : List Finding) :
    marks (x :: l) = x.mark?.toList ++ marks l := by
  cases h : x.mark? with
  | none => simp [marks, h]
  | some mark => simp [marks, h]

theorem marks_append (l l' : List Finding) : marks (l ++ l') = marks l ++ marks l' := by
  simp [marks]

theorem marks_flatMap {α : Type} (l : List α) (f : α → List Finding) :
    marks (l.flatMap f) = l.flatMap fun a => marks (f a) := by
  induction l with
  | nil => rfl
  | cons a l ih => rw [List.flatMap_cons, marks_append, ih, List.flatMap_cons]

theorem mem_marks_of_carry {l : List Finding} {e : LocalEntry} (h : .read (.carry e) ∈ l) :
    (true, e.relative) ∈ marks l := List.mem_filterMap.mpr ⟨_, h, rfl⟩

theorem mem_marks_of_unreadable {l : List Finding} {folder : RelPath} {failure : ReadFailure}
    (h : .unreadable folder failure ∈ l) : (false, folder) ∈ marks l :=
  List.mem_filterMap.mpr ⟨_, h, rfl⟩

theorem exists_of_mem_marks {l : List Finding} {b : Bool} {p : RelPath} (h : (b, p) ∈ marks l) :
    ∃ x ∈ l, x.mark? = some (b, p) ∧
      ((b = true ∧ ∃ e, x = .read (.carry e) ∧ e.relative = p) ∨
        (b = false ∧ ∃ failure, x = .unreadable p failure)) := by
  obtain ⟨x, hx, hmark⟩ := List.mem_filterMap.mp h
  refine ⟨x, hx, hmark, ?_⟩
  cases x with
  | check cancelled => cases hmark
  | unreadable f failure =>
    cases hmark
    exact .inr ⟨rfl, failure, rfl⟩
  | read reading =>
    cases reading with
    | passed => cases hmark
    | excluded relative => cases hmark
    | skip skip => cases hmark
    | carry e =>
      cases hmark
      exact .inl ⟨rfl, e, rfl, rfl⟩

/-- The path that must be known before a finding: the folder of an entry, or the folder that could
not be read. -/
def Finding.needs : Finding → Option RelPath
  | .read (.carry e) => some e.relative.parent
  | .unreadable folder _ => some folder
  | _ => none

/-- The folder a finding makes known. -/
def Finding.opens : Finding → Option RelPath
  | .read (.carry e) => if e.kind = .directory then some e.relative else none
  | _ => none

/-- Whatever a finding needs is known when its turn comes. -/
def Led (known : List RelPath) : List Finding → Prop
  | [] => True
  | x :: l => (∀ p ∈ x.needs, p ∈ known) ∧ Led (x.opens.toList ++ known) l

theorem Led.mono {known known' : List RelPath} (hsub : known ⊆ known') {l : List Finding}
    (h : Led known l) : Led known' l := by
  induction l generalizing known known' with
  | nil => trivial
  | cons x l ih =>
    refine ⟨fun p hp => hsub (h.1 p hp), ih (fun p hp => ?_) h.2⟩
    rw [List.mem_append] at hp ⊢
    exact hp.imp id fun hp => hsub hp

theorem Led.append {known : List RelPath} {l l' : List Finding} (h : Led known l)
    (h' : Led known l') : Led known (l ++ l') := by
  induction l generalizing known with
  | nil => exact h'
  | cons x l ih => exact ⟨h.1, ih h.2 (h'.mono (List.subset_append_right _ _))⟩

theorem led_flatMap {α : Type} {known : List RelPath} {l : List α} {f : α → List Finding}
    (h : ∀ a ∈ l, Led known (f a)) : Led known (l.flatMap f) := by
  induction l with
  | nil => trivial
  | cons a l ih =>
    rw [List.flatMap_cons]
    exact (h a (.head _)).append (ih fun b hb => h b (.tail _ hb))

theorem Led.known {known : List RelPath} {done rest : List Finding} {x : Finding}
    (h : Led known (done ++ x :: rest)) {p : RelPath} (hp : p ∈ x.needs) :
    p ∈ known ∨ ∃ d, .read (.carry d) ∈ done ∧ d.kind = .directory ∧ d.relative = p := by
  induction done generalizing known with
  | nil => exact .inl (h.1 p hp)
  | cons y done ih =>
    rcases ih h.2 with hmem | ⟨d, hd, hdir, hrel⟩
    · rcases List.mem_append.mp hmem with hmem | hmem
      · right
        cases y with
        | check cancelled => simp [Finding.opens] at hmem
        | unreadable folder failure => simp [Finding.opens] at hmem
        | read reading =>
          cases reading with
          | passed => simp [Finding.opens] at hmem
          | excluded relative => simp [Finding.opens] at hmem
          | skip skip => simp [Finding.opens] at hmem
          | carry e =>
            by_cases hdir : e.kind = .directory
            · simp only [Finding.opens, if_pos hdir, Option.toList_some, List.mem_singleton] at hmem
              exact ⟨e, .head _, hdir, hmem.symm⟩
            · simp [Finding.opens, hdir] at hmem
      · exact .inl hmem
    · exact .inr ⟨d, .tail _ hd, hdir, hrel⟩

section Found

variable [Unicode]

/-- The folders the walk asks for a listing of. -/
inductive Entered (ctx : Context) : RelPath → Prop
  | root : Entered ctx .root
  | beneath {folder : RelPath} {names : List FileName} {name : FileName} {e : LocalEntry}
      (entered : Entered ctx folder) (listed : ctx.tree.readDir folder = .ok names)
      (named : name ∈ names) (carried : ctx.read folder name = .carry e)
      (isDir : e.kind = .directory) : Entered ctx e.relative

/-- A name in a folder the walk goes into. -/
structure Listed (ctx : Context) (folder : RelPath) (name : FileName) : Prop where
  entered : Entered ctx folder
  named : ∃ names, ctx.tree.readDir folder = .ok names ∧ name ∈ names

/-- A name the walk comes to, with its verdict. -/
def Came (ctx : Context) (reading : Reading) : Prop :=
  ∃ folder name, Listed ctx folder name ∧ ctx.read folder name = reading

variable {ctx : Context}

omit [Unicode] in
theorem mem_sortedNames {names : List FileName} {name : FileName} :
    name ∈ sortedNames names ↔ name ∈ names :=
  (List.perm_insertionSort _ _).mem_iff

omit [Unicode] in
theorem nodup_sortedNames {names : List FileName} (h : names.Nodup) : (sortedNames names).Nodup :=
  (List.perm_insertionSort _ _).nodup_iff.mpr h

/-- The findings of a name: its verdict, and those of the folder it is carried as. -/
theorem mem_ofName {within : RelPath → List Finding} {folder : RelPath} {name : FileName}
    {x : Finding} : x ∈ ofName ctx within folder name ↔
      x = .check (ctx.tree.cancelledBefore folder name) ∨ x = .read (ctx.read folder name) ∨
        ∃ e, ctx.read folder name = .carry e ∧ e.kind = .directory ∧ x ∈ within e.relative := by
  have hbeneath : x ∈ beneath within (ctx.read folder name) ↔
      ∃ e, ctx.read folder name = .carry e ∧ e.kind = .directory ∧ x ∈ within e.relative := by
    cases hread : ctx.read folder name with
    | passed => simp [beneath]
    | excluded relative => simp [beneath]
    | skip skip => simp [beneath]
    | carry e =>
      obtain ⟨relative, kind, size, mtime, digest⟩ := e
      cases kind with
      | file => simp [beneath]
      | directory => simp [beneath]
  rw [ofName, List.mem_cons, List.mem_cons, hbeneath]

/-- The findings of a folder are those its listing comes to, folder by folder. -/
theorem mem_findings {depth : Nat} {folder : RelPath} {x : Finding} :
    x ∈ findings ctx (depth + 1) folder ↔ x = .check (ctx.tree.cancelledAt folder) ∨
      (∃ failure, ctx.tree.readDir folder = .error failure ∧ x = .unreadable folder failure) ∨
        ∃ names name, ctx.tree.readDir folder = .ok names ∧ name ∈ names ∧
          x ∈ ofName ctx (findings ctx depth) folder name := by
  rw [findings, List.mem_cons]
  cases hlisted : ctx.tree.readDir folder with
  | error failure => simp
  | ok names => simp [List.mem_flatMap, mem_sortedNames]

theorem findings_subset {folder : RelPath} (h : Entered ctx folder) :
    ∃ depth, 247 < folder.render.length + depth ∧ folder.render.length ≤ 247 ∧
      ∀ x ∈ findings ctx depth folder, x ∈ findings ctx 248 .root := by
  induction h with
  | root => exact ⟨248, by simp [render], by simp [render], fun x hx => hx⟩
  | @beneath folder names name e _ listed named carried isDir ih =>
    obtain ⟨depth, hdepth, hlength, hsub⟩ := ih
    obtain ⟨hlt, hle⟩ := length_of_carry carried
    cases depth with
    | zero => omega
    | succ depth =>
      refine ⟨depth, by omega, hle, fun x hx => hsub x ?_⟩
      exact mem_findings.mpr (.inr (.inr ⟨names, name, listed, named,
        mem_ofName.mpr (.inr (.inr ⟨e, carried, isDir, hx⟩))⟩))

/-- What a finding says is so. -/
def Truthful (ctx : Context) : Finding → Prop
  | .check _ => True
  | .unreadable folder failure => Entered ctx folder ∧ ctx.tree.readDir folder = .error failure
  | .read reading => Came ctx reading

theorem truthful_of_mem {depth : Nat} {folder : RelPath} (h : Entered ctx folder) {x : Finding}
    (hx : x ∈ findings ctx depth folder) : Truthful ctx x := by
  induction depth generalizing folder with
  | zero => simp [findings] at hx
  | succ depth ih =>
    rcases mem_findings.mp hx with rfl | ⟨failure, hfail, rfl⟩ | ⟨names, name, listed, named, hx⟩
    · exact trivial
    · exact ⟨h, hfail⟩
    · rcases mem_ofName.mp hx with rfl | rfl | ⟨e, carried, isDir, hx⟩
      · exact trivial
      · exact ⟨folder, name, ⟨h, names, listed, named⟩, rfl⟩
      · exact ih (.beneath h listed named carried isDir) hx

theorem exists_findings {folder : RelPath} (h : Entered ctx folder) :
    ∃ depth, ∀ x ∈ findings ctx (depth + 1) folder, x ∈ findings ctx 248 .root := by
  obtain ⟨depth, hdepth, hlength, hsub⟩ := findings_subset h
  cases depth with
  | zero => omega
  | succ depth => exact ⟨depth, hsub⟩

theorem mem_findings_read {reading : Reading} :
    .read reading ∈ findings ctx 248 .root ↔ Came ctx reading := by
  constructor
  · intro h
    exact truthful_of_mem .root h
  · intro h
    obtain ⟨folder, name, ⟨entered, names, listed, named⟩, rfl⟩ := h
    obtain ⟨depth, hsub⟩ := exists_findings entered
    exact hsub _ (mem_findings.mpr (.inr (.inr ⟨names, name, listed, named,
      mem_ofName.mpr (.inr (.inl rfl))⟩)))

theorem mem_findings_unreadable {folder : RelPath} {failure : ReadFailure} :
    .unreadable folder failure ∈ findings ctx 248 .root ↔
      Entered ctx folder ∧ ctx.tree.readDir folder = .error failure := by
  constructor
  · intro h
    exact truthful_of_mem .root h
  · intro h
    obtain ⟨depth, hsub⟩ := exists_findings h.1
    exact hsub _ (mem_findings.mpr (.inr (.inl ⟨failure, h.2, rfl⟩)))

/-! ## Folders on the way -/

/-- A folder that is entered is carried, and so is every folder on the way to it; all of those could
be read. -/
theorem Entered.above {folder : RelPath} (h : Entered ctx folder) :
    ∀ a, a ≠ .root → AtOrUnder a folder → Entered ctx a ∧
      (∃ e, Came ctx (.carry e) ∧ e.relative = a ∧ e.kind = .directory) ∧
        (a ≠ folder → ∃ names, ctx.tree.readDir a = .ok names) := by
  induction h with
  | root =>
    intro a ha hat
    rcases hat with rfl | hat
    · exact absurd rfl ha
    · simp at hat
  | @beneath folder names name e entered listed named carried isDir ih =>
    intro a ha hat
    have hrel := carry_relative carried
    rcases hat with rfl | hat
    · exact ⟨.beneath entered listed named carried isDir,
        ⟨e, ⟨folder, name, ⟨entered, names, listed, named⟩, carried⟩, rfl, isDir⟩,
        fun h => absurd rfl h⟩
    · rw [hrel] at hat
      obtain ⟨_, hat⟩ := mem_ancestors_child.mp hat
      obtain ⟨henter, hcarry, hread⟩ := ih a ha hat
      refine ⟨henter, hcarry, fun _ => ?_⟩
      by_cases heq : a = folder
      · exact ⟨names, heq ▸ listed⟩
      · exact hread heq

theorem Listed.above {folder : RelPath} {name : FileName} (h : Listed ctx folder name) {a : RelPath}
    (ha : a ∈ (folder.child name.shown).ancestors) : Entered ctx a ∧
      (∃ e, Came ctx (.carry e) ∧ e.relative = a ∧ e.kind = .directory) ∧
        ∃ names, ctx.tree.readDir a = .ok names := by
  obtain ⟨hroot, hat⟩ := mem_ancestors_child.mp ha
  obtain ⟨henter, hcarry, hread⟩ := h.entered.above a (ne_root_of_mem_ancestors ha) hat
  refine ⟨henter, hcarry, ?_⟩
  by_cases heq : a = folder
  · obtain ⟨names, listed, _⟩ := h.named
    exact ⟨names, heq ▸ listed⟩
  · exact hread heq

/-! ## Each path once -/

/-- What is marked of a name lies at or beneath it, where what is marked of a folder does. -/
theorem atOrUnder_of_ofName {within : RelPath → List Finding} {folder p : RelPath} {name : FileName}
    {b : Bool} (hwithin : ∀ f b q, f ≠ .root → (b, q) ∈ marks (within f) → AtOrUnder f q)
    (h : (b, p) ∈ marks (ofName ctx within folder name)) :
    AtOrUnder (folder.child name.shown) p := by
  obtain ⟨x, hx, hmark, hkind⟩ := exists_of_mem_marks h
  rcases mem_ofName.mp hx with rfl | rfl | ⟨d, carried, isDir, hx⟩
  · cases hmark
  · rcases hkind with ⟨_, e, heq, rfl⟩ | ⟨_, failure, heq⟩
    · exact .inl (carry_relative (Finding.read.inj heq))
    · cases heq
  · have hrel := carry_relative carried
    rw [← hrel]
    exact hwithin _ b p (by simp [hrel]) (List.mem_filterMap.mpr ⟨x, hx, hmark⟩)

/-- What is marked of a folder lies at or beneath it. -/
theorem atOrUnder_of_findings {depth : Nat} {folder p : RelPath} {b : Bool}
    (hroot : folder ≠ .root) (h : (b, p) ∈ marks (findings ctx depth folder)) :
    AtOrUnder folder p ∧ (b = true → p ≠ folder) := by
  induction depth generalizing folder p b with
  | zero => simp [findings] at h
  | succ depth ih =>
    obtain ⟨x, hx, hmark, hkind⟩ := exists_of_mem_marks h
    rcases mem_findings.mp hx with rfl | ⟨_, _, rfl⟩ | ⟨names, name, listed, named, hx⟩
    · cases hmark
    · cases hmark
      exact ⟨atOrUnder_refl _, fun h => by cases h⟩
    · have hat : AtOrUnder (folder.child name.shown) p :=
        atOrUnder_of_ofName (fun f b q hf hq => (ih hf hq).1)
          (List.mem_filterMap.mpr ⟨x, hx, hmark⟩)
      have habove := mem_ancestors_of_atOrUnder_right
        (mem_ancestors_child.mpr ⟨hroot, atOrUnder_refl folder⟩) hat
      exact ⟨.inr habove, fun _ heq => not_mem_ancestors_self _ (heq ▸ habove)⟩

theorem marks_ofName_of_raw {within : RelPath → List Finding} {folder : RelPath}
    {bytes : List UInt8} {lossy : Name} :
    marks (ofName ctx within folder (.raw bytes lossy)) = [] := by
  rw [List.eq_nil_iff_forall_not_mem]
  intro ⟨b, p⟩ hp
  obtain ⟨x, hx, hmark, hkind⟩ := exists_of_mem_marks hp
  rcases mem_ofName.mp hx with rfl | rfl | ⟨d, carried, isDir, hx⟩
  · cases hmark
  · rcases hkind with ⟨_, e, heq, rfl⟩ | ⟨_, failure, heq⟩
    · obtain ⟨_, _, _, h, _⟩ := read_carry (Finding.read.inj heq)
      cases h
    · cases heq
  · obtain ⟨_, _, _, h, _⟩ := read_carry carried
    cases h

theorem nodup_marks (depth : Nat) (folder : RelPath) : (marks (findings ctx depth folder)).Nodup := by
  induction depth generalizing folder with
  | zero => simp [findings]
  | succ depth ih =>
    rw [findings]
    cases hlisted : ctx.tree.readDir folder with
    | error failure => simp [Finding.mark?]
    | ok names =>
      have hwithin : ∀ f b q, f ≠ .root → (b, q) ∈ marks (findings ctx depth f) → AtOrUnder f q :=
        fun f b q hf hq => (atOrUnder_of_findings hf hq).1
      have hcons : ∀ l, marks (.check (ctx.tree.cancelledAt folder) :: l) = marks l := fun l => rfl
      simp only [hcons]
      rw [marks_flatMap, List.nodup_flatMap]
      constructor
      · intro name _
        rw [ofName]
        cases hread : ctx.read folder name with
        | passed => simp [Finding.mark?, beneath]
        | excluded relative => simp [Finding.mark?, beneath]
        | skip skip => simp [Finding.mark?, beneath]
        | carry e =>
          have hrel := carry_relative hread
          obtain ⟨relative, kind, size, mtime, digest⟩ := e
          cases kind with
          | file => simp [Finding.mark?, beneath]
          | directory =>
            have hcarry : marks (.check (ctx.tree.cancelledBefore folder name) ::
                .read (.carry ⟨relative, .directory, size, mtime, digest⟩) ::
                  findings ctx depth relative) =
                (true, relative) :: marks (findings ctx depth relative) := rfl
            simp only [beneath]
            rw [hcarry, List.nodup_cons]
            refine ⟨fun hmem => ?_, ih relative⟩
            have hroot : relative ≠ .root := by
              simp only at hrel
              simp [hrel]
            exact (atOrUnder_of_findings hroot hmem).2 rfl rfl
      · refine (nodup_sortedNames (ctx.tree.distinct folder names hlisted)).imp ?_
        intro a c hne pair hpa hpc
        obtain ⟨b, p⟩ := pair
        cases a with
        | raw bytes lossy => simp [marks_ofName_of_raw] at hpa
        | text n =>
          cases c with
          | raw bytes lossy => simp [marks_ofName_of_raw] at hpc
          | text m =>
            have hat := atOrUnder_of_ofName hwithin hpa
            have hct := atOrUnder_of_ofName hwithin hpc
            have heq := eq_of_atOrUnder_of_depth hat hct (by simp)
            exact hne (congrArg FileName.text (Path.child.inj heq).2)

/-- An entry is found after its folder, and a folder that cannot be read is one that was found. -/
theorem led_findings (depth : Nat) (folder : RelPath) : Led [folder] (findings ctx depth folder) := by
  induction depth generalizing folder with
  | zero => trivial
  | succ depth ih =>
    rw [findings]
    refine ⟨by simp [Finding.needs], ?_⟩
    cases ctx.tree.readDir folder with
    | error failure => exact ⟨by simp [Finding.needs], trivial⟩
    | ok names =>
      refine led_flatMap fun name _ => ⟨by simp [Finding.needs], ?_⟩
      cases hread : ctx.read folder name with
      | passed => exact ⟨by simp [Finding.needs], trivial⟩
      | excluded relative => exact ⟨by simp [Finding.needs], trivial⟩
      | skip skip => exact ⟨by simp [Finding.needs], trivial⟩
      | carry e =>
        have hrel := carry_relative hread
        refine ⟨by simp [Finding.needs, Finding.opens, hrel], ?_⟩
        obtain ⟨relative, kind, size, mtime, digest⟩ := e
        cases kind with
        | file => trivial
        | directory => exact (ih relative).mono (by simp [Finding.opens])

end Found

end Scan
end DriveSync
