import DriveSync.Watch.Types
import Std.Data.TreeMap.Lemmas

/-!
# DriveSync.Watch.Tree

The inotify tree: one watch per directory that is not excluded. The watched directories are an arena
of nodes by their watch descriptor, each with its parent, its name there and its children.

* `walk`: directories armed and then listed, so that nothing falls between.
* `attach`, `detach`, `forget`: the arena changed.
* `process`: one batch of events, the moves between directories and the new directories in it.
* `rewalk`: the whole tree walked again, and the arena made what the walk found.
-/

namespace DriveSync
namespace Watch

abbrev Node := Arena.Entry Wd OsText

abbrev Nodes := Std.TreeMap Wd Node

/-- A directory still to be walked. -/
structure Start where
  path : OsText
  relative : List Char
  parent : Option Wd
  name : OsText
deriving DecidableEq, Repr

/-- A directory the walk armed. -/
structure Walked where
  wd : Wd
  parent : Option Wd
  name : OsText
deriving DecidableEq, Repr

/-! ## The walk -/

/-- The subdirectories of an armed directory that the filter leaves in, the last to be walked first. -/
def beneath (filter : Filter) (start : Start) (wd : Wd) (names : List OsText) : List Start :=
  let starts := names.map fun name =>
    { path := joinPath start.path name,
      relative := joinRelative start.relative (toStringLossy name),
      parent := some wd,
      name := name }
  (starts.filter fun child => !filter.excludes child.relative true).reverse

/-- One directory armed and listed. `none` for one that is gone by now. -/
def enter (w : World) (filter : Filter) (budget : Budget) (held i : Nat) (start : Start) :
    Except WatchError (Option (Walked × List Start)) :=
  match w.addWatch i start.path with
  | .gone =>
    if start.parent.isSome then .ok none
    else .error (.sourceMissing start.path "the source is not an existing directory")
  | .noSpace => .error (budget.exceeded held (some start.path))
  | .refused desc => .error (.setup start.path ("cannot watch the directory: " ++ desc))
  | .armed wd =>
    if budget.budget.any fun budget => decide (budget < held + 1) then
      .error (budget.exceeded (held + 1) none)
    else
      let record : Walked := ⟨wd, start.parent, start.name⟩
      match w.subdirectories i start.path with
      | .names names => .ok (some (record, beneath filter start wd names))
      | .gone error =>
        if start.parent.isSome then .ok (some (record, []))
        else .error (.setup start.path ("cannot list the directory: " ++ error))
      | .failed error => .error (.setup start.path ("cannot list the directory: " ++ error))

/-- Walk the stack, its top first. A walk that is not through at its deadline is given up, and says
where it was; the thread that is left behind takes back what it armed. -/
def walk (w : World) (filter : Filter) (budget : Budget) (deadline already : Nat) :
    Nat → Nat → List Start → List Walked → Except WatchError (List Walked)
  | _, _, [], walked => .ok walked
  | 0, _, start :: _, _ => .error (.deadline start.path deadline)
  | inTime + 1, i, start :: stack, walked => do
    match ← enter w filter budget (already + walked.length) i start with
    | none => walk w filter budget deadline already inTime (i + 1) stack walked
    | some (record, children) =>
      walk w filter budget deadline already inTime (i + 1) (children ++ stack) (walked ++ [record])

/-! ## The arena -/

/-- A recursively watched source tree. `released` are the watches given back, in order. -/
structure TreeWatch where
  root : OsText
  /-- `none` only until the first walk has armed the root. -/
  rootWd : Option Wd
  nodes : Nodes
  filter : Filter
  events : EventSet
  budget : Budget
  deadline : Nat
  released : List Wd

theorem size_erase_lt {nodes : Nodes} {wd : Wd} {node : Node} (hnode : nodes[wd]? = some node) :
    (nodes.erase wd).size < nodes.size := by
  have hmem : wd ∈ nodes := by
    rw [Std.TreeMap.mem_iff_isSome_getElem?, hnode]
    rfl
  have hpos : nodes.size ≠ 0 := by
    intro hzero
    have hempty : nodes.isEmpty = true := by simp [Std.TreeMap.isEmpty_eq_size_eq_zero, hzero]
    exact Std.TreeMap.isEmpty_iff_forall_not_mem.mp hempty wd hmem
  rw [Std.TreeMap.size_erase, if_pos (Std.TreeMap.contains_iff_mem.mpr hmem)]
  omega

/-- The children of a dropped node, which nothing else would give back, the last of them first. -/
def orphans (node : Node) : List (Wd × Bool) :=
  (node.children.map fun child => (child, true)).reverse

/-- The nodes on the stack dropped with everything beneath them, and the watches that are given back
for them. -/
def sweep (nodes : Nodes) (released : List Wd) : List (Wd × Bool) → Nodes × List Wd
  | [] => (nodes, released)
  | (current, remove) :: stack =>
    let released := if remove then released ++ [current] else released
    match _hnode : nodes[current]? with
    | some node =>
      sweep (nodes.erase current) released (orphans node ++ stack)
    | none => sweep nodes released stack
termination_by stack => (nodes.size, stack.length)
decreasing_by
  · exact Prod.Lex.left _ _ (size_erase_lt _hnode)
  · exact Prod.Lex.right _ (by simp)

namespace TreeWatch

def child (t : TreeWatch) (parent : Wd) (name : OsText) : Option Wd :=
  t.nodes[parent]?.bind fun node => node.children.find? fun child =>
    t.nodes[child]?.any fun node => decide (node.name = name)

/-- Unlink a node from its parent's children. -/
def detach (t : TreeWatch) (wd : Wd) : TreeWatch :=
  match t.nodes[wd]?.bind Arena.Entry.parent with
  | none => t
  | some parent => { t with nodes := t.nodes.modify parent (Arena.Entry.without wd) }

/-- Drop a node and everything beneath it. `removeSelf` also gives back the node's own watch. -/
def forget (t : TreeWatch) (wd : Wd) (removeSelf : Bool) : TreeWatch :=
  match t.nodes[wd]? with
  | none => if removeSelf then { t with released := t.released ++ [wd] } else t
  | some _ =>
    let swept := sweep (t.detach wd).nodes t.released [(wd, removeSelf)]
    { t with nodes := swept.1, released := swept.2 }

/-- Put a node under a parent that is in the arena, moving it if it was elsewhere. A node that has the
name there is unlinked. -/
def place (t : TreeWatch) (wd : Wd) (parent : Option Wd) (name : OsText) : TreeWatch :=
  let detached := if t.nodes.contains wd then t.detach wd else t
  let children := (detached.nodes[wd]?.map Arena.Entry.children).getD []
  let removed := { detached with nodes := detached.nodes.erase wd }
  let linked := match parent with
    | none => removed
    | some parent =>
      let unlinked := match removed.child parent name with
        | some stale => removed.detach stale
        | none => removed
      { unlinked with
        nodes := unlinked.nodes.modify parent fun node =>
          { node with children := node.children ++ [wd] } }
  { linked with nodes := linked.nodes.insert wd ⟨parent, name, children⟩ }

/-- Put a node under a parent, moving it if it was elsewhere. Under a parent that has gone it is
dropped. -/
def attach (t : TreeWatch) (wd : Wd) (parent : Option Wd) (name : OsText) : TreeWatch :=
  if parent.any fun parent => !t.nodes.contains parent then t.forget wd true
  else if t.nodes[wd]?.any fun existing =>
      decide (existing.parent = parent ∧ existing.name = name) then t
  else t.place wd parent name

/-- The names from a node up to the root, the root's own left out. -/
def climb (nodes : Nodes) : Nat → Wd → List (List Char) → Option (List (List Char))
  | 0, _, _ => none
  | fuel + 1, current, names =>
    match nodes[current]? with
    | none => none
    | some node =>
      match node.parent with
      | some parent => climb nodes fuel parent (toStringLossy node.name :: names)
      | none => some names

/-- The path of a node relative to the root. -/
def relative (t : TreeWatch) (wd : Wd) : Option (List Char) :=
  (climb t.nodes (t.nodes.size + 1) wd []).map fun names => List.intercalate ['/'] names

/-! ## The walks of a tree -/

/-- A walk from the starts, the last of them first. -/
def walkBounded (t : TreeWatch) (w : World) (starts : List Start) (already : Nat) :
    Except WatchError (List Walked) :=
  walk w t.filter t.budget t.deadline already w.inTime 0 starts.reverse []

/-- A record of the rewalk. Only the root's has no parent. -/
def relink (t : TreeWatch) (record : Walked) : TreeWatch :=
  let rooted := if record.parent.isNone then { t with rootWd := some record.wd } else t
  rooted.attach record.wd record.parent record.name

/-- The root, for a walk of the whole tree. -/
def source (t : TreeWatch) : Start := ⟨t.root, [], none, []⟩

/-- Walk the whole tree again and make the arena exactly what it finds. -/
def rewalk (t : TreeWatch) (w : World) : Except WatchError TreeWatch := do
  let walked ← t.walkBounded w [t.source] 0
  let fresh := walked.foldl relink { t with nodes := ∅ }
  let missing := (w.order t.nodes.keys).filter fun wd => !fresh.nodes.contains wd
  return { fresh with released := fresh.released ++ missing }

end TreeWatch

/-- The watch of a source before anything is armed. -/
def unarmed (root : OsText) (filter : Filter) (events : EventSet) (budget : Budget) (deadline : Nat) :
    TreeWatch where
  root := root
  rootWd := none
  nodes := ∅
  filter := filter
  events := events
  budget := budget
  deadline := deadline
  released := []

/-- Watch a source and every directory beneath it that the filter does not exclude. -/
def arm (w : World) (root : OsText) (filter : Filter) (events : EventSet) (budget : Budget)
    (deadline : Nat) : Except WatchError TreeWatch :=
  (unarmed root filter events budget deadline).rewalk w

/-! ## A batch of events -/

structure Batch where
  tree : TreeWatch
  changes : List Change
  newDirs : List Start
  moves : Std.TreeMap Nat Wd
  overflow : Bool
  rulesChanged : Bool

def Batch.begin (t : TreeWatch) : Batch := ⟨t, [], [], ∅, false, false⟩

/-- What an event is about, before anything is done for it. -/
inductive Reading where
  | overflow
  | sourceGone
  | unwatched
  | stranger
  | itself (dir : List Char)
  | rulesFile (entry : List Char)
  | excluded
  | listed (dir entry : List Char) (name : OsText)
deriving DecidableEq, Repr

def reading (t : TreeWatch) (event : Event) : Reading :=
  let mask := event.mask
  if mask.qOverflow then .overflow
  else if some event.wd = t.rootWd ∧
      (mask.deleteSelf || mask.moveSelf || mask.unmount || mask.ignored) then .sourceGone
  else if mask.ignored || mask.unmount then .unwatched
  else
    match t.relative event.wd with
    | none => .stranger
    | some dir =>
      match event.name with
      | none => .itself dir
      | some name =>
        let entry := joinRelative dir (toStringLossy name)
        if dir = [] ∧ isRulesFile entry then .rulesFile entry
        else if t.filter.excludes entry mask.isDir then .excluded
        else .listed dir entry name

/-- What an event about a directory asks for. -/
inductive DirAction where
  | watch (start : Start)
  | moves (child : Wd)
  | renamed (child : Wd)
  | nothing
deriving DecidableEq, Repr

def dirAction (b : Batch) (event : Event) (entry : List Char) (name : OsText) : DirAction :=
  let start : Start := ⟨joinPath b.tree.root (Utf8.encode entry), entry, some event.wd, name⟩
  let known := (b.tree.child event.wd name).isSome
  if event.mask.create && !known then .watch start
  else if event.mask.movedFrom then
    match b.tree.child event.wd name with
    | some child => .moves child
    | none => .nothing
  else if event.mask.movedTo then
    match b.moves[event.cookie]? with
    | some child => .renamed child
    | none => if known then .nothing else .watch start
  else .nothing

def Batch.act (b : Batch) (event : Event) (name : OsText) : DirAction → Batch
  | .watch start => { b with newDirs := b.newDirs ++ [start] }
  | .moves child => { b with moves := b.moves.insert event.cookie child }
  | .renamed child =>
    { b with
      moves := b.moves.erase event.cookie
      tree := b.tree.attach child (some event.wd) name }
  | .nothing => b

def Batch.report (b : Batch) (change : Change) : Batch := { b with changes := b.changes ++ [change] }

/-- What stands before the last slash of a path. -/
def parentText (dir : List Char) : List Char :=
  ((dir.reverse.dropWhile fun c => decide (c ≠ '/')).drop 1).reverse

def stepEvent (b : Batch) (event : Event) : Except WatchError Batch :=
  match reading b.tree event with
  | .overflow => .ok { b with overflow := true }
  | .sourceGone => .error (.sourceGone b.tree.root)
  | .unwatched => .ok { b with tree := b.tree.forget event.wd false }
  | .stranger | .excluded => .ok b
  | .itself dir =>
    if event.mask.attrib && b.tree.events.attrib && !dir.isEmpty then
      .ok (b.report (.path (parentText dir) dir .attrib))
    else .ok b
  | .rulesFile entry =>
    .ok (Batch.report { b with rulesChanged := true } (.path [] entry (kindOf event.mask)))
  | .listed dir entry name =>
    let acted := if event.mask.isDir then b.act event name (dirAction b event entry name) else b
    if b.tree.events.reports (kindOf event.mask) then
      .ok (acted.report (.path dir entry (kindOf event.mask)))
    else .ok acted

/-- The tree after the events: what was moved out of it is dropped, and changed rules are read again.
On an invalid ignore file the previous rules stay. -/
def Batch.settled (b : Batch) (w : World) : TreeWatch :=
  let forgotten := (w.order (b.moves.toList.map Prod.snd)).foldl (fun t child => t.forget child true)
    b.tree
  match b.rulesChanged, w.reread with
  | true, some filter => { forgotten with filter := filter }
  | _, _ => forgotten

/-- A record of the walk of new directories. -/
def found (state : TreeWatch × List Change) (record : Walked) : TreeWatch × List Change :=
  let t := state.1.attach record.wd record.parent record.name
  match t.relative record.wd with
  | some dir => (t, state.2 ++ [.path dir dir .newDir])
  | none => (t, state.2)

def process (w : World) (t : TreeWatch) (events : List Event) :
    Except WatchError (TreeWatch × List Change) := do
  let b ← events.foldlM stepEvent (Batch.begin t)
  let t := b.settled w
  if b.overflow || b.rulesChanged then
    let t ← t.rewalk w
    return (t, if b.overflow then b.changes ++ [.overflow] else b.changes)
  else if b.newDirs.isEmpty then return (t, b.changes)
  else
    let walked ← t.walkBounded w b.newDirs t.nodes.size
    return walked.foldl found (t, b.changes)

/-- Batches one after the other, each met by its own world. -/
def processAll (t : TreeWatch) (batches : List (World × List Event)) : Except WatchError TreeWatch :=
  batches.foldlM (fun t batch => Prod.fst <$> process batch.1 t batch.2) t

end Watch
end DriveSync
