import NTux.Fs.RamfsTree

/-! # The shape of the file system

The nodes below the root form a tree: there is one way to each of them
(`Ramfs.Valid.descent_unique`). Every node has at most sixteen children, every file holds
its contents, and only directories have children (`Ramfs.Shaped`), as long as no call of
`ramfs_mkdir` creates a directory in a file (`RamfsEvent.InDirectory`).
-/

namespace NTux.Fs

open NTux.Foundation

namespace Ramfs

variable {s : Ramfs}

/-! ## The invariant -/

/-- The contents of a file are in memory: `size` characters and a `NUL`. -/
def HoldsText (s : Ramfs) (node : Node) : Prop :=
  ∃ contents text, node.data = some contents ∧ s.block contents = some (cBytes text) ∧
    node.size = text.length

structure Shaped (s : Ramfs) : Prop where
  top : ∀ r node, s.root = some r → s.node r = some node → node.type = .dir
  room : ∀ p node, s.node p = some node → node.children.length ≤ maxChildren
  kinds : ∀ p node, s.node p = some node → node.children ≠ [] → node.type = .dir
  contents : ∀ p node, s.node p = some node → node.type = .file → s.HoldsText node

/-- A new node without children. -/
theorem Shaped.addLeaf (shaped : s.Shaped) (valid : s.Valid) {p : Ptr} {node : Node}
    (free : s.node p = none) (leaf : node.children = [])
    (holds : node.type = .file → s.HoldsText node) : (s.setNode p node).Shaped := by
  have cases : ∀ q other, (s.setNode p node).node q = some other →
      other = node ∨ s.node q = some other := by
    intro q other present
    rw [setNode_node] at present
    split at present
    · exact .inl (Option.some.inj present).symm
    · exact .inr present
  refine ⟨?_, ?_, ?_, ?_⟩
  · intro r other root present
    obtain ⟨rootNode, rootPresent, -⟩ := valid.root r root
    rw [setNode_of_ne node (ne_of_free free rootPresent)] at present
    exact shaped.top r other root present
  · intro q other present
    rcases cases q other present with rfl | old
    · rw [leaf]
      exact Nat.zero_le _
    · exact shaped.room q other old
  · intro q other present
    rcases cases q other present with rfl | old
    · exact fun parent => absurd leaf parent
    · exact shaped.kinds q other old
  · intro q other present isFile
    rcases cases q other present with rfl | old
    · exact holds isFile
    · exact shaped.contents q other old isFile

/-- A node with other children. -/
theorem Shaped.setChildren (shaped : s.Shaped) {p : Ptr} {node : Node} {children : List Ptr}
    (present : s.node p = some node) (room : children.length ≤ maxChildren)
    (kind : children ≠ [] → node.type = .dir) :
    (s.setNode p { node with children := children }).Shaped := by
  have cases : ∀ q other, (s.setNode p { node with children := children }).node q = some other →
      q = p ∧ other = { node with children := children } ∨ s.node q = some other := by
    intro q other after
    rw [setNode_node] at after
    split at after
    · next equal => exact .inl ⟨equal, (Option.some.inj after).symm⟩
    · exact .inr after
  refine ⟨?_, ?_, ?_, ?_⟩
  · intro r other root after
    rcases cases r other after with ⟨rfl, rfl⟩ | old
    · exact shaped.top r node root present
    · exact shaped.top r other root old
  · intro q other after
    rcases cases q other after with ⟨-, rfl⟩ | old
    · exact room
    · exact shaped.room q other old
  · intro q other after
    rcases cases q other after with ⟨-, rfl⟩ | old
    · exact kind
    · exact shaped.kinds q other old
  · intro q other after isFile
    rcases cases q other after with ⟨-, rfl⟩ | old
    · exact shaped.contents p node present isFile
    · exact shaped.contents q other old isFile

/-- New file contents in free memory. -/
theorem Shaped.addBlock (shaped : s.Shaped) {p : Ptr} (free : s.block p = none)
    (bytes : List (BitVec 8)) : (s.setBlock p bytes).Shaped := by
  refine ⟨shaped.top, shaped.room, shaped.kinds, ?_⟩
  intro q node present isFile
  obtain ⟨contents, text, data, block, size⟩ := shaped.contents q node present isFile
  have differ : contents ≠ p := by
    rintro rfl
    exact nomatch free.symm.trans block
  exact ⟨contents, text, data, (Function.update_of_ne differ _ _).trans block, size⟩

/-- A new last child, in a directory that has room for it. -/
theorem Shaped.adopt (shaped : s.Shaped) (valid : s.Valid) {p new : Ptr} {dir node : Node}
    (free : s.node new = none) (leaf : node.children = [])
    (holds : node.type = .file → s.HoldsText node) (present : s.node p = some dir)
    (room : dir.children.length < maxChildren) (kind : dir.type = .dir) :
    (s.adopt p dir new node).Shaped := by
  have added := shaped.addLeaf valid free leaf holds
  apply added.setChildren ((setNode_of_ne node (ne_of_free free present)).trans present)
  · rw [List.length_append]
    exact room
  · exact fun _ => kind

/-- A file leaves its directory and is freed. -/
theorem Shaped.delete (shaped : s.Shaped) (valid : s.Valid) {p parent : Ptr} {node dir : Node}
    (present : s.node p = some node) (dirPresent : s.node parent = some dir) :
    (((s.setNode parent { dir with children := dir.children.erase p }).kfree
      node.data).kfree (some p)).Shaped := by
  have erased : (s.setNode parent { dir with children := dir.children.erase p }).Shaped := by
    apply shaped.setChildren dirPresent
    · exact (List.length_erase_le).trans (shaped.room parent dir dirPresent)
    · intro nonempty
      apply shaped.kinds parent dir dirPresent
      rintro empty
      rw [empty] at nonempty
      exact nonempty rfl
  have noNode : ∀ d, node.data = some d →
      (s.setNode parent { dir with children := dir.children.erase p }).node d = none := by
    intro d data
    have free := (valid.blocks p node d present data).2
    rw [setNode_of_ne _ (ne_of_free free dirPresent).symm, free]
  -- what was in use before belongs to another node, so its contents are not freed
  have owner : ∀ q other, q ≠ p →
      (s.setNode parent { dir with children := dir.children.erase p }).node q = some other →
      ∃ old, s.node q = some old ∧ old.data = other.data := by
    intro q other _ listed
    rw [setNode_node] at listed
    split at listed
    · next equal =>
        obtain rfl := Option.some.inj listed
        exact ⟨dir, equal ▸ dirPresent, rfl⟩
    · exact ⟨other, listed, rfl⟩
  have after := kfree_node (p := p) noNode
  have old : ∀ q other, (((s.setNode parent { dir with children := dir.children.erase p }).kfree
      node.data).kfree (some p)).node q = some other → q ≠ p ∧
        (s.setNode parent { dir with children := dir.children.erase p }).node q = some other := by
    intro q other listed
    rw [after] at listed
    split at listed
    · cases listed
    · next differ => exact ⟨differ, listed⟩
  refine ⟨?_, ?_, ?_, ?_⟩
  · intro r other root listed
    refine erased.top r other ?_ (old r other listed).2
    cases data : node.data <;> rw [data] at root <;> exact root
  · exact fun q other listed => erased.room q other (old q other listed).2
  · exact fun q other listed => erased.kinds q other (old q other listed).2
  · intro q other listed isFile
    obtain ⟨differ, before⟩ := old q other listed
    obtain ⟨contents, text, data, block, size⟩ := erased.contents q other before isFile
    obtain ⟨first, firstPresent, firstData⟩ := owner q other differ before
    refine ⟨contents, text, data, ?_, size⟩
    have held : first.data = some contents := firstData.trans data
    have notNode : contents ≠ p := by
      rintro rfl
      exact nomatch (valid.blocks q first contents firstPresent held).2.symm.trans present
    change Function.update (kfree _ node.data).block p none contents = _
    rw [Function.update_of_ne notNode]
    cases freed : node.data with
    | none => exact block
    | some d =>
        refine (Function.update_of_ne ?_ _ _).trans block
        rintro rfl
        exact differ (valid.owned q p first node contents firstPresent present held freed)

/-! ## The directories that a call creates -/

/-- The first component that is missing on the way is created in a directory, if it is
created at all. -/
def CreatedInDir (a : Allocator) (s : Ramfs) : List CString → Ptr → Prop
  | [], _ => True
  | token :: rest, cur =>
      match s.childNamed cur token with
      | some child => CreatedInDir a s rest child
      | none => ∀ node, s.node cur = some node → node.children.length < maxChildren →
          a.kmalloc s nodeSize ≠ none → node.type = .dir

theorem createdInDir_new {a : Allocator} {p : Ptr} {name : CString} {parent : Ptr}
    (present : s.node p = some (newDir name parent)) (path : List CString) :
    s.CreatedInDir a path p := by
  cases path with
  | nil => trivial
  | cons token rest =>
      rw [CreatedInDir, childNamed_leaf present (newDir_leaf name parent)]
      rintro node listed - -
      obtain rfl := Option.some.inj (present.symm.trans listed)
      rfl

theorem Shaped.search (shaped : s.Shaped) {a : Allocator} {path : List CString} {cur : Ptr}
    {result : Option Ptr} {t : Ramfs} (inDir : s.CreatedInDir a path cur)
    (search : Search a s path cur result t) : t.Shaped := by
  have noText : ∀ (u : Ramfs) token p, (newDir token p).type = .file → u.HoldsText (newDir token p) :=
    fun _ _ _ isFile => nomatch isFile
  induction search with
  | done => exact shaped
  | follow _ found _ ih =>
      rw [CreatedInDir, found] at inDir
      exact ih shaped inDir
  | noMemory => exact shaped
  | full valid _ _ given =>
      exact shaped.addLeaf valid (a.fresh given).1 (newDir_leaf _ _) (noText _ _ _)
  | create valid present missing given room _ ih =>
      have free := (a.fresh given).1
      rw [CreatedInDir, missing] at inDir
      have kind := inDir _ present room (given ▸ Option.some_ne_none _)
      exact ih
        (shaped.adopt valid free (newDir_leaf _ _) (noText _ _ _) present room kind)
        (createdInDir_new (addDir_new _ (ne_of_free free present)) _)

theorem Shaped.findNode_true (shaped : s.Shaped) (valid : s.Valid) {a : Allocator}
    {path : CString} {result : Option Ptr} {t : Ramfs}
    (inDir : ∀ r, s.root = some r → s.CreatedInDir a (tokens slash (path.take maxPath)) r)
    (searched : s.findNode a true path = some (result, t)) : t.Shaped := by
  rw [findNode] at searched
  cases root : s.root with
  | none =>
      rw [root] at searched
      obtain ⟨-, rfl⟩ := Prod.mk.inj (Option.some.inj searched)
      exact shaped
  | some r =>
      obtain ⟨node, present, -⟩ := valid.root r root
      rw [root] at searched
      dsimp only at searched
      split at searched
      · obtain ⟨-, rfl⟩ := Prod.mk.inj (Option.some.inj searched)
        exact shaped
      · exact shaped.search (inDir r root) (valid.search ⟨node, present⟩ searched)

end Ramfs

/-- `ramfs_mkdir` creates no directory in a file. -/
def RamfsEvent.InDirectory (s : Ramfs) : RamfsEvent → Prop
  | mkdir a path =>
      ∀ r, s.root = some r → s.CreatedInDir a (tokens slash (path.take maxPath)) r
  | createFile _ _ _ => True
  | deleteFile _ _ => True

namespace Ramfs

variable {s : Ramfs}

/-- The directory for a file is created in the root. -/
theorem Shaped.createdInDir_parent (shaped : s.Shaped) (a : Allocator)
    {path parent filename : CString} (parts : splitPath path = some (parent, filename)) (r : Ptr)
    (root : s.root = some r) : s.CreatedInDir a (tokens slash (parent.take maxPath)) r := by
  rw [tokens_parent parts, CreatedInDir]
  cases s.childNamed r parent with
  | some child => trivial
  | none => exact fun node present _ _ => shaped.top r node root present

/-- Every call that creates no directory in a file keeps the shape. -/
theorem Shaped.step (shaped : s.Shaped) (valid : s.Valid) {event : RamfsEvent} {t : Ramfs}
    (inDir : event.InDirectory s) (step : RamfsStep s event t) : t.Shaped := by
  obtain ⟨result, done⟩ := step
  cases event with
  | mkdir a path =>
      obtain ⟨found, searched⟩ := mkdir_cases done
      exact shaped.findNode_true valid inDir searched
  | createFile a path data =>
      rcases createFile_cases done with
        ⟨-, ⟨rfl, -⟩ | ⟨parent, filename, found, parts, searched⟩⟩ |
        ⟨parent, filename, middle, p, dir, file, contents, parts, searched, present, isDir, -,
          room, -, fresh, -, rfl⟩
      · exact shaped
      · exact shaped.findNode_true valid (shaped.createdInDir_parent a parts) searched
      · have middleShaped :=
          shaped.findNode_true valid (shaped.createdInDir_parent a parts) searched
        have middleValid := (valid.findNode_keeps searched).valid
        have stored : (middle.setBlock contents (cBytes data)).block contents =
            some (cBytes data) := Function.update_self _ _ _
        exact (middleShaped.addBlock fresh.contentsBlock _).adopt (middleValid.addBlock _)
          fresh.node rfl (fun _ => ⟨contents, data, rfl, stored, rfl⟩) present room isDir
  | deleteFile a path =>
      rcases valid.deleteFile_cases done with
        ⟨-, rfl⟩ | ⟨p, parent, node, dir, -, -, present, up, listed, -, rfl⟩
      · exact shaped
      · exact shaped.delete valid present listed

theorem shaped_init (a : Allocator) : (init a empty).Shaped := by
  have noNodes : empty.Shaped :=
    ⟨fun _ _ _ present => (nomatch present), fun _ _ present => (nomatch present),
      fun _ _ present => (nomatch present), fun _ _ present => (nomatch present)⟩
  unfold init
  cases given : a.kmalloc empty nodeSize with
  | none =>
      exact ⟨fun _ _ _ present => (nomatch present), noNodes.room, noNodes.kinds,
        noNodes.contents⟩
  | some root =>
      have only : ∀ p node, (empty.setNode root ⟨[], .dir, none, [], none, 0⟩).node p = some node →
          node = ⟨[], .dir, none, [], none, 0⟩ := by
        intro p node present
        rw [setNode_node] at present
        split at present
        · exact (Option.some.inj present).symm
        · cases present
      refine ⟨?_, ?_, ?_, ?_⟩
      · intro r node _ present
        rw [only r node present]
      · intro p node present
        rw [only p node present]
        exact Nat.zero_le _
      · intro p node present
        rw [only p node present]
        exact fun _ => rfl
      · intro p node present
        rw [only p node present]
        exact fun isFile => nomatch isFile

/-! ## The tree -/

/-- The nodes on a way down from the root, the last one first. -/
inductive Descent (s : Ramfs) (r : Ptr) : List Ptr → Ptr → Prop where
  | root : Descent s r [] r
  | child {p c : Ptr} {node : Node} {way : List Ptr} : Descent s r way p →
      s.node p = some node → c ∈ node.children → Descent s r (c :: way) c

theorem Valid.descent_live (valid : s.Valid) {r p : Ptr} {way : List Ptr} (root : s.root = some r)
    (down : s.Descent r way p) : ∃ node, s.node p = some node := by
  cases down with
  | root => exact (valid.root r root).imp fun _ both => both.1
  | child _ present member =>
      exact (valid.children _ _ present _ member).imp fun _ both => both.1

/-- There is one way to each node. -/
theorem Valid.descent_unique (valid : s.Valid) {r p : Ptr} {first second : List Ptr}
    (root : s.root = some r) (down : s.Descent r first p) (again : s.Descent r second p) :
    first = second := by
  obtain ⟨top, topPresent, noParent⟩ := valid.root r root
  have notRoot : ∀ q node, s.node q = some node → r ∉ node.children := by
    intro q node present member
    obtain ⟨child, childPresent, parent⟩ := valid.children q node present r member
    obtain rfl := Option.some.inj (topPresent.symm.trans childPresent)
    exact nomatch noParent.symm.trans parent
  induction down generalizing second with
  | root =>
      cases again with
      | root => rfl
      | child _ present member => exact absurd member (notRoot _ _ present)
  | child _ present member ih =>
      cases again with
      | root => exact absurd member (notRoot _ _ present)
      | child down' present' member' =>
          obtain ⟨child, childPresent, parent⟩ := valid.children _ _ present _ member
          obtain ⟨child', childPresent', parent'⟩ := valid.children _ _ present' _ member'
          obtain rfl := Option.some.inj (childPresent.symm.trans childPresent')
          obtain rfl := Option.some.inj (parent.symm.trans parent')
          rw [ih down']

/-- The nodes below the root form a tree of directories and files. -/
structure FileTree (s : Ramfs) (r : Ptr) : Prop where
  live : ∀ way p, s.Descent r way p → ∃ node, s.node p = some node
  unique : ∀ first second p, s.Descent r first p → s.Descent r second p → first = second
  room : ∀ way p node, s.Descent r way p → s.node p = some node →
    node.children.length ≤ maxChildren
  parents : ∀ way p node c, s.Descent r way p → s.node p = some node → c ∈ node.children →
    ∃ child, s.node c = some child ∧ child.parent = some p
  once : ∀ way p node c, s.Descent r way p → s.node p = some node → c ∈ node.children →
    node.children.count c = 1
  kinds : ∀ way p node, s.Descent r way p → s.node p = some node → node.children ≠ [] →
    node.type = .dir
  contents : ∀ way p node, s.Descent r way p → s.node p = some node → node.type = .file →
    s.HoldsText node

theorem Shaped.fileTree (shaped : s.Shaped) (valid : s.Valid) {r : Ptr} (root : s.root = some r) :
    s.FileTree r where
  live _ _ down := valid.descent_live root down
  unique _ _ _ first second := valid.descent_unique root first second
  room _ p node _ := shaped.room p node
  parents _ p node c _ present := valid.children p node present c
  once _ p node _ _ present := List.count_eq_one_of_mem (valid.distinct p node present)
  kinds _ p node _ := shaped.kinds p node
  contents _ p node _ := shaped.contents p node

end Ramfs

/-- **The tree.** After calls that create no directory in a file, the nodes below the root
form a tree of directories and files. -/
theorem ramfs_fileTree {a : Allocator} {events : List RamfsEvent} {s : Ramfs} {r : Ptr}
    (run : Run (Guarded (fun s event => event.InDirectory s) RamfsStep) (.init a .empty) events s)
    (root : s.root = some r) : s.FileTree r := by
  have kept : ∀ source event target, source.Valid ∧ source.Shaped →
      Guarded (fun s event => RamfsEvent.InDirectory s event) RamfsStep source event target →
        target.Valid ∧ target.Shaped := fun _ _ _ holds step =>
    ⟨(holds.1.step step.2).1, holds.2.step holds.1 step.1 step.2⟩
  obtain ⟨valid, shaped⟩ := run.invariant kept ⟨Ramfs.valid_init a, Ramfs.shaped_init a⟩
  exact shaped.fileTree valid root

/-! ## A directory in a file -/

/-- `/etc/hosts/etc` -/
def fileDirPath : CString := slash :: hostsPath ++ etcPath

def shapeCreate : RamfsEvent := .createFile (.pool 8) hostsPath etcPath

def shapeMkdir : RamfsEvent := .mkdir (.pool 8) fileDirPath

/-- A file in a directory. -/
theorem ramfs_fileTree_hosts : (shapeCreate.apply sampleRamfs).FileTree 1 := by
  have inDir : shapeCreate.InDirectory sampleRamfs := trivial
  have step : RamfsStep sampleRamfs shapeCreate (shapeCreate.apply sampleRamfs) :=
    ramfsStep_apply (by decide)
  exact ramfs_fileTree (.single ⟨inDir, step⟩) (by decide)

/-- `ramfs_mkdir` puts a directory into a file. -/
theorem ramfs_fileTree_fileDir :
    ∃ s, Run RamfsStep sampleRamfs [shapeCreate, shapeMkdir] s ∧ s.root = some 1 ∧
      ¬ s.FileTree 1 := by
  refine ⟨shapeMkdir.apply (shapeCreate.apply sampleRamfs),
    .cons (ramfsStep_apply (by decide)) (.single (ramfsStep_apply (by decide))), by decide,
    fun tree => ?_⟩
  generalize after : shapeMkdir.apply (shapeCreate.apply sampleRamfs) = s at tree
  have top : (s.node 1).map (·.children) = some [2] := by rw [← after]; decide
  have dir : (s.node 2).map (·.children) = some [3] := by rw [← after]; decide
  have file : (s.node 3).map (fun node => (node.children, node.type)) = some ([5], .file) := by
    rw [← after]
    decide
  obtain ⟨root, rootPresent, rootChildren⟩ := Option.map_eq_some_iff.mp top
  obtain ⟨etc, etcPresent, etcChildren⟩ := Option.map_eq_some_iff.mp dir
  obtain ⟨hosts, hostsPresent, both⟩ := Option.map_eq_some_iff.mp file
  obtain ⟨hostsChildren, isFile⟩ := Prod.mk.inj both
  have down : s.Descent 1 [3, 2] 3 :=
    .child (.child .root rootPresent (rootChildren ▸ List.mem_cons_self)) etcPresent
      (etcChildren ▸ List.mem_cons_self)
  have kind := tree.kinds _ 3 hosts down hostsPresent (by rw [hostsChildren]; decide)
  exact nomatch isFile.symm.trans kind

end NTux.Fs
