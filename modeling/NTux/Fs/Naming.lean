import NTux.Fs.RamfsTree

/-! # Names in the file system

Where the names of siblings are distinct, not empty and without a slash (`Named`), every
node is found by the names on the way to it (`find_absolutePath`). The operations keep
this as long as no call stores a name that contains a slash or that a sibling already has
(`RamfsEvent.Clean`).
-/

namespace NTux.Fs

open NTux.Foundation

namespace Ramfs

variable {s : Ramfs}

/-! ## Siblings -/

def nameOf (s : Ramfs) (p : Ptr) : Option CString := (s.node p).map (·.name)

/-- The names of a directory's children are distinct, not empty and without a slash. -/
structure ProperNames (s : Ramfs) (dir : Node) : Prop where
  distinct : (dir.children.map s.nameOf).Nodup
  proper : ∀ c ∈ dir.children, ∀ name, s.nameOf c = some name → name ≠ [] ∧ slash ∉ name

/-- All siblings have proper names. -/
def Named (s : Ramfs) : Prop := ∀ p dir, s.node p = some dir → s.ProperNames dir

theorem named_iff_nameOf {name : CString} {p : Ptr} :
    s.named name p = true ↔ s.nameOf p = some name := by
  rw [named_iff, nameOf, Option.map_eq_some_iff]

theorem setNode_nameOf (p q : Ptr) (node : Node) :
    (s.setNode p node).nameOf q = if q = p then some node.name else s.nameOf q := by
  rw [nameOf, setNode_node]
  split <;> rfl

/-- Names that stay the same stay proper. -/
theorem ProperNames.congr {t : Ramfs} {dir : Node} (names : s.ProperNames dir)
    (same : ∀ c ∈ dir.children, t.nameOf c = s.nameOf c) : t.ProperNames dir where
  distinct := by
    rw [List.map_congr_left same]
    exact names.distinct
  proper := fun c member name named => names.proper c member name (same c member ▸ named)

theorem Named.addLeaf (names : s.Named) (valid : s.Valid) {p : Ptr} {node : Node}
    (free : s.node p = none) (leaf : node.children = []) : (s.setNode p node).Named := by
  intro q dir present
  rw [setNode_node] at present
  split at present
  · obtain rfl := Option.some.inj present
    refine ⟨?_, ?_⟩ <;> rw [leaf]
    · exact List.nodup_nil
    · exact fun _ member => absurd member List.not_mem_nil
  · apply (names q dir present).congr
    intro c member
    obtain ⟨child, childPresent, -⟩ := valid.children q dir present c member
    rw [setNode_nameOf, if_neg (ne_of_free free childPresent)]

/-- A child with a name that its siblings do not have. -/
theorem Named.adopt (names : s.Named) (valid : s.Valid) {p new : Ptr} {dir node : Node}
    (free : s.node new = none) (leaf : node.children = []) (present : s.node p = some dir)
    (nonempty : node.name ≠ []) (clean : slash ∉ node.name)
    (unused : s.childNamed p node.name = none) :
    (s.adopt p dir new node).Named := by
  have differ := ne_of_free free present
  have nameNew : (s.adopt p dir new node).nameOf new = some node.name := by
    rw [Ramfs.adopt, setNode_nameOf, if_neg differ.symm, setNode_nameOf, if_pos rfl]
  have nameOld : ∀ c, c ≠ new → (s.adopt p dir new node).nameOf c = s.nameOf c := by
    intro c notNew
    rw [Ramfs.adopt, setNode_nameOf, setNode_nameOf, if_neg notNew]
    split
    · next equal => rw [equal, nameOf, present, Option.map_some]
    · rfl
  have notNew : ∀ q other, s.node q = some other → ∀ c ∈ other.children, c ≠ new := by
    intro q other old c member
    obtain ⟨child, childPresent, -⟩ := valid.children q other old c member
    exact ne_of_free free childPresent
  have old : ∀ q other, s.node q = some other → (s.adopt p dir new node).ProperNames other :=
    fun q other before =>
    (names q other before).congr fun c member => nameOld c (notNew q other before c member)
  intro q other after
  rw [Ramfs.adopt, setNode_node] at after
  split at after
  · obtain rfl := Option.some.inj after
    have before := old p dir present
    refine ⟨?_, ?_⟩
    · rw [List.map_append]
      refine List.nodup_append.mpr ⟨before.distinct, List.nodup_singleton _, ?_⟩
      rintro first member _ last rfl
      obtain ⟨c, listed, rfl⟩ := List.mem_map.mp member
      obtain same := (List.mem_singleton.mp last).trans nameNew
      rw [nameOld c (notNew p dir present c listed)] at same
      rw [childNamed, present, Option.bind_some] at unused
      exact List.find?_eq_none.mp unused c listed (named_iff_nameOf.mpr same)
    · intro c member name named
      rcases List.mem_append.mp member with listed | last
      · exact before.proper c listed name named
      · obtain rfl := List.mem_singleton.mp last
        obtain rfl := Option.some.inj (nameNew.symm.trans named)
        exact ⟨nonempty, clean⟩
  · rw [setNode_node] at after
    split at after
    · obtain rfl := Option.some.inj after
      refine ⟨?_, ?_⟩ <;> rw [leaf]
      · exact List.nodup_nil
      · exact fun _ member => absurd member List.not_mem_nil
    · exact old q other after

/-- A file leaves its directory. -/
theorem Named.delete (names : s.Named) (valid : s.Valid) {p parent : Ptr} {node dir : Node}
    (present : s.node p = some node) (up : node.parent = some parent)
    (dirPresent : s.node parent = some dir) :
    (((s.setNode parent { dir with children := dir.children.erase p }).kfree
      node.data).kfree (some p)).Named := by
  have noNode : ∀ d, node.data = some d →
      (s.setNode parent { dir with children := dir.children.erase p }).node d = none := by
    intro d data
    have free := (valid.blocks p node d present data).2
    rw [setNode_of_ne _ (ne_of_free free dirPresent).symm, free]
  have after := kfree_node (p := p) noNode
  generalize ((s.setNode parent { dir with children := dir.children.erase p }).kfree
    node.data).kfree (some p) = t at after
  have nameOld : ∀ c, c ≠ p → t.nameOf c = s.nameOf c := by
    intro c differ
    rw [nameOf, after, if_neg differ]
    change (s.setNode parent _).nameOf c = _
    rw [setNode_nameOf]
    split
    · next equal => rw [equal, nameOf, dirPresent, Option.map_some]
    · rfl
  intro q other present'
  rw [after] at present'
  split at present'
  · cases present'
  · rw [setNode_node] at present'
    split at present'
    · obtain rfl := Option.some.inj present'
      have before := names parent dir dirPresent
      have erased : ∀ c ∈ dir.children.erase p, t.nameOf c = s.nameOf c := fun c member =>
        nameOld c ((valid.distinct parent dir dirPresent).mem_erase_iff.mp member).1
      refine ⟨?_, ?_⟩
      · rw [List.map_congr_left erased]
        exact before.distinct.sublist (List.erase_sublist.map _)
      · intro c member name named
        exact before.proper c (List.mem_of_mem_erase member) name (erased c member ▸ named)
    · next differ =>
        apply (names q other present').congr
        intro c member
        apply nameOld
        rintro rfl
        obtain ⟨child, childPresent, back⟩ := valid.children q other present' c member
        obtain rfl := Option.some.inj (present.symm.trans childPresent)
        exact differ (Option.some.inj (back.symm.trans up))

/-! ## Absolute paths -/

/-- The names on a way down the tree. -/
inductive Way (s : Ramfs) : Ptr → List CString → Ptr → Prop where
  | nil (p : Ptr) : Way s p [] p
  | cons {p c q : Ptr} {dir child : Node} {names : List CString} : s.node p = some dir →
      c ∈ dir.children → s.node c = some child → Way s c names q →
        Way s p (child.name :: names) q

/-- The path of a node: the names on the way to it, with a slash in front of each. -/
def absolutePath (names : List CString) : CString := names.flatMap (slash :: ·)

/-- Among siblings with distinct names the search finds the right one. -/
theorem Named.childNamed (names : s.Named) {p c : Ptr} {dir child : Node}
    (present : s.node p = some dir) (member : c ∈ dir.children)
    (childPresent : s.node c = some child) : s.childNamed p child.name = some c := by
  have name : s.nameOf c = some child.name := by rw [nameOf, childPresent, Option.map_some]
  rw [Ramfs.childNamed, present, Option.bind_some]
  cases found : dir.children.find? (s.named child.name) with
  | none =>
      have other := List.find?_eq_none.mp found c member
      exact absurd (named_iff_nameOf.mpr name) other
  | some d =>
      have same : s.nameOf d = s.nameOf c :=
        (named_iff_nameOf.mp (List.find?_some found)).trans name.symm
      exact congrArg some (List.inj_on_of_nodup_map (names p dir present).distinct
        (List.mem_of_find?_eq_some found) member same)

theorem Named.lookup (named : s.Named) {p q : Ptr} {names : List CString} (way : s.Way p names q) :
    s.lookup names p = some q := by
  induction way with
  | nil => rfl
  | cons present member childPresent _ ih =>
      rw [Ramfs.lookup, named.childNamed present member childPresent, Option.bind_some, ih]

/-- The names on a way are proper. -/
theorem Named.way (named : s.Named) {p q : Ptr} {names : List CString} (way : s.Way p names q) :
    ∀ name ∈ names, name ≠ [] ∧ slash ∉ name := by
  induction way with
  | nil => exact fun _ member => absurd member List.not_mem_nil
  | cons present member childPresent _ ih =>
      intro name listed
      rcases List.mem_cons.mp listed with rfl | later
      · exact (named _ _ present).proper _ member _ (by rw [nameOf, childPresent, Option.map_some])
      · exact ih name later

/-- A node is found by its own path. -/
theorem Named.find (named : s.Named) {r p : Ptr} {names : List CString} (root : s.root = some r)
    (way : s.Way r names p) (short : (absolutePath names).length ≤ maxPath) :
    s.find (absolutePath names) = some p := by
  have proper := named.way way
  have scanned : tokens slash ((absolutePath names).take maxPath) = names := by
    rw [List.take_of_length_le short]
    exact tokens_join (fun name member => (proper name member).1)
      fun name member => (proper name member).2
  rw [Ramfs.find, root, Option.bind_some]
  split
  · next isRoot =>
      have none : names = [] := by
        rw [← scanned]
        rcases isRoot with equal | equal <;> rw [equal] <;> rfl
      subst none
      cases way
      rfl
  · rw [scanned]
    exact named.lookup way

/-! ## The names that a call stores -/

/-- The directory has room for a child, and there is memory for it. -/
def CanAdd (s : Ramfs) (a : Allocator) (p : Ptr) : Prop :=
  ∃ dir, s.node p = some dir ∧ dir.children.length < maxChildren ∧
    a.kmalloc s nodeSize ≠ none

/-- The first token that is missing on the way, which is the first to be created, has a stored
name that no child of its directory has. -/
def FreshNames (a : Allocator) (s : Ramfs) : List CString → Ptr → Prop
  | [], _ => True
  | token :: rest, cur =>
      match s.childNamed cur token with
      | some child => FreshNames a s rest child
      | none => s.CanAdd a cur → s.childNamed cur (token.take maxName) = none

/-- The file that `ramfs_create_file` stores in an existing directory has a stored name that
no child of the directory has. -/
def FreshFileName (a : Allocator) (s : Ramfs) (p : Ptr) (filename : CString) : Prop :=
  s.CanAdd a p → (∀ dir, s.node p = some dir → dir.type = .dir) →
    s.childNamed p filename = none →
      slash ∉ filename.take maxName ∧ s.childNamed p (filename.take maxName) = none

end Ramfs

/-- The call stores no name that contains a slash or that a sibling has. -/
def RamfsEvent.Clean (s : Ramfs) : RamfsEvent → Prop
  | mkdir a path => ∀ r, s.root = some r →
      s.FreshNames a (tokens slash (path.take maxPath)) r
  | createFile a path _ => ∀ r parent filename, s.root = some r →
      Ramfs.splitPath path = some (parent, filename) →
        match s.childNamed r parent with
        | some p => s.FreshFileName a p filename
        | none => s.CanAdd a r → s.childNamed r (parent.take maxName) = none ∧
            slash ∉ filename.take maxName
  | deleteFile _ _ => True

namespace Ramfs

variable {s : Ramfs}

/-- In an empty directory every name is fresh. -/
theorem freshNames_leaf (a : Allocator) {p : Ptr} {node : Node} (present : s.node p = some node)
    (leaf : node.children = []) (path : List CString) : s.FreshNames a path p := by
  cases path with
  | nil => trivial
  | cons token rest =>
      rw [FreshNames, childNamed_leaf present leaf]
      exact fun _ => childNamed_leaf present leaf _

/-- What is kept of a name that is not empty and has no slash. -/
theorem take_proper {name : CString} (nonempty : name ≠ []) :
    name.take maxName ≠ [] ∧ (slash ∉ name → slash ∉ name.take maxName) := by
  refine ⟨?_, fun clean member => clean (List.mem_of_mem_take member)⟩
  intro empty
  rcases List.take_eq_nil_iff.mp empty with none | none
  · exact nomatch none
  · exact nonempty none

theorem Named.addDir (named : s.Named) (valid : s.Valid) {a : Allocator} {p new : Ptr}
    {dir : Node} {name : CString} (given : a.kmalloc s nodeSize = some new)
    (present : s.node p = some dir) (nonempty : name ≠ []) (clean : slash ∉ name)
    (unused : s.childNamed p (name.take maxName) = none) : (s.addDir p dir new name).Named :=
  named.adopt valid (a.fresh given).1 (newDir_leaf name p) present (take_proper nonempty).1
    ((take_proper nonempty).2 clean) unused

theorem Named.search (named : s.Named) {a : Allocator} {path : List CString} {cur : Ptr}
    {result : Option Ptr} {t : Ramfs} (proper : ∀ token ∈ path, token ≠ [] ∧ slash ∉ token)
    (fresh : s.FreshNames a path cur) (search : Search a s path cur result t) : t.Named := by
  induction search with
  | done => exact named
  | follow _ found _ ih =>
      rw [FreshNames, found] at fresh
      exact ih named (fun other member => proper other (List.mem_cons_of_mem _ member)) fresh
  | noMemory => exact named
  | full valid _ _ given => exact named.addLeaf valid (a.fresh given).1 (newDir_leaf _ _)
  | create valid present missing given room _ ih =>
      obtain ⟨nonempty, clean⟩ := proper _ List.mem_cons_self
      have canAdd : CanAdd _ a _ := ⟨_, present, room, given ▸ Option.some_ne_none _⟩
      rw [FreshNames, missing] at fresh
      exact ih (named.addDir valid given present nonempty clean (fresh canAdd))
        (fun other member => proper other (List.mem_cons_of_mem _ member))
        (freshNames_leaf a (addDir_new _ (ne_of_free (a.fresh given).1 present))
          (newDir_leaf _ _) _)

theorem named_init (a : Allocator) : (init a empty).Named := by
  intro p dir present
  have leaf : dir.children = [] := by
    unfold init at present
    split at present
    · cases present
    · change (empty.setNode _ _).node p = some dir at present
      rw [setNode_node] at present
      split at present
      · obtain rfl := Option.some.inj present
        rfl
      · cases present
  refine ⟨?_, ?_⟩ <;> rw [leaf]
  · exact List.nodup_nil
  · exact fun _ member => absurd member List.not_mem_nil

theorem Named.withFile (named : s.Named) (valid : s.Valid) {filename data : CString}
    {parent file contents : Ptr} {dir : Node} (fresh : s.FreshFile file contents)
    (present : s.node parent = some dir) (nonempty : filename ≠ [])
    (clean : slash ∉ filename.take maxName)
    (unused : s.childNamed parent (filename.take maxName) = none) :
    (s.withFile filename data parent dir file contents).Named := by
  have before : (s.setBlock contents (cBytes data)).Named := fun p other listed =>
    ⟨(named p other listed).distinct, (named p other listed).proper⟩
  exact before.adopt (valid.addBlock _) fresh.node rfl present (take_proper nonempty).1 clean
    unused

theorem Named.findNode_true (named : s.Named) (valid : s.Valid) {a : Allocator} {path : CString}
    {r : Ptr} {result : Option Ptr} {t : Ramfs} (root : s.root = some r)
    (fresh : s.FreshNames a (tokens slash (path.take maxPath)) r)
    (searched : s.findNode a true path = some (result, t)) : t.Named := by
  obtain ⟨node, present, -⟩ := valid.root r root
  rw [findNode, root] at searched
  dsimp only at searched
  split at searched
  · obtain ⟨-, rfl⟩ := Prod.mk.inj (Option.some.inj searched)
    exact named
  · exact named.search (fun _ member => mem_tokens member) fresh
      (valid.search ⟨node, present⟩ searched)

/-- A file that `ramfs_create_file` stores under a proper name. -/
theorem Named.createFile (named : s.Named) (valid : s.Valid) {a : Allocator}
    {path data : CString} {r : Ptr} {result : Option Ptr} {t : Ramfs} (root : s.root = some r)
    (clean : (RamfsEvent.createFile a path data).Clean s)
    (done : s.createFile a path data = some (result, t)) : t.Named := by
  obtain ⟨top, topPresent, -⟩ := valid.root r root
  have stored : ∀ parent filename, splitPath path = some (parent, filename) →
      ∀ found middle, s.findNode a true parent = some (found, middle) → middle.Named := by
    intro parent filename parts found middle searched
    apply named.findNode_true valid root _ searched
    rw [tokens_parent parts, FreshNames]
    have fresh := clean r parent filename root parts
    cases exists' : s.childNamed r parent with
    | some child => trivial
    | none =>
        rw [exists'] at fresh
        exact fun canAdd => (fresh canAdd).1
  rcases createFile_cases done with
    ⟨-, ⟨rfl, -⟩ | ⟨parent, filename, found, parts, searched⟩⟩ |
    ⟨parent, filename, middle, p, dir, file, contents, parts, searched, present, isDir, absent,
      room, given, fresh, -, rfl⟩
  · exact named
  · exact stored parent filename parts found t searched
  · have middleNamed := stored parent filename parts (some p) middle searched
    have keeps := valid.findNode_keeps searched
    obtain ⟨-, -, nonempty, -⟩ := splitPath_spec parts
    have names : slash ∉ filename.take maxName ∧
        middle.childNamed p (filename.take maxName) = none := by
      have condition := clean r parent filename root parts
      have unlisted := (keeps.valid.findChild present filename).symm.trans absent
      rcases valid.findNode_parent_cases parts root topPresent searched with
        ⟨found, rfl⟩ | ⟨missing, taken, topRoom, rfl⟩
      · rw [found] at condition
        have canAdd : middle.CanAdd a p := ⟨dir, present, room, given ▸ Option.some_ne_none file⟩
        apply condition canAdd
        · intro other listed
          obtain rfl := Option.some.inj (present.symm.trans listed)
          exact isDir
        · exact Option.some.inj unlisted
      · rw [missing] at condition
        have canAdd : s.CanAdd a r := ⟨top, topPresent, topRoom, taken ▸ Option.some_ne_none p⟩
        have newPresent : (s.addDir r top p parent).node p = some (newDir parent r) :=
          addDir_new parent (ne_of_free (a.fresh taken).1 topPresent)
        exact ⟨(condition canAdd).2, childNamed_leaf newPresent (newDir_leaf parent r) _⟩
    exact middleNamed.withFile keeps.valid fresh present nonempty names.1 names.2

/-- Every call that stores proper names keeps the names of siblings proper. -/
theorem Named.step (named : s.Named) (valid : s.Valid) {event : RamfsEvent} {t : Ramfs}
    (clean : event.Clean s) (step : RamfsStep s event t) : t.Named := by
  obtain ⟨result, done⟩ := step
  cases event with
  | mkdir a path =>
      obtain ⟨found, searched⟩ := mkdir_cases done
      cases root : s.root with
      | none =>
          rw [Ramfs.findNode, root] at searched
          obtain ⟨-, rfl⟩ := Prod.mk.inj (Option.some.inj searched)
          exact named
      | some r => exact named.findNode_true valid root (clean r root) searched
  | createFile a path data =>
      cases root : s.root with
      | none =>
          simp only [RamfsEvent.call, Ramfs.createFile, root] at done
          obtain ⟨-, rfl⟩ := Prod.mk.inj (Option.some.inj done)
          exact named
      | some r => exact named.createFile valid root clean done
  | deleteFile a path =>
      rcases valid.deleteFile_cases done with
        ⟨-, rfl⟩ | ⟨p, parent, node, dir, -, -, present, up, listed, -, rfl⟩
      · exact named
      · exact named.delete valid present up listed

/-- Every node of the tree is found by its own path, and siblings have proper names. -/
structure NamesResolve (s : Ramfs) : Prop where
  found : ∀ r names p, s.root = some r → s.Way r names p →
    (absolutePath names).length ≤ maxPath →
      ∀ a, s.findNode a false (absolutePath names) = some (some p, s)
  siblings : ∀ r names p dir, s.root = some r → s.Way r names p → s.node p = some dir →
    s.ProperNames dir

theorem Named.resolve (named : s.Named) (valid : s.Valid) : s.NamesResolve where
  found r names p root way short a := by
    rw [valid.findNode_false a, named.find root way short]
  siblings _ _ p dir _ _ present := named p dir present

end Ramfs

/-- **Names.** After calls that store no name with a slash or of a sibling, every node is
found by its own path. -/
theorem ramfs_names_resolve {a : Allocator} {events : List RamfsEvent} {s : Ramfs}
    (run : Run (Guarded (fun s event => event.Clean s) RamfsStep) (.init a .empty) events s) :
    s.NamesResolve := by
  have kept : ∀ source event target, source.Valid ∧ source.Named →
      Guarded (fun s event => RamfsEvent.Clean s event) RamfsStep source event target →
        target.Valid ∧ target.Named := fun _ _ _ holds step =>
    ⟨(holds.1.step step.2).1, holds.2.step holds.1 step.1 step.2⟩
  obtain ⟨valid, named⟩ := run.invariant kept ⟨Ramfs.valid_init a, Ramfs.named_init a⟩
  exact named.resolve valid

/-! ## A directory and a file -/

def sampleMkdir : RamfsEvent := .mkdir (.pool 8) etcPath

def sampleCreate : RamfsEvent := .createFile (.pool 8) hostsPath etcPath

/-- A file in a directory, with names that no sibling has. -/
theorem ramfs_names_resolve_hosts :
    (sampleCreate.apply (sampleMkdir.apply sampleRamfs)).NamesResolve := by
  have mkdirClean : sampleMkdir.Clean sampleRamfs := by
    intro r root
    obtain rfl : r = 1 := Option.some.inj (root.symm.trans (by decide))
    have path : tokens slash (etcPath.take maxPath) = [etcName] := by decide
    have missing : sampleRamfs.childNamed 1 etcName = none := by decide
    rw [path, Ramfs.FreshNames, missing]
    exact fun _ => by decide
  have createClean : sampleCreate.Clean (sampleMkdir.apply sampleRamfs) := by
    intro r parent filename root parts
    obtain rfl : r = 1 := Option.some.inj (root.symm.trans (by decide))
    have split : Ramfs.splitPath hostsPath =
        some (etcName, hostsName) := by decide
    obtain ⟨rfl, rfl⟩ := Prod.mk.inj (Option.some.inj (parts.symm.trans split))
    have found : (sampleMkdir.apply sampleRamfs).childNamed 1 etcName =
        some 2 := by decide
    rw [found]
    exact fun _ _ _ => by decide
  exact ramfs_names_resolve (.cons ⟨mkdirClean, ramfsStep_apply (by decide)⟩
    (.single ⟨createClean, ramfsStep_apply (by decide)⟩))

/-- A file in a directory of a directory gets a name with a slash and is not found. -/
theorem ramfs_names_nested :
    ∃ s, Run RamfsStep sampleRamfs [.createFile (.pool 8) nestedPath etcPath] s ∧
      ¬ s.NamesResolve := by
  refine ⟨_, .single (ramfsStep_apply (by decide)), fun resolve => ?_⟩
  generalize after : (RamfsEvent.createFile (.pool 8) nestedPath etcPath).apply sampleRamfs = s
    at resolve
  have root : s.root = some 1 := by rw [← after]; decide
  have top : s.node 1 = some ⟨[], .dir, none, [2], none, 0⟩ := by rw [← after]; decide
  have dir : s.node 2 = some ⟨etcName, .dir, some 1, [3], none, 0⟩ := by
    rw [← after]
    decide
  have file : s.nameOf 3 = some (.ofChars ['a', '/', 'b']) := by rw [← after]; decide
  have way : s.Way 1 [etcName] 2 :=
    .cons top List.mem_cons_self dir (.nil 2)
  have proper := (resolve.siblings 1 _ 2 _ root way dir).proper 3 List.mem_cons_self _ file
  exact proper.2 (by decide)

end NTux.Fs
