import NTux.Fs.Ramfs
import Mathlib.Data.List.Nodup

/-! # The tree of the file system

Every node that is in use lists children that are in use and point back to it, so a node
has one parent at most and can be freed once its parent no longer lists it
(`Ramfs.Valid`). All operations keep this.

In such a state the searches are defined, and `ramfs_find_node` without creation is a
function of the tokens of the path (`lookup`).
-/

namespace NTux.Fs

open NTux.Foundation

namespace Ramfs

variable {s : Ramfs}

/-! ## The invariant -/

structure Valid (s : Ramfs) : Prop where
  root : ∀ r, s.root = some r → ∃ node, s.node r = some node ∧ node.parent = none
  children : ∀ p node, s.node p = some node → ∀ c ∈ node.children,
    ∃ child, s.node c = some child ∧ child.parent = some p
  distinct : ∀ p node, s.node p = some node → node.children.Nodup
  names : ∀ p node, s.node p = some node → node.name.length ≤ maxName
  blocks : ∀ p node d, s.node p = some node → node.data = some d →
    s.block d ≠ none ∧ s.node d = none
  owned : ∀ p q node other d, s.node p = some node → s.node q = some other →
    node.data = some d → other.data = some d → p = q

theorem setNode_node (p q : Ptr) (node : Node) :
    (s.setNode p node).node q = if q = p then some node else s.node q :=
  Function.update_apply _ _ _ _

@[simp] theorem setNode_self (p : Ptr) (node : Node) : (s.setNode p node).node p = some node :=
  Function.update_self _ _ _

theorem setNode_of_ne {p q : Ptr} (node : Node) (differ : q ≠ p) :
    (s.setNode p node).node q = s.node q :=
  Function.update_of_ne differ _ _

/-- A new node without children. -/
theorem Valid.addLeaf (valid : s.Valid) {p : Ptr} {node : Node} (free : s.node p = none)
    (noBlock : s.block p = none) (leaf : node.children = []) (short : node.name.length ≤ maxName)
    (data : ∀ d, node.data = some d → d ≠ p ∧ s.block d ≠ none ∧ s.node d = none ∧
      ∀ q other, s.node q = some other → other.data ≠ some d) :
    (s.setNode p node).Valid := by
  have live : ∀ q other, s.node q = some other → q ≠ p := by
    rintro q other present rfl
    exact nomatch free.symm.trans present
  have cases : ∀ q other, (s.setNode p node).node q = some other →
      q = p ∧ other = node ∨ q ≠ p ∧ s.node q = some other := by
    intro q other present
    rw [setNode_node] at present
    split at present
    · next equal => exact .inl ⟨equal, (Option.some.inj present).symm⟩
    · next differ => exact .inr ⟨differ, present⟩
  refine ⟨?_, ?_, ?_, ?_, ?_, ?_⟩
  · intro r root
    obtain ⟨rootNode, present, noParent⟩ := valid.root r root
    exact ⟨rootNode, (setNode_of_ne node (live r rootNode present)).trans present, noParent⟩
  · intro q other present c member
    rcases cases q other present with ⟨rfl, rfl⟩ | ⟨-, old⟩
    · exact absurd (leaf ▸ member) List.not_mem_nil
    · obtain ⟨child, childPresent, parent⟩ := valid.children q other old c member
      exact ⟨child, (setNode_of_ne node (live c child childPresent)).trans childPresent, parent⟩
  · intro q other present
    rcases cases q other present with ⟨-, rfl⟩ | ⟨-, old⟩
    · rw [leaf]
      exact List.nodup_nil
    · exact valid.distinct q other old
  · intro q other present
    rcases cases q other present with ⟨-, rfl⟩ | ⟨-, old⟩
    · exact short
    · exact valid.names q other old
  · intro q other d present held
    have notNew : d ≠ p ∧ s.block d ≠ none ∧ s.node d = none := by
      rcases cases q other present with ⟨-, rfl⟩ | ⟨-, old⟩
      · exact ⟨(data d held).1, (data d held).2.1, (data d held).2.2.1⟩
      · obtain ⟨block, noNode⟩ := valid.blocks q other d old held
        refine ⟨?_, block, noNode⟩
        rintro rfl
        exact block noBlock
    exact ⟨notNew.2.1, (setNode_of_ne node notNew.1).trans notNew.2.2⟩
  · intro q q' x y d present present' held held'
    rcases cases q x present with ⟨rfl, rfl⟩ | ⟨-, old⟩
    · rcases cases q' y present' with ⟨rfl, -⟩ | ⟨-, old'⟩
      · rfl
      · exact absurd held' ((data d held).2.2.2 q' y old')
    · rcases cases q' y present' with ⟨rfl, rfl⟩ | ⟨-, old'⟩
      · exact absurd held ((data d held').2.2.2 q x old)
      · exact valid.owned q q' x y d old old' held held'

/-- A node with other children that point to it. -/
theorem Valid.setChildren (valid : s.Valid) {p : Ptr} {node : Node} {children : List Ptr}
    (present : s.node p = some node) (distinct : children.Nodup)
    (backward : ∀ c ∈ children, ∃ child, s.node c = some child ∧ child.parent = some p) :
    (s.setNode p { node with children := children }).Valid := by
  have shape : ∀ q other, (s.setNode p { node with children := children }).node q = some other →
      ∃ old, s.node q = some old ∧ other.name = old.name ∧ other.data = old.data := by
    intro q other after
    rw [setNode_node] at after
    split at after
    · next equal =>
        obtain rfl := Option.some.inj after
        exact ⟨node, equal ▸ present, rfl, rfl⟩
    · exact ⟨other, after, rfl, rfl⟩
  have parents : ∀ q other, s.node q = some other →
      ∃ new, (s.setNode p { node with children := children }).node q = some new ∧
        new.parent = other.parent := by
    intro q other before
    rw [setNode_node]
    split
    · next equal =>
        subst equal
        obtain rfl := Option.some.inj (present.symm.trans before)
        exact ⟨_, rfl, rfl⟩
    · exact ⟨other, before, rfl⟩
  refine ⟨?_, ?_, ?_, ?_, ?_, ?_⟩
  · intro r root
    obtain ⟨rootNode, rootPresent, noParent⟩ := valid.root r root
    obtain ⟨new, after, same⟩ := parents r rootNode rootPresent
    exact ⟨new, after, same.trans noParent⟩
  · intro q other after c member
    have back : ∃ child, s.node c = some child ∧ child.parent = some q := by
      rw [setNode_node] at after
      split at after
      · next equal =>
          obtain rfl := Option.some.inj after
          exact equal ▸ backward c member
      · exact valid.children q other after c member
    obtain ⟨child, childPresent, parent⟩ := back
    obtain ⟨new, childAfter, same⟩ := parents c child childPresent
    exact ⟨new, childAfter, same.trans parent⟩
  · intro q other after
    rw [setNode_node] at after
    split at after
    · obtain rfl := Option.some.inj after
      exact distinct
    · exact valid.distinct q other after
  · intro q other after
    obtain ⟨old, before, name, -⟩ := shape q other after
    rw [name]
    exact valid.names q old before
  · intro q other d after held
    obtain ⟨old, before, -, data⟩ := shape q other after
    obtain ⟨block, noNode⟩ := valid.blocks q old d before (data ▸ held)
    refine ⟨block, ?_⟩
    have differ : d ≠ p := by
      rintro rfl
      exact nomatch noNode.symm.trans present
    rw [setNode_of_ne _ differ, noNode]
  · intro q q' x y d after after' held held'
    obtain ⟨old, before, -, data⟩ := shape q x after
    obtain ⟨old', before', -, data'⟩ := shape q' y after'
    exact valid.owned q q' old old' d before before' (data ▸ held) (data' ▸ held')

/-- New file contents, which no node holds yet. -/
theorem Valid.addBlock (valid : s.Valid) {p : Ptr} (bytes : List (BitVec 8)) :
    (s.setBlock p bytes).Valid := by
  refine ⟨valid.root, valid.children, valid.distinct, valid.names, ?_, valid.owned⟩
  intro q node d present held
  obtain ⟨block, noNode⟩ := valid.blocks q node d present held
  refine ⟨?_, noNode⟩
  change Function.update s.block p (some bytes) d ≠ none
  rw [Function.update_apply]
  split
  · exact Option.some_ne_none _
  · exact block

/-- Freeing a node's contents and the node takes the node away and no other. -/
theorem kfree_node {p : Ptr} {data : Option Ptr} (noNode : ∀ d, data = some d → s.node d = none)
    (q : Ptr) : ((s.kfree data).kfree (some p)).node q = if q = p then none else s.node q := by
  change Function.update (s.kfree data).node p none q = _
  rw [Function.update_apply]
  congr 1
  cases data with
  | none => rfl
  | some d =>
      change Function.update s.node d none q = _
      rw [Function.update_apply]
      split
      · next equal => rw [equal, noNode d rfl]
      · rfl

/-- Freeing a node and its contents. -/
theorem Valid.remove (valid : s.Valid) {p : Ptr} {node : Node} (present : s.node p = some node)
    (notRoot : s.root ≠ some p)
    (unlisted : ∀ q other, s.node q = some other → p ∉ other.children) :
    ((s.kfree node.data).kfree (some p)).Valid := by
  have node' := kfree_node (p := p) fun d data => (valid.blocks p node d present data).2
  have block' : ∀ q, q ≠ p → node.data ≠ some q →
      ((s.kfree node.data).kfree (some p)).block q = s.block q := by
    intro q differ notData
    change Function.update (s.kfree node.data).block p none q = _
    rw [Function.update_of_ne differ]
    cases data : node.data with
    | none => rfl
    | some d =>
        refine Function.update_of_ne ?_ _ _
        rintro rfl
        exact notData data
  have old : ∀ q other, ((s.kfree node.data).kfree (some p)).node q = some other →
      q ≠ p ∧ s.node q = some other := by
    intro q other after
    rw [node'] at after
    split at after
    · cases after
    · next differ => exact ⟨differ, after⟩
  have keep : ∀ q other, q ≠ p → s.node q = some other →
      ((s.kfree node.data).kfree (some p)).node q = some other := by
    intro q other differ before
    rw [node', if_neg differ, before]
  have root' : ((s.kfree node.data).kfree (some p)).root = s.root := by
    cases node.data <;> rfl
  refine ⟨?_, ?_, ?_, ?_, ?_, ?_⟩
  · intro r root
    rw [root'] at root
    obtain ⟨rootNode, rootPresent, noParent⟩ := valid.root r root
    have differ : r ≠ p := fun equal => notRoot (equal ▸ root)
    exact ⟨rootNode, keep r rootNode differ rootPresent, noParent⟩
  · intro q other after c member
    obtain ⟨-, before⟩ := old q other after
    obtain ⟨child, childPresent, parent⟩ := valid.children q other before c member
    have differ : c ≠ p := fun equal => unlisted q other before (equal ▸ member)
    exact ⟨child, keep c child differ childPresent, parent⟩
  · exact fun q other after => valid.distinct q other (old q other after).2
  · exact fun q other after => valid.names q other (old q other after).2
  · intro q other d after held
    obtain ⟨differ, before⟩ := old q other after
    obtain ⟨block, noNode⟩ := valid.blocks q other d before held
    have notNode : d ≠ p := by
      rintro rfl
      exact nomatch noNode.symm.trans present
    have notData : node.data ≠ some d := fun data =>
      differ (valid.owned q p other node d before present held data)
    exact ⟨by rwa [block' d notNode notData], by rw [node', if_neg notNode, noNode]⟩
  · intro q q' x y d after after' held held'
    exact valid.owned q q' x y d (old q x after).2 (old q' y after').2 held held'

/-! ## Searches -/

/-- The name of the node at a pointer is the given one. -/
def named (s : Ramfs) (name : CString) (p : Ptr) : Bool :=
  (s.node p).any fun node => node.name = name

/-- The first child of a directory with a name. -/
def childNamed (s : Ramfs) (p : Ptr) (name : CString) : Option Ptr :=
  (s.node p).bind fun dir => dir.children.find? (s.named name)

/-- The node that the tokens of a path lead to. -/
def lookup (s : Ramfs) : List CString → Ptr → Option Ptr
  | [], cur => some cur
  | token :: rest, cur => (s.childNamed cur token).bind (s.lookup rest)

theorem named_iff {name : CString} {p : Ptr} :
    s.named name p = true ↔ ∃ node, s.node p = some node ∧ node.name = name := by
  rw [named, Option.any_eq_true]
  simp only [decide_eq_true_eq]

theorem findChild_eq {name : CString} {children : List Ptr}
    (live : ∀ c ∈ children, ∃ child, s.node c = some child) :
    s.findChild name children = some (children.find? (s.named name)) := by
  induction children with
  | nil => rfl
  | cons c rest ih =>
      obtain ⟨child, present⟩ := live c List.mem_cons_self
      have tail := ih fun d member => live d (List.mem_cons_of_mem _ member)
      rw [findChild, present, List.find?_cons, named, present, Option.any_some]
      by_cases same : child.name = name
      · simp only [same, decide_true, if_true]
      · simp only [same, decide_false, if_false, tail]

/-- The root and the children of a node in use are in use. -/
structure Linked (s : Ramfs) : Prop where
  root : ∀ r, s.root = some r → ∃ node, s.node r = some node
  children : ∀ p node, s.node p = some node → ∀ c ∈ node.children, ∃ child, s.node c = some child

theorem Valid.linked (valid : s.Valid) : s.Linked where
  root r root := (valid.root r root).imp fun _ both => both.1
  children p node present c member :=
    (valid.children p node present c member).imp fun _ both => both.1

theorem Linked.findChild (linked : s.Linked) {p : Ptr} {dir : Node} (present : s.node p = some dir)
    (name : CString) : s.findChild name dir.children = some (s.childNamed p name) := by
  rw [findChild_eq (linked.children p dir present), childNamed, present, Option.bind_some]

theorem Valid.findChild (valid : s.Valid) {p : Ptr} {dir : Node} (present : s.node p = some dir)
    (name : CString) : s.findChild name dir.children = some (s.childNamed p name) :=
  valid.linked.findChild present name

/-- The child found is a child with the name. -/
theorem childNamed_spec {p c : Ptr} {name : CString} (found : s.childNamed p name = some c) :
    ∃ dir child, s.node p = some dir ∧ c ∈ dir.children ∧ s.node c = some child ∧
      child.name = name := by
  obtain ⟨dir, present, first⟩ := Option.bind_eq_some_iff.mp found
  obtain ⟨child, childPresent, same⟩ := named_iff.mp (List.find?_some first)
  exact ⟨dir, child, present, List.mem_of_find?_eq_some first, childPresent, same⟩

theorem lookup_live {path : List CString} {cur p : Ptr} (live : ∃ node, s.node cur = some node)
    (found : s.lookup path cur = some p) : ∃ node, s.node p = some node := by
  induction path generalizing cur with
  | nil => exact Option.some.inj found ▸ live
  | cons token rest ih =>
      obtain ⟨c, first, later⟩ := Option.bind_eq_some_iff.mp found
      obtain ⟨-, child, -, -, present, -⟩ := childNamed_spec first
      exact ih ⟨child, present⟩ later

/-- Without creation the search is defined and leaves the file system as it is. -/
theorem Linked.walk_false (linked : s.Linked) (a : Allocator) (path : List CString) {cur : Ptr}
    (live : ∃ node, s.node cur = some node) :
    walk a false path cur s = some (s.lookup path cur, s) := by
  induction path generalizing cur with
  | nil => rfl
  | cons token rest ih =>
      obtain ⟨dir, present⟩ := live
      rw [walk, lookup]
      simp only [present, linked.findChild present token]
      cases found : s.childNamed cur token with
      | none => rfl
      | some c =>
          obtain ⟨-, child, -, -, childPresent, -⟩ := childNamed_spec found
          exact ih ⟨child, childPresent⟩

/-- The node that a path leads to. -/
def find (s : Ramfs) (path : CString) : Option Ptr :=
  s.root.bind fun root =>
    if path = [] ∨ path = [slash] then some root
    else s.lookup (tokens slash (path.take maxPath)) root

theorem Linked.findNode_false (linked : s.Linked) (a : Allocator) (path : CString) :
    s.findNode a false path = some (s.find path, s) := by
  rw [findNode, find]
  cases root : s.root with
  | none => rfl
  | some r =>
      dsimp only [Option.bind_some]
      split
      · rfl
      · exact linked.walk_false a _ (linked.root r root)

theorem Valid.findNode_false (valid : s.Valid) (a : Allocator) (path : CString) :
    s.findNode a false path = some (s.find path, s) :=
  valid.linked.findNode_false a path

/-- The path of the root has no tokens, so it is a path like any other. -/
theorem find_eq {r : Ptr} (root : s.root = some r) (path : CString) :
    s.find path = s.lookup (tokens slash (path.take maxPath)) r := by
  rw [find, root, Option.bind_some]
  split
  · next isRoot => rcases isRoot with rfl | rfl <;> rfl
  · rfl

theorem Valid.find_live (valid : s.Valid) {path : CString} {p : Ptr}
    (found : s.find path = some p) : ∃ node, s.node p = some node := by
  obtain ⟨r, root, found⟩ := Option.bind_eq_some_iff.mp found
  obtain ⟨node, present, -⟩ := valid.root r root
  split at found
  · exact Option.some.inj found ▸ ⟨node, present⟩
  · exact lookup_live ⟨node, present⟩ found

/-! ## Creation -/

/-- A new node as the last child of a directory. -/
def adopt (s : Ramfs) (p : Ptr) (dir : Node) (new : Ptr) (node : Node) : Ramfs :=
  (s.setNode new node).setNode p { dir with children := dir.children ++ [new] }

/-- A new directory in a directory. -/
def addDir (s : Ramfs) (p : Ptr) (dir : Node) (new : Ptr) (name : CString) : Ramfs :=
  s.adopt p dir new (newDir name p)

theorem newDir_leaf (name : CString) (p : Ptr) : (newDir name p).children = [] := rfl

theorem Valid.addNewDir (valid : s.Valid) {a : Allocator} {new : Ptr}
    (given : a.kmalloc s nodeSize = some new) (name : CString) (p : Ptr) :
    (s.setNode new (newDir name p)).Valid := by
  obtain ⟨free, noBlock⟩ := a.fresh given
  exact valid.addLeaf free noBlock (newDir_leaf name p) (List.length_take_le _ _)
    fun _ data => nomatch data

/-- A node in use is not the new one. -/
theorem ne_of_free {p q : Ptr} {node : Node} (free : s.node p = none)
    (present : s.node q = some node) : q ≠ p := by
  rintro rfl
  exact nomatch free.symm.trans present

/-- A new node that points to a directory becomes its last child. -/
theorem Valid.adopt (valid : s.Valid) {p new : Ptr} {dir node : Node} (free : s.node new = none)
    (added : (s.setNode new node).Valid) (present : s.node p = some dir)
    (parent : node.parent = some p) : (s.adopt p dir new node).Valid := by
  have differ := ne_of_free free present
  have unlisted : new ∉ dir.children := by
    intro member
    obtain ⟨child, childPresent, -⟩ := valid.children p dir present new member
    exact nomatch free.symm.trans childPresent
  apply added.setChildren ((setNode_of_ne node differ).trans present)
  · refine List.nodup_append.mpr ⟨valid.distinct p dir present, List.nodup_singleton new, ?_⟩
    rintro c member _ last rfl
    exact unlisted (List.mem_singleton.mp last ▸ member)
  · intro c member
    rcases List.mem_append.mp member with old | last
    · exact added.children p dir ((setNode_of_ne node differ).trans present) c old
    · obtain rfl := List.mem_singleton.mp last
      exact ⟨node, setNode_self _ _, parent⟩

theorem Valid.addDir (valid : s.Valid) {a : Allocator} {p new : Ptr} {dir : Node}
    (given : a.kmalloc s nodeSize = some new) (present : s.node p = some dir) (name : CString) :
    (s.addDir p dir new name).Valid :=
  valid.adopt (a.fresh given).1 (valid.addNewDir given name p) present rfl

theorem addDir_new {p new : Ptr} {dir : Node} (name : CString) (differ : p ≠ new) :
    (s.addDir p dir new name).node new = some (newDir name p) :=
  (setNode_of_ne _ differ.symm).trans (setNode_self _ _)

/-- One turn of the search with creation. -/
theorem Valid.walk_true_cons (valid : s.Valid) (a : Allocator) {token : CString}
    {rest : List CString} {cur : Ptr} {dir : Node} (present : s.node cur = some dir) :
    walk a true (token :: rest) cur s =
      match s.childNamed cur token with
      | some child => walk a true rest child s
      | none =>
        match a.kmalloc s nodeSize with
        | none => some (none, s)
        | some new =>
          if dir.children.length ≥ maxChildren then some (none, s.setNode new (newDir token cur))
          else walk a true rest new (s.addDir cur dir new token) := by
  rw [walk]
  simp only [present, valid.findChild present token, Bool.not_true, Bool.false_eq_true, if_false]
  cases s.childNamed cur token with
  | none => rfl
  | some child => rfl

/-- What a search or an operation leaves behind when it is defined. -/
structure Keeps (s : Ramfs) (result : Option Ptr) (t : Ramfs) : Prop where
  valid : t.Valid
  root : t.root = s.root
  live : ∀ p, result = some p → ∃ node, t.node p = some node

/-- What a search with creation does at each token. The relation adds no behaviour: every run
of `walk` in a sound tree is one (`Valid.walk_true`). -/
inductive Search (a : Allocator) : Ramfs → List CString → Ptr → Option Ptr → Ramfs → Prop
  | done {s : Ramfs} {cur : Ptr} (valid : s.Valid) (live : ∃ node, s.node cur = some node) :
      Search a s [] cur (some cur) s
  | follow {s t : Ramfs} {token : CString} {rest : List CString} {cur child : Ptr}
      {result : Option Ptr} (valid : s.Valid) (found : s.childNamed cur token = some child)
      (later : Search a s rest child result t) : Search a s (token :: rest) cur result t
  | noMemory {s : Ramfs} {token : CString} {rest : List CString} {cur : Ptr} (valid : s.Valid)
      (missing : s.childNamed cur token = none) (taken : a.kmalloc s nodeSize = none) :
      Search a s (token :: rest) cur none s
  | full {s : Ramfs} {token : CString} {rest : List CString} {cur new : Ptr} {dir : Node}
      (valid : s.Valid) (present : s.node cur = some dir)
      (missing : s.childNamed cur token = none) (given : a.kmalloc s nodeSize = some new) :
      Search a s (token :: rest) cur none (s.setNode new (newDir token cur))
  | create {s t : Ramfs} {token : CString} {rest : List CString} {cur new : Ptr} {dir : Node}
      {result : Option Ptr} (valid : s.Valid) (present : s.node cur = some dir)
      (missing : s.childNamed cur token = none) (given : a.kmalloc s nodeSize = some new)
      (room : dir.children.length < maxChildren)
      (later : Search a (s.addDir cur dir new token) rest new result t) :
      Search a s (token :: rest) cur result t

/-- The search with creation is defined. -/
theorem Valid.walk_true (valid : s.Valid) (a : Allocator) (path : List CString) {cur : Ptr}
    (live : ∃ node, s.node cur = some node) :
    ∃ result t, walk a true path cur s = some (result, t) ∧ Search a s path cur result t := by
  induction path generalizing cur s with
  | nil => exact ⟨some cur, s, rfl, .done valid live⟩
  | cons token rest ih =>
      obtain ⟨dir, present⟩ := live
      rw [valid.walk_true_cons a present]
      cases found : s.childNamed cur token with
      | some child =>
          obtain ⟨-, node, -, -, childPresent, -⟩ := childNamed_spec found
          obtain ⟨result, t, walked, search⟩ := ih valid ⟨node, childPresent⟩
          exact ⟨result, t, walked, .follow valid found search⟩
      | none =>
          cases given : a.kmalloc s nodeSize with
          | none => exact ⟨none, s, rfl, .noMemory valid found given⟩
          | some new =>
              dsimp only
              split
              · exact ⟨none, _, rfl, .full valid present found given⟩
              · next room =>
                  have differ := ne_of_free (a.fresh given).1 present
                  obtain ⟨result, t, walked, search⟩ := ih (valid.addDir given present token)
                    ⟨_, addDir_new token differ⟩
                  exact ⟨result, t, walked, .create valid present found given (not_le.mp room) search⟩

theorem Valid.search (valid : s.Valid) {a : Allocator} {path : List CString} {cur : Ptr}
    {result : Option Ptr} {t : Ramfs} (live : ∃ node, s.node cur = some node)
    (walked : walk a true path cur s = some (result, t)) : Search a s path cur result t := by
  obtain ⟨result', t', walked', search⟩ := valid.walk_true a path live
  obtain ⟨rfl, rfl⟩ := Prod.mk.inj (Option.some.inj (walked'.symm.trans walked))
  exact search

theorem Search.keeps {a : Allocator} {path : List CString} {cur : Ptr} {result : Option Ptr}
    {t : Ramfs} (search : Search a s path cur result t) : s.Keeps result t := by
  induction search with
  | done valid live =>
      refine ⟨valid, rfl, ?_⟩
      rintro p ⟨⟩
      exact live
  | follow _ _ _ ih => exact ih
  | noMemory valid => exact ⟨valid, rfl, fun _ absent => nomatch absent⟩
  | full valid _ _ given =>
      exact ⟨valid.addNewDir given _ _, rfl, fun _ absent => nomatch absent⟩
  | create _ _ _ _ _ _ ih => exact ⟨ih.valid, ih.root, ih.live⟩

theorem Valid.findNode_true (valid : s.Valid) (a : Allocator) (path : CString) :
    ∃ result t, s.findNode a true path = some (result, t) ∧ s.Keeps result t := by
  rw [findNode]
  cases root : s.root with
  | none => exact ⟨none, s, rfl, valid, rfl, fun _ absent => nomatch absent⟩
  | some r =>
      obtain ⟨node, present, -⟩ := valid.root r root
      dsimp only
      split
      · refine ⟨some r, s, rfl, valid, rfl, ?_⟩
        rintro p ⟨⟩
        exact ⟨node, present⟩
      · obtain ⟨result, t, walked, search⟩ := valid.walk_true a _ ⟨node, present⟩
        exact ⟨result, t, walked, search.keeps⟩

theorem Valid.findNode_keeps (valid : s.Valid) {a : Allocator} {path : CString}
    {result : Option Ptr} {t : Ramfs} (searched : s.findNode a true path = some (result, t)) :
    s.Keeps result t := by
  obtain ⟨result', t', searched', keeps⟩ := valid.findNode_true a path
  obtain ⟨rfl, rfl⟩ := Prod.mk.inj (Option.some.inj (searched'.symm.trans searched))
  exact keeps

/-- The parts of a path that `ramfs_create_file` splits. -/
theorem splitPath_spec {path parent filename : CString}
    (parts : splitPath path = some (parent, filename)) :
    parent ≠ [] ∧ slash ∉ parent ∧ filename ≠ [] ∧
      path.take maxPath = parent ++ slash :: filename := by
  unfold splitPath at parts
  split at parts
  · cases parts
  · next c rest behind =>
      dsimp only at parts
      split at parts
      · cases parts
      · next nonempty =>
          split at parts
          · cases parts
          · next rest' =>
              obtain ⟨rfl, rfl⟩ := Prod.mk.inj (Option.some.inj parts)
              have stopped := List.head?_dropWhile_not (fun c => decide (c ≠ slash))
                (path.take maxPath)
              rw [behind] at stopped
              have isSlash : c = slash := not_not.mp (of_decide_eq_false stopped)
              refine ⟨nonempty, ?_, rest', ?_⟩
              · intro member
                have passed := List.mem_takeWhile_imp member
                simp at passed
              · have whole : (path.take maxPath).takeWhile (· ≠ slash) ++
                    (path.take maxPath).dropWhile (· ≠ slash) = path.take maxPath :=
                  List.takeWhile_append_dropWhile
                rw [behind, isSlash] at whole
                exact whole.symm

/-- The first part of a split path is one token. -/
theorem tokens_parent {path parent filename : CString}
    (parts : splitPath path = some (parent, filename)) :
    tokens slash (parent.take maxPath) = [parent] := by
  obtain ⟨nonempty, clean, -, whole⟩ := splitPath_spec parts
  have short : parent.length ≤ maxPath := by
    have all := congrArg List.length whole
    have most := List.length_take_le maxPath path
    rw [List.length_append] at all
    omega
  rw [List.take_of_length_le short]
  exact tokens_self nonempty clean

/-- The directory that `ramfs_create_file` finds or creates for a file. -/
theorem Valid.findNode_parent (valid : s.Valid) {a : Allocator} {path parent filename : CString}
    (parts : splitPath path = some (parent, filename)) {r : Ptr} {top : Node}
    (root : s.root = some r) (present : s.node r = some top) :
    s.findNode a true parent =
      match s.childNamed r parent with
      | some child => some (some child, s)
      | none =>
        match a.kmalloc s nodeSize with
        | none => some (none, s)
        | some new =>
          if top.children.length ≥ maxChildren then some (none, s.setNode new (newDir parent r))
          else some (some new, s.addDir r top new parent) := by
  obtain ⟨nonempty, clean, -, -⟩ := splitPath_spec parts
  have notRoot : ¬ (parent = [] ∨ parent = [slash]) := by
    rintro (rfl | rfl)
    · exact nonempty rfl
    · exact clean List.mem_cons_self
  rw [findNode, root]
  simp only [if_neg notRoot, tokens_parent parts]
  rw [valid.walk_true_cons a present]
  rfl

/-- The directory for a file is a child of the root, or a new one. -/
theorem Valid.findNode_parent_cases (valid : s.Valid) {a : Allocator}
    {path parent filename : CString} (parts : splitPath path = some (parent, filename)) {r p : Ptr}
    {top : Node} {t : Ramfs} (root : s.root = some r) (present : s.node r = some top)
    (searched : s.findNode a true parent = some (some p, t)) :
    (s.childNamed r parent = some p ∧ t = s) ∨
      (s.childNamed r parent = none ∧ a.kmalloc s nodeSize = some p ∧
        top.children.length < maxChildren ∧ t = s.addDir r top p parent) := by
  rw [valid.findNode_parent parts root present] at searched
  cases found : s.childNamed r parent with
  | some child =>
      rw [found] at searched
      obtain ⟨⟨⟩, rfl⟩ := Prod.mk.inj (Option.some.inj searched)
      exact .inl ⟨rfl, rfl⟩
  | none =>
      rw [found] at searched
      cases taken : a.kmalloc s nodeSize with
      | none =>
          rw [taken] at searched
          cases searched
      | some new =>
          rw [taken] at searched
          dsimp only at searched
          split at searched
          · cases searched
          · next room =>
              obtain ⟨⟨⟩, rfl⟩ := Prod.mk.inj (Option.some.inj searched)
              exact .inr ⟨rfl, rfl, not_le.mp room, rfl⟩

theorem childNamed_leaf {p : Ptr} {node : Node} (present : s.node p = some node)
    (leaf : node.children = []) (name : CString) : s.childNamed p name = none := by
  rw [childNamed, present, Option.bind_some, leaf, List.find?_nil]

/-! ## Operations -/

theorem valid_init (a : Allocator) : (init a empty).Valid := by
  have noNodes : ∀ (root : Option Ptr), (∀ r, root ≠ some r) →
      ({ empty with root := root } : Ramfs).Valid := by
    intro root noRoot
    have noNode : ∀ p node, ({ empty with root := root } : Ramfs).node p ≠ some node :=
      fun _ _ present => nomatch present
    exact ⟨fun r given => absurd given (noRoot r),
      fun p node present => absurd present (noNode p node),
      fun p node present => absurd present (noNode p node),
      fun p node present => absurd present (noNode p node),
      fun p node _ present => absurd present (noNode p node),
      fun p _ node _ _ present => absurd present (noNode p node)⟩
  unfold init
  cases given : a.kmalloc empty nodeSize with
  | none => exact noNodes none fun _ given => nomatch given
  | some root =>
      have added : (empty.setNode root ⟨[], .dir, none, [], none, 0⟩).Valid :=
        (noNodes none fun _ given => nomatch given).addLeaf rfl rfl rfl (Nat.zero_le _)
          fun _ data => nomatch data
      refine ⟨?_, added.children, added.distinct, added.names, added.blocks, added.owned⟩
      rintro r ⟨⟩
      exact ⟨_, setNode_self _ _, rfl⟩

/-- `ramfs_mkdir` creates what its path lacks and returns what its path leads to. -/
theorem mkdir_cases {a : Allocator} {path : CString} {result : Option Ptr} {t : Ramfs}
    (done : s.mkdir a path = some (result, t)) :
    ∃ found, s.findNode a true path = some (found, t) := by
  unfold mkdir at done
  split at done
  · cases done
  · next t' searched =>
      obtain ⟨-, rfl⟩ := Prod.mk.inj (Option.some.inj done)
      exact ⟨none, searched⟩
  · next p t' searched =>
      split at done
      · cases done
      · next node present =>
          split at done <;> obtain ⟨-, rfl⟩ := Prod.mk.inj (Option.some.inj done) <;>
            exact ⟨some p, searched⟩

/-- A new file as `ramfs_create_file` fills it in. -/
def newFile (filename data : CString) (parent contents : Ptr) : Node where
  name := filename.take maxName
  type := .file
  parent := some parent
  children := []
  data := some contents
  size := data.length

/-- The file system with a new file in a directory. -/
def withFile (s : Ramfs) (filename data : CString) (parent : Ptr) (dir : Node)
    (file contents : Ptr) : Ramfs :=
  (s.setBlock contents (cBytes data)).adopt parent dir file (newFile filename data parent contents)

/-- The memory that `ramfs_create_file` takes is not in use. -/
structure FreshFile (s : Ramfs) (file contents : Ptr) : Prop where
  node : s.node file = none
  block : s.block file = none
  contentsNode : s.node contents = none
  contentsBlock : s.block contents = none
  differ : contents ≠ file

/-- What `ramfs_create_file` does once it has found a directory with room. -/
theorem addFile_cases {a : Allocator} {filename data : CString} {parent : Ptr} {dir : Node}
    {result : Option Ptr} {t : Ramfs}
    (done : s.addFile a filename data parent dir = some (result, t)) :
    ∃ file contents, a.kmalloc s nodeSize = some file ∧ result = some file ∧
      s.FreshFile file contents ∧ t = s.withFile filename data parent dir file contents := by
  unfold addFile at done
  cases given : a.kmalloc s nodeSize with
  | none =>
      simp only [given] at done
      cases done
  | some file =>
      obtain ⟨free, noBlock⟩ := a.fresh given
      simp only [given] at done
      split at done
      · cases done
      · next contents given' =>
          obtain ⟨free', noBlock'⟩ := a.fresh given'
          obtain ⟨rfl, rfl⟩ := Prod.mk.inj (Option.some.inj done)
          have differ : contents ≠ file := by
            rintro rfl
            exact nomatch free'.symm.trans (setNode_self _ _)
          refine ⟨file, contents, rfl, rfl, ⟨free, noBlock, ?_, noBlock', differ⟩, ?_⟩
          · exact (setNode_of_ne _ differ).symm.trans free'
          · unfold withFile adopt setNode setBlock
            rw [Function.update_idem]
            rfl

theorem Valid.withFile (valid : s.Valid) {filename data : CString} {parent file contents : Ptr}
    {dir : Node} (fresh : s.FreshFile file contents) (present : s.node parent = some dir) :
    (s.withFile filename data parent dir file contents).Valid := by
  have holds : (s.setBlock contents (cBytes data)).block contents ≠ none := by
    change Function.update s.block contents _ contents ≠ none
    rw [Function.update_self]
    exact Option.some_ne_none _
  have noBlock : (s.setBlock contents (cBytes data)).block file = none := by
    change Function.update s.block contents _ file = none
    rw [Function.update_of_ne fresh.differ.symm, fresh.block]
  have added : ((s.setBlock contents (cBytes data)).setNode file
      (newFile filename data parent contents)).Valid := by
    apply (valid.addBlock _).addLeaf fresh.node noBlock rfl (List.length_take_le _ _)
    rintro _ ⟨⟩
    refine ⟨fresh.differ, holds, fresh.contentsNode, ?_⟩
    intro q other old held
    exact (valid.blocks q other contents old held).1 fresh.contentsBlock
  exact (valid.addBlock _).adopt fresh.node added present rfl

/-- `ramfs_create_file` adds no file, or it adds one to the directory that the part of the
path before its first slash leads to. -/
theorem createFile_cases {a : Allocator} {path data : CString} {result : Option Ptr} {t : Ramfs}
    (done : s.createFile a path data = some (result, t)) :
    (result = none ∧ ((t = s ∧ (s.root = none ∨ splitPath path = none)) ∨
      ∃ parent filename found, splitPath path = some (parent, filename) ∧
        s.findNode a true parent = some (found, t))) ∨
    ∃ parent filename middle p dir file contents, splitPath path = some (parent, filename) ∧
      s.findNode a true parent = some (some p, middle) ∧ middle.node p = some dir ∧
      dir.type = .dir ∧ middle.findChild filename dir.children = some none ∧
      dir.children.length < maxChildren ∧ a.kmalloc middle nodeSize = some file ∧
      middle.FreshFile file contents ∧ result = some file ∧
      t = middle.withFile filename data p dir file contents := by
  unfold createFile at done
  split at done
  · next noRoot =>
      obtain ⟨rfl, rfl⟩ := Prod.mk.inj (Option.some.inj done)
      exact .inl ⟨rfl, .inl ⟨rfl, .inl noRoot⟩⟩
  · split at done
    · next noParts =>
        obtain ⟨rfl, rfl⟩ := Prod.mk.inj (Option.some.inj done)
        exact .inl ⟨rfl, .inl ⟨rfl, .inr noParts⟩⟩
    · next parent filename split' =>
        split at done
        · cases done
        · next middle searched =>
            obtain ⟨rfl, rfl⟩ := Prod.mk.inj (Option.some.inj done)
            exact .inl ⟨rfl, .inr ⟨parent, filename, none, split', searched⟩⟩
        · next p middle searched =>
            have nothing : result = none → t = middle → result = none ∧
                ((t = s ∧ (s.root = none ∨ splitPath path = none)) ∨
                  ∃ parent filename found, splitPath path = some (parent, filename) ∧
                    s.findNode a true parent = some (found, t)) :=
              fun none same => ⟨none, .inr ⟨parent, filename, some p, split', same ▸ searched⟩⟩
            split at done
            · cases done
            · next dir present =>
                split at done
                · obtain ⟨rfl, rfl⟩ := Prod.mk.inj (Option.some.inj done)
                  exact .inl (nothing rfl rfl)
                · next isDir =>
                    split at done
                    · cases done
                    · obtain ⟨rfl, rfl⟩ := Prod.mk.inj (Option.some.inj done)
                      exact .inl (nothing rfl rfl)
                    · next absent =>
                        split at done
                        · obtain ⟨rfl, rfl⟩ := Prod.mk.inj (Option.some.inj done)
                          exact .inl (nothing rfl rfl)
                        · next room =>
                            obtain ⟨file, contents, given, isFile, fresh, after⟩ :=
                              addFile_cases done
                            exact .inr ⟨parent, filename, middle, p, dir, file, contents, split',
                              searched, present, not_not.mp isDir, absent, not_le.mp room, given,
                              fresh, isFile, after⟩

/-- `ramfs_delete_file` does nothing, or it takes the file that its path leads to from its
directory and frees it. -/
theorem Valid.deleteFile_cases (valid : s.Valid) {a : Allocator} {path : CString}
    {result : Option Ptr} {t : Ramfs} (done : s.deleteFile a path = some (result, t)) :
    (result = none ∧ t = s) ∨ ∃ p parent node dir, result = some parent ∧ s.find path = some p ∧
      s.node p = some node ∧ node.parent = some parent ∧ s.node parent = some dir ∧
      p ∈ dir.children ∧
      t = ((s.setNode parent { dir with children := dir.children.erase p }).kfree
        node.data).kfree (some p) := by
  have searched := valid.findNode_false a path
  have nothing : some (none, s) = some (result, t) → result = none ∧ t = s := by
    intro same
    obtain ⟨rfl, rfl⟩ := Prod.mk.inj (Option.some.inj same)
    exact ⟨rfl, rfl⟩
  cases found : s.find path with
  | none =>
      simp only [deleteFile, searched, found] at done
      exact .inl (nothing done)
  | some p =>
      obtain ⟨node, present⟩ := valid.find_live found
      simp only [deleteFile, searched, found, present] at done
      split at done
      · exact .inl (nothing done)
      · split at done
        · exact .inl (nothing done)
        · next parent up =>
            split at done
            · cases done
            · next dir listed =>
                split at done
                · exact .inl (nothing done)
                · next member =>
                    obtain ⟨rfl, rfl⟩ := Prod.mk.inj (Option.some.inj done)
                    exact .inr ⟨p, parent, node, dir, rfl, rfl, present, up, listed,
                      not_not.mp member, rfl⟩

/-- Taking a node from its parent's children and freeing it. -/
theorem Valid.delete (valid : s.Valid) {p parent : Ptr} {node dir : Node}
    (present : s.node p = some node) (up : node.parent = some parent)
    (dirPresent : s.node parent = some dir) :
    (((s.setNode parent { dir with children := dir.children.erase p }).kfree
      node.data).kfree (some p)).Valid := by
  have distinct := valid.distinct parent dir dirPresent
  have erased : (s.setNode parent { dir with children := dir.children.erase p }).Valid :=
    valid.setChildren dirPresent (distinct.erase p)
      fun c member => valid.children parent dir dirPresent c (List.mem_of_mem_erase member)
  -- the node itself may have been its own parent's entry that was just replaced
  have after : ∃ node', (s.setNode parent { dir with children := dir.children.erase p }).node p =
      some node' ∧ node'.data = node.data := by
    rw [setNode_node]
    split
    · next equal =>
        subst equal
        obtain rfl := Option.some.inj (present.symm.trans dirPresent)
        exact ⟨_, rfl, rfl⟩
    · exact ⟨node, present, rfl⟩
  obtain ⟨node', present', data⟩ := after
  rw [← data]
  apply erased.remove present'
  · intro root
    obtain ⟨rootNode, rootPresent, noParent⟩ := valid.root p root
    obtain rfl := Option.some.inj (present.symm.trans rootPresent)
    exact nomatch noParent.symm.trans up
  · intro q other listed member
    rw [setNode_node] at listed
    split at listed
    · obtain rfl := Option.some.inj listed
      exact (distinct.mem_erase_iff.mp member).1 rfl
    · next differ =>
        obtain ⟨child, childPresent, back⟩ := valid.children q other listed p member
        obtain rfl := Option.some.inj (present.symm.trans childPresent)
        exact differ (Option.some.inj (back.symm.trans up))

/-- Every call keeps the tree. -/
theorem Valid.step (valid : s.Valid) {event : RamfsEvent} {t : Ramfs}
    (step : RamfsStep s event t) : t.Valid ∧ t.root = s.root := by
  obtain ⟨result, done⟩ := step
  cases event with
  | mkdir a path =>
      obtain ⟨found, searched⟩ := mkdir_cases done
      have keeps := valid.findNode_keeps searched
      exact ⟨keeps.valid, keeps.root⟩
  | createFile a path data =>
      rcases createFile_cases done with
        ⟨-, ⟨rfl, -⟩ | ⟨parent, filename, found, -, searched⟩⟩ |
        ⟨parent, filename, middle, p, dir, file, contents, -, searched, present, -, -, -, -, fresh,
          -, rfl⟩
      · exact ⟨valid, rfl⟩
      · have keeps := valid.findNode_keeps searched
        exact ⟨keeps.valid, keeps.root⟩
      · have keeps := valid.findNode_keeps searched
        exact ⟨keeps.valid.withFile fresh present, keeps.root⟩
  | deleteFile a path =>
      rcases valid.deleteFile_cases done with
        ⟨-, rfl⟩ | ⟨p, parent, node, dir, -, -, present, up, listed, -, rfl⟩
      · exact ⟨valid, rfl⟩
      · refine ⟨valid.delete present up listed, ?_⟩
        cases node.data <;> rfl

theorem valid_run {a : Allocator} {events : List RamfsEvent} {t : Ramfs}
    (run : Run RamfsStep (init a empty) events t) : t.Valid :=
  run.invariant (fun _ _ _ valid step => (Valid.step valid step).1) (valid_init a)

end Ramfs

end NTux.Fs
