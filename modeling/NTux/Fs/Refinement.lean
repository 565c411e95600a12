import NTux.Foundation.NameTree
import NTux.Fs.Deletion

/-! # The file system as a tree of names

What the paths lead to is a tree of names (`Ramfs.tree`), and every call is a request to that tree
(`ramfs_refines`), as long as it stores no name that is cut or has a slash and makes no directory
in a file (`RamfsEvent.Proper`). So what is read is what the calls before have stored
(`ramfs_history`).
-/

namespace NTux.Fs

open NTux.Foundation

/-- The contents of files, without the `NUL`. -/
abbrev Bytes : Type := List (BitVec 8)

abbrev RamfsTree : Type := NameTree CString Bytes

namespace Ramfs

variable {s t : Ramfs} {r p q new : Ptr} {names way : List CString} {name : CString}

/-! ## The tree -/

/-- The characters of a file. -/
def text (s : Ramfs) (node : Node) : Bytes := ((node.data.bind s.block).getD []).take node.size

/-- What a node is, seen from outside. -/
def entryOf (s : Ramfs) (node : Node) : Entry Bytes :=
  match node.type with
  | .dir => .dir
  | .file => .file (s.text node)

def entry (s : Ramfs) (p : Ptr) : Option (Entry Bytes) := (s.node p).map s.entryOf

/-- What lists of names lead to. -/
def tree (s : Ramfs) : RamfsTree := fun names =>
  s.root.bind fun r => (s.lookup names r).bind s.entry

theorem tree_eq (root : s.root = some r) (names : List CString) :
    s.tree names = (s.lookup names r).bind s.entry := by
  rw [tree, root, Option.bind_some]

theorem entryOf_file {node : Node} (isFile : node.type = .file) :
    s.entryOf node = .file (s.text node) := by
  rw [entryOf, isFile]

theorem entryOf_dir {node : Node} (isDir : node.type = .dir) : s.entryOf node = .dir := by
  rw [entryOf, isDir]

theorem entryOf_eq_dir_iff {node : Node} : s.entryOf node = .dir ↔ node.type = .dir := by
  cases kind : node.type with
  | dir => exact iff_of_true (entryOf_dir kind) rfl
  | file => simp [entryOf_file kind]

theorem entry_of_present {node : Node} (present : s.node p = some node) :
    s.entry p = some (s.entryOf node) := by
  rw [entry, present, Option.map_some]

/-- What a list of names that leads to a node leads to. -/
theorem tree_of_lookup {node : Node} (root : s.root = some r) (found : s.lookup names r = some p)
    (present : s.node p = some node) : s.tree names = some (s.entryOf node) := by
  rw [tree_eq root, found, Option.bind_some, entry_of_present present]

theorem Valid.tree_eq_none_iff (valid : s.Valid) (root : s.root = some r) :
    s.tree names = none ↔ s.lookup names r = none := by
  rw [tree_eq root]
  cases found : s.lookup names r with
  | none => exact iff_of_true rfl rfl
  | some p =>
      obtain ⟨node, present⟩ := lookup_live ((valid.root r root).imp fun _ both => both.1) found
      rw [Option.bind_some, entry_of_present present]
      exact iff_of_false (Option.some_ne_none _) (Option.some_ne_none _)

/-- Nodes that lead on as before and are what they were. -/
theorem tree_congr (root : t.root = s.root)
    (lookup : ∀ r, s.root = some r → ∀ names, t.lookup names r = s.lookup names r)
    (entry : ∀ r, s.root = some r → ∀ names p, s.lookup names r = some p → t.entry p = s.entry p) :
    t.tree = s.tree := by
  funext names
  cases isRoot : s.root with
  | none => rw [tree, tree, root, isRoot, Option.bind_none, Option.bind_none]
  | some r =>
      rw [tree_eq (root.trans isRoot), tree_eq isRoot, lookup r isRoot]
      cases found : s.lookup names r with
      | none => rfl
      | some p => exact entry r isRoot names p found

/-- Everything on the way to a node is there. -/
theorem Valid.on_way (valid : s.Valid) (root : s.root = some r) (reached : s.lookup way r = some p) :
    ∀ names, names <+: way → s.tree names ≠ none := by
  rintro names ⟨rest, rfl⟩ missing
  rw [lookup_append, (valid.tree_eq_none_iff root).mp missing] at reached
  cases reached

/-- Where the root is, there is a directory. -/
theorem Shaped.tree_nil (shaped : s.Shaped) (valid : s.Valid) (root : s.root = some r) :
    s.tree [] = some .dir := by
  obtain ⟨node, present, -⟩ := valid.root r root
  rw [tree_of_lookup root rfl present, entryOf_dir (shaped.top r node root present)]

/-- Only directories have something below them. -/
theorem Shaped.tree_above (shaped : s.Shaped) (below : s.tree (names ++ [name]) ≠ none) :
    s.tree names = some .dir := by
  cases root : s.root with
  | none =>
      rw [tree, root] at below
      exact absurd rfl below
  | some r =>
      rw [tree_eq root, lookup_snoc] at below
      cases found : s.lookup names r with
      | none =>
          rw [found] at below
          exact absurd rfl below
      | some p =>
          rw [found, Option.bind_some] at below
          cases last : s.childNamed p name with
          | none =>
              rw [last] at below
              exact absurd rfl below
          | some c =>
              obtain ⟨dir, -, present, member, -, -⟩ := childNamed_spec last
              have kind := shaped.kinds p dir present (List.ne_nil_of_mem member)
              rw [tree_of_lookup root found present, entryOf_dir kind]

/-! ## What is added -/

/-- A node that no directory lists is not seen. -/
theorem Valid.tree_orphan (valid : s.Valid) (free : s.node new = none) (node : Node) :
    (s.setNode new node).tree = s.tree := by
  have kept : ∀ q other, s.node q = some other → (s.setNode new node).node q = some other :=
    fun q other present => (setNode_of_ne node (ne_of_free free present)).trans present
  have named : ∀ q other, s.node q = some other → ∀ name,
      (s.setNode new node).named name q = s.named name q := by
    intro q other present name
    rw [Ramfs.named, Ramfs.named, kept q other present, present]
  have child : ∀ q other, s.node q = some other → ∀ name,
      (s.setNode new node).childNamed q name = s.childNamed q name := by
    intro q other present name
    rw [childNamed, childNamed, kept q other present, present, Option.bind_some, Option.bind_some,
      ← List.head?_filter, ← List.head?_filter]
    apply congrArg List.head?
    apply List.filter_congr
    intro c member
    obtain ⟨below, belowPresent, -⟩ := valid.children q other present c member
    exact named c below belowPresent name
  have onward : ∀ names q other, s.node q = some other →
      (s.setNode new node).lookup names q = s.lookup names q := by
    intro names
    induction names with
    | nil => exact fun _ _ _ => rfl
    | cons name names ih =>
        intro q other present
        rw [lookup, lookup, child q other present]
        cases first : s.childNamed q name with
        | none => rfl
        | some c =>
            obtain ⟨-, below, -, -, belowPresent, -⟩ := childNamed_spec first
            exact ih c below belowPresent
  refine tree_congr rfl (fun r root names => ?_) fun r root names p found => ?_
  · obtain ⟨top, topPresent, -⟩ := valid.root r root
    exact onward names r top topPresent
  · obtain ⟨other, present⟩ := lookup_live ((valid.root r root).imp fun _ both => both.1) found
    rw [entry_of_present present, entry_of_present (kept p other present)]
    rfl

/-- File contents that no file has yet are not seen. -/
theorem Valid.tree_setBlock (valid : s.Valid) (free : s.block new = none) (bytes : Bytes) :
    (s.setBlock new bytes).tree = s.tree := by
  have child : (s.setBlock new bytes).childNamed = s.childNamed := rfl
  have lookup : ∀ names q, (s.setBlock new bytes).lookup names q = s.lookup names q := by
    intro names
    induction names with
    | nil => exact fun _ => rfl
    | cons name names ih =>
        intro q
        rw [Ramfs.lookup, Ramfs.lookup, child]
        exact congrArg _ (funext ih)
  refine tree_congr rfl (fun r _ names => lookup names r) fun r root names p found => ?_
  obtain ⟨node, present⟩ := lookup_live ((valid.root r root).imp fun _ both => both.1) found
  rw [entry_of_present present,
    entry_of_present (show (s.setBlock new bytes).node p = some node from present)]
  apply congrArg some
  rw [entryOf, entryOf]
  cases node.type with
  | dir => rfl
  | file =>
      dsimp only
      rw [text, text]
      cases held : node.data with
      | none => rfl
      | some d =>
          have differ : d ≠ new := by
            rintro rfl
            exact (valid.blocks p node d present held).1 free
          rw [Option.bind_some, Option.bind_some]
          have same : (s.setBlock new bytes).block d = s.block d := Function.update_of_ne differ _ _
          rw [same]

/-- A new child adds one list of names. -/
theorem Valid.tree_adopt (valid : s.Valid) (root : s.root = some r) {dir node : Node}
    (reached : s.lookup way r = some p) (present : s.node p = some dir) (free : s.node new = none)
    (leaf : node.children = []) (unused : s.childNamed p node.name = none) :
    (s.adopt p dir new node).tree =
      Function.update s.tree (way ++ [node.name]) (some (s.entryOf node)) := by
  have entry : ∀ q other, s.node q = some other → (s.adopt p dir new node).entry q = s.entry q := by
    intro q other listed
    rw [Ramfs.entry, adopt_node, Ramfs.entry, listed]
    by_cases isParent : q = p
    · subst isParent
      obtain rfl := Option.some.inj (present.symm.trans listed)
      rw [if_pos rfl]
      rfl
    · rw [if_neg isParent, if_neg (ne_of_free free listed), ← listed]
      rfl
  funext names
  rw [tree_eq (s := s.adopt p dir new node) root,
    valid.lookup_adopt root reached present free leaf unused]
  by_cases same : names = way ++ [node.name]
  · rw [if_pos same, same, Function.update_self, Option.bind_some,
      entry_of_present (adopt_new free present)]
    rfl
  · rw [if_neg same, Function.update_of_ne same, tree_eq root]
    cases found : s.lookup names r with
    | none => rfl
    | some q =>
        obtain ⟨other, listed⟩ := lookup_live ((valid.root r root).imp fun _ both => both.1) found
        exact entry q other listed

/-! ## Directories -/

/-- The directories on a way that leads somewhere are there. -/
theorem Valid.grow_self (valid : s.Valid) (root : s.root = some r)
    (reached : s.lookup way r = some p) : s.tree.grow way = s.tree :=
  NameTree.grow_eq_self (valid.on_way root reached)

/-- **The search with creation** makes directories on its way, all of them if it finds a node. -/
theorem Search.grows {a : Allocator} {path : List CString} {cur : Ptr} {result : Option Ptr}
    (search : Search a s path cur result t) (root : s.root = some r)
    (short : ∀ token ∈ path, token.length ≤ maxName) (reached : s.lookup way r = some cur) :
    ∃ part, part <+: path ∧ (result ≠ none → part = path) ∧
      t.tree = s.tree.grow (way ++ part) := by
  induction search generalizing way with
  | done valid =>
      refine ⟨[], List.prefix_rfl, fun _ => rfl, ?_⟩
      rw [List.append_nil, valid.grow_self root reached]
  | @follow s t token rest cur child result valid found search ih =>
      have step : s.lookup (way ++ [token]) r = some child := by
        rw [lookup_snoc, reached, Option.bind_some, found]
      obtain ⟨part, inside, whole, grown⟩ := ih root
        (fun other member => short other (List.mem_cons_of_mem token member)) step
      refine ⟨token :: part, List.prefix_cons_inj token |>.mpr inside, fun some => ?_, ?_⟩
      · rw [whole some]
      · rw [grown, List.append_cons way token part]
  | noMemory valid =>
      refine ⟨[], List.nil_prefix, fun some => absurd rfl some, ?_⟩
      rw [List.append_nil, valid.grow_self root reached]
  | full valid _ _ given =>
      refine ⟨[], List.nil_prefix, fun some => absurd rfl some, ?_⟩
      rw [List.append_nil, valid.tree_orphan (a.fresh given).1, valid.grow_self root reached]
  | @create s t token rest cur new dir result valid present missing given room search ih =>
      have free := (a.fresh given).1
      have leaf := newDir_leaf token cur
      have whole : (newDir token cur).name = token :=
        List.take_of_length_le (short token List.mem_cons_self)
      have unused : s.childNamed cur (newDir token cur).name = none := whole.symm ▸ missing
      have added := valid.tree_adopt root reached present free leaf unused
      have step := valid.lookup_adopt root reached present free leaf unused (way ++ [token])
      rw [whole, entryOf_dir rfl] at added
      rw [whole, if_pos rfl] at step
      obtain ⟨part, inside, all, grown⟩ := ih root
        (fun other member => short other (List.mem_cons_of_mem token member)) step
      refine ⟨token :: part, List.prefix_cons_inj token |>.mpr inside, fun some => ?_, ?_⟩
      · rw [all some]
      · have nowhere : s.tree (way ++ [token]) = none := by
          rw [valid.tree_eq_none_iff root, lookup_snoc, reached, Option.bind_some, missing]
        rw [grown, List.append_cons way token part, Ramfs.addDir, added]
        exact NameTree.grow_update (List.prefix_append _ _) nowhere

/-- `ramfs_find_node` with creation, seen on the tree. -/
theorem Valid.findNode_grows (valid : s.Valid) {a : Allocator} {path : CString}
    {result : Option Ptr} (root : s.root = some r)
    (short : ∀ token ∈ tokens slash (path.take maxPath), token.length ≤ maxName)
    (searched : s.findNode a true path = some (result, t)) :
    (∃ part, part <+: tokens slash (path.take maxPath) ∧ t.tree = s.tree.grow part) ∧
      ∀ p, result = some p → t.lookup (tokens slash (path.take maxPath)) r = some p ∧
        t.tree = s.tree.grow (tokens slash (path.take maxPath)) := by
  rw [findNode_eq_walk root] at searched
  have search := valid.search ((valid.root r root).imp fun _ both => both.1) searched
  obtain ⟨part, inside, whole, grown⟩ := search.grows root short (rfl : s.lookup [] r = some r)
  rw [List.nil_append] at grown
  refine ⟨⟨part, inside, grown⟩, fun p isSome => ?_⟩
  have extended := search.extends root short (rfl : s.lookup [] r = some r) isSome
  rw [whole (isSome ▸ Option.some_ne_none p)] at grown
  exact ⟨extended.found, grown⟩

/-- A node that is no directory is none afterwards, and the other way round. -/
theorem tree_dir_iff {node : Node} (root : s.root = some r) (found : s.lookup names r = some p)
    (present : s.node p = some node) : s.tree names = some .dir ↔ node.type = .dir := by
  rw [tree_of_lookup root found present, Option.some_inj, entryOf_eq_dir_iff]

/-- **`ramfs_mkdir`** answers a request for a directory. -/
theorem Valid.mkdir_answers (valid : s.Valid) {a : Allocator} {path : CString}
    {result : Option Ptr}
    (short : ∀ name ∈ tokens slash (path.take maxPath), name.length ≤ maxName)
    (done : s.mkdir a path = some (result, t)) :
    NameTree.Answers s.tree (.makeDir (tokens slash (path.take maxPath)), result.isSome) t.tree := by
  cases root : s.root with
  | none =>
      simp only [mkdir, findNode, root] at done
      obtain ⟨rfl, rfl⟩ := Prod.mk.inj (Option.some.inj done)
      exact .denied fun _ _ same => by cases same
  | some r =>
      obtain ⟨found, searched⟩ := mkdir_cases done
      obtain ⟨⟨part, inside, grown⟩, reaches⟩ := valid.findNode_grows root short searched
      have keeps := valid.findNode_keeps searched
      cases result with
      | none =>
          rw [grown]
          exact .partly trivial inside
      | some n =>
          obtain ⟨searched', node, present, isDir⟩ := mkdir_eq_some_iff.mp done
          obtain ⟨rfl, -⟩ := Prod.mk.inj (Option.some.inj (searched.symm.trans searched'))
          obtain ⟨leads, all⟩ := reaches n rfl
          have atEnd := (tree_dir_iff (keeps.root.trans root) leads present).mpr isDir
          rw [all] at atEnd ⊢
          exact .madeDir atEnd

/-! ## Files -/

/-- The request that `ramfs_create_file` makes of its path. -/
def fileRequest (path data : CString) : Request CString Bytes :=
  match splitPath path with
  | none => .unreadable
  | some (parent, filename) => .makeFile [parent] filename (data.map Subtype.val)

theorem fileRequest_eq {path parent filename data : CString}
    (parts : splitPath path = some (parent, filename)) :
    fileRequest path data = .makeFile [parent] filename (data.map Subtype.val) := by
  rw [fileRequest, parts]

theorem fileRequest_ne_remove (path data : CString) (names : List CString) :
    fileRequest path data ≠ .remove names := by
  rw [fileRequest]
  split <;> exact fun same => by cases same

/-- **`ramfs_create_file`** answers a request for a file. -/
theorem Valid.createFile_answers (valid : s.Valid) {a : Allocator} {path data : CString}
    {result : Option Ptr}
    (short : ∀ parent filename, splitPath path = some (parent, filename) →
      parent.length ≤ maxName ∧ filename.length ≤ maxName)
    (done : s.createFile a path data = some (result, t)) :
    NameTree.Answers s.tree (fileRequest path data, result.isSome) t.tree := by
  have denied : NameTree.Answers s.tree (fileRequest path data, false) s.tree :=
    .denied fun names _ same => absurd same (fileRequest_ne_remove path data names)
  cases root : s.root with
  | none =>
      simp only [createFile, root] at done
      obtain ⟨rfl, rfl⟩ := Prod.mk.inj (Option.some.inj done)
      exact denied
  | some r =>
      have one : ∀ parent filename, splitPath path = some (parent, filename) →
          ∀ token ∈ tokens slash (parent.take maxPath), token.length ≤ maxName := by
        intro parent filename parts token member
        rw [tokens_parent parts] at member
        rw [List.mem_singleton.mp member]
        exact (short parent filename parts).1
      rcases createFile_cases done with
        ⟨rfl, ⟨rfl, -⟩ | ⟨parent, filename, found, parts, searched⟩⟩ |
        ⟨parent, filename, middle, p, dir, file, contents, parts, searched, present, isDir, absent,
          room, given, fresh, rfl, rfl⟩
      · exact denied
      · obtain ⟨⟨part, inside, grown⟩, -⟩ :=
          valid.findNode_grows root (one parent filename parts) searched
        rw [tokens_parent parts] at inside
        rw [grown, fileRequest_eq parts]
        exact .partly trivial inside
      · obtain ⟨-, reaches⟩ := valid.findNode_grows root (one parent filename parts) searched
        obtain ⟨leads, grown⟩ := reaches p rfl
        rw [tokens_parent parts] at leads grown
        have keeps := valid.findNode_keeps searched
        have rootAfter := keeps.root.trans root
        have atEnd := (tree_dir_iff rootAfter leads present).mpr isDir
        have whole : filename.take maxName = filename :=
          List.take_of_length_le (short parent filename parts).2
        have missing : middle.childNamed p filename = none :=
          Option.some.inj ((keeps.valid.findChild present filename).symm.trans absent)
        have nowhere : s.tree ([parent] ++ [filename]) = none := by
          have after : middle.tree ([parent] ++ [filename]) = none := by
            rw [keeps.valid.tree_eq_none_iff rootAfter, lookup_snoc, leads, Option.bind_some,
              missing]
          have longer : ¬ [parent] ++ [filename] <+: [parent] := fun inside =>
            absurd inside.length_le (by simp)
          rwa [grown, NameTree.grow_of_not_prefix longer] at after
        have stored : (middle.setBlock contents (cBytes data)).entryOf
            (newFile filename data p contents) = .file (data.map Subtype.val) := by
          have block : (middle.setBlock contents (cBytes data)).block contents =
              some (cBytes data) := Function.update_self _ _ _
          rw [entryOf_file rfl, text]
          change Entry.file (((((middle.setBlock contents (cBytes data)).block contents)).getD
            []).take data.length) = _
          rw [block, Option.getD_some, (take_cBytes data).2]
        have leadsOn : (middle.setBlock contents (cBytes data)).lookup [parent] r = some p := leads
        have unused : (middle.setBlock contents (cBytes data)).childNamed p
            (newFile filename data p contents).name = none := by
          change middle.childNamed p (filename.take maxName) = none
          rw [whole, missing]
        have added := (keeps.valid.addBlock (cBytes data)).tree_adopt rootAfter leadsOn present
          fresh.node rfl unused
        rw [stored, keeps.valid.tree_setBlock fresh.contentsBlock, grown] at added
        have isName : (newFile filename data p contents).name = filename := whole
        rw [isName] at added
        rw [grown] at atEnd
        rw [Ramfs.withFile, added, fileRequest_eq parts]
        exact .madeFile atEnd nowhere

/-- A file without anything below it is taken from the tree, and nothing else is. -/
theorem FileAt.tree_without {file parent : Ptr} {node dir : Node}
    (here : s.FileAt r way name file node parent dir) (valid : s.Valid)
    (single : ∀ twin ∈ dir.children, s.named name twin → twin = file)
    (noChild : node.children = []) : (s.withoutFile file node parent dir).tree =
      Function.update s.tree (way ++ [name]) none := by
  have gone := (here.without_gone_iff valid).mpr single
  have block : ∀ q other d, q ≠ file → s.node q = some other → other.data = some d →
      (s.withoutFile file node parent dir).block d = s.block d := by
    intro q other d left present held
    have notNode : d ≠ file := by
      rintro rfl
      cases (valid.blocks q other d present held).2.symm.trans here.present
    change Function.update (kfree _ node.data).block file none d = _
    rw [Function.update_of_ne notNode]
    cases freed : node.data with
    | none => rfl
    | some other' =>
        refine Function.update_of_ne ?_ _ _
        rintro rfl
        exact left (valid.owned q file other node d present here.present held freed)
  have entry : ∀ q other, q ≠ file → s.node q = some other →
      (s.withoutFile file node parent dir).entry q = s.entry q := by
    intro q other left present
    have kept : ∀ after, after.type = other.type → after.data = other.data →
        after.size = other.size →
          (s.withoutFile file node parent dir).entryOf after = s.entryOf other := by
      intro after kind data size
      rw [entryOf, entryOf, kind]
      cases other.type with
      | dir => rfl
      | file =>
          dsimp only
          rw [text, text, data, size]
          cases held : other.data with
          | none => rfl
          | some d => rw [Option.bind_some, Option.bind_some, block q other d left present held]
    rw [entry_of_present present]
    by_cases isParent : q = parent
    · subst isParent
      obtain rfl := Option.some.inj (here.listed.symm.trans present)
      have after := here.without_node valid q
      rw [if_neg left, if_pos rfl] at after
      exact (entry_of_present after).trans (congrArg some (kept _ rfl rfl rfl))
    · have after := here.without_node valid q
      rw [if_neg left, if_neg isParent, present] at after
      rw [entry_of_present after, kept _ rfl rfl rfl]
  funext names
  rw [tree_eq here.without_root]
  by_cases same : names = way ++ [name]
  · rw [same, Function.update_self, gone, Option.bind_none]
  · rw [Function.update_of_ne same, tree_eq here.root]
    have lookup : (s.withoutFile file node parent dir).lookup names r = s.lookup names r := by
      by_cases through : way ++ [name] <+: names
      · obtain ⟨rest, rfl⟩ := through
        cases rest with
        | nil => exact absurd (List.append_nil _) same
        | cons next rest => exact here.without_below noChild gone next rest
      · exact here.without_lookup valid through
    rw [lookup]
    cases found : s.lookup names r with
    | none => rfl
    | some q =>
        obtain ⟨other, present⟩ :=
          lookup_live ((valid.root r here.root).imp fun _ both => both.1) found
        refine entry q other ?_ present
        rintro rfl
        exact same (valid.lookup_injective here.root found here.lookup)

/-- A file of the tree is deleted. -/
theorem Valid.deleteFile_done (valid : s.Valid) (shaped : s.Shaped) (a : Allocator)
    {path : CString} {bytes : Bytes}
    (here : s.tree (tokens slash (path.take maxPath)) = some (.file bytes)) :
    ∃ parent t, s.deleteFile a path = some (some parent, t) := by
  obtain ⟨r, root⟩ : ∃ r, s.root = some r := by
    cases root : s.root with
    | none =>
        rw [tree, root] at here
        cases here
    | some r => exact ⟨r, rfl⟩
  have spelled := find_eq root path
  generalize tokens slash (path.take maxPath) = names at here spelled
  rcases List.eq_nil_or_concat names with rfl | ⟨way, name, rfl⟩
  · rw [shaped.tree_nil valid root] at here
    cases here
  · rw [List.concat_eq_append] at here spelled
    cases found : s.lookup (way ++ [name]) r with
    | none =>
        rw [(valid.tree_eq_none_iff root).mpr found] at here
        cases here
    | some p =>
        obtain ⟨parent, node, reached, present, up, -⟩ := valid.lookup_snoc_spec found
        have isFile : node.type = .file := by
          rw [tree_of_lookup root found present] at here
          cases kind : node.type with
          | dir =>
              rw [entryOf_dir kind] at here
              cases here
          | file => rfl
        have last := found
        rw [lookup_snoc, reached, Option.bind_some] at last
        obtain ⟨dir, -, listed, member, -, -⟩ := childNamed_spec last
        rw [found] at spelled
        have searched := valid.findNode_false a path
        rw [spelled] at searched
        have inDir := not_not.mpr member
        simp only [deleteFile, searched, present, isFile, up, listed, if_neg inDir, ne_eq,
          not_true_eq_false, ↓reduceIte]
        exact ⟨parent, _, rfl⟩

/-- **`ramfs_delete_file`** answers a request to remove a file. -/
theorem Valid.deleteFile_answers (valid : s.Valid) (shaped : s.Shaped) (proper : s.Named)
    {a : Allocator} {path : CString} {result : Option Ptr}
    (done : s.deleteFile a path = some (result, t)) :
    NameTree.Answers s.tree (.remove (tokens slash (path.take maxPath)), result.isSome) t.tree := by
  rcases valid.deleteFile_cases done with
    ⟨rfl, rfl⟩ | ⟨p, parent, node, dir, rfl, found, present, up, listed, member, rfl⟩
  · refine .denied ?_
    rintro names bytes same here
    obtain rfl := Request.remove.inj same
    obtain ⟨parent, t', removed⟩ := valid.deleteFile_done shaped a here
    cases (Prod.mk.inj (Option.some.inj (removed.symm.trans done))).1
  · obtain ⟨r, root, -⟩ := Option.bind_eq_some_iff.mp found
    have isFile : node.type = .file := by
      by_contra other
      have searched := valid.findNode_false a path
      rw [found] at searched
      simp only [deleteFile, searched, present, if_pos other] at done
      cases (Prod.mk.inj (Option.some.inj done)).1
    rw [find_eq root] at found
    have file := tree_of_lookup root found present
    rw [entryOf_file isFile] at file
    obtain ⟨way, name, split, here⟩ := valid.fileAt root found present up listed
    rw [split] at file ⊢
    have nameOf : s.nameOf p = some name := by
      rw [Ramfs.nameOf, present, Option.map_some, here.named]
    have single : ∀ twin ∈ dir.children, s.named name twin → twin = p := by
      intro twin inside called
      refine List.inj_on_of_nodup_map (proper parent dir listed).distinct inside member ?_
      rw [named_iff_nameOf.mp called, nameOf]
    have noChild : node.children = [] := by
      by_contra some
      cases isFile.symm.trans (shaped.kinds p node present some)
    have after := here.tree_without valid single noChild
    change NameTree.Answers _ _ (s.withoutFile p node parent dir).tree
    rw [after]
    exact .removed file

/-! ## Reading -/

/-- What a path of the tree gives to read, if there is memory for it. -/
def readTree (b : Allocator) (s : Ramfs) (held : Option Bytes) : Option Bytes × Nat :=
  match held with
  | none => (none, 0)
  | some bytes => if (b.kmalloc s bytes.length).isSome then (some bytes, bytes.length) else (none, 0)

/-- **`ramfs_read_file_to_memory`** gives what the tree holds. -/
theorem Valid.readFileToMemory_eq (valid : s.Valid) (shaped : s.Shaped) (b : Allocator)
    (path : CString) : s.readFileToMemory b path =
      some (readTree b s (s.tree.held (tokens slash (path.take maxPath)))) := by
  have searched := valid.findNode_false b path
  cases root : s.root with
  | none =>
      have nowhere : s.find path = none := by rw [find, root, Option.bind_none]
      rw [nowhere] at searched
      simp only [Ramfs.readFileToMemory, searched, NameTree.held, tree, root, Option.bind_none,
        readTree]
  | some r =>
      have spelled := find_eq root path
      cases found : s.lookup (tokens slash (path.take maxPath)) r with
      | none =>
          rw [spelled, found] at searched
          have nothing := (valid.tree_eq_none_iff root).mpr found
          simp only [Ramfs.readFileToMemory, searched, NameTree.held, nothing, readTree]
      | some p =>
          rw [spelled, found] at searched
          obtain ⟨node, present⟩ :=
            lookup_live ((valid.root r root).imp fun _ both => both.1) found
          have here := tree_of_lookup root found present
          cases kind : node.type with
          | dir =>
              rw [entryOf_dir kind] at here
              simp [Ramfs.readFileToMemory, searched, present, kind, NameTree.held, here, readTree]
          | file =>
              obtain ⟨contents, data, held, block, size⟩ := shaped.contents p node present kind
              obtain ⟨enough, whole⟩ := take_cBytes data
              have stored : s.text node = data.map Subtype.val := by
                rw [text, held, Option.bind_some, block, Option.getD_some, size, whole]
              rw [entryOf_file kind, stored] at here
              simp only [Ramfs.readFileToMemory, searched, present, kind, NameTree.held, here,
                readTree, size, held, Option.bind_some, block, List.length_map, ne_eq,
                not_true_eq_false, ↓reduceIte, if_pos enough, whole]
              cases b.kmalloc s data.length <;> rfl

end Ramfs

/-! ## Calls -/

/-- The call stores no name that is cut or has a slash, and makes no directory in a file. -/
def RamfsEvent.Proper (s : Ramfs) : RamfsEvent → Prop
  | mkdir a path => (∀ name ∈ tokens slash (path.take maxPath), name.length ≤ maxName) ∧
      (mkdir a path).InDirectory s
  | createFile _ path _ => ∀ parent filename, Ramfs.splitPath path = some (parent, filename) →
      parent.length ≤ maxName ∧ filename.length ≤ maxName ∧ slash ∉ filename
  | deleteFile _ _ => True

/-- The request that a call makes to the tree. -/
def RamfsEvent.request : RamfsEvent → Request CString Bytes
  | mkdir _ path => .makeDir (tokens slash (path.take maxPath))
  | createFile _ path data => Ramfs.fileRequest path data
  | deleteFile _ path => .remove (tokens slash (path.take maxPath))

/-- A call that is defined, with what it returns. -/
def RamfsCall (s : Ramfs) (call : RamfsEvent × Option Ptr) (t : Ramfs) : Prop :=
  call.1.call s = some (call.2, t)

/-- The request of a call, and whether it was granted. -/
def answered (call : RamfsEvent × Option Ptr) : Request CString Bytes × Bool :=
  (call.1.request, call.2.isSome)

namespace Ramfs

variable {s t : Ramfs}

/-- Everything that the calls keep. -/
structure Sound (s : Ramfs) : Prop where
  valid : s.Valid
  shaped : s.Shaped
  named : s.Named

theorem sound_init (a : Allocator) : (init a empty).Sound :=
  ⟨valid_init a, shaped_init a, named_init a⟩

/-- Names that are not cut are as fresh as they look. -/
theorem freshNames_of_short (a : Allocator) {path : List CString} {cur : Ptr}
    (short : ∀ token ∈ path, token.length ≤ maxName) : s.FreshNames a path cur := by
  induction path generalizing cur with
  | nil => trivial
  | cons token rest ih =>
      rw [FreshNames]
      cases found : s.childNamed cur token with
      | some child => exact ih fun other member => short other (List.mem_cons_of_mem token member)
      | none =>
          intro _
          rw [List.take_of_length_le (short token List.mem_cons_self), found]

end Ramfs

variable {s t : Ramfs} {event : RamfsEvent} {call : RamfsEvent × Option Ptr}

theorem RamfsEvent.Proper.inDirectory (proper : event.Proper s) : event.InDirectory s := by
  cases event with
  | mkdir a path => exact proper.2
  | createFile a path data => trivial
  | deleteFile a path => trivial

theorem RamfsEvent.Proper.clean (proper : event.Proper s) : event.Clean s := by
  cases event with
  | mkdir a path => exact fun r _ => Ramfs.freshNames_of_short a proper.1
  | createFile a path data =>
      intro r parent filename _ parts
      obtain ⟨shortParent, short, clean⟩ := proper parent filename parts
      have whole := List.take_of_length_le short
      cases found : s.childNamed r parent with
      | some p =>
          intro _ _ missing
          rw [whole]
          exact ⟨clean, missing⟩
      | none =>
          intro _
          rw [whole, List.take_of_length_le shortParent]
          exact ⟨found, clean⟩
  | deleteFile a path => trivial

/-- **Every call** answers a request to the tree. -/
theorem Ramfs.Sound.answers (sound : s.Sound) (proper : call.1.Proper s)
    (called : RamfsCall s call t) : t.Sound ∧ NameTree.Answers s.tree (answered call) t.tree := by
  obtain ⟨event, result⟩ := call
  have step : RamfsStep s event t := ⟨result, called⟩
  refine ⟨⟨(sound.valid.step step).1, sound.shaped.step sound.valid proper.inDirectory step,
    sound.named.step sound.valid proper.clean step⟩, ?_⟩
  cases event with
  | mkdir a path => exact sound.valid.mkdir_answers proper.1 called
  | createFile a path data =>
      exact sound.valid.createFile_answers (fun parent filename parts =>
        ⟨(proper parent filename parts).1, (proper parent filename parts).2.1⟩) called
  | deleteFile a path => exact sound.valid.deleteFile_answers sound.shaped sound.named called

/-- A run of calls is a run of requests. -/
theorem Ramfs.Sound.run {calls : List (RamfsEvent × Option Ptr)} (sound : s.Sound)
    (run : Run (Guarded (fun s call => call.1.Proper s) RamfsCall) s calls t) :
    t.Sound ∧ Run NameTree.Answers s.tree (calls.map answered) t.tree :=
  run.simulates (fun _ _ _ sound taken => sound.answers taken.1 taken.2) sound

/-- An empty directory has no files. -/
theorem Ramfs.held_empty {r : Ptr} {node : Node} (root : s.root = some r)
    (present : s.node r = some node) (isDir : node.type = .dir) (leaf : node.children = [])
    (names : List CString) : s.tree.held names = none := by
  rw [NameTree.held, tree_eq root]
  cases names with
  | nil => rw [lookup, Option.bind_some, entry_of_present present, entryOf_dir isDir]
  | cons name names => rw [lookup, childNamed_leaf present leaf, Option.bind_none, Option.bind_none]

/-- After `ramfs_init` there are no files. -/
theorem init_held (a : Allocator) (names : List CString) :
    (Ramfs.init a .empty).tree.held names = none := by
  unfold Ramfs.init
  cases a.kmalloc .empty nodeSize with
  | none => rfl
  | some r =>
      exact @Ramfs.held_empty _ r ⟨[], .dir, none, [], none, 0⟩ rfl (Function.update_self _ _ _) rfl
        rfl names

/-- **The file system refines a tree of names.** Over all runs of calls that store no name that is
cut or has a slash and make no directory in a file, every call does to the tree what its request
asks for, and only directories have something below them. -/
theorem ramfs_refines {first : Allocator} {calls : List (RamfsEvent × Option Ptr)}
    (run : Run (Guarded (fun s call => call.1.Proper s) RamfsCall) (.init first .empty) calls s) :
    Run NameTree.Answers (Ramfs.init first .empty).tree (calls.map answered) s.tree ∧
      ∀ names name, s.tree (names ++ [name]) ≠ none → s.tree names = some .dir := by
  obtain ⟨sound, answers⟩ := (Ramfs.sound_init first).run run
  exact ⟨answers, fun _ _ below => sound.shaped.tree_above below⟩

/-- **What is read is what was stored.** After any such run, a path reads what the last granted
call about its names stored, and nothing if there is none, if that call deleted the file, or if
there is no memory for a copy. -/
theorem ramfs_history {first : Allocator} {calls : List (RamfsEvent × Option Ptr)}
    (run : Run (Guarded (fun s call => call.1.Proper s) RamfsCall) (.init first .empty) calls s)
    (b : Allocator) (path : CString) : s.readFileToMemory b path = some (Ramfs.readTree b s
      ((calls.map answered).foldl (NameTree.heldAfter (tokens slash (path.take maxPath)))
        none)) := by
  obtain ⟨sound, answers⟩ := (Ramfs.sound_init first).run run
  rw [sound.valid.readFileToMemory_eq sound.shaped, NameTree.held_run answers, init_held]

/-! ### A file that is stored, deleted and stored again -/

def hostsCreate : RamfsEvent := .createFile (.pool 8) hostsPath etcName

def hostsAgain : RamfsEvent := .createFile (.pool 8) hostsPath hostsName

/-- The calls, with what they return. -/
def hostsCalls : List (RamfsEvent × Option Ptr) :=
  [(hostsCreate, some 3), (hostsDelete, some 2), (hostsAgain, some 3)]

def hostsAfter : Ramfs := hostsAgain.apply (hostsDelete.apply (hostsCreate.apply sampleRamfs))

theorem ramfsCall_apply {s : Ramfs} {event : RamfsEvent} {result : Option Ptr}
    (returned : (event.call s).map Prod.fst = some result) :
    RamfsCall s (event, result) (event.apply s) := by
  obtain ⟨⟨result', t⟩, called, same⟩ := Option.map_eq_some_iff.mp returned
  obtain rfl : result' = result := same
  rw [RamfsCall, RamfsEvent.apply, called]
  rfl

theorem hostsCreate_proper (s : Ramfs) (data : CString) :
    (RamfsEvent.createFile (.pool 8) hostsPath data).Proper s := by
  intro parent filename parts
  have split : Ramfs.splitPath hostsPath = some (etcName, hostsName) := by decide
  obtain ⟨rfl, rfl⟩ := Prod.mk.inj (Option.some.inj (parts.symm.trans split))
  decide

theorem hostsCalls_run : Run (Guarded (fun s call => call.1.Proper s) RamfsCall)
    (.init (.pool 8) .empty) hostsCalls hostsAfter := by
  refine .cons ⟨hostsCreate_proper _ _, ramfsCall_apply (by decide)⟩
    (.cons ⟨trivial, ramfsCall_apply (by decide)⟩
      (.single ⟨hostsCreate_proper _ _, ramfsCall_apply (by decide)⟩))

/-- All three calls are granted. -/
theorem ramfs_refines_hosts : Run NameTree.Answers sampleRamfs.tree
    [(.makeFile [etcName] hostsName (etcName.map Subtype.val), true),
      (.remove [etcName, hostsName], true),
      (.makeFile [etcName] hostsName (hostsName.map Subtype.val), true)] hostsAfter.tree := by
  have requests : hostsCalls.map answered =
      [(.makeFile [etcName] hostsName (etcName.map Subtype.val), true),
        (.remove [etcName, hostsName], true),
        (.makeFile [etcName] hostsName (hostsName.map Subtype.val), true)] := by decide
  rw [← requests]
  exact (ramfs_refines hostsCalls_run).1

/-- What `etc/hosts` holds is what the second call stored. -/
theorem ramfs_history_hosts : hostsAfter.readFileToMemory (.pool 8) hostsPath =
    some (some (hostsName.map Subtype.val), 5) := by
  rw [ramfs_history hostsCalls_run]
  decide

end NTux.Fs
