import NTux.Fs.RamfsTree

/-! # Reading back a file

A file that `ramfs_create_file` has stored is read back under its own path exactly when the
path has two components, the second of which is the name that was stored, and led nowhere
before, and when the file is not empty (`ramfs_roundTrip_iff`).
-/

namespace NTux.Fs

open NTux.Foundation

namespace Ramfs

variable {s : Ramfs}

/-! ## The children of a directory with a new one -/

section Adopt

variable {p new : Ptr} {dir node : Node}

theorem adopt_node (q : Ptr) : (s.adopt p dir new node).node q =
    if q = p then some { dir with children := dir.children ++ [new] }
    else if q = new then some node else s.node q := by
  rw [adopt, setNode_node, setNode_node]

/-- Only the new node has a new name. -/
theorem adopt_named (free : s.node new = none) (present : s.node p = some dir) (name : CString)
    (q : Ptr) : (s.adopt p dir new node).named name q =
      if q = new then decide (node.name = name) else s.named name q := by
  have differ := ne_of_free free present
  rw [named, adopt_node]
  by_cases isNew : q = new
  · rw [if_pos isNew, if_neg (isNew ▸ differ.symm), if_pos isNew, Option.any_some]
  · rw [if_neg isNew, if_neg isNew]
    split
    · next equal => rw [equal, named, present, Option.any_some, Option.any_some]
    · rfl

/-- The children that a directory had are found as before. -/
theorem Valid.adopt_find? (valid : s.Valid) (free : s.node new = none)
    (present : s.node p = some dir) {q : Ptr} {other : Node} (listed : s.node q = some other)
    (name : CString) : other.children.find? ((s.adopt p dir new node).named name) =
      other.children.find? (s.named name) := by
  rw [← List.head?_filter, ← List.head?_filter]
  apply congrArg List.head?
  apply List.filter_congr
  intro c member
  obtain ⟨child, childPresent, -⟩ := valid.children q other listed c member
  rw [adopt_named free present, if_neg (ne_of_free free childPresent)]

/-- Other directories have the children that they had. -/
theorem Valid.adopt_childNamed (valid : s.Valid) (free : s.node new = none)
    (present : s.node p = some dir) {q : Ptr} (notParent : q ≠ p) (notNew : q ≠ new)
    (name : CString) : (s.adopt p dir new node).childNamed q name = s.childNamed q name := by
  rw [childNamed, adopt_node, if_neg notParent, if_neg notNew, childNamed]
  cases listed : s.node q with
  | none => rfl
  | some other =>
      rw [Option.bind_some, Option.bind_some, valid.adopt_find? free present listed]

/-- The directory finds its old children first. -/
theorem Valid.adopt_childNamed_parent (valid : s.Valid) (free : s.node new = none)
    (present : s.node p = some dir) (name : CString) :
    (s.adopt p dir new node).childNamed p name =
      (s.childNamed p name).or (if node.name = name then some new else none) := by
  rw [childNamed, adopt_node, if_pos rfl, Option.bind_some, List.find?_append,
    valid.adopt_find? free present present, childNamed, present, Option.bind_some]
  congr 1
  rw [List.find?_singleton, adopt_named free present, if_pos rfl]
  by_cases same : node.name = name <;> simp [same]

theorem adopt_new (free : s.node new = none) (present : s.node p = some dir) :
    (s.adopt p dir new node).node new = some node := by
  rw [adopt_node, if_neg (ne_of_free free present).symm, if_pos rfl]

end Adopt

/-- Where children never leave a set, no search that begins in it does. -/
theorem lookup_stays {region : Set Ptr} {path : List CString} {p q : Ptr}
    (closed : ∀ c ∈ region, ∀ name d, s.childNamed c name = some d → d ∈ region)
    (inside : p ∈ region) (found : s.lookup path p = some q) : q ∈ region := by
  induction path generalizing p with
  | nil => exact Option.some.inj found ▸ inside
  | cons token rest ih =>
      obtain ⟨c, first, later⟩ := Option.bind_eq_some_iff.mp found
      exact ih (closed p inside token c first) later

/-- No way down from a child of a directory below the root leads to a new file in it. -/
theorem lookup_ne_newFile {t : Ramfs} (valid : t.Valid) {r p c file : Ptr} {path : List CString}
    {top dir node child : Node} (root : t.node r = some top) (noParent : top.parent = none)
    (dirPresent : t.node p = some dir) (dirParent : dir.parent = some r)
    (filePresent : t.node file = some node) (fileParent : node.parent = some p)
    (childPresent : t.node c = some child) (childParent : child.parent = some p)
    (notFile : c ≠ file) : t.lookup path c ≠ some file := by
  intro found
  have parentOf : ∀ q name d, t.childNamed q name = some d →
      ∃ below, t.node d = some below ∧ below.parent = some q := by
    intro q name d first
    obtain ⟨above, -, aboveListed, member, -, -⟩ := childNamed_spec first
    exact valid.children q above aboveListed d member
  have closed : ∀ q ∈ ({q | q ≠ file ∧ q ≠ p ∧ q ≠ r} : Set Ptr), ∀ name d,
      t.childNamed q name = some d → d ∈ ({q | q ≠ file ∧ q ≠ p ∧ q ≠ r} : Set Ptr) := by
    rintro q ⟨-, notDir, notRoot⟩ name d first
    obtain ⟨below, listed, parent⟩ := parentOf q name d first
    refine ⟨?_, ?_, ?_⟩
    · rintro rfl
      obtain rfl := Option.some.inj (filePresent.symm.trans listed)
      exact notDir (Option.some.inj (parent.symm.trans fileParent))
    · rintro rfl
      obtain rfl := Option.some.inj (dirPresent.symm.trans listed)
      exact notRoot (Option.some.inj (parent.symm.trans dirParent))
    · rintro rfl
      obtain rfl := Option.some.inj (root.symm.trans listed)
      exact nomatch noParent.symm.trans parent
  have rootNotDir : r ≠ p := by
    rintro rfl
    obtain rfl := Option.some.inj (root.symm.trans dirPresent)
    exact nomatch noParent.symm.trans dirParent
  have inside : c ∈ ({q | q ≠ file ∧ q ≠ p ∧ q ≠ r} : Set Ptr) := by
    refine ⟨notFile, ?_, ?_⟩
    · rintro rfl
      obtain rfl := Option.some.inj (childPresent.symm.trans dirPresent)
      exact rootNotDir (Option.some.inj (dirParent.symm.trans childParent))
    · rintro rfl
      obtain rfl := Option.some.inj (childPresent.symm.trans root)
      exact nomatch noParent.symm.trans childParent
  exact (lookup_stays closed inside found).1 rfl

/-- The directory for a new file, seen from the root and from the file system before. -/
theorem Valid.parent_spec (valid : s.Valid) {a : Allocator} {path parent filename : CString}
    (parts : splitPath path = some (parent, filename)) {r p : Ptr} {top dir : Node} {t : Ramfs}
    (root : s.root = some r) (topPresent : s.node r = some top)
    (searched : s.findNode a true parent = some (some p, t)) (present : t.node p = some dir) :
    dir.parent = some r ∧
      t.childNamed r parent = (if parent.length ≤ maxName then some p else none) ∧
      ∀ name, t.childNamed p name = none ↔ s.lookup [parent, name] r = none := by
  rcases valid.findNode_parent_cases parts root topPresent searched with
    ⟨found, rfl⟩ | ⟨missing, taken, -, rfl⟩
  · obtain ⟨above, child, aboveListed, member, childPresent, same⟩ := childNamed_spec found
    obtain ⟨below, belowListed, up⟩ := valid.children r above aboveListed p member
    obtain rfl := Option.some.inj (present.symm.trans belowListed)
    have short : parent.length ≤ maxName := by
      rw [← same]
      exact valid.names p child childPresent
    refine ⟨up, ?_, ?_⟩
    · rw [if_pos short, found]
    · intro name
      rw [lookup, found, Option.bind_some, lookup]
      cases t.childNamed p name <;> simp [lookup]
  · have free := (a.fresh taken).1
    have differ := ne_of_free free topPresent
    have listed : (s.addDir r top p parent).node p = some (newDir parent r) :=
      addDir_new parent differ
    obtain rfl := Option.some.inj (present.symm.trans listed)
    refine ⟨rfl, ?_, ?_⟩
    · rw [Ramfs.addDir, valid.adopt_childNamed_parent free topPresent, missing, Option.none_or]
      apply if_congr _ rfl rfl
      refine ⟨fun same => ?_, List.take_of_length_le⟩
      rw [← same]
      exact List.length_take_le _ _
    · intro name
      rw [lookup, missing, Option.bind_none, childNamed_leaf listed (newDir_leaf parent r)]

/-- The path is that of a stored file: it consists of the name of a directory and of the name
under which the file is stored, and it led nowhere before. -/
structure Rereadable (s : Ramfs) (path : CString) : Prop where
  components : ∃ parent filename, splitPath path = some (parent, filename) ∧
    parent.length ≤ maxName ∧ tokens slash (path.take maxPath) = [parent, filename.take maxName]
  missing : ∀ a, s.findNode a false path = some (none, s)

/-- Below a new file there is nothing, and above it the old children come first. -/
theorem Valid.lookup_withFile (valid : s.Valid) {filename data : CString} {r p file contents : Ptr}
    {top dir : Node} (topPresent : s.node r = some top) (noParent : top.parent = none)
    (present : s.node p = some dir) (up : dir.parent = some r)
    (fresh : s.FreshFile file contents) (path : List CString) :
    (s.withFile filename data p dir file contents).lookup path p = some file ↔
      path = [filename.take maxName] ∧ s.childNamed p (filename.take maxName) = none := by
  have after := @Valid.withFile _ valid filename data _ _ _ _ fresh present
  have notFile := fun q node => @ne_of_free _ _ q node fresh.node
  have fileNode : (s.withFile filename data p dir file contents).node file =
      some (newFile filename data p contents) :=
    adopt_new (s := s.setBlock contents (cBytes data)) fresh.node present
  have children : ∀ name, (s.withFile filename data p dir file contents).childNamed p name =
      (s.childNamed p name).or (if filename.take maxName = name then some file else none) :=
    (valid.addBlock (cBytes data)).adopt_childNamed_parent fresh.node present
  cases path with
  | nil =>
      constructor
      · intro found
        exact absurd (Option.some.inj found) (notFile p dir present)
      · rintro ⟨empty, -⟩
        cases empty
  | cons token rest =>
      rw [lookup, children token]
      cases old : s.childNamed p token with
      | some c =>
          obtain ⟨above, -, aboveListed, member, -, -⟩ := childNamed_spec old
          obtain rfl := Option.some.inj (present.symm.trans aboveListed)
          rw [Option.some_or, Option.bind_some]
          have dirNode : (s.withFile filename data p dir file contents).node p =
              some { dir with children := dir.children ++ [file] } := setNode_self _ _
          obtain ⟨child, childPresent, childUp⟩ := after.children p _ dirNode c
            (List.mem_append_left _ member)
          obtain ⟨oldChild, oldPresent, -⟩ := valid.children p dir present c member
          obtain ⟨root, rootPresent, rootParent⟩ :
              ∃ root, (s.withFile filename data p dir file contents).node r = some root ∧
                root.parent = none := by
            have notDir : r ≠ p := by
              rintro rfl
              obtain rfl := Option.some.inj (topPresent.symm.trans present)
              cases noParent.symm.trans up
            refine ⟨top, ?_, noParent⟩
            rw [Ramfs.withFile, adopt_node, if_neg notDir, if_neg (notFile r top topPresent)]
            exact topPresent
          have never :=
            @lookup_ne_newFile _ after _ _ _ _ rest _ _ _ _ rootPresent rootParent dirNode up
            fileNode rfl childPresent childUp (notFile c oldChild oldPresent)
          constructor
          · exact fun found => absurd found never
          · rintro ⟨same, missing⟩
            obtain ⟨rfl, -⟩ := List.cons.inj same
            cases missing.symm.trans old
      | none =>
          rw [Option.none_or]
          by_cases same : filename.take maxName = token
          · rw [if_pos same, Option.bind_some]
            cases rest with
            | nil =>
                rw [lookup]
                exact ⟨fun _ => ⟨by rw [same], same ▸ old⟩, fun _ => rfl⟩
            | cons later others =>
                rw [lookup, childNamed_leaf fileNode rfl, Option.bind_none]
                constructor
                · intro found
                  cases found
                · rintro ⟨whole, -⟩
                  cases (List.cons.inj whole).2
          · rw [if_neg same, Option.bind_none]
            constructor
            · intro found
              cases found
            · rintro ⟨whole, -⟩
              exact absurd (List.cons.inj whole).1.symm same

/-- A path with a directory in it is not the root's. -/
theorem splitPath_notRoot {path parent filename : CString}
    (parts : splitPath path = some (parent, filename)) : ¬ (path = [] ∨ path = [slash]) := by
  obtain ⟨nonempty, -, -, whole⟩ := splitPath_spec parts
  have positive := List.length_pos_iff.mpr nonempty
  have length := congrArg List.length whole
  rintro (rfl | rfl)
  · simp at length
  · simp [maxPath] at length
    omega

/-- Where the path of a new file leads to. -/
theorem Valid.find_withFile (valid : s.Valid) {a : Allocator} {path parent filename data : CString}
    {r p file contents : Ptr} {top dir : Node} {middle : Ramfs} (root : s.root = some r)
    (topPresent : s.node r = some top) (parts : splitPath path = some (parent, filename))
    (searched : s.findNode a true parent = some (some p, middle))
    (present : middle.node p = some dir) (fresh : middle.FreshFile file contents) :
    (middle.withFile filename data p dir file contents).find path = some file ↔
      parent.length ≤ maxName ∧ tokens slash filename = [filename.take maxName] ∧
        s.lookup [parent, filename.take maxName] r = none := by
  obtain ⟨nonempty, clean, -, whole⟩ := splitPath_spec parts
  have keeps := valid.findNode_keeps searched
  obtain ⟨up, first, missing⟩ := valid.parent_spec parts root topPresent searched present
  obtain ⟨topNode, rootPresent, rootParent⟩ := keeps.valid.root r (keeps.root.trans root)
  have notRoot := splitPath_notRoot parts
  have notDir : r ≠ p := by
    rintro rfl
    obtain rfl := Option.some.inj (rootPresent.symm.trans present)
    exact nomatch rootParent.symm.trans up
  have notFile := ne_of_free fresh.node rootPresent
  have fromRoot : (middle.withFile filename data p dir file contents).childNamed r parent =
      middle.childNamed r parent :=
    (keeps.valid.addBlock (cBytes data)).adopt_childNamed fresh.node present notDir notFile parent
  have after : (middle.withFile filename data p dir file contents).root = some r :=
    keeps.root.trans root
  rw [find, after, Option.bind_some, if_neg notRoot, whole, tokens_append nonempty clean, lookup,
    fromRoot, first]
  by_cases short : parent.length ≤ maxName
  · rw [if_pos short, Option.bind_some,
      keeps.valid.lookup_withFile rootPresent rootParent present up fresh, missing]
    exact (and_iff_right short).symm
  · rw [if_neg short, Option.bind_none]
    exact ⟨fun found => (nomatch found), fun all => absurd all.1 short⟩

/-- Only files are read. -/
theorem Valid.readFile_eq_some (valid : s.Valid) {b : Allocator} {path : CString} {p : Ptr}
    {node : Node} (present : s.node p = some node) (isFile : node.type = .file) :
    s.readFile b path = some (some p) ↔ s.find path = some p := by
  rw [readFile, valid.findNode_false b path]
  cases found : s.find path with
  | none => simp
  | some q =>
      obtain ⟨other, listed⟩ := valid.find_live found
      simp only [listed]
      constructor
      · intro read
        split at read
        · cases read
        · exact Option.some.inj read
      · rintro ⟨⟩
        obtain rfl := Option.some.inj (present.symm.trans listed)
        rw [if_neg (not_not.mpr isFile)]

/-- The bytes of a string in front of its end. -/
theorem take_cBytes (text : CString) :
    text.length ≤ (cBytes text).length ∧
      (cBytes text).take text.length = text.map Subtype.val := by
  have front : (text.map Subtype.val).length = text.length := List.length_map _
  refine ⟨?_, ?_⟩
  · rw [cBytes, List.length_append, front]
    exact Nat.le_add_right _ _
  · rw [cBytes, ← front, List.take_left']
    rfl

/-- What is read of a file into memory. -/
theorem Valid.readFileToMemory (valid : s.Valid) {b : Allocator} {path data : CString}
    {p contents : Ptr} {node : Node} (memory : b.Serves s data.length) (found : s.find path = some p)
    (present : s.node p = some node) (isFile : node.type = .file)
    (held : node.data = some contents) (block : s.block contents = some (cBytes data))
    (size : node.size = data.length) :
    s.readFileToMemory b path = some (some (data.map Subtype.val), data.length) ↔ data ≠ [] := by
  rw [Ramfs.readFileToMemory, valid.findNode_false b path, found]
  simp only [present, isFile, size, held, Option.bind_some, block]
  rw [if_neg (not_not.mpr rfl)]
  cases data with
  | nil =>
      rw [List.length_nil, b.zero]
      simp
  | cons head tail =>
      obtain ⟨q, given⟩ := Option.isSome_iff_exists.mp (memory (Nat.succ_pos _))
      obtain ⟨enough, whole⟩ := take_cBytes (head :: tail)
      rw [given]
      simp only [if_pos enough, whole]
      exact ⟨fun _ => List.cons_ne_nil _ _, fun _ => trivial⟩

/-- When a path is that of the file it stores. -/
theorem Valid.rereadable_iff (valid : s.Valid) {path parent filename : CString} {r : Ptr}
    (root : s.root = some r) (parts : splitPath path = some (parent, filename)) :
    s.Rereadable path ↔ parent.length ≤ maxName ∧ tokens slash filename = [filename.take maxName] ∧
      s.lookup [parent, filename.take maxName] r = none := by
  obtain ⟨nonempty, clean, -, whole⟩ := splitPath_spec parts
  have scanned : tokens slash (path.take maxPath) = parent :: tokens slash filename := by
    rw [whole, tokens_append nonempty clean]
  have leads : ∀ name, tokens slash filename = [name] → s.find path = s.lookup [parent, name] r := by
    intro name single
    rw [find, root, Option.bind_some, if_neg (splitPath_notRoot parts), scanned, single]
  constructor
  · rintro ⟨⟨parent', filename', parts', short, two⟩, missing⟩
    obtain ⟨rfl, rfl⟩ := Prod.mk.inj (Option.some.inj (parts'.symm.trans parts))
    have single : tokens slash filename' = [filename'.take maxName] :=
      (List.cons.inj (scanned.symm.trans two)).2
    refine ⟨short, single, ?_⟩
    rw [← leads _ single]
    have none := (valid.findNode_false (.pool 0) path).symm.trans (missing _)
    exact (Prod.mk.inj (Option.some.inj none)).1
  · rintro ⟨short, single, missing⟩
    refine ⟨⟨parent, filename, parts, short, by rw [scanned, single]⟩, fun a => ?_⟩
    rw [valid.findNode_false, leads _ single, missing]

end Ramfs

/-- **Reading back a file.** After a call that stored a file, and with memory for a copy of its
contents, the file and its contents are read under the path of the call exactly when the
path is that of the stored file and the file is not empty. -/
theorem ramfs_roundTrip_iff {a b first : Allocator} {events : List RamfsEvent} {s t : Ramfs}
    {path data : CString} {file : Ptr} (run : Run RamfsStep (.init first .empty) events s)
    (created : s.createFile a path data = some (some file, t))
    (memory : b.Serves t data.length) :
    (t.readFile b path = some (some file) ∧
      t.readFileToMemory b path = some (some (data.map Subtype.val), data.length)) ↔
        data ≠ [] ∧ s.Rereadable path := by
  have valid := Ramfs.valid_run run
  rcases Ramfs.createFile_cases created with ⟨none, -⟩ |
    ⟨parent, filename, middle, p, dir, file', contents, parts, searched, present, -, -, -, -, fresh,
      isFile, rfl⟩
  · cases none
  · obtain rfl := Option.some.inj isFile
    obtain ⟨r, root⟩ : ∃ r, s.root = some r := by
      cases root : s.root with
      | none =>
          rw [Ramfs.createFile, root] at created
          cases created
      | some r => exact ⟨r, rfl⟩
    obtain ⟨top, topPresent, -⟩ := valid.root r root
    have found := @Ramfs.Valid.find_withFile _ valid _ _ _ _ data _ _ _ _ _ _ _ root topPresent
      parts searched present fresh
    have after := @Ramfs.Valid.withFile _ (valid.findNode_keeps searched).valid filename data _ _ _ _
      fresh present
    have fileNode : (middle.withFile filename data p dir file contents).node file =
        some (Ramfs.newFile filename data p contents) :=
      Ramfs.adopt_new (s := middle.setBlock contents (Ramfs.cBytes data)) fresh.node present
    have block : (middle.withFile filename data p dir file contents).block contents =
        some (Ramfs.cBytes data) := Function.update_self _ _ _
    rw [after.readFile_eq_some fileNode rfl, valid.rereadable_iff root parts, ← found]
    constructor
    · rintro ⟨leads, read⟩
      exact ⟨(after.readFileToMemory memory leads fileNode rfl rfl block rfl).mp read, leads⟩
    · rintro ⟨nonempty, leads⟩
      exact ⟨leads, (after.readFileToMemory memory leads fileNode rfl rfl block rfl).mpr nonempty⟩

/-! ## A file that is read back and an empty one -/

/-- The state after a file was stored. -/
def sampleStored (data : CString) : Ramfs :=
  (RamfsEvent.createFile (.pool 8) hostsPath data).apply sampleRamfs

theorem sampleStored_spec {data : CString}
    (returned : (sampleRamfs.createFile (.pool 8) hostsPath data).map Prod.fst = some (some 3)) :
    sampleRamfs.createFile (.pool 8) hostsPath data = some (some 3, sampleStored data) := by
  obtain ⟨⟨result, t⟩, called, same⟩ := Option.map_eq_some_iff.mp returned
  obtain rfl : result = some 3 := same
  have after : sampleStored data = t := by
    rw [sampleStored, RamfsEvent.apply, RamfsEvent.call, called]
    rfl
  rw [after, called]

theorem ramfs_roundTrip_hosts :
    (sampleStored etcName).readFile (.pool 8) hostsPath = some (some 3) ∧
      (sampleStored etcName).readFileToMemory (.pool 8) hostsPath =
        some (some (etcName.map Subtype.val), etcName.length) := by
  have memory : (Allocator.pool 8).Serves (sampleStored etcName) etcName.length :=
    fun _ => by decide
  have rereadable : sampleRamfs.Rereadable hostsPath := by
    refine ⟨⟨etcName, hostsName, by decide, by decide, by decide⟩, fun a => ?_⟩
    have nowhere : sampleRamfs.find hostsPath = none := by decide
    exact ((Ramfs.valid_init _).findNode_false a hostsPath).trans (by rw [← nowhere]; rfl)
  exact (ramfs_roundTrip_iff (.nil _) (sampleStored_spec (by decide)) memory).mpr
    ⟨by decide, rereadable⟩

/-- An empty file is stored, but reading it into memory returns nothing. -/
theorem ramfs_roundTrip_empty :
    sampleRamfs.createFile (.pool 8) hostsPath [] = some (some 3, sampleStored []) ∧
      (∃ p, (Allocator.pool 8).kmalloc (sampleStored []) 1 = some p) ∧
      (sampleStored []).readFile (.pool 8) hostsPath = some (some 3) ∧
      (sampleStored []).readFileToMemory (.pool 8) hostsPath = some (none, 0) :=
  ⟨sampleStored_spec (by decide), ⟨5, by decide⟩, by decide, by decide⟩

end NTux.Fs
