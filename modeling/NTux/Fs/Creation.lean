import NTux.Fs.Naming
import NTux.Fs.RoundTrip
import NTux.Fs.Shape

/-! # Creating a file by its path

`ramfs_create_file` looks for the last slash of the path with `strchr`, which finds the first.
So it takes what is before the first slash for the directory and all that is behind it for the
name of the file: a path with a leading slash names no directory at all, and a path through
several directories names a file in the first of them. A file is added to the directory that
the path names exactly if there is no leading slash and one directory
(`ramfs_createFile_iff`).
-/

namespace NTux.Fs

open NTux.Foundation

namespace Ramfs

variable {s t : Ramfs} {a : Allocator} {names dirs : List CString} {name filename data : CString}
  {r p q : Ptr} {dir : Node}

/-! ## The path of a file -/

/-- The path of a name, with a slash between its components, and perhaps one in front. -/
def pathTo (leading : Bool) (names : List CString) : CString :=
  if leading then absolutePath names else (absolutePath names).tail

theorem absolutePath_cons (name : CString) (names : List CString) :
    absolutePath (name :: names) = slash :: (name ++ absolutePath names) := rfl

theorem pathTo_cons (name : CString) (names : List CString) :
    pathTo false (name :: names) = name ++ absolutePath names := rfl

/-- A leading slash leaves nothing in front of the first slash. -/
theorem splitPath_leading (name : CString) (names : List CString) :
    splitPath (pathTo true (name :: names)) = none := by
  have first : (pathTo true (name :: names)).take maxPath =
      slash :: (name ++ absolutePath names).take 254 := rfl
  rw [splitPath, first, List.dropWhile_cons_of_neg (by simp)]
  rfl

/-- Without one, the first component is in front of the first slash, and all others are behind
it. -/
theorem splitPath_relative {rest : CString} (nonempty : name ≠ []) (clean : slash ∉ name)
    (more : rest ≠ []) (short : (name ++ slash :: rest).length ≤ maxPath) :
    splitPath (name ++ slash :: rest) = some (name, rest) := by
  have passed : ∀ c ∈ name, decide (c ≠ slash) = true := by
    intro c member
    refine decide_eq_true ?_
    rintro rfl
    exact clean member
  have behind : (name ++ slash :: rest).dropWhile (· ≠ slash) = slash :: rest := by
    rw [List.dropWhile_append_of_pos passed]
    exact List.dropWhile_cons_of_neg (by simp)
  have before : (name ++ slash :: rest).takeWhile (· ≠ slash) = name := by
    rw [List.takeWhile_append_of_pos passed, List.takeWhile_cons_of_neg (by simp),
      List.append_nil]
  rw [splitPath, List.take_of_length_le short, behind]
  dsimp only
  rw [before, if_neg nonempty, if_neg more]

/-! ## What is asked of the call -/

/-- A directory, reached by its names from the root, that has room for a file and no child of
that name. -/
structure Creatable (s : Ramfs) (dirs : List CString) (filename : CString) (r p : Ptr)
    (dir : Node) : Prop where
  nonempty : dirs ≠ []
  proper : ∀ name ∈ dirs ++ [filename], name ≠ [] ∧ slash ∉ name ∧ name.length ≤ maxName
  root : s.root = some r
  leads : s.lookup dirs r = some p
  present : s.node p = some dir
  type : dir.type = .dir
  room : dir.children.length < maxChildren
  absent : s.childNamed p filename = none

/-- There is memory for the node of the file and then for its contents. -/
def MemoryFor (s : Ramfs) (a : Allocator) (p : Ptr) (filename data : CString) : Prop :=
  ∃ file, a.kmalloc s nodeSize = some file ∧
    (a.kmalloc (s.setNode file ⟨filename.take maxName, .file, some p, [], none, data.length⟩)
      (data.length + 1)).isSome

/-- The call has returned a new file of that name, with its contents, as the last child of the
directory, and has changed no other node. -/
def AddsFile (s : Ramfs) (p : Ptr) (dir : Node) (filename data : CString)
    (result : Option (Option Ptr × Ramfs)) : Prop :=
  ∃ file contents t, result = some (some file, t) ∧ s.node file = none ∧
    t.node file = some ⟨filename, .file, some p, [], some contents, data.length⟩ ∧
    t.block contents = some (cBytes data) ∧
    t.node p = some { dir with children := dir.children ++ [file] } ∧
    (∀ q, q ≠ p → q ≠ file → t.node q = s.node q) ∧ t.root = s.root

/-! ## The cases -/

/-- The nodes on the way that a search takes. -/
theorem lookup_descent {way : List Ptr} (down : s.Descent r way q)
    (found : s.lookup names q = some p) :
    ∃ rest, s.Descent r rest p ∧ rest.length = way.length + names.length := by
  induction names generalizing q way with
  | nil =>
      obtain rfl : q = p := Option.some.inj found
      exact ⟨way, down, rfl⟩
  | cons name names ih =>
      obtain ⟨c, first, later⟩ := Option.bind_eq_some_iff.mp found
      obtain ⟨above, _, present, member, _, _⟩ := childNamed_spec first
      obtain ⟨rest, below, length⟩ := ih (.child down present member) later
      refine ⟨rest, below, ?_⟩
      rw [length, List.length_cons, List.length_cons]
      omega

/-- Through several directories the search leads further than through the first. -/
theorem Valid.first_ne (valid : s.Valid) (root : s.root = some r)
    (first : s.childNamed r name = some q) (found : s.lookup names q = some p)
    (further : names ≠ []) : q ≠ p := by
  rintro rfl
  obtain ⟨above, _, present, member, _, _⟩ := childNamed_spec first
  have down : s.Descent r [q] q := .child .root present member
  obtain ⟨rest, again, length⟩ := lookup_descent down found
  rw [← valid.descent_unique root down again] at length
  have := List.length_pos_iff.mpr further
  omega

/-- The nodes after a file was added. -/
theorem withFile_node (x : Ptr) {file contents : Ptr} :
    (s.withFile filename data p dir file contents).node x =
      if x = p then some { dir with children := dir.children ++ [file] }
      else if x = file then some (newFile filename data p contents) else s.node x :=
  adopt_node x

/-- A path with a leading slash adds nothing. -/
theorem createFile_leading (name : CString) (names : List CString) (root : s.root = some r) :
    s.createFile a (pathTo true (name :: names)) data = some (none, s) := by
  rw [createFile, root, splitPath_leading]

/-- A file with memory for it is added. -/
theorem addFile_adds (memory : s.MemoryFor a p filename data) (present : s.node p = some dir)
    (short : filename.length ≤ maxName) :
    s.AddsFile p dir filename data (s.addFile a filename data p dir) := by
  obtain ⟨file, given, more⟩ := memory
  obtain ⟨contents, given'⟩ := Option.isSome_iff_exists.mp more
  have defined : (s.addFile a filename data p dir).isSome := by
    rw [addFile]
    simp only [given, given', Option.isSome_some]
  obtain ⟨⟨result, t⟩, done⟩ := Option.isSome_iff_exists.mp defined
  obtain ⟨file, contents, _, rfl, fresh, rfl⟩ := addFile_cases done
  have differ : file ≠ p := (ne_of_free fresh.node present).symm
  refine ⟨file, contents, _, done, fresh.node, ?_, ?_, ?_, fun q notDir notFile => ?_, rfl⟩
  · rw [withFile_node, if_neg differ, if_pos rfl, newFile, List.take_of_length_le short]
  · exact Function.update_self _ _ _
  · rw [withFile_node, if_pos rfl]
  · rw [withFile_node, if_neg notDir, if_neg notFile]

/-- A path through one directory adds the file there. -/
theorem Valid.createFile_single (valid : s.Valid)
    (creatable : s.Creatable [name] filename r p dir)
    (memory : s.MemoryFor a p filename data)
    (short : (pathTo false [name, filename]).length ≤ maxPath) :
    s.AddsFile p dir filename data (s.createFile a (pathTo false [name, filename]) data) := by
  obtain ⟨_, proper, root, leads, present, type, room, absent⟩ := creatable
  obtain ⟨nonempty, clean, _⟩ := proper name (by simp)
  obtain ⟨some, _, few⟩ := proper filename (by simp)
  obtain ⟨top, topPresent, _⟩ := valid.root r root
  have path : pathTo false [name, filename] = name ++ slash :: filename := by
    rw [pathTo_cons, absolutePath_cons]
    exact congrArg (fun rest => name ++ slash :: rest) (List.append_nil filename)
  rw [path] at short ⊢
  have parts := splitPath_relative nonempty clean some short
  have child : s.childNamed r name = Option.some p := by
    rw [lookup, Option.bind_eq_some_iff] at leads
    obtain ⟨c, first, last⟩ := leads
    rw [first]
    exact last
  have searched := valid.findNode_parent (a := a) parts root topPresent
  rw [child] at searched
  rw [createFile, root, parts]
  dsimp only
  rw [searched]
  dsimp only
  rw [present]
  dsimp only
  rw [if_neg (not_not_intro type), valid.findChild present, absent]
  dsimp only
  rw [if_neg (Nat.not_le_of_lt room)]
  exact addFile_adds memory present few

/-- A path through several directories adds nothing to the last one. -/
theorem Valid.createFile_nested (valid : s.Valid) {second : CString}
    (creatable : s.Creatable (name :: second :: names) filename r p dir)
    (short : (pathTo false (name :: second :: names ++ [filename])).length ≤ maxPath) :
    ¬ s.AddsFile p dir filename data
      (s.createFile a (pathTo false (name :: second :: names ++ [filename])) data) := by
  obtain ⟨_, proper, root, leads, _⟩ := creatable
  obtain ⟨nonempty, clean, _⟩ := proper name (by simp)
  obtain ⟨some, _, _⟩ := proper second (by simp)
  obtain ⟨top, topPresent, _⟩ := valid.root r root
  rintro ⟨file, contents, t, done, free, _, _, _, others, _⟩
  have path : pathTo false (name :: second :: names ++ [filename]) =
      name ++ slash :: (second ++ absolutePath (names ++ [filename])) := rfl
  rw [path] at short done
  have parts := splitPath_relative nonempty clean
    (List.append_ne_nil_of_left_ne_nil some _) short
  rw [lookup, Option.bind_eq_some_iff] at leads
  obtain ⟨q, first, leads⟩ := leads
  have differ := valid.first_ne root first leads (List.cons_ne_nil _ _)
  have searched := valid.findNode_parent (a := a) parts root topPresent
  rw [first] at searched
  rcases createFile_cases done with ⟨nothing, _⟩ | ⟨parent, filename', middle, q', below, file',
      contents', parts', searched', present, _, _, _, _, _, same, rfl⟩
  · cases nothing
  · obtain ⟨rfl, rfl⟩ := Prod.mk.inj (Option.some.inj (parts'.symm.trans parts))
    obtain ⟨found, rfl⟩ := Prod.mk.inj (Option.some.inj (searched'.symm.trans searched))
    obtain rfl := Option.some.inj found
    obtain rfl := Option.some.inj same
    have kept := others q' differ (ne_of_free free present)
    rw [withFile_node, if_pos rfl, present, Option.some.injEq] at kept
    have lengths := congrArg (fun node : Node => node.children.length) kept
    simp at lengths

end Ramfs

/-- **When a file is created by its path.** In every reachable state, exactly when the path has
no leading slash and names one directory. -/
theorem ramfs_createFile_iff {first a : Allocator} {events : List RamfsEvent} {s : Ramfs}
    {leading : Bool} {dirs : List CString} {filename data : CString} {r p : Ptr} {dir : Node}
    (run : Run RamfsStep (.init first .empty) events s)
    (creatable : s.Creatable dirs filename r p dir) (memory : s.MemoryFor a p filename data)
    (short : (Ramfs.pathTo leading (dirs ++ [filename])).length ≤ maxPath) :
    s.AddsFile p dir filename data
        (s.createFile a (Ramfs.pathTo leading (dirs ++ [filename])) data) ↔
      leading = false ∧ dirs.length = 1 := by
  have valid := Ramfs.valid_run run
  rcases dirs with _ | ⟨name, _ | ⟨second, names⟩⟩
  · exact absurd rfl creatable.nonempty
  · cases leading with
    | true =>
        refine iff_of_false ?_ fun both => nomatch both.1
        rintro ⟨file, contents, t, done, _⟩
        rw [List.cons_append, Ramfs.createFile_leading _ _ creatable.root] at done
        cases done
    | false => exact iff_of_true (valid.createFile_single creatable memory short) ⟨rfl, rfl⟩
  · cases leading with
    | true =>
        refine iff_of_false ?_ fun both => nomatch both.1
        rintro ⟨file, contents, t, done, _⟩
        rw [List.cons_append, Ramfs.createFile_leading _ _ creatable.root] at done
        cases done
    | false =>
        refine iff_of_false (valid.createFile_nested creatable short) fun both => ?_
        exact absurd both.2 (by simp)

/-- The directory `etc`, right after it was made. -/
theorem sample_creatable :
    (sampleMkdir.apply sampleRamfs).Creatable [etcName] hostsName 1 2
      ⟨etcName, .dir, some 1, [], none, 0⟩ where
  nonempty := List.cons_ne_nil _ _
  proper := by decide
  root := by decide
  leads := by decide
  present := by decide
  type := rfl
  room := by decide
  absent := by decide

theorem sample_memory : (sampleMkdir.apply sampleRamfs).MemoryFor (.pool 8) 2 hostsName etcName :=
  ⟨3, by decide, by decide⟩

/-- The path `etc/hosts`. -/
theorem ramfs_createFile_hosts :
    (sampleMkdir.apply sampleRamfs).AddsFile 2 ⟨etcName, .dir, some 1, [], none, 0⟩ hostsName etcName
      ((sampleMkdir.apply sampleRamfs).createFile (.pool 8)
        (Ramfs.pathTo false [etcName, hostsName]) etcName) :=
  (ramfs_createFile_iff (.single (ramfsStep_apply (by decide))) sample_creatable sample_memory
    (by decide)).mpr ⟨rfl, rfl⟩

/-- The path `/etc/hosts`, with which the kernel tests the file system, creates nothing. -/
theorem ramfs_createFile_absolute :
    ¬ ∀ (first a : Allocator) (events : List RamfsEvent) (s : Ramfs) (leading : Bool)
      (dirs : List CString) (filename data : CString) (r p : Ptr) (dir : Node),
      Run RamfsStep (.init first .empty) events s → s.Creatable dirs filename r p dir →
      s.MemoryFor a p filename data →
      (Ramfs.pathTo leading (dirs ++ [filename])).length ≤ maxPath →
      s.AddsFile p dir filename data
        (s.createFile a (Ramfs.pathTo leading (dirs ++ [filename])) data) := by
  intro claim
  obtain ⟨file, contents, t, done, _⟩ := claim (.pool 8) (.pool 8) [sampleMkdir]
    (sampleMkdir.apply sampleRamfs) true [etcName] hostsName etcName 1 2 _
    (.single (ramfsStep_apply (by decide))) sample_creatable sample_memory (by decide)
  rw [List.cons_append, Ramfs.createFile_leading _ _ sample_creatable.root] at done
  cases done

end NTux.Fs
