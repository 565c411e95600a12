import NTux.Fs.NameSpace
import NTux.Fs.Shape

/-! # Calls that fail

A call of `ramfs_mkdir` or `ramfs_create_file` that returns `NULL` has changed nothing if there
was nothing to create on its way, or no memory for the first directory to create. Otherwise
that directory stays, in its parent or in memory that nobody knows of
(`ramfs_failed_unchanged_iff`).
-/

namespace NTux.Fs

open NTux.Foundation

namespace Ramfs

variable {s t : Ramfs} {r cur new : Ptr} {path : List CString} {a : Allocator}
  {result : Option Ptr}

theorem setNode_inUse {p : Ptr} (inUse : s.node p ≠ none) (q : Ptr) (node : Node) :
    (s.setNode q node).node p ≠ none := by
  rw [setNode_node]
  split
  · exact Option.some_ne_none node
  · exact inUse

/-- A node in use stays in use in a search with creation. -/
theorem Search.inUse {names : List CString} (search : Search a s names cur result t) {p : Ptr}
    (inUse : s.node p ≠ none) : t.node p ≠ none := by
  induction search with
  | done => exact inUse
  | follow _ _ _ ih => exact ih inUse
  | noMemory => exact inUse
  | full => exact setNode_inUse inUse _ _
  | create _ _ _ _ _ _ ih => exact ih (setNode_inUse (setNode_inUse inUse _ _) _ _)

/-- Where something is missing, a search with creation leaves everything as it is if there is
no memory for it. -/
theorem Search.eq_iff {names : List CString} (search : Search a s names cur result t) :
    t = s ↔ (s.lookup names cur).isSome ∨ a.kmalloc s nodeSize = none := by
  induction search with
  | done => exact iff_of_true rfl (.inl rfl)
  | follow _ found _ ih =>
      rw [lookup, found]
      exact ih
  | noMemory _ _ taken => exact iff_of_true rfl (.inr taken)
  | full _ _ missing given =>
      rw [lookup, missing, given]
      refine iff_of_false ?_ (by rintro (found | taken) <;> contradiction)
      intro same
      have free := (a.fresh given).1
      rw [← same, setNode_self] at free
      cases free
  | create _ present missing given _ search =>
      rw [lookup, missing, given]
      refine iff_of_false ?_ (by rintro (found | taken) <;> contradiction)
      rintro rfl
      have differ := ne_of_free (a.fresh given).1 present
      refine search.inUse ?_ (a.fresh given).1
      rw [addDir_new _ differ]
      exact Option.some_ne_none _

/-- There is nothing to create for a path, or no memory for its first directory. -/
def CreatesNothing (s : Ramfs) (a : Allocator) (path : CString) : Prop :=
  s.root = none ∨ (s.find path).isSome ∨ a.kmalloc s nodeSize = none

theorem Valid.findNode_true_eq_iff (valid : s.Valid) {path : CString}
    (searched : s.findNode a true path = some (result, t)) :
    t = s ↔ s.CreatesNothing a path := by
  cases root : s.root with
  | none =>
      rw [findNode, root] at searched
      obtain ⟨-, rfl⟩ := Prod.mk.inj (Option.some.inj searched)
      exact iff_of_true rfl (.inl root)
  | some r =>
      have live := (valid.root r root).imp fun _ both => both.1
      rw [findNode_eq_walk root] at searched
      rw [(valid.search live searched).eq_iff, CreatesNothing, root, find_eq root]
      simp only [reduceCtorEq, false_or]

end Ramfs

/-- The path that a call searches creates nothing. -/
def RamfsEvent.CreatesNothing (s : Ramfs) : RamfsEvent → Prop
  | mkdir a path => s.CreatesNothing a path
  | createFile a path _ => ∀ parent filename, Ramfs.splitPath path = some (parent, filename) →
      s.CreatesNothing a parent
  | deleteFile _ _ => True

/-- **Failed calls.** A call that returns `NULL` leaves the tree and the memory as they were if
and only if the path that it searches creates nothing. -/
theorem ramfs_failed_unchanged_iff {first : Allocator} {events : List RamfsEvent} {s t : Ramfs}
    {event : RamfsEvent} (run : Run RamfsStep (.init first .empty) events s)
    (failed : event.call s = some (none, t)) : t = s ↔ event.CreatesNothing s := by
  have valid := Ramfs.valid_run run
  cases event with
  | mkdir a path =>
      obtain ⟨found, searched⟩ := Ramfs.mkdir_cases failed
      exact valid.findNode_true_eq_iff searched
  | createFile a path data =>
      rcases Ramfs.createFile_cases failed with
        ⟨-, ⟨rfl, noWay⟩ | ⟨parent, filename, found, parts, searched⟩⟩ |
        ⟨_, _, _, _, _, file, _, _, _, _, _, _, _, _, _, isFile, _⟩
      · refine iff_of_true rfl fun parent filename parts => ?_
        rcases noWay with noRoot | noParts
        · exact .inl noRoot
        · cases noParts.symm.trans parts
      · rw [valid.findNode_true_eq_iff searched]
        constructor
        · intro nothing parent' filename' parts'
          obtain ⟨rfl, -⟩ := Prod.mk.inj (Option.some.inj (parts.symm.trans parts'))
          exact nothing
        · exact fun nothing => nothing parent filename parts
      · cases isFile
  | deleteFile a path =>
      rcases valid.deleteFile_cases failed with ⟨-, same⟩ | ⟨_, _, _, _, returned, _⟩
      · exact iff_of_true same trivial
      · cases returned

/-! ## Memory for one directory -/

/-- No directory in the place of a file. -/
theorem ramfs_failed_unchanged_hosts :
    ∃ t, (RamfsEvent.mkdir (.pool 8) hostsPath).call (shapeCreate.apply sampleRamfs) =
      some (none, t) ∧ t = shapeCreate.apply sampleRamfs := by
  have step : RamfsStep sampleRamfs shapeCreate (shapeCreate.apply sampleRamfs) :=
    ramfsStep_apply (by decide)
  have returned : ((RamfsEvent.mkdir (.pool 8) hostsPath).call
      (shapeCreate.apply sampleRamfs)).map Prod.fst = some none := by decide
  obtain ⟨⟨result, t⟩, called, same⟩ := Option.map_eq_some_iff.mp returned
  obtain rfl : result = none := same
  have found : ((shapeCreate.apply sampleRamfs).find hostsPath).isSome := by decide
  exact ⟨t, called, (ramfs_failed_unchanged_iff (.single step) called).mpr (.inr (.inl found))⟩

/-- With memory for one directory, `ramfs_mkdir` of three creates the first of them. -/
theorem ramfs_failed_unchanged_nested :
    ∃ t, (RamfsEvent.mkdir (.pool 2) nestedPath).call sampleRamfs = some (none, t) ∧
      t ≠ sampleRamfs := by
  have returned : ((RamfsEvent.mkdir (.pool 2) nestedPath).call sampleRamfs).map
      (fun after => (after.1, after.2.find etcPath)) = some (none, some 2) := by decide
  obtain ⟨⟨result, t⟩, called, same⟩ := Option.map_eq_some_iff.mp returned
  obtain ⟨rfl, created⟩ := Prod.mk.inj same
  refine ⟨t, called, ?_⟩
  rintro rfl
  have missing : sampleRamfs.find etcPath = none := by decide
  cases missing.symm.trans created

end NTux.Fs
