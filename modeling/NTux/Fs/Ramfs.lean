import NTux.Foundation.Runs
import NTux.Foundation.Tokens
import Mathlib.Logic.Function.Basic

/-! # The file system in memory

`fs/ramfs.c`: nodes that point to their parent and to at most sixteen children, with the
path functions over them. A string is the list of its characters up to the `NUL`, a
pointer is a number, and `NULL` is none. Arguments that are pointers are not `NULL`.

Following a pointer to memory that holds nothing, which includes `NULL`, is undefined, and
so is the result of the function that does it: it has no value. The memory of the kernel's
allocator is not modelled, but an allocator never hands out memory that is in use and has
none of size zero (`Allocator`).
-/

namespace NTux.Fs

open NTux.Foundation

/-- A character of a string. -/
abbrev CChar : Type := { c : BitVec 8 // c ≠ 0 }

abbrev CString : Type := List CChar

abbrev Ptr : Type := Nat

/-- `'/'`. -/
def slash : CChar := ⟨0x2F, by decide⟩

/-- The longest name: `RAMFS_MAX_NAME - 1`. -/
abbrev maxName : Nat := 31

/-- `RAMFS_MAX_CHILDREN`. -/
abbrev maxChildren : Nat := 16

/-- The longest path that is looked at: `sizeof(temp) - 1`. -/
abbrev maxPath : Nat := 255

/-- `sizeof(ramfs_node_t)`. -/
abbrev nodeSize : Nat := 200

/-- `ramfs_node_type_t`. -/
inductive NodeType where
  | file
  | dir
  deriving DecidableEq, Repr

/-- `ramfs_node_t`, with the first `child_count` entries of `children`. -/
structure Node where
  name : CString
  type : NodeType
  parent : Option Ptr
  children : List Ptr
  data : Option Ptr
  size : Nat
  deriving DecidableEq

/-- `ramfs_root`, and what the memory of the nodes and of the file contents holds. -/
structure Ramfs where
  root : Option Ptr
  node : Ptr → Option Node
  block : Ptr → Option (List (BitVec 8))

/-- `kmalloc`, which may answer differently from call to call: memory that is not in use,
and none for zero bytes. -/
structure Allocator where
  kmalloc : Ramfs → Nat → Option Ptr
  fresh : ∀ {s size p}, kmalloc s size = some p → s.node p = none ∧ s.block p = none
  zero : ∀ s, kmalloc s 0 = none

/-- There is memory for the request. -/
def Allocator.Serves (a : Allocator) (s : Ramfs) (size : Nat) : Prop :=
  0 < size → (a.kmalloc s size).isSome

namespace Ramfs

/-- Before `ramfs_init`. -/
def empty : Ramfs := ⟨none, fun _ => none, fun _ => none⟩

def setNode (s : Ramfs) (p : Ptr) (node : Node) : Ramfs :=
  { s with node := Function.update s.node p (some node) }

def setBlock (s : Ramfs) (p : Ptr) (bytes : List (BitVec 8)) : Ramfs :=
  { s with block := Function.update s.block p (some bytes) }

/-- `kfree`. -/
def kfree (s : Ramfs) : Option Ptr → Ramfs
  | none => s
  | some p => { s with node := Function.update s.node p none
                       block := Function.update s.block p none }

/-! ## Paths -/

/-- The loop over the children of a directory that looks for a name. -/
def findChild (s : Ramfs) (name : CString) : List Ptr → Option (Option Ptr)
  | [] => some none
  | child :: rest =>
      match s.node child with
      | none => none
      | some node => if node.name = name then some (some child) else s.findChild name rest

/-- A directory that `ramfs_find_node` adds. -/
def newDir (name : CString) (parent : Ptr) : Node where
  name := name.take maxName
  type := .dir
  parent := some parent
  children := []
  data := none
  size := 0

/-- The loop of `ramfs_find_node` over the tokens of the path. -/
def walk (a : Allocator) (createMissing : Bool) :
    List CString → Ptr → Ramfs → Option (Option Ptr × Ramfs)
  | [], cur, s => some (some cur, s)
  | token :: rest, cur, s =>
      match s.node cur with
      | none => none
      | some dir =>
        match s.findChild token dir.children with
        | none => none
        | some (some child) => walk a createMissing rest child s
        | some none =>
          if !createMissing then some (none, s)
          else match a.kmalloc s nodeSize with
            | none => some (none, s)
            | some new =>
              let s := s.setNode new (newDir token cur)
              if dir.children.length ≥ maxChildren then some (none, s)
              else walk a createMissing rest new
                (s.setNode cur { dir with children := dir.children ++ [new] })

/-- `ramfs_find_node`. -/
def findNode (a : Allocator) (createMissing : Bool) (path : CString) (s : Ramfs) :
    Option (Option Ptr × Ramfs) :=
  match s.root with
  | none => some (none, s)
  | some root =>
      if path = [] ∨ path = [slash] then some (some root, s)
      else walk a createMissing (tokens slash (path.take maxPath)) root s

/-! ## Operations -/

/-- `ramfs_init`. -/
def init (a : Allocator) (s : Ramfs) : Ramfs :=
  match a.kmalloc s nodeSize with
  | none => { s with root := none }
  | some root =>
      { s.setNode root ⟨[], .dir, none, [], none, 0⟩ with root := some root }

/-- `ramfs_mkdir`. -/
def mkdir (a : Allocator) (path : CString) (s : Ramfs) : Option (Option Ptr × Ramfs) :=
  match s.findNode a true path with
  | none => none
  | some (none, s) => some (none, s)
  | some (some p, s) =>
    match s.node p with
    | none => none
    | some node => if node.type ≠ .dir then some (none, s) else some (some p, s)

/-- The bytes of a string in memory. -/
def cBytes (text : CString) : List (BitVec 8) := text.map Subtype.val ++ [0]

/-- The end of `ramfs_create_file`: a new file in a directory that has room for it. -/
def addFile (a : Allocator) (filename data : CString) (parent : Ptr) (dir : Node) (s : Ramfs) :
    Option (Option Ptr × Ramfs) :=
  match a.kmalloc s nodeSize with
  | none => none
  | some file =>
    let node : Node :=
      { name := filename.take maxName
        type := .file
        parent := some parent
        children := []
        data := none
        size := data.length }
    let s := s.setNode file node
    match a.kmalloc s (data.length + 1) with
    | none => none
    | some contents =>
      let s := (s.setBlock contents (cBytes data)).setNode file { node with data := some contents }
      some (some file, s.setNode parent { dir with children := dir.children ++ [file] })

/-- `path_copy` before its first slash, and `filename`, which is behind it; none where there
is no slash, or nothing before it or behind it. -/
def splitPath (path : CString) : Option (CString × CString) :=
  match (path.take maxPath).dropWhile (· ≠ slash) with
  | [] => none
  | _ :: filename =>
      let parent := (path.take maxPath).takeWhile (· ≠ slash)
      if parent = [] then none
      else if filename = [] then none
      else some (parent, filename)

/-- `ramfs_create_file`. -/
def createFile (a : Allocator) (path data : CString) (s : Ramfs) :
    Option (Option Ptr × Ramfs) :=
  match s.root with
  | none => some (none, s)
  | some _ =>
    match splitPath path with
    | none => some (none, s)
    | some (parent, filename) =>
      match s.findNode a true parent with
      | none => none
      | some (none, s) => some (none, s)
      | some (some p, s) =>
        match s.node p with
        | none => none
        | some dir =>
          if dir.type ≠ .dir then some (none, s)
          else match s.findChild filename dir.children with
            | none => none
            | some (some _) => some (none, s)
            | some none =>
              if dir.children.length ≥ maxChildren then some (none, s)
              else s.addFile a filename data p dir

/-- `ramfs_delete_file`. -/
def deleteFile (a : Allocator) (path : CString) (s : Ramfs) : Option (Option Ptr × Ramfs) :=
  match s.findNode a false path with
  | none => none
  | some (none, s) => some (none, s)
  | some (some p, s) =>
    match s.node p with
    | none => none
    | some node =>
      if node.type ≠ .file then some (none, s)
      else match node.parent with
        | none => some (none, s)
        | some parent =>
          match s.node parent with
          | none => none
          | some dir =>
            if p ∉ dir.children then some (none, s)
            else
              let s := s.setNode parent { dir with children := dir.children.erase p }
              some (some parent, (s.kfree node.data).kfree (some p))

/-- `ramfs_read_file`. -/
def readFile (a : Allocator) (path : CString) (s : Ramfs) : Option (Option Ptr) :=
  match s.findNode a false path with
  | none => none
  | some (none, _) => some none
  | some (some p, s) =>
    match s.node p with
    | none => none
    | some node => if node.type ≠ .file then some none else some (some p)

/-- `ramfs_read_file_to_memory`: what the returned buffer holds, and `*size`. -/
def readFileToMemory (a : Allocator) (path : CString) (s : Ramfs) :
    Option (Option (List (BitVec 8)) × Nat) :=
  match s.findNode a false path with
  | none => none
  | some (none, _) => some (none, 0)
  | some (some p, s) =>
    match s.node p with
    | none => none
    | some node =>
      if node.type ≠ .file then some (none, 0)
      else match a.kmalloc s node.size with
        | none => some (none, 0)
        | some _ =>
          match node.data.bind s.block with
          | none => none
          | some bytes =>
            if node.size ≤ bytes.length then some (some (bytes.take node.size), node.size)
            else none

end Ramfs

/-! ## Runs -/

/-- A call of one of the operations that change the file system, with the allocator as it
answers during the call. -/
inductive RamfsEvent where
  | mkdir (a : Allocator) (path : CString)
  | createFile (a : Allocator) (path data : CString)
  | deleteFile (a : Allocator) (path : CString)

/-- What a call returns and leaves behind. -/
def RamfsEvent.call (s : Ramfs) : RamfsEvent → Option (Option Ptr × Ramfs)
  | mkdir a path => s.mkdir a path
  | createFile a path data => s.createFile a path data
  | deleteFile a path => s.deleteFile a path

/-- The state after a call that is defined. -/
def RamfsEvent.apply (s : Ramfs) (event : RamfsEvent) : Ramfs :=
  ((event.call s).map Prod.snd).getD s

def RamfsStep (s : Ramfs) (event : RamfsEvent) (t : Ramfs) : Prop :=
  ∃ result, event.call s = some (result, t)

theorem ramfsStep_apply {s : Ramfs} {event : RamfsEvent} (defined : (event.call s).isSome) :
    RamfsStep s event (event.apply s) := by
  obtain ⟨⟨result, t⟩, called⟩ := Option.isSome_iff_exists.mp defined
  refine ⟨result, ?_⟩
  rw [RamfsEvent.apply, called]
  rfl

/-! ## Concrete calls -/

/-- A string from its characters. -/
def CString.ofChars (chars : List Char) : CString :=
  chars.filterMap fun c =>
    if real : BitVec.ofNat 8 c.toNat ≠ 0 then some ⟨BitVec.ofNat 8 c.toNat, real⟩ else none

/-- An allocator that takes the first of a number of addresses that is not in use. -/
def Allocator.pool (count : Nat) : Allocator where
  kmalloc s size :=
    if size = 0 then none
    else (List.range' 1 count).find? fun p => (s.node p).isNone && (s.block p).isNone
  fresh := by
    intro s size p given
    split at given
    · cases given
    · simpa using List.find?_some given
  zero _ := if_pos rfl

/-- The file system before its first call. -/
def sampleRamfs : Ramfs := .init (.pool 8) .empty

def etcName : CString := .ofChars ['e', 't', 'c']

def hostsName : CString := .ofChars ['h', 'o', 's', 't', 's']

/-- `/etc` -/
def etcPath : CString := slash :: etcName

/-- `etc/hosts` -/
def hostsPath : CString := etcName ++ slash :: hostsName

/-- `etc/a/b` -/
def nestedPath : CString := etcName ++ slash :: CString.ofChars ['a', '/', 'b']

end NTux.Fs
