import NTux.Fs.Tokeniser
import NTux.Fs.RamfsTree
import Mathlib.Data.List.Induction

/-! # Lookup by components

The components of a path are the parts between its slashes that are not empty. In any file
system whose pointers lead to nodes in use, the search of `ramfs_find_node` goes down from
the root by the components, to the first child of each name (`ramfs_findNode_fold`).
-/

namespace NTux.Fs

open NTux.Foundation

/-- The parts of a path between its slashes that are not empty. -/
def components (path : CString) : List CString := (path.splitOn slash).filter (· ≠ [])

theorem components_eq_tokens (path : CString) : components path = tokens slash path := by
  rw [components, tokens_eq_splitOn]
  congr
  exact lawful_beq_subsingleton ..

namespace Ramfs

variable {s : Ramfs} {names rest : List CString} {p q r : Ptr}

/-- A path leads where the components of its first 255 characters do. -/
theorem find_eq_lookup (root : s.root = some r) (path : CString) :
    s.find path = s.lookup (components (path.take maxPath)) r := by
  rw [find_eq root, components_eq_tokens]

/-- Go down by names, as long as there is a child of the next name. -/
def descend (s : Ramfs) (names : List CString) (p : Ptr) : Option Ptr :=
  names.foldl (fun cur name => cur.bind fun p => s.childNamed p name) (some p)

theorem lookup_append (s : Ramfs) (names rest : List CString) (p : Ptr) :
    s.lookup (names ++ rest) p = (s.lookup names p).bind (s.lookup rest) := by
  induction names generalizing p with
  | nil => rfl
  | cons name names ih =>
      rw [List.cons_append, lookup, lookup, Option.bind_assoc]
      exact congrArg _ (funext ih)

theorem lookup_snoc (s : Ramfs) (names : List CString) (name : CString) (p : Ptr) :
    s.lookup (names ++ [name]) p = (s.lookup names p).bind fun q => s.childNamed q name := by
  rw [lookup_append]
  refine congrArg _ (funext fun q => ?_)
  rw [lookup]
  exact Option.bind_fun_some _

theorem lookup_eq_descend (s : Ramfs) (names : List CString) (p : Ptr) :
    s.lookup names p = s.descend names p := by
  induction names using List.reverseRecOn with
  | nil => rfl
  | append_singleton names name ih =>
      rw [lookup_snoc, ih, descend, descend, List.foldl_append]
      rfl

/-- A search ends at the first name that no child has. -/
theorem lookup_eq_none_iff : s.lookup names p = none ↔
    ∃ before name after q, names = before ++ name :: after ∧ s.lookup before p = some q ∧
      s.childNamed q name = none := by
  constructor
  · intro missing
    induction names generalizing p with
    | nil => cases missing
    | cons name names ih =>
        cases found : s.childNamed p name with
        | none => exact ⟨[], name, names, p, rfl, rfl, found⟩
        | some c =>
            rw [lookup, found, Option.bind_some] at missing
            obtain ⟨before, other, after, q, rfl, reached, none⟩ := ih missing
            refine ⟨name :: before, other, after, q, rfl, ?_, none⟩
            rw [lookup, found, Option.bind_some, reached]
  · rintro ⟨before, name, after, q, rfl, reached, missing⟩
    rw [lookup_append, reached, Option.bind_some, lookup, missing, Option.bind_none]

end Ramfs

/-- **Lookup by components.** In a file system whose pointers lead to nodes in use, the search
for a path of at most 255 characters changes nothing, goes down from the root to the first
child of the name of each component, and returns `NULL` if and only if there is no such child
at some step. Paths of the same components lead to the same node. -/
theorem ramfs_findNode_fold {s : Ramfs} {r : Ptr} (linked : s.Linked) (root : s.root = some r)
    (a : Allocator) {path : CString} (short : path.length ≤ maxPath) :
    s.findNodeInPlace a false path = some (s.descend (components path) r, s) ∧
      (s.descend (components path) r = none ↔
        ∃ before name after p, components path = before ++ name :: after ∧
          s.descend before r = some p ∧ s.childNamed p name = none) ∧
      ∀ other : CString, other.length ≤ maxPath → components other = components path →
        s.findNodeInPlace a false other = s.findNodeInPlace a false path := by
  have search : ∀ other : CString, other.length ≤ maxPath →
      s.findNodeInPlace a false other = some (s.descend (components other) r, s) := by
    intro other fits
    rw [Ramfs.findNodeInPlace_eq, linked.findNode_false, Ramfs.find_eq_lookup root,
      List.take_of_length_le fits, Ramfs.lookup_eq_descend]
  refine ⟨search path short, ?_, ?_⟩
  · simp only [← Ramfs.lookup_eq_descend]
    exact Ramfs.lookup_eq_none_iff
  · intro other fits same
    rw [search other fits, search path short, same]

/-- `//etc//` -/
def slashedPath : CString := slash :: etcPath ++ [slash, slash]

theorem ramfs_findNode_fold_etc :
    (sampleRamfs.findNodeInPlace (.pool 8) false slashedPath =
        some (sampleRamfs.descend (components slashedPath) 1, sampleRamfs) ∧
      (sampleRamfs.descend (components slashedPath) 1 = none ↔
        ∃ before name after p, components slashedPath = before ++ name :: after ∧
          sampleRamfs.descend before 1 = some p ∧ sampleRamfs.childNamed p name = none) ∧
      ∀ other : CString, other.length ≤ maxPath → components other = components slashedPath →
        sampleRamfs.findNodeInPlace (.pool 8) false other =
          sampleRamfs.findNodeInPlace (.pool 8) false slashedPath) ∧
      components slashedPath = [etcName] :=
  ⟨ramfs_findNode_fold (Ramfs.valid_init _).linked (by decide) (.pool 8) (by decide), by decide⟩

end NTux.Fs
