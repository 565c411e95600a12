import NTux.Foundation.Runs
import Mathlib.Data.List.Infix
import Mathlib.Logic.Function.Basic

/-! # Trees of names

A tree of names tells what each list of names leads to: a directory, a file with its contents, or
nothing. It answers requests (`NameTree.Answers`): a directory is made with all that are missing on
the way to it, a file is made where nothing was, and only files are removed. A request that is not
granted leaves at most directories on its way.

What a list of names holds after a run is what the requests that were granted say
(`NameTree.held_run`).
-/

namespace NTux.Foundation

universe u v

/-- What a list of names leads to. -/
inductive Entry (β : Type v) where
  | dir
  | file (contents : β)
  deriving DecidableEq

/-- A tree of names. -/
abbrev NameTree (κ : Type u) (β : Type v) : Type (max u v) := List κ → Option (Entry β)

/-- A request, or one that cannot be read. -/
inductive Request (κ : Type u) (β : Type v) where
  | makeDir (way : List κ)
  | makeFile (dir : List κ) (name : κ) (contents : β)
  | remove (names : List κ)
  | unreadable
  deriving DecidableEq

/-- The directories that a request makes where they are missing. -/
def Request.way {κ : Type u} {β : Type v} : Request κ β → List κ
  | makeDir way => way
  | makeFile dir _ _ => dir
  | remove _ => []
  | unreadable => []

/-- Whether a request makes something. -/
def Request.Makes {κ : Type u} {β : Type v} : Request κ β → Prop
  | makeDir _ => True
  | makeFile _ _ _ => True
  | remove _ => False
  | unreadable => False

namespace NameTree

variable {κ : Type u} {β : Type v} {tree tree' : NameTree κ β} {names way : List κ} {contents : β}

/-- The contents of the file that the names lead to. -/
def held (tree : NameTree κ β) (names : List κ) : Option β :=
  match tree names with
  | some (.file contents) => some contents
  | _ => none

theorem held_eq_some_iff : tree.held names = some contents ↔
    tree names = some (.file contents) := by
  rw [held]
  split
  · next here => rw [here, Option.some_inj, Option.some_inj, Entry.file.injEq]
  · next other => exact ⟨fun none => (nomatch none), fun here => absurd here (other contents)⟩

theorem held_congr (same : ∀ contents, tree' names = some (.file contents) ↔
    tree names = some (.file contents)) : tree'.held names = tree.held names := by
  apply Option.ext
  intro contents
  rw [held_eq_some_iff, held_eq_some_iff, same]

variable [DecidableEq κ]

/-- The directories on a way, where there was nothing. -/
def grow (tree : NameTree κ β) (way : List κ) : NameTree κ β := fun names =>
  if names <+: way then (tree names).or (some .dir) else tree names

/-- What is there stays. -/
theorem grow_of_some {entry : Entry β} (here : tree names = some entry) (way : List κ) :
    tree.grow way names = some entry := by
  rw [grow, here, Option.some_or, ite_self]

theorem grow_of_not_prefix (outside : ¬ names <+: way) : tree.grow way names = tree names :=
  if_neg outside

/-- Nothing is missing on the way. -/
theorem grow_eq_self (there : ∀ names, names <+: way → tree names ≠ none) :
    tree.grow way = tree := by
  funext names
  rw [grow]
  split
  · next inside =>
      obtain ⟨entry, here⟩ := Option.ne_none_iff_exists'.mp (there names inside)
      rw [here, Option.some_or]
  · rfl

/-- A directory that was made on the way before. -/
theorem grow_update (inside : names <+: way) (missing : tree names = none) :
    grow (Function.update tree names (some .dir)) way = tree.grow way := by
  funext others
  by_cases same : others = names
  · rw [same, grow, grow, if_pos inside, if_pos inside, Function.update_self, missing]
    rfl
  · rw [grow, grow, Function.update_of_ne same]

/-- Growing makes no files. -/
theorem grow_eq_file_iff : tree.grow way names = some (.file contents) ↔
    tree names = some (.file contents) := by
  rw [grow]
  split
  · cases tree names with
    | none => simp
    | some entry => rw [Option.some_or]
  · rfl

/-- What may follow a request, with its answer. -/
inductive Answers : NameTree κ β → Request κ β × Bool → NameTree κ β → Prop
  | madeDir {tree : NameTree κ β} {way : List κ} (isDir : tree.grow way way = some .dir) :
      Answers tree (.makeDir way, true) (tree.grow way)
  | madeFile {tree : NameTree κ β} {dir : List κ} {name : κ} {contents : β}
      (isDir : tree.grow dir dir = some .dir) (free : tree (dir ++ [name]) = none) :
      Answers tree (.makeFile dir name contents, true)
        (Function.update (tree.grow dir) (dir ++ [name]) (some (.file contents)))
  | removed {tree : NameTree κ β} {names : List κ} {contents : β}
      (here : tree names = some (.file contents)) :
      Answers tree (.remove names, true) (Function.update tree names none)
  | denied {tree : NameTree κ β} {request : Request κ β}
      (noFile : ∀ names contents, request = .remove names → tree names ≠ some (.file contents)) :
      Answers tree (request, false) tree
  | partly {tree : NameTree κ β} {request : Request κ β} {part : List κ}
      (makes : request.Makes) (inside : part <+: request.way) :
      Answers tree (request, false) (tree.grow part)

/-! ## What is held after a run -/

/-- What names hold after a request, by its answer. -/
def heldAfter (names : List κ) (before : Option β) : Request κ β × Bool → Option β
  | (.makeFile dir name contents, true) => if dir ++ [name] = names then some contents else before
  | (.remove others, true) => if others = names then none else before
  | _ => before

/-- **One request** changes what its names hold. -/
theorem Answers.held {request : Request κ β × Bool} (answers : Answers tree request tree')
    (names : List κ) : tree'.held names = heldAfter names (tree.held names) request := by
  cases answers with
  | madeDir => exact held_congr fun _ => grow_eq_file_iff
  | @madeFile dir name contents =>
      rw [heldAfter]
      split
      · next same => rw [NameTree.held, ← same, Function.update_self]
      · next differ =>
          refine held_congr fun other => ?_
          rw [Function.update_of_ne (Ne.symm differ), grow_eq_file_iff]
  | @removed others contents =>
      rw [heldAfter]
      split
      · next same => rw [NameTree.held, ← same, Function.update_self]
      · next differ =>
          refine held_congr fun other => ?_
          rw [Function.update_of_ne (Ne.symm differ)]
  | @denied request =>
      cases request <;> rfl
  | @partly request part =>
      refine (held_congr fun _ => grow_eq_file_iff).trans ?_
      cases request <;> rfl

/-- **What is held** after a run is what its requests say. -/
theorem held_run {requests : List (Request κ β × Bool)} (run : Run Answers tree requests tree')
    (names : List κ) : tree'.held names = requests.foldl (heldAfter names) (tree.held names) := by
  induction run with
  | nil => rfl
  | cons answers _ ih => rw [ih, answers.held names, List.foldl_cons]

end NameTree

end NTux.Foundation
