import Mathlib.Data.List.Basic
import Mathlib.Data.List.Nodup

/-! # Linked lists

A linked list is given by the head and a successor function on nodes; `Chain`
says which nodes it runs through before it ends in the null node. Nodes of a chain
are read off the successor function, so a chain is unaffected by changes of the
function elsewhere (`Chain.congr`), and pushing and unlinking change it at one node
(`Chain.push`, `Chain.unlink`).
-/

namespace NTux.Foundation

universe u

variable {α : Type u}

/-- The nodes of the linked list at `head`, in order. -/
def Chain (next : α → α) (null : α) : α → List α → Prop
  | head, [] => head = null
  | head, node :: rest => head = node ∧ node ≠ null ∧ Chain next null (next node) rest

namespace Chain

variable {next other : α → α} {null head node prev : α} {nodes before after : List α}

theorem congr (chain : Chain next null head nodes)
    (same : ∀ node ∈ nodes, other node = next node) : Chain other null head nodes := by
  induction nodes generalizing head with
  | nil => exact chain
  | cons first rest ih =>
      obtain ⟨rfl, nonnull, tail⟩ := chain
      refine ⟨rfl, nonnull, ?_⟩
      rw [same head List.mem_cons_self]
      exact ih tail fun node member => same node (List.mem_cons_of_mem head member)

/-- What holds of the head and of every successor holds of every node. -/
theorem of_next {holds : α → Prop} (chain : Chain next null head nodes) (start : holds head)
    (step : ∀ node, holds (next node)) : ∀ node ∈ nodes, holds node := by
  induction nodes generalizing head with
  | nil => exact fun _ member => absurd member List.not_mem_nil
  | cons first rest ih =>
      obtain ⟨rfl, _, tail⟩ := chain
      intro node member
      rcases List.mem_cons.mp member with rfl | later
      · exact start
      · exact ih tail (step head) node later

/-- A node in front of the list. -/
theorem push (chain : Chain next null head nodes) (nonnull : node ≠ null)
    (link : other node = head) (same : ∀ old ∈ nodes, other old = next old) :
    Chain other null node (node :: nodes) := by
  refine ⟨rfl, nonnull, ?_⟩
  rw [link]
  exact chain.congr same

/-- The list without its first node. -/
theorem tail (chain : Chain next null head (node :: nodes)) : Chain next null (next node) nodes := by
  obtain ⟨rfl, _, tail⟩ := chain
  exact tail

/-- The successor of an inner node. -/
theorem next_eq (chain : Chain next null head (before ++ prev :: node :: after)) :
    next prev = node := by
  induction before generalizing head with
  | nil => exact chain.tail.1
  | cons first rest ih =>
      obtain ⟨rfl, _, tail⟩ := chain
      exact ih tail

/-- The list without an inner node, once its predecessor skips it. -/
theorem unlink (chain : Chain next null head (before ++ prev :: node :: after))
    (skip : other prev = next node)
    (same : ∀ old ∈ before ++ after, other old = next old) :
    Chain other null head (before ++ prev :: after) := by
  induction before generalizing head with
  | nil =>
      obtain ⟨rfl, nonnull, _, _, tail⟩ := chain
      refine ⟨rfl, nonnull, ?_⟩
      rw [skip]
      exact tail.congr same
  | cons first rest ih =>
      obtain ⟨rfl, nonnull, tail⟩ := chain
      refine ⟨rfl, nonnull, ?_⟩
      rw [same head List.mem_cons_self]
      exact ih tail fun old member => same old (List.mem_cons_of_mem head member)

end Chain

end NTux.Foundation
