import Mathlib.Data.List.Basic
import Mathlib.Logic.Function.Basic
import Mathlib.Data.Nat.ModEq

/-! # Bounded queues and rings

A service answers requests one after the other (`serveAll`). When an abstraction of its
states is a service of its own and every answer is determined by the answer of the abstract
service, that is so for every list of requests (`serveAll_abstract`).

The services here are queues of at most `capacity` items, first in, first out: what came in
is what went out and what is still held, in this order (`BoundedQueue.serveAll_items`). A
ring keeps the items of a queue in cells that follow each other, the first one behind the
last (`ringItems`).
-/

namespace NTux.Foundation

universe u v w

section Service

variable {State Abstract : Type u} {Call Request : Type v} {Answer Reply : Type w}

/-- The replies to a list of requests and the state behind them. -/
def serveAll (serve : State → Call → Answer × State) : State → List Call → List Answer × State
  | state, [] => ([], state)
  | state, call :: calls =>
      let rest := serveAll serve (serve state call).2 calls
      ((serve state call).1 :: rest.1, rest.2)

/-- **Simulation.** Where every answer of a service is determined by the reply of an abstract
service that moves along with it, so is every list of answers. -/
theorem serveAll_abstract {serve : State → Call → Answer × State}
    {abstractly : Abstract → Request → Reply × Abstract} {abstract : State → Abstract}
    {request : Call → Request} {answer : Call → Reply → Answer}
    (answers : ∀ state call,
      (serve state call).1 = answer call (abstractly (abstract state) (request call)).1)
    (moves : ∀ state call,
      abstract (serve state call).2 = (abstractly (abstract state) (request call)).2)
    (state : State) (calls : List Call) :
    (serveAll serve state calls).1 =
        List.zipWith answer calls
          (serveAll abstractly (abstract state) (calls.map request)).1 ∧
      abstract (serveAll serve state calls).2 =
        (serveAll abstractly (abstract state) (calls.map request)).2 := by
  induction calls generalizing state with
  | nil => exact ⟨rfl, rfl⟩
  | cons call calls ih =>
      obtain ⟨replies, reached⟩ := ih (serve state call).2
      rw [moves] at replies reached
      simp only [serveAll, List.map_cons, List.zipWith_cons_cons, answers, replies, reached,
        and_self]

end Service

/-! ## Queues -/

/-- A queue of at most `capacity` items, the oldest first. -/
@[ext] structure BoundedQueue (α : Type u) (capacity : Nat) where
  items : List α
  bounded : items.length ≤ capacity

/-- What a client asks of a queue. -/
inductive QueueRequest (α : Type u) where
  | put (item : α)
  | get

/-- Whether an item was accepted, or the item handed out, if there was one. -/
inductive QueueReply (α : Type u) where
  | put (accepted : Bool)
  | get (item : Option α)

namespace BoundedQueue

variable {α : Type u} {capacity : Nat}

def empty : BoundedQueue α capacity := ⟨[], Nat.zero_le _⟩

/-- Accept an item unless the queue is full. -/
def put (queue : BoundedQueue α capacity) (item : α) : Bool × BoundedQueue α capacity :=
  if room : queue.items.length < capacity then
    (true, ⟨queue.items ++ [item], by rw [List.length_append]; exact room⟩)
  else (false, queue)

/-- Hand out the oldest item. -/
def get (queue : BoundedQueue α capacity) : Option α × BoundedQueue α capacity :=
  (queue.items.head?, ⟨queue.items.tail, by
    rw [List.length_tail]; exact (Nat.sub_le _ _).trans queue.bounded⟩)

theorem get_nil {queue : BoundedQueue α capacity} (held : queue.items = []) :
    queue.get = (none, queue) :=
  Prod.ext (congrArg List.head? held) (BoundedQueue.ext ((congrArg List.tail held).trans held.symm))

theorem get_cons {queue : BoundedQueue α capacity} {item : α} {items : List α}
    (held : queue.items = item :: items) :
    queue.get.1 = some item ∧ queue.get.2.items = items :=
  ⟨congrArg List.head? held, congrArg List.tail held⟩

def serve (queue : BoundedQueue α capacity) :
    QueueRequest α → QueueReply α × BoundedQueue α capacity
  | .put item => (.put (queue.put item).1, (queue.put item).2)
  | .get => (.get queue.get.1, queue.get.2)

/-- The items that were accepted. -/
def accepted : List (QueueRequest α) → List (QueueReply α) → List α
  | .put item :: requests, .put true :: replies => item :: accepted requests replies
  | _ :: requests, _ :: replies => accepted requests replies
  | _, _ => []

/-- The items that were handed out. -/
def handedOut : List (QueueReply α) → List α
  | [] => []
  | .get (some item) :: replies => item :: handedOut replies
  | _ :: replies => handedOut replies

/-- **First in, first out.** What a queue held and what it accepted is what it handed out and
what it holds, in this order. -/
theorem serveAll_items (queue : BoundedQueue α capacity) (requests : List (QueueRequest α)) :
    queue.items ++ accepted requests (serveAll serve queue requests).1 =
      handedOut (serveAll serve queue requests).1 ++
        (serveAll serve queue requests).2.items := by
  induction requests generalizing queue with
  | nil => simp [serveAll, accepted, handedOut]
  | cons request requests ih =>
      have rest := ih (queue.serve request).2
      cases request with
      | put item =>
          by_cases room : queue.items.length < capacity
          · simp only [serve, put, room, ↓reduceDIte, List.append_assoc, List.singleton_append]
              at rest
            simpa only [serveAll, serve, put, room, ↓reduceDIte, accepted, handedOut] using rest
          · simp only [serve, put, room, ↓reduceDIte] at rest
            simpa only [serveAll, serve, put, room, ↓reduceDIte, accepted, handedOut] using rest
      | get =>
          simp only [serve, get] at rest
          cases held : queue.items with
          | nil =>
              simp only [held, List.tail_nil] at rest
              simpa [serveAll, serve, get, held, accepted, handedOut] using rest
          | cons item items =>
              simp only [held, List.tail_cons] at rest
              simpa [serveAll, serve, get, held, accepted, handedOut] using rest

end BoundedQueue

/-! ## Rings -/

variable {α : Type u}

/-- The items of `length` cells of a ring of `size`, the first one at `start`. -/
def ringItems (size : Nat) (cells : Nat → α) (start length : Nat) : List α :=
  (List.range length).map fun i => cells ((start + i) % size)

variable {size start length : Nat} {cells : Nat → α}

@[simp] theorem ringItems_length : (ringItems size cells start length).length = length := by
  simp [ringItems]

/-- The first item of a ring stands in the first cell. -/
theorem ringItems_succ (inside : start < size) :
    ringItems size cells start (length + 1) =
      cells start :: ringItems size cells ((start + 1) % size) length := by
  simp only [ringItems, List.range_succ_eq_map, List.map_cons, List.map_map, Nat.add_zero,
    Nat.mod_eq_of_lt inside, List.cons.injEq, true_and]
  apply List.map_congr_left
  intro i _
  simp only [Function.comp_apply, Nat.succ_eq_add_one, Nat.mod_add_mod, Nat.add_assoc,
    Nat.add_comm 1 i]

/-- Writing the cell behind the last item adds an item. -/
theorem ringItems_update (room : length < size) (item : α) :
    ringItems size (Function.update cells ((start + length) % size) item) start (length + 1) =
      ringItems size cells start length ++ [item] := by
  have other : ∀ i < length, (start + i) % size ≠ (start + length) % size := by
    intro i before equal
    have same : i % size = length % size := Nat.ModEq.add_left_cancel' start equal
    rw [Nat.mod_eq_of_lt (before.trans room), Nat.mod_eq_of_lt room] at same
    omega
  simp only [ringItems, List.range_succ, List.map_append, List.map_cons, List.map_nil,
    Function.update_self]
  congr 1
  apply List.map_congr_left
  intro i member
  exact Function.update_of_ne (other i (List.mem_range.mp member)) _ _

end NTux.Foundation
