import NTux.Foundation.Memory
import NTux.Foundation.Queue

/-! # The keyboard's ring buffer

`drivers/ps2/ringbuffer.c`: the characters wait in a ring of `RINGBUFFER_SIZE` cells between
the indices `tail` and `head`. One cell always stays empty, which tells a full ring from an
empty one, so the ring is a queue of one character less than it has cells.
-/

namespace NTux.Drivers

open NTux.Foundation

/-- `RINGBUFFER_SIZE`. -/
def ringbufferSize : Nat := 256

/-- `ringbuffer_t` once it is initialised, with its indices inside the ring. -/
structure RingBuffer where
  buffer : Nat → Byte
  head : Nat
  tail : Nat
  head_lt : head < ringbufferSize
  tail_lt : tail < ringbufferSize

/-- `rb_init`, which leaves the cells as they are. -/
def rbInit (buffer : Nat → Byte) : RingBuffer where
  buffer
  head := 0
  tail := 0
  head_lt := by decide
  tail_lt := by decide

/-- `rb_empty`. -/
def rbEmpty (rb : RingBuffer) : Bool := rb.head = rb.tail

/-- `rb_put`. -/
def rbPut (rb : RingBuffer) (c : Byte) : Nat × RingBuffer :=
  let next := (rb.head + 1) % ringbufferSize
  if next = rb.tail then (0, rb)
  else
    (1, { rb with buffer := Function.update rb.buffer rb.head c
                  head := next
                  head_lt := Nat.mod_lt _ (by decide) })

/-- `rb_get` with what its second argument points to: its result, what stands there behind it
and the ring. -/
def rbGet (rb : RingBuffer) (c : Byte) : Nat × Byte × RingBuffer :=
  if rbEmpty rb then (0, c, rb)
  else
    (1, rb.buffer rb.tail, { rb with tail := (rb.tail + 1) % ringbufferSize
                                     tail_lt := Nat.mod_lt _ (by decide) })

/-! ## The queue in the ring -/

/-- A queue of one character less than the ring has cells. -/
abbrev CharQueue : Type := BoundedQueue Byte (ringbufferSize - 1)

namespace RingBuffer

/-- The number of cells between the indices. -/
def held (rb : RingBuffer) : Nat :=
  (rb.head + (ringbufferSize - rb.tail)) % ringbufferSize

/-- The characters between the indices. -/
def queue (rb : RingBuffer) : CharQueue where
  items := ringItems ringbufferSize rb.buffer rb.tail rb.held
  bounded := by
    have : rb.held < ringbufferSize := Nat.mod_lt _ (by decide)
    rw [ringItems_length]
    omega

variable {rb : RingBuffer}

theorem head_eq (rb : RingBuffer) : rb.head = (rb.tail + rb.held) % ringbufferSize := by
  have head := rb.head_lt
  have tail := rb.tail_lt
  rw [held, Nat.add_mod_mod]
  simp only [ringbufferSize] at *
  omega

theorem held_eq_zero_iff : rb.held = 0 ↔ rb.head = rb.tail := by
  have head := rb.head_lt
  have tail := rb.tail_lt
  simp only [held, ringbufferSize] at *
  omega

theorem held_eq_full_iff :
    rb.held = ringbufferSize - 1 ↔ (rb.head + 1) % ringbufferSize = rb.tail := by
  have head := rb.head_lt
  have tail := rb.tail_lt
  simp only [held, ringbufferSize] at *
  omega

theorem queue_items_nil_iff : rb.queue.items = [] ↔ rb.head = rb.tail := by
  rw [← List.length_eq_zero_iff, queue, ringItems_length, held_eq_zero_iff]

theorem queue_length_full_iff :
    rb.queue.items.length = ringbufferSize - 1 ↔ (rb.head + 1) % ringbufferSize = rb.tail := by
  rw [queue, ringItems_length, held_eq_full_iff]

end RingBuffer

@[simp] theorem rbInit_queue (buffer : Nat → Byte) : (rbInit buffer).queue = .empty :=
  BoundedQueue.ext (RingBuffer.queue_items_nil_iff.mpr rfl)

theorem rbPut_full {rb : RingBuffer} (full : (rb.head + 1) % ringbufferSize = rb.tail) (c : Byte) :
    rbPut rb c = (0, rb) :=
  if_pos full

theorem rbGet_empty {rb : RingBuffer} (empty : rb.head = rb.tail) (c : Byte) :
    rbGet rb c = (0, c, rb) :=
  if_pos (decide_eq_true empty)

/-- `rb_put` puts into the queue. -/
theorem rbPut_queue (rb : RingBuffer) (c : Byte) :
    (rbPut rb c).1 = (rb.queue.put c).1.toNat ∧ (rbPut rb c).2.queue = (rb.queue.put c).2 := by
  by_cases full : (rb.head + 1) % ringbufferSize = rb.tail
  · have refused : ¬ rb.queue.items.length < ringbufferSize - 1 := by
      rw [RingBuffer.queue_length_full_iff.mpr full]
      exact Nat.lt_irrefl _
    rw [rbPut_full full, BoundedQueue.put, dif_neg refused]
    exact ⟨rfl, rfl⟩
  · have room : rb.queue.items.length < ringbufferSize - 1 :=
      rb.queue.bounded.lt_of_ne fun equal => full (RingBuffer.queue_length_full_iff.mp equal)
    have bound : rb.held < ringbufferSize := Nat.mod_lt _ (by decide)
    rw [BoundedQueue.put, dif_pos room, rbPut, if_neg full]
    refine ⟨rfl, BoundedQueue.ext ?_⟩
    have grown : ((rb.head + 1) % ringbufferSize + (ringbufferSize - rb.tail)) % ringbufferSize =
        rb.held + 1 := by
      have head := rb.head_lt
      have tail := rb.tail_lt
      simp only [RingBuffer.held, ringbufferSize] at *
      omega
    change ringItems ringbufferSize (Function.update rb.buffer rb.head c) rb.tail
      (((rb.head + 1) % ringbufferSize + (ringbufferSize - rb.tail)) % ringbufferSize) =
        ringItems ringbufferSize rb.buffer rb.tail rb.held ++ [c]
    rw [grown, rb.head_eq]
    exact ringItems_update bound c

/-- `rb_get` gets from the queue. -/
theorem rbGet_queue (rb : RingBuffer) (c : Byte) :
    (rbGet rb c).1 = rb.queue.get.1.isSome.toNat ∧
      (rbGet rb c).2.1 = rb.queue.get.1.getD c ∧ (rbGet rb c).2.2.queue = rb.queue.get.2 := by
  by_cases empty : rb.head = rb.tail
  · have nothing : rb.queue.items = [] := RingBuffer.queue_items_nil_iff.mpr empty
    rw [rbGet_empty empty, BoundedQueue.get_nil nothing]
    exact ⟨rfl, rfl, rfl⟩
  · have more : ¬ rbEmpty rb = true := fun isEmpty => empty (of_decide_eq_true isEmpty)
    have shrunk : rb.held =
        (rb.head + (ringbufferSize - (rb.tail + 1) % ringbufferSize)) % ringbufferSize + 1 := by
      have head := rb.head_lt
      have tail := rb.tail_lt
      simp only [RingBuffer.held, ringbufferSize] at *
      omega
    have items : rb.queue.items = rb.buffer rb.tail ::
        ringItems ringbufferSize rb.buffer ((rb.tail + 1) % ringbufferSize)
          ((rb.head + (ringbufferSize - (rb.tail + 1) % ringbufferSize)) % ringbufferSize) := by
      change ringItems ringbufferSize rb.buffer rb.tail rb.held = _
      rw [shrunk]
      exact ringItems_succ rb.tail_lt
    obtain ⟨front, behind⟩ := BoundedQueue.get_cons items
    rw [rbGet, if_neg more, front]
    exact ⟨rfl, rfl, BoundedQueue.ext behind.symm⟩

/-! ## Every sequence of calls -/

/-- A call; `get` with what its second argument points to. -/
inductive RingCall where
  | put (c : Byte)
  | get (c : Byte)

/-- What a caller sees: the result and the character in its variable. -/
abbrev RingAnswer : Type := Nat × Byte

def RingBuffer.serve (rb : RingBuffer) : RingCall → RingAnswer × RingBuffer
  | .put c => (((rbPut rb c).1, c), (rbPut rb c).2)
  | .get c => (((rbGet rb c).1, (rbGet rb c).2.1), (rbGet rb c).2.2)

/-- What a call asks of the queue. -/
def RingCall.request : RingCall → QueueRequest Byte
  | .put c => .put c
  | .get _ => .get

/-- What the caller sees when the queue replies. -/
def RingCall.answer : RingCall → QueueReply Byte → RingAnswer
  | .put c, .put accepted => (accepted.toNat, c)
  | .get c, .get item => (item.isSome.toNat, item.getD c)
  | .put c, .get _ => (0, c)
  | .get c, .put _ => (0, c)

theorem RingBuffer.serve_answer (rb : RingBuffer) (call : RingCall) :
    (rb.serve call).1 = call.answer (rb.queue.serve call.request).1 := by
  cases call with
  | put c => exact congrArg (·, c) (rbPut_queue rb c).1
  | get c => exact Prod.ext (rbGet_queue rb c).1 (rbGet_queue rb c).2.1

theorem RingBuffer.serve_queue (rb : RingBuffer) (call : RingCall) :
    (rb.serve call).2.queue = (rb.queue.serve call.request).2 := by
  cases call with
  | put c => exact (rbPut_queue rb c).2
  | get c => exact (rbGet_queue rb c).2.2

/-- **The ring buffer is a bounded queue.** After `rb_init` every sequence of calls has the
answers of a queue that holds one character less than the ring has cells: the characters
accepted are those handed out and those still held, in this order; `rb_get` returns 0 exactly
when nothing is held and `rb_put` exactly when the queue is full, and both then change
nothing. -/
theorem ringBuffer_isQueue (buffer : Nat → Byte) (calls : List RingCall) :
    let ring := serveAll RingBuffer.serve (rbInit buffer) calls
    let queue := serveAll BoundedQueue.serve (.empty : CharQueue) (calls.map RingCall.request)
    ring.1 = List.zipWith RingCall.answer calls queue.1 ∧ ring.2.queue = queue.2 ∧
      BoundedQueue.accepted (calls.map RingCall.request) queue.1 =
        BoundedQueue.handedOut queue.1 ++ queue.2.items ∧
      (∀ c, ((rbGet ring.2 c).1 = 0 ↔ queue.2.items = []) ∧
        ((rbGet ring.2 c).1 = 0 → rbGet ring.2 c = (0, c, ring.2))) ∧
      (∀ c, ((rbPut ring.2 c).1 = 0 ↔ queue.2.items.length = ringbufferSize - 1) ∧
        ((rbPut ring.2 c).1 = 0 → rbPut ring.2 c = (0, ring.2))) := by
  intro ring queue
  obtain ⟨answers, reached⟩ :=
    serveAll_abstract RingBuffer.serve_answer RingBuffer.serve_queue (rbInit buffer) calls
  rw [rbInit_queue] at answers reached
  change ring.2.queue = queue.2 at reached
  refine ⟨answers, reached, ?_, fun c => ?_, fun c => ?_⟩
  · exact BoundedQueue.serveAll_items (.empty : CharQueue) (calls.map RingCall.request)
  · rw [← reached, RingBuffer.queue_items_nil_iff]
    by_cases empty : ring.2.head = ring.2.tail
    · simp [rbGet_empty empty, empty]
    · simp [rbGet, rbEmpty, empty]
  · rw [← reached, RingBuffer.queue_length_full_iff]
    by_cases full : (ring.2.head + 1) % ringbufferSize = ring.2.tail
    · simp [rbPut_full full, full]
    · simp [rbPut, full]

end NTux.Drivers
