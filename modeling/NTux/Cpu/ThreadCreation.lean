import NTux.Cpu.ThreadRuns
import Mathlib.Data.Finset.Basic
import Mathlib.Data.List.Induction

/-! # Failed thread creation

`thread_create` allocates twice, and its two allocations fail independently. When the second
one fails the block of the first one is freed, but the id that it was given is not taken
back: the entry of that id in `thread_list` can never be used again. A call that adds no
thread leaves everything as it was, and a later call finds a free entry, if and only if no
call runs out of memory between its two allocations (`threadCreate_undone_iff`).
-/

namespace NTux.Cpu

open NTux.Foundation

/-! ## The table and the heap -/

/-- `kmalloc`, which may fail for any reason and never hands out a block in use. -/
structure KernelAllocator where
  kmalloc : Finset Word → Nat → Option Word
  fresh : ∀ {allocated size block}, kmalloc allocated size = some block → block ∉ allocated

/-- `sizeof(thread_t)`. -/
abbrev threadSize : Nat := 40

/-- The threads and the heap blocks that are allocated. A thread stands at an id that has
been given out. -/
structure ThreadTable extends Threads where
  allocated : Finset Word
  givenOut : ∀ i, (threadList i).isSome → i.val < nextThreadId

namespace ThreadTable

variable (s : ThreadTable) (a : KernelAllocator)

/-- After `thread_init`. -/
def init (m : Machine) (allocated : Finset Word) : ThreadTable where
  toThreads := .init m
  allocated
  givenOut _ present := by cases present

/-- What the first `kmalloc` of `thread_create` returns. -/
def newBlock : Option Word := a.kmalloc s.allocated threadSize

/-- What the second one returns. -/
def newStack : Option Word :=
  (s.newBlock a).bind fun block => a.kmalloc (insert block s.allocated) stackSize

/-- The heap after `thread_create`. -/
def heapAfter : Finset Word :=
  if s.nextThreadId < maxThreads then
    match s.newBlock a, s.newStack a with
    | none, _ => s.allocated
    | some block, none => (insert block s.allocated).erase block
    | some block, some stack => insert stack (insert block s.allocated)
  else s.allocated

end ThreadTable

/-- A thread that `thread_create` adds stands at the id it was given. -/
theorem threadCreate_givenOut {s : Threads} (givenOut : ∀ i, (s.threadList i).isSome →
    i.val < s.nextThreadId) (entry : Word) (block stack : Option Word) (i : Fin maxThreads)
    (present : ((s.threadCreate entry block stack).threadList i).isSome) :
    i.val < (s.threadCreate entry block stack).nextThreadId := by
  rcases s.threadCreate_cases entry block stack with
    ⟨count, grows, result⟩ | ⟨room, base, -, result⟩
  · rw [result] at present ⊢
    exact (givenOut i present).trans_le grows
  · rw [result] at present ⊢
    by_cases new : i = ⟨s.nextThreadId, room⟩
    · rw [new]
      exact Nat.lt_succ_self _
    · simp only [Function.update_of_ne new] at present
      exact (givenOut i present).trans (Nat.lt_succ_self _)

/-- `thread_create`. -/
def ThreadTable.create (s : ThreadTable) (a : KernelAllocator) (entry : Word) : ThreadTable where
  toThreads := s.threadCreate entry (s.newBlock a) (s.newStack a)
  allocated := s.heapAfter a
  givenOut := threadCreate_givenOut s.givenOut entry _ _

/-- A switch keeps the ids and the entries in use. -/
theorem scheduler_entries {s : Threads} {returnAddress : Word} {result : Word × Threads}
    (switched : s.scheduler returnAddress = some result) :
    result.2.nextThreadId = s.nextThreadId ∧
      ∀ i, (result.2.threadList i).isSome = (s.threadList i).isSome := by
  obtain ⟨next, chosen, rest⟩ := Option.bind_eq_some_iff.mp switched
  obtain ⟨new, present, rfl⟩ := Option.map_eq_some_iff.mp rest
  refine ⟨rfl, fun i => ?_⟩
  rw [Threads.switchTo_threadList returnAddress new (Threads.nextThread_spec chosen).1]
  split
  · next same => rw [same, present]; rfl
  · split
    · exact Option.isSome_map
    · rfl

/-- `thread_yield`, for the table. -/
def ThreadTable.yield (s : ThreadTable) (returnAddress : Word) : ThreadTable :=
  match switched : s.scheduler returnAddress with
  | none => s
  | some result =>
      { toThreads := result.2
        allocated := s.allocated
        givenOut := fun i present => by
          obtain ⟨same, entries⟩ := scheduler_entries switched
          rw [same]
          exact s.givenOut i ((entries i).symm.trans present) }

/-! ## Runs -/

/-- A call of `thread_create` or `thread_yield`, or what other code does to the heap. -/
inductive TableEvent where
  | create (a : KernelAllocator) (entry : Word)
  | yield (returnAddress : Word)
  | heap (allocated : Finset Word)

def ThreadTable.step (s : ThreadTable) : TableEvent → ThreadTable
  | .create a entry => s.create a entry
  | .yield returnAddress => s.yield returnAddress
  | .heap allocated => { s with allocated }

def ThreadTable.run (s : ThreadTable) (events : List TableEvent) : ThreadTable :=
  events.foldl ThreadTable.step s

namespace ThreadTable

/-- The second allocation fails behind a first one that did not. -/
def HalfCreated (s : ThreadTable) (a : KernelAllocator) : Prop :=
  s.nextThreadId < maxThreads ∧ (s.newBlock a).isSome ∧ s.newStack a = none

/-- An entry that was free is in use. -/
def Adds (s t : ThreadTable) : Prop :=
  ∃ i, s.threadList i = none ∧ (t.threadList i).isSome

/-- The number of threads. -/
def threadCount (s : ThreadTable) : Nat :=
  (List.finRange maxThreads).countP fun i => (s.threadList i).isSome

/-- Every id given out has its thread. -/
def Complete (s : ThreadTable) : Prop :=
  ∀ i : Fin maxThreads, i.val < s.nextThreadId → (s.threadList i).isSome

/-- **One call.** A call that adds no thread changes nothing. -/
def Undone (s t : ThreadTable) : Prop :=
  ¬ s.Adds t → t.threadList = s.threadList ∧ t.nextThreadId = s.nextThreadId ∧
    t.allocated = s.allocated

/-- With room in the table and memory available, a call adds a thread. -/
def Served (s : ThreadTable) (a : KernelAllocator) (t : ThreadTable) : Prop :=
  s.threadCount < maxThreads → (s.newStack a).isSome → s.Adds t

variable {s : ThreadTable} {a : KernelAllocator}

theorem threadCount_lt_iff : s.threadCount < maxThreads ↔ ∃ i, s.threadList i = none := by
  have length : (List.finRange maxThreads).length = maxThreads := List.length_finRange
  have all : s.threadCount ≤ maxThreads := List.countP_le_length.trans_eq length
  have full : s.threadCount = maxThreads ↔
      ∀ i ∈ List.finRange maxThreads, (s.threadList i).isSome = true := by
    rw [threadCount, ← List.countP_eq_length, length]
  rw [all.lt_iff_ne, Ne, full]
  simp

theorem yield_entries (s : ThreadTable) (returnAddress : Word) :
    (s.yield returnAddress).nextThreadId = s.nextThreadId ∧
      ∀ i, ((s.yield returnAddress).threadList i).isSome = (s.threadList i).isSome := by
  unfold yield
  split
  · exact ⟨rfl, fun _ => rfl⟩
  · next result switched => exact scheduler_entries switched

/-- **One call** either gives out an id for no thread, or it adds a thread, or it changes
nothing. -/
theorem create_cases (s : ThreadTable) (a : KernelAllocator) (entry : Word) :
    (s.HalfCreated a ∧ (s.create a entry).threadList = s.threadList ∧
        (s.create a entry).nextThreadId = s.nextThreadId + 1) ∨
      (¬ s.HalfCreated a ∧ (s.create a entry).nextThreadId = s.nextThreadId + 1 ∧
        ∃ (room : s.nextThreadId < maxThreads) (thread : Thread),
          (s.create a entry).threadList =
            Function.update s.threadList ⟨s.nextThreadId, room⟩ (some thread)) ∨
      (¬ s.HalfCreated a ∧ (s.nextThreadId < maxThreads → s.newStack a = none) ∧
        (s.create a entry).threadList = s.threadList ∧
        (s.create a entry).nextThreadId = s.nextThreadId ∧
        (s.create a entry).allocated = s.allocated) := by
  by_cases room : s.nextThreadId < maxThreads
  · cases block : s.newBlock a with
    | none =>
        have stack : s.newStack a = none := by rw [newStack, block, Option.bind_none]
        have whole : ¬ s.HalfCreated a := fun half => by
          have := half.2.1
          rw [block] at this
          cases this
        refine .inr (.inr ⟨whole, fun _ => stack, ?_, ?_, ?_⟩)
        all_goals simp only [create, heapAfter, Threads.threadCreate, room, block, ↓reduceDIte,
          ↓reduceIte]
    | some first =>
        cases stack : s.newStack a with
        | none =>
            refine .inl ⟨⟨room, by rw [block]; rfl, stack⟩, ?_, ?_⟩
            all_goals simp only [create, Threads.threadCreate, room, block, stack, ↓reduceDIte]
        | some second =>
            have whole : ¬ s.HalfCreated a := fun half => by
              have := half.2.2
              rw [stack] at this
              cases this
            refine .inr (.inl ⟨whole, ?_, room, ⟨second, second + BitVec.ofNat 64 stackSize - 8,
              .ready, s.nextThreadId, entry⟩, ?_⟩)
            all_goals simp only [create, Threads.threadCreate, room, block, stack, ↓reduceDIte]
  · refine .inr (.inr ⟨fun half => room half.1, fun inside => absurd inside room, ?_, ?_, ?_⟩)
    all_goals simp only [create, heapAfter, Threads.threadCreate, room, ↓reduceDIte, ↓reduceIte]

/-- The block of a thread without a stack goes back to the heap. -/
theorem HalfCreated.allocated (half : s.HalfCreated a) (entry : Word) :
    (s.create a entry).allocated = s.allocated := by
  obtain ⟨room, some, stack⟩ := half
  obtain ⟨block, handed⟩ := Option.isSome_iff_exists.mp some
  have new : block ∉ s.allocated := a.fresh handed
  simp only [create, heapAfter, room, ↓reduceIte, handed, stack]
  exact Finset.erase_insert new

/-- A thread that is added stands where no thread was. -/
theorem Adds.of_update {t : ThreadTable} {room : s.nextThreadId < maxThreads} {thread : Thread}
    (updated : t.threadList =
      Function.update s.threadList ⟨s.nextThreadId, room⟩ (some thread)) : s.Adds t := by
  refine ⟨⟨s.nextThreadId, room⟩, ?_, ?_⟩
  · cases present : s.threadList ⟨s.nextThreadId, room⟩ with
    | none => rfl
    | some other => exact absurd (s.givenOut _ (by rw [present]; rfl)) (Nat.lt_irrefl _)
  · rw [updated, Function.update_self]
    rfl

theorem not_adds_of_eq {t : ThreadTable} (same : t.threadList = s.threadList) : ¬ s.Adds t := by
  rintro ⟨i, free, used⟩
  rw [same, free] at used
  cases used

/-- A call is undone unless it is left half done. -/
theorem undone_iff (s : ThreadTable) (a : KernelAllocator) (entry : Word) :
    s.Undone (s.create a entry) ↔ ¬ s.HalfCreated a := by
  rcases s.create_cases a entry with
    ⟨half, same, grown⟩ | ⟨whole, -, room, thread, updated⟩ | ⟨whole, -, same, kept, heap⟩
  · refine ⟨fun undone => ?_, fun whole => absurd half whole⟩
    have kept := (undone (not_adds_of_eq same)).2.1
    omega
  · exact ⟨fun _ => whole, fun _ none => absurd (Adds.of_update updated) none⟩
  · exact ⟨fun _ => whole, fun _ _ => ⟨same, kept, heap⟩⟩

/-- A table in which every id has its thread serves every call that has memory. -/
theorem Complete.served (complete : s.Complete) (a : KernelAllocator) (entry : Word) :
    s.Served a (s.create a entry) := by
  intro few memory
  obtain ⟨i, free⟩ := threadCount_lt_iff.mp few
  have room : s.nextThreadId < maxThreads := by
    by_contra full
    have used := complete i (by have := i.isLt; omega)
    rw [free] at used
    cases used
  rcases s.create_cases a entry with
    ⟨half, -⟩ | ⟨-, -, room, thread, updated⟩ | ⟨-, none, -⟩
  · rw [half.2.2] at memory
    cases memory
  · exact Adds.of_update updated
  · rw [none room] at memory
    cases memory

/-- A step that leaves no call half done keeps the table complete. -/
theorem Complete.step (complete : s.Complete) (event : TableEvent)
    (whole : ∀ a entry, event = .create a entry → ¬ s.HalfCreated a) :
    (s.step event).Complete := by
  cases event with
  | create a entry =>
      intro i inside
      rcases s.create_cases a entry with
        ⟨half, -⟩ | ⟨-, grown, room, thread, updated⟩ | ⟨-, -, same, kept, -⟩
      · exact absurd half (whole a entry rfl)
      · change ((s.create a entry).threadList i).isSome
        rw [updated]
        by_cases new : i = ⟨s.nextThreadId, room⟩
        · rw [new, Function.update_self]
          rfl
        · rw [Function.update_of_ne new]
          have : i.val ≠ s.nextThreadId := fun equal => new (Fin.ext equal)
          change i.val < (s.create a entry).nextThreadId at inside
          exact complete i (by omega)
      · change ((s.create a entry).threadList i).isSome
        change i.val < (s.create a entry).nextThreadId at inside
        rw [same]
        exact complete i (by omega)
  | yield returnAddress =>
      intro i inside
      obtain ⟨kept, entries⟩ := s.yield_entries returnAddress
      change ((s.yield returnAddress).threadList i).isSome
      change i.val < (s.yield returnAddress).nextThreadId at inside
      rw [entries]
      exact complete i (kept ▸ inside)
  | heap allocated => exact complete

/-! ## Every run -/

/-- Every call of a run is undone when it adds no thread. In a run from a table in which every
id has its thread, such as the one after `thread_init`, it adds one as long as there is room
and memory. -/
def CreationsUndone (s : ThreadTable) (events : List TableEvent) : Prop :=
  ∀ before a entry later, events = before ++ .create a entry :: later →
    (s.run before).Undone (s.run (before ++ [.create a entry])) ∧
      (s.Complete → (s.run before).Served a (s.run (before ++ [.create a entry])))

/-- No call of a run is left half done. -/
def NoneHalfCreated (s : ThreadTable) (events : List TableEvent) : Prop :=
  ∀ before a entry later, events = before ++ .create a entry :: later →
    ¬ (s.run before).HalfCreated a

theorem run_snoc (s : ThreadTable) (events : List TableEvent) (event : TableEvent) :
    s.run (events ++ [event]) = (s.run events).step event :=
  List.foldl_append.trans rfl

/-- While no call was left half done, the table stays complete. -/
theorem Complete.run (complete : s.Complete) {events : List TableEvent}
    (whole : s.NoneHalfCreated events) : (s.run events).Complete := by
  induction events using List.reverseRecOn with
  | nil => exact complete
  | append_singleton events event ih =>
      rw [run_snoc]
      apply (ih ?_).step
      · rintro a entry rfl
        exact whole events a entry [] rfl
      · rintro before a entry later rfl
        exact whole before a entry (later ++ [event]) (by simp)

end ThreadTable

/-- **Failed creation is undone.** In a run from any table every call of `thread_create` that
adds no thread leaves the threads, the next id and the heap as they were, and the calls keep
finding room as long as there are fewer than `MAX_THREADS` threads, if and only if no call
runs out of memory between its two allocations. -/
theorem threadCreate_undone_iff (s : ThreadTable) (events : List TableEvent) :
    s.CreationsUndone events ↔ s.NoneHalfCreated events := by
  constructor
  · intro undone before a entry later split
    have call := (undone before a entry later split).1
    rw [ThreadTable.run_snoc] at call
    exact ((s.run before).undone_iff a entry).mp call
  · intro whole before a entry later split
    rw [ThreadTable.run_snoc]
    refine ⟨((s.run before).undone_iff a entry).mpr (whole before a entry later split),
      fun complete => ?_⟩
    have earlier : s.NoneHalfCreated before := fun first b other rest first_eq =>
      whole first b other (rest ++ .create a entry :: later) (by simp [split, first_eq])
    exact (complete.run earlier).served a entry

/-- An allocator with one free block, at a fixed address. -/
def oneBlock : KernelAllocator where
  kmalloc allocated _ := if (0x1000 : Word) ∈ allocated then none else some 0x1000
  fresh handed := by
    split at handed
    · cases handed
    · next free => exact Option.some.inj handed ▸ free

/-- Memory for the thread and none for its stack: the id is gone. -/
theorem oneBlock_notUndone :
    ¬ (ThreadTable.init shellMachine ∅).CreationsUndone [.create oneBlock 0] := by
  intro undone
  have call := (undone [] oneBlock 0 [] rfl).1
  have half : (ThreadTable.init shellMachine ∅).HalfCreated oneBlock := by
    refine ⟨by decide, ?_, ?_⟩
    · decide
    · decide
  exact ((ThreadTable.init shellMachine ∅).undone_iff oneBlock 0).mp call half

end NTux.Cpu
