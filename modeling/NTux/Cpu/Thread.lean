import NTux.Foundation.Machine
import NTux.Foundation.Runs
import Mathlib.Data.List.FinRange

/-! # Threads

`cpu/thread.c` and `cpu/switch_context.asm`: threads with a stack of their own take turns
on one register file. A context is a thread or, before the first switch, the code that
booted the kernel, whose `current_thread_id` is -1.

A run interleaves calls of `thread_create` and `thread_yield` with the code of the
contexts themselves. That code is free in what it does to the registers and to the
memory, apart from the stacks of the other contexts. The contexts that have been switched
away from are kept as a history.
-/

namespace NTux.Cpu

open NTux.Foundation

/-! ## The scheduler -/

/-- `MAX_THREADS`. -/
abbrev maxThreads : Nat := 16

/-- The bytes of a thread's stack. -/
abbrev stackSize : Nat := 8192

/-- `thread_state_t`. -/
inductive RunState where
  | running
  | ready
  | blocked
  | terminated
  deriving DecidableEq, Repr

/-- `thread_t`. -/
structure Thread where
  stack : Word
  rsp : Word
  state : RunState
  id : Nat
  entryPoint : Word
  deriving DecidableEq, Repr

/-- The machine and the globals of `thread.c`; a `current_thread_id` of -1 is none. -/
structure Threads extends Machine where
  threadList : Fin maxThreads → Option Thread
  currentThreadId : Option (Fin maxThreads)
  nextThreadId : Nat

namespace Threads

variable (s : Threads)

/-- After `thread_init`, on the machine that the kernel booted. -/
def init (m : Machine) : Threads := ⟨m, fun _ => none, none, 0⟩

/-- `thread_create`, where `kmalloc` returns `block` and then `stack`. -/
def threadCreate (entry : Word) (block stack : Option Word) : Threads :=
  if room : s.nextThreadId < maxThreads then
    match block, stack with
    | none, _ => s
    | some _, none => { s with nextThreadId := s.nextThreadId + 1 }
    | some _, some stack =>
        let sp := stack + BitVec.ofNat 64 stackSize - 8
        { s with
          mem := store64 s.mem sp entry
          nextThreadId := s.nextThreadId + 1
          threadList := Function.update s.threadList ⟨s.nextThreadId, room⟩
            (some ⟨stack, sp, .ready, s.nextThreadId, entry⟩) }
  else s

/-- The first thread that is ready, unless it is the current one. -/
def nextThread : Option (Fin maxThreads) :=
  match (List.finRange maxThreads).find? fun i => (s.threadList i).any (·.state = .ready) with
  | none => none
  | some next => if s.currentThreadId = some next then none else some next

/-- `switch_context`: the stack pointer that it stores for the old context, and the
address and the machine with which it returns to the new one. -/
def switchContext (newRsp : Word) (m : Machine) : Word × Word × Machine :=
  (m.sp, (m.setReg .rsp newRsp).ret)

/-- The end of `scheduler`: the switch to `new`, the thread `next`. -/
def switchTo (returnAddress : Word) (next : Fin maxThreads) (new : Thread) : Word × Threads :=
  let (saved, address, machine) := switchContext new.rsp (s.toMachine.pushWord returnAddress)
  let threadList := Function.update s.threadList next (some { new with state := .running })
  (address,
    { toMachine := machine
      threadList := match s.currentThreadId with
        | some old => Function.update threadList old ((threadList old).map fun thread =>
            { thread with state := .ready, rsp := saved })
        | none => threadList
      currentThreadId := some next
      nextThreadId := s.nextThreadId })

/-- `scheduler`; none when it returns without a switch. Else the address to which
`switch_context` returns in the new context; its own caller is to go on at
`returnAddress`. -/
def scheduler (returnAddress : Word) : Option (Word × Threads) :=
  s.nextThread.bind fun next => (s.threadList next).map (s.switchTo returnAddress next)

end Threads

/-! ## Contexts and their history -/

/-- A thread, or none for the code that booted the kernel. -/
abbrev Context : Type := Option (Fin maxThreads)

/-- The registers that a function hands back to its caller as it found them. -/
def calleeSaved : List Reg := [.rbx, .rbp, .r12, .r13, .r14, .r15]

/-- A context at its call of `switch_context` or on return from it. -/
structure Suspension where
  sp : Word
  returnAddress : Word
  registers : List Word
  deriving DecidableEq, Repr

def Suspension.capture (returnAddress : Word) (m : Machine) : Suspension :=
  ⟨m.sp, returnAddress, calleeSaved.map m.reg⟩

/-- The threads, the contexts that have been switched away from, and for every return to
such a context how it was left and how it was found. -/
structure ThreadHistory extends Threads where
  suspended : Context → Option Suspension
  resumed : List (Suspension × Suspension)

namespace ThreadHistory

def init (m : Machine) : ThreadHistory := ⟨.init m, fun _ => none, []⟩

/-- `thread_yield`. -/
def threadYield (returnAddress : Word) (s : ThreadHistory) : ThreadHistory :=
  match s.scheduler returnAddress with
  | none => s
  | some (address, next) =>
      { toThreads := next
        suspended := Function.update (Function.update s.suspended s.currentThreadId
          (some (.capture returnAddress s.toMachine))) next.currentThreadId none
        resumed := s.resumed ++ ((s.suspended next.currentThreadId).map fun left =>
          (left, Suspension.capture address next.toMachine)).toList }

/-- The stack of a context. -/
def stackOf (bootStack : Set Word) (s : ThreadHistory) : Context → Set Word
  | none => bootStack
  | some i => (s.threadList i).elim ∅ fun thread => span thread.stack stackSize

end ThreadHistory

/-- What the current context does next: it computes, or it calls `thread_create` or
`thread_yield`. -/
inductive ThreadEvent where
  | compute (m : Machine)
  | create (entry : Word) (block stack : Option Word)
  | yield (returnAddress : Word)

def ThreadEvent.apply (s : ThreadHistory) : ThreadEvent → ThreadHistory
  | compute m => { s with toMachine := m }
  | create entry block stack => { s with toThreads := s.threadCreate entry block stack }
  | yield returnAddress => s.threadYield returnAddress

/-- Contexts keep to their own stacks, and `kmalloc` takes a new stack from memory that no
stack lies in. -/
def ThreadEvent.Fair (bootStack : Set Word) (s : ThreadHistory) : ThreadEvent → Prop
  | compute m => ∀ other ≠ s.currentThreadId, Set.EqOn m.mem s.mem (s.stackOf bootStack other)
  | create _ _ stack => ∀ base ∈ stack, ∀ context,
      Disjoint (span base stackSize) (s.stackOf bootStack context)
  | yield _ => span (s.sp - 8) 8 ⊆ s.stackOf bootStack s.currentThreadId

/-- The stack pointer of the suspension is kept for a thread that is ready to run. -/
def ThreadHistory.Resumable (s : ThreadHistory) (left : Suspension) : Prop :=
  ∃ i thread, s.threadList i = some thread ∧ thread.state = .ready ∧ thread.rsp = left.sp - 8

def ThreadStep (bootStack : Set Word) (s : ThreadHistory) (event : ThreadEvent)
    (t : ThreadHistory) : Prop :=
  event.Fair bootStack s ∧ t = event.apply s

end NTux.Cpu
