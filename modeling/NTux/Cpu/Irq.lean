import NTux.Foundation.Machine
import Mathlib.Data.Option.Basic

/-! # Interrupt requests

`interrupts/irq.asm` and `interrupts/irq.c`: a stub for every request line saves the
general registers on the stack, hands the stack pointer to `irq_handler_c` and restores
the registers. The handler takes the line from the word that the pointer leads to.

What compiled C does to the machine is a parameter: `compiled handler` is the effect of
the body of `irq_handler_c` when `handler` is what it calls, the handler's own code
included. All that is used of it is that a C function leaves the stack pointer and the
stack above it as its caller had them (`KeepsFrame`). What a handler sends to the ports is
a parameter as well, `drives`.
-/

namespace NTux.Cpu

open NTux.Foundation

/-! ## The C side -/

/-- The pointers `irq_handlers`, of which `NULL` is none. -/
abbrev IrqHandlers (Handler : Type) : Type := Fin 16 → Option Handler

/-- A port and the byte sent to it. -/
abbrev PortWrite : Type := BitVec 16 × BitVec 8

/-- The machine, the handlers called so far and the bytes sent to ports so far. -/
structure IrqState (Handler : Type) extends Machine where
  called : List Handler
  ports : List PortWrite

section Dispatch

variable {Handler : Type}

/-- The handler of a line; none for a number that is not a line. -/
def IrqHandlers.find (irqHandlers : IrqHandlers Handler) (irq : Int) : Option Handler :=
  if line : 0 ≤ irq ∧ irq < 16 then irqHandlers ⟨irq.toNat, by omega⟩ else none

/-- `irq_register_handler`; `none` when it stores outside the table. -/
def irqRegisterHandler (irqHandlers : IrqHandlers Handler) (irq : Int) (handler : Option Handler) :
    Option (IrqHandlers Handler) :=
  if line : irq < 16 then
    if 0 ≤ irq then some (Function.update irqHandlers ⟨irq.toNat, by omega⟩ handler) else none
  else some irqHandlers

/-- A registration changes its own line only. -/
theorem irqRegisterHandler_find {irqHandlers registered : IrqHandlers Handler} {irq : Int}
    {handler : Option Handler} (line : irq < 16)
    (done : irqRegisterHandler irqHandlers irq handler = some registered) (other : Int) :
    registered.find other = if other = irq then handler else irqHandlers.find other := by
  rw [irqRegisterHandler, dif_pos line] at done
  split at done
  · next low =>
      obtain rfl := Option.some.inj done
      by_cases inside : 0 ≤ other ∧ other < 16
      · rw [IrqHandlers.find, dif_pos inside, Function.update_apply, IrqHandlers.find,
          dif_pos inside]
        exact if_congr (by rw [Fin.mk.injEq]; omega) rfl rfl
      · have differ : other ≠ irq := by omega
        rw [IrqHandlers.find, dif_neg inside, if_neg differ, IrqHandlers.find, dif_neg inside]
  · cases done

/-- `MASTER_PIC_CMD`. -/
def masterPicCmd : Nat := 0x20

/-- `SLAVE_PIC_CMD`. -/
def slavePicCmd : Nat := 0xA0

/-- `outb`, which converts its arguments to a port and a byte. -/
def outb (port value : Nat) : PortWrite :=
  (BitVec.ofNat 16 port, BitVec.ofNat 8 value)

/-- `pic_send_eoi`: what it sends to the ports. -/
def picSendEoi (irq : BitVec 8) : List PortWrite :=
  (if irq.toNat ≥ 8 then [outb 0x20 slavePicCmd] else []) ++ [outb 0x20 masterPicCmd]

/-- `(int)` of a word. -/
def toInt32 (word : Word) : Int := (word.setWidth 32).toInt

/-- What a handler, if there is one, sends to the ports on the machine it is called with. -/
def portWrites (drives : Handler → Machine → List PortWrite) (handler : Option Handler)
    (m : Machine) : List PortWrite :=
  handler.toList.flatMap fun handler => drives handler m

/-- `irq_handler_c`, with its argument in `rdi`. -/
def irqHandlerC (compiled : Option Handler → Machine → Machine)
    (drives : Handler → Machine → List PortWrite) (irqHandlers : IrqHandlers Handler)
    (s : IrqState Handler) : IrqState Handler :=
  let irq := toInt32 (load64 s.mem (s.reg .rdi))
  let handler := irqHandlers.find irq
  let s := { s with called := s.called ++ handler.toList
                    ports := s.ports ++ portWrites drives handler s.toMachine }
  let s := { s with ports := s.ports ++ picSendEoi (BitVec.ofInt 8 irq) }
  { s with toMachine := compiled handler s.toMachine }

/-! ## The stubs -/

/-- The registers in the order in which the stubs push them. -/
def savedRegisters : List Reg :=
  [.rax, .rbx, .rcx, .rdx, .rsi, .rdi, .rbp, .r8, .r9, .r10, .r11, .r12, .r13, .r14, .r15]

/-- The registers in the order in which the stubs pop them. -/
def restoredRegisters : List Reg :=
  [.r15, .r14, .r13, .r12, .r11, .r10, .r9, .r8, .rbp, .rdi, .rsi, .rdx, .rcx, .rbx, .rax]

/-- The code of a stub up to its call. -/
def irqStubEntry (irq : Fin 16) : List Instr :=
  [.cli, .pushImm (BitVec.ofNat 64 irq)] ++ savedRegisters.map .push ++ [.mov .rdi .rsp]

/-- The code of a stub between its call and its `iretq`. -/
def irqStubExit : List Instr :=
  restoredRegisters.map .pop ++ [.addImm .rsp 8, .sti]

/-- `call irq_handler_c`. -/
def enterHandlerC (irq : Fin 16) (returnAddress : Word) (m : Machine) : Machine :=
  (m.run (irqStubEntry irq)).pushWord returnAddress

/-- The return from `irq_handler_c`, up to the `iretq`. -/
def leaveHandlerC (m : Machine) : Machine :=
  m.ret.2.run irqStubExit

/-- `irq_stub_0` to `irq_stub_15`, up to the `iretq`. -/
def irqStub (compiled : Option Handler → Machine → Machine)
    (drives : Handler → Machine → List PortWrite) (irqHandlers : IrqHandlers Handler)
    (returnAddress : Word) (irq : Fin 16) (s : IrqState Handler) : IrqState Handler :=
  let s := { s with toMachine := enterHandlerC irq returnAddress s.toMachine }
  let s := irqHandlerC compiled drives irqHandlers s
  { s with toMachine := leaveHandlerC s.toMachine }

/-- The words of an interrupt frame: `rip`, `cs`, `rflags`, `rsp` and `ss`. -/
def frameWords : Nat := 5

/-- The words on the stack when `irq_handler_c` is entered: its return address, the saved
registers, the number of the line and the interrupt frame. -/
def stubWords : Nat := 1 + (savedRegisters.length + (1 + frameWords))

/-- A function leaves the stack pointer and the words on top of the stack as they were. -/
def KeepsFrame (count : Nat) (callee : Machine → Machine) : Prop :=
  ∀ m : Machine, (callee m).sp = m.sp ∧
    Set.EqOn (callee m).mem m.mem (span m.sp (8 * count))

theorem KeepsFrame.stackWords {count : Nat} {callee : Machine → Machine}
    (keeps : KeepsFrame count callee) (m : Machine) (fits : 8 * count ≤ 2 ^ 64) :
    (callee m).stackWords count = m.stackWords count := by
  rw [Machine.stackWords, (keeps m).1]
  exact wordsAt_congr fits (keeps m).2

/-- The handler of the line is called once and no other is, and the interrupted code finds
its registers, its stack pointer and its interrupt frame as they were. -/
structure Dispatched (irqHandlers : IrqHandlers Handler) (irq : Fin 16)
    (s t : IrqState Handler) : Prop where
  called : t.called = s.called ++ (irqHandlers irq).toList
  registers : ∀ register ∈ savedRegisters, t.reg register = s.reg register
  pointer : t.sp = s.sp
  frame : t.stackWords frameWords = s.stackWords frameWords

/-- At its call a stub has the saved registers on the stack, the last one on top, and
`rdi` points to them. -/
theorem irqStubEntry_spec (irq : Fin 16) (m : Machine) :
    (m.run (irqStubEntry irq)).stackWords (savedRegisters.length + (1 + frameWords)) =
        restoredRegisters.map m.reg ++ BitVec.ofNat 64 irq :: m.stackWords frameWords ∧
      (m.run (irqStubEntry irq)).sp = m.sp - 128 ∧
      (m.run (irqStubEntry irq)).reg .rdi = (m.run (irqStubEntry irq)).sp := by
  have numbered : ((m.exec .cli).pushWord (BitVec.ofNat 64 irq)).stackWords (1 + frameWords) =
      BitVec.ofNat 64 irq :: m.stackWords frameWords :=
    (m.exec .cli).stackWords_push _ (by decide)
  obtain ⟨words, pointer, -⟩ := ((m.exec .cli).pushWord (BitVec.ofNat 64 irq)).run_pushes
    savedRegisters (by decide) (1 + frameWords) (by decide)
  have saved : (savedRegisters.map ((m.exec .cli).pushWord (BitVec.ofNat 64 irq)).reg).reverse =
      restoredRegisters.map m.reg := rfl
  have code : m.run (irqStubEntry irq) =
      (((m.exec .cli).pushWord (BitVec.ofNat 64 irq)).run (savedRegisters.map .push)).exec
        (.mov .rdi .rsp) := by
    simp only [irqStubEntry, Machine.run_append, Machine.run_cons, Machine.run_nil, Machine.exec]
  rw [saved, numbered] at words
  rw [Machine.pushWord_sp] at pointer
  rw [code]
  generalize ((m.exec .cli).pushWord (BitVec.ofNat 64 irq)).run (savedRegisters.map .push) =
    pushed at words pointer ⊢
  have differ : Reg.rdi ≠ .rsp := by decide
  rw [Machine.exec, Machine.stackWords_setReg _ _ differ, Machine.setReg_sp _ _ differ,
    Machine.setReg_self]
  have entered : (m.exec .cli).sp = m.sp := rfl
  have length : savedRegisters.length = 15 := rfl
  rw [entered, length] at pointer
  refine ⟨words, ?_, rfl⟩
  rw [pointer]
  bv_omega

/-- The exit of a stub loads the registers from the words on the stack and drops the
number of the line. -/
theorem irqStubExit_spec (m : Machine) :
    restoredRegisters.map (m.run irqStubExit).reg = m.stackWords restoredRegisters.length ∧
      (m.run irqStubExit).mem = m.mem ∧ (m.run irqStubExit).sp = m.sp + 128 := by
  obtain ⟨words, memory, pointer, -⟩ := m.run_pops restoredRegisters (by decide) (by decide)
  have code : m.run irqStubExit =
      ((m.run (restoredRegisters.map .pop)).exec (.addImm .rsp 8)).exec .sti := by
    simp only [irqStubExit, Machine.run_append, Machine.run_cons, Machine.run_nil]
  rw [code]
  generalize m.run (restoredRegisters.map .pop) = popped at words memory pointer ⊢
  have pointer' : (popped.exec (.addImm .rsp 8)).sp = popped.sp + 8 := popped.setReg_self _ _
  have length : restoredRegisters.length = 15 := rfl
  rw [length] at pointer
  refine ⟨?_, ?_, ?_⟩
  · rw [← words]
    apply List.map_congr_left
    intro register member
    have differ : register ≠ .rsp := by
      rintro rfl
      revert member
      decide
    exact popped.setReg_of_ne _ differ
  · rw [Machine.exec_sti_mem, Machine.exec, Machine.setReg_mem, memory]
  · refine pointer'.trans ?_
    rw [pointer]
    bv_omega

/-- The stack and the argument that `irq_handler_c` is called with: the argument leads to
the saved `r15`. -/
theorem enterHandlerC_spec (irq : Fin 16) (returnAddress : Word) (m : Machine) :
    (enterHandlerC irq returnAddress m).stackWords stubWords = returnAddress ::
        (restoredRegisters.map m.reg ++ BitVec.ofNat 64 irq :: m.stackWords frameWords) ∧
      (enterHandlerC irq returnAddress m).sp = m.sp - 136 ∧
      load64 (enterHandlerC irq returnAddress m).mem
        ((enterHandlerC irq returnAddress m).reg .rdi) = m.reg .r15 := by
  obtain ⟨words, pointer, argument⟩ := irqStubEntry_spec irq m
  rw [enterHandlerC]
  generalize m.run (irqStubEntry irq) = called at words pointer argument ⊢
  have stack : (called.pushWord returnAddress).stackWords stubWords = returnAddress ::
      (restoredRegisters.map m.reg ++ BitVec.ofNat 64 irq :: m.stackWords frameWords) := by
    rw [← words]
    exact called.stackWords_push returnAddress (by decide)
  refine ⟨stack, ?_, ?_⟩
  · rw [Machine.pushWord_sp, pointer]
    bv_omega
  · have rdi : (called.pushWord returnAddress).reg .rdi =
        (called.pushWord returnAddress).sp + 8 := by
      rw [Machine.pushWord_reg _ _ (by decide), argument, Machine.pushWord_sp]
      bv_omega
    generalize called.pushWord returnAddress = entered at stack rdi ⊢
    have split : entered.stackWords stubWords =
        load64 entered.mem entered.sp :: load64 entered.mem (entered.sp + 8) ::
          wordsAt entered.mem (entered.sp + 8 + 8) 20 := rfl
    rw [split] at stack
    rw [rdi]
    exact (List.cons.inj (List.cons.inj stack).2).1

/-- From the stack that `irq_handler_c` is called with, a stub goes on after its call and
gives the interrupted code its registers and its stack back. -/
theorem leaveHandlerC_spec {returnAddress number : Word} {values frame : List Word}
    (m : Machine) (saved : values.length = restoredRegisters.length)
    (stack : m.stackWords stubWords = returnAddress :: (values ++ number :: frame)) :
    m.ret.1 = returnAddress ∧
      restoredRegisters.map (leaveHandlerC m).reg = values ∧
      (leaveHandlerC m).sp = m.sp + 136 ∧ (leaveHandlerC m).stackWords frameWords = frame := by
  have top : m.stackWords stubWords =
      m.ret.1 :: m.ret.2.stackWords (savedRegisters.length + (1 + frameWords)) :=
    m.stackWords_ret _
  rw [stack] at top
  obtain ⟨address, rest⟩ := List.cons.inj top
  obtain ⟨registers, memory, pointer⟩ := irqStubExit_spec m.ret.2
  rw [leaveHandlerC]
  have below := m.ret_sp
  generalize m.ret.2 = returned at rest registers memory pointer below ⊢
  have split : returned.stackWords (savedRegisters.length + (1 + frameWords)) =
      returned.stackWords restoredRegisters.length ++
        (load64 returned.mem (returned.sp + 120) ::
          wordsAt returned.mem (returned.sp + 120 + 8) frameWords) :=
    wordsAt_add returned.mem returned.sp 15 6
  rw [split] at rest
  obtain ⟨first, later⟩ := List.append_inj rest (by rw [saved]; exact (length_wordsAt ..).symm)
  refine ⟨address.symm, registers.trans first.symm, ?_, ?_⟩
  · rw [pointer, below]
    bv_omega
  · have base : returned.sp + 128 = returned.sp + 120 + 8 := by bv_omega
    rw [Machine.stackWords, memory, pointer, base]
    exact (List.cons.inj later).2.symm

section Stub

variable (compiled : Option Handler → Machine → Machine)
  (drives : Handler → Machine → List PortWrite) (irqHandlers : IrqHandlers Handler)
  (returnAddress : Word) (irq : Fin 16) (s : IrqState Handler)

/-- The handler that a stub calls is the one of the number in the interrupted `r15`. -/
theorem irqStub_called :
    (irqStub compiled drives irqHandlers returnAddress irq s).called =
      s.called ++ (irqHandlers.find (toInt32 (s.reg .r15))).toList := by
  obtain ⟨-, -, argument⟩ := enterHandlerC_spec irq returnAddress s.toMachine
  simp only [irqStub, irqHandlerC, argument]

theorem irqStub_toMachine :
    (irqStub compiled drives irqHandlers returnAddress irq s).toMachine =
      leaveHandlerC (compiled (irqHandlers.find (toInt32 (s.reg .r15)))
        (enterHandlerC irq returnAddress s.toMachine)) := by
  obtain ⟨-, -, argument⟩ := enterHandlerC_spec irq returnAddress s.toMachine
  simp only [irqStub, irqHandlerC, argument]

/-- A stub sends to the ports what that handler sends and the end-of-interrupt command for
that number. -/
theorem irqStub_ports :
    (irqStub compiled drives irqHandlers returnAddress irq s).ports =
      s.ports ++ (portWrites drives (irqHandlers.find (toInt32 (s.reg .r15)))
        (enterHandlerC irq returnAddress s.toMachine) ++
          picSendEoi (BitVec.ofInt 8 (toInt32 (s.reg .r15)))) := by
  obtain ⟨-, -, argument⟩ := enterHandlerC_spec irq returnAddress s.toMachine
  simp only [irqStub, irqHandlerC, argument, List.append_assoc]

/-- A stub returns to the interrupted code with its registers and its stack, whichever
handler it called. -/
theorem irqStub_restores (keeps : ∀ handler, KeepsFrame stubWords (compiled handler)) :
    restoredRegisters.map (irqStub compiled drives irqHandlers returnAddress irq s).reg =
        restoredRegisters.map s.reg ∧
      (irqStub compiled drives irqHandlers returnAddress irq s).sp = s.sp ∧
      (irqStub compiled drives irqHandlers returnAddress irq s).stackWords frameWords =
        s.stackWords frameWords := by
  obtain ⟨stack, pointer, -⟩ := enterHandlerC_spec irq returnAddress s.toMachine
  rw [irqStub_toMachine]
  generalize irqHandlers.find (toInt32 (s.reg .r15)) = handler
  generalize enterHandlerC irq returnAddress s.toMachine = entered at stack pointer ⊢
  have kept : (compiled handler entered).stackWords stubWords = entered.stackWords stubWords :=
    (keeps handler).stackWords entered (by decide)
  obtain ⟨-, registers, pointer', frame⟩ :=
    leaveHandlerC_spec (compiled handler entered) (List.length_map _) (kept.trans stack)
  refine ⟨registers, ?_, frame⟩
  rw [pointer', (keeps handler entered).1, pointer]
  bv_omega

/-- **Interrupt dispatch.** A stub serves its line exactly when the number in the
interrupted `r15` has the handler of the line, or none where the line has none. -/
theorem irqStub_dispatched_iff (keeps : ∀ handler, KeepsFrame stubWords (compiled handler)) :
    Dispatched irqHandlers irq s (irqStub compiled drives irqHandlers returnAddress irq s) ↔
      irqHandlers.find (toInt32 (s.reg .r15)) = irqHandlers irq := by
  obtain ⟨registers, pointer, frame⟩ :=
    irqStub_restores compiled drives irqHandlers returnAddress irq s keeps
  have called := irqStub_called compiled drives irqHandlers returnAddress irq s
  constructor
  · intro dispatched
    have same := called.symm.trans dispatched.called
    simpa using congrArg List.head? (List.append_cancel_left same)
  · intro same
    refine ⟨called.trans (by rw [same]), ?_, pointer, frame⟩
    intro register member
    apply List.map_inj_left.mp registers
    exact List.mem_reverse.mpr member

end Stub

end Dispatch

/-! ## The timer -/

/-- The function that the kernel registers. -/
inductive KernelHandler where
  | timerHandler
  deriving DecidableEq, Repr

/-- What `timer_handler` sends to the ports: an end-of-interrupt command of its own. -/
def KernelHandler.drives : KernelHandler → Machine → List PortWrite
  | .timerHandler, _ => picSendEoi 0

/-- The table once `init_timer` has registered the timer's handler at line 0. -/
def timerHandlers : IrqHandlers KernelHandler :=
  Function.update (fun _ => none) 0 (some .timerHandler)

example : irqRegisterHandler (fun _ => none) 0 (some .timerHandler) = some timerHandlers := rfl

/-- Code interrupted with a number in `r15`. -/
def interrupted (r15 : Word) : IrqState KernelHandler where
  reg := Function.update (fun _ => 0) .r15 r15
  mem := fun _ => 0
  interrupts := true
  called := []
  ports := []

/-- The timer's handler runs when the interrupted `r15` is zero. -/
theorem irqStub_dispatched_timer :
    Dispatched timerHandlers 0 (interrupted 0)
      (irqStub (fun _ m => m) KernelHandler.drives timerHandlers 0x1000 0 (interrupted 0)) :=
  (irqStub_dispatched_iff (fun _ m => m) KernelHandler.drives timerHandlers 0x1000 0 (interrupted 0)
    fun _ _ => ⟨rfl, fun _ _ => rfl⟩).mpr (by decide)

/-- The timer's handler does not run when it is one. -/
theorem irqStub_lost_timer :
    KeepsFrame stubWords (fun m => m) ∧
      ¬ Dispatched timerHandlers 0 (interrupted 1)
        (irqStub (fun _ m => m) KernelHandler.drives timerHandlers 0x1000 0 (interrupted 1)) := by
  refine ⟨fun _ => ⟨rfl, fun _ _ => rfl⟩, fun dispatched => ?_⟩
  have called := dispatched.called
  rw [irqStub_called] at called
  revert called
  decide

end NTux.Cpu
