import NTux.Cpu.Irq
import NTux.Foundation.Runs

/-! # Acknowledging interrupt requests

An interrupt controller waits for one end-of-interrupt command for every request it has
delivered. The kernel sends it in two layers: `irq_handler_c` after every handler, and
`timer_handler` on its own account. `pic_send_eoi` means to address the slave controller
for the lines from 8 on, but gives the master's command port the slave's port number as a
byte. `acknowledged_iff` says which deliveries are acknowledged properly.
-/

namespace NTux.Cpu

open NTux.Foundation

variable {Handler : Type}

/-- A delivered request: the line, the handlers registered at the time, and the
interrupted machine. -/
structure Delivery (Handler : Type) where
  irq : Fin 16
  irqHandlers : IrqHandlers Handler
  machine : Machine

/-- The state of the kernel, and for every request served so far what was sent to the
ports. -/
structure IrqTrace (Handler : Type) where
  state : IrqState Handler
  served : List (Fin 16 × List PortWrite)

/-- The bytes sent to a port. -/
def sentTo (port : Nat) (writes : List PortWrite) : List (BitVec 8) :=
  (writes.filter fun write => write.1 = BitVec.ofNat 16 port).map Prod.snd

/-- The end-of-interrupt command. -/
def eoi : BitVec 8 := 0x20

/-- One command for the master controller, one for the slave if the line is one of its
own, and nothing else on their command ports. -/
structure Acknowledged (irq : Fin 16) (writes : List PortWrite) : Prop where
  master : sentTo masterPicCmd writes = [eoi]
  slave : sentTo slavePicCmd writes = if 8 ≤ irq.val then [eoi] else []

section Deliver

variable (compiled : Option Handler → Machine → Machine)
  (drives : Handler → Machine → List PortWrite) (returnAddress : Word)

namespace Delivery

/-- The number that `irq_handler_c` takes for the line: the word that its argument leads to. -/
def number (delivery : Delivery Handler) : Int :=
  toInt32 (load64 (enterHandlerC delivery.irq returnAddress delivery.machine).mem
    ((enterHandlerC delivery.irq returnAddress delivery.machine).reg .rdi))

/-- What the handler called for that number sends to the ports. -/
def handlerWrites (delivery : Delivery Handler) : List PortWrite :=
  portWrites drives (delivery.irqHandlers.find (delivery.number returnAddress))
    (enterHandlerC delivery.irq returnAddress delivery.machine)

/-- The number does not make `pic_send_eoi` address the slave controller, and the handler
sends nothing to the command ports, except what a line of the slave is still owed. -/
structure Plain (delivery : Delivery Handler) : Prop where
  number : (BitVec.ofInt 8 (delivery.number returnAddress)).toNat < 8
  master : sentTo masterPicCmd (delivery.handlerWrites drives returnAddress) = []
  slave : sentTo slavePicCmd (delivery.handlerWrites drives returnAddress) =
    if 8 ≤ delivery.irq.val then [eoi] else []

end Delivery

/-- A stub serves a request. -/
def IrqTrace.deliver (trace : IrqTrace Handler) (delivery : Delivery Handler) : IrqTrace Handler :=
  let before := { trace.state with toMachine := delivery.machine }
  let after := irqStub compiled drives delivery.irqHandlers returnAddress delivery.irq before
  ⟨after, trace.served ++ [(delivery.irq, after.ports.drop before.ports.length)]⟩

/-- Requests are delivered to whatever the machine is executing at the time. -/
def DeliveryStep (source : IrqTrace Handler) (delivery : Delivery Handler)
    (target : IrqTrace Handler) : Prop :=
  target = source.deliver compiled drives returnAddress delivery

/-! ## One request -/

theorem number_eq (delivery : Delivery Handler) :
    delivery.number returnAddress = toInt32 (delivery.machine.reg .r15) := by
  obtain ⟨-, -, argument⟩ := enterHandlerC_spec delivery.irq returnAddress delivery.machine
  rw [Delivery.number, argument]

/-- For a request the handler of that number and `pic_send_eoi` write to the ports. -/
theorem deliver_served (trace : IrqTrace Handler) (delivery : Delivery Handler) :
    (trace.deliver compiled drives returnAddress delivery).served = trace.served ++
      [(delivery.irq, delivery.handlerWrites drives returnAddress ++
        picSendEoi (BitVec.ofInt 8 (delivery.number returnAddress)))] := by
  simp only [IrqTrace.deliver, irqStub_ports, List.drop_left, Delivery.handlerWrites, number_eq]

theorem sentTo_append (port : Nat) (first second : List PortWrite) :
    sentTo port (first ++ second) = sentTo port first ++ sentTo port second := by
  rw [sentTo, List.filter_append, List.map_append]
  rfl

/-- `pic_send_eoi` sends the slave's port number to the master where it should send a
command to the slave. -/
theorem sentTo_picSendEoi (irq : BitVec 8) :
    sentTo masterPicCmd (picSendEoi irq) = (if irq.toNat ≥ 8 then [0xA0] else []) ++ [eoi] ∧
      sentTo slavePicCmd (picSendEoi irq) = [] := by
  rw [picSendEoi]
  split <;> decide

/-- A request is acknowledged properly exactly if it is plain. -/
theorem acknowledged_served_iff (delivery : Delivery Handler) :
    Acknowledged delivery.irq (delivery.handlerWrites drives returnAddress ++
        picSendEoi (BitVec.ofInt 8 (delivery.number returnAddress))) ↔
      delivery.Plain drives returnAddress := by
  obtain ⟨master, slave⟩ := sentTo_picSendEoi (BitVec.ofInt 8 (delivery.number returnAddress))
  constructor
  · rintro ⟨one, rest⟩
    rw [sentTo_append, master, ← List.append_assoc] at one
    rw [sentTo_append, slave, List.append_nil] at rest
    have nothing := List.append_eq_nil_iff.mp
      ((@List.append_left_eq_self _ _ [eoi]).mp one)
    refine ⟨?_, nothing.1, rest⟩
    by_contra large
    rw [if_pos (Nat.not_lt.mp large)] at nothing
    cases nothing.2
  · rintro ⟨small, none, owed⟩
    constructor
    · rw [sentTo_append, master, none, if_neg (Nat.not_le.mpr small)]
      rfl
    · rw [sentTo_append, slave, List.append_nil, owed]

/-! ## Runs -/

/-- A run serves its requests in order. -/
theorem run_served {source target : IrqTrace Handler} {deliveries : List (Delivery Handler)}
    (run : Run (DeliveryStep compiled drives returnAddress) source deliveries target) :
    target.served = source.served ++ deliveries.map fun delivery =>
      (delivery.irq, delivery.handlerWrites drives returnAddress ++
        picSendEoi (BitVec.ofInt 8 (delivery.number returnAddress))) := by
  induction run with
  | nil => rw [List.map_nil, List.append_nil]
  | cons taken _ ih =>
      rw [ih, taken, deliver_served, List.append_assoc]
      rfl

/-- **Which requests are acknowledged.** In every run each request is acknowledged by
exactly one command to each controller concerned if and only if every delivery is plain. -/
theorem acknowledged_iff {s : IrqState Handler} {trace : IrqTrace Handler}
    {deliveries : List (Delivery Handler)}
    (run : Run (DeliveryStep compiled drives returnAddress) ⟨s, []⟩ deliveries trace) :
    (∀ request ∈ trace.served, Acknowledged request.1 request.2) ↔
      ∀ delivery ∈ deliveries, delivery.Plain drives returnAddress := by
  rw [run_served compiled drives returnAddress run, List.nil_append, List.forall_mem_map]
  exact forall₂_congr fun delivery _ => acknowledged_served_iff drives returnAddress delivery

end Deliver

/-- A request on a line, delivered with a number in `r15`. -/
def deliveryAt (irqHandlers : IrqHandlers KernelHandler) (irq : Fin 16) (r15 : Word) :
    Delivery KernelHandler :=
  ⟨irq, irqHandlers, (interrupted r15).toMachine⟩

/-- Line 1, which has no handler, is acknowledged once. -/
theorem acknowledged_keyboard :
    ∃ trace, Run (DeliveryStep (fun _ m => m) KernelHandler.drives 0x1000)
        ⟨interrupted 1, []⟩ [deliveryAt timerHandlers 1 1] trace ∧
      ∀ request ∈ trace.served, Acknowledged request.1 request.2 := by
  refine ⟨_, .single rfl,
    (acknowledged_iff (fun _ m => m) KernelHandler.drives 0x1000 (.single rfl)).mpr ?_⟩
  intro delivery member
  obtain rfl := List.mem_singleton.mp member
  have number : (deliveryAt timerHandlers 1 1).number 0x1000 = 1 := by
    rw [number_eq]
    decide
  have writes : (deliveryAt timerHandlers 1 1).handlerWrites KernelHandler.drives 0x1000 = [] := by
    rw [Delivery.handlerWrites, number]
    rfl
  refine ⟨?_, ?_, ?_⟩
  · rw [number]
    decide
  · rw [writes]
    rfl
  · rw [writes]
    rfl

/-- The timer's requests are acknowledged twice, and those of the slave's first line with a
byte that is no command to the master and with nothing to the slave. -/
theorem unacknowledged_timer_slave :
    ¬ (∀ trace, Run (DeliveryStep (fun _ m => m) KernelHandler.drives 0x1000)
        ⟨interrupted 0, []⟩ [deliveryAt timerHandlers 0 0] trace →
      ∀ request ∈ trace.served, Acknowledged request.1 request.2) ∧
    ¬ (∀ trace, Run (DeliveryStep (fun _ m => m) KernelHandler.drives 0x1000)
        ⟨interrupted 8, []⟩ [deliveryAt timerHandlers 8 8] trace →
      ∀ request ∈ trace.served, Acknowledged request.1 request.2) := by
  have served : ∀ irq r15, (deliveryAt timerHandlers irq r15).number 0x1000 = toInt32 r15 := by
    intro irq r15
    rw [number_eq]
    rfl
  constructor
  · intro claim
    have step : DeliveryStep (fun _ m => m) KernelHandler.drives 0x1000 ⟨interrupted 0, []⟩
        (deliveryAt timerHandlers 0 0) _ := rfl
    have acknowledged := claim _ (.single step)
    rw [deliver_served, served, Delivery.handlerWrites, served] at acknowledged
    have twice := (acknowledged _ (List.mem_singleton_self _)).master
    revert twice
    decide
  · intro claim
    have step : DeliveryStep (fun _ m => m) KernelHandler.drives 0x1000 ⟨interrupted 8, []⟩
        (deliveryAt timerHandlers 8 8) _ := rfl
    have acknowledged := claim _ (.single step)
    rw [deliver_served, served, Delivery.handlerWrites, served] at acknowledged
    have lost := (acknowledged _ (List.mem_singleton_self _)).slave
    revert lost
    decide

end NTux.Cpu
