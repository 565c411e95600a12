import NTux.Foundation.Memory
import Mathlib.Logic.Function.Basic

/-! # The registers and the stack of an x86-64 processor

A `Machine` is the register file, the interrupt flag and a memory of bytes at 64-bit
addresses, with the instructions that assembly stubs are made of. Addresses wrap around,
as the processor's do, so that nothing is assumed of the stack pointer.

The stack is the list of words from the stack pointer upwards (`stackWords`). A push
puts a word in front of it (`stackWords_push`), and a list of pops loads the registers
from it (`run_pops`).
-/

namespace NTux.Foundation

abbrev Word := BitVec 64

inductive Reg where
  | rax | rbx | rcx | rdx | rsi | rdi | rbp | rsp
  | r8 | r9 | r10 | r11 | r12 | r13 | r14 | r15
  deriving DecidableEq, Repr

/-! ## Words in memory -/

/-- The addresses of a block, which may reach over the end of the address space. -/
def span (base : Word) (size : Nat) : Set Word :=
  fun byte => (byte - base).toNat < size

theorem mem_span {base byte : Word} {size : Nat} :
    byte ∈ span base size ↔ (byte - base).toNat < size :=
  Iff.rfl

/-- A block that begins inside another and does not reach over its end. -/
theorem span_subset {base outer : Word} {size outerSize : Nat}
    (inside : (base - outer).toNat + size ≤ outerSize) :
    span base size ⊆ span outer outerSize := by
  intro byte member
  rw [mem_span] at member ⊢
  bv_omega

/-- Blocks each of which begins behind the other's end. -/
theorem span_disjoint {first second : Word} {firstSize secondSize : Nat}
    (above : firstSize ≤ (second - first).toNat) (below : secondSize ≤ (first - second).toNat) :
    Disjoint (span first firstSize) (span second secondSize) := by
  rw [Set.disjoint_left]
  intro byte inFirst inSecond
  rw [mem_span] at inFirst inSecond
  bv_omega

/-- The word at an address, least significant byte first. -/
def load64 (mem : Word → Byte) (address : Word) : Word :=
  BitVec.ofNat 64 (Memory.readLE (fun offset => mem (address + BitVec.ofNat 64 offset)) 0 8)

/-- The memory with a word stored at an address. -/
def store64 (mem : Word → Byte) (address value : Word) : Word → Byte := fun byte =>
  if (byte - address).toNat < 8 then
    BitVec.ofNat 8 (value.toNat / 256 ^ (byte - address).toNat)
  else mem byte

/-- The `count` words from an address upwards. -/
def wordsAt (mem : Word → Byte) (base : Word) : Nat → List Word
  | 0 => []
  | count + 1 => load64 mem base :: wordsAt mem (base + 8) count

theorem load64_congr {mem other : Word → Byte} {address : Word}
    (same : Set.EqOn mem other (span address 8)) : load64 mem address = load64 other address := by
  apply congrArg (BitVec.ofNat 64)
  apply Memory.readLE_congr
  intro offset member
  apply same
  have small : offset < 8 := by simpa using member.2
  rw [mem_span]
  bv_omega

/-- A store leaves every region apart from its word as it was. -/
theorem store64_eqOn (mem : Word → Byte) {address : Word} (value : Word) {region : Set Word}
    (apart : Disjoint region (span address 8)) :
    Set.EqOn (store64 mem address value) mem region := fun _ member =>
  if_neg (Set.disjoint_left.mp apart member)

@[simp] theorem load64_store64 (mem : Word → Byte) (address value : Word) :
    load64 (store64 mem address value) address = value := by
  have bytes : ∀ offset < 8, store64 mem address value (address + BitVec.ofNat 64 (0 + offset)) =
      BitVec.ofNat 8 (value.toNat / 256 ^ offset) := by
    intro offset small
    have distance : (address + BitVec.ofNat 64 (0 + offset) - address).toNat = offset := by
      bv_omega
    rw [store64, distance, if_pos small]
  have number : Memory.readLE
      (fun offset => store64 mem address value (address + BitVec.ofNat 64 offset)) 0 8 =
        value.toNat % 256 ^ 8 :=
    Memory.readLE_of_bytes bytes
  have small : value.toNat % 256 ^ 8 = value.toNat := Nat.mod_eq_of_lt value.isLt
  rw [load64, number, small, BitVec.ofNat_toNat, BitVec.setWidth_eq]

/-- The words from an address upwards depend on their own bytes only. -/
theorem wordsAt_congr {mem other : Word → Byte} {base : Word} {count : Nat}
    (fits : 8 * count ≤ 2 ^ 64) (same : Set.EqOn mem other (span base (8 * count))) :
    wordsAt mem base count = wordsAt other base count := by
  induction count generalizing base with
  | zero => rfl
  | succ count ih =>
      have head : load64 mem base = load64 other base := by
        apply load64_congr
        intro byte near
        apply same
        rw [mem_span] at near ⊢
        omega
      have tail : wordsAt mem (base + 8) count = wordsAt other (base + 8) count := by
        apply ih (by omega)
        intro byte near
        apply same
        rw [mem_span] at near ⊢
        bv_omega
      rw [wordsAt, wordsAt, head, tail]

@[simp] theorem length_wordsAt (mem : Word → Byte) (base : Word) (count : Nat) :
    (wordsAt mem base count).length = count := by
  induction count generalizing base with
  | zero => rfl
  | succ count ih => rw [wordsAt, List.length_cons, ih]

theorem wordsAt_add (mem : Word → Byte) (base : Word) (first later : Nat) :
    wordsAt mem base (first + later) =
      wordsAt mem base first ++ wordsAt mem (base + BitVec.ofNat 64 (8 * first)) later := by
  induction first generalizing base with
  | zero => simp [wordsAt]
  | succ first ih =>
      have next : base + 8 + BitVec.ofNat 64 (8 * first) =
          base + BitVec.ofNat 64 (8 * (first + 1)) := by
        bv_omega
      rw [Nat.add_right_comm, wordsAt, ih, next, wordsAt, List.cons_append]

/-- A word stored just below others. -/
theorem wordsAt_store64 (mem : Word → Byte) (base value : Word) {count : Nat}
    (fits : 8 * (count + 1) ≤ 2 ^ 64) :
    wordsAt (store64 mem (base - 8) value) (base - 8) (count + 1) =
      value :: wordsAt mem base count := by
  have above : base - 8 + 8 = base := by bv_omega
  rw [wordsAt, load64_store64, above]
  congr 1
  apply wordsAt_congr (by omega)
  apply store64_eqOn
  apply span_disjoint <;> bv_omega

/-! ## Instructions -/

structure Machine where
  reg : Reg → Word
  mem : Word → Byte
  interrupts : Bool

inductive Instr where
  | cli
  | sti
  | pushImm (value : Word)
  | push (source : Reg)
  | pop (target : Reg)
  | mov (target source : Reg)
  | addImm (target : Reg) (value : Word)
  deriving DecidableEq, Repr

namespace Machine

variable (m : Machine)

/-- The stack pointer. -/
abbrev sp : Word := m.reg .rsp

def setReg (target : Reg) (value : Word) : Machine :=
  { m with reg := Function.update m.reg target value }

/-- Put a word on the stack. -/
def pushWord (value : Word) : Machine :=
  { m.setReg .rsp (m.sp - 8) with mem := store64 m.mem (m.sp - 8) value }

/-- Take a word from the stack into a register. -/
def popWord (target : Reg) : Machine :=
  (m.setReg .rsp (m.sp + 8)).setReg target (load64 m.mem m.sp)

def exec : Instr → Machine
  | .cli => { m with interrupts := false }
  | .sti => { m with interrupts := true }
  | .pushImm value => m.pushWord value
  | .push source => m.pushWord (m.reg source)
  | .pop target => m.popWord target
  | .mov target source => m.setReg target (m.reg source)
  | .addImm target value => m.setReg target (m.reg target + value)

/-- Straight-line code. -/
def run (m : Machine) (code : List Instr) : Machine := code.foldl exec m

/-- `ret`: the address at which execution goes on. -/
def ret : Word × Machine := (load64 m.mem m.sp, m.setReg .rsp (m.sp + 8))

/-- The `count` words on top of the stack. -/
def stackWords (count : Nat) : List Word := wordsAt m.mem m.sp count

@[simp] theorem run_nil : m.run [] = m := rfl

@[simp] theorem run_cons (head : Instr) (code : List Instr) :
    m.run (head :: code) = (m.exec head).run code := rfl

@[simp] theorem run_append (first later : List Instr) :
    m.run (first ++ later) = (m.run first).run later :=
  List.foldl_append

theorem exec_sti_mem : (m.exec .sti).mem = m.mem := rfl

theorem setReg_self (target : Reg) (value : Word) :
    (m.setReg target value).reg target = value :=
  Function.update_self _ _ _

theorem setReg_of_ne {target other : Reg} (value : Word) (differ : other ≠ target) :
    (m.setReg target value).reg other = m.reg other :=
  Function.update_of_ne differ _ _

@[simp] theorem setReg_mem (target : Reg) (value : Word) : (m.setReg target value).mem = m.mem := rfl

@[simp] theorem pushWord_sp (value : Word) : (m.pushWord value).sp = m.sp - 8 :=
  setReg_self m .rsp (m.sp - 8)

theorem pushWord_reg (value : Word) {other : Reg} (differ : other ≠ .rsp) :
    (m.pushWord value).reg other = m.reg other :=
  m.setReg_of_ne _ differ

theorem setReg_sp {target : Reg} (value : Word) (differ : target ≠ .rsp) :
    (m.setReg target value).sp = m.sp :=
  m.setReg_of_ne value differ.symm

theorem stackWords_setReg {target : Reg} (value : Word) (differ : target ≠ .rsp) (count : Nat) :
    (m.setReg target value).stackWords count = m.stackWords count := by
  rw [stackWords, setReg_sp _ _ differ, setReg_mem, stackWords]

theorem stackWords_succ (count : Nat) :
    m.stackWords (count + 1) = load64 m.mem m.sp :: wordsAt m.mem (m.sp + 8) count := rfl

/-- A push puts its word in front of the stack. -/
theorem stackWords_push (value : Word) {count : Nat} (fits : 8 * (count + 1) ≤ 2 ^ 64) :
    (m.pushWord value).stackWords (count + 1) = value :: m.stackWords count := by
  rw [stackWords, pushWord_sp]
  exact wordsAt_store64 m.mem m.sp value fits

theorem ret_sp : m.ret.2.sp = m.sp + 8 :=
  m.setReg_self .rsp (m.sp + 8)

/-- `ret` takes the top word off the stack. -/
theorem stackWords_ret (count : Nat) :
    m.stackWords (count + 1) = m.ret.1 :: m.ret.2.stackWords count := by
  rw [stackWords_succ, stackWords, ret_sp]
  rfl

@[simp] theorem popWord_mem (target : Reg) : (m.popWord target).mem = m.mem := rfl

theorem popWord_sp {target : Reg} (differ : target ≠ .rsp) :
    (m.popWord target).sp = m.sp + 8 := by
  rw [sp, popWord, setReg_of_ne _ _ differ.symm, setReg_self]

@[simp] theorem popWord_self (target : Reg) :
    (m.popWord target).reg target = load64 m.mem m.sp :=
  setReg_self _ _ _

theorem popWord_reg {target other : Reg} (differ : other ≠ target) (notStack : other ≠ .rsp) :
    (m.popWord target).reg other = m.reg other := by
  rw [popWord, setReg_of_ne _ _ differ, setReg_of_ne _ _ notStack]

/-! ## Saving and restoring registers -/

/-- Registers pushed in a row lie on the stack in reverse, in front of what was there. -/
theorem run_pushes (registers : List Reg) (noStack : Reg.rsp ∉ registers) (count : Nat)
    (fits : 8 * (registers.length + count) ≤ 2 ^ 64) :
    (m.run (registers.map .push)).stackWords (registers.length + count) =
        (registers.map m.reg).reverse ++ m.stackWords count ∧
      (m.run (registers.map .push)).sp = m.sp - BitVec.ofNat 64 (8 * registers.length) ∧
      ∀ other, other ≠ .rsp → (m.run (registers.map .push)).reg other = m.reg other := by
  induction registers generalizing m count with
  | nil => simp
  | cons head rest ih =>
      have restNoStack : Reg.rsp ∉ rest := fun member => noStack (List.mem_cons_of_mem _ member)
      have others : ∀ other, other ≠ .rsp → (m.pushWord (m.reg head)).reg other = m.reg other :=
        fun other differ => m.pushWord_reg _ differ
      have sameRest : rest.map (m.pushWord (m.reg head)).reg = rest.map m.reg :=
        List.map_congr_left fun other member =>
          others other fun equal => restNoStack (equal ▸ member)
      rw [List.length_cons] at fits ⊢
      obtain ⟨words, pointer, kept⟩ :=
        ih (m.pushWord (m.reg head)) restNoStack (count + 1) (by omega)
      rw [stackWords_push m _ (by omega), sameRest] at words
      simp only [List.map_cons, run_cons, exec]
      refine ⟨?_, ?_, ?_⟩
      · rw [Nat.add_right_comm, Nat.add_assoc, words]
        simp
      · rw [pointer, pushWord_sp]
        bv_omega
      · intro other differ
        rw [kept other differ, others other differ]

/-- Pops in a row load the registers from the words of the stack. -/
theorem run_pops (registers : List Reg) (distinct : registers.Nodup)
    (noStack : Reg.rsp ∉ registers) :
    registers.map (m.run (registers.map .pop)).reg = m.stackWords registers.length ∧
      (m.run (registers.map .pop)).mem = m.mem ∧
      (m.run (registers.map .pop)).sp = m.sp + BitVec.ofNat 64 (8 * registers.length) ∧
      ∀ other ∉ registers, other ≠ .rsp → (m.run (registers.map .pop)).reg other = m.reg other := by
  induction registers generalizing m with
  | nil => simp [stackWords, wordsAt]
  | cons head rest ih =>
      obtain ⟨headNew, restDistinct⟩ := List.nodup_cons.mp distinct
      have restNoStack : Reg.rsp ∉ rest := fun member => noStack (List.mem_cons_of_mem _ member)
      have headNoStack : head ≠ .rsp := fun equal => noStack (equal ▸ List.mem_cons_self)
      obtain ⟨words, memory, pointer, kept⟩ := ih (m.popWord head) restDistinct restNoStack
      simp only [List.map_cons, run_cons, exec]
      refine ⟨?_, ?_, ?_, ?_⟩
      · rw [words, kept head headNew headNoStack, popWord_self, List.length_cons, stackWords_succ,
          stackWords, popWord_sp m headNoStack, popWord_mem]
      · rw [memory, popWord_mem]
      · rw [pointer, popWord_sp m headNoStack, List.length_cons]
        bv_omega
      · intro other outside differ
        obtain ⟨notHead, notRest⟩ := not_or.mp (mt List.mem_cons.mpr outside)
        rw [kept other notRest differ, popWord_reg m notHead differ]

end Machine

end NTux.Foundation
