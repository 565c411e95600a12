import NTux.Drivers.Ata

/-! # The sectors that ATA commands address

The task file of a drive, as far as transfers use it: four registers that are queues of two
values, and the device register. A command of 28 bits takes its sector from the newer values
and the device register, one of 48 bits from both values.

The registers above offset 7 do not exist, so the high bytes that the driver writes there
reach nothing. A sector from `2 ^ 28` on is addressed right only if the registers already hold
its high bytes (`ataDisk_addresses_iff`).
-/

namespace NTux.Drivers

open NTux.Foundation

/-! ## The task file -/

/-- A register of two values; the previous one is the high-order byte. -/
structure TaskRegister where
  current : Byte
  previous : Byte

def TaskRegister.push (value : Byte) (r : TaskRegister) : TaskRegister := ⟨value, r.current⟩

structure TaskFile where
  seccount : TaskRegister
  lba0 : TaskRegister
  lba1 : TaskRegister
  lba2 : TaskRegister
  device : Byte

/-- What a command tells the drive to transfer. -/
structure AtaRequest where
  write : Bool
  sector : Nat
  count : Nat
  deriving DecidableEq

/-- The bit of the device register that says that the address is a sector number. -/
def ataDeviceLba : Byte := 0x40

namespace TaskFile

/-- A command of 28 bits; a count of zero stands for 256 sectors. -/
def request28 (file : TaskFile) (write : Bool) : AtaRequest where
  write := write
  sector := file.lba0.current.toNat + 2 ^ 8 * file.lba1.current.toNat +
    2 ^ 16 * file.lba2.current.toNat + 2 ^ 24 * (file.device &&& 0x0F).toNat
  count := if file.seccount.current = 0 then 2 ^ 8 else file.seccount.current.toNat

/-- A command of 48 bits; a count of zero stands for 65536 sectors. -/
def request48 (file : TaskFile) (write : Bool) : AtaRequest where
  write := write
  sector := file.lba0.current.toNat + 2 ^ 8 * file.lba1.current.toNat +
    2 ^ 16 * file.lba2.current.toNat + 2 ^ 24 * file.lba0.previous.toNat +
    2 ^ 32 * file.lba1.previous.toNat + 2 ^ 40 * file.lba2.previous.toNat
  count :=
    let count := file.seccount.current.toNat + 2 ^ 8 * file.seccount.previous.toNat
    if count = 0 then 2 ^ 16 else count

/-- What a command transfers, if it transfers sectors with a number. -/
def request (file : TaskFile) (command : Byte) : Option AtaRequest :=
  if file.device &&& ataDeviceLba = 0 then none
  else if command = ataCmdReadPio then some (file.request28 false)
  else if command = ataCmdWritePio then some (file.request28 true)
  else if command = ataCmdReadPioExt then some (file.request48 false)
  else if command = ataCmdWritePioExt then some (file.request48 true)
  else none

end TaskFile

/-- A drive at its ports: the task file and what it was told to transfer. -/
structure AtaPorts where
  file : TaskFile
  requests : List AtaRequest

/-- A write to a port of the drive. -/
def AtaPorts.outb (base : BitVec 16) (p : AtaPorts) (write : BitVec 16 × Byte) : AtaPorts :=
  let (port, value) := write
  let offset := port - base
  if offset = ataRegSeccount0 then
    { p with file := { p.file with seccount := p.file.seccount.push value } }
  else if offset = ataRegLba0 then
    { p with file := { p.file with lba0 := p.file.lba0.push value } }
  else if offset = ataRegLba1 then
    { p with file := { p.file with lba1 := p.file.lba1.push value } }
  else if offset = ataRegLba2 then
    { p with file := { p.file with lba2 := p.file.lba2.push value } }
  else if offset = ataRegHddevsel then { p with file := { p.file with device := value } }
  else if offset = ataRegCommand then
    { p with requests := p.requests ++ (p.file.request value).toList }
  else p

/-! ## The driver's writes -/

/-- The port and the value of a write to a register. -/
def PortAccess.outb? : PortAccess → Option (BitVec 16 × Byte)
  | .outb port value => some (port, value)
  | _ => none

/-- The writes to registers so far. -/
def AtaRun.outbs (s : AtaRun) : List (BitVec 16 × Byte) := s.accesses.filterMap PortAccess.outb?

/-- `ata_disk_read`. -/
def ataDiskRead (drive : AtaDrive) (buf : Nat) (sect : BitVec 32) (s : AtaRun) : Bool × AtaRun :=
  ataPioRead drive gAta0 (sect.setWidth 64) 1 buf s

/-- `ata_disk_write`. -/
def ataDiskWrite (drive : AtaDrive) (buf : Nat) (sect : BitVec 32) (s : AtaRun) : Bool × AtaRun :=
  ataPioWrite drive gAta0 (sect.setWidth 64) 1 buf s

@[simp] theorem access_outbs (s : AtaRun) (access : PortAccess) :
    (s.access access).outbs = s.outbs ++ access.outb?.toList := by
  cases access <;> simp [AtaRun.outbs, AtaRun.access, PortAccess.outb?]

@[simp] theorem ataIoWait_outbs (dev : AtaDevice) (s : AtaRun) :
    (ataIoWait dev s).outbs = s.outbs := by
  simp [ataIoWait, PortAccess.outb?]

@[simp] theorem inStatus_outbs (drive : AtaDrive) (s : AtaRun) :
    (inStatus drive s).2.outbs = s.outbs := by
  simp [inStatus, PortAccess.outb?]

theorem ataPollBusy_outbs (drive : AtaDrive) (turns : Nat) (s : AtaRun) :
    (ataPollBusy drive turns s).outbs = s.outbs := by
  induction turns generalizing s with
  | zero => rfl
  | succ turns ih =>
      simp only [ataPollBusy]
      split
      · exact inStatus_outbs drive s
      · rw [ih, inStatus_outbs]

/-- A poll only reads. -/
theorem ataPoll_outbs (drive : AtaDrive) (dev : AtaDevice) (checkError : Bool) (s : AtaRun) :
    (ataPoll drive dev checkError s).2.outbs = s.outbs := by
  simp only [ataPoll]
  rw [inStatus_outbs, ataPollBusy_outbs, ataIoWait_outbs]

theorem insw_outbs (drive : AtaDrive) (port : BitVec 16) (count buffer : Nat) (s : AtaRun) :
    (insw drive port count buffer s).outbs = s.outbs := by
  induction count generalizing buffer s with
  | zero => rfl
  | succ count ih =>
      rw [insw, ih]
      exact (access_outbs s _).trans (List.append_nil _)

theorem outsw_outbs (port : BitVec 16) (count buffer : Nat) (s : AtaRun) :
    (outsw port count buffer s).outbs = s.outbs := by
  induction count generalizing buffer s with
  | zero => rfl
  | succ count ih =>
      rw [outsw, ih]
      exact (access_outbs s _).trans (List.append_nil _)

/-- Behind its command a transfer writes to no register. -/
theorem ataSectors_outbs (drive : AtaDrive) (dev : AtaDevice) {move : Nat → AtaRun → AtaRun}
    (moves : ∀ buffer s, (move buffer s).outbs = s.outbs) (count buffer : Nat) (s : AtaRun) :
    (ataSectors drive dev move count buffer s).2.outbs = s.outbs := by
  induction count generalizing buffer s with
  | zero => rfl
  | succ count ih =>
      simp only [ataSectors]
      split
      · exact ataPoll_outbs drive dev true s
      · rw [ih, moves, ataPoll_outbs]

/-- The writes to the high bytes of a sector number, above the task file. -/
def highOutbs (bus : BitVec 16) (lba : BitVec 64) : List (BitVec 16 × Byte) :=
  [(bus + ataRegSeccount1, 0), (bus + ataRegLba3, (lba >>> 24).setWidth 8),
    (bus + ataRegLba4, (lba >>> 32).setWidth 8), (bus + ataRegLba5, (lba >>> 40).setWidth 8)]

/-- The writes to the task file in front of a command. -/
def lowOutbs (bus : BitVec 16) (lba : BitVec 64) (count : Byte) : List (BitVec 16 × Byte) :=
  [(bus + ataRegSeccount0, count), (bus + ataRegLba0, lba.setWidth 8),
    (bus + ataRegLba1, (lba >>> 8).setWidth 8), (bus + ataRegLba2, (lba >>> 16).setWidth 8)]

/-- The device register of a command of 28 bits to the first drive of a bus. -/
def device28 (high : Byte) : Byte := 0xE0 ||| (high &&& 0x0F)

/-- The writes of a command of 28 bits to the first drive of a bus. -/
theorem ataCommand_outbs_narrow {dev : AtaDevice} {lba : BitVec 64} (first : dev.slave = 0)
    (narrow : useLba48 dev lba = false) (sectorCount command commandExt : Byte) (s : AtaRun) :
    (ataCommand dev lba sectorCount command commandExt s).outbs =
      s.outbs ++ (dev.ioBase + ataRegHddevsel, device28 ((lba >>> 24).setWidth 8)) ::
        (lowOutbs dev.ioBase lba sectorCount ++ [(dev.ioBase + ataRegCommand, command)]) := by
  simp [ataCommand, narrow, first, PortAccess.outb?, lowOutbs, device28]

theorem ataCommand_outbs_wide {dev : AtaDevice} {lba : BitVec 64} (first : dev.slave = 0)
    (wide : useLba48 dev lba = true) (sectorCount command commandExt : Byte) (s : AtaRun) :
    (ataCommand dev lba sectorCount command commandExt s).outbs =
      s.outbs ++ (dev.ioBase + ataRegHddevsel, 0xE0) ::
        (highOutbs dev.ioBase lba ++ lowOutbs dev.ioBase lba sectorCount ++
          highOutbs dev.ioBase lba ++ [(dev.ioBase + ataRegCommand, commandExt)]) := by
  simp [ataCommand, wide, first, PortAccess.outb?, lowOutbs, highOutbs]

/-! ## What is addressed -/

namespace AtaTransfer

/-- `ata_disk_read` or `ata_disk_write` of a sector. -/
def runDisk (transfer : AtaTransfer) (drive : AtaDrive) (sect : BitVec 32) (memory : Memory) :
    Bool × AtaRun :=
  match transfer with
  | .read target => ataDiskRead drive target sect ⟨memory, []⟩
  | .write source => ataDiskWrite drive source sect ⟨memory, []⟩

def isWrite : AtaTransfer → Bool
  | .read _ => false
  | .write _ => true

/-- The transfers that the call commands a drive to do. -/
def requests (transfer : AtaTransfer) (drive : AtaDrive) (sect : BitVec 32) (memory : Memory)
    (file : TaskFile) : List AtaRequest :=
  ((transfer.runDisk drive sect memory).2.outbs.foldl (AtaPorts.outb gAta0.ioBase)
    ⟨file, []⟩).requests

/-- The command with which the call begins. -/
def command (transfer : AtaTransfer) (wide : Bool) : Byte :=
  match transfer with
  | .read _ => if wide then ataCmdReadPioExt else ataCmdReadPio
  | .write _ => if wide then ataCmdWritePioExt else ataCmdWritePio

end AtaTransfer

/-- The command of the flush behind a write transfers nothing. -/
theorem request_flush (file : TaskFile) (wide : Bool) :
    file.request (if wide then ataCmdCacheFlushExt else ataCmdCacheFlush) = none := by
  unfold TaskFile.request
  cases wide <;> simp [ataCmdCacheFlushExt, ataCmdCacheFlush, ataCmdReadPio, ataCmdWritePio,
    ataCmdReadPioExt, ataCmdWritePioExt]

theorem requests_snoc_flush (writes : List (BitVec 16 × Byte)) (p : AtaPorts) (wide : Bool) :
    ((writes ++ [(gAta0.ioBase + ataRegCommand,
        if wide then ataCmdCacheFlushExt else ataCmdCacheFlush)]).foldl
      (AtaPorts.outb gAta0.ioBase) p).requests =
      (writes.foldl (AtaPorts.outb gAta0.ioBase) p).requests := by
  rw [List.foldl_append]
  generalize writes.foldl (AtaPorts.outb gAta0.ioBase) p = q
  change q.requests ++ (q.file.request _).toList = q.requests
  rw [request_flush, Option.toList_none, List.append_nil]

/-- After its command a call commands no other transfer. -/
theorem requests_eq (transfer : AtaTransfer) (drive : AtaDrive) (sect : BitVec 32)
    (memory : Memory) (file : TaskFile) :
    transfer.requests drive sect memory file =
      ((ataCommand gAta0 (sect.setWidth 64) 1 (transfer.command false) (transfer.command true)
        ⟨memory, []⟩).outbs.foldl (AtaPorts.outb gAta0.ioBase) ⟨file, []⟩).requests := by
  cases transfer with
  | read target =>
      rw [AtaTransfer.requests, AtaTransfer.runDisk, ataDiskRead, ataPioRead,
        ataSectors_outbs drive gAta0 (insw_outbs drive _ _)]
      rfl
  | write source =>
      rw [AtaTransfer.requests, AtaTransfer.runDisk, ataDiskWrite, ataPioWrite]
      have sectors := ataSectors_outbs drive gAta0
        (outsw_outbs (gAta0.ioBase + ataRegData) (ataSectorSize / 2)) (1 : Byte).toNat source
        (ataCommand gAta0 (sect.setWidth 64) 1 ataCmdWritePio ataCmdWritePioExt ⟨memory, []⟩)
      generalize ataSectors drive gAta0 (outsw (gAta0.ioBase + ataRegData) (ataSectorSize / 2))
        (1 : Byte).toNat source
        (ataCommand gAta0 (sect.setWidth 64) 1 ataCmdWritePio ataCmdWritePioExt ⟨memory, []⟩) = ended
        at sectors ⊢
      obtain ⟨written, s⟩ := ended
      dsimp only at sectors ⊢
      split
      · rw [sectors]
        rfl
      · rw [ataPoll_outbs, access_outbs, sectors]
        exact requests_snoc_flush _ _ _

/-- The low bytes of a number, put together. -/
theorem bytes_toNat (sect : BitVec 32) :
    ((sect.setWidth 64).setWidth 8).toNat = sect.toNat % 2 ^ 8 ∧
      (((sect.setWidth 64) >>> 8).setWidth 8).toNat = sect.toNat / 2 ^ 8 % 2 ^ 8 ∧
      (((sect.setWidth 64) >>> 16).setWidth 8).toNat = sect.toNat / 2 ^ 16 % 2 ^ 8 ∧
      (((sect.setWidth 64) >>> 24).setWidth 8).toNat = sect.toNat / 2 ^ 24 % 2 ^ 8 := by
  have whole : (sect.setWidth 64).toNat = sect.toNat := by
    rw [BitVec.toNat_setWidth]
    omega
  simp only [BitVec.toNat_setWidth, BitVec.toNat_ushiftRight, whole, Nat.shiftRight_eq_div_pow,
    and_self]

theorem useLba48_gAta0 (sect : BitVec 32) :
    useLba48 gAta0 (sect.setWidth 64) = decide (2 ^ 28 ≤ sect.toNat) := by
  have whole : (sect.setWidth 64).toNat = sect.toNat := by
    rw [BitVec.toNat_setWidth]
    omega
  have less : 0x0FFFFFFF < sect.setWidth 64 ↔ 2 ^ 28 ≤ sect.toNat := by
    rw [BitVec.lt_def, whole]
    exact Nat.lt_iff_add_one_le
  exact (Bool.or_false _).trans (decide_eq_decide.mpr less)

theorem device28_spec (high : Byte) :
    device28 high &&& ataDeviceLba ≠ 0 ∧ (device28 high &&& 0x0F).toNat = high.toNat % 2 ^ 4 := by
  revert high
  decide

/-- The task file that the command for a sector finds. -/
def TaskFile.found (file : TaskFile) (sect : BitVec 32) (device : Byte) : TaskFile where
  seccount := file.seccount.push 1
  lba0 := file.lba0.push ((sect.setWidth 64).setWidth 8)
  lba1 := file.lba1.push (((sect.setWidth 64) >>> 8).setWidth 8)
  lba2 := file.lba2.push (((sect.setWidth 64) >>> 16).setWidth 8)
  device := device

/-- The one command of a call in 28 bits addresses its sector. -/
theorem requests_narrow (transfer : AtaTransfer) (drive : AtaDrive) {sect : BitVec 32}
    (small : sect.toNat < 2 ^ 28) (memory : Memory) (file : TaskFile) :
    transfer.requests drive sect memory file = [⟨transfer.isWrite, sect.toNat, 1⟩] := by
  have narrow : useLba48 gAta0 (sect.setWidth 64) = false := by
    rw [useLba48_gAta0]
    exact decide_eq_false (not_le.mpr small)
  obtain ⟨byte0, byte1, byte2, byte3⟩ := bytes_toNat sect
  obtain ⟨mode, nibble⟩ := device28_spec (((sect.setWidth 64) >>> 24).setWidth 8)
  let found := file.found sect (device28 (((sect.setWidth 64) >>> 24).setWidth 8))
  have request : found.request28 transfer.isWrite = ⟨transfer.isWrite, sect.toNat, 1⟩ := by
    have sector : (found.request28 transfer.isWrite).sector = sect.toNat := by
      simp only [TaskFile.request28, TaskFile.found, TaskRegister.push, found, byte0, byte1, byte2, nibble, byte3]
      omega
    rw [← sector]
    rfl
  rw [requests_eq, ataCommand_outbs_narrow rfl narrow]
  change (found.request (transfer.command false)).toList = _
  rw [TaskFile.request, if_neg (show ¬ found.device &&& ataDeviceLba = 0 from mode)]
  cases transfer with
  | read target => exact congrArg (fun r => [r]) request
  | write source => exact congrArg (fun r => [r]) request

/-- The registers hold the high bytes of a sector number and of the count one. -/
structure TaskFile.Holds (file : TaskFile) (sect : BitVec 32) : Prop where
  seccount : file.seccount.current = 0
  lba0 : file.lba0.current.toNat = sect.toNat / 2 ^ 24
  lba1 : file.lba1.current = 0
  lba2 : file.lba2.current = 0

/-- The one command of a call in 48 bits takes the high bytes from the registers as they were. -/
theorem requests_wide (transfer : AtaTransfer) (drive : AtaDrive) {sect : BitVec 32}
    (large : 2 ^ 28 ≤ sect.toNat) (memory : Memory) (file : TaskFile) :
    transfer.requests drive sect memory file =
      [{ write := transfer.isWrite
         sector := sect.toNat % 2 ^ 24 + 2 ^ 24 * file.lba0.current.toNat +
          2 ^ 32 * file.lba1.current.toNat + 2 ^ 40 * file.lba2.current.toNat
         count := 1 + 2 ^ 8 * file.seccount.current.toNat }] := by
  have wide : useLba48 gAta0 (sect.setWidth 64) = true := by
    rw [useLba48_gAta0]
    exact decide_eq_true large
  obtain ⟨byte0, byte1, byte2, -⟩ := bytes_toNat sect
  -- the writes above the task file have reached nothing
  let found := file.found sect 0xE0
  have request : found.request48 transfer.isWrite =
      { write := transfer.isWrite
        sector := sect.toNat % 2 ^ 24 + 2 ^ 24 * file.lba0.current.toNat +
          2 ^ 32 * file.lba1.current.toNat + 2 ^ 40 * file.lba2.current.toNat
        count := 1 + 2 ^ 8 * file.seccount.current.toNat } := by
    have sector : (found.request48 transfer.isWrite).sector =
        sect.toNat % 2 ^ 24 + 2 ^ 24 * file.lba0.current.toNat +
          2 ^ 32 * file.lba1.current.toNat + 2 ^ 40 * file.lba2.current.toNat := by
      simp only [TaskFile.request48, TaskFile.found, TaskRegister.push, found, byte0, byte1, byte2]
      omega
    have count : (found.request48 transfer.isWrite).count =
        1 + 2 ^ 8 * file.seccount.current.toNat :=
      if_neg (by change 1 + 2 ^ 8 * file.seccount.current.toNat ≠ 0; omega)
    rw [← sector, ← count]
    rfl
  rw [requests_eq, ataCommand_outbs_wide rfl wide]
  change (found.request (transfer.command true)).toList = _
  have mode : (0xE0 : Byte) &&& ataDeviceLba ≠ 0 := by decide
  rw [TaskFile.request, if_neg (show ¬ found.device &&& ataDeviceLba = 0 from mode)]
  cases transfer with
  | read target => exact congrArg (fun r => [r]) request
  | write source => exact congrArg (fun r => [r]) request

/-- **Addressing.** A call commands the transfer of its one sector if and only if the number
of the sector has 28 bits or the registers hold its high bytes already. -/
theorem ataDisk_addresses_iff (transfer : AtaTransfer) (drive : AtaDrive) (sect : BitVec 32)
    (memory : Memory) (file : TaskFile) :
    transfer.requests drive sect memory file = [⟨transfer.isWrite, sect.toNat, 1⟩] ↔
      sect.toNat < 2 ^ 28 ∨ file.Holds sect := by
  by_cases small : sect.toNat < 2 ^ 28
  · exact iff_of_true (requests_narrow transfer drive small memory file) (.inl small)
  · rw [requests_wide transfer drive (not_lt.mp small) memory file, or_iff_right small,
      List.cons.injEq, AtaRequest.mk.injEq]
    have bound := sect.isLt
    have zero : ∀ value : Byte, value = 0 ↔ value.toNat = 0 := fun value => BitVec.toNat_inj.symm
    constructor
    · rintro ⟨⟨-, sector, count⟩, -⟩
      refine ⟨?_, ?_, ?_, ?_⟩
      · rw [zero]
        omega
      · omega
      · rw [zero]
        omega
      · rw [zero]
        omega
    · rintro ⟨seccount, lba0, lba1, lba2⟩
      rw [zero] at seccount lba1 lba2
      refine ⟨⟨rfl, ?_, ?_⟩, rfl⟩
      · omega
      · omega

/-- The registers after a drive has been reset and identified. -/
def resetTaskFile : TaskFile := ⟨⟨0, 0⟩, ⟨0, 0⟩, ⟨0, 0⟩, ⟨0, 0⟩, 0xA0⟩

/-- Reading sector `2 ^ 28` reads sector zero. -/
theorem ataDisk_addresses_high :
    ¬ (AtaTransfer.read 0).requests busyDrive 0x10000000 (fun _ => 0) resetTaskFile =
      [⟨false, 0x10000000, 1⟩] := by
  rw [requests_wide (.read 0) busyDrive (by decide) (fun _ => 0) resetTaskFile]
  decide

end NTux.Drivers
