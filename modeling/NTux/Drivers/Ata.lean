import NTux.Foundation.Memory
import Mathlib.Data.List.Induction

/-! # The ATA driver

`drivers/sata/ata.c`: transfers of whole sectors by programmed input and output. What the
driver does at the ports is recorded access by access. The drive is the sequence of the
values its status register has when it is read and the sequence of the words it hands out.

Before every sector `ata_poll` waits for the drive and checks its status, except that it
does not check whether the drive is still busy when it has waited long enough, and
`ata_pio_write` does not look at the result after its cache flush
(`ataTransfer_reports_iff`).
-/

namespace NTux.Drivers

open NTux.Foundation

/-! ## The ports -/

/-- An access to a port, with what was read or written. -/
inductive PortAccess where
  | wait (port : BitVec 16)
  | status (value : Byte)
  | outb (port : BitVec 16) (value : Byte)
  | inw (port : BitVec 16) (value : BitVec 16)
  | outw (port : BitVec 16) (value : BitVec 16)

/-- The values of the status register and the data words, in the order of their reads. -/
structure AtaDrive where
  status : Nat → Byte
  data : Nat → BitVec 16

/-- The value that a status read returned. -/
def PortAccess.status? : PortAccess → Option Byte
  | .status value => some value
  | _ => none

/-- The word that a data read returned. -/
def PortAccess.word? : PortAccess → Option (BitVec 16)
  | .inw _ value => some value
  | _ => none

/-- A transfer of a data word, in either direction. -/
def PortAccess.isData : PortAccess → Bool
  | .inw _ _ => true
  | .outw _ _ => true
  | _ => false

/-- Memory and the accesses so far. -/
structure AtaRun where
  memory : Memory
  accesses : List PortAccess

namespace AtaRun

def access (s : AtaRun) (access : PortAccess) : AtaRun :=
  { s with accesses := s.accesses ++ [access] }

/-- The values that the status reads so far returned. -/
def statuses (s : AtaRun) : List Byte := s.accesses.filterMap PortAccess.status?

/-- The words that were read so far. -/
def words (s : AtaRun) : List (BitVec 16) := s.accesses.filterMap PortAccess.word?

end AtaRun

/-! ## The driver -/

/-- `ata_device_t`, as far as transfers use it. -/
structure AtaDevice where
  ioBase : BitVec 16
  controlBase : BitVec 16
  slave : Byte
  lba48Supported : Bool

/-- `g_ata0`. -/
def gAta0 : AtaDevice := ⟨0x1F0, 0x3F6, 0, false⟩

/-- `ATA_TIMEOUT`. -/
def ataTimeout : Nat := 2000000

def ataSrBsy : Byte := 0x80
def ataSrDf : Byte := 0x20
def ataSrDrq : Byte := 0x08
def ataSrErr : Byte := 0x01

def ataCmdReadPio : Byte := 0x20
def ataCmdReadPioExt : Byte := 0x24
def ataCmdWritePio : Byte := 0x30
def ataCmdWritePioExt : Byte := 0x34
def ataCmdCacheFlush : Byte := 0xE7
def ataCmdCacheFlushExt : Byte := 0xEA

def ataRegData : BitVec 16 := 0x00
def ataRegSeccount0 : BitVec 16 := 0x02
def ataRegLba0 : BitVec 16 := 0x03
def ataRegLba1 : BitVec 16 := 0x04
def ataRegLba2 : BitVec 16 := 0x05
def ataRegHddevsel : BitVec 16 := 0x06
def ataRegCommand : BitVec 16 := 0x07
def ataRegSeccount1 : BitVec 16 := 0x08
def ataRegLba3 : BitVec 16 := 0x09
def ataRegLba4 : BitVec 16 := 0x0A
def ataRegLba5 : BitVec 16 := 0x0B

/-- `ATA_SECTOR_SIZE`. -/
def ataSectorSize : Nat := 512

/-- `inb(dev->io_base + ATA_REG_STATUS)`. -/
def inStatus (drive : AtaDrive) (s : AtaRun) : Byte × AtaRun :=
  let value := drive.status s.statuses.length
  (value, s.access (.status value))

/-- `insw`: words from the port to the buffer. -/
def insw (drive : AtaDrive) (port : BitVec 16) : Nat → Nat → AtaRun → AtaRun
  | 0, _, s => s
  | count + 1, buffer, s =>
      let value := drive.data s.words.length
      let s := s.access (.inw port value)
      insw drive port count (buffer + 2)
        { s with memory := s.memory.writeLE buffer 2 value.toNat }

/-- `outsw`: words from the buffer to the port. -/
def outsw (port : BitVec 16) : Nat → Nat → AtaRun → AtaRun
  | 0, _, s => s
  | count + 1, buffer, s =>
      outsw port count (buffer + 2)
        (s.access (.outw port (BitVec.ofNat 16 (s.memory.readLE buffer 2))))

/-- `ata_io_wait`. -/
def ataIoWait (dev : AtaDevice) (s : AtaRun) : AtaRun :=
  let s := s.access (.wait dev.controlBase)
  let s := s.access (.wait dev.controlBase)
  let s := s.access (.wait dev.controlBase)
  s.access (.wait dev.controlBase)

/-- The loop of `ata_poll`: read the status until it is not busy, for so many turns. -/
def ataPollBusy (drive : AtaDrive) : Nat → AtaRun → AtaRun
  | 0, s => s
  | turns + 1, s =>
      let (status, s) := inStatus drive s
      if status &&& ataSrBsy = 0 then s else ataPollBusy drive turns s

/-- The checks of `ata_poll`. -/
def ataCheck (checkError : Bool) (status : Byte) : Bool :=
  if status &&& ataSrErr ≠ 0 then false
  else if status &&& ataSrDf ≠ 0 then false
  else if checkError ∧ status &&& ataSrDrq = 0 then false
  else true

/-- `ata_poll`. -/
def ataPoll (drive : AtaDrive) (dev : AtaDevice) (checkError : Bool) (s : AtaRun) :
    Bool × AtaRun :=
  let s := ataIoWait dev s
  let s := ataPollBusy drive ataTimeout s
  let (status, s) := inStatus drive s
  (ataCheck checkError status, s)

/-- `use_lba48`. -/
def useLba48 (dev : AtaDevice) (lba : BitVec 64) : Bool :=
  0x0FFFFFFF < lba || dev.lba48Supported

/-- How `ata_pio_read` and `ata_pio_write` begin: the drive, the sectors and a command. -/
def ataCommand (dev : AtaDevice) (lba : BitVec 64) (sectorCount command commandExt : Byte)
    (s : AtaRun) : AtaRun :=
  let bus := dev.ioBase
  let slavebit : Byte := if dev.slave ≠ 0 then 0x10 else 0x00
  let lba48 := useLba48 dev lba
  let high (s : AtaRun) : AtaRun :=
    if lba48 then
      let s := s.access (.outb (bus + ataRegSeccount1) 0)
      let s := s.access (.outb (bus + ataRegLba3) ((lba >>> 24).setWidth 8))
      let s := s.access (.outb (bus + ataRegLba4) ((lba >>> 32).setWidth 8))
      s.access (.outb (bus + ataRegLba5) ((lba >>> 40).setWidth 8))
    else s
  let s := s.access (.outb (bus + ataRegHddevsel)
    (0xE0 ||| slavebit ||| (if lba48 then 0 else (lba >>> 24).setWidth 8 &&& 0x0F : Byte)))
  let s := high s
  let s := s.access (.outb (bus + ataRegSeccount0) sectorCount)
  let s := s.access (.outb (bus + ataRegLba0) (lba.setWidth 8))
  let s := s.access (.outb (bus + ataRegLba1) ((lba >>> 8).setWidth 8))
  let s := s.access (.outb (bus + ataRegLba2) ((lba >>> 16).setWidth 8))
  let s := high s
  s.access (.outb (bus + ataRegCommand) (if lba48 then commandExt else command))

/-- The loop over the sectors: poll, and move a sector to or from the buffer. -/
def ataSectors (drive : AtaDrive) (dev : AtaDevice) (move : Nat → AtaRun → AtaRun) :
    Nat → Nat → AtaRun → Bool × AtaRun
  | 0, _, s => (true, s)
  | count + 1, buffer, s =>
      let (ready, s) := ataPoll drive dev true s
      if !ready then (false, s)
      else ataSectors drive dev move count (buffer + ataSectorSize) (move buffer s)

/-- `ata_pio_read`. -/
def ataPioRead (drive : AtaDrive) (dev : AtaDevice) (lba : BitVec 64) (sectorCount : Byte)
    (target : Nat) (s : AtaRun) : Bool × AtaRun :=
  let s := ataCommand dev lba sectorCount ataCmdReadPio ataCmdReadPioExt s
  ataSectors drive dev (insw drive (dev.ioBase + ataRegData) (ataSectorSize / 2))
    sectorCount.toNat target s

/-- `ata_pio_write`. -/
def ataPioWrite (drive : AtaDrive) (dev : AtaDevice) (lba : BitVec 64) (sectorCount : Byte)
    (source : Nat) (s : AtaRun) : Bool × AtaRun :=
  let s := ataCommand dev lba sectorCount ataCmdWritePio ataCmdWritePioExt s
  let (written, s) := ataSectors drive dev
    (outsw (dev.ioBase + ataRegData) (ataSectorSize / 2)) sectorCount.toNat source s
  if !written then (false, s)
  else
    let s := s.access (.outb (dev.ioBase + ataRegCommand)
      (if useLba48 dev lba then ataCmdCacheFlushExt else ataCmdCacheFlush))
    let (_, s) := ataPoll drive dev false s
    (true, s)

/-! ## What a run should have seen -/

/-- The value of the last status read, if there was one. -/
def lastStatus (accesses : List PortAccess) : Option Byte :=
  (accesses.filterMap PortAccess.status?).getLast?

/-- Neither error bit is set. -/
structure NoError (status : Byte) : Prop where
  err : status &&& ataSrErr = 0
  df : status &&& ataSrDf = 0

/-- The drive is ready for a sector: not busy, no error, data requested. -/
structure Ready (status : Byte) : Prop extends NoError status where
  bsy : status &&& ataSrBsy = 0
  drq : status &&& ataSrDrq ≠ 0

/-- Whenever a data word was transferred, the last status read before it was ready. -/
def TransfersReady (accesses : List PortAccess) : Prop :=
  ∀ before access after, accesses = before ++ access :: after → access.isData = true →
    ∃ status ∈ lastStatus before, Ready status

/-- The last status read was neither busy nor one of an error. -/
def EndsWell (accesses : List PortAccess) : Prop :=
  ∃ status ∈ lastStatus accesses, status &&& ataSrBsy = 0 ∧ NoError status

/-! ## What the status values say -/

/-- The number of turns of the polling loop when the status is read from `start` on. -/
def busyTurns (status : Nat → Byte) : Nat → Nat → Nat
  | 0, _ => 0
  | turns + 1, start =>
      if status start &&& ataSrBsy = 0 then 1 else busyTurns status turns (start + 1) + 1

/-- The status read that a poll checks. -/
def pollEnd (status : Nat → Byte) (start : Nat) : Nat :=
  start + busyTurns status ataTimeout start

/-- The values that successive polls check. -/
def polledValues (status : Nat → Byte) : Nat → Nat → List Byte
  | 0, _ => []
  | count + 1, start =>
      status (pollEnd status start) :: polledValues status count (pollEnd status start + 1)

/-- Where the status is read next after so many polls. -/
def pollsEnd (status : Nat → Byte) : Nat → Nat → Nat
  | 0, start => start
  | count + 1, start => pollsEnd status count (pollEnd status start + 1)

/-! ## Accesses of one kind -/

/-- No data was transferred between two states. -/
def Silent (s s' : AtaRun) : Prop :=
  ∃ events, s'.accesses = s.accesses ++ events ∧ ∀ access ∈ events, access.isData = false

/-- Data was transferred between two states, and nothing else happened. -/
def Moves (s s' : AtaRun) : Prop :=
  ∃ events, s'.accesses = s.accesses ++ events ∧ events ≠ [] ∧
    ∀ access ∈ events, access.isData = true

theorem transfersReady_nil : TransfersReady [] := by
  intro before access after split
  simp at split

theorem transfersReady_snoc (accesses : List PortAccess) (access : PortAccess) :
    TransfersReady (accesses ++ [access]) ↔
      TransfersReady accesses ∧
        (access.isData = true → ∃ status ∈ lastStatus accesses, Ready status) := by
  constructor
  · intro ready
    refine ⟨?_, ready accesses access [] rfl⟩
    rintro before other after rfl
    exact ready before other (after ++ [access]) (by simp)
  · rintro ⟨ready, last⟩ before other after split
    rcases List.eq_nil_or_concat after with rfl | ⟨rest, final, rfl⟩
    · obtain ⟨rfl, same⟩ := List.append_inj' split rfl
      obtain rfl := List.head_eq_of_cons_eq same
      exact last
    · have longer : accesses ++ [access] = (before ++ other :: rest) ++ [final] := by
        simpa using split
      exact ready before other rest (List.append_inj' longer rfl).1

theorem Silent.refl (s : AtaRun) : Silent s s := ⟨[], by simp, by simp⟩

theorem Silent.trans {s s' s'' : AtaRun} (first : Silent s s') (second : Silent s' s'') :
    Silent s s'' := by
  obtain ⟨events, ran, silent⟩ := first
  obtain ⟨others, ran', silent'⟩ := second
  refine ⟨events ++ others, by rw [ran', ran, List.append_assoc], ?_⟩
  intro access member
  exact (List.mem_append.mp member).elim (silent access) (silent' access)

theorem Silent.access (s : AtaRun) {access : PortAccess} (silent : access.isData = false) :
    Silent s (s.access access) :=
  ⟨[access], rfl, by simpa using silent⟩

theorem Silent.outb {s s' : AtaRun} (silent : Silent s s') (port : BitVec 16) (value : Byte) :
    Silent s (s'.access (.outb port value)) :=
  silent.trans (Silent.access s' rfl)

theorem Silent.ready_iff {s s' : AtaRun} (silent : Silent s s') :
    TransfersReady s'.accesses ↔ TransfersReady s.accesses := by
  obtain ⟨events, ran, quiet⟩ := silent
  rw [ran]
  clear ran
  induction events using List.reverseRecOn with
  | nil => rw [List.append_nil]
  | append_singleton events access ih =>
      have last : access.isData = false := quiet access (by simp)
      rw [← List.append_assoc, transfersReady_snoc,
        ih fun other member => quiet other (List.mem_append_left _ member)]
      simp [last]

/-- Transfers of data are no status reads. -/
theorem statuses_data {events : List PortAccess}
    (data : ∀ access ∈ events, access.isData = true) :
    events.filterMap PortAccess.status? = [] := by
  rw [List.filterMap_eq_nil_iff]
  intro access member
  have transfer := data access member
  cases access with
  | inw port value => rfl
  | outw port value => rfl
  | wait port => cases transfer
  | status value => cases transfer
  | outb port value => cases transfer

theorem Moves.statuses {s s' : AtaRun} (moves : Moves s s') : s'.statuses = s.statuses := by
  obtain ⟨events, ran, -, data⟩ := moves
  rw [AtaRun.statuses, ran, List.filterMap_append, statuses_data data, List.append_nil,
    AtaRun.statuses]

theorem Moves.ready_iff {s s' : AtaRun} (moves : Moves s s') :
    TransfersReady s'.accesses ↔
      TransfersReady s.accesses ∧ ∃ status ∈ lastStatus s.accesses, Ready status := by
  obtain ⟨events, ran, some, data⟩ := moves
  rw [ran]
  clear ran
  induction events using List.reverseRecOn with
  | nil => exact absurd rfl some
  | append_singleton events access ih =>
      have last : access.isData = true := data access (by simp)
      have others : ∀ other ∈ events, other.isData = true := fun other member =>
        data other (List.mem_append_left _ member)
      have same : lastStatus (s.accesses ++ events) = lastStatus s.accesses := by
        rw [lastStatus, List.filterMap_append, statuses_data others, List.append_nil, lastStatus]
      rw [← List.append_assoc, transfersReady_snoc, same]
      cases events with
      | nil => simp [last]
      | cons first events =>
          rw [ih (by simp) others]
          simp [last]

/-! ## The parts of the driver -/

@[simp] theorem access_statuses (s : AtaRun) (access : PortAccess) :
    (s.access access).statuses = s.statuses ++ access.status?.toList := by
  cases access <;> simp [AtaRun.statuses, AtaRun.access, PortAccess.status?]

theorem lastStatus_eq (s : AtaRun) : lastStatus s.accesses = s.statuses.getLast? := rfl

theorem ataIoWait_silent (dev : AtaDevice) (s : AtaRun) : Silent s (ataIoWait dev s) :=
  (((Silent.access s rfl).trans (Silent.access _ rfl)).trans (Silent.access _ rfl)).trans
    (Silent.access _ rfl)

theorem ataIoWait_statuses (dev : AtaDevice) (s : AtaRun) :
    (ataIoWait dev s).statuses = s.statuses := by
  simp [ataIoWait, PortAccess.status?]

theorem ataPollBusy_spec (drive : AtaDrive) (turns : Nat) (s : AtaRun) :
    Silent s (ataPollBusy drive turns s) ∧
      (ataPollBusy drive turns s).statuses.length =
        s.statuses.length + busyTurns drive.status turns s.statuses.length := by
  induction turns generalizing s with
  | zero => exact ⟨.refl s, rfl⟩
  | succ turns ih =>
      have next : Silent s (inStatus drive s).2 := Silent.access s rfl
      have count : (inStatus drive s).2.statuses.length = s.statuses.length + 1 := by
        simp [inStatus, PortAccess.status?]
      rw [ataPollBusy, busyTurns]
      by_cases idle : drive.status s.statuses.length &&& ataSrBsy = 0
      · have here : (inStatus drive s).1 &&& ataSrBsy = 0 := idle
        rw [if_pos idle]
        simp only [here, ↓reduceIte]
        exact ⟨next, count⟩
      · have here : ¬ (inStatus drive s).1 &&& ataSrBsy = 0 := idle
        rw [if_neg idle]
        simp only [here, ↓reduceIte]
        obtain ⟨silent, read⟩ := ih (inStatus drive s).2
        refine ⟨next.trans silent, ?_⟩
        rw [read, count]
        omega

/-- **One poll.** It checks the value of its last status read. -/
theorem ataPoll_spec (drive : AtaDrive) (dev : AtaDevice) (checkError : Bool) (s : AtaRun) :
    Silent s (ataPoll drive dev checkError s).2 ∧
      (ataPoll drive dev checkError s).2.statuses.length =
        pollEnd drive.status s.statuses.length + 1 ∧
      lastStatus (ataPoll drive dev checkError s).2.accesses =
        some (drive.status (pollEnd drive.status s.statuses.length)) ∧
      (ataPoll drive dev checkError s).1 =
        ataCheck checkError (drive.status (pollEnd drive.status s.statuses.length)) := by
  obtain ⟨silent, count⟩ := ataPollBusy_spec drive ataTimeout (ataIoWait dev s)
  rw [ataIoWait_statuses] at count
  have final : Silent (ataPollBusy drive ataTimeout (ataIoWait dev s))
      ((ataPollBusy drive ataTimeout (ataIoWait dev s)).access
        (.status (drive.status (pollEnd drive.status s.statuses.length)))) := Silent.access _ rfl
  have value : inStatus drive (ataPollBusy drive ataTimeout (ataIoWait dev s)) =
      (drive.status (pollEnd drive.status s.statuses.length),
        (ataPollBusy drive ataTimeout (ataIoWait dev s)).access
          (.status (drive.status (pollEnd drive.status s.statuses.length)))) := by
    rw [inStatus, count, pollEnd]
  simp only [ataPoll, value, lastStatus_eq]
  refine ⟨((ataIoWait_silent dev s).trans silent).trans final, ?_, ?_, trivial⟩
  · simp [PortAccess.status?, count, pollEnd]
  · simp [PortAccess.status?]

theorem insw_moves (drive : AtaDrive) (port : BitVec 16) (count buffer : Nat) (s : AtaRun) :
    Moves s (insw drive port (count + 1) buffer s) := by
  induction count generalizing buffer s with
  | zero =>
      exact ⟨[.inw port (drive.data s.words.length)], rfl, by simp, by simp [PortAccess.isData]⟩
  | succ count ih =>
      rw [insw]
      obtain ⟨events, ran, -, data⟩ := ih (buffer + 2) _
      exact ⟨.inw port (drive.data s.words.length) :: events, by
        rw [ran]; simp [AtaRun.access], by simp, by simpa [PortAccess.isData] using data⟩

theorem outsw_moves (port : BitVec 16) (count buffer : Nat) (s : AtaRun) :
    Moves s (outsw port (count + 1) buffer s) := by
  induction count generalizing buffer s with
  | zero =>
      exact ⟨[.outw port (BitVec.ofNat 16 (s.memory.readLE buffer 2))], rfl, by simp,
        by simp [PortAccess.isData]⟩
  | succ count ih =>
      rw [outsw]
      obtain ⟨events, ran, -, data⟩ := ih (buffer + 2) _
      exact ⟨.outw port (BitVec.ofNat 16 (s.memory.readLE buffer 2)) :: events, by
        rw [ran]; simp [AtaRun.access], by simp, by simpa [PortAccess.isData] using data⟩

theorem ataCommand_silent (dev : AtaDevice) (lba : BitVec 64)
    (sectorCount command commandExt : Byte) (s : AtaRun) :
    Silent s (ataCommand dev lba sectorCount command commandExt s) ∧
      (ataCommand dev lba sectorCount command commandExt s).statuses = s.statuses := by
  cases wide : useLba48 dev lba
  · simp only [ataCommand, wide, Bool.false_eq_true, ↓reduceIte]
    constructor
    · repeat apply Silent.outb
      exact .refl s
    · simp [PortAccess.status?]
  · simp only [ataCommand, wide, ↓reduceIte]
    constructor
    · repeat apply Silent.outb
      exact .refl s
    · simp [PortAccess.status?]

theorem ataCheck_true_iff (status : Byte) :
    ataCheck true status = true ↔ NoError status ∧ status &&& ataSrDrq ≠ 0 := by
  rw [ataCheck]
  split
  · next err => exact ⟨Bool.noConfusion, fun ready => absurd ready.1.err err⟩
  · next err =>
      split
      · next df => exact ⟨Bool.noConfusion, fun ready => absurd ready.1.df df⟩
      · next df =>
          split
          · next drq => exact ⟨Bool.noConfusion, fun ready => absurd drq.2 ready.2⟩
          · next drq =>
              exact ⟨fun _ => ⟨⟨not_not.mp err, not_not.mp df⟩, fun none => drq ⟨rfl, none⟩⟩,
                fun _ => rfl⟩

/-- **The sectors.** The loop gets to its end when every poll passes its check, and then every
transfer found the drive ready if the checked values say so. -/
theorem ataSectors_spec (drive : AtaDrive) (dev : AtaDevice) {move : Nat → AtaRun → AtaRun}
    (moves : ∀ buffer s, Moves s (move buffer s)) (count buffer : Nat) (s : AtaRun) :
    let values := polledValues drive.status count s.statuses.length
    let run := ataSectors drive dev move count buffer s
    (run.1 = true ↔ ∀ status ∈ values, ataCheck true status = true) ∧
      (run.1 = true → (TransfersReady run.2.accesses ↔
        TransfersReady s.accesses ∧ ∀ status ∈ values, Ready status) ∧
        run.2.statuses.length = pollsEnd drive.status count s.statuses.length) := by
  induction count generalizing buffer s with
  | zero => simp [polledValues, ataSectors, pollsEnd]
  | succ count ih =>
      obtain ⟨silent, read, last, check⟩ := ataPoll_spec drive dev true s
      have moved := moves buffer (ataPoll drive dev true s).2
      obtain ⟨whole, outcome⟩ :=
        ih (buffer + ataSectorSize) (move buffer (ataPoll drive dev true s).2)
      rw [moved.statuses, read] at whole outcome
      have seen : TransfersReady (move buffer (ataPoll drive dev true s).2).accesses ↔
          TransfersReady s.accesses ∧
            Ready (drive.status (pollEnd drive.status s.statuses.length)) := by
        rw [moved.ready_iff, silent.ready_iff, last]
        simp
      simp only [polledValues, pollsEnd, List.forall_mem_cons, ataSectors, check]
      cases passed : ataCheck true (drive.status (pollEnd drive.status s.statuses.length))
      · simp
      · simp only [Bool.not_true, Bool.false_eq_true, ↓reduceIte, true_and]
        refine ⟨whole, fun finished => ?_⟩
        obtain ⟨ready, count⟩ := outcome finished
        exact ⟨by rw [ready, seen, and_assoc], count⟩

/-! ## Transfers -/

/-- A call of `ata_pio_read` with its target or of `ata_pio_write` with its source. -/
inductive AtaTransfer where
  | read (target : Nat)
  | write (source : Nat)

/-- The call, on memory as it is. -/
def AtaTransfer.run (transfer : AtaTransfer) (drive : AtaDrive) (dev : AtaDevice)
    (lba : BitVec 64) (sectorCount : Byte) (memory : Memory) : Bool × AtaRun :=
  match transfer with
  | .read target => ataPioRead drive dev lba sectorCount target ⟨memory, []⟩
  | .write source => ataPioWrite drive dev lba sectorCount source ⟨memory, []⟩

/-- The call returns true only if every sector was transferred with the drive ready and, for
a write, the flush ended well. -/
def AtaTransfer.Reports (transfer : AtaTransfer) (drive : AtaDrive) (dev : AtaDevice)
    (lba : BitVec 64) (sectorCount : Byte) (memory : Memory) : Prop :=
  let (result, s) := transfer.run drive dev lba sectorCount memory
  result = true → TransfersReady s.accesses ∧
    match transfer with
    | .read _ => True
    | .write _ => EndsWell s.accesses

/-- When the status values checked before the sectors show no error and a request for data,
none of them is busy, and for a write neither is the value checked after the flush, which
shows no error. -/
def AtaTransfer.StatusTells (transfer : AtaTransfer) (status : Nat → Byte) (count : Nat) : Prop :=
  (∀ value ∈ polledValues status count 0, NoError value ∧ value &&& ataSrDrq ≠ 0) →
    (∀ value ∈ polledValues status count 0, value &&& ataSrBsy = 0) ∧
      match transfer with
      | .read _ => True
      | .write _ =>
          let value := status (pollEnd status (pollsEnd status count 0))
          value &&& ataSrBsy = 0 ∧ NoError value

/-- A read returns true when every poll passes, and then its transfers are as the values
checked. -/
theorem ataPioRead_spec (drive : AtaDrive) (dev : AtaDevice) (lba : BitVec 64)
    (sectorCount : Byte) (target : Nat) (memory : Memory) :
    let values := polledValues drive.status sectorCount.toNat 0
    let run := ataPioRead drive dev lba sectorCount target ⟨memory, []⟩
    (run.1 = true ↔ ∀ value ∈ values, ataCheck true value = true) ∧
      (run.1 = true → (TransfersReady run.2.accesses ↔ ∀ value ∈ values, Ready value)) := by
  obtain ⟨silent, none⟩ := ataCommand_silent dev lba sectorCount ataCmdReadPio ataCmdReadPioExt
    ⟨memory, []⟩
  obtain ⟨whole, outcome⟩ := ataSectors_spec drive dev
    (insw_moves drive (dev.ioBase + ataRegData) 255) sectorCount.toNat target
    (ataCommand dev lba sectorCount ataCmdReadPio ataCmdReadPioExt ⟨memory, []⟩)
  rw [none] at whole outcome
  refine ⟨whole, fun finished => ?_⟩
  have ready := (outcome finished).1
  rw [silent.ready_iff] at ready
  exact ready.trans (and_iff_right transfersReady_nil)

/-- So does a write, whatever the flush ends with. -/
theorem ataPioWrite_spec (drive : AtaDrive) (dev : AtaDevice) (lba : BitVec 64)
    (sectorCount : Byte) (source : Nat) (memory : Memory) :
    let values := polledValues drive.status sectorCount.toNat 0
    let run := ataPioWrite drive dev lba sectorCount source ⟨memory, []⟩
    (run.1 = true ↔ ∀ value ∈ values, ataCheck true value = true) ∧
      (run.1 = true → (TransfersReady run.2.accesses ↔ ∀ value ∈ values, Ready value) ∧
        lastStatus run.2.accesses = some (drive.status
          (pollEnd drive.status (pollsEnd drive.status sectorCount.toNat 0)))) := by
  have moves : ∀ buffer s, Moves s (outsw (dev.ioBase + ataRegData) (ataSectorSize / 2) buffer s) :=
    outsw_moves (dev.ioBase + ataRegData) 255
  obtain ⟨silent, none⟩ := ataCommand_silent dev lba sectorCount ataCmdWritePio
    ataCmdWritePioExt ⟨memory, []⟩
  obtain ⟨whole, outcome⟩ := ataSectors_spec drive dev moves sectorCount.toNat source
    (ataCommand dev lba sectorCount ataCmdWritePio ataCmdWritePioExt ⟨memory, []⟩)
  have start : (⟨memory, []⟩ : AtaRun).statuses.length = 0 := rfl
  rw [none, start] at whole outcome
  simp only [ataPioWrite]
  generalize ataSectors drive dev (outsw (dev.ioBase + ataRegData) (ataSectorSize / 2))
    sectorCount.toNat source
    (ataCommand dev lba sectorCount ataCmdWritePio ataCmdWritePioExt ⟨memory, []⟩) = sectors
    at whole outcome ⊢
  obtain ⟨written, s⟩ := sectors
  cases written with
  | false =>
      simp only [Bool.not_false, ↓reduceIte]
      exact ⟨whole, fun finished => by cases finished⟩
  | true =>
      simp only [Bool.not_true, Bool.false_eq_true, ↓reduceIte]
      refine ⟨by simpa using whole, fun _ => ?_⟩
      obtain ⟨ready, count⟩ := outcome rfl
      have flushed := (Silent.refl s).outb (dev.ioBase + ataRegCommand)
        (if useLba48 dev lba then ataCmdCacheFlushExt else ataCmdCacheFlush)
      obtain ⟨polled, -, last, -⟩ := ataPoll_spec drive dev false (s.access
        (.outb (dev.ioBase + ataRegCommand)
          (if useLba48 dev lba then ataCmdCacheFlushExt else ataCmdCacheFlush)))
      constructor
      · rw [polled.ready_iff, flushed.ready_iff, ready, silent.ready_iff]
        exact and_iff_right transfersReady_nil
      · rw [last, access_statuses]
        simp only [PortAccess.status?, Option.toList_none, List.append_nil, count]

/-- A value passes the check of a sector's poll and is not busy when it is ready. -/
theorem ready_iff (value : Byte) :
    Ready value ↔ ataCheck true value = true ∧ value &&& ataSrBsy = 0 := by
  rw [ataCheck_true_iff]
  constructor
  · intro ready
    exact ⟨⟨ready.toNoError, ready.drq⟩, ready.bsy⟩
  · rintro ⟨⟨noError, drq⟩, bsy⟩
    exact { noError with bsy, drq }

/-- Values that pass are all ready exactly when none of them is busy. -/
theorem all_ready_iff {values : List Byte} (passed : ∀ value ∈ values, ataCheck true value = true) :
    (∀ value ∈ values, Ready value) ↔ ∀ value ∈ values, value &&& ataSrBsy = 0 := by
  constructor
  · intro ready value member
    exact (ready value member).bsy
  · intro idle value member
    exact (ready_iff value).mpr ⟨passed value member, idle value member⟩

/-- **Transfers report failure** if and only if the status values tell: whenever the values
checked before the sectors pass, none of them is busy, and for a write the value that the
flush ends with is neither busy nor one of an error. -/
theorem ataTransfer_reports_iff (transfer : AtaTransfer) (drive : AtaDrive) (dev : AtaDevice)
    (lba : BitVec 64) (sectorCount : Byte) (memory : Memory) :
    transfer.Reports drive dev lba sectorCount memory ↔
      transfer.StatusTells drive.status sectorCount.toNat := by
  cases transfer with
  | read target =>
      obtain ⟨whole, outcome⟩ := ataPioRead_spec drive dev lba sectorCount target memory
      simp only [AtaTransfer.Reports, AtaTransfer.run, AtaTransfer.StatusTells, and_true,
        ← ataCheck_true_iff]
      constructor
      · intro reports passed
        have finished := whole.mpr passed
        exact (all_ready_iff passed).mp ((outcome finished).mp (reports finished))
      · intro tells finished
        have passed := whole.mp finished
        exact (outcome finished).mpr ((all_ready_iff passed).mpr (tells passed))
  | write source =>
      obtain ⟨whole, outcome⟩ := ataPioWrite_spec drive dev lba sectorCount source memory
      simp only [AtaTransfer.Reports, AtaTransfer.run, AtaTransfer.StatusTells,
        ← ataCheck_true_iff]
      constructor
      · intro reports passed
        have finished := whole.mpr passed
        obtain ⟨ready, last⟩ := outcome finished
        obtain ⟨transfers, value, member, ends⟩ := reports finished
        rw [last] at member
        obtain rfl := Option.some.inj member
        exact ⟨(all_ready_iff passed).mp (ready.mp transfers), ends⟩
      · intro tells finished
        have passed := whole.mp finished
        obtain ⟨ready, last⟩ := outcome finished
        obtain ⟨idle, ends⟩ := tells passed
        exact ⟨ready.mpr ((all_ready_iff passed).mpr idle), _, last, ends⟩

/-- A poll that finds the drive idle reads the status once more. -/
theorem pollEnd_idle {status : Nat → Byte} {start : Nat} (idle : status start &&& ataSrBsy = 0) :
    pollEnd status start = start + 1 := by
  have turns : ataTimeout = 1999999 + 1 := rfl
  rw [pollEnd, turns, busyTurns, if_pos idle]

/-- A drive that stays busy and requests data. -/
def busyDrive : AtaDrive := ⟨fun _ => 0x88, fun _ => 0⟩

/-- A drive that is ready for one sector and then reports an error and a fault. -/
def faultyDrive : AtaDrive := ⟨fun n => if n < 2 then 0x08 else 0x21, fun _ => 0⟩

/-- Reading a sector from a drive that stays busy succeeds when the time is over, and so does
writing one to a drive that fails in the flush. -/
theorem busyDrive_read_faultyDrive_write :
    ¬ (AtaTransfer.read 0).Reports busyDrive gAta0 0 1 (fun _ => 0) ∧
      ¬ (AtaTransfer.write 0).Reports faultyDrive gAta0 0 1 (fun _ => 0) := by
  constructor
  · intro reports
    obtain ⟨whole, outcome⟩ := ataPioRead_spec busyDrive gAta0 0 1 0 (fun _ => 0)
    have values : polledValues busyDrive.status (1 : Byte).toNat 0 = [0x88] := rfl
    rw [values] at whole outcome
    have finished := whole.mpr (by decide)
    have ready := (outcome finished).mp (reports finished).1 0x88 (by decide)
    exact absurd ready.bsy (by decide)
  · intro reports
    obtain ⟨whole, outcome⟩ := ataPioWrite_spec faultyDrive gAta0 0 1 0 (fun _ => 0)
    have first : pollEnd faultyDrive.status 0 = 1 := pollEnd_idle (by decide)
    have flush : pollEnd faultyDrive.status 2 = 3 := pollEnd_idle (by decide)
    have values : polledValues faultyDrive.status (1 : Byte).toNat 0 = [0x08] := by
      change [faultyDrive.status (pollEnd faultyDrive.status 0)] = [0x08]
      rw [first]
      rfl
    have ends : pollEnd faultyDrive.status
        (pollsEnd faultyDrive.status (1 : Byte).toNat 0) = 3 := by
      change pollEnd faultyDrive.status (pollEnd faultyDrive.status 0 + 1) = 3
      rw [first, flush]
    rw [values] at whole outcome
    rw [ends] at outcome
    have finished := whole.mpr (by decide)
    obtain ⟨-, value, member, -, noError⟩ := reports finished
    have last : lastStatus (ataPioWrite faultyDrive gAta0 0 1 0 ⟨fun _ => 0, []⟩).2.accesses =
        some 0x21 := (outcome finished).2
    obtain rfl : 0x21 = value := Option.some.inj (last.symm.trans member)
    exact absurd noError.err (by decide)

end NTux.Drivers
