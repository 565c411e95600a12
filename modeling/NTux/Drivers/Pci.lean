import NTux.Foundation.Memory
import NTux.Foundation.Bits

/-! # PCI configuration space

`drivers/pci/pci.c` reads and writes configuration space through two ports: the address
register 0xCF8 selects a register of 32 bits, and the data register 0xCFC reads or writes all
of it. The port operations are a parameter of which this is assumed (`Mechanism`).

`pci_read_field` takes a field out of the register. `pci_write_field` ignores the size of
the field and writes the whole register (`fieldWritten_iff`).
-/

namespace NTux.Drivers

open NTux.Foundation

/-! ## The ports -/

/-- `outportl` and `inportl`, on whatever the machine is. -/
structure PortOps (Machine : Type) where
  outportl : Nat → BitVec 32 → Machine → Machine
  inportl : Nat → Machine → BitVec 32 × Machine

/-- `PCI_CONFIG_ADDRESS`. -/
def pciConfigAddress : Nat := 0xCF8

/-- `PCI_CONFIG_DATA`. -/
def pciConfigData : Nat := 0xCFC

/-- The address register and the bytes of configuration space: 256 for each function, eight
functions for each device, 32 devices for each bus. -/
structure ConfigView where
  address : BitVec 32
  config : Memory

/-- Bit 31 of an address enables the mechanism. -/
def enabled (address : BitVec 32) : Prop := 2 ^ 31 ≤ address.toNat

/-- The first byte of the register that an address selects. -/
def selected (address : BitVec 32) : Nat := address.toNat % 2 ^ 24 / 4 * 4

/-- **The mechanism.** The ports 0xCF8 and 0xCFC, seen through a view of the machine. -/
structure Mechanism {Machine : Type} (ports : PortOps Machine) (view : Machine → ConfigView) :
    Prop where
  address : ∀ value machine,
    view (ports.outportl pciConfigAddress value machine) =
      { view machine with address := value }
  write : ∀ value machine, enabled (view machine).address →
    view (ports.outportl pciConfigData value machine) =
      { view machine with
        config := (view machine).config.writeLE (selected (view machine).address) 4 value.toNat }
  read : ∀ machine, enabled (view machine).address →
    (ports.inportl pciConfigData machine).1 =
      BitVec.ofNat 32 ((view machine).config.readLE (selected (view machine).address) 4)

/-! ## The driver -/

/-- `pci_get_address`. -/
def pciGetAddress (bus device function offset : BitVec 32) : BitVec 32 :=
  ((1 : BitVec 32) <<< 31) ||| (bus <<< 16) ||| (device <<< 11) ||| (function <<< 8) |||
    (offset &&& 0xFC)

section Fields

variable {Machine : Type} (ports : PortOps Machine)

/-- `pci_read_field`. -/
def pciReadField (bus device function offset size : BitVec 32) (machine : Machine) :
    BitVec 32 × Machine :=
  let address := pciGetAddress bus device function offset
  let machine := ports.outportl pciConfigAddress address machine
  let (data, machine) := ports.inportl pciConfigData machine
  (if size = 1 then (data >>> ((offset &&& 3) * 8)) &&& 0xFF
    else if size = 2 then (data >>> ((offset &&& 2) * 8)) &&& 0xFFFF
    else data, machine)

/-- `pci_write_field`, which does not look at the size. -/
def pciWriteField (bus device function offset _size value : BitVec 32) (machine : Machine) :
    Machine :=
  let address := pciGetAddress bus device function offset
  let machine := ports.outportl pciConfigAddress address machine
  ports.outportl pciConfigData value machine

end Fields

/-! ## Fields -/

/-- A field of a function's configuration space. -/
structure PciField where
  bus : BitVec 32
  device : BitVec 32
  function : BitVec 32
  offset : BitVec 32
  size : BitVec 32
  bus_lt : bus.toNat < 256
  device_lt : device.toNat < 32
  function_lt : function.toNat < 8
  offset_lt : offset.toNat < 256
  sized : size = 1 ∨ size = 2 ∨ size = 4
  aligned : offset.toNat % size.toNat = 0

namespace PciField

/-- The first byte of the register that the field lies in. -/
def register (field : PciField) : Nat :=
  field.bus.toNat * 2 ^ 16 + field.device.toNat * 2 ^ 11 + field.function.toNat * 2 ^ 8 +
    field.offset.toNat / 4 * 4

/-- The place of the field in its register. -/
def lane (field : PciField) : Nat := field.offset.toNat % 4

/-- The bytes of the field. -/
def bytes (field : PciField) : Set Nat :=
  Memory.block (field.register + field.lane) field.size.toNat

variable (field : PciField)

theorem lane_size : field.lane + field.size.toNat ≤ 4 := by
  have aligned := field.aligned
  rw [lane]
  rcases field.sized with one | two | four
  · have size : field.size.toNat = 1 := by rw [one]; rfl
    omega
  · have size : field.size.toNat = 2 := by rw [two]; rfl
    rw [size] at aligned
    omega
  · have size : field.size.toNat = 4 := by rw [four]; rfl
    rw [size] at aligned
    omega

end PciField

theorem shiftLeft_toNat {x : BitVec 32} (bits width : Nat) (small : x.toNat < 2 ^ width)
    (room : width + bits ≤ 32) : (x <<< bits).toNat = x.toNat * 2 ^ bits := by
  rw [BitVec.toNat_shiftLeft, Nat.shiftLeft_eq, Nat.mod_eq_of_lt]
  calc x.toNat * 2 ^ bits < 2 ^ width * 2 ^ bits :=
        Nat.mul_lt_mul_of_pos_right small (Nat.two_pow_pos _)
    _ = 2 ^ (width + bits) := (Nat.pow_add ..).symm
    _ ≤ 2 ^ 32 := Nat.pow_le_pow_right (by decide) room

/-- Clearing the two low bits of an offset. -/
theorem and_word {n : Nat} (small : n < 256) : n &&& 0xFC = n / 4 * 4 := by
  have mask : 0xFC = 2 ^ 8 - 1 &&& 2 ^ 64 - 2 ^ 2 := by decide
  have whole : n < 2 ^ 64 := small.trans (by decide)
  have byte : n % 2 ^ 8 = n := Nat.mod_eq_of_lt small
  rw [mask, ← Nat.and_assoc, Nat.and_two_pow_sub_one_eq_mod, byte]
  exact land_highMask whole (by decide)

/-- The place of an aligned field of two bytes. -/
theorem and_half {n : Nat} (even : n % 2 = 0) : n &&& 2 = n % 4 := by
  have mask : 2 = 2 ^ 2 - 1 &&& 2 := by decide
  rw [mask, ← Nat.and_assoc, Nat.and_two_pow_sub_one_eq_mod]
  obtain lower | upper : n % 2 ^ 2 = 0 ∨ n % 2 ^ 2 = 2 := by omega
  · rw [lower]
    exact lower.symm
  · rw [upper]
    exact upper.symm

/-- The address has a part for each of its arguments. -/
theorem pciGetAddress_toNat (field : PciField) :
    (pciGetAddress field.bus field.device field.function field.offset).toNat =
      2 ^ 31 + field.register := by
  have bus := field.bus_lt
  have device := field.device_lt
  have function := field.function_lt
  have offset := field.offset_lt
  have enable : ((1 : BitVec 32) <<< 31).toNat = 1 * 2 ^ 31 := by decide
  have word : (field.offset &&& 0xFC).toNat = field.offset.toNat / 4 * 4 :=
    (BitVec.toNat_and ..).trans (and_word offset)
  have withBus : 1 * 2 ^ 31 ||| field.bus.toNat * 2 ^ 16 = (2 ^ 15 + field.bus.toNat) * 2 ^ 16 := by
    rw [lor_low (by omega)]
    omega
  have withDevice : (2 ^ 15 + field.bus.toNat) * 2 ^ 16 ||| field.device.toNat * 2 ^ 11 =
      ((2 ^ 15 + field.bus.toNat) * 2 ^ 5 + field.device.toNat) * 2 ^ 11 := by
    rw [lor_low (by omega)]
    omega
  have withFunction : ((2 ^ 15 + field.bus.toNat) * 2 ^ 5 + field.device.toNat) * 2 ^ 11 |||
      field.function.toNat * 2 ^ 8 = (((2 ^ 15 + field.bus.toNat) * 2 ^ 5 + field.device.toNat) *
        2 ^ 3 + field.function.toNat) * 2 ^ 8 := by
    rw [lor_low (by omega)]
    omega
  rw [pciGetAddress, BitVec.toNat_or, BitVec.toNat_or, BitVec.toNat_or, BitVec.toNat_or, enable,
    shiftLeft_toNat 16 8 bus (by decide), shiftLeft_toNat 11 5 device (by decide),
    shiftLeft_toNat 8 3 function (by decide), word, withBus, withDevice, withFunction,
    lor_low (by omega), PciField.register]
  omega

theorem pciGetAddress_enabled (field : PciField) :
    enabled (pciGetAddress field.bus field.device field.function field.offset) := by
  rw [enabled, pciGetAddress_toNat]
  exact Nat.le_add_right _ _

theorem pciGetAddress_selected (field : PciField) :
    selected (pciGetAddress field.bus field.device field.function field.offset) =
      field.register := by
  have bus := field.bus_lt
  have device := field.device_lt
  have function := field.function_lt
  have offset := field.offset_lt
  rw [selected, pciGetAddress_toNat, PciField.register]
  omega

/-! ## Writing and reading back -/

section Access

variable {Machine : Type} {ports : PortOps Machine} {view : Machine → ConfigView}

/-- `pci_write_field` of a field. -/
def PciField.write (ports : PortOps Machine) (field : PciField) (value : BitVec 32)
    (machine : Machine) : Machine :=
  pciWriteField ports field.bus field.device field.function field.offset field.size value machine

/-- `pci_read_field` of a field. -/
def PciField.read (ports : PortOps Machine) (field : PciField) (machine : Machine) : BitVec 32 :=
  (pciReadField ports field.bus field.device field.function field.offset field.size machine).1

/-- A write stores all of the value in the register. -/
theorem PciField.write_config (mechanism : Mechanism ports view) (field : PciField)
    (value : BitVec 32) (machine : Machine) :
    (view (field.write ports value machine)).config =
      (view machine).config.writeLE field.register 4 value.toNat := by
  have address := mechanism.address
    (pciGetAddress field.bus field.device field.function field.offset) machine
  have on : enabled (view (ports.outportl pciConfigAddress
      (pciGetAddress field.bus field.device field.function field.offset) machine)).address := by
    rw [address]
    exact pciGetAddress_enabled field
  rw [write, pciWriteField, mechanism.write _ _ on, address]
  exact congrArg (fun base => (view machine).config.writeLE base 4 value.toNat)
    (pciGetAddress_selected field)

/-- The bytes of a register from its lane on. -/
theorem lane_value {data : BitVec 32} {amount : BitVec 32} {lane : Nat}
    (shift : amount.toNat = lane * 8) : (data >>> amount).toNat = data.toNat / 256 ^ lane := by
  rw [BitVec.ushiftRight_eq', BitVec.toNat_ushiftRight, shift, Nat.shiftRight_eq_div_pow,
    Nat.mul_comm, Nat.pow_mul]

/-- What `pci_read_field` computes from the register. -/
def PciField.extract (field : PciField) (data : BitVec 32) : BitVec 32 :=
  if field.size = 1 then (data >>> ((field.offset &&& 3) * 8)) &&& 0xFF
  else if field.size = 2 then (data >>> ((field.offset &&& 2) * 8)) &&& 0xFFFF
  else data

theorem PciField.extract_toNat (field : PciField) (data : BitVec 32) :
    (field.extract data).toNat = data.toNat / 256 ^ field.lane % 256 ^ field.size.toNat := by
  have aligned := field.aligned
  have low : (field.offset &&& 3).toNat = field.lane :=
    (BitVec.toNat_and ..).trans (Nat.and_two_pow_sub_one_eq_mod _ 2)
  have lane : field.lane < 4 := Nat.mod_lt _ (by decide)
  rw [extract]
  rcases field.sized with one | two | four
  · have shift : ((field.offset &&& 3) * 8).toNat = field.lane * 8 := by
      rw [BitVec.toNat_mul, low]
      exact Nat.mod_eq_of_lt (by change field.lane * 8 < _; omega)
    rw [one, if_pos rfl, BitVec.toNat_and, lane_value shift]
    exact Nat.and_two_pow_sub_one_eq_mod _ 8
  · have size : field.size.toNat = 2 := by rw [two]; rfl
    rw [size] at aligned
    have half : (field.offset &&& 2).toNat = field.lane :=
      (BitVec.toNat_and ..).trans (and_half aligned)
    have shift : ((field.offset &&& 2) * 8).toNat = field.lane * 8 := by
      rw [BitVec.toNat_mul, half]
      exact Nat.mod_eq_of_lt (by change field.lane * 8 < _; omega)
    rw [two, if_neg (by decide), if_pos rfl, BitVec.toNat_and, lane_value shift]
    exact Nat.and_two_pow_sub_one_eq_mod _ 16
  · have size : field.size.toNat = 4 := by rw [four]; rfl
    rw [size] at aligned
    have start : field.lane = 0 := aligned
    rw [four, if_neg (by decide), if_neg (by decide), start, Nat.pow_zero, Nat.div_one]
    exact (Nat.mod_eq_of_lt data.isLt).symm

/-- A read takes the field out of the register. -/
theorem PciField.read_toNat (mechanism : Mechanism ports view) (field : PciField)
    (machine : Machine) :
    (field.read ports machine).toNat =
      (view machine).config.readLE field.register 4 / 256 ^ field.lane %
        256 ^ field.size.toNat := by
  have address := mechanism.address
    (pciGetAddress field.bus field.device field.function field.offset) machine
  have on : enabled (view (ports.outportl pciConfigAddress
      (pciGetAddress field.bus field.device field.function field.offset) machine)).address := by
    rw [address]
    exact pciGetAddress_enabled field
  have data := mechanism.read _ on
  rw [address, pciGetAddress_selected] at data
  have bound : (view machine).config.readLE field.register 4 < 2 ^ 32 := Memory.readLE_lt ..
  have extracted : field.read ports machine =
      field.extract (BitVec.ofNat 32 ((view machine).config.readLE field.register 4)) := by
    rw [← data]
    rfl
  rw [extracted, extract_toNat, BitVec.toNat_ofNat, Nat.mod_eq_of_lt bound]

/-- **Write then read.** The field reads back as the value, as far as it has room for it, and
every other byte of configuration space is as before. -/
structure FieldWritten (ports : PortOps Machine) (view : Machine → ConfigView) (field : PciField)
    (value : BitVec 32) (machine : Machine) : Prop where
  readBack : (field.read ports (field.write ports value machine)).toNat =
    value.toNat % 2 ^ (8 * field.size.toNat)
  others : ∀ address ∉ field.bytes,
    (view (field.write ports value machine)).config address = (view machine).config address

/-- The value has its own low bytes at the place of the field in the register, and the
register's bytes at the other places. -/
structure WholeRegister (config : Memory) (field : PciField) (value : BitVec 32) : Prop where
  inside : value.toNat / 256 ^ field.lane % 256 ^ field.size.toNat =
    value.toNat % 256 ^ field.size.toNat
  outside : ∀ offset < 4, offset < field.lane ∨ field.lane + field.size.toNat ≤ offset →
    BitVec.ofNat 8 (value.toNat / 256 ^ offset) = config (field.register + offset)

/-- A field is written as it should be if and only if the value is right for the whole
register. -/
theorem fieldWritten_iff (mechanism : Mechanism ports view) (field : PciField) (value : BitVec 32)
    (machine : Machine) :
    FieldWritten ports view field value machine ↔
      WholeRegister (view machine).config field value := by
  have stored := field.write_config mechanism value machine
  have fits := field.lane_size
  have bound : value.toNat % 256 ^ 4 = value.toNat := Nat.mod_eq_of_lt value.isLt
  have modulus : 2 ^ (8 * field.size.toNat) = 256 ^ field.size.toNat := Nat.pow_mul ..
  have back : (field.read ports (field.write ports value machine)).toNat =
      value.toNat / 256 ^ field.lane % 256 ^ field.size.toNat := by
    rw [field.read_toNat mechanism, stored, Memory.readLE_writeLE, bound]
  constructor
  · intro written
    constructor
    · rw [← back, written.readBack, modulus]
    · intro offset inRegister apart
      have other := written.others (field.register + offset) fun inField => by
        have := inField.1
        have := inField.2
        omega
      rw [stored, Memory.writeLE, Memory.store_at _ _ inRegister] at other
      exact other
  · intro whole
    constructor
    · rw [back, whole.inside, modulus]
    · intro address apart
      rw [stored]
      by_cases inRegister : address ∈ Memory.block field.register 4
      · obtain ⟨offset, rfl⟩ : ∃ offset, address = field.register + offset :=
          ⟨address - field.register, by have := inRegister.1; omega⟩
        have inside : offset < 4 := by
          have := inRegister.2
          omega
        rw [Memory.writeLE, Memory.store_at _ _ inside]
        apply whole.outside offset inside
        by_contra inField
        exact apart ⟨by omega, by omega⟩
      · exact Memory.store_of_notMem _ _ inRegister

/-- A field of the size of a register is always written as it should be. -/
theorem WholeRegister.of_four (config : Memory) {field : PciField} (whole : field.size = 4)
    (value : BitVec 32) : WholeRegister config field value := by
  have size : field.size.toNat = 4 := by rw [whole]; rfl
  have start : field.lane = 0 := by
    have := field.lane_size
    omega
  constructor
  · rw [start, Nat.pow_zero, Nat.div_one]
  · intro offset inside apart
    omega

end Access

/-! ## A machine of the mechanism alone -/

/-- Port operations on the two registers. -/
def configPorts : PortOps ConfigView where
  outportl port value machine :=
    if port = pciConfigAddress then { machine with address := value }
    else if port = pciConfigData ∧ machine.address.msb then
      { machine with config := machine.config.writeLE (selected machine.address) 4 value.toNat }
    else machine
  inportl port machine :=
    if port = pciConfigData ∧ machine.address.msb then
      (BitVec.ofNat 32 (machine.config.readLE (selected machine.address) 4), machine)
    else (BitVec.allOnes 32, machine)

theorem configPorts_mechanism : Mechanism configPorts id where
  address _ _ := by simp [configPorts]
  write value machine on := by
    have bit : machine.address.msb = true := by
      rw [BitVec.msb_eq_decide]
      exact decide_eq_true on
    simp [configPorts, bit, pciConfigAddress, pciConfigData]
  read machine on := by
    have bit : machine.address.msb = true := by
      rw [BitVec.msb_eq_decide]
      exact decide_eq_true on
    simp [configPorts, bit]

/-- The command register of the first function. -/
def commandField : PciField where
  bus := 0
  device := 0
  function := 0
  offset := 4
  size := 2
  bus_lt := by decide
  device_lt := by decide
  function_lt := by decide
  offset_lt := by decide
  sized := .inr (.inl rfl)
  aligned := rfl

/-- Writing the command register clears the status register behind it. -/
theorem commandField_clobbers :
    ¬ FieldWritten configPorts id commandField 7
      ⟨0, fun address => if address = 6 then 0x10 else 0⟩ := by
  intro written
  have status := written.others 6 (by rintro ⟨-, high⟩; exact absurd high (by decide))
  revert status
  decide

/-- Writing it where the status register is zero. -/
theorem commandField_written : FieldWritten configPorts id commandField 7 ⟨0, fun _ => 0⟩ := by
  refine (fieldWritten_iff configPorts_mechanism commandField 7 ⟨0, fun _ => 0⟩).mpr
    ⟨by decide, ?_⟩
  intro offset inside apart
  have lane : commandField.lane = 0 := rfl
  have size : commandField.size.toNat = 2 := rfl
  obtain rfl | rfl : offset = 2 ∨ offset = 3 := by omega
  · decide
  · decide

end NTux.Drivers
