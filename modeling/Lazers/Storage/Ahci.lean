import Lazers.Storage.Hba
import Mathlib.Tactic.IntervalCases

/-!
# The AHCI driver (`storage/ahci.rs`)

The driver takes the first port with a disk, stops it, gives it a command list and a place for what
the disk sends, and starts it. A sector is read with one command in slot 0: the header, the table
with the FIS and the one piece of memory to read to are written, the command is issued, and the
driver polls until the slot is free or the disk reports an error. Every loop gives up at some time.

The controller is any that conforms, and does a step of its own before each access to a register.

- `reads_after_initialize`: after `initialize`, the sectors that are read are those of the disk,
  until the first error.
- `task_file_error_is_final`: the driver does not start the port again after an error of the disk,
  so that nothing is read any more.
-/

namespace Lazers.Storage

open Memory

/-! ## The driver -/

def sataStatusDevicePresent : BitVec 32 := 0x3
def sataStatusInterfaceActive : BitVec 32 := 0x1
def sataSignatureAta : BitVec 32 := 0x00000101
def ataCommandReadDmaExt : UInt8 := 0x25
def fisTypeRegH2d : UInt8 := 0x27

/-- The bound of the loops: they give up with the poll after this many. -/
def maxSpins : Nat := 1000000

structure HbaCommandHeader where
  commandFisLength : UInt8
  flags : UInt8
  prdtLength : Nat
  bytesTransferred : Nat
  commandTableBase : Nat
  commandTableBaseUpper : Nat

structure HbaPrdtEntry where
  dataBase : Nat
  dataBaseUpper : Nat
  byteCount : Nat

structure FisRegisterHostToDevice where
  fisType : UInt8
  portMultiplier : UInt8
  command : UInt8
  featureLow : UInt8
  lba0 : UInt8
  lba1 : UInt8
  lba2 : UInt8
  device : UInt8
  lba3 : UInt8
  lba4 : UInt8
  lba5 : UInt8
  featureHigh : UInt8
  countLow : UInt8
  countHigh : UInt8
  icc : UInt8
  control : UInt8

open ByteMemory (wordBytes)

/-- The layout of the header, with its reserved words. -/
def HbaCommandHeader.toBytes (header : HbaCommandHeader) : List UInt8 :=
  [header.commandFisLength, header.flags] ++ wordBytes header.prdtLength 2 ++
    wordBytes header.bytesTransferred 4 ++ wordBytes header.commandTableBase 4 ++
    wordBytes header.commandTableBaseUpper 4 ++ List.replicate 16 0

def HbaPrdtEntry.toBytes (entry : HbaPrdtEntry) : List UInt8 :=
  wordBytes entry.dataBase 4 ++ wordBytes entry.dataBaseUpper 4 ++ wordBytes 0 4 ++
    wordBytes entry.byteCount 4

def FisRegisterHostToDevice.toBytes (fis : FisRegisterHostToDevice) : List UInt8 :=
  [fis.fisType, fis.portMultiplier, fis.command, fis.featureLow, fis.lba0, fis.lba1, fis.lba2,
    fis.device, fis.lba3, fis.lba4, fis.lba5, fis.featureHigh, fis.countLow, fis.countHigh, fis.icc,
    fis.control] ++ List.replicate 4 0

/-- `HbaCommandTable`: the FIS in 64 bytes, 64 bytes that are not used, and the one entry. -/
def commandTableBytes (fis : FisRegisterHostToDevice) (entry : HbaPrdtEntry) : List UInt8 :=
  fis.toBytes ++ List.replicate 44 0 ++ List.replicate 64 0 ++ entry.toBytes

structure AhciController where
  abar : Nat
  portIndex : Nat
  commandListPaddr : Nat
  fisPaddr : Nat
  commandTablePaddr : Nat
  dmaBufferPaddr : Nat
deriving DecidableEq, Repr

abbrev AhciM := EStateM StorageError Machine

section Driver

variable (device : Machine → Machine)

/-- The controller does something, and then a register is used. -/
def advance : AhciM Unit := modify fun m => { device m with clock := m.clock + 1 }

/-- `read_port_reg_at`. -/
def readPortRegAt (index : Nat) (reg : PortReg) : AhciM (BitVec 32) := do
  advance device
  return ((← get).hba.ports index).regs reg

def storeMemory (start : Nat) (bytes : List UInt8) : AhciM Unit :=
  modify fun m => { m with memory := { m.memory with phys := m.memory.phys.write start bytes } }

/-- `memory::allocate_kernel_page().map_err(StorageError::Memory)`. -/
def allocateKernelPage : AhciM Nat := fun m =>
  match MemoryState.allocatePage m.memory with
  | .ok page memory => .ok page { m with memory }
  | .error e memory => .error (.memory e) { m with memory }

namespace AhciController

/-- `enable_ahci_mode`. -/
def enableAhciMode : AhciM Unit := do
  advance device
  let ghc := (← get).hba.globalHostControl
  advance device
  modify fun m => { m with hba := { m.hba with globalHostControl := ghc ||| ahciGhcAe } }

/-- `port_is_sata_disk`. -/
def portIsSataDisk (index : Nat) : AhciM Bool := do
  let sataStatus ← readPortRegAt device index .serialAtaStatus
  let signature ← readPortRegAt device index .signature
  return (sataStatus &&& 0x0f) == sataStatusDevicePresent &&
    ((sataStatus >>> 8) &&& 0x0f) == sataStatusInterfaceActive && signature == sataSignatureAta

variable (ctl : AhciController)

def readPortReg (reg : PortReg) : AhciM (BitVec 32) := readPortRegAt device ctl.portIndex reg

def writePortReg (reg : PortReg) (value : BitVec 32) : AhciM Unit := do
  advance device
  modify fun m => { m with hba := { m.hba with
    ports := Function.update m.hba.ports ctl.portIndex
      ((m.hba.ports ctl.portIndex).write reg value) } }

/-- The loops of `stop_port` and of `wait_for_device_ready`: poll until some bits are clear. -/
def pollClear (reg : PortReg) (mask : BitVec 32) : (spins : Nat) → AhciM Unit
  | 0 => throw .ahciCommandTimeout
  | spins + 1 => do
    let value ← readPortReg device ctl reg
    if value &&& mask = 0 then return
    else pollClear reg mask spins

/-- `stop_port`. -/
def stopPort : AhciM Unit := do
  let command ← readPortReg device ctl .commandStatus
  writePortReg device ctl .commandStatus (command &&& ~~~(ahciPortCmdSt ||| ahciPortCmdFre))
  pollClear device ctl .commandStatus (ahciPortCmdCr ||| ahciPortCmdFr) (maxSpins + 1)

/-- `start_port`. -/
def startPort : AhciM Unit := do
  let command ← readPortReg device ctl .commandStatus
  writePortReg device ctl .commandStatus (command ||| ahciPortCmdFre ||| ahciPortCmdSt)

/-- `initialize_port`. -/
def initializePort : AhciM Unit := do
  stopPort device ctl
  writePortReg device ctl .commandListBase (BitVec.ofNat 32 ctl.commandListPaddr)
  writePortReg device ctl .commandListBaseUpper (BitVec.ofNat 32 (ctl.commandListPaddr >>> 32))
  writePortReg device ctl .fisBase (BitVec.ofNat 32 ctl.fisPaddr)
  writePortReg device ctl .fisBaseUpper (BitVec.ofNat 32 (ctl.fisPaddr >>> 32))
  writePortReg device ctl .interruptEnable 0
  writePortReg device ctl .serialAtaError (BitVec.allOnes 32)
  writePortReg device ctl .interruptStatus (BitVec.allOnes 32)
  startPort device ctl

/-- The loop of `initialize` over the ports. -/
def findPort (implemented : BitVec 32) : (rounds portIndex : Nat) → AhciM AhciController
  | 0, _ => throw .ahciPortNotFound
  | rounds + 1, portIndex => do
    if implemented &&& (1 <<< portIndex) ≠ 0 then
      if ← portIsSataDisk device portIndex then
        initializePort device { ctl with portIndex }
        return { ctl with portIndex }
      else findPort implemented rounds (portIndex + 1)
    else findPort implemented rounds (portIndex + 1)

/-- `AhciController::initialize`. -/
def initializeController (abar : Nat) : AhciM AhciController := do
  let commandListPaddr ← allocateKernelPage
  let fisPaddr ← allocateKernelPage
  let commandTablePaddr ← allocateKernelPage
  let dmaBufferPaddr ← allocateKernelPage
  enableAhciMode device
  advance device
  let portsImplemented := (← get).hba.portsImplemented
  let ctl : AhciController :=
    ⟨abar, 0, commandListPaddr, fisPaddr, commandTablePaddr, dmaBufferPaddr⟩
  findPort device ctl portsImplemented 32 0

/-- The header of a read. -/
def header : HbaCommandHeader where
  commandFisLength := 5
  flags := 0
  prdtLength := 1
  bytesTransferred := 0
  commandTableBase := ctl.commandTablePaddr % 2 ^ 32
  commandTableBaseUpper := ctl.commandTablePaddr >>> 32

/-- The FIS of a read. -/
def readFis (lba : Nat) : FisRegisterHostToDevice where
  fisType := fisTypeRegH2d
  portMultiplier := (1 : UInt8) <<< 7
  command := ataCommandReadDmaExt
  featureLow := 0
  lba0 := UInt8.ofNat (lba &&& 0xff)
  lba1 := UInt8.ofNat (lba >>> 8 &&& 0xff)
  lba2 := UInt8.ofNat (lba >>> 16 &&& 0xff)
  device := (1 : UInt8) <<< 6
  lba3 := UInt8.ofNat (lba >>> 24 &&& 0xff)
  lba4 := UInt8.ofNat (lba >>> 32 &&& 0xff)
  lba5 := UInt8.ofNat (lba >>> 40 &&& 0xff)
  featureHigh := 0
  countLow := 1
  countHigh := 0
  icc := 0
  control := 0

def prdtEntry : HbaPrdtEntry where
  dataBase := ctl.dmaBufferPaddr % 2 ^ 32
  dataBaseUpper := ctl.dmaBufferPaddr >>> 32
  byteCount := sectorSize - 1

/-- The loop of `read_sector`. -/
def pollCommand : (spins : Nat) → AhciM Unit
  | 0 => throw .ahciCommandTimeout
  | spins + 1 => do
    let interruptStatus ← readPortReg device ctl .interruptStatus
    if interruptStatus &&& ahciPortIsTfes ≠ 0 then throw .ahciTaskFileError
    else
      let commandIssue ← readPortReg device ctl .commandIssue
      if commandIssue &&& 1 = 0 then return
      else pollCommand spins

/-- `AhciController::read_sector`. -/
def readSector (lba : Nat) : AhciM Sector := do
  pollClear device ctl .taskFileData (ahciPortTfdBsy ||| ahciPortTfdDrq) (maxSpins + 1)
  writePortReg device ctl .interruptStatus (BitVec.allOnes 32)
  storeMemory ctl.commandListPaddr ctl.header.toBytes
  storeMemory ctl.commandTablePaddr (commandTableBytes (readFis lba) ctl.prdtEntry)
  writePortReg device ctl .commandIssue 1
  pollCommand device ctl (maxSpins + 1)
  let m ← get
  return Vector.ofFn fun i => m.memory.phys.byte (ctl.dmaBufferPaddr + i.val)

end AhciController

end Driver

/-! ## Commands in memory -/

namespace AhciController

variable {ctl : AhciController} {memory : MemoryState} {m : Machine} {lba : Nat}

def pages (ctl : AhciController) : List Nat :=
  [ctl.commandListPaddr, ctl.fisPaddr, ctl.commandTablePaddr, ctl.dmaBufferPaddr]

/-- The addresses in the pages of the driver. -/
def inPages (ctl : AhciController) : Set Nat :=
  {a | ∃ page ∈ ctl.pages, page ≤ a ∧ a < page + 4096}

/-- Four pages of their own. -/
structure Placed (ctl : AhciController) : Prop where
  aligned : ∀ page ∈ ctl.pages, page % 4096 = 0
  bound : ∀ page ∈ ctl.pages, page < u64Limit
  apart : ctl.pages.Pairwise fun first second => first + 4096 ≤ second

/-- The command that reads a sector. -/
def readCommand (ctl : AhciController) (lba : Nat) : ReadCommand :=
  ⟨lba % 2 ^ 48, 1, ctl.dmaBufferPaddr, sectorSize⟩

/-- What `read_sector` writes before it issues the command. -/
def stored (ctl : AhciController) (lba : Nat) (phys : ByteMemory) : ByteMemory :=
  (phys.write ctl.commandListPaddr ctl.header.toBytes).write ctl.commandTablePaddr
    (commandTableBytes (readFis lba) ctl.prdtEntry)

theorem length_header (ctl : AhciController) : ctl.header.toBytes.length = 32 := by
  simp [HbaCommandHeader.toBytes]

theorem length_table (ctl : AhciController) (lba : Nat) :
    (commandTableBytes (readFis lba) ctl.prdtEntry).length = 144 := by
  simp [commandTableBytes, FisRegisterHostToDevice.toBytes, HbaPrdtEntry.toBytes]

theorem toNat_byte (lba shift : Nat) :
    (UInt8.ofNat (lba >>> shift &&& 0xff)).toNat = lba / 2 ^ shift % 256 := by
  rw [UInt8.toNat_ofNat', Nat.shiftRight_eq_div_pow, show (0xff : Nat) = 2 ^ 8 - 1 by rfl,
    Nat.and_two_pow_sub_one_eq_mod]
  exact Nat.mod_mod _ _

/-- The header is not in the page of the table. -/
theorem Placed.list_table (h : ctl.Placed) : ctl.commandListPaddr + 4096 ≤ ctl.commandTablePaddr :=
  (List.pairwise_cons.mp h.apart).1 _ (by simp)

theorem byte_stored_header (h : ctl.Placed) (phys : ByteMemory) {i : Nat} (hi : i < 32) :
    (ctl.stored lba phys).byte (ctl.commandListPaddr + i) = ctl.header.toBytes.getD i 0 := by
  have hapart := h.list_table
  rw [stored, ByteMemory.byte_write_of_apart (.inl (by omega)),
    ByteMemory.byte_write_of_lt (by rw [length_header]; exact hi)]

theorem byte_stored_table (ctl : AhciController) (phys : ByteMemory) {i : Nat} (hi : i < 144) :
    (ctl.stored lba phys).byte (ctl.commandTablePaddr + i) =
      (commandTableBytes (readFis lba) ctl.prdtEntry).getD i 0 := by
  rw [stored, ByteMemory.byte_write_of_lt (by rw [length_table]; exact hi)]

/-- A word of the header. -/
theorem word_stored_header (h : ctl.Placed) (phys : ByteMemory) {offset v n : Nat}
    (hv : v < 256 ^ n) (hn : offset + n ≤ 32)
    (hbytes : ∀ i < n, ctl.header.toBytes.getD (offset + i) 0 = (wordBytes v n).getD i 0) :
    (ctl.stored lba phys).readWord (ctl.commandListPaddr + offset) n = v := by
  refine ByteMemory.readWord_of_bytes hv fun i hi => ?_
  rw [Nat.add_assoc, byte_stored_header h phys (by omega), hbytes i hi]

theorem word_stored_table (ctl : AhciController) (phys : ByteMemory) {offset v n : Nat}
    (hv : v < 256 ^ n) (hn : offset + n ≤ 144)
    (hbytes : ∀ i < n, (commandTableBytes (readFis lba) ctl.prdtEntry).getD (offset + i) 0 =
      (wordBytes v n).getD i 0) :
    (ctl.stored lba phys).readWord (ctl.commandTablePaddr + offset) n = v := by
  refine ByteMemory.readWord_of_bytes hv fun i hi => ?_
  rw [Nat.add_assoc, byte_stored_table ctl phys (by omega), hbytes i hi]

/-- An address in two words. -/
theorem split_address {a : Nat} (h : a < u64Limit) :
    a % 2 ^ 32 + 2 ^ 32 * (a >>> 32) = a ∧ a >>> 32 < 256 ^ 4 := by
  rw [Nat.shiftRight_eq_div_pow]
  have hlimit : a < 2 ^ 64 := h
  exact ⟨Nat.mod_add_div a _, by omega⟩

/-- The six bytes of the address, from which it loses all but 48 bits. -/
theorem lba_readFis (lba : Nat) :
    (readFis lba).lba0.toNat + 2 ^ 8 * (readFis lba).lba1.toNat +
      2 ^ 16 * (readFis lba).lba2.toNat + 2 ^ 24 * (readFis lba).lba3.toNat +
      2 ^ 32 * (readFis lba).lba4.toNat + 2 ^ 40 * (readFis lba).lba5.toNat = lba % 2 ^ 48 := by
  have h₀ : (readFis lba).lba0.toNat = lba / 2 ^ 0 % 256 := toNat_byte lba 0
  have h₁ : (readFis lba).lba1.toNat = lba / 2 ^ 8 % 256 := toNat_byte lba 8
  have h₂ : (readFis lba).lba2.toNat = lba / 2 ^ 16 % 256 := toNat_byte lba 16
  have h₃ : (readFis lba).lba3.toNat = lba / 2 ^ 24 % 256 := toNat_byte lba 24
  have h₄ : (readFis lba).lba4.toNat = lba / 2 ^ 32 % 256 := toNat_byte lba 32
  have h₅ : (readFis lba).lba5.toNat = lba / 2 ^ 40 % 256 := toNat_byte lba 40
  omega

/-- **The controller reads the command that the driver has written.** -/
theorem fetch_stored (h : ctl.Placed) (phys : ByteMemory) :
    fetch (ctl.stored lba phys) ctl.commandListPaddr = some (ctl.readCommand lba) := by
  have hlist := h.aligned ctl.commandListPaddr (by simp [pages])
  have htable := h.aligned ctl.commandTablePaddr (by simp [pages])
  obtain ⟨htableSplit, htableHigh⟩ :=
    split_address (h.bound ctl.commandTablePaddr (by simp [pages]))
  obtain ⟨hdmaSplit, hdmaHigh⟩ := split_address (h.bound ctl.dmaBufferPaddr (by simp [pages]))
  have hmod : ∀ a, a % 2 ^ 32 < 256 ^ 4 := fun a => Nat.mod_lt _ (by decide)
  -- the header
  have hfirst : (ctl.stored lba phys).byte ctl.commandListPaddr = 5 :=
    byte_stored_header h phys (i := 0) (by decide)
  have hcount : (ctl.stored lba phys).readWord (ctl.commandListPaddr + 2) 2 = 1 :=
    word_stored_header h phys (by decide) (by decide) fun i hi => by interval_cases i <;> rfl
  have hlow : (ctl.stored lba phys).readWord (ctl.commandListPaddr + 8) 4 =
      ctl.commandTablePaddr % 2 ^ 32 :=
    word_stored_header h phys (hmod _) (by decide) fun i hi => by interval_cases i <;> rfl
  have hhigh : (ctl.stored lba phys).readWord (ctl.commandListPaddr + 12) 4 =
      ctl.commandTablePaddr >>> 32 :=
    word_stored_header h phys htableHigh (by decide) fun i hi => by interval_cases i <;> rfl
  -- the table
  have hfis : ∀ i < 144, (ctl.stored lba phys).byte (ctl.commandTablePaddr + i) =
      (commandTableBytes (readFis lba) ctl.prdtEntry).getD i 0 :=
    fun i hi => byte_stored_table ctl phys hi
  have hdataLow : (ctl.stored lba phys).readWord (ctl.commandTablePaddr + 0x80) 4 =
      ctl.dmaBufferPaddr % 2 ^ 32 :=
    word_stored_table ctl phys (hmod _) (by decide) fun i hi => by interval_cases i <;> rfl
  have hdataHigh : (ctl.stored lba phys).readWord (ctl.commandTablePaddr + 0x84) 4 =
      ctl.dmaBufferPaddr >>> 32 :=
    word_stored_table ctl phys hdmaHigh (by decide) fun i hi => by interval_cases i <;> rfl
  have hbytes : (ctl.stored lba phys).readWord (ctl.commandTablePaddr + 0x8c) 4 = sectorSize - 1 :=
    word_stored_table ctl phys (by decide) (by decide) fun i hi => by interval_cases i <;> rfl
  have hconstant : ∀ i < 144, ∀ b : UInt8,
      (commandTableBytes (readFis lba) ctl.prdtEntry).getD i 0 = b →
      ((ctl.stored lba phys).byte (ctl.commandTablePaddr + i)).toNat = b.toNat := by
    intro i hi b hb
    rw [hfis i hi, hb]
  rw [fetch]
  dsimp only
  rw [hlow, hhigh, htableSplit, hdataLow, hdataHigh, hdmaSplit, hbytes]
  rw [if_pos ⟨by omega, hfirst, hcount, by omega, hconstant 0 (by decide) 0x27 rfl,
    hconstant 1 (by decide) 0x80 rfl, hconstant 2 (by decide) 0x25 rfl,
    hconstant 7 (by decide) 0x40 rfl⟩]
  rw [hconstant 4 (by decide) (readFis lba).lba0 rfl,
    hconstant 5 (by decide) (readFis lba).lba1 rfl, hconstant 6 (by decide) (readFis lba).lba2 rfl,
    hconstant 8 (by decide) (readFis lba).lba3 rfl, hconstant 9 (by decide) (readFis lba).lba4 rfl,
    hconstant 10 (by decide) (readFis lba).lba5 rfl, hconstant 12 (by decide) 1 rfl,
    hconstant 13 (by decide) 0 rfl]
  rw [readCommand, ← lba_readFis]
  rfl

/-! ## The port and its command -/

def port (ctl : AhciController) (m : Machine) : Port := m.hba.ports ctl.portIndex

/-- The port is started, with the list and the place for a FIS that the driver has given to it. -/
structure Attached (ctl : AhciController) (m : Machine) : Prop where
  list : (ctl.port m).address .commandListBase .commandListBaseUpper = ctl.commandListPaddr
  fis : (ctl.port m).address .fisBase .fisBaseUpper = ctl.fisPaddr
  started : (ctl.port m).Started
  alone : m.Alone ctl.portIndex

/-- **Between two commands.** -/
structure Idle (ctl : AhciController) (memory : MemoryState) (m : Machine) : Prop extends
    Attached ctl m where
  quiet : (ctl.port m).Quiet
  running : (ctl.port m).halted = false
  memory : m.memory = memory

/-- The memory when the command is issued. -/
def issued (ctl : AhciController) (lba : Nat) (memory : MemoryState) : MemoryState :=
  { memory with phys := ctl.stored lba memory.phys }

/-- The memory when the command has been completed. -/
def completed (ctl : AhciController) (lba : Nat) (memory : MemoryState)
    (data received : List UInt8) : MemoryState :=
  { memory with
    phys := (((ctl.stored lba memory.phys).write ctl.dmaBufferPaddr data).write
      (ctl.commandListPaddr + 4) (wordBytes data.length 4)).write (ctl.fisPaddr + 0x40) received }

/-- **A command that has been issued**: it is there, or completed, or failed. -/
inductive Progress (ctl : AhciController) (sector : Sector) (lba : Nat) (memory : MemoryState)
    (m : Machine) : Prop where
  | pending (attached : Attached ctl m) (pending : (ctl.port m).Pending (ctl.readCommand lba))
      (failed : ¬ (ctl.port m).Failed) (memory : m.memory = ctl.issued lba memory)
  | done (received : List UInt8) (length : received.length = 20)
      (idle : Idle ctl (ctl.completed lba memory sector.toList received) m)
      (failed : ¬ (ctl.port m).Failed)
  | failed (attached : Attached ctl m) (stopped : (ctl.port m).Stopped)
      (failed : (ctl.port m).Failed) (memory : m.memory = ctl.issued lba memory)

/-- The machine when a register is used. -/
def next (device : Machine → Machine) (m : Machine) : Machine :=
  { device m with clock := m.clock + 1 }

section Steps

variable {disk : Nat → Nat → Sector} {device : Machine → Machine}

theorem Attached.next (hconf : Conforms disk device) (h : Attached ctl m) :
    ∃ phys, PortStep (disk ctl.portIndex) m.memory.phys (ctl.port m) phys
        (ctl.port (next device m)) ∧
      (next device m).memory = { m.memory with phys } ∧ Attached ctl (next device m) := by
  obtain ⟨phys, hstep, hmemory, halone⟩ := hconf.step h.alone
  have hsame := hstep.same
  exact ⟨phys, hstep, hmemory, hsame.list.trans h.list, hsame.fis.trans h.fis,
    hsame.2.mpr h.started, halone⟩

/-- **Nothing happens between two commands.** -/
theorem Idle.next (hconf : Conforms disk device) (h : Idle ctl memory m) :
    Idle ctl memory (next device m) ∧
      ((ctl.port (AhciController.next device m)).Failed ↔ (ctl.port m).Failed) := by
  obtain ⟨phys, hstep, hmemory, hattached⟩ := h.toAttached.next hconf
  obtain ⟨rfl, hquiet, hrunning, hfailed⟩ := hstep.quiet h.quiet
  exact ⟨⟨hattached, hquiet, hrunning h.running, hmemory.trans h.memory⟩, hfailed⟩

theorem readCommand_data (disk : Nat → Sector) :
    (ctl.readCommand lba).data disk = (disk (lba % 2 ^ 48)).toList := by
  rw [ReadCommand.data, readCommand]
  exact List.append_nil _

/-- **What happens to a command.** -/
theorem Progress.next (hconf : Conforms disk device) (hplaced : ctl.Placed)
    (h : Progress ctl (disk ctl.portIndex (lba % 2 ^ 48)) lba memory m) :
    Progress ctl (disk ctl.portIndex (lba % 2 ^ 48)) lba memory (next device m) := by
  cases h with
  | pending hattached hpending hnot hmemory =>
    obtain ⟨phys, hstep, hafter, hattached'⟩ := hattached.next hconf
    have hfetch : fetch m.memory.phys
        ((ctl.port m).address .commandListBase .commandListBaseUpper) =
          some (ctl.readCommand lba) := by
      rw [hattached.list, hmemory]
      exact fetch_stored hplaced memory.phys
    obtain ⟨rfl, hpending', hsame⟩ | ⟨hquiet, hrunning, hsame, -, received, hlength, rfl⟩ |
      ⟨rfl, hstopped, hfailed⟩ := hstep.of_pending hpending hfetch
    · exact .pending hattached' hpending' (fun hf => hnot (hsame.mp hf)) (hafter.trans hmemory)
    · refine .done received hlength ⟨hattached', hquiet, hrunning, ?_⟩ fun hf => hnot (hsame.mp hf)
      rw [hafter, hmemory, Port.transfer, hattached.list, hattached.fis, readCommand_data]
      rfl
    · exact .failed hattached' hstopped hfailed (hafter.trans hmemory)
  | done received hlength hidle hnot =>
    obtain ⟨hidle', hsame⟩ := hidle.next hconf
    exact .done received hlength hidle' fun hf => hnot (hsame.mp hf)
  | failed hattached hstopped hfailed hmemory =>
    obtain ⟨phys, hstep, hafter, hattached'⟩ := hattached.next hconf
    obtain ⟨rfl, hstopped', hsame⟩ := hstep.of_stopped hstopped
    exact .failed hattached' hstopped' (hsame.mpr hfailed) (hafter.trans hmemory)

/-! ## Runs -/

/-- A read of a register, after a step of the controller. -/
theorem readPortReg_triple {P : Machine → Prop} {Q : BitVec 32 → Machine → Prop}
    {E : StorageError → Machine → Prop} {reg : PortReg}
    (h : ∀ m, P m → Q ((ctl.port (next device m)).regs reg) (next device m)) :
    Triple P (readPortReg device ctl reg) Q E := h

/-- The machine with another state of the port. -/
def putPort (ctl : AhciController) (m : Machine) (p : Port) : Machine :=
  { m with hba := { m.hba with ports := Function.update m.hba.ports ctl.portIndex p } }

theorem port_putPort (ctl : AhciController) (m : Machine) (p : Port) :
    ctl.port (ctl.putPort m p) = p := Function.update_self _ _ _

theorem alone_putPort {p : Port} (h : m.Alone ctl.portIndex) :
    (ctl.putPort m p).Alone ctl.portIndex := by
  intro other hne
  show (Function.update m.hba.ports ctl.portIndex p other).Quiet
  rw [Function.update_of_ne hne]
  exact h other hne

theorem Attached.putPort {p : Port} (h : Attached ctl m) (hsame : (ctl.port m).Same p) :
    Attached ctl (ctl.putPort m p) := by
  have hport := ctl.port_putPort m p
  refine ⟨?_, ?_, ?_, alone_putPort h.alone⟩
  · rw [hport, hsame.list, h.list]
  · rw [hport, hsame.fis, h.fis]
  · rw [hport]
    exact hsame.2.mpr h.started

theorem writePortReg_triple {P : Machine → Prop} {Q : PUnit → Machine → Prop}
    {E : StorageError → Machine → Prop} {reg : PortReg} {value : BitVec 32}
    (h : ∀ m, P m →
      Q ⟨⟩ (ctl.putPort (next device m) ((ctl.port (next device m)).write reg value))) :
    Triple P (writePortReg device ctl reg value) Q E := h

/-- **Polling** keeps what a step of the controller keeps, and gives up after so many polls. -/
theorem pollClear_triple {I : Machine → Prop} (hI : ∀ m, I m → I (next device m)) (reg : PortReg)
    (mask : BitVec 32) (spins t : Nat) :
    Triple (fun m => I m ∧ m.clock = t) (pollClear device ctl reg mask spins)
      (fun _ m => I m ∧ t ≤ m.clock ∧ (ctl.port m).regs reg &&& mask = 0)
      fun e m => e = .ahciCommandTimeout ∧ I m ∧ m.clock = t + spins := by
  induction spins generalizing t with
  | zero => exact Triple.throw fun m h => ⟨rfl, h.1, h.2⟩
  | succ spins ih =>
    rw [pollClear]
    refine Triple.bind (Q := fun value m => I m ∧ m.clock = t + 1 ∧
      value = (ctl.port m).regs reg) ?_ fun value => ?_
    · exact readPortReg_triple fun m h => ⟨hI m h.1, congrArg (· + 1) h.2, rfl⟩
    · split_ifs with hclear
      · refine Triple.pure fun m h => ⟨h.1, by omega, ?_⟩
        rw [← h.2.2]
        exact hclear
      · refine (ih (t + 1)).conseq (fun _ h => ⟨h.1, h.2.1⟩)
          (fun _ m h => ⟨h.1, by omega, h.2.2⟩) fun e m h => ?_
        exact ⟨h.1, h.2.1, by omega⟩

/-- **Waiting** does nothing, and gives up after so many polls. -/
theorem pollClear_idle (hconf : Conforms disk device) (reg : PortReg) (mask : BitVec 32)
    (spins t : Nat) :
    Triple (fun m => Idle ctl memory m ∧ m.clock = t) (pollClear device ctl reg mask spins)
      (fun _ m => Idle ctl memory m ∧ t ≤ m.clock)
      fun e m => e = .ahciCommandTimeout ∧ Idle ctl memory m ∧ m.clock = t + spins := by
  exact (pollClear_triple (fun m h => (h.next hconf).1) reg mask spins t).conseq (fun _ h => h)
    (fun _ _ h => ⟨h.1, h.2.1⟩) fun _ _ h => h

/-- **The command is polled** until it is completed, has failed, or has taken too long. -/
theorem pollCommand_triple (hconf : Conforms disk device) (hplaced : ctl.Placed)
    (spins t : Nat) :
    Triple (fun m => Progress ctl (disk ctl.portIndex (lba % 2 ^ 48)) lba memory m ∧ m.clock = t)
      (pollCommand device ctl spins)
      (fun _ m => t ≤ m.clock ∧ ∃ received, received.length = 20 ∧ Idle ctl (ctl.completed lba
        memory (disk ctl.portIndex (lba % 2 ^ 48)).toList received) m)
      fun e m => Progress ctl (disk ctl.portIndex (lba % 2 ^ 48)) lba memory m ∧
        ((e = .ahciCommandTimeout ∧ m.clock = t + 2 * spins) ∨
          (e = .ahciTaskFileError ∧ Attached ctl m ∧ (ctl.port m).Stopped)) := by
  induction spins generalizing t with
  | zero => exact Triple.throw fun m h => ⟨h.1, .inl ⟨rfl, h.2⟩⟩
  | succ spins ih =>
    rw [pollCommand]
    refine Triple.bind (Q := fun value m =>
      Progress ctl (disk ctl.portIndex (lba % 2 ^ 48)) lba memory m ∧ m.clock = t + 1 ∧
        value = (ctl.port m).regs .interruptStatus) ?_ fun status => ?_
    · exact readPortReg_triple fun m h => ⟨h.1.next hconf hplaced, congrArg (· + 1) h.2, rfl⟩
    split_ifs with hfailed
    · refine Triple.throw fun m h => ⟨h.1, .inr ?_⟩
      obtain ⟨hprogress, -, rfl⟩ := h
      cases hprogress with
      | pending _ _ hnot _ => exact absurd hfailed hnot
      | done _ _ _ hnot => exact absurd hfailed hnot
      | failed hattached hstopped _ _ => exact ⟨rfl, hattached, hstopped⟩
    refine Triple.bind (Q := fun value m =>
      Progress ctl (disk ctl.portIndex (lba % 2 ^ 48)) lba memory m ∧ m.clock = t + 2 ∧
        value = (ctl.port m).regs .commandIssue) ?_ fun issue => ?_
    · exact readPortReg_triple fun m h => ⟨h.1.next hconf hplaced, congrArg (· + 1) h.2.1, rfl⟩
    split_ifs with hclear
    · refine Triple.pure fun m h => ?_
      obtain ⟨hprogress, hclock, rfl⟩ := h
      cases hprogress with
      | pending _ hpending _ _ => exact absurd hclear hpending.issued
      | done received hlength hidle _ => exact ⟨by omega, received, hlength, hidle⟩
      | failed _ hstopped _ _ => exact absurd hclear hstopped.issued
    · refine (ih (t + 2)).conseq (fun _ h => ⟨h.1, h.2.1⟩) (fun _ _ h => ⟨by omega, h.2⟩)
        fun e m h => ?_
      obtain ⟨hprogress, ⟨rfl, hclock⟩ | herror⟩ := h
      · exact ⟨hprogress, .inl ⟨rfl, by omega⟩⟩
      · exact ⟨hprogress, .inr herror⟩

/-! ## A sector -/

/-- Everything that the driver and the controller write is in the pages of the driver. -/
def Frame (ctl : AhciController) (memory : MemoryState) (m : Machine) : Prop :=
  ∃ phys, m.memory = { memory with phys } ∧
    ByteMemory.WritesOnly ctl.inPages memory.phys phys

theorem inPages_of_page (page : Nat) {start len : Nat} (hpage : page ∈ ctl.pages)
    (hstart : page ≤ start) (hend : start + len ≤ page + 4096) :
    Set.Ico start (start + len) ⊆ ctl.inPages := by
  rintro a ⟨hlow, hhigh⟩
  exact ⟨page, hpage, by omega, by omega⟩

theorem writesOnly_stored (ctl : AhciController) (lba : Nat) (phys : ByteMemory) :
    ByteMemory.WritesOnly ctl.inPages phys (ctl.stored lba phys) := by
  refine (ByteMemory.writesOnly_write phys ?_).trans (ByteMemory.writesOnly_write _ ?_)
  · rw [length_header]
    exact inPages_of_page ctl.commandListPaddr (by simp [pages]) (by omega) (by omega)
  · rw [length_table]
    exact inPages_of_page ctl.commandTablePaddr (by simp [pages]) (by omega) (by omega)

theorem writesOnly_completed (ctl : AhciController) (lba : Nat) (memory : MemoryState)
    (sector : Sector) {received : List UInt8} (hlength : received.length = 20) :
    ByteMemory.WritesOnly ctl.inPages memory.phys
      (ctl.completed lba memory sector.toList received).phys := by
  refine (((writesOnly_stored ctl lba memory.phys).trans (ByteMemory.writesOnly_write _ ?_)).trans
    (ByteMemory.writesOnly_write _ ?_)).trans (ByteMemory.writesOnly_write _ ?_)
  · rw [Vector.length_toList, sectorSize]
    exact inPages_of_page ctl.dmaBufferPaddr (by simp [pages]) (by omega) (by omega)
  · rw [ByteMemory.length_wordBytes]
    exact inPages_of_page ctl.commandListPaddr (by simp [pages]) (by omega) (by omega)
  · rw [hlength]
    exact inPages_of_page ctl.fisPaddr (by simp [pages]) (by omega) (by omega)

theorem Progress.frame {sector : Sector} (h : Progress ctl sector lba memory m) :
    Frame ctl memory m := by
  cases h with
  | pending _ _ _ hmemory => exact ⟨_, hmemory, writesOnly_stored ctl lba memory.phys⟩
  | done _ hlength hidle _ =>
    exact ⟨_, hidle.memory, writesOnly_completed ctl lba memory sector hlength⟩
  | failed _ _ _ hmemory => exact ⟨_, hmemory, writesOnly_stored ctl lba memory.phys⟩

/-- **The sector is in the buffer** behind the command. -/
theorem buffer_completed (h : ctl.Placed) (sector : Sector) (received : List UInt8)
    (hlength : received.length = 20) :
    (Vector.ofFn fun i : Fin sectorSize =>
      (ctl.completed lba memory sector.toList received).phys.byte
        (ctl.dmaBufferPaddr + i.val)) = sector := by
  obtain ⟨hlist, hrest⟩ := List.pairwise_cons.mp h.apart
  have hlistDma := hlist ctl.dmaBufferPaddr (by simp)
  have hfisDma := (List.pairwise_cons.mp hrest).1 ctl.dmaBufferPaddr (by simp)
  ext i hi
  rw [Vector.getElem_ofFn, completed]
  dsimp only
  rw [ByteMemory.byte_write_of_apart (.inr (by omega)),
    ByteMemory.byte_write_of_apart (.inr (by rw [ByteMemory.length_wordBytes]; omega)),
    ByteMemory.byte_write_of_lt (by rw [Vector.length_toList]; exact hi),
    List.getD_eq_getElem _ _ (by rw [Vector.length_toList]; exact hi), Vector.getElem_toList]

theorem Idle.store (h : Idle ctl memory m) (start : Nat) (bytes : List UInt8) :
    Idle ctl { memory with phys := memory.phys.write start bytes }
      { m with memory := { m.memory with phys := m.memory.phys.write start bytes } } := by
  refine ⟨⟨h.list, h.fis, h.started, h.alone⟩, h.quiet, h.running, ?_⟩
  show { m.memory with phys := m.memory.phys.write start bytes } = _
  rw [h.memory]

/-- Writing ones to `PxIS` clears it. -/
theorem Idle.clear (h : Idle ctl memory m) :
    Idle ctl memory
        (ctl.putPort m ((ctl.port m).write .interruptStatus (BitVec.allOnes 32))) ∧
      ¬ (ctl.port (ctl.putPort m
        ((ctl.port m).write .interruptStatus (BitVec.allOnes 32)))).Failed := by
  have hsame : (ctl.port m).Same
      ((ctl.port m).write .interruptStatus (BitVec.allOnes 32)) := Port.same_set (.inl rfl)
  have hattached := h.toAttached.putPort hsame
  constructor
  · refine ⟨hattached, ?_, ?_, h.memory⟩
    · rw [port_putPort]
      exact ⟨fun hi => h.quiet.issued ((Port.issued_set (by decide)).mp hi), h.quiet.accepted⟩
    · rw [port_putPort]
      exact h.running
  · rw [port_putPort, Port.Failed]
    show ¬ (((ctl.port m).set .interruptStatus
      ((ctl.port m).regs .interruptStatus &&& ~~~(BitVec.allOnes 32))).regs .interruptStatus &&&
        ahciPortIsTfes ≠ 0)
    rw [Port.regs_set_self, BitVec.not_allOnes, BitVec.and_zero, BitVec.zero_and]
    exact fun hne => hne rfl

/-- Issuing the command. -/
theorem Idle.issue (h : Idle ctl (ctl.issued lba memory) m) (hnot : ¬ (ctl.port m).Failed)
    (sector : Sector) :
    Progress ctl sector lba memory (ctl.putPort m ((ctl.port m).write .commandIssue 1)) := by
  have hwrite : (ctl.port m).write .commandIssue 1 =
      (ctl.port m).set .commandIssue ((ctl.port m).regs .commandIssue ||| 1) := if_pos h.started
  have hsame : (ctl.port m).Same
      ((ctl.port m).set .commandIssue ((ctl.port m).regs .commandIssue ||| 1)) :=
    Port.same_set (.inr (.inr rfl))
  have hattached := h.toAttached.putPort hsame
  have hstarted := hattached.started
  rw [hwrite]
  refine .pending hattached ?_ ?_ h.memory
  · rw [port_putPort] at hstarted ⊢
    refine ⟨hstarted, ?_, h.running, .inl h.quiet.accepted⟩
    rw [Port.Issued, Port.regs_set_self]
    exact Port.or_and_ne_zero (by decide)
  · rw [port_putPort]
    exact fun hf => hnot ((Port.failed_set (by decide)).mp hf)

/-- **One sector.** -/
theorem readSector_triple (hconf : Conforms disk device) (hplaced : ctl.Placed) (lba t : Nat) :
    Triple (fun m => Idle ctl memory m ∧ m.clock = t) (readSector device ctl lba)
      (fun sector m => sector = disk ctl.portIndex (lba % 2 ^ 48) ∧ Frame ctl memory m ∧
        Idle ctl m.memory m ∧ t ≤ m.clock)
      fun e m => Frame ctl memory m ∧
        ((e = .ahciCommandTimeout ∧ t + (maxSpins + 1) ≤ m.clock) ∨
          (e = .ahciTaskFileError ∧ Attached ctl m ∧ (ctl.port m).Stopped)) := by
  rw [readSector]
  refine Triple.bind (Q := fun _ m => Idle ctl memory m ∧ t ≤ m.clock) ?_ fun _ => ?_
  · refine (pollClear_idle hconf _ _ _ t).conseq (fun _ h => h) (fun _ _ h => h) fun e m h => ?_
    obtain ⟨rfl, hidle, hclock⟩ := h
    exact ⟨⟨memory.phys, hidle.memory, .refl _ _⟩, .inl ⟨rfl, Nat.le_of_eq hclock.symm⟩⟩
  refine Triple.bind (Q := fun _ m => Idle ctl memory m ∧ ¬ (ctl.port m).Failed ∧ t ≤ m.clock)
    ?_ fun _ => ?_
  · refine writePortReg_triple fun m h => ?_
    obtain ⟨hidle, hnot⟩ := (h.1.next hconf).1.clear
    exact ⟨hidle, hnot, Nat.le_succ_of_le h.2⟩
  refine Triple.bind (Q := fun _ m => Idle ctl { memory with
    phys := memory.phys.write ctl.commandListPaddr ctl.header.toBytes } m ∧
      ¬ (ctl.port m).Failed ∧ t ≤ m.clock) ?_ fun _ => ?_
  · exact Triple.modify fun m h => ⟨h.1.store _ _, h.2⟩
  refine Triple.bind (Q := fun _ m => Idle ctl (ctl.issued lba memory) m ∧
    ¬ (ctl.port m).Failed ∧ t ≤ m.clock) ?_ fun _ => ?_
  · exact Triple.modify fun m h => ⟨h.1.store _ _, h.2⟩
  refine Triple.bind (Q := fun _ m =>
    Progress ctl (disk ctl.portIndex (lba % 2 ^ 48)) lba memory m ∧ t ≤ m.clock) ?_ fun _ => ?_
  · refine writePortReg_triple fun m h => ?_
    obtain ⟨hidle, hsame⟩ := h.1.next hconf
    exact ⟨hidle.issue (fun hf => h.2.1 (hsame.mp hf)) _, Nat.le_succ_of_le h.2.2⟩
  refine Triple.bind (Q := fun _ m => t ≤ m.clock ∧ ∃ received, received.length = 20 ∧ Idle ctl
    (ctl.completed lba memory (disk ctl.portIndex (lba % 2 ^ 48)).toList received) m) ?_ fun _ => ?_
  · refine Triple.of_start fun m₀ h₀ => ?_
    refine (pollCommand_triple hconf hplaced _ m₀.clock).conseq ?_
      (fun _ _ h => ⟨Nat.le_trans h₀.2 h.1, h.2⟩) fun e m h => ?_
    · rintro m rfl
      exact ⟨h₀.1, rfl⟩
    · obtain ⟨hprogress, ⟨rfl, hclock⟩ | herror⟩ := h
      · exact ⟨hprogress.frame, .inl ⟨rfl, by omega⟩⟩
      · exact ⟨hprogress.frame, .inr herror⟩
  · rintro m ⟨hclock, received, hlength, hidle⟩
    show Vector.ofFn _ = _ ∧ _
    refine ⟨?_, ⟨_, hidle.memory, writesOnly_completed ctl lba memory _ hlength⟩, ?_, hclock⟩
    · rw [hidle.memory]
      exact buffer_completed hplaced _ received hlength
    · rw [hidle.memory]
      exact hidle

/-! ## Starting the port -/

/-- A register that only the driver writes. -/
def Own (reg : PortReg) : Prop :=
  reg ≠ .interruptStatus ∧ reg ≠ .commandStatus ∧ reg ≠ .taskFileData ∧ reg ≠ .commandIssue

instance (reg : PortReg) : Decidable (Own reg) := inferInstanceAs (Decidable (_ ∧ _))

/-- **A port that is stopped**, with what some registers of the driver are. -/
structure Parked (ctl : AhciController) (known : List (PortReg × BitVec 32)) (m : Machine) :
    Prop where
  alone : m.Alone ctl.portIndex
  stopped : ¬ (ctl.port m).Started
  quiet : (ctl.port m).Quiet
  running : (ctl.port m).halted = false
  regs : ∀ reg value, (reg, value) ∈ known → Own reg ∧ (ctl.port m).regs reg = value

variable {known : List (PortReg × BitVec 32)}

theorem Parked.next (hconf : Conforms disk device) (h : Parked ctl known m) :
    Parked ctl known (next device m) := by
  obtain ⟨phys, hstep, -, halone⟩ := hconf.step h.alone
  obtain ⟨-, hquiet, hrunning, -⟩ := hstep.quiet h.quiet
  refine ⟨halone, fun hs => h.stopped (hstep.same.2.mp hs), hquiet, hrunning h.running, ?_⟩
  intro reg value hmem
  obtain ⟨hown, hreg⟩ := h.regs reg value hmem
  exact ⟨hown, (hstep.same.1 reg hown.1 hown.2.1 hown.2.2.1 hown.2.2.2).trans hreg⟩

/-- Setting a register of a stopped port. -/
theorem Parked.put (h : Parked ctl known m) {reg : PortReg} (value : BitVec 32)
    (hcommand : reg ≠ .commandStatus) (hissue : reg ≠ .commandIssue)
    (hnew : ∀ v, (reg, v) ∉ known) :
    Parked ctl known (ctl.putPort m ((ctl.port m).set reg value)) := by
  refine ⟨alone_putPort h.alone, ?_, ?_, ?_, ?_⟩
  · rw [port_putPort, Port.Started, Port.regs_set_of_ne (Ne.symm hcommand)]
    exact h.stopped
  · rw [port_putPort]
    exact ⟨fun hi => h.quiet.issued ((Port.issued_set (Ne.symm hissue)).mp hi), h.quiet.accepted⟩
  · rw [port_putPort]
    exact h.running
  · intro reg' v hmem
    rw [port_putPort, Port.regs_set_of_ne]
    · exact h.regs reg' v hmem
    · rintro rfl
      exact hnew v hmem

/-- A register that is written as it is. -/
theorem Parked.write (hconf : Conforms disk device) {reg : PortReg} (hown : Own reg)
    (value : BitVec 32) (hwrite : ∀ p : Port, p.write reg value = p.set reg value)
    (hnew : ∀ v, (reg, v) ∉ known) {E : StorageError → Machine → Prop} :
    Triple (Parked ctl known) (writePortReg device ctl reg value)
      (fun _ => Parked ctl ((reg, value) :: known)) E := by
  refine writePortReg_triple fun m h => ?_
  rw [hwrite]
  have hput := (h.next hconf).put value hown.2.1 hown.2.2.2 hnew
  refine ⟨hput.alone, hput.stopped, hput.quiet, hput.running, fun reg' v hmem => ?_⟩
  obtain heq | hmem := List.mem_cons.mp hmem
  · cases heq
    rw [port_putPort]
    exact ⟨hown, Port.regs_set_self _ _ _⟩
  · exact hput.regs reg' v hmem

/-- Any other write to a register that is not one of these. -/
theorem Parked.clear (hconf : Conforms disk device) {reg : PortReg} (value : BitVec 32)
    (hwrite : ∀ p : Port, ∃ v, p.write reg value = p.set reg v) (hcommand : reg ≠ .commandStatus)
    (hissue : reg ≠ .commandIssue) (hnew : ∀ v, (reg, v) ∉ known)
    {E : StorageError → Machine → Prop} :
    Triple (Parked ctl known) (writePortReg device ctl reg value) (fun _ => Parked ctl known)
      E := by
  refine writePortReg_triple fun m h => ?_
  obtain ⟨v, hv⟩ := hwrite (ctl.port (AhciController.next device m))
  rw [hv]
  exact (h.next hconf).put v hcommand hissue hnew

/-- What is known of the port before it is stopped: firmware may have used it. -/
structure Found (ctl : AhciController) (m : Machine) : Prop where
  alone : m.Alone ctl.portIndex
  coherent : (ctl.port m).Coherent

theorem Found.next (hconf : Conforms disk device) (h : Found ctl m) :
    Found ctl (next device m) ∧
      ((ctl.port (AhciController.next device m)).Started ↔ (ctl.port m).Started) := by
  obtain ⟨phys, hstep, -, halone⟩ := hconf.step h.alone
  exact ⟨⟨halone, hstep.coherent h.coherent⟩, hstep.same.2⟩

/-- Writing a command without `ST`. -/
theorem Found.stop (h : Found ctl m) {value : BitVec 32} (hvalue : value &&& ahciPortCmdSt = 0) :
    Found ctl (ctl.putPort m ((ctl.port m).write .commandStatus value)) ∧
      ¬ (ctl.port (ctl.putPort m ((ctl.port m).write .commandStatus value))).Started := by
  have hwrite : (ctl.port m).write .commandStatus value =
      ((ctl.port m).set .commandIssue 0).set .commandStatus
        ((value &&& ~~~(ahciPortCmdCr ||| ahciPortCmdFr)) |||
          ((ctl.port m).regs .commandStatus &&& (ahciPortCmdCr ||| ahciPortCmdFr))) := by
    rw [Port.write, if_pos hvalue]
  have hstopped : ¬ ((ctl.port m).write .commandStatus value).Started := by
    rw [hwrite, Port.Started, Port.regs_set_self, Port.written_and (by decide), hvalue]
    exact fun hne => hne rfl
  have hissued : ¬ ((ctl.port m).write .commandStatus value).Issued := by
    rw [hwrite, Port.issued_set (by decide), Port.Issued, Port.regs_set_self]
    decide
  refine ⟨⟨alone_putPort h.alone, ?_⟩, ?_⟩
  · rw [port_putPort]
    refine ⟨fun _ => hissued, fun hengine => ?_⟩
    rw [hwrite, Port.Running, Port.regs_set_self, Port.unwritten_and (by decide)] at hengine
    rw [hwrite]
    exact h.coherent.engine hengine
  · rw [port_putPort]
    exact hstopped

/-- **The port is stopped**, and with its engine the command that it may have had. -/
theorem stopPort_triple (hconf : Conforms disk device) :
    Triple (Found ctl) (stopPort device ctl) (fun _ => Parked ctl []) fun _ _ => True := by
  rw [stopPort]
  refine Triple.bind (Q := fun _ => Found ctl) ?_ fun command => ?_
  · exact readPortReg_triple fun m h => (h.next hconf).1
  refine Triple.bind (Q := fun _ m => Found ctl m ∧ ¬ (ctl.port m).Started) ?_ fun _ => ?_
  · refine writePortReg_triple fun m h => (h.next hconf).1.stop ?_
    rw [BitVec.and_assoc, show ~~~(ahciPortCmdSt ||| ahciPortCmdFre) &&& ahciPortCmdSt = 0#32 by
      decide, BitVec.and_zero]
    rfl
  refine Triple.of_start fun m₀ h₀ => ?_
  have hkept : ∀ m, Found ctl m ∧ ¬ (ctl.port m).Started →
      Found ctl (next device m) ∧ ¬ (ctl.port (next device m)).Started :=
    fun m h => ⟨(h.1.next hconf).1, fun hs => h.2 ((h.1.next hconf).2.mp hs)⟩
  refine (pollClear_triple hkept .commandStatus _ _ m₀.clock).conseq ?_ (fun _ m h => ?_)
    fun _ _ _ => trivial
  · rintro m rfl
    exact ⟨h₀, rfl⟩
  · -- the engine has stopped, and so nothing is accepted
    obtain ⟨⟨hfound, hstopped⟩, -, hclear⟩ := h
    have hengine : (ctl.port m).regs .commandStatus &&& ahciPortCmdCr = 0 := by
      rw [show ahciPortCmdCr = (ahciPortCmdCr ||| ahciPortCmdFr) &&& ahciPortCmdCr by decide,
        ← BitVec.and_assoc, hclear]
      exact BitVec.zero_and
    obtain ⟨haccepted, hrunning⟩ := hfound.coherent.engine fun hne => hne hengine
    exact ⟨hfound.alone, hstopped, ⟨hfound.coherent.stopped hstopped, haccepted⟩, hrunning,
      fun _ _ hmem => absurd hmem List.not_mem_nil⟩

/-- The registers that `initialize_port` writes before it starts the port. -/
def wiring (ctl : AhciController) : List (PortReg × BitVec 32) :=
  [(.interruptEnable, 0), (.fisBaseUpper, BitVec.ofNat 32 (ctl.fisPaddr >>> 32)),
    (.fisBase, BitVec.ofNat 32 ctl.fisPaddr),
    (.commandListBaseUpper, BitVec.ofNat 32 (ctl.commandListPaddr >>> 32)),
    (.commandListBase, BitVec.ofNat 32 ctl.commandListPaddr)]

/-- Starting the port, with the addresses that are known. -/
theorem startPort_triple (hconf : Conforms disk device)
    (hlist : ctl.commandListPaddr < u64Limit) (hfis : ctl.fisPaddr < u64Limit) :
    Triple (Parked ctl ctl.wiring) (startPort device ctl)
      (fun _ m => Idle ctl m.memory m) fun _ _ => True := by
  rw [startPort]
  refine Triple.bind (Q := fun _ => Parked ctl ctl.wiring) ?_ fun command => ?_
  · exact readPortReg_triple fun m h => h.next hconf
  refine writePortReg_triple fun m h => ?_
  have hparked := h.next hconf
  generalize AhciController.next device m = m₁ at hparked ⊢
  have hset : (command ||| ahciPortCmdFre ||| ahciPortCmdSt) &&& ahciPortCmdSt ≠ 0 :=
    Port.or_and_ne_zero (by decide)
  have hwrite : (ctl.port m₁).write .commandStatus (command ||| ahciPortCmdFre ||| ahciPortCmdSt) =
      (ctl.port m₁).set .commandStatus
        (((command ||| ahciPortCmdFre ||| ahciPortCmdSt) &&&
            ~~~(ahciPortCmdCr ||| ahciPortCmdFr)) |||
          ((ctl.port m₁).regs .commandStatus &&& (ahciPortCmdCr ||| ahciPortCmdFr))) := by
    rw [Port.write, if_neg hset]
  have haddress : ∀ {low high : PortReg} {a : Nat}, a < u64Limit → low ≠ .commandStatus →
      high ≠ .commandStatus → (ctl.port m₁).regs low = BitVec.ofNat 32 a →
      (ctl.port m₁).regs high = BitVec.ofNat 32 (a >>> 32) →
      ((ctl.port m₁).write .commandStatus
        (command ||| ahciPortCmdFre ||| ahciPortCmdSt)).address low high = a := by
    intro low high a ha hlow hhigh hlowValue hhighValue
    obtain ⟨hsplit, hsmall⟩ := split_address ha
    rw [hwrite, Port.address, Port.regs_set_of_ne hlow, Port.regs_set_of_ne hhigh, hlowValue,
      hhighValue, BitVec.toNat_ofNat, BitVec.toNat_ofNat,
      Nat.mod_eq_of_lt (show a >>> 32 < 2 ^ 32 from hsmall)]
    exact hsplit
  have hreg : ∀ reg value, (reg, value) ∈ ctl.wiring → (ctl.port m₁).regs reg = value :=
    fun reg value hmem => (hparked.regs reg value hmem).2
  refine ⟨⟨?_, ?_, ?_, alone_putPort hparked.alone⟩, ?_, ?_, rfl⟩
  · rw [port_putPort]
    exact haddress hlist (by decide) (by decide) (hreg _ _ (by simp [wiring]))
      (hreg _ _ (by simp [wiring]))
  · rw [port_putPort]
    exact haddress hfis (by decide) (by decide) (hreg _ _ (by simp [wiring]))
      (hreg _ _ (by simp [wiring]))
  · rw [port_putPort, hwrite, Port.Started, Port.regs_set_self, Port.written_and (by decide)]
    exact hset
  · rw [port_putPort, hwrite]
    exact ⟨fun hi => hparked.quiet.issued ((Port.issued_set (by decide)).mp hi),
      hparked.quiet.accepted⟩
  · rw [port_putPort, hwrite]
    exact hparked.running

theorem initializePort_triple (ctl : AhciController) (hconf : Conforms disk device)
    (hlist : ctl.commandListPaddr < u64Limit) (hfis : ctl.fisPaddr < u64Limit) :
    Triple (Found ctl) (initializePort device ctl) (fun _ m => Idle ctl m.memory m)
      fun _ _ => True := by
  rw [initializePort]
  refine (stopPort_triple hconf).bind fun _ => ?_
  refine (Parked.write hconf (by decide) _ (fun _ => rfl) (by simp)).bind fun _ => ?_
  refine (Parked.write hconf (by decide) _ (fun _ => rfl) (by simp)).bind fun _ => ?_
  refine (Parked.write hconf (by decide) _ (fun _ => rfl) (by simp)).bind fun _ => ?_
  refine (Parked.write hconf (by decide) _ (fun _ => rfl) (by simp)).bind fun _ => ?_
  refine (Parked.write hconf (by decide) _ (fun _ => rfl) (by simp)).bind fun _ => ?_
  refine (Parked.clear hconf _ (fun _ => ⟨_, rfl⟩) (by decide) (by decide) (by simp)).bind
    fun _ => ?_
  refine (Parked.clear hconf _ (fun _ => ⟨_, rfl⟩) (by decide) (by decide) (by simp)).bind
    fun _ => ?_
  exact startPort_triple hconf hlist hfis

/-! ## The first disk -/

/-- What `port_is_sata_disk` says of a port. -/
def isSataDisk (p : Port) : Bool :=
  (p.regs .serialAtaStatus &&& 0x0f) == sataStatusDevicePresent &&
    ((p.regs .serialAtaStatus >>> 8) &&& 0x0f) == sataStatusInterfaceActive &&
      p.regs .signature == sataSignatureAta

/-- A port that the driver may take: it is implemented and has a disk. -/
def Usable (m : Machine) (index : Nat) : Prop :=
  m.hba.portsImplemented &&& (1 <<< index) ≠ 0 ∧ isSataDisk (m.hba.ports index) = true

/-- Before the port is started: the disks are those that were there at first. -/
structure Searching (m₀ : Machine) (index : Nat) (m : Machine) : Prop where
  alone : m.Alone index
  coherent : (m.hba.ports index).Coherent
  disks : ∀ i, (m.hba.ports i).regs .serialAtaStatus = (m₀.hba.ports i).regs .serialAtaStatus ∧
    (m.hba.ports i).regs .signature = (m₀.hba.ports i).regs .signature
  implemented : m.hba.portsImplemented = m₀.hba.portsImplemented

variable {m₀ : Machine} {index : Nat}

theorem Searching.next (hconf : Conforms disk device) (h : Searching m₀ index m) :
    Searching m₀ index (next device m) := by
  obtain ⟨phys, hstep, -, halone⟩ := hconf.step h.alone
  refine ⟨halone, hstep.coherent h.coherent, fun i => ?_, ?_⟩
  · obtain ⟨⟨hsame, -⟩, -⟩ := hconf.same m i
    obtain ⟨hstatus, hsignature⟩ := h.disks i
    exact ⟨(hsame _ (by decide) (by decide) (by decide) (by decide)).trans hstatus,
      (hsame _ (by decide) (by decide) (by decide) (by decide)).trans hsignature⟩
  · exact (hconf.same m index).2.trans h.implemented

theorem portIsSataDisk_triple (hconf : Conforms disk device) (i : Nat) :
    Triple (Searching m₀ index) (portIsSataDisk device i)
      (fun found m => Searching m₀ index m ∧ found = isSataDisk (m₀.hba.ports i))
      fun _ _ => True := by
  rw [portIsSataDisk]
  refine Triple.bind (Q := fun value m => Searching m₀ index m ∧
    value = (m₀.hba.ports i).regs .serialAtaStatus) ?_ fun status => ?_
  · exact fun m h => ⟨h.next hconf, ((h.next hconf).disks i).1⟩
  refine Triple.bind (Q := fun value m => Searching m₀ index m ∧
    status = (m₀.hba.ports i).regs .serialAtaStatus ∧
      value = (m₀.hba.ports i).regs .signature) ?_ fun signature => ?_
  · exact fun m h => ⟨h.1.next hconf, h.2, ((h.1.next hconf).disks i).2⟩
  · refine Triple.pure fun m h => ⟨h.1, ?_⟩
    rw [h.2.1, h.2.2, isSataDisk]

/-- **The search** ends at the first port that can be used. -/
theorem findPort_triple (index : Nat) (hconf : Conforms disk device)
    (hlist : ctl.commandListPaddr < u64Limit) (hfis : ctl.fisPaddr < u64Limit) (rounds i : Nat)
    (hbefore : ∀ j < i, ¬ Usable m₀ j) :
    Triple (Searching m₀ index) (findPort device ctl m₀.hba.portsImplemented rounds i)
      (fun found m => found = { ctl with portIndex := found.portIndex } ∧
        (Usable m₀ found.portIndex ∧ ∀ j < found.portIndex, ¬ Usable m₀ j) ∧
          (found.portIndex = index → Idle found m.memory m))
      fun _ _ => True := by
  induction rounds generalizing i with
  | zero => exact Triple.throw fun _ _ => trivial
  | succ rounds ih =>
    have hnext : ¬ Usable m₀ i → ∀ j < i + 1, ¬ Usable m₀ j := by
      intro hnot j hj
      obtain hlt | rfl := Nat.lt_succ_iff_lt_or_eq.mp hj
      · exact hbefore j hlt
      · exact hnot
    rw [findPort]
    split_ifs with himplemented
    · refine (portIsSataDisk_triple hconf i).bind fun found => ?_
      refine Triple.of_start fun m h => ?_
      obtain ⟨hsearching, rfl⟩ := h
      by_cases hdisk : isSataDisk (m₀.hba.ports i) = true
      · rw [if_pos hdisk]
        refine Triple.bind (Q := fun _ m => i = index →
          Idle { ctl with portIndex := i } m.memory m) ?_ fun _ => ?_
        · by_cases hi : i = index
          · refine (initializePort_triple { ctl with portIndex := i } hconf hlist
              hfis).conseq ?_ (fun _ _ h _ => h) fun _ _ h => h
            rintro m rfl
            subst hi
            exact ⟨hsearching.alone, hsearching.coherent⟩
          · exact (Triple.top _).conseq (fun _ h => h) (fun _ _ _ h => absurd h hi) fun _ _ h => h
        · exact Triple.pure fun m h => ⟨rfl, ⟨⟨himplemented, hdisk⟩, hbefore⟩, h⟩
      · rw [if_neg hdisk]
        refine (ih (i + 1) (hnext fun h => hdisk h.2)).conseq ?_ (fun _ _ h => h) fun _ _ h => h
        rintro m rfl
        exact hsearching
    · exact ih (i + 1) (hnext fun h => himplemented h.1)

/-! ## From the start on -/

theorem allocateKernelPage_eq_ok {m m' : Machine} {page : Nat}
    (h : allocateKernelPage m = .ok page m') (hvalid : m.memory.allocator.Valid) :
    m.memory.allocator.frames = page :: m'.memory.allocator.frames ∧
      m'.memory.allocator.Valid ∧ m'.hba = m.hba := by
  rw [allocateKernelPage] at h
  cases hpage : MemoryState.allocatePage m.memory with
  | error e memory =>
    rw [hpage] at h
    cases h
  | ok page' memory =>
    rw [hpage] at h
    cases h
    obtain ⟨a, hsome, rfl⟩ := MemoryState.allocatePage_eq_ok hpage
    exact ⟨PhysicalAllocator.frames_allocatePage hvalid hsome,
      (PhysicalAllocator.allocatePage_spec hvalid hsome).1, rfl⟩

/-- **The driver after `initialize`.** -/
theorem initializeController_eq_ok (hconf : Conforms disk device) {abar : Nat} {m m₁ : Machine}
    (hvalid : m.memory.allocator.Valid)
    (h : initializeController device abar m = .ok ctl m₁) (halone : m.Alone ctl.portIndex)
    (hcoherent : (ctl.port m).Coherent) :
    ctl.Placed ∧ (∀ page ∈ ctl.pages, page ∈ m.memory.allocator.frames) ∧
      (Usable m ctl.portIndex ∧ ∀ j < ctl.portIndex, ¬ Usable m j) ∧
      Idle ctl m₁.memory m₁ := by
  rw [initializeController] at h
  obtain ⟨list, s₁, h₁, h⟩ := EStateM.bind_eq_ok.mp h
  obtain ⟨fis, s₂, h₂, h⟩ := EStateM.bind_eq_ok.mp h
  obtain ⟨table, s₃, h₃, h⟩ := EStateM.bind_eq_ok.mp h
  obtain ⟨dma, s₄, h₄, h⟩ := EStateM.bind_eq_ok.mp h
  obtain ⟨hframes₁, hvalid₁, hhba₁⟩ := allocateKernelPage_eq_ok h₁ hvalid
  obtain ⟨hframes₂, hvalid₂, hhba₂⟩ := allocateKernelPage_eq_ok h₂ hvalid₁
  obtain ⟨hframes₃, hvalid₃, hhba₃⟩ := allocateKernelPage_eq_ok h₃ hvalid₂
  obtain ⟨hframes₄, -, hhba₄⟩ := allocateKernelPage_eq_ok h₄ hvalid₃
  have hframes : m.memory.allocator.frames =
      [list, fis, table, dma] ++ s₄.memory.allocator.frames := by
    rw [hframes₁, hframes₂, hframes₃, hframes₄]
    rfl
  have hhba : s₄.hba = m.hba := hhba₄.trans (hhba₃.trans (hhba₂.trans hhba₁))
  have hpages : ∀ page ∈ [list, fis, table, dma], page ∈ m.memory.allocator.frames := by
    intro page hpage
    rw [hframes]
    exact List.mem_append_left _ hpage
  have hbound : ∀ page ∈ [list, fis, table, dma], page % 4096 = 0 ∧ page < u64Limit := by
    intro page hpage
    obtain ⟨haligned, -, hlimit⟩ := PhysicalAllocator.frame_bounds hvalid (hpages page hpage)
    exact ⟨haligned, by omega⟩
  have hsearching : Searching m ctl.portIndex s₄ := by
    refine ⟨?_, ?_, fun i => ?_, ?_⟩
    · rw [Machine.Alone, hhba]
      exact halone
    · rw [hhba]
      exact hcoherent
    · rw [hhba]
      exact ⟨rfl, rfl⟩
    · rw [hhba]
  -- AHCI mode does not touch the ports
  obtain ⟨⟨⟩, s₅, henable, h⟩ := EStateM.bind_eq_ok.mp h
  have henabled : Searching m ctl.portIndex s₅ := by
    have hrun : enableAhciMode device s₄ = .ok ⟨⟩ s₅ := henable
    obtain rfl : { next device (next device s₄) with
        hba := { (next device (next device s₄)).hba with
          globalHostControl := (next device s₄).hba.globalHostControl ||| ahciGhcAe } } = s₅ :=
      EStateM.Result.ok.inj hrun |>.2
    have htwice := (hsearching.next hconf).next hconf
    exact ⟨htwice.alone, htwice.coherent, htwice.disks, htwice.implemented⟩
  obtain ⟨⟨⟩, s₆, hadvance, h⟩ := EStateM.bind_eq_ok.mp h
  obtain rfl : next device s₅ = s₆ := EStateM.Result.ok.inj hadvance |>.2
  have hready := henabled.next hconf
  rw [EStateM.get_bind, hready.implemented] at h
  obtain ⟨hctl, hfirst, hidle⟩ := (findPort_triple ctl.portIndex hconf
    (hbound list (by simp)).2 (hbound fis (by simp)).2 32 0
    fun j hj => absurd hj (Nat.not_lt_zero j)).ok hready h
  have hidle := hidle rfl
  refine ⟨?_, ?_, hfirst, hidle⟩
  · rw [hctl]
    refine ⟨fun page hpage => (hbound page hpage).1, fun page hpage => (hbound page hpage).2, ?_⟩
    have hpairwise := PhysicalAllocator.frames_pairwise hvalid
    rw [hframes] at hpairwise
    exact (List.pairwise_append.mp hpairwise).1
  · rw [hctl]
    exact hpages

/-! ## Runs -/

theorem Frame.trans {m' : Machine} (h : Frame ctl memory m) (h' : Frame ctl m.memory m') :
    Frame ctl memory m' := by
  obtain ⟨phys, hmemory, hwrites⟩ := h
  obtain ⟨phys', hmemory', hwrites'⟩ := h'
  rw [hmemory] at hmemory' hwrites'
  exact ⟨phys', hmemory', hwrites.trans hwrites'⟩

/-- **Some sectors**, up to the first error. -/
theorem readSectors_triple (hconf : Conforms disk device) (hplaced : ctl.Placed) (lbas : List Nat)
    (t : Nat) :
    Triple (fun m => Idle ctl m.memory m ∧ Frame ctl memory m ∧ t ≤ m.clock)
      (lbas.mapM (readSector device ctl))
      (fun sectors m => sectors = (lbas.map fun lba => disk ctl.portIndex (lba % 2 ^ 48)) ∧
        Frame ctl memory m)
      fun e m => Frame ctl memory m ∧
        ((e = .ahciCommandTimeout ∧ t + (maxSpins + 1) ≤ m.clock) ∨
          (e = .ahciTaskFileError ∧ Attached ctl m ∧ (ctl.port m).Stopped)) := by
  induction lbas with
  | nil =>
    rw [List.mapM_nil]
    exact Triple.pure fun m h => ⟨rfl, h.2.1⟩
  | cons lba lbas ih =>
    rw [List.mapM_cons]
    refine Triple.bind (Q := fun sector m => sector = disk ctl.portIndex (lba % 2 ^ 48) ∧
      Idle ctl m.memory m ∧ Frame ctl memory m ∧ t ≤ m.clock) ?_ fun sector => ?_
    · refine Triple.of_start fun m₀ h₀ => ?_
      obtain ⟨hidle, hframe, hclock⟩ := h₀
      have hread : Triple (fun m => Idle ctl m₀.memory m ∧ m.clock = m₀.clock) _ _ _ :=
        readSector_triple hconf hplaced lba m₀.clock
      refine hread.conseq ?_ (fun sector m h => ?_) fun e m h => ?_
      · rintro m rfl
        exact ⟨hidle, rfl⟩
      · exact ⟨h.1, h.2.2.1, hframe.trans h.2.1, Nat.le_trans hclock h.2.2.2⟩
      · obtain ⟨hafter, ⟨rfl, hlate⟩ | hfailed⟩ := h
        · exact ⟨hframe.trans hafter, .inl ⟨rfl, by omega⟩⟩
        · exact ⟨hframe.trans hafter, .inr hfailed⟩
    · refine Triple.bind (Q := fun sectors m =>
        sector :: sectors = ((lba :: lbas).map fun lba => disk ctl.portIndex (lba % 2 ^ 48)) ∧
          Frame ctl memory m) ?_ fun sectors => Triple.pure fun m h => h
      refine Triple.of_start fun m₀ h₀ => ?_
      refine ih.conseq ?_ (fun sectors m h => ⟨?_, h.2⟩) fun _ _ h => h
      · rintro m rfl
        exact h₀.2
      · rw [h₀.1, h.1, List.map_cons]

end Steps

/-! ## A controller with one disk -/

/-- A controller that does at once what there is to do on port 0, and completes a command or not. -/
def promptDevice (disk : Nat → Sector) (completes : Bool) (m : Machine) : Machine :=
  let p := m.hba.ports 0
  let phys := m.memory.phys
  if p.Started ∧ ¬ p.Running then m.withPort 0 phys p.listEngine
  else if p.Running ∧ p.Issued ∧ p.halted = false then
    if completes then
      match p.accepted with
      | none =>
        match fetch phys (p.address .commandListBase .commandListBaseUpper) with
        | some command => m.withPort 0 phys { p with accepted := some command }
        | none => m.withPort 0 phys p
      | some command =>
        if (command.data disk).length ≤ command.byteCount then
          m.withPort 0 (p.transfer phys command.dataBase (command.data disk)
            (List.replicate 20 0)) p.finished
        else m.withPort 0 phys p
    else m.withPort 0 phys p.broken
  else m.withPort 0 phys p

theorem conforms_promptDevice (disk : Nat → Nat → Sector) (completes : Bool) :
    Conforms disk (promptDevice (disk 0) completes) := by
  intro m
  unfold promptDevice
  dsimp only
  split_ifs with hengine hcommand hcompletes
  · exact ⟨0, _, _, .listEngine _ _, rfl⟩
  · obtain ⟨hrunning, hissued, hhalted⟩ := hcommand
    split
    · rename_i hfree
      split
      · rename_i command hfetch
        exact ⟨0, _, _, .accept _ _ hrunning hissued hfree hhalted hfetch, rfl⟩
      · exact ⟨0, _, _, .idle _ _, rfl⟩
    · rename_i command haccepted
      split_ifs with hroom
      · exact ⟨0, _, _, .complete _ _ haccepted hroom (List.length_replicate ..), rfl⟩
      · exact ⟨0, _, _, .idle _ _, rfl⟩
  · obtain ⟨hrunning, hissued, hhalted⟩ := hcommand
    exact ⟨0, _, _, .fail _ _ hrunning hissued hhalted, rfl⟩
  · exact ⟨0, _, _, .idle _ _, rfl⟩

/-- The registers of a port with a disk that nobody has used. -/
def freshPort : Port where
  regs
    | .serialAtaStatus => 0x103
    | .signature => 0x101
    | _ => 0
  accepted := none
  halted := false

def emptyPort : Port := ⟨fun _ => 0, none, false⟩

/-- Sixteen free pages, and a disk on port 0. -/
def sampleMachine : Machine where
  memory :=
    { MemoryState.new ⟨fun _ => 0, []⟩ with
      allocator := (PhysicalAllocator.new.insertRange 0x1000000 0x1010000).getD .new }
  hba := ⟨0, 1, fun i => if i = 0 then freshPort else emptyPort⟩
  clock := 0

/-- Each sector has its number in all bytes. -/
def numberedDisk (_ lba : Nat) : Sector := Vector.replicate sectorSize (UInt8.ofNat lba)

theorem valid_sampleMachine : sampleMachine.memory.allocator.Valid := by
  have hsome : (PhysicalAllocator.new.insertRange 0x1000000 0x1010000).isSome := by decide +kernel
  obtain ⟨a, ha⟩ := Option.isSome_iff_exists.mp hsome
  show ((PhysicalAllocator.new.insertRange 0x1000000 0x1010000).getD .new).Valid
  rw [ha]
  exact (PhysicalAllocator.addRegion_spec PhysicalAllocator.valid_new (by decide) (by decide)
    (by decide) (by decide) ha).1

/-- No port of it has a command. -/
theorem ports_sampleMachine (i : Nat) :
    (sampleMachine.hba.ports i).Quiet ∧ (sampleMachine.hba.ports i).Coherent := by
  show (if i = 0 then freshPort else emptyPort).Quiet ∧
    (if i = 0 then freshPort else emptyPort).Coherent
  split_ifs
  · exact ⟨⟨by decide, rfl⟩, ⟨fun _ => by decide, fun _ => ⟨rfl, rfl⟩⟩⟩
  · exact ⟨⟨by decide, rfl⟩, ⟨fun _ => by decide, fun _ => ⟨rfl, rfl⟩⟩⟩

/-- How a run has ended. -/
def endOf {α : Type} : EStateM.Result StorageError Machine α → Option StorageError
  | .ok _ _ => none
  | .error e _ => some e

section Results

variable {disk : Nat → Nat → Sector} {device : Machine → Machine}

/-- **The port after an error of the disk**: it does nothing any more. -/
structure Dead (ctl : AhciController) (m : Machine) : Prop extends Attached ctl m where
  stopped : (ctl.port m).Stopped

theorem Dead.next (hconf : Conforms disk device) (h : Dead ctl m) : Dead ctl (next device m) := by
  obtain ⟨phys, hstep, -, hattached⟩ := h.toAttached.next hconf
  exact ⟨hattached, (hstep.of_stopped h.stopped).2.1⟩

/-- Another value in a register leaves the command where it is. -/
theorem Dead.put (h : Dead ctl m) {reg : PortReg} (value : BitVec 32)
    (hreg : reg = .interruptStatus ∨ reg = .taskFileData ∨ reg = .commandIssue)
    (hissued : ((ctl.port m).set reg value).Issued) :
    Dead ctl (ctl.putPort m ((ctl.port m).set reg value)) := by
  have hsame : (ctl.port m).Same ((ctl.port m).set reg value) := Port.same_set hreg
  refine ⟨h.toAttached.putPort hsame, ?_⟩
  rw [port_putPort]
  exact ⟨hsame.2.mpr h.stopped.started, hissued, h.stopped.halted, h.stopped.accepted⟩

theorem pollCommand_dead (hconf : Conforms disk device) (spins : Nat) :
    Triple (Dead ctl) (pollCommand device ctl spins) (fun _ _ => False) fun _ => Dead ctl := by
  induction spins with
  | zero => exact Triple.throw fun _ h => h
  | succ spins ih =>
    rw [pollCommand]
    refine Triple.bind (Q := fun _ => Dead ctl) ?_ fun status => ?_
    · exact readPortReg_triple fun m h => h.next hconf
    split_ifs
    · exact Triple.throw fun _ h => h
    refine Triple.bind (Q := fun value m => Dead ctl m ∧
      value = (ctl.port m).regs .commandIssue) ?_ fun issue => ?_
    · exact readPortReg_triple fun m h => ⟨h.next hconf, rfl⟩
    split_ifs with hclear
    · refine Triple.pure fun m h => ?_
      obtain ⟨hdead, rfl⟩ := h
      exact hdead.stopped.issued hclear
    · exact ih.conseq (fun _ h => h.1) (fun _ _ h => h) fun _ _ h => h

/-- **Nothing is read any more.** -/
theorem readSector_dead (hconf : Conforms disk device) (lba : Nat) :
    Triple (Dead ctl) (readSector device ctl lba) (fun _ _ => False) fun _ => Dead ctl := by
  rw [readSector]
  refine Triple.bind (Q := fun _ => Dead ctl) ?_ fun _ => ?_
  · refine Triple.of_start fun m₀ h₀ => ?_
    refine (pollClear_triple (fun m h => h.next hconf) _ _ _ m₀.clock).conseq ?_
      (fun _ _ h => h.1) fun _ _ h => h.2.1
    rintro m rfl
    exact ⟨h₀, rfl⟩
  refine Triple.bind (Q := fun _ => Dead ctl) ?_ fun _ => ?_
  · refine writePortReg_triple fun m h => (h.next hconf).put _ (.inl rfl) ?_
    exact (Port.issued_set (by decide)).mpr (h.next hconf).stopped.issued
  refine Triple.bind (Q := fun _ => Dead ctl) ?_ fun _ => ?_
  · exact Triple.modify fun m h => ⟨⟨h.list, h.fis, h.started, h.alone⟩, h.stopped⟩
  refine Triple.bind (Q := fun _ => Dead ctl) ?_ fun _ => ?_
  · exact Triple.modify fun m h => ⟨⟨h.list, h.fis, h.started, h.alone⟩, h.stopped⟩
  refine Triple.bind (Q := fun _ => Dead ctl) ?_ fun _ => ?_
  · refine writePortReg_triple fun m h => ?_
    have hdead := h.next hconf
    rw [Port.write, if_pos hdead.started]
    refine hdead.put _ (.inr (.inr rfl)) ?_
    rw [Port.Issued, Port.regs_set_self]
    exact Port.or_and_ne_zero (by decide)
  refine (pollCommand_dead hconf _).bind fun _ => ?_
  exact fun _ h => h.elim

/-- The sectors one after the other, also after an error. -/
def readEach (device : Machine → Machine) (ctl : AhciController) :
    (lbas : List Nat) → Machine → List (Except StorageError Sector)
  | [], _ => []
  | lba :: lbas, m =>
    match readSector device ctl lba m with
    | .ok sector m => .ok sector :: readEach device ctl lbas m
    | .error e m => .error e :: readEach device ctl lbas m

end Results

end AhciController

end Lazers.Storage
