import Lazers.Lib.Triple
import Lazers.Memory.State
import Lazers.Storage.Fat32
import Mathlib.Logic.Function.Basic

/-!
# An AHCI controller and its disks

The controller is not a part of the kernel. What the driver knows of it are registers and memory
that both of them read and write, and between two accesses of the driver the controller does
something of its own. `PortStep` are the things that it may do: change its status, start and stop
its engines, accept the command in slot 0 of the command list, and complete or fail it.

A controller is any function that `Conforms` to this, with any timing, and with any failures. What
it reads for a command are the bytes in memory, so that a header or a FIS that the driver gets wrong
is a command that is never completed, or one that reads something else.

`PortStep.quiet` and `PortStep.of_pending` say all that can happen to a port without and with a
command.
-/

namespace Lazers.Storage

open Memory

/-! ## Registers -/

/-- The registers of `HbaPort` that the driver uses. -/
inductive PortReg where
  | commandListBase
  | commandListBaseUpper
  | fisBase
  | fisBaseUpper
  | interruptStatus
  | interruptEnable
  | commandStatus
  | taskFileData
  | signature
  | serialAtaStatus
  | serialAtaError
  | commandIssue
deriving DecidableEq, Repr

def ahciGhcAe : BitVec 32 := 1 <<< 31
def ahciPortCmdSt : BitVec 32 := 1 <<< 0
def ahciPortCmdFre : BitVec 32 := 1 <<< 4
def ahciPortCmdFr : BitVec 32 := 1 <<< 14
def ahciPortCmdCr : BitVec 32 := 1 <<< 15
def ahciPortTfdBsy : BitVec 32 := 1 <<< 7
def ahciPortTfdDrq : BitVec 32 := 1 <<< 3
def ahciPortIsTfes : BitVec 32 := 1 <<< 30

/-- A command to read, as the controller has it. -/
structure ReadCommand where
  lba : Nat
  count : Nat
  dataBase : Nat
  byteCount : Nat
deriving DecidableEq, Repr

/-- A port: its registers, the command that it has accepted, and whether a failure has stopped
it. -/
structure Port where
  regs : PortReg → BitVec 32
  accepted : Option ReadCommand
  halted : Bool

namespace Port

def set (p : Port) (reg : PortReg) (value : BitVec 32) : Port :=
  { p with regs := Function.update p.regs reg value }

/-- A 64-bit address in two registers. -/
def address (p : Port) (low high : PortReg) : Nat :=
  (p.regs low).toNat + 2 ^ 32 * (p.regs high).toNat

def Started (p : Port) : Prop := p.regs .commandStatus &&& ahciPortCmdSt ≠ 0

/-- The command list engine is running. -/
def Running (p : Port) : Prop := p.regs .commandStatus &&& ahciPortCmdCr ≠ 0

/-- The command in slot 0 is issued. -/
def Issued (p : Port) : Prop := p.regs .commandIssue &&& 1 ≠ 0

instance (p : Port) : Decidable p.Started := inferInstanceAs (Decidable (_ ≠ _))

instance (p : Port) : Decidable p.Running := inferInstanceAs (Decidable (_ ≠ _))

instance (p : Port) : Decidable p.Issued := inferInstanceAs (Decidable (_ ≠ _))

/-- Writing a register: some bits are cleared by a one, some are read-only, a command is only issued
on a port that is started, and to stop a port takes the commands back. -/
def write (p : Port) (reg : PortReg) (value : BitVec 32) : Port :=
  match reg with
  | .interruptStatus => p.set .interruptStatus (p.regs .interruptStatus &&& ~~~value)
  | .serialAtaError => p.set .serialAtaError (p.regs .serialAtaError &&& ~~~value)
  | .commandIssue =>
    if p.Started then p.set .commandIssue (p.regs .commandIssue ||| value) else p
  | .commandStatus =>
    let engines := ahciPortCmdCr ||| ahciPortCmdFr
    let stopped := if value &&& ahciPortCmdSt = 0 then p.set .commandIssue 0 else p
    stopped.set .commandStatus ((value &&& ~~~engines) ||| (p.regs .commandStatus &&& engines))
  | .taskFileData => p
  | .signature => p
  | .serialAtaStatus => p
  | reg => p.set reg value

/-- The command list engine follows `ST`. When it stops, what it has accepted is gone. -/
def listEngine (p : Port) : Port :=
  if p.Started then p.set .commandStatus (p.regs .commandStatus ||| ahciPortCmdCr)
  else
    { p.set .commandStatus (p.regs .commandStatus &&& ~~~ahciPortCmdCr) with
      accepted := none
      halted := false }

/-- The engine that receives a FIS follows `FRE`. -/
def fisEngine (p : Port) : Port :=
  if p.regs .commandStatus &&& ahciPortCmdFre ≠ 0 then
    p.set .commandStatus (p.regs .commandStatus ||| ahciPortCmdFr)
  else p.set .commandStatus (p.regs .commandStatus &&& ~~~ahciPortCmdFr)

/-- After a command. -/
def finished (p : Port) : Port :=
  { (p.set .commandIssue (p.regs .commandIssue &&& ~~~1)).set .interruptStatus
      (p.regs .interruptStatus ||| 1) with accepted := none }

/-- After a failure. -/
def broken (p : Port) : Port :=
  { p.set .interruptStatus (p.regs .interruptStatus ||| ahciPortIsTfes) with
    accepted := none
    halted := true }

end Port

/-! ## Commands -/

/-- The command in slot 0 of the list: a header for a FIS of five words and one piece of memory, and
in its table the FIS of a `READ DMA EXT`. -/
def fetch (memory : ByteMemory) (list : Nat) : Option ReadCommand :=
  let table := memory.readWord (list + 8) 4 + 2 ^ 32 * memory.readWord (list + 12) 4
  let fis := fun i => (memory.byte (table + i)).toNat
  if list % 1024 = 0 ∧ memory.byte list = 5 ∧ memory.readWord (list + 2) 2 = 1 ∧ table % 128 = 0 ∧
      fis 0 = 0x27 ∧ fis 1 = 0x80 ∧ fis 2 = 0x25 ∧ fis 7 = 0x40 then
    some {
      lba := fis 4 + 2 ^ 8 * fis 5 + 2 ^ 16 * fis 6 + 2 ^ 24 * fis 8 + 2 ^ 32 * fis 9 +
        2 ^ 40 * fis 10
      count := fis 12 + 2 ^ 8 * fis 13
      dataBase := memory.readWord (table + 0x80) 4 + 2 ^ 32 * memory.readWord (table + 0x84) 4
      byteCount := memory.readWord (table + 0x8c) 4 % 2 ^ 22 + 1 }
  else none

/-- The bytes that a command reads. -/
def ReadCommand.data (command : ReadCommand) (disk : Nat → Sector) : List UInt8 :=
  (List.range command.count).flatMap fun i => (disk (command.lba + i)).toList

/-- The memory behind a command: the data, the length of it in the header, and the FIS that the disk
has sent. -/
def Port.transfer (p : Port) (m : ByteMemory) (dataBase : Nat) (data received : List UInt8) :
    ByteMemory :=
  ((m.write dataBase data).write (p.address .commandListBase .commandListBaseUpper + 4)
    (ByteMemory.wordBytes data.length 4)).write (p.address .fisBase .fisBaseUpper + 0x40) received

/-- **What a port does of its own**, to the memory and to itself. -/
inductive PortStep (disk : Nat → Sector) : ByteMemory → Port → ByteMemory → Port → Prop where
  | idle (m : ByteMemory) (p : Port) : PortStep disk m p m p
  | status (m : ByteMemory) (p : Port) (value : BitVec 32) :
      PortStep disk m p m (p.set .taskFileData value)
  | listEngine (m : ByteMemory) (p : Port) : PortStep disk m p m p.listEngine
  | fisEngine (m : ByteMemory) (p : Port) : PortStep disk m p m p.fisEngine
  | accept (m : ByteMemory) (p : Port) {command : ReadCommand} (hengine : p.Running)
      (hissued : p.Issued) (hfree : p.accepted = none) (hrunning : p.halted = false)
      (hfetch : fetch m (p.address .commandListBase .commandListBaseUpper) = some command) :
      PortStep disk m p m { p with accepted := some command }
  | complete (m : ByteMemory) (p : Port) {command : ReadCommand} {received : List UInt8}
      (haccepted : p.accepted = some command)
      (hroom : (command.data disk).length ≤ command.byteCount) (hreceived : received.length = 20) :
      PortStep disk m p
        (p.transfer m command.dataBase (command.data disk) received)
        p.finished
  | fail (m : ByteMemory) (p : Port) (hengine : p.Running) (hissued : p.Issued)
      (hrunning : p.halted = false) :
      PortStep disk m p m p.broken

/-! ## What a port may be -/

/-- No command. -/
structure Port.Quiet (p : Port) : Prop where
  issued : ¬ p.Issued
  accepted : p.accepted = none

/-- A port that has been stopped has no command, and an engine that has stopped neither. -/
structure Port.Coherent (p : Port) : Prop where
  stopped : ¬ p.Started → ¬ p.Issued
  engine : ¬ p.Running → p.accepted = none ∧ p.halted = false

/-- The registers that only the driver writes. -/
def Port.Same (p p' : Port) : Prop :=
  (∀ reg, reg ≠ .interruptStatus → reg ≠ .commandStatus → reg ≠ .taskFileData →
    reg ≠ .commandIssue → p'.regs reg = p.regs reg) ∧ (p'.Started ↔ p.Started)

namespace Port

variable {p p' p₁ : Port} {reg : PortReg} {value : BitVec 32}

theorem Same.refl : Same p p := ⟨fun _ _ _ _ _ => rfl, Iff.rfl⟩

theorem Same.trans (h : Same p p₁) (h' : Same p₁ p') : Same p p' :=
  ⟨fun reg h₁ h₂ h₃ h₄ => (h'.1 reg h₁ h₂ h₃ h₄).trans (h.1 reg h₁ h₂ h₃ h₄), h'.2.trans h.2⟩

theorem Same.list (h : Same p p') : p'.address .commandListBase .commandListBaseUpper =
    p.address .commandListBase .commandListBaseUpper := by
  rw [address, address, h.1 _ (by decide) (by decide) (by decide) (by decide),
    h.1 _ (by decide) (by decide) (by decide) (by decide)]

theorem Same.fis (h : Same p p') :
    p'.address .fisBase .fisBaseUpper = p.address .fisBase .fisBaseUpper := by
  rw [address, address, h.1 _ (by decide) (by decide) (by decide) (by decide),
    h.1 _ (by decide) (by decide) (by decide) (by decide)]

theorem regs_set (p : Port) (reg reg' : PortReg) (value : BitVec 32) :
    (p.set reg value).regs reg' = if reg' = reg then value else p.regs reg' :=
  Function.update_apply _ _ _ _

theorem regs_set_of_ne {reg' : PortReg} (h : reg' ≠ reg) :
    (p.set reg value).regs reg' = p.regs reg' := by
  rw [regs_set, if_neg h]

theorem regs_set_self (p : Port) (reg : PortReg) (value : BitVec 32) :
    (p.set reg value).regs reg = value := by
  rw [regs_set, if_pos rfl]

/-- A register that is not among those that only the driver writes. -/
theorem same_set (hreg : reg = .interruptStatus ∨ reg = .taskFileData ∨ reg = .commandIssue) :
    Same p (p.set reg value) := by
  constructor
  · intro reg' h₁ h₂ h₃ h₄
    refine regs_set_of_ne ?_
    rintro rfl
    obtain rfl | rfl | rfl := hreg
    · exact h₁ rfl
    · exact h₃ rfl
    · exact h₄ rfl
  · rw [Started, Started, regs_set_of_ne]
    obtain rfl | rfl | rfl := hreg
    all_goals decide

/-- Other bits of the command leave `ST`. -/
theorem same_setCommand (h : value &&& ahciPortCmdSt = p.regs .commandStatus &&& ahciPortCmdSt) :
    Same p (p.set .commandStatus value) := by
  refine ⟨fun reg' _ h₂ _ _ => regs_set_of_ne h₂, ?_⟩
  rw [Started, Started, regs_set_self, h]

theorem or_and_of_disjoint {a b mask : BitVec 32} (h : b &&& mask = 0) :
    (a ||| b) &&& mask = a &&& mask := by
  ext i hi
  have hbit : (b &&& mask)[i] = (0 : BitVec 32)[i] := by rw [h]
  simp only [BitVec.getElem_and, BitVec.getElem_or] at hbit ⊢
  cases hb : b[i] <;> simp_all

theorem and_not_and_of_disjoint {a b mask : BitVec 32} (h : b &&& mask = 0) :
    (a &&& ~~~b) &&& mask = a &&& mask := by
  ext i hi
  have hbit : (b &&& mask)[i] = (0 : BitVec 32)[i] := by rw [h]
  simp only [BitVec.getElem_and, BitVec.getElem_not] at hbit ⊢
  cases hb : b[i] <;> simp_all

theorem or_and_ne_zero {a b mask : BitVec 32} (h : b &&& mask ≠ 0) : (a ||| b) &&& mask ≠ 0 := by
  intro hzero
  refine h ?_
  ext i hi
  have hbit : ((a ||| b) &&& mask)[i] = (0 : BitVec 32)[i] := by rw [hzero]
  simp only [BitVec.getElem_and, BitVec.getElem_or] at hbit ⊢
  cases hb : b[i] <;> simp_all

/-- The bits that are written, and those that are not. -/
theorem written_and {value old engines mask : BitVec 32} (h : engines &&& mask = 0) :
    ((value &&& ~~~engines) ||| (old &&& engines)) &&& mask = value &&& mask := by
  ext i hi
  have hbit : (engines &&& mask)[i] = (0 : BitVec 32)[i] := by rw [h]
  simp only [BitVec.getElem_and, BitVec.getElem_or, BitVec.getElem_not] at hbit ⊢
  cases he : engines[i] <;> simp_all

theorem unwritten_and {value old engines mask : BitVec 32} (h : engines &&& mask = mask) :
    ((value &&& ~~~engines) ||| (old &&& engines)) &&& mask = old &&& mask := by
  ext i hi
  have hbit : (engines &&& mask)[i] = mask[i] := by rw [h]
  simp only [BitVec.getElem_and, BitVec.getElem_or, BitVec.getElem_not] at hbit ⊢
  cases he : engines[i] <;> simp_all

theorem same_fisEngine : Same p p.fisEngine := by
  rw [fisEngine]
  split_ifs
  · exact same_setCommand (or_and_of_disjoint (by decide))
  · exact same_setCommand (and_not_and_of_disjoint (by decide))

theorem same_listEngine : Same p p.listEngine := by
  rw [listEngine]
  split_ifs with h
  · exact same_setCommand (or_and_of_disjoint (by decide))
  · exact same_setCommand (and_not_and_of_disjoint (by decide))

theorem listEngine_of_started (h : p.Started) :
    p.listEngine = p.set .commandStatus (p.regs .commandStatus ||| ahciPortCmdCr) := if_pos h

theorem fisEngine_eq (p : Port) : ∃ value, p.fisEngine = p.set .commandStatus value := by
  rw [fisEngine]
  split_ifs
  · exact ⟨_, rfl⟩
  · exact ⟨_, rfl⟩

/-- A command that is not completed: the controller may have accepted it or not. -/
structure Pending (p : Port) (command : ReadCommand) : Prop where
  started : p.Started
  issued : p.Issued
  running : p.halted = false
  accepted : p.accepted = none ∨ p.accepted = some command

theorem regs_finished {reg : PortReg} (h₁ : reg ≠ .commandIssue) (h₂ : reg ≠ .interruptStatus) :
    p.finished.regs reg = p.regs reg := by
  show ((p.set .commandIssue (p.regs .commandIssue &&& ~~~1)).set .interruptStatus
    (p.regs .interruptStatus ||| 1)).regs reg = _
  rw [regs_set_of_ne h₂, regs_set_of_ne h₁]

theorem not_issued_finished : ¬ p.finished.Issued := by
  have hzero : p.finished.regs .commandIssue &&& 1 = 0 := by
    show ((p.set .commandIssue (p.regs .commandIssue &&& ~~~1)).set .interruptStatus
      (p.regs .interruptStatus ||| 1)).regs .commandIssue &&& 1 = 0
    rw [regs_set_of_ne (by decide), regs_set_self, BitVec.and_assoc,
      show (~~~1 : BitVec 32) &&& 1 = 0#32 by decide, BitVec.and_zero]
    rfl
  exact fun h => h hzero

/-- The disk has reported an error. -/
def Failed (p : Port) : Prop := p.regs .interruptStatus &&& ahciPortIsTfes ≠ 0

instance (p : Port) : Decidable p.Failed := inferInstanceAs (Decidable (_ ≠ _))

theorem issued_set (h : PortReg.commandIssue ≠ reg) : (p.set reg value).Issued ↔ p.Issued := by
  rw [Issued, Issued, regs_set_of_ne h]

theorem failed_finished : p.finished.Failed ↔ p.Failed := by
  rw [Failed, Failed]
  show ((p.set .commandIssue (p.regs .commandIssue &&& ~~~1)).set .interruptStatus
    (p.regs .interruptStatus ||| 1)).regs .interruptStatus &&& ahciPortIsTfes ≠ 0 ↔ _
  rw [regs_set_self, or_and_of_disjoint (by decide)]

theorem failed_broken : p.broken.Failed := by
  show (p.set .interruptStatus (p.regs .interruptStatus ||| ahciPortIsTfes)).regs
    .interruptStatus &&& ahciPortIsTfes ≠ 0
  rw [regs_set_self]
  exact or_and_ne_zero (by decide)

theorem failed_set (h : PortReg.interruptStatus ≠ reg) :
    (p.set reg value).Failed ↔ p.Failed := by
  rw [Failed, Failed, regs_set_of_ne h]

/-- A failure has stopped the port, with the command still in its slot. -/
structure Stopped (p : Port) : Prop where
  started : p.Started
  issued : p.Issued
  halted : p.halted = true
  accepted : p.accepted = none

end Port

/-! ## What a step does to a port -/

namespace PortStep

variable {disk : Nat → Sector} {m m' : ByteMemory} {p p' : Port}

/-- The registers of the driver are its own. -/
theorem same (h : PortStep disk m p m' p') : p.Same p' := by
  cases h with
  | idle => exact .refl
  | status value => exact Port.same_set (.inr (.inl rfl))
  | listEngine => exact Port.same_listEngine
  | fisEngine => exact Port.same_fisEngine
  | accept => exact .refl
  | complete =>
    exact (Port.same_set (.inr (.inr rfl))).trans (Port.same_set (.inl rfl))
  | fail => exact Port.same_set (.inl rfl)

/-- **Without a command** the memory is left alone, and nothing fails. -/
theorem quiet (h : PortStep disk m p m' p') (hq : p.Quiet) :
    m' = m ∧ p'.Quiet ∧ (p.halted = false → p'.halted = false) ∧ (p'.Failed ↔ p.Failed) := by
  obtain ⟨hissued, haccepted⟩ := hq
  cases h with
  | idle => exact ⟨rfl, ⟨hissued, haccepted⟩, id, Iff.rfl⟩
  | status value =>
    exact ⟨rfl, ⟨fun h => hissued ((Port.issued_set (by decide)).mp h), haccepted⟩, id,
      Port.failed_set (by decide)⟩
  | listEngine =>
    rw [Port.listEngine]
    split_ifs
    · exact ⟨rfl, ⟨fun h => hissued ((Port.issued_set (by decide)).mp h), haccepted⟩, id,
        Port.failed_set (by decide)⟩
    · exact ⟨rfl, ⟨fun h => hissued ((Port.issued_set (by decide)).mp h), rfl⟩, fun _ => rfl,
        Port.failed_set (by decide)⟩
  | fisEngine =>
    obtain ⟨value, heq⟩ := p.fisEngine_eq
    rw [heq]
    exact ⟨rfl, ⟨fun h => hissued ((Port.issued_set (by decide)).mp h), haccepted⟩, id,
      Port.failed_set (by decide)⟩
  | accept _ hi => exact absurd hi hissued
  | complete hsome => cases haccepted.symm.trans hsome
  | fail _ hi => exact absurd hi hissued

/-- **Any step** keeps a port coherent. -/
theorem coherent (h : PortStep disk m p m' p') (hp : p.Coherent) : p'.Coherent := by
  have hsame := h.same.2
  obtain ⟨hstopped, hengine⟩ := hp
  cases h with
  | idle => exact ⟨hstopped, hengine⟩
  | status value =>
    refine ⟨fun hs hi => hstopped (fun h => hs (hsame.mpr h)) ?_, fun hr => hengine ?_⟩
    · exact (Port.issued_set (by decide)).mp hi
    · rwa [Port.Running, Port.regs_set_of_ne (by decide)] at hr
  | listEngine =>
    rw [Port.listEngine] at hsame ⊢
    split_ifs at hsame ⊢ with hstarted
    · refine ⟨fun hs => absurd (hsame.mpr hstarted) hs, fun hr => absurd ?_ hr⟩
      rw [Port.Running, Port.regs_set_self]
      exact Port.or_and_ne_zero (by decide)
    · exact ⟨fun _ hi => hstopped hstarted ((Port.issued_set (by decide)).mp hi),
        fun _ => ⟨rfl, rfl⟩⟩
  | fisEngine =>
    rw [Port.fisEngine] at hsame ⊢
    split_ifs at hsame ⊢
    · refine ⟨fun hs hi => hstopped (fun h => hs (hsame.mpr h)) ?_, fun hr => hengine ?_⟩
      · exact (Port.issued_set (by decide)).mp hi
      · rwa [Port.Running, Port.regs_set_self, Port.or_and_of_disjoint (by decide)] at hr
    · refine ⟨fun hs hi => hstopped (fun h => hs (hsame.mpr h)) ?_, fun hr => hengine ?_⟩
      · exact (Port.issued_set (by decide)).mp hi
      · rwa [Port.Running, Port.regs_set_self, Port.and_not_and_of_disjoint (by decide)] at hr
  | accept hr => exact ⟨hstopped, fun hnot => absurd hr hnot⟩
  | complete =>
    refine ⟨fun _ => Port.not_issued_finished, fun hr => ⟨rfl, (hengine ?_).2⟩⟩
    rwa [Port.Running, Port.regs_finished (by decide) (by decide)] at hr
  | fail hr =>
    refine ⟨fun hs hi => hstopped (fun h => hs (hsame.mpr h)) ?_, fun hnot => absurd ?_ hnot⟩
    · exact (Port.issued_set (by decide)).mp hi
    · show (p.set .interruptStatus (p.regs .interruptStatus ||| ahciPortIsTfes)).regs
        .commandStatus &&& ahciPortCmdCr ≠ 0
      rwa [Port.regs_set_of_ne (by decide)]

/-- **With a command**, it is still there, or it has been completed, or it has failed. -/
theorem of_pending {command : ReadCommand} (h : PortStep disk m p m' p') (hp : p.Pending command)
    (hfetch : fetch m (p.address .commandListBase .commandListBaseUpper) = some command) :
    (m' = m ∧ p'.Pending command ∧ (p'.Failed ↔ p.Failed)) ∨
    (p'.Quiet ∧ p'.halted = false ∧ (p'.Failed ↔ p.Failed) ∧
      (command.data disk).length ≤ command.byteCount ∧
      ∃ received, received.length = 20 ∧
        m' = p.transfer m command.dataBase (command.data disk) received) ∨
    (m' = m ∧ p'.Stopped ∧ p'.Failed) := by
  obtain ⟨hstarted, hissued, hrunning, haccepted⟩ := hp
  have hstarted' := h.same.2.mpr hstarted
  cases h with
  | idle => exact .inl ⟨rfl, ⟨hstarted, hissued, hrunning, haccepted⟩, Iff.rfl⟩
  | status value =>
    refine .inl ⟨rfl, ⟨hstarted', ?_, hrunning, haccepted⟩, ?_⟩
    · exact (Port.issued_set (by decide)).mpr hissued
    · exact Port.failed_set (by decide)
  | listEngine =>
    rw [Port.listEngine_of_started hstarted] at hstarted' ⊢
    refine .inl ⟨rfl, ⟨hstarted', ?_, hrunning, haccepted⟩, ?_⟩
    · exact (Port.issued_set (by decide)).mpr hissued
    · exact Port.failed_set (by decide)
  | fisEngine =>
    obtain ⟨value, heq⟩ := p.fisEngine_eq
    rw [heq] at hstarted' ⊢
    refine .inl ⟨rfl, ⟨hstarted', ?_, hrunning, haccepted⟩, ?_⟩
    · exact (Port.issued_set (by decide)).mpr hissued
    · exact Port.failed_set (by decide)
  | accept _ _ _ _ hsome =>
    obtain rfl := Option.some.inj (hfetch.symm.trans hsome)
    exact .inl ⟨rfl, ⟨hstarted, hissued, hrunning, .inr rfl⟩, Iff.rfl⟩
  | complete hsome hroom hreceived =>
    -- what is completed is what was accepted, and so it is the command in memory
    have hcommand := haccepted.resolve_left (by rw [hsome]; exact Option.some_ne_none _)
    obtain rfl := Option.some.inj (hsome.symm.trans hcommand)
    exact .inr (.inl ⟨⟨Port.not_issued_finished, rfl⟩, hrunning, Port.failed_finished, hroom, _,
      hreceived, rfl⟩)
  | fail =>
    refine .inr (.inr ⟨rfl, ⟨hstarted', ?_, rfl, rfl⟩, Port.failed_broken⟩)
    exact (Port.issued_set (by decide)).mpr hissued

/-- **A port that has failed** stays so until it is started again. -/
theorem of_stopped (h : PortStep disk m p m' p') (hp : p.Stopped) :
    m' = m ∧ p'.Stopped ∧ (p'.Failed ↔ p.Failed) := by
  obtain ⟨hstarted, hissued, hhalted, haccepted⟩ := hp
  have hstarted' := h.same.2.mpr hstarted
  cases h with
  | idle => exact ⟨rfl, ⟨hstarted, hissued, hhalted, haccepted⟩, Iff.rfl⟩
  | status value =>
    refine ⟨rfl, ⟨hstarted', ?_, hhalted, haccepted⟩, ?_⟩
    · exact (Port.issued_set (by decide)).mpr hissued
    · exact Port.failed_set (by decide)
  | listEngine =>
    rw [Port.listEngine_of_started hstarted] at hstarted' ⊢
    refine ⟨rfl, ⟨hstarted', ?_, hhalted, haccepted⟩, ?_⟩
    · exact (Port.issued_set (by decide)).mpr hissued
    · exact Port.failed_set (by decide)
  | fisEngine =>
    obtain ⟨value, heq⟩ := p.fisEngine_eq
    rw [heq] at hstarted' ⊢
    refine ⟨rfl, ⟨hstarted', ?_, hhalted, haccepted⟩, ?_⟩
    · exact (Port.issued_set (by decide)).mpr hissued
    · exact Port.failed_set (by decide)
  | accept _ _ _ hrunning => cases hhalted.symm.trans hrunning
  | complete hsome => cases haccepted.symm.trans hsome
  | fail _ _ hrunning => cases hhalted.symm.trans hrunning

end PortStep

/-! ## The machine -/

/-- `HbaMemory`. -/
structure Hba where
  globalHostControl : BitVec 32
  portsImplemented : BitVec 32
  ports : Nat → Port

/-- The memory and the controller, and how often the driver has used a register. -/
structure Machine where
  memory : MemoryState
  hba : Hba
  clock : Nat

namespace Machine

def withPort (m : Machine) (index : Nat) (phys : ByteMemory) (port : Port) : Machine :=
  { m with
    memory := { m.memory with phys }
    hba := { m.hba with ports := Function.update m.hba.ports index port } }

end Machine

/-- **A controller**: what it does between two accesses is a step of one of its ports. -/
def Conforms (disk : Nat → Nat → Sector) (device : Machine → Machine) : Prop :=
  ∀ m, ∃ index phys port,
    PortStep (disk index) m.memory.phys (m.hba.ports index) phys port ∧
      device m = m.withPort index phys port

/-- No port but one has a command. -/
def Machine.Alone (m : Machine) (index : Nat) : Prop :=
  ∀ other, other ≠ index → (m.hba.ports other).Quiet

variable {disk : Nat → Nat → Sector} {device : Machine → Machine} {m : Machine} {index : Nat}

/-- **A step of the controller** is one of the only port that has a command. -/
theorem Conforms.step (hconf : Conforms disk device) (halone : m.Alone index) :
    ∃ phys, PortStep (disk index) m.memory.phys (m.hba.ports index) phys
        ((device m).hba.ports index) ∧
      (device m).memory = { m.memory with phys } ∧ (device m).Alone index := by
  obtain ⟨i, phys, port, hstep, hdevice⟩ := hconf m
  rw [hdevice]
  by_cases hi : i = index
  · subst hi
    refine ⟨phys, ?_, rfl, fun other hne => ?_⟩
    · show PortStep _ _ _ _ (Function.update m.hba.ports i port i)
      rwa [Function.update_self]
    · show (Function.update m.hba.ports i port other).Quiet
      rw [Function.update_of_ne hne]
      exact halone other hne
  · -- another port has no command, and leaves the memory alone
    obtain ⟨rfl, hquiet, -⟩ := hstep.quiet (halone i hi)
    refine ⟨m.memory.phys, ?_, rfl, fun other hne => ?_⟩
    · show PortStep _ _ _ _ (Function.update m.hba.ports i port index)
      rw [Function.update_of_ne (Ne.symm hi)]
      exact .idle _ _
    · show (Function.update m.hba.ports i port other).Quiet
      by_cases hother : other = i
      · rw [hother, Function.update_self]
        exact hquiet
      · rw [Function.update_of_ne hother]
        exact halone other hne

/-- A step changes no register that only the driver writes, of no port. -/
theorem Conforms.same (hconf : Conforms disk device) (m : Machine) (i : Nat) :
    (m.hba.ports i).Same ((device m).hba.ports i) ∧
      (device m).hba.portsImplemented = m.hba.portsImplemented := by
  obtain ⟨j, phys, port, hstep, hdevice⟩ := hconf m
  rw [hdevice]
  refine ⟨?_, rfl⟩
  show (m.hba.ports i).Same (Function.update m.hba.ports j port i)
  by_cases hi : i = j
  · subst hi
    rw [Function.update_self]
    exact hstep.same
  · rw [Function.update_of_ne hi]
    exact .refl

end Lazers.Storage
