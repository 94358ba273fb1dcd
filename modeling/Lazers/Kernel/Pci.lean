import Lazers.Lib.Search
import Mathlib.Logic.Function.Basic
import Mathlib.Tactic.IntervalCases

/-!
# Finding the AHCI controller (`pci.rs`)

The registers of the configuration space are used through two ports: the address of a register is
written to the one, and then the register is at the other. The kernel looks at each function that
it takes to be there, in order, until one is an AHCI controller with its registers in memory.

- `controller_discovered`: what it finds is the first of the functions that it looks at, and the
  search writes no register; `enable_memory_bus_mastering` then sets two bits of one register.

It looks at the functions 1 to 7 of a device where bit 7 of byte 0x0c of function 0 is set. This is
the cache line size; the header type, which says how many functions there are, is byte 0x0e.
-/

namespace Lazers.Pci

open Search

/-! ## The configuration space -/

/-- The address of a register: what the address port is decoded to. -/
structure ConfigAddress where
  bus : BitVec 8
  slot : BitVec 5
  function : BitVec 3
  register : BitVec 6
deriving DecidableEq

abbrev ConfigSpace := ConfigAddress → BitVec 32

/-- The address port, and the registers of all functions. -/
structure ConfigPorts where
  address : BitVec 32
  config : ConfigSpace

abbrev PciM := StateM ConfigPorts

def configEnable : BitVec 32 := 1 <<< 31

def decode (address : BitVec 32) : ConfigAddress where
  bus := address.extractLsb' 16 8
  slot := address.extractLsb' 11 5
  function := address.extractLsb' 8 3
  register := address.extractLsb' 2 6

/-- `outl(CONFIG_ADDRESS_PORT, value)`. -/
def outlAddress (value : BitVec 32) : PciM Unit :=
  modify fun ports => { ports with address := value }

/-- `inl(CONFIG_DATA_PORT)`. There is nothing at the port while the address is not enabled. -/
def inlData : PciM (BitVec 32) := do
  let ports ← get
  if ports.address &&& configEnable = 0 then return BitVec.allOnes 32
  else return ports.config (decode ports.address)

/-- `outl(CONFIG_DATA_PORT, value)`, where a register stores `store old value`. -/
def outlData (store : ConfigAddress → BitVec 32 → BitVec 32 → BitVec 32) (value : BitVec 32) :
    PciM Unit :=
  modify fun ports =>
    if ports.address &&& configEnable = 0 then ports
    else
      let place := decode ports.address
      let stored := store place (ports.config place) value
      { ports with config := Function.update ports.config place stored }

/-! ## The driver -/

def classMassStorage : BitVec 8 := 0x01
def subclassSata : BitVec 8 := 0x06
def progIfAhci : BitVec 8 := 0x01

def pciCommandOffset : BitVec 8 := 0x04
def pciClassOffset : BitVec 8 := 0x08
def pciHeaderTypeOffset : BitVec 8 := 0x0c
def pciBar5Offset : BitVec 8 := 0x24

def pciCommandMemorySpace : BitVec 16 := 1 <<< 1
def pciCommandBusMaster : BitVec 16 := 1 <<< 2

structure PciDeviceLocation where
  bus : BitVec 8
  slot : BitVec 8
  function : BitVec 8
deriving DecidableEq

structure AhciControllerInfo where
  location : PciDeviceLocation
  abar : Nat
deriving DecidableEq

/-- `pci_config_address`. -/
def pciConfigAddress (location : PciDeviceLocation) (offset : BitVec 8) : BitVec 32 :=
  1 <<< 31 ||| location.bus.setWidth 32 <<< 16 ||| location.slot.setWidth 32 <<< 11 |||
    location.function.setWidth 32 <<< 8 ||| offset.setWidth 32 &&& 0xfc

/-- `read_u32`. -/
def readU32 (location : PciDeviceLocation) (offset : BitVec 8) : PciM (BitVec 32) := do
  outlAddress (pciConfigAddress location offset)
  inlData

/-- `read_u8`. -/
def readU8 (location : PciDeviceLocation) (offset : BitVec 8) : PciM (BitVec 8) := do
  let shift := (offset &&& 0x03) * 8
  let register ← readU32 location (offset &&& ~~~0x03)
  return (register >>> shift.toNat).setWidth 8

/-- `read_u16`. -/
def readU16 (location : PciDeviceLocation) (offset : BitVec 8) : PciM (BitVec 16) := do
  let shift := (offset &&& 0x02) * 8
  let register ← readU32 location (offset &&& ~~~0x03)
  return (register >>> shift.toNat).setWidth 16

/-- The body of the loop over the functions. -/
def lookAtFunction (bus slot function : Nat) : PciM (Option AhciControllerInfo) := do
  let location : PciDeviceLocation :=
    ⟨BitVec.ofNat 8 bus, BitVec.ofNat 8 slot, BitVec.ofNat 8 function⟩
  if (← readU16 location 0x00) = 0xffff then return none
  else
    let classReg ← readU32 location pciClassOffset
    if (classReg >>> 24).setWidth 8 = classMassStorage ∧
        (classReg >>> 16).setWidth 8 = subclassSata ∧ (classReg >>> 8).setWidth 8 = progIfAhci then
      let bar5 ← readU32 location pciBar5Offset
      let abar := bar5.toNat &&& 0xfffffff0
      if abar ≠ 0 then return some ⟨location, abar⟩
      else return none
    else return none

/-- The body of the loop over the slots. -/
def lookAtSlot (bus slot : Nat) : PciM (Option AhciControllerInfo) := do
  let location : PciDeviceLocation := ⟨BitVec.ofNat 8 bus, BitVec.ofNat 8 slot, 0⟩
  if (← readU16 location 0x00) ≠ 0xffff then
    let headerType := (← readU8 location pciHeaderTypeOffset) &&& 0x80
    let functionCount := if headerType ≠ 0 then 8 else 1
    searchUp (lookAtFunction bus slot) functionCount 0
  else return none

/-- `find_ahci_controller`. -/
def findAhciController : PciM (Option AhciControllerInfo) :=
  searchUp (fun bus => searchUp (lookAtSlot bus) 32 0) 256 0

section Enable

variable (store : ConfigAddress → BitVec 32 → BitVec 32 → BitVec 32)

/-- `write_u32`. -/
def writeU32 (location : PciDeviceLocation) (offset : BitVec 8) (value : BitVec 32) :
    PciM Unit := do
  outlAddress (pciConfigAddress location offset)
  outlData store value

/-- `write_u16`. -/
def writeU16 (location : PciDeviceLocation) (offset : BitVec 8) (value : BitVec 16) :
    PciM Unit := do
  let aligned := offset &&& ~~~0x03
  let shift := (offset &&& 0x02) * 8
  let register ← readU32 location aligned
  writeU32 store location aligned
    (register &&& ~~~((0xffff : BitVec 32) <<< shift.toNat) |||
      value.setWidth 32 <<< shift.toNat)

/-- `enable_memory_bus_mastering`. -/
def enableMemoryBusMastering (location : PciDeviceLocation) : PciM Unit := do
  let command ← readU16 location pciCommandOffset
  let updated := command ||| pciCommandMemorySpace ||| pciCommandBusMaster
  writeU16 store location pciCommandOffset updated

end Enable

/-! ## Reading a register -/

/-- The register of a function at an offset. -/
def PciDeviceLocation.register (location : PciDeviceLocation) (offset : BitVec 8) :
    ConfigAddress where
  bus := location.bus
  slot := location.slot.setWidth 5
  function := location.function.setWidth 3
  register := (offset >>> 2).setWidth 6

/-- The locations that have an address of their own. -/
structure PciDeviceLocation.Valid (location : PciDeviceLocation) : Prop where
  slot : location.slot.toNat < 32
  function : location.function.toNat < 8

theorem getElem_of_lt {x : BitVec 8} {n i : Nat} (h : x.toNat < 2 ^ n) (hn : n ≤ i) (hi : i < 8) :
    x[i] = false := by
  rw [← BitVec.getLsbD_eq_getElem]
  exact Nat.testBit_lt_two_pow (Nat.lt_of_lt_of_le h (Nat.pow_le_pow_right (by decide) hn))

theorem decode_pciConfigAddress {location : PciDeviceLocation} (h : location.Valid)
    (offset : BitVec 8) :
    decode (pciConfigAddress location offset) = location.register offset := by
  -- the bits of the slot that would fall on those of the bus, and of the function on the slot's
  have hslot : ∀ i (hi : i < 8), 5 ≤ i → location.slot[i] = false :=
    fun i hi hn => getElem_of_lt h.slot hn hi
  have hfunction : ∀ i (hi : i < 8), 3 ≤ i → location.function[i] = false :=
    fun i hi hn => getElem_of_lt h.function hn hi
  unfold decode PciDeviceLocation.register pciConfigAddress
  congr 1
  · ext i hi
    interval_cases i <;> simp [hslot]
  · ext i hi
    interval_cases i <;> simp [hfunction]
  · ext i hi
    interval_cases i <;> simp
  · ext i hi
    interval_cases i <;> simp

theorem enabled_pciConfigAddress (location : PciDeviceLocation) (offset : BitVec 8) :
    pciConfigAddress location offset &&& configEnable ≠ 0 := by
  intro h
  have hbit := congrArg (fun x => x.getLsbD 31) h
  simp [pciConfigAddress, configEnable] at hbit

theorem observes_readU32 {location : PciDeviceLocation} (h : location.Valid) (offset : BitVec 8) :
    Observes ConfigPorts.config (readU32 location offset)
      fun config => config (location.register offset) := by
  intro ports
  have hread : readU32 location offset ports =
      (ports.config (location.register offset),
        ⟨pciConfigAddress location offset, ports.config⟩) := by
    show inlData ⟨pciConfigAddress location offset, ports.config⟩ = _
    unfold inlData
    show (if pciConfigAddress location offset &&& configEnable = 0 then _ else _ : PciM _) _ = _
    rw [if_neg (enabled_pciConfigAddress location offset), decode_pciConfigAddress h offset]
    rfl
  rw [hread]
  exact ⟨rfl, rfl⟩

theorem observes_readU16 {location : PciDeviceLocation} (h : location.Valid) (offset : BitVec 8) :
    Observes ConfigPorts.config (readU16 location offset) fun config =>
      (config (location.register (offset &&& ~~~0x03)) >>>
        ((offset &&& 0x02) * 8).toNat).setWidth 16 :=
  (observes_readU32 h _).bind fun _ => .value _

theorem observes_readU8 {location : PciDeviceLocation} (h : location.Valid) (offset : BitVec 8) :
    Observes ConfigPorts.config (readU8 location offset) fun config =>
      (config (location.register (offset &&& ~~~0x03)) >>>
        ((offset &&& 0x03) * 8).toNat).setWidth 8 :=
  (observes_readU32 h _).bind fun _ => .value _

/-! ## The search -/

/-- The location of three indices. -/
def locationOf (bus slot function : Nat) : PciDeviceLocation :=
  ⟨BitVec.ofNat 8 bus, BitVec.ofNat 8 slot, BitVec.ofNat 8 function⟩

/-- The search takes a function to be there when its vendor is not all ones. -/
def ConfigSpace.Present (config : ConfigSpace) (location : PciDeviceLocation) : Prop :=
  (config (location.register 0)).setWidth 16 ≠ (0xffff : BitVec 16)

/-- An AHCI controller that has its registers in memory. -/
structure ConfigSpace.Controller (config : ConfigSpace) (info : AhciControllerInfo) : Prop where
  present : config.Present info.location
  classCode : config (info.location.register pciClassOffset) >>> 8 = 0x010601
  abar : info.abar = (config (info.location.register pciBar5Offset)).toNat &&& 0xfffffff0
  placed : info.abar ≠ 0

/-- The functions that are looked at: the first of each device, and the others by a bit of it. -/
structure ConfigSpace.LookedAt (config : ConfigSpace) (location : PciDeviceLocation) : Prop where
  valid : location.Valid
  first : config.Present { location with function := 0 }
  others : location.function = 0 ∨
    (config (({ location with function := 0 } : PciDeviceLocation).register
      pciHeaderTypeOffset)).getLsbD 7 = true

/-- The order of the search. -/
def PciDeviceLocation.Before (location other : PciDeviceLocation) : Prop :=
  location.bus < other.bus ∨ location.bus = other.bus ∧
    (location.slot < other.slot ∨ location.slot = other.slot ∧ location.function < other.function)

section Search

variable {config : ConfigSpace} {location : PciDeviceLocation} {info : AhciControllerInfo}

/-- The three bytes of the class are compared. -/
theorem classCode_iff (classReg : BitVec 32) :
    ((classReg >>> 24).setWidth 8 = classMassStorage ∧
        (classReg >>> 16).setWidth 8 = subclassSata ∧ (classReg >>> 8).setWidth 8 = progIfAhci) ↔
      classReg >>> 8 = 0x010601 := by
  unfold classMassStorage subclassSata progIfAhci
  constructor
  · rintro ⟨hclass, hsubclass, hprogIf⟩
    bv_omega
  · intro h
    refine ⟨?_, ?_, ?_⟩ <;> bv_omega

/-- What is said of a function. -/
def controllerAt (config : ConfigSpace) (location : PciDeviceLocation) :
    Option AhciControllerInfo :=
  if (config (location.register 0)).setWidth 16 = (0xffff : BitVec 16) then none
  else
    let classReg := config (location.register pciClassOffset)
    if (classReg >>> 24).setWidth 8 = classMassStorage ∧
        (classReg >>> 16).setWidth 8 = subclassSata ∧ (classReg >>> 8).setWidth 8 = progIfAhci then
      let abar := (config (location.register pciBar5Offset)).toNat &&& 0xfffffff0
      if abar ≠ 0 then some ⟨location, abar⟩ else none
    else none

theorem controllerAt_eq_some :
    controllerAt config location = some info ↔
      info.location = location ∧ config.Controller info := by
  unfold controllerAt
  simp only [classCode_iff]
  constructor
  · intro h
    split_ifs at h with hvendor hclass habar
    obtain rfl := Option.some.inj h
    exact ⟨rfl, hvendor, hclass, rfl, habar⟩
  · rintro ⟨rfl, hpresent, hclass, habar, hplaced⟩
    rw [habar] at hplaced
    rw [if_neg hpresent, if_pos hclass, if_pos hplaced, ← habar]

theorem observes_vendor (h : location.Valid) :
    Observes ConfigPorts.config (readU16 location 0x00) fun config =>
      (config (location.register 0)).setWidth 16 := by
  intro ports
  simpa using observes_readU16 h 0x00 ports

theorem observes_lookAtFunction {bus slot function : Nat}
    (h : (locationOf bus slot function).Valid) :
    Observes ConfigPorts.config (lookAtFunction bus slot function) fun config =>
      controllerAt config (locationOf bus slot function) := by
  have hbar (bar5 : BitVec 32) : Observes ConfigPorts.config
      (if bar5.toNat &&& 0xfffffff0 ≠ 0 then
        pure (some (⟨locationOf bus slot function, bar5.toNat &&& 0xfffffff0⟩ : AhciControllerInfo))
      else pure none) _ := .branch (.value _) (.value none)
  have hclass (classReg : BitVec 32) : Observes ConfigPorts.config
      (if (classReg >>> 24).setWidth 8 = classMassStorage ∧
          (classReg >>> 16).setWidth 8 = subclassSata ∧
          (classReg >>> 8).setWidth 8 = progIfAhci then _
      else pure none) _ := .branch ((observes_readU32 h pciBar5Offset).bind hbar) (.value none)
  have hvendor (vendor : BitVec 16) : Observes ConfigPorts.config
      (if vendor = 0xffff then pure none else _) _ :=
    .branch (.value none) ((observes_readU32 h pciClassOffset).bind hclass)
  exact (observes_vendor h).bind hvendor

instance : Decidable (config.LookedAt location) :=
  decidable_of_iff ((location.slot.toNat < 32 ∧ location.function.toNat < 8) ∧
      (config (({ location with function := 0 } : PciDeviceLocation).register 0)).setWidth 16 ≠
        (0xffff : BitVec 16) ∧
      (location.function = 0 ∨
        (config (({ location with function := 0 } : PciDeviceLocation).register
          pciHeaderTypeOffset)).getLsbD 7 = true))
    ⟨fun h => ⟨⟨h.1.1, h.1.2⟩, h.2.1, h.2.2⟩,
      fun h => ⟨⟨h.valid.slot, h.valid.function⟩, h.first, h.others⟩⟩

/-- What is found at three indices. -/
def foundAt (config : ConfigSpace) (bus slot function : Nat) : Option AhciControllerInfo :=
  if config.LookedAt (locationOf bus slot function) then
    controllerAt config (locationOf bus slot function)
  else none

theorem valid_locationOf (bus : Nat) {slot function : Nat} (hslot : slot < 32)
    (hfunction : function < 8) : (locationOf bus slot function).Valid where
  slot := by
    show slot % 256 < 32
    omega
  function := by
    show function % 256 < 8
    omega

theorem header_bit (byte : BitVec 8) : byte &&& 0x80 ≠ 0 ↔ byte.getLsbD 7 = true := by
  revert byte
  decide

/-- How many functions are looked at. -/
def functionCount (config : ConfigSpace) (bus slot : Nat) : Nat :=
  if (config ((locationOf bus slot 0).register pciHeaderTypeOffset)).setWidth 8 &&&
      (0x80 : BitVec 8) ≠ 0 then 8
  else 1

theorem lookedAt_iff {bus slot function : Nat} (hslot : slot < 32) :
    config.LookedAt (locationOf bus slot function) ∧ function < 8 ↔
      config.Present (locationOf bus slot 0) ∧ function < functionCount config bus slot := by
  have hfirst : ({ locationOf bus slot function with function := 0 } : PciDeviceLocation) =
      locationOf bus slot 0 := rfl
  have hbit := header_bit
    ((config ((locationOf bus slot 0).register pciHeaderTypeOffset)).setWidth 8)
  rw [BitVec.getLsbD_setWidth] at hbit
  unfold functionCount
  constructor
  · rintro ⟨⟨-, hpresent, hothers⟩, hlt⟩
    refine ⟨hpresent, ?_⟩
    rw [hfirst] at hothers
    obtain hzero | hset := hothers
    · have hmod : function % 256 = 0 := congrArg BitVec.toNat hzero
      split_ifs <;> omega
    · rw [if_pos (hbit.mpr (by simpa using hset))]
      exact hlt
  · rintro ⟨hpresent, hlt⟩
    split_ifs at hlt with hset
    · refine ⟨⟨valid_locationOf bus hslot hlt, hpresent, .inr ?_⟩, hlt⟩
      rw [hfirst]
      simpa using hbit.mp hset
    · obtain rfl : function = 0 := by omega
      exact ⟨⟨valid_locationOf bus hslot (by decide), hpresent, .inl rfl⟩, by decide⟩

theorem foundAt_of_lt {bus slot function : Nat} (hslot : slot < 32)
    (hpresent : config.Present (locationOf bus slot 0))
    (hlt : function < functionCount config bus slot) :
    foundAt config bus slot function = controllerAt config (locationOf bus slot function) :=
  if_pos ((lookedAt_iff hslot).mpr ⟨hpresent, hlt⟩).1

theorem lt_of_foundAt {bus slot function : Nat} (hslot : slot < 32) (hlt : function < 8)
    (h : foundAt config bus slot function = some info) :
    config.Present (locationOf bus slot 0) ∧ function < functionCount config bus slot := by
  unfold foundAt at h
  split_ifs at h with hlooked
  exact (lookedAt_iff hslot).mp ⟨hlooked, hlt⟩

theorem firstUp_foundAt {bus slot : Nat} (hslot : slot < 32) :
    firstUp (foundAt config bus slot) 8 0 =
      if (config ((locationOf bus slot 0).register 0)).setWidth 16 ≠ (0xffff : BitVec 16) then
        firstUp (fun function => controllerAt config (locationOf bus slot function))
          (functionCount config bus slot) 0
      else none := by
  have hcount : functionCount config bus slot ≤ 8 := by
    unfold functionCount
    split_ifs <;> decide
  refine Option.ext fun info => ?_
  split_ifs with hpresent
  · rw [firstUp_eq_some, firstUp_eq_some]
    constructor
    · rintro ⟨function, hle, hlt, hfound, hbefore⟩
      have hlt' := (lt_of_foundAt hslot (by omega) hfound).2
      rw [foundAt_of_lt hslot hpresent hlt'] at hfound
      refine ⟨function, hle, by omega, hfound, fun other hle' hother => ?_⟩
      rw [← foundAt_of_lt hslot hpresent (by omega)]
      exact hbefore other hle' hother
    · rintro ⟨function, hle, hlt, hfound, hbefore⟩
      refine ⟨function, hle, by omega, ?_, fun other hle' hother => ?_⟩
      · rw [foundAt_of_lt hslot hpresent (by omega)]
        exact hfound
      · rw [foundAt_of_lt hslot hpresent (by omega)]
        exact hbefore other hle' hother
  · refine ⟨fun h => ?_, fun h => by cases h⟩
    obtain ⟨function, -, hlt, hfound, -⟩ := firstUp_eq_some.mp h
    exact absurd (lt_of_foundAt hslot (by omega) hfound).1 hpresent

theorem observes_lookAtSlot (bus : Nat) {slot : Nat} (hslot : slot < 32) :
    Observes ConfigPorts.config (lookAtSlot bus slot) fun config =>
      firstUp (foundAt config bus slot) 8 0 := by
  have h : (locationOf bus slot 0).Valid := valid_locationOf bus hslot (by decide)
  have hheader : Observes ConfigPorts.config
      (readU8 (locationOf bus slot 0) pciHeaderTypeOffset) fun config =>
        (config ((locationOf bus slot 0).register pciHeaderTypeOffset)).setWidth 8 := by
    intro ports
    simpa [pciHeaderTypeOffset] using observes_readU8 h pciHeaderTypeOffset ports
  have hcount (byte : BitVec 8) : Observes ConfigPorts.config
      (searchUp (lookAtFunction bus slot) (if byte &&& 0x80 ≠ 0 then 8 else 1) 0) _ :=
    .searchUp fun function hlt => observes_lookAtFunction
      (valid_locationOf bus hslot (by split_ifs at hlt <;> omega))
  have hvendor (vendor : BitVec 16) : Observes ConfigPorts.config
      (if vendor ≠ 0xffff then _ else pure none) _ := .branch (hheader.bind hcount) (.value none)
  intro ports
  obtain ⟨hanswer, hview⟩ := (observes_vendor h).bind hvendor ports
  exact ⟨hanswer.trans (firstUp_foundAt hslot).symm, hview⟩

/-- **The search**: the first function in its order that it finds a controller at. -/
theorem observes_findAhciController :
    Observes ConfigPorts.config findAhciController fun config =>
      firstUp (fun bus => firstUp (fun slot => firstUp (foundAt config bus slot) 8 0) 32 0) 256 0 :=
  .searchUp fun bus _ => .searchUp fun _ hslot => observes_lookAtSlot bus (by omega)

theorem locationOf_toNat (location : PciDeviceLocation) :
    locationOf location.bus.toNat location.slot.toNat location.function.toNat = location := by
  unfold locationOf
  simp

theorem foundAt_eq_some {bus slot function : Nat} :
    foundAt config bus slot function = some info ↔
      info.location = locationOf bus slot function ∧ config.LookedAt info.location ∧
        config.Controller info := by
  unfold foundAt
  constructor
  · intro h
    split_ifs at h with hlooked
    obtain ⟨hlocation, hcontroller⟩ := controllerAt_eq_some.mp h
    exact ⟨hlocation, hlocation ▸ hlooked, hcontroller⟩
  · rintro ⟨hlocation, hlooked, hcontroller⟩
    rw [hlocation] at hlooked
    rw [if_pos hlooked]
    exact controllerAt_eq_some.mpr ⟨hlocation, hcontroller⟩

/-- A controller that the search can find. -/
def ConfigSpace.Findable (config : ConfigSpace) (info : AhciControllerInfo) : Prop :=
  config.LookedAt info.location ∧ config.Controller info

theorem ConfigSpace.Findable.foundAt (h : config.Findable info) :
    foundAt config info.location.bus.toNat info.location.slot.toNat
      info.location.function.toNat = some info :=
  foundAt_eq_some.mpr ⟨(locationOf_toNat _).symm, h.1, h.2⟩

theorem before_iff {a b c d e f : Nat} (ha : a < 256) (hb : b < 256) (hc : c < 256) (hd : d < 256)
    (he : e < 256) (hf : f < 256) :
    (locationOf a b c).Before (locationOf d e f) ↔ a < d ∨ a = d ∧ (b < e ∨ b = e ∧ c < f) := by
  unfold PciDeviceLocation.Before locationOf
  simp only [BitVec.lt_def, ← BitVec.toNat_inj, BitVec.toNat_ofNat]
  omega

/-- The first in the order of the search is the first of the controllers that can be found. -/
theorem found_iff_first :
    firstUp (fun bus => firstUp (fun slot => firstUp (foundAt config bus slot) 8 0) 32 0) 256 0 =
        some info ↔
      config.Findable info ∧
        ∀ other, config.Findable other → ¬ other.location.Before info.location := by
  rw [firstUp_nested]
  constructor
  · rintro ⟨bus, hbus, slot, hslot, hinner, hbefore⟩
    obtain ⟨function, -, hfunction, hfound, hbefore'⟩ := firstUp_eq_some.mp hinner
    obtain ⟨hlocation, hfindable⟩ := foundAt_eq_some.mp hfound
    refine ⟨hfindable, fun other hother hlt => ?_⟩
    rw [hlocation, ← locationOf_toNat other.location, before_iff other.location.bus.isLt
      other.location.slot.isLt other.location.function.isLt hbus (by omega) (by omega)] at hlt
    have hvalid := hother.1.valid
    have hfoundOther := hother.foundAt
    -- a controller before this one would have been found there
    obtain hlt | ⟨heq, hlt | ⟨heq', hlt⟩⟩ := hlt
    · have hnone := hbefore _ other.location.bus.isLt _ hvalid.slot (.inl hlt)
      rw [firstUp_eq_none.mp hnone _ (Nat.zero_le _) (by simpa using hvalid.function)]
        at hfoundOther
      cases hfoundOther
    · have hnone := hbefore _ other.location.bus.isLt _ hvalid.slot (.inr ⟨heq, hlt⟩)
      rw [firstUp_eq_none.mp hnone _ (Nat.zero_le _) (by simpa using hvalid.function)]
        at hfoundOther
      cases hfoundOther
    · rw [heq, heq', hbefore' _ (Nat.zero_le _) hlt] at hfoundOther
      cases hfoundOther
  · rintro ⟨hfindable, hfirst⟩
    have hvalid := hfindable.1.valid
    have hnone {bus slot function : Nat} (hbus : bus < 256) (hslot : slot < 32)
        (hfunction : function < 8)
        (hlt : (locationOf bus slot function).Before (locationOf info.location.bus.toNat
          info.location.slot.toNat info.location.function.toNat)) :
        foundAt config bus slot function = none := by
      rw [locationOf_toNat] at hlt
      cases hfound : foundAt config bus slot function with
      | none => rfl
      | some other =>
        obtain ⟨hlocation, hother⟩ := foundAt_eq_some.mp hfound
        exact absurd (hlocation ▸ hlt) (hfirst other hother)
    have hbus := info.location.bus.isLt
    refine ⟨_, hbus, _, hvalid.slot, firstUp_eq_some.mpr ⟨_, Nat.zero_le _,
      by simpa using hvalid.function, hfindable.foundAt, fun function _ hlt => ?_⟩, ?_⟩
    · have hfunction := hvalid.function
      refine hnone hbus hvalid.slot (by omega) ((before_iff hbus info.location.slot.isLt (by omega)
        hbus info.location.slot.isLt info.location.function.isLt).mpr (.inr ⟨rfl, .inr ⟨rfl, hlt⟩⟩))
    · intro bus hbus' slot hslot hlt
      refine firstUp_eq_none.mpr fun function _ hfunction =>
        hnone hbus' hslot (by omega) ((before_iff hbus' (by omega) (by omega) hbus
          info.location.slot.isLt info.location.function.isLt).mpr ?_)
      obtain hlt | ⟨rfl, hlt⟩ := hlt
      · exact .inl hlt
      · exact .inr ⟨rfl, .inl hlt⟩

end Search

/-! ## Turning it on -/

section Enable

variable {store : ConfigAddress → BitVec 32 → BitVec 32 → BitVec 32} {location : PciDeviceLocation}

theorem config_writeU32 (h : location.Valid) (offset : BitVec 8) (value : BitVec 32)
    (ports : ConfigPorts) :
    (writeU32 store location offset value ports).2.config =
      Function.update ports.config (location.register offset)
        (store (location.register offset) (ports.config (location.register offset)) value) := by
  show (outlData store value ⟨pciConfigAddress location offset, ports.config⟩).2.config = _
  show ConfigPorts.config
    (if pciConfigAddress location offset &&& configEnable = 0 then _ else _) = _
  rw [if_neg (enabled_pciConfigAddress location offset)]
  show Function.update ports.config (decode (pciConfigAddress location offset)) _ = _
  rw [decode_pciConfigAddress h offset]

/-- The upper half of the register is the status of the function: it is written back as it was. -/
theorem enabled_command (command : BitVec 32) :
    command &&& ~~~(0xffff : BitVec 32) |||
        (command.setWidth 16 ||| pciCommandMemorySpace ||| pciCommandBusMaster).setWidth 32 =
      command ||| 6 := by
  ext i hi
  interval_cases i <;> simp [pciCommandMemorySpace, pciCommandBusMaster]

theorem config_enableMemoryBusMastering (h : location.Valid) (ports : ConfigPorts) :
    (enableMemoryBusMastering store location ports).2.config =
      Function.update ports.config (location.register pciCommandOffset)
        (store (location.register pciCommandOffset)
          (ports.config (location.register pciCommandOffset))
          (ports.config (location.register pciCommandOffset) ||| 6)) := by
  obtain ⟨hcommand, hkept⟩ := observes_readU16 h pciCommandOffset ports
  cases hread : readU16 location pciCommandOffset ports with
  | mk command ports₁ =>
    rw [hread] at hcommand hkept
    obtain ⟨hregister, hkept'⟩ := observes_readU32 h pciCommandOffset ports₁
    cases hread' : readU32 location pciCommandOffset ports₁ with
    | mk register ports₂ =>
      rw [hread'] at hregister hkept'
      have hrun : enableMemoryBusMastering store location ports =
          writeU32 store location pciCommandOffset (register &&& ~~~(0xffff : BitVec 32) |||
            (command ||| pciCommandMemorySpace ||| pciCommandBusMaster).setWidth 32) ports₂ := by
        unfold enableMemoryBusMastering
        rw [run_bind hread]
        unfold writeU16
        show (readU32 location pciCommandOffset >>= _) ports₁ = _
        rw [run_bind hread']
        simp [pciCommandOffset]
      have hcommand' : command = register.setWidth 16 := by
        rw [show register = _ from hregister, show ports₁.config = _ from hkept]
        exact hcommand.trans (by simp [pciCommandOffset])
      rw [hrun, config_writeU32 h, hcommand', enabled_command, show register = _ from hregister,
        show ports₂.config = _ from hkept', show ports₁.config = _ from hkept]

end Enable

/-- **The discovery of the controller**: it is the first that can be found, nothing is written on
the way, and what is enabled is the memory and the bus mastering of it. -/
theorem controller_discovered
    (store : ConfigAddress → BitVec 32 → BitVec 32 → BitVec 32) (ports : ConfigPorts) :
    (findAhciController ports).2.config = ports.config ∧
      ((findAhciController ports).1 = none ↔ ∀ info, ¬ ports.config.Findable info) ∧
      ∀ info, ((findAhciController ports).1 = some info ↔
          ports.config.Findable info ∧
            ∀ other, ports.config.Findable other → ¬ other.location.Before info.location) ∧
        ((findAhciController ports).1 = some info →
          let command := info.location.register pciCommandOffset
          (enableMemoryBusMastering store info.location (findAhciController ports).2).2.config =
            Function.update ports.config command
              (store command (ports.config command) (ports.config command ||| 6))) := by
  obtain ⟨hanswer, hkept⟩ := observes_findAhciController ports
  rw [hanswer]
  refine ⟨hkept, ⟨fun hnone info hinfo => ?_, fun hnone => ?_⟩,
    fun info => ⟨found_iff_first, fun hfound => ?_⟩⟩
  · have hvalid := hinfo.1.valid
    have hslots := firstUp_eq_none.mp hnone _ (Nat.zero_le _) info.location.bus.isLt
    have hfunctions := firstUp_eq_none.mp hslots _ (Nat.zero_le _) (by simpa using hvalid.slot)
    have hfound := hinfo.foundAt
    rw [firstUp_eq_none.mp hfunctions _ (Nat.zero_le _) (by simpa using hvalid.function)] at hfound
    cases hfound
  · cases hfound : firstUp (fun bus => firstUp (fun slot =>
        firstUp (foundAt ports.config bus slot) 8 0) 32 0) 256 0 with
    | none => exact hfound
    | some info => exact absurd (found_iff_first.mp hfound).1 (hnone info)
  · rw [config_enableMemoryBusMastering (found_iff_first.mp hfound).1.1.valid, hkept]

end Lazers.Pci
