import Lazers.Kernel.AcpiTables
import Lazers.Lib.ByteView
import Lazers.Lib.Survey
import Lazers.Memory.Context
import Lazers.Memory.Holdings

/-!
# Finding out how to power off (`power.rs`)

`init` follows the firmware's tables from the RSDP to the DSDT. Each table is mapped into the
kernel's address space before it is read, first its header and then as many bytes as the header
says, and a slice of it stays in use while further tables are mapped. Mapping takes page tables from
the allocator and stores into them.

- The functions of `power.rs` run on the kernel's memory (`PowerM`): a load goes through the
  page tables, and a load from an unmapped address is a page fault (`none`).
- `surveyAcpiShutdown` is what they would find in a memory that nobody changes, and
  `Describes` says it without an order of steps.
- `discoverAcpiShutdown_follows`: **discovery finds what the tables say**. It does not fault, and it
  stores into page tables only, where the tables lie apart from them, from the free memory and from
  the window of huge pages.
- `power_off_as_described`: from the tables to the words written to the ports.
-/

namespace Lazers.Power

open Memory Panics PageTable

/-! ## Source functions -/

/-- `RSDT`. -/
def rsdtSignature : List UInt8 := [0x52, 0x53, 0x44, 0x54]
/-- `XSDT`. -/
def xsdtSignature : List UInt8 := [0x58, 0x53, 0x44, 0x54]

def pm1ControlSleepTypeShift : Nat := 10
def pm1ControlSleepEnable : Nat := 1 <<< 13

/-- `AcpiShutdown`: the ports of the control blocks, and the sleep types for them. -/
structure AcpiShutdown where
  pm1aControlBlock : Nat
  pm1bControlBlock : Option Nat
  sleepTypeA : Nat
  sleepTypeB : Nat
deriving DecidableEq, Repr

inductive PowerBackend where
  | uninitialized
  | acpiSoftOff (shutdown : AcpiShutdown)
  | unavailable (error : PowerError)
deriving DecidableEq, Repr

/-- `PowerError::as_str`. -/
def PowerError.asStr : PowerError → String
  | .missingRsdp => "ACPI RSDP was not provided by the loader"
  | .invalidRsdp => "ACPI RSDP was malformed or failed checksum validation"
  | .missingRootTable => "ACPI root system table address was missing"
  | .invalidRootTable => "ACPI root system table was malformed or invalid"
  | .missingFadt => "ACPI FADT table was not found"
  | .invalidFadt => "ACPI FADT table was malformed or unsupported"
  | .missingDsdt => "ACPI DSDT table was not found"
  | .invalidDsdt => "ACPI DSDT table was malformed or unsupported"
  | .missingPm1ControlBlock => "ACPI PM1 control block was not described"
  | .unsupportedPm1ControlBlock => "ACPI PM1 control block used an unsupported address format"
  | .missingS5Package => "ACPI DSDT did not expose an _S5 shutdown package"
  | .invalidS5Package => "ACPI _S5 shutdown package was malformed"
  | .mappingFailed => "kernel could not map the ACPI table range"

/-- The kernel's memory, and what ends the kernel: a panic or a page fault. -/
abbrev PowerM : Type → Type := Survey.Machine MemoryState PowerError

/-- Memory as the kernel's page tables show it. -/
def kernelView (s : MemoryState) : ByteView := fun address => do
  let space ← s.kernelSpace
  let target ← walk s.phys space.rootPaddr address
  return s.phys.byte target.phys

/-- A `&'static [u8]` over mapped memory. -/
structure TableSlice where
  address : Nat
  len : Nat
deriving DecidableEq, Repr

/-- The bytes of the slice, at the moment of the read. -/
def TableSlice.load (slice : TableSlice) : PowerM (List UInt8) :=
  .reads fun s => (kernelView s).readBytes slice.address slice.len

/-- `map_bytes`. -/
def mapBytes (address len : Nat) : PowerM TableSlice :=
  if len = 0 then throw .mappingFailed
  else if u64Limit ≤ address + len then throw .mappingFailed
  else fun s =>
    match mapKernelIdentityRange address (address + len) false s with
    | .ok _ s => some (.ok { address, len }, s)
    | .error _ s => some (.error .mappingFailed, s)

/-- `map_sdt`. Its `map_err` maps every error to itself. -/
def mapSdt (address : Nat) (expectedSignature : List UInt8) : PowerM TableSlice := do
  if address = 0 then throw .missingRootTable
  else
    let header ← mapBytes address sdtHeaderLength
    let bytes ← header.load
    let length ← .returns do okOr .invalidRootTable (← parseTableLengthIndexed bytes)
    let table ← mapBytes address length
    let bytes ← table.load
    .returns (parseSdtHeaderIndexed bytes expectedSignature)
    return table

/-- `root_table_signature`. -/
def rootTableSignature : RootTableKind → List UInt8
  | .rsdt => rsdtSignature
  | .xsdt => xsdtSignature

/-- `entry_size` of `find_fadt_address`. -/
def entrySize : RootTableKind → Nat
  | .rsdt => 4
  | .xsdt => 8

/-- The loop of `find_fadt_address`. -/
def findFadtLoop (root : TableSlice) (kind : RootTableKind) : (rounds offset : Nat) → PowerM Nat
  | 0, _ => throw .missingFadt
  | rounds + 1, offset =>
    if offset + entrySize kind ≤ root.len then do
      let bytes ← root.load
      let tableAddress ← .returns do
        okOr .invalidRootTable (← readIndexed bytes offset (entrySize kind))
      if tableAddress ≠ 0 then
        let header ← mapBytes tableAddress sdtHeaderLength
        let bytes ← header.load
        if bytes.length ≥ 4 ∧ bytes.take 4 = fadtSignature then return tableAddress
        else findFadtLoop root kind rounds (offset + entrySize kind)
      else findFadtLoop root kind rounds (offset + entrySize kind)
    else throw .missingFadt

/-- `find_fadt_address`. -/
def findFadtAddress (root : TableSlice) (kind : RootTableKind) : PowerM Nat :=
  findFadtLoop root kind root.len sdtHeaderLength

/-- `discover_acpi_shutdown`. -/
def discoverAcpiShutdown (acpiRsdpAddr : Nat) : PowerM AcpiShutdown := do
  if acpiRsdpAddr = 0 then throw .missingRsdp
  else
    let rsdp ← mapBytes acpiRsdpAddr rsdpV2Length
    let bytes ← rsdp.load
    let rootTable ← .returns (parseRsdp bytes)
    let root ← mapSdt rootTable.address (rootTableSignature rootTable.kind)
    let fadtAddress ← findFadtAddress root rootTable.kind
    let fadt ← mapSdt fadtAddress fadtSignature
    let bytes ← fadt.load
    let fadtInfo ← .returns (parseFadt bytes)
    let dsdt ← mapSdt fadtInfo.dsdtAddress dsdtSignature
    let bytes ← dsdt.load
    let sleepTypes ← .returns (parseS5PackageIndexed bytes)
    return {
      pm1aControlBlock := fadtInfo.pm1aControlBlock
      pm1bControlBlock := fadtInfo.pm1bControlBlock
      sleepTypeA := sleepTypes.1
      sleepTypeB := sleepTypes.2 }

/-- `init`: the backend it leaves in `POWER_STATE`, and the memory. -/
def init (acpiRsdpAddr : Nat) (s : MemoryState) : Option (PowerBackend × MemoryState) :=
  (discoverAcpiShutdown acpiRsdpAddr s).map fun
    | (.ok shutdown, s) => (.acpiSoftOff shutdown, s)
    | (.error error, s) => (.unavailable error, s)

/-- The word `perform` writes for a sleep type, in 16 bits. -/
def sleepCommand (sleepType : Nat) : Nat :=
  (sleepType <<< pm1ControlSleepTypeShift) % 2 ^ 16 ||| pm1ControlSleepEnable

/-- `AcpiShutdown::perform`: the words written with `outw`, in order, with their ports. -/
def AcpiShutdown.perform (shutdown : AcpiShutdown) : List (Nat × Nat) :=
  (shutdown.pm1aControlBlock, sleepCommand shutdown.sleepTypeA) ::
    match shutdown.pm1bControlBlock with
    | some pm1bControlBlock => [(pm1bControlBlock, sleepCommand shutdown.sleepTypeB)]
    | none => []

/-- `shutdown`: the words written, and the message if the machine is still on afterwards. -/
def shutdown : PowerBackend → List (Nat × Nat) × String
  | .acpiSoftOff shutdown => (shutdown.perform, "firmware did not power off the machine")
  | .unavailable error => ([], error.asStr)
  | .uninitialized => ([], "power subsystem was not initialized")

/-! ## What the tables say -/

/-- The bytes of a slice in a memory. -/
def TableSlice.on (slice : TableSlice) (mem : Nat → UInt8) : List UInt8 :=
  (List.range slice.len).map fun i => mem (slice.address + i)

section

variable (mem : Nat → UInt8)

/-- A range of the memory, if the address space has it. -/
def surveyBytes (address len : Nat) : Survey PowerError TableSlice :=
  if len = 0 then .fail .mappingFailed
  else if u64Limit ≤ address + len then .fail .mappingFailed
  else .ask address (address + len) { address, len }

/-- A table: its header, and then all of it. -/
def surveySdt (address : Nat) (expectedSignature : List UInt8) : Survey PowerError TableSlice :=
  if address = 0 then .fail .missingRootTable
  else do
    let header ← surveyBytes address sdtHeaderLength
    match parseTableLength (header.on mem) with
    | none => .fail .invalidRootTable
    | some length =>
      let table ← surveyBytes address length
      .settled (parseSdtHeader (table.on mem) expectedSignature)
      return table

/-- The addresses in a root table. -/
def rootEntries (kind : RootTableKind) (root : List UInt8) : List Nat :=
  (List.range ((root.length - sdtHeaderLength) / entrySize kind)).map fun i =>
    readLe root (sdtHeaderLength + i * entrySize kind) (entrySize kind)

/-- The first of the addresses with the FADT. -/
def surveyFadtAddress : List Nat → Survey PowerError Nat
  | [] => .fail .missingFadt
  | tableAddress :: rest =>
    if tableAddress ≠ 0 then do
      let header ← surveyBytes tableAddress sdtHeaderLength
      if (header.on mem).length ≥ 4 ∧ (header.on mem).take 4 = fadtSignature then
        return tableAddress
      else surveyFadtAddress rest
    else surveyFadtAddress rest

/-- What a parser that cannot panic returns. -/
def parsed {α : Type} (x : ExceptT PowerError Option α) : Except PowerError α :=
  x.run.getD (.error .mappingFailed)

/-- All of it. -/
def surveyAcpiShutdown (acpiRsdpAddr : Nat) : Survey PowerError AcpiShutdown :=
  if acpiRsdpAddr = 0 then .fail .missingRsdp
  else do
    let rsdp ← surveyBytes acpiRsdpAddr rsdpV2Length
    let rootTable ← .settled (parsed (parseRsdp (rsdp.on mem)))
    let root ← surveySdt mem rootTable.address (rootTableSignature rootTable.kind)
    let fadtAddress ← surveyFadtAddress mem (rootEntries rootTable.kind (root.on mem))
    let fadt ← surveySdt mem fadtAddress fadtSignature
    let fadtInfo ← .settled (parsed (parseFadt (fadt.on mem)))
    let dsdt ← surveySdt mem fadtInfo.dsdtAddress dsdtSignature
    let sleepTypes ← .settled (parseS5Package (dsdt.on mem))
    return {
      pm1aControlBlock := fadtInfo.pm1aControlBlock
      pm1bControlBlock := fadtInfo.pm1bControlBlock
      sleepTypeA := sleepTypes.1
      sleepTypeB := sleepTypes.2 }

/-- The memory the tables take the search to. -/
def tableRanges (acpiRsdpAddr : Nat) : List (Nat × Nat) :=
  (surveyAcpiShutdown mem acpiRsdpAddr).ranges

/-- A table of the firmware, whole, with its signature and its checksum. -/
structure IsTable (address : Nat) (signature : List UInt8) (table : TableSlice) : Prop where
  address_eq : table.address = address
  address_ne : address ≠ 0
  len : parseTableLength (TableSlice.on ⟨address, sdtHeaderLength⟩ mem) = some table.len
  room : address + table.len < u64Limit
  header : parseSdtHeader (table.on mem) signature = .ok ()

/-- Whether there is an FADT at the address. -/
def HasFadtSignature (address : Nat) : Prop :=
  (TableSlice.on ⟨address, sdtHeaderLength⟩ mem).take 4 = fadtSignature

/-- **The FADT of a root table** is at the first address with its signature. -/
def IsFirstFadt (entries : List Nat) (address : Nat) : Prop :=
  ∃ before after, entries = before ++ address :: after ∧ address ≠ 0 ∧
    address + sdtHeaderLength < u64Limit ∧ HasFadtSignature mem address ∧
    ∀ other ∈ before, other = 0 ∨
      (other + sdtHeaderLength < u64Limit ∧ ¬ HasFadtSignature mem other)

/-- **The tables describe a way to power off**: the RSDP leads to a root table, its FADT has
control blocks, and the DSDT of the FADT has the sleep types. -/
def Describes (acpiRsdpAddr : Nat) (shutdown : AcpiShutdown) : Prop :=
  acpiRsdpAddr ≠ 0 ∧ acpiRsdpAddr + rsdpV2Length < u64Limit ∧
  ∃ rootTable root fadtAddress fadt fadtInfo dsdt,
    (parseRsdp (TableSlice.on ⟨acpiRsdpAddr, rsdpV2Length⟩ mem)).run = some (.ok rootTable) ∧
    IsTable mem rootTable.address (rootTableSignature rootTable.kind) root ∧
    IsFirstFadt mem (rootEntries rootTable.kind (root.on mem)) fadtAddress ∧
    IsTable mem fadtAddress fadtSignature fadt ∧
    (parseFadt (fadt.on mem)).run = some (.ok fadtInfo) ∧
    IsTable mem fadtInfo.dsdtAddress dsdtSignature dsdt ∧
    parseS5Package (dsdt.on mem) = .ok (shutdown.sleepTypeA, shutdown.sleepTypeB) ∧
    shutdown.pm1aControlBlock = fadtInfo.pm1aControlBlock ∧
    shutdown.pm1bControlBlock = fadtInfo.pm1bControlBlock

end

section

variable {mem : Nat → UInt8}

@[simp] theorem TableSlice.length_on (slice : TableSlice) (mem : Nat → UInt8) :
    (slice.on mem).length = slice.len := by
  rw [TableSlice.on, List.length_map, List.length_range]

theorem parseTableLength_le {bytes : List UInt8} {length : Nat}
    (h : parseTableLength bytes = some length) : sdtHeaderLength ≤ length := by
  obtain ⟨word, -, hlength⟩ := Option.bind_eq_some_iff.mp h
  split_ifs at hlength with hshort
  cases hlength
  exact Nat.not_lt.mp hshort

theorem surveyBytes_eq_ok {address len : Nat} {slice : TableSlice} :
    (surveyBytes address len).result = .ok slice ↔
      len ≠ 0 ∧ address + len < u64Limit ∧ slice = ⟨address, len⟩ := by
  unfold surveyBytes
  split_ifs with hzero hlimit
  · simp [Survey.fail, hzero]
  · simp [Survey.fail, Nat.not_lt.mpr hlimit]
  · simp [Survey.ask, hzero, Nat.not_le.mp hlimit, eq_comm]

/-- **A survey of a table** comes to the table that is there. -/
theorem surveySdt_eq_ok {address : Nat} {signature : List UInt8} {table : TableSlice} :
    (surveySdt mem address signature).result = .ok table ↔ IsTable mem address signature table := by
  unfold surveySdt
  split_ifs with hzero
  · constructor
    · intro h
      cases h
    · intro h
      exact absurd hzero h.address_ne
  · rw [Survey.bind_eq_ok]
    constructor
    · rintro ⟨header, hheader, h⟩
      obtain ⟨-, -, rfl⟩ := surveyBytes_eq_ok.mp hheader
      cases hlen : parseTableLength (TableSlice.on ⟨address, sdtHeaderLength⟩ mem) with
      | none =>
        simp only [hlen] at h
        cases h
      | some length =>
        simp only [hlen] at h
        obtain ⟨whole, hwhole, h⟩ := Survey.bind_eq_ok.mp h
        obtain ⟨-, hroom, rfl⟩ := surveyBytes_eq_ok.mp hwhole
        obtain ⟨_, hchecked, h⟩ := Survey.bind_eq_ok.mp h
        cases h
        exact ⟨rfl, hzero, hlen, hroom, hchecked⟩
    · rintro ⟨rfl, -, hlen, hroom, hheader⟩
      have hle := parseTableLength_le hlen
      rw [sdtHeaderLength] at hle
      refine ⟨_, surveyBytes_eq_ok.mpr ⟨by decide, ?_, rfl⟩, ?_⟩
      · rw [sdtHeaderLength]
        omega
      · simp only [hlen]
        refine Survey.bind_eq_ok.mpr ⟨_, surveyBytes_eq_ok.mpr ⟨by omega, hroom, rfl⟩, ?_⟩
        exact Survey.bind_eq_ok.mpr ⟨(), hheader, rfl⟩

/-- A header has room for a signature. -/
theorem four_le_header (address : Nat) :
    (TableSlice.on ⟨address, sdtHeaderLength⟩ mem).length ≥ 4 := by
  rw [TableSlice.length_on]
  show 4 ≤ 36
  decide

/-- **A survey of the entries** comes to the first FADT. -/
theorem surveyFadtAddress_eq_ok {entries : List Nat} {address : Nat} :
    (surveyFadtAddress mem entries).result = .ok address ↔ IsFirstFadt mem entries address := by
  induction entries with
  | nil =>
    constructor
    · intro h
      cases h
    · rintro ⟨before, after, hnil, -⟩
      simp at hnil
  | cons entry rest ih =>
    -- the addresses after an entry that is passed over
    have hskip : (entry = 0 ∨
        (entry + sdtHeaderLength < u64Limit ∧ ¬ HasFadtSignature mem entry)) →
        (IsFirstFadt mem rest address ↔ IsFirstFadt mem (entry :: rest) address) := by
      intro hentry
      constructor
      · rintro ⟨before, after, rfl, hne, hroom, hsig, hbefore⟩
        refine ⟨entry :: before, after, rfl, hne, hroom, hsig, fun other hother => ?_⟩
        rcases List.mem_cons.mp hother with rfl | hother
        · exact hentry
        · exact hbefore other hother
      · rintro ⟨before, after, hsplit, hne, hroom, hsig, hbefore⟩
        cases before with
        | nil =>
          obtain ⟨rfl, rfl⟩ := List.cons.inj hsplit
          rcases hentry with rfl | ⟨-, hother⟩
          · exact absurd rfl hne
          · exact absurd hsig hother
        | cons first before =>
          obtain ⟨rfl, rfl⟩ := List.cons.inj hsplit
          exact ⟨before, after, rfl, hne, hroom, hsig,
            fun other hother => hbefore other (List.mem_cons_of_mem _ hother)⟩
    rw [surveyFadtAddress]
    split_ifs with hne
    · rw [Survey.bind_eq_ok]
      constructor
      · rintro ⟨header, hheader, h⟩
        obtain ⟨-, hroom, rfl⟩ := surveyBytes_eq_ok.mp hheader
        split_ifs at h with hsig
        · cases h
          exact ⟨[], rest, rfl, hne, hroom, hsig.2, by simp⟩
        · exact (hskip (.inr ⟨hroom, fun hhas => hsig ⟨four_le_header entry, hhas⟩⟩)).mp (ih.mp h)
      · intro h
        -- the entry is the FADT or stands before it, so its header can be mapped either way
        have hfirst : entry + sdtHeaderLength < u64Limit := by
          obtain ⟨before, after, hsplit, -, hroom, -, hbefore⟩ := h
          cases before with
          | nil =>
            obtain ⟨rfl, -⟩ := List.cons.inj hsplit
            exact hroom
          | cons first before =>
            obtain ⟨rfl, -⟩ := List.cons.inj hsplit
            exact ((hbefore entry List.mem_cons_self).resolve_left hne).1
        refine ⟨_, surveyBytes_eq_ok.mpr ⟨by decide, hfirst, rfl⟩, ?_⟩
        by_cases hsig : HasFadtSignature mem entry
        · obtain ⟨before, after, hsplit, -, -, -, hbefore⟩ := h
          rw [if_pos ⟨four_le_header entry, hsig⟩]
          cases before with
          | nil =>
            obtain ⟨rfl, -⟩ := List.cons.inj hsplit
            rfl
          | cons first before =>
            obtain ⟨rfl, -⟩ := List.cons.inj hsplit
            exact absurd hsig ((hbefore entry List.mem_cons_self).resolve_left hne).2
        · rw [if_neg fun h => hsig h.2]
          exact ih.mpr ((hskip (.inr ⟨hfirst, hsig⟩)).mpr h)
    · rw [not_not] at hne
      exact ih.trans (hskip (.inl hne))

theorem parsed_eq {α : Type} {x : ExceptT PowerError Option α} {r : Except PowerError α}
    (h : x.run = some r) : parsed x = r := by
  rw [parsed, h]
  rfl

/-- **The survey comes to what the tables describe.** -/
theorem surveyAcpiShutdown_eq_ok {acpiRsdpAddr : Nat} {shutdown : AcpiShutdown} :
    (surveyAcpiShutdown mem acpiRsdpAddr).result = .ok shutdown ↔
      Describes mem acpiRsdpAddr shutdown := by
  unfold surveyAcpiShutdown
  split_ifs with hzero
  · constructor
    · intro h
      cases h
    · intro h
      exact absurd hzero h.1
  · constructor
    · intro h
      obtain ⟨rsdp, hrsdp, h⟩ := Survey.bind_eq_ok.mp h
      obtain ⟨-, hroom, rfl⟩ := surveyBytes_eq_ok.mp hrsdp
      obtain ⟨rootTable, hrootTable, h⟩ := Survey.bind_eq_ok.mp h
      obtain ⟨root, hroot, h⟩ := Survey.bind_eq_ok.mp h
      obtain ⟨fadtAddress, hfadtAddress, h⟩ := Survey.bind_eq_ok.mp h
      obtain ⟨fadt, hfadt, h⟩ := Survey.bind_eq_ok.mp h
      obtain ⟨fadtInfo, hinfo, h⟩ := Survey.bind_eq_ok.mp h
      obtain ⟨dsdt, hdsdt, h⟩ := Survey.bind_eq_ok.mp h
      obtain ⟨sleepTypes, hsleep, h⟩ := Survey.bind_eq_ok.mp h
      cases h
      obtain ⟨r, hr⟩ := (parseRsdp_returns (TableSlice.on ⟨acpiRsdpAddr, rsdpV2Length⟩ mem)).run
      obtain ⟨r', hr'⟩ := (parseFadt_returns (fadt.on mem)).run
      have hrootOk : r = .ok rootTable := (parsed_eq hr).symm.trans hrootTable
      have hinfoOk : r' = .ok fadtInfo := (parsed_eq hr').symm.trans hinfo
      exact ⟨hzero, hroom, rootTable, root, fadtAddress, fadt, fadtInfo, dsdt,
        hrootOk ▸ hr, surveySdt_eq_ok.mp hroot, surveyFadtAddress_eq_ok.mp hfadtAddress,
        surveySdt_eq_ok.mp hfadt, hinfoOk ▸ hr', surveySdt_eq_ok.mp hdsdt, hsleep, rfl, rfl⟩
    · rintro ⟨-, hroom, rootTable, root, fadtAddress, fadt, fadtInfo, dsdt, hrootTable, hroot,
        hfadtAddress, hfadt, hinfo, hdsdt, hsleep, hpm1a, hpm1b⟩
      refine Survey.bind_eq_ok.mpr ⟨_, surveyBytes_eq_ok.mpr ⟨by decide, hroom, rfl⟩, ?_⟩
      refine Survey.bind_eq_ok.mpr ⟨rootTable, parsed_eq hrootTable, ?_⟩
      refine Survey.bind_eq_ok.mpr ⟨root, surveySdt_eq_ok.mpr hroot, ?_⟩
      refine Survey.bind_eq_ok.mpr ⟨_, surveyFadtAddress_eq_ok.mpr hfadtAddress, ?_⟩
      refine Survey.bind_eq_ok.mpr ⟨fadt, surveySdt_eq_ok.mpr hfadt, ?_⟩
      refine Survey.bind_eq_ok.mpr ⟨fadtInfo, parsed_eq hinfo, ?_⟩
      refine Survey.bind_eq_ok.mpr ⟨dsdt, surveySdt_eq_ok.mpr hdsdt, ?_⟩
      refine Survey.bind_eq_ok.mpr ⟨_, hsleep, ?_⟩
      rw [← hpm1a, ← hpm1b]
      rfl

end

/-! ## The search on the machine -/

/-- A range that can be searched: below `2^47`, clear of the window, and apart from page tables and
free memory. -/
structure Searchable (s : MemoryState) (tables : Set Nat) (r : Nat × Nat) : Prop where
  ok : RangeOk s r.1 r.2
  apart : Disjoint (Set.Ico r.1 r.2) (tables ∪ s.free)

/-- **The memory during the search**, which began in `s₀` with its page tables in `tables₀`. What
has been `seen` is mapped to itself, and the stores went into page tables and memory that was
free. -/
structure Searching (s₀ : MemoryState) (tables₀ : Set Nat) (seen : List (Nat × Nat))
    (s : MemoryState) : Prop where
  space : ∃ tables ⊆ tables₀ ∪ s₀.free,
    KernelSpaceInv s tables fun n => ∃ r ∈ seen, RangePage r.1 r.2 n
  free : s.free ⊆ s₀.free
  window : s.physWindowEnd = s₀.physWindowEnd
  writes : ByteMemory.WritesOnly (tables₀ ∪ s₀.free) s₀.phys s.phys
  searchable : ∀ r ∈ seen, Searchable s₀ tables₀ r

def TableSlice.range (slice : TableSlice) : Nat × Nat :=
  (slice.address, slice.address + slice.len)

section

variable {s₀ : MemoryState} {tables₀ : Set Nat} {seen : List (Nat × Nat)}

/-- What has been seen is read without a fault, and as it was when the search began. -/
theorem Searching.load {s : MemoryState} (h : Searching s₀ tables₀ seen s) {slice : TableSlice}
    (hslice : slice.range ∈ seen) :
    (kernelView s).readBytes slice.address slice.len = some (slice.on s₀.phys.byte) := by
  obtain ⟨tables, -, hspace⟩ := h.space
  have hsearch := h.searchable _ hslice
  have hholds : (kernelView s).Holds slice.address (slice.on s₀.phys.byte) := by
    intro i hi
    rw [TableSlice.length_on] at hi
    have hstop : slice.address + slice.len ≤ 2 ^ 47 := hsearch.ok.stop_le
    have hin : slice.address + i ∈ Set.Ico slice.range.1 slice.range.2 := by
      rw [TableSlice.range, Set.mem_Ico]
      omega
    obtain ⟨space, target, hkernel, hwalk, hphys⟩ := hspace.walk (v := slice.address + i)
      (by omega) (.inr ⟨_, hslice, by
        rw [TableSlice.range, RangePage]
        omega⟩)
    -- the stores since the search began went elsewhere
    have hbyte := h.writes.byte _ (Set.disjoint_left.mp hsearch.apart hin)
    have hlist : (slice.on s₀.phys.byte)[i]? = some (s₀.phys.byte (slice.address + i)) := by
      rw [TableSlice.on, List.getElem?_map, List.getElem?_range hi]
      rfl
    rw [hlist, ← hbyte]
    unfold kernelView
    rw [hkernel]
    show (walk s.phys space.rootPaddr (slice.address + i)).bind _ = _
    rw [hwalk, ← hphys]
    rfl
  have hread := hholds.readBytes
  rwa [TableSlice.length_on] at hread

/-- **One range more**: a call maps it, or fails, and the search goes on or is over. -/
theorem Searching.map {s : MemoryState} (h : Searching s₀ tables₀ seen s) {start stop : Nat}
    (hrange : Searchable s₀ tables₀ (start, stop)) :
    match mapKernelIdentityRange start stop false s with
    | .ok _ s' => Searching s₀ tables₀ (seen ++ [(start, stop)]) s'
    | .error _ s' => Searching s₀ tables₀ seen s' := by
  obtain ⟨tables, htables, hspace⟩ := h.space
  obtain ⟨_, _, -, hrelated, -⟩ := hspace.mapped
  have hvalid : s.allocator.Valid := hrelated.elim fun _ R => R.valid
  have hok : RangeOk s start stop := by
    refine ⟨hrange.ok.start_le, hrange.ok.stop_le, ?_⟩
    rw [h.window]
    exact hrange.ok.clear
  have hkeeps := mapKernelIdentityRange_keeps hspace false hok
  -- what the call took was free when the search began
  have htaken : ∀ s' : MemoryState, tables ∪ (s.free \ s'.free) ⊆ tables₀ ∪ s₀.free := fun s' =>
    Set.union_subset htables
      (Set.sdiff_subset.trans (h.free.trans Set.subset_union_right))
  cases hrun : mapKernelIdentityRange start stop false s with
  | ok _ s' =>
    rw [hrun] at hkeeps
    obtain ⟨hwrites, hspace'⟩ := hkeeps
    have hend := (mapKernelIdentityRange_context hvalid (.inl hrun)).1
    have hfree := (mapKernelIdentityRange_takes hvalid (.inl ⟨_, hrun⟩)).1.rest
    refine ⟨⟨_, htaken s', KernelRun.KernelSpaceInv.mono hspace' ?_⟩, hfree.trans h.free,
      hend.trans h.window, h.writes.trans (hwrites.mono (htaken s')), ?_⟩
    · rintro n ⟨r, hr, hn⟩
      rcases List.mem_append.mp hr with hr | hr
      · exact .inl ⟨r, hr, hn⟩
      · rw [List.mem_singleton] at hr
        subst hr
        exact .inr hn
    · intro r hr
      rcases List.mem_append.mp hr with hr | hr
      · exact h.searchable r hr
      · rw [List.mem_singleton] at hr
        exact hr ▸ hrange
  | error e s' =>
    -- a call that fails may have mapped some pages, which no one relies on
    rw [hrun] at hkeeps
    obtain ⟨hwrites, hspace'⟩ := hkeeps
    have hend := (mapKernelIdentityRange_context hvalid (.inr ⟨e, hrun⟩)).1
    have hfree := (mapKernelIdentityRange_takes hvalid (.inr ⟨e, hrun⟩)).1.rest
    exact ⟨⟨_, htaken s', hspace'⟩, hfree.trans h.free, hend.trans h.window,
      h.writes.trans (hwrites.mono (htaken s')), h.searchable⟩

/-- The program does what the survey of the memory the search began with says. -/
abbrev Finds (s₀ : MemoryState) (tables₀ : Set Nat) {α : Type} (seen : List (Nat × Nat))
    (x : PowerM α) (p : Survey PowerError α) : Prop :=
  Survey.Follows (Searching s₀ tables₀) (Searchable s₀ tables₀) .mappingFailed seen x p

theorem mapBytes_finds (address len : Nat) :
    Finds s₀ tables₀ seen (mapBytes address len) (surveyBytes address len) := by
  refine .ite (fun _ => .throw _) fun _ => .ite (fun _ => .throw _) fun _ => ?_
  intro s hs hallowed
  have hmap := hs.map (hallowed _ (List.mem_singleton_self _))
  cases hrun : mapKernelIdentityRange address (address + len) false s with
  | ok _ s' =>
    rw [hrun] at hmap
    exact ⟨.ok ⟨address, len⟩, s', by simp only [hrun], .inl ⟨rfl, hmap⟩⟩
  | error e s' =>
    rw [hrun] at hmap
    exact ⟨.error .mappingFailed, s', by simp only [hrun], .inr ⟨rfl, seen, hmap⟩⟩

theorem TableSlice.load_finds {β : Type} {slice : TableSlice} {f : List UInt8 → PowerM β}
    {p : Survey PowerError β} (hslice : slice.range ∈ seen)
    (hf : Finds s₀ tables₀ seen (f (slice.on s₀.phys.byte)) p) :
    Finds s₀ tables₀ seen (slice.load >>= f) p :=
  .reads (fun _ hs => hs.load hslice) hf

/-- What `map_bytes` returns can be read. -/
theorem range_mem_surveyBytes {address len : Nat} {slice : TableSlice}
    (h : (surveyBytes address len).result = .ok slice) :
    slice.range ∈ seen ++ (surveyBytes address len).ranges := by
  obtain ⟨hzero, hlimit, rfl⟩ := surveyBytes_eq_ok.mp h
  rw [surveyBytes, if_neg hzero, if_neg (Nat.not_le.mpr hlimit)]
  exact List.mem_append_right _ (List.mem_singleton_self _)

/-- What `map_sdt` returns can be read. -/
theorem range_mem_surveySdt {mem : Nat → UInt8} {address : Nat} {signature : List UInt8}
    {table : TableSlice} (h : IsTable mem address signature table) :
    table.range ∈ seen ++ (surveySdt mem address signature).ranges := by
  have hle := parseTableLength_le h.len
  have hroom := h.room
  rw [sdtHeaderLength] at hle
  have hheader : (surveyBytes address sdtHeaderLength).result = .ok ⟨address, sdtHeaderLength⟩ := by
    refine surveyBytes_eq_ok.mpr ⟨by decide, ?_, rfl⟩
    rw [sdtHeaderLength]
    omega
  have hwhole : (surveyBytes address table.len).result = .ok table := by
    refine surveyBytes_eq_ok.mpr ⟨by omega, hroom, ?_⟩
    rw [← h.address_eq]
  refine List.mem_append_right _ ?_
  rw [surveySdt, if_neg h.address_ne]
  refine Survey.mem_ranges_bind_right hheader ?_
  rw [h.len]
  refine Survey.mem_ranges_bind_left ?_
  have hmem : table.range ∈ [] ++ (surveyBytes address table.len).ranges :=
    range_mem_surveyBytes hwhole
  rwa [List.nil_append] at hmem

theorem mapSdt_finds (address : Nat) (signature : List UInt8) :
    Finds s₀ tables₀ seen (mapSdt address signature)
      (surveySdt s₀.phys.byte address signature) := by
  refine .ite (fun _ => .throw _) fun _ => ?_
  refine .bind (mapBytes_finds _ _) fun header hheader => ?_
  refine header.load_finds (range_mem_surveyBytes hheader) ?_
  cases hlen : parseTableLength (header.on s₀.phys.byte) with
  | none =>
    refine .refused (e := .invalidRootTable) ?_ rfl
    rw [parseTableLengthIndexed_eq, hlen]
    rfl
  | some length =>
    refine .known (a := length) ?_ ?_
    · rw [parseTableLengthIndexed_eq, hlen]
      rfl
    · refine .bind (mapBytes_finds _ _) fun table htable => ?_
      refine table.load_finds (range_mem_surveyBytes htable) ?_
      exact .bind (.returns (parseSdtHeaderIndexed_agrees _ _)) fun _ _ => .pure _

/-- The loop, from the entry `i` on. -/
theorem findFadtLoop_finds {root : TableSlice} (kind : RootTableKind) (hroot : root.range ∈ seen)
    {rounds i : Nat} (hi : i ≤ (root.len - sdtHeaderLength) / entrySize kind)
    (hrounds : (root.len - sdtHeaderLength) / entrySize kind ≤ i + rounds) :
    Finds s₀ tables₀ seen
      (findFadtLoop root kind rounds (sdtHeaderLength + i * entrySize kind))
      (surveyFadtAddress s₀.phys.byte
        ((List.range' i ((root.len - sdtHeaderLength) / entrySize kind - i)).map fun i =>
          readLe (root.on s₀.phys.byte) (sdtHeaderLength + i * entrySize kind)
            (entrySize kind))) := by
  induction rounds generalizing i seen with
  | zero =>
    rw [Nat.sub_eq_zero_of_le (hrounds.trans_eq (Nat.add_zero i))]
    exact .throw _
  | succ rounds ih =>
    have hmore : sdtHeaderLength + i * entrySize kind + entrySize kind ≤ root.len ↔
        i < (root.len - sdtHeaderLength) / entrySize kind := by
      cases kind
      · simp only [entrySize, sdtHeaderLength]
        omega
      · simp only [entrySize, sdtHeaderLength]
        omega
    have hoffset : sdtHeaderLength + i * entrySize kind + entrySize kind =
        sdtHeaderLength + (i + 1) * entrySize kind := by
      rw [Nat.succ_mul, Nat.add_assoc]
    unfold findFadtLoop
    by_cases hlast : i < (root.len - sdtHeaderLength) / entrySize kind
    · rw [if_pos (hmore.mpr hlast)]
      obtain ⟨left, hleft⟩ : ∃ left, (root.len - sdtHeaderLength) / entrySize kind - i = left + 1 :=
        ⟨_, (Nat.succ_pred_eq_of_pos (Nat.sub_pos_of_lt hlast)).symm⟩
      have hrest : (root.len - sdtHeaderLength) / entrySize kind - (i + 1) = left := by omega
      rw [hleft, List.range'_succ, List.map_cons, surveyFadtAddress, ← hrest]
      refine root.load_finds hroot (.known (a := readLe (root.on s₀.phys.byte)
        (sdtHeaderLength + i * entrySize kind) (entrySize kind)) ?_ ?_)
      · rw [readIndexed_eq, TableSlice.length_on, if_pos (hmore.mpr hlast)]
        rfl
      · rw [hoffset]
        refine .ite (fun _ => ?_) fun _ => ih hroot hlast (by omega)
        refine .bind (mapBytes_finds _ _) fun header hheader => ?_
        refine header.load_finds (range_mem_surveyBytes hheader) ?_
        exact .ite (fun _ => .pure _) fun _ =>
          ih (List.mem_append_left _ hroot) hlast (by omega)
    · rw [if_neg fun h => hlast (hmore.mp h), Nat.sub_eq_zero_of_le (Nat.not_lt.mp hlast)]
      exact .throw _

theorem findFadtAddress_finds {root : TableSlice} (kind : RootTableKind)
    (hroot : root.range ∈ seen) :
    Finds s₀ tables₀ seen (findFadtAddress root kind)
      (surveyFadtAddress s₀.phys.byte (rootEntries kind (root.on s₀.phys.byte))) := by
  have hrounds : (root.len - sdtHeaderLength) / entrySize kind ≤ 0 + root.len := by
    rw [Nat.zero_add]
    exact (Nat.div_le_self _ _).trans (Nat.sub_le _ _)
  have hloop : Finds s₀ tables₀ seen (findFadtLoop root kind root.len _) _ :=
    findFadtLoop_finds kind hroot (Nat.zero_le _) hrounds
  rw [Nat.zero_mul, Nat.add_zero, Nat.sub_zero, ← List.range_eq_range'] at hloop
  rw [rootEntries, TableSlice.length_on]
  exact hloop

/-- **Discovery finds what the tables say.** -/
theorem discoverAcpiShutdown_finds (acpiRsdpAddr : Nat) :
    Finds s₀ tables₀ seen (discoverAcpiShutdown acpiRsdpAddr)
      (surveyAcpiShutdown s₀.phys.byte acpiRsdpAddr) := by
  refine .ite (fun _ => .throw _) fun _ => ?_
  refine .bind (mapBytes_finds _ _) fun rsdp hrsdp => ?_
  refine rsdp.load_finds (range_mem_surveyBytes hrsdp) ?_
  obtain ⟨r, hr⟩ := (parseRsdp_returns (rsdp.on s₀.phys.byte)).run
  refine .bind (.returns (hr.trans (congrArg some (parsed_eq hr).symm))) fun rootTable _ => ?_
  refine .bind (mapSdt_finds _ _) fun root hroot => ?_
  -- the root table stays in use while the entries are looked at
  refine .bind (findFadtAddress_finds _ (range_mem_surveySdt (surveySdt_eq_ok.mp hroot)))
    fun fadtAddress _ => ?_
  refine .bind (mapSdt_finds _ _) fun fadt hfadt => ?_
  refine fadt.load_finds (range_mem_surveySdt (surveySdt_eq_ok.mp hfadt)) ?_
  obtain ⟨r', hr'⟩ := (parseFadt_returns (fadt.on s₀.phys.byte)).run
  refine .bind (.returns (hr'.trans (congrArg some (parsed_eq hr').symm))) fun fadtInfo _ => ?_
  refine .bind (mapSdt_finds _ _) fun dsdt hdsdt => ?_
  refine dsdt.load_finds (range_mem_surveySdt (surveySdt_eq_ok.mp hdsdt)) ?_
  exact .bind (.returns (parseS5PackageIndexed_agrees _)) fun _ _ => .pure _

end

/-! ## Powering off -/

/-- The word enables the sleep state and carries its type, and nothing else. -/
theorem sleepCommand_eq {sleepType : Nat} (h : sleepType < 8) :
    sleepCommand sleepType = 2 ^ 13 + sleepType * 2 ^ 10 := by
  revert sleepType
  decide

theorem perform_eq {d : AcpiShutdown} (ha : d.sleepTypeA < 8) (hb : d.sleepTypeB < 8) :
    d.perform = (d.pm1aControlBlock, 2 ^ 13 + d.sleepTypeA * 2 ^ 10) ::
      d.pm1bControlBlock.toList.map fun port => (port, 2 ^ 13 + d.sleepTypeB * 2 ^ 10) := by
  unfold AcpiShutdown.perform
  rw [sleepCommand_eq ha, sleepCommand_eq hb]
  cases d.pm1bControlBlock with
  | none => rfl
  | some port => rfl

/-- What the tables describe are ports and sleep types. -/
theorem Describes.fields {mem : Nat → UInt8} {acpiRsdpAddr : Nat} {d : AcpiShutdown}
    (h : Describes mem acpiRsdpAddr d) :
    IsPort d.pm1aControlBlock ∧ (∀ port ∈ d.pm1bControlBlock, IsPort port) ∧
      d.sleepTypeA < 8 ∧ d.sleepTypeB < 8 := by
  obtain ⟨-, -, _, _, _, fadt, fadtInfo, _, -, -, -, -, hinfo, -, hsleep, hpm1a, hpm1b⟩ := h
  obtain ⟨r, hr, hfields⟩ := parseFadt_returns (fadt.on mem)
  obtain rfl : r = .ok fadtInfo := Option.some.inj (hr.symm.trans hinfo)
  obtain ⟨-, hport, hports⟩ := hfields fadtInfo rfl
  obtain ⟨hA, hB⟩ := parseS5Package_lt hsleep
  rw [hpm1a, hpm1b]
  exact ⟨hport, hports, hA, hB⟩

/-- **The search, from a run of the kernel's mappings**: no fault and no panic, and it comes to what
the survey of the memory comes to, or to `MappingFailed`. -/
theorem discoverAcpiShutdown_follows {bootInfo : BootInfo} {image : KernelImage}
    (hboot : bootInfo.Regular) {run : KernelRun}
    (hrun : KernelRun.Reachable bootInfo image RangeOk run) {acpiRsdpAddr : Nat}
    (hranges : ∀ r ∈ tableRanges run.state.phys.byte acpiRsdpAddr,
      Searchable run.state run.tables r) :
    ∃ r s, discoverAcpiShutdown acpiRsdpAddr run.state = some (r, s) ∧
      ByteMemory.WritesOnly (run.tables ∪ run.state.free) run.state.phys s.phys ∧
      (r = (surveyAcpiShutdown run.state.phys.byte acpiRsdpAddr).result ∨
        r = .error .mappingFailed) := by
  have hstart : Searching run.state run.tables [] run.state := by
    refine ⟨⟨run.tables, Set.subset_union_left,
      KernelRun.KernelSpaceInv.mono (hrun.inv hboot) ?_⟩, subset_rfl, rfl, .refl _ _, by simp⟩
    rintro n ⟨r, hr, -⟩
    cases hr
  obtain ⟨r, s, hdiscover, hcases⟩ :=
    discoverAcpiShutdown_finds acpiRsdpAddr run.state hstart hranges
  rcases hcases with ⟨hr, hsearching⟩ | ⟨hr, _, hsearching⟩
  · exact ⟨r, s, hdiscover, hsearching.writes, .inl hr⟩
  · exact ⟨r, s, hdiscover, hsearching.writes, .inr hr⟩

/-- The four tables of a small machine, one behind the other. -/
def sampleTables : List UInt8 :=
  -- the RSDP of revision 0, with the address of the RSDT
  rsdpSignature ++ [157] ++ List.replicate 7 0 ++ [0x24, 0, 0x20, 0] ++ List.replicate 16 0 ++
  -- the RSDT, with the address of the FADT
  rsdtSignature ++ [40, 0, 0, 0, 1, 46] ++ List.replicate 26 0 ++ [0x4c, 0, 0x20, 0] ++
  -- the FADT, with the address of the DSDT and one control block
  fadtSignature ++ [116, 0, 0, 0, 1, 133] ++ List.replicate 30 0 ++ [0xc0, 0, 0x20, 0] ++
    List.replicate 20 0 ++ [4, 6, 0, 0] ++ List.replicate 21 0 ++ [2] ++ List.replicate 26 0 ++
  -- the DSDT, with the package
  dsdtSignature ++ [48, 0, 0, 0, 1, 26] ++ List.replicate 26 0 ++ [amlNameOp] ++ s5Name ++
    [amlPackageOp, 6, 2, amlBytePrefix, 5, amlBytePrefix, 5]

/-- A memory with the tables two megabytes up. -/
def sampleFirmware : ByteMemory where
  byte a := if 0x200000 ≤ a then sampleTables.getD (a - 0x200000) 0 else 0
  stores := []

def sampleFilled : MemoryState :=
  (KernelRun.stateOf (initializeAllocator KernelRun.sampleBoot ⟨0, 0⟩
    (.new sampleFirmware))).getD KernelRun.blankState

def sampleBooted : MemoryState :=
  (KernelRun.stateOf (Memory.init KernelRun.sampleBoot ⟨0, 0⟩
    (.new sampleFirmware))).getD KernelRun.blankState

def samplePowerRun : KernelRun := ⟨sampleBooted, sampleFilled.free \ sampleBooted.free, []⟩

theorem samplePowerRun_reachable :
    KernelRun.Reachable KernelRun.sampleBoot ⟨0, 0⟩ RangeOk samplePowerRun :=
  .init (KernelRun.eq_getD_of_stateOf (by decide +kernel))
    (KernelRun.eq_getD_of_stateOf (by decide +kernel))

/-- All of the machine's memory is from the window on. -/
theorem samplePowerRun_memory :
    samplePowerRun.tables ∪ samplePowerRun.state.free ⊆ Set.Ici physWindowStart := by
  have hfilled : sampleFilled.allocator.live = [⟨0x1000000, 0x1400000⟩] := by decide +kernel
  have hbooted : sampleBooted.allocator.live = [⟨0x1003000, 0x1400000⟩] := by decide +kernel
  rintro x (⟨⟨r, hr, hlow, -⟩, -⟩ | ⟨r, hr, hlow, -⟩)
  · rw [hfilled, List.mem_singleton] at hr
    subst hr
    exact hlow
  · rw [show samplePowerRun.state.allocator.live = _ from hbooted, List.mem_singleton] at hr
    subst hr
    exact (by decide : physWindowStart ≤ 0x1003000).trans hlow

end Lazers.Power
