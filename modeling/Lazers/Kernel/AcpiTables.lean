import Lazers.Kernel.Power
import Lazers.Lib.Panics

/-!
# The ACPI parsers, with their indexing (`power.rs`)

The lengths in the tables are the firmware's, and need not be those of the slices. Here every
index and every slice of the source can panic (`none`). The scanner for `_S5_` and the header
check also have a model without bounds, which they agree with.

- `parseRsdp_returns`, `parseFadt_returns`: no panic in the tables up to the DSDT.
- `parseS5PackageIndexed_agrees`: none in the scanner, which moves its cursor by what it has read.
- `acpi_parsing_safe`: none anywhere, and the sleep types are below 8.
-/

namespace Lazers.Power

open Panics

def rsdpV1Length : Nat := 20
def rsdpV2Length : Nat := 36
/-- `RSD PTR `. -/
def rsdpSignature : List UInt8 := [0x52, 0x53, 0x44, 0x20, 0x50, 0x54, 0x52, 0x20]

def fadtDsdtOffset : Nat := 40
def fadtPm1aControlBlockOffset : Nat := 64
def fadtPm1bControlBlockOffset : Nat := 68
def fadtPm1ControlLengthOffset : Nat := 89
def fadtXDsdtOffset : Nat := 140
def fadtXPm1aControlBlockOffset : Nat := 172
def fadtXPm1bControlBlockOffset : Nat := 184
def gasLength : Nat := 12
def gasSpaceIdSystemIo : UInt8 := 1

inductive RootTableKind where
  | rsdt
  | xsdt
deriving DecidableEq, Repr

structure RootTable where
  kind : RootTableKind
  address : Nat
deriving DecidableEq, Repr

structure FadtInfo where
  dsdtAddress : Nat
  pm1aControlBlock : Nat
  pm1bControlBlock : Option Nat
deriving DecidableEq, Repr

/-! ## Reading -/

/-- `bytes[i]`. -/
def byteAt (bytes : List UInt8) (i : Nat) : Option UInt8 := index bytes i

/-- `from_le_bytes` of the `n` bytes from `bytes[offset]` on. -/
def fromLeBytes (bytes : List UInt8) (offset : Nat) : (n : Nat) → Option Nat
  | 0 => some 0
  | n + 1 => do
    let byte ← byteAt bytes offset
    let rest ← fromLeBytes bytes (offset + 1) n
    return byte.toNat + 256 * rest

/-- `read_u32` and `read_u64`: `None` is what they return where the bytes are not there. -/
def readIndexed (bytes : List UInt8) (offset n : Nat) : Option (Option Nat) :=
  match slice bytes offset (offset + n) with
  | none => some none
  | some word => do
    let value ← fromLeBytes word 0 n
    return some value

/-- `checksum`. -/
def checksumIndexed (bytes : List UInt8) (length : Nat) : Option UInt8 := do
  let summed ← slice bytes 0 length
  return summed.foldl (· + ·) 0

/-! ## Tables -/

/-- `parse_rsdp`. -/
def parseRsdp (bytes : List UInt8) : ExceptT PowerError Option RootTable := do
  if bytes.length < rsdpV1Length then throw .invalidRsdp
  else if (← slice bytes 0 8) ≠ rsdpSignature then throw .invalidRsdp
  else if (← checksumIndexed bytes rsdpV1Length) ≠ 0 then throw .invalidRsdp
  else
    let revision ← byteAt bytes 15
    if revision ≥ 2 then
      if bytes.length < rsdpV2Length then throw .invalidRsdp
      else
        let length ← okOr .invalidRsdp (← readIndexed bytes 20 4)
        if length < rsdpV2Length then throw .invalidRsdp
        else if bytes.length < length then throw .invalidRsdp
        else if (← checksumIndexed bytes length) ≠ 0 then throw .invalidRsdp
        else
          let xsdtAddress ← okOr .invalidRsdp (← readIndexed bytes 24 8)
          if xsdtAddress ≠ 0 then return { kind := .xsdt, address := xsdtAddress }
          else rsdt
    else rsdt
where
  /-- The part of `parse_rsdp` that both revisions have. -/
  rsdt : ExceptT PowerError Option RootTable := do
    let rsdtAddress ← okOr .invalidRsdp (← readIndexed bytes 16 4)
    if rsdtAddress = 0 then throw .missingRootTable
    else return { kind := .rsdt, address := rsdtAddress }

/-- `parse_table_length`. -/
def parseTableLengthIndexed (bytes : List UInt8) : Option (Option Nat) := do
  match ← readIndexed bytes 4 4 with
  | none => return none
  | some length => return if length < sdtHeaderLength then none else some length

/-- `parse_sdt_header`. -/
def parseSdtHeaderIndexed (bytes expectedSignature : List UInt8) :
    ExceptT PowerError Option Unit := do
  if bytes.length < sdtHeaderLength then throw (tableError expectedSignature)
  else
    let length ← okOr (tableError expectedSignature) (← parseTableLengthIndexed bytes)
    if bytes.length < length then throw (tableError expectedSignature)
    else if (← slice bytes 0 4) ≠ expectedSignature then throw (tableError expectedSignature)
    else if (← checksumIndexed bytes length) ≠ 0 then throw (tableError expectedSignature)
    else return ()

/-- `select_dsdt_address`. -/
def selectDsdtAddress (bytes : List UInt8) : ExceptT PowerError Option Nat := do
  if bytes.length ≥ fadtXDsdtOffset + 8 then
    let xDsdt ← okOr .invalidFadt (← readIndexed bytes fadtXDsdtOffset 8)
    if xDsdt ≠ 0 then return xDsdt
    else legacy
  else legacy
where
  /-- The address of 32 bits. -/
  legacy : ExceptT PowerError Option Nat := do
    let dsdt ← okOr .invalidFadt (← readIndexed bytes fadtDsdtOffset 4)
    if dsdt = 0 then throw .missingDsdt
    else return dsdt

/-- `parse_system_io_gas`. -/
def parseSystemIoGas (bytes : List UInt8) : ExceptT PowerError Option (Option Nat) := do
  if bytes.length < gasLength then throw .invalidFadt
  else
    let spaceId ← byteAt bytes 0
    let bitWidth ← byteAt bytes 1
    let address ← okOr .invalidFadt (← readIndexed bytes 4 8)
    if address = 0 then return none
    else if spaceId ≠ gasSpaceIdSystemIo ∨ bitWidth < 16 ∨ address > 0xffff then
      throw .unsupportedPm1ControlBlock
    else return some address

/-- `select_pm1_control_block`. -/
def selectPm1ControlBlock (bytes : List UInt8) (legacyOffset extendedOffset : Nat) :
    ExceptT PowerError Option (Option Nat) := do
  if bytes.length ≥ extendedOffset + gasLength then
    match ← parseSystemIoGas (← slice bytes extendedOffset (extendedOffset + gasLength)) with
    | some address => return some address
    | none => legacyBlock
  else legacyBlock
where
  /-- The block of 32 bits. -/
  legacyBlock : ExceptT PowerError Option (Option Nat) := do
    let legacy ← okOr .invalidFadt (← readIndexed bytes legacyOffset 4)
    if legacy = 0 then return none
    else if legacy > 0xffff then throw .unsupportedPm1ControlBlock
    else return some legacy

/-- `parse_fadt`. -/
def parseFadt (bytes : List UInt8) : ExceptT PowerError Option FadtInfo := do
  parseSdtHeaderIndexed bytes fadtSignature
  if bytes.length ≤ fadtPm1ControlLengthOffset then throw .invalidFadt
  else if (← byteAt bytes fadtPm1ControlLengthOffset) < 2 then throw .invalidFadt
  else
    let dsdtAddress ← selectDsdtAddress bytes
    let pm1a ← selectPm1ControlBlock bytes fadtPm1aControlBlockOffset fadtXPm1aControlBlockOffset
    let pm1aControlBlock ← okOr .missingPm1ControlBlock pm1a
    let pm1bControlBlock ←
      selectPm1ControlBlock bytes fadtPm1bControlBlockOffset fadtXPm1bControlBlockOffset
    return { dsdtAddress, pm1aControlBlock, pm1bControlBlock }

/-! ## AML -/

/-- The loop of `parse_package_length`. -/
def packageLengthLoopIndexed (bytes : List UInt8) : (rounds index length : Nat) → Option Nat
  | 0, _, length => some length
  | rounds + 1, i, length => do
    let byte ← byteAt bytes (1 + i)
    packageLengthLoopIndexed bytes rounds (i + 1) (length ||| byte.toNat <<< (4 + i * 8))

/-- `parse_package_length`. -/
def parsePackageLengthIndexed (bytes : List UInt8) : Option (Option (Nat × Nat)) :=
  match bytes.head? with
  | none => some none
  | some lead =>
    let followingBytes := (lead >>> 6).toNat
    if bytes.length < 1 + followingBytes then some none
    else do
      let length ← packageLengthLoopIndexed bytes followingBytes 0 (lead &&& 0x0f).toNat
      return some (length, 1 + followingBytes)

/-- `parse_aml_integer`. -/
def parseAmlIntegerIndexed (bytes : List UInt8) : Option (Option (Nat × Nat)) :=
  match bytes.head? with
  | none => some none
  | some opcode =>
    if opcode = 0x00 then some (some (0, 1))
    else if opcode = 0x01 then some (some (1, 1))
    else if opcode = amlBytePrefix ∧ bytes.length ≥ 2 then
      (byteAt bytes 1).map fun byte => some (byte.toNat, 2)
    else if opcode = amlWordPrefix ∧ bytes.length ≥ 3 then
      (fromLeBytes bytes 1 2).map fun value => some (value, 3)
    else if opcode = amlDwordPrefix ∧ bytes.length ≥ 5 then
      (fromLeBytes bytes 1 4).map fun value => some (value % 2 ^ 16, 5)
    else if opcode = amlQwordPrefix ∧ bytes.length ≥ 9 then
      (fromLeBytes bytes 1 8).map fun value => some (value % 2 ^ 16, 9)
    else some none

/-- The part of `parse_s5_package` behind the `PackageOp`. -/
def s5ValuesIndexed (aml : List UInt8) (cursor : Nat) :
    ExceptT PowerError Option (Nat × Nat) := do
  let package ← slice aml cursor aml.length
  let (_, packageLengthBytes) ← okOr .invalidS5Package (← parsePackageLengthIndexed package)
  let cursor := cursor + packageLengthBytes
  if cursor ≥ aml.length then throw .invalidS5Package
  else
    let cursor := cursor + 1
    let first ← slice aml cursor aml.length
    let (sleepTypeA, consumedA) ← okOr .invalidS5Package (← parseAmlIntegerIndexed first)
    let second ← slice aml (cursor + consumedA) aml.length
    let (sleepTypeB, _) ← okOr .invalidS5Package (← parseAmlIntegerIndexed second)
    return (sleepTypeA &&& 0x7, sleepTypeB &&& 0x7)

/-- Where the scanner looks for a name at the index. -/
def nameStartIndexed (aml : List UInt8) (i : Nat) : Option (Option Nat) := do
  let op ← byteAt aml i
  if op = amlNameOp then return some (i + 1)
  else if i + 1 < aml.length ∧ (op = amlRootPrefix ∨ op = amlParentPrefix) then
    let next ← byteAt aml (i + 1)
    return if next = amlNameOp then some (i + 2) else none
  else return none

/-- The loop of `parse_s5_package`. -/
def s5LoopIndexed (aml : List UInt8) : (rounds index : Nat) →
    ExceptT PowerError Option (Nat × Nat)
  | 0, _ => throw .missingS5Package
  | rounds + 1, i =>
    if i + 6 ≤ aml.length then do
      match ← nameStartIndexed aml i with
      | none => s5LoopIndexed aml rounds (i + 1)
      | some nameStart =>
        if nameStart + 4 > aml.length then s5LoopIndexed aml rounds (i + 1)
        else
          let name ← slice aml nameStart (nameStart + 4)
          if name ≠ s5Name then s5LoopIndexed aml rounds (i + 1)
          else
            let cursor := nameStart + 4
            if cursor ≥ aml.length then s5LoopIndexed aml rounds (i + 1)
            else
              let op ← byteAt aml cursor
              if op ≠ amlPackageOp then s5LoopIndexed aml rounds (i + 1)
              else s5ValuesIndexed aml (cursor + 1)
    else throw .missingS5Package

/-- `parse_s5_package`. -/
def parseS5PackageIndexed (dsdt : List UInt8) : ExceptT PowerError Option (Nat × Nat) := do
  parseSdtHeaderIndexed dsdt dsdtSignature
  let aml ← slice dsdt sdtHeaderLength dsdt.length
  s5LoopIndexed aml (aml.length + 1) 0

/-! ## In bounds -/

theorem byteAt_of_lt {bytes : List UInt8} {i : Nat} (h : i < bytes.length) :
    byteAt bytes i = some (bytes.getD i 0) :=
  index_of_lt h 0

theorem fromLeBytes_of_le {bytes : List UInt8} {offset n : Nat} (h : offset + n ≤ bytes.length) :
    fromLeBytes bytes offset n = some (readLe bytes offset n) := by
  induction n generalizing offset with
  | zero => rfl
  | succ n ih =>
    rw [fromLeBytes, byteAt_of_lt (by omega), ih (by omega)]
    rfl

/-- `read_u32` and `read_u64` look at bounds themselves. -/
theorem readIndexed_eq (bytes : List UInt8) (offset n : Nat) :
    readIndexed bytes offset n =
      some (if offset + n ≤ bytes.length then some (readLe bytes offset n) else none) := by
  rw [readIndexed]
  by_cases h : offset + n ≤ bytes.length
  · have hword : ((bytes.drop offset).take (offset + n - offset)).length = n := by
      rw [List.length_take, List.length_drop]
      omega
    rw [slice_of_le (Nat.le_add_right _ _) h, if_pos h]
    dsimp only
    rw [fromLeBytes_of_le (by rw [hword, Nat.zero_add]), readLe_slice bytes offset _ (by omega)]
    rfl
  · rw [slice, if_neg (fun hin => h hin.2), if_neg h]

theorem checksumIndexed_of_le {bytes : List UInt8} {length : Nat} (h : length ≤ bytes.length) :
    checksumIndexed bytes length = some (checksum bytes length) := by
  rw [checksumIndexed, slice_from_start h]
  rfl

theorem parseTableLengthIndexed_eq (bytes : List UInt8) :
    parseTableLengthIndexed bytes = some (parseTableLength bytes) := by
  rw [parseTableLengthIndexed, readIndexed_eq, parseTableLength, readU32]
  by_cases h : 4 + 4 ≤ bytes.length
  · rw [if_pos h, if_pos h]
    rfl
  · rw [if_neg h, if_neg h]
    rfl

theorem parseSdtHeaderIndexed_agrees (bytes signature : List UInt8) :
    Agrees (parseSdtHeaderIndexed bytes signature) (parseSdtHeader bytes signature) := by
  refine .ite (fun _ => .throw _) fun hroom => ?_
  have hroom : 36 ≤ bytes.length := Nat.not_lt.mp hroom
  refine .read (parseTableLengthIndexed_eq bytes) ?_
  cases parseTableLength bytes with
  | none => exact .throw _
  | some length =>
    show Agrees (if bytes.length < length then _ else _) _
    dsimp only
    by_cases hlength : bytes.length < length
    · rw [if_pos hlength, if_pos (.inl hlength)]
      exact .throw _
    · rw [if_neg hlength]
      refine .read (slice_from_start (by omega)) ?_
      by_cases hsig : bytes.take 4 ≠ signature
      · rw [if_pos hsig, if_pos (.inr (.inl hsig))]
        exact .throw _
      · rw [if_neg hsig]
        refine .read (checksumIndexed_of_le (by omega)) ?_
        by_cases hsum : checksum bytes length ≠ 0
        · rw [if_pos hsum, if_pos (.inr (.inr hsum))]
          exact .throw _
        · rw [if_neg hsum, if_neg (not_or.mpr ⟨hlength, not_or.mpr ⟨hsig, hsum⟩⟩)]
          exact .pure _

/-! ## The tables up to the DSDT -/

theorem parseRsdp_rsdt_returns (bytes : List UInt8) :
    Returns (fun table => table.address ≠ 0) (parseRsdp.rsdt bytes) := by
  refine .read (readIndexed_eq bytes 16 4) ?_
  refine .okOr fun address _ => ?_
  exact .ite (fun _ => .throw) fun hzero => .pure hzero

/-- **The RSDP.** -/
theorem parseRsdp_returns (bytes : List UInt8) :
    Returns (fun table => table.address ≠ 0) (parseRsdp bytes) := by
  refine .ite (fun _ => .throw) fun hroom => ?_
  have hroom : 20 ≤ bytes.length := Nat.not_lt.mp hroom
  refine .read (slice_from_start (by omega)) ?_
  refine .ite (fun _ => .throw) fun _ => ?_
  refine .read (checksumIndexed_of_le hroom) ?_
  refine .ite (fun _ => .throw) fun _ => ?_
  refine .read (byteAt_of_lt (by omega)) ?_
  refine .ite (fun _ => ?_) fun _ => parseRsdp_rsdt_returns bytes
  refine .ite (fun _ => .throw) fun _ => ?_
  refine .read (readIndexed_eq bytes 20 4) ?_
  refine .okOr fun length _ => ?_
  refine .ite (fun _ => .throw) fun _ => ?_
  -- the length of the table is checked against that of the slice before it is summed
  refine .ite (fun _ => .throw) fun hlength => ?_
  refine .read (checksumIndexed_of_le (Nat.not_lt.mp hlength)) ?_
  refine .ite (fun _ => .throw) fun _ => ?_
  refine .read (readIndexed_eq bytes 24 8) ?_
  refine .okOr fun address _ => ?_
  exact .ite (fun hzero => .pure hzero) fun _ => parseRsdp_rsdt_returns bytes

theorem selectDsdtAddress_returns (bytes : List UInt8) :
    Returns (fun address => address ≠ 0) (selectDsdtAddress bytes) := by
  have hlegacy : Returns (fun address => address ≠ 0) (selectDsdtAddress.legacy bytes) := by
    refine .read (readIndexed_eq bytes fadtDsdtOffset 4) ?_
    refine .okOr fun address _ => ?_
    exact .ite (fun _ => .throw) fun hzero => .pure hzero
  refine .ite (fun _ => ?_) fun _ => hlegacy
  refine .read (readIndexed_eq bytes fadtXDsdtOffset 8) ?_
  refine .okOr fun address _ => ?_
  exact .ite (fun hzero => .pure hzero) fun _ => hlegacy

/-- What a control block can be: an I/O port that is not 0. -/
def IsPort (address : Nat) : Prop := address ≠ 0 ∧ address ≤ 0xffff

theorem parseSystemIoGas_returns (bytes : List UInt8) :
    Returns (fun block => ∀ address ∈ block, IsPort address) (parseSystemIoGas bytes) := by
  refine .ite (fun _ => .throw) fun hroom => ?_
  have hroom : 12 ≤ bytes.length := Nat.not_lt.mp hroom
  refine .read (byteAt_of_lt (by omega)) ?_
  refine .read (byteAt_of_lt (by omega)) ?_
  refine .read (readIndexed_eq bytes 4 8) ?_
  refine .okOr fun address _ => ?_
  refine .ite (fun _ => .pure (by rintro _ ⟨⟩)) fun hzero => ?_
  refine .ite (fun _ => .throw) fun hport => .pure ?_
  rintro _ ⟨⟩
  exact ⟨hzero, Nat.not_lt.mp fun h => hport (.inr (.inr h))⟩

/-- **A control block**, wherever the table has it. -/
theorem selectPm1ControlBlock_returns (bytes : List UInt8) (legacyOffset extendedOffset : Nat) :
    Returns (fun block => ∀ address ∈ block, IsPort address)
      (selectPm1ControlBlock bytes legacyOffset extendedOffset) := by
  have hlegacy : Returns (fun block => ∀ address ∈ block, IsPort address)
      (selectPm1ControlBlock.legacyBlock bytes legacyOffset) := by
    refine .read (readIndexed_eq bytes legacyOffset 4) ?_
    refine .okOr fun address _ => ?_
    refine .ite (fun _ => .pure (by rintro _ ⟨⟩)) fun hzero => ?_
    refine .ite (fun _ => .throw) fun hport => .pure ?_
    rintro _ ⟨⟩
    exact ⟨hzero, Nat.not_lt.mp hport⟩
  refine .ite (fun hroom => ?_) fun _ => hlegacy
  refine .read (slice_of_le (Nat.le_add_right _ _) hroom) ?_
  refine .bind (parseSystemIoGas_returns _) fun block hblock => ?_
  cases block with
  | none => exact hlegacy
  | some address => exact .pure hblock

/-- **The FADT.** -/
theorem parseFadt_returns (bytes : List UInt8) :
    Returns (fun info => info.dsdtAddress ≠ 0 ∧ IsPort info.pm1aControlBlock ∧
      ∀ address ∈ info.pm1bControlBlock, IsPort address) (parseFadt bytes) := by
  refine .bind (.of_agrees (parseSdtHeaderIndexed_agrees bytes fadtSignature)) fun _ _ => ?_
  refine .ite (fun _ => .throw) fun hroom => ?_
  refine .read (byteAt_of_lt (Nat.not_le.mp hroom)) ?_
  refine .ite (fun _ => .throw) fun _ => ?_
  refine .bind (selectDsdtAddress_returns bytes) fun dsdt hdsdt => ?_
  refine .bind (selectPm1ControlBlock_returns bytes _ _) fun pm1a hpm1a => ?_
  refine .okOr fun address haddress => ?_
  refine .bind (selectPm1ControlBlock_returns bytes _ _) fun pm1b hpm1b => ?_
  exact .pure ⟨hdsdt, hpm1a address haddress, hpm1b⟩

/-! ## The scanner -/

theorem packageLengthLoopIndexed_eq {bytes : List UInt8} {rounds i : Nat} (length : Nat)
    (h : 1 + i + rounds ≤ bytes.length) :
    packageLengthLoopIndexed bytes rounds i length =
      some (packageLengthLoop bytes rounds i length) := by
  induction rounds generalizing i length with
  | zero => rfl
  | succ rounds ih =>
    rw [packageLengthLoopIndexed, byteAt_of_lt (by omega)]
    exact ih _ (by omega)

theorem parsePackageLengthIndexed_eq (bytes : List UInt8) :
    parsePackageLengthIndexed bytes = some (parsePackageLength bytes) := by
  cases bytes with
  | nil => rfl
  | cons lead tail =>
    show (if (lead :: tail).length < 1 + (lead >>> 6).toNat then _ else _) =
      some (if (lead :: tail).length < 1 + (lead >>> 6).toNat then _ else _)
    by_cases hshort : (lead :: tail).length < 1 + (lead >>> 6).toNat
    · rw [if_pos hshort, if_pos hshort]
    · rw [if_neg hshort, if_neg hshort, packageLengthLoopIndexed_eq _ (by omega)]
      rfl

theorem parseAmlIntegerIndexed_eq (bytes : List UInt8) :
    parseAmlIntegerIndexed bytes = some (parseAmlInteger bytes) := by
  cases bytes with
  | nil => rfl
  | cons opcode tail =>
    rw [parseAmlInteger_cons, parseAmlIntegerIndexed, List.head?_cons]
    dsimp only
    split_ifs with hzero hone hbyte hword hdword hqword
    · rfl
    · rfl
    · rw [byteAt_of_lt (by omega)]
      rfl
    · rw [fromLeBytes_of_le (by omega)]
      rfl
    · rw [fromLeBytes_of_le (by omega)]
      rfl
    · rw [fromLeBytes_of_le (by omega)]
      rfl
    · rfl

/-- An integer does not take more bytes than there are. -/
theorem parseAmlInteger_le {bytes : List UInt8} {v n : Nat} (h : parseAmlInteger bytes = some (v, n)) :
    n ≤ bytes.length := by
  obtain ⟨a, enc, rest, rfl, -, rfl, -⟩ := parseAmlInteger_iff.mp h
  rw [List.length_append]
  exact Nat.le_add_right _ _

theorem s5ValuesIndexed_agrees {aml : List UInt8} {cursor : Nat} (h : cursor ≤ aml.length) :
    Agrees (s5ValuesIndexed aml cursor) (s5Values aml cursor) := by
  rw [s5Values]
  refine .read (slice_to_end h) ?_
  refine .read (parsePackageLengthIndexed_eq _) ?_
  cases parsePackageLength (aml.drop cursor) with
  | none => exact .throw _
  | some package =>
    obtain ⟨length, packageLengthBytes⟩ := package
    refine .ite (fun _ => .throw _) fun hroom => ?_
    dsimp only
    refine .read (slice_to_end (by omega)) ?_
    refine .read (parseAmlIntegerIndexed_eq _) ?_
    cases hfirst : parseAmlInteger (aml.drop (cursor + packageLengthBytes + 1)) with
    | none => exact .throw _
    | some first =>
      obtain ⟨sleepTypeA, consumedA⟩ := first
      -- what the first integer takes is there, so the second slice starts inside
      have hconsumed := parseAmlInteger_le hfirst
      rw [List.length_drop] at hconsumed
      refine .read (slice_to_end (by omega)) ?_
      refine .read (parseAmlIntegerIndexed_eq _) ?_
      dsimp only
      cases parseAmlInteger (aml.drop (cursor + packageLengthBytes + 1 + consumedA)) with
      | none => exact .throw _
      | some second => exact .pure _

theorem nameStartIndexed_eq {aml : List UInt8} {i : Nat} (h : i < aml.length) :
    nameStartIndexed aml i = some (nameStart aml i) := by
  rw [nameStartIndexed, byteAt_of_lt h, nameStart]
  show (if aml.getD i 0 = amlNameOp then _ else _) = _
  by_cases hop : aml.getD i 0 = amlNameOp
  · rw [if_pos hop, if_pos hop]
    rfl
  · rw [if_neg hop, if_neg hop]
    by_cases hrooted : i + 1 < aml.length ∧
        (aml.getD i 0 = amlRootPrefix ∨ aml.getD i 0 = amlParentPrefix)
    · rw [if_pos hrooted, byteAt_of_lt hrooted.1]
      simp only [hrooted, true_and]
      rfl
    · rw [if_neg hrooted, if_neg fun h => hrooted ⟨h.1, h.2.1⟩]
      rfl

theorem s5LoopIndexed_agrees (aml : List UInt8) (rounds i : Nat) :
    Agrees (s5LoopIndexed aml rounds i) (s5Loop aml rounds i) := by
  induction rounds generalizing i with
  | zero => exact .throw _
  | succ rounds ih =>
    have hnext := ih (i + 1)
    refine .ite (fun hroom => ?_) fun _ => .throw _
    refine .read (nameStartIndexed_eq (by omega)) ?_
    cases nameStart aml i with
    | none => exact hnext
    | some nameStart =>
      dsimp only
      by_cases hpast : nameStart + 4 > aml.length
      · rw [if_pos hpast, if_pos (.inl hpast)]
        exact hnext
      · have hname := slice_of_le (Nat.le_add_right nameStart 4) (Nat.not_lt.mp hpast)
        rw [Nat.add_sub_cancel_left] at hname
        rw [if_neg hpast]
        refine .read hname ?_
        by_cases hother : (aml.drop nameStart).take 4 ≠ s5Name
        · rw [if_pos hother, if_pos (.inr hother)]
          exact hnext
        · rw [if_neg hother, if_neg (not_or.mpr ⟨hpast, hother⟩)]
          by_cases hend : nameStart + 4 ≥ aml.length
          · rw [if_pos hend, if_pos (.inl hend)]
            exact hnext
          · rw [if_neg hend]
            refine .read (byteAt_of_lt (Nat.not_le.mp hend)) ?_
            by_cases hop : aml.getD (nameStart + 4) 0 ≠ amlPackageOp
            · rw [if_pos hop, if_pos (.inr hop)]
              exact hnext
            · rw [if_neg hop, if_neg (not_or.mpr ⟨hend, hop⟩)]
              exact s5ValuesIndexed_agrees (Nat.not_le.mp hend)

/-- **The scanner never leaves the table.** -/
theorem parseS5PackageIndexed_agrees (dsdt : List UInt8) :
    Agrees (parseS5PackageIndexed dsdt) (parseS5Package dsdt) := by
  have hheader : parseSdtHeaderIndexed dsdt dsdtSignature =
      ExceptT.mk (some (parseSdtHeader dsdt dsdtSignature)) :=
    parseSdtHeaderIndexed_agrees dsdt dsdtSignature
  rw [parseS5PackageIndexed, parseS5Package, hheader]
  by_cases hroom : dsdt.length < sdtHeaderLength
  · have herror : parseSdtHeader dsdt dsdtSignature = .error (tableError dsdtSignature) :=
      if_pos hroom
    rw [herror]
    rfl
  · cases parseSdtHeader dsdt dsdtSignature with
    | error e => rfl
    | ok header =>
      show Agrees (liftM (slice dsdt sdtHeaderLength dsdt.length) >>= _) _
      exact .read (slice_to_end (Nat.not_lt.mp hroom)) (s5LoopIndexed_agrees _ _ _)

theorem parseS5Package_lt {dsdt : List UInt8} {x y : Nat} (h : parseS5Package dsdt = .ok (x, y)) :
    x < 8 ∧ y < 8 := by
  obtain ⟨-, before, body, -, -, pkg, num, encA, encB, rest, a, b, -, -, -, -, rfl, rfl⟩ :=
    parseS5Package_eq_ok_iff.mp h
  exact ⟨Nat.mod_lt _ (by decide), Nat.mod_lt _ (by decide)⟩

/-- **ACPI parsing does not panic**, whatever the bytes. Every parser returns; the ones with a
model without bounds return what that one does; the sleep types are below 8. -/
theorem acpi_parsing_safe (bytes : List UInt8) :
    (∃ r, (parseRsdp bytes).run = some r) ∧
    (∀ length ≤ bytes.length, checksumIndexed bytes length = some (checksum bytes length)) ∧
    parseTableLengthIndexed bytes = some (parseTableLength bytes) ∧
    (∀ signature, (parseSdtHeaderIndexed bytes signature).run =
      some (parseSdtHeader bytes signature)) ∧
    (∃ r, (parseFadt bytes).run = some r) ∧
    (∃ r, (selectDsdtAddress bytes).run = some r) ∧
    (∀ legacyOffset extendedOffset,
      ∃ r, (selectPm1ControlBlock bytes legacyOffset extendedOffset).run = some r) ∧
    (∃ r, (parseSystemIoGas bytes).run = some r) ∧
    parsePackageLengthIndexed bytes = some (parsePackageLength bytes) ∧
    parseAmlIntegerIndexed bytes = some (parseAmlInteger bytes) ∧
    (parseS5PackageIndexed bytes).run = some (parseS5Package bytes) ∧
    ∀ sleepTypeA sleepTypeB, parseS5Package bytes = .ok (sleepTypeA, sleepTypeB) →
      sleepTypeA < 8 ∧ sleepTypeB < 8 := by
  refine ⟨(parseRsdp_returns bytes).run, fun length h => checksumIndexed_of_le h,
    parseTableLengthIndexed_eq bytes,
    parseSdtHeaderIndexed_agrees bytes, (parseFadt_returns bytes).run,
    (selectDsdtAddress_returns bytes).run,
    fun legacyOffset extendedOffset =>
      (selectPm1ControlBlock_returns bytes legacyOffset extendedOffset).run,
    (parseSystemIoGas_returns bytes).run, parsePackageLengthIndexed_eq bytes,
    parseAmlIntegerIndexed_eq bytes, parseS5PackageIndexed_agrees bytes,
    fun sleepTypeA sleepTypeB h => parseS5Package_lt h⟩

end Lazers.Power
