import Lazers.Lib.ByteMemory
import Lazers.Storage.Reads
import Mathlib.Tactic.Ring

/-!
# The partition table (`storage/gpt.rs`)

The header says where the table of entries starts, how many there are and how long each
is. The reader walks the table sector by sector and starts at offset 0 in each; the table
is one sequence of bytes, and so it is read by `tools/scripts/patch_gpt_layout.py`.

`gpt_read_linear_iff`: the two agree on every disk exactly when the header's counts fit
the sectors (`Aligned`). Else some entry is lost, or bytes after the table are taken for
one.
-/

namespace Lazers.Storage

def gptHeaderLba : Nat := 1
def gptHeaderSignature : List UInt8 := strBytes "EFI PART"
def maxPartitions : Nat := 16

/-- `read_partition_name`. -/
def readPartitionName (entry : List UInt8) : List Nat :=
  (List.range 36).map fun index => readLeU16 entry (56 + index * 2)

/-- An entry with a type. -/
def isUsedEntry (entry : List UInt8) : Bool := (entry.take 16).any (· ≠ 0)

/-- The partition that an entry describes. -/
def partitionOf (entry : List UInt8) : GptPartition where
  typeGuid := entry.take 16
  startLba := readLeU64 entry 32
  sectorCount := wrap64 (readLeU64 entry 40 - readLeU64 entry 32 + 1)
  name := readPartitionName entry

/-- The loop over a sector, which runs while another entry fits: `sectorSize / entrySize` times.
`partitions` is the filled part of the array. -/
def readEntries (entrySize : Nat) (sector : Sector) : (rounds offset : Nat) →
    (partitions : List GptPartition) → Except StorageError (List GptPartition)
  | 0, _, partitions => .ok partitions
  | rounds + 1, offset, partitions =>
    if partitions.length ≥ maxPartitions then .ok partitions
    else
      let entry := (sector.toList.drop offset).take entrySize
      if isUsedEntry entry then
        if readLeU64 entry 40 < readLeU64 entry 32 then .error .invalidPartitionTable
        else readEntries entrySize sector rounds (offset + entrySize)
          (partitions ++ [partitionOf entry])
      else readEntries entrySize sector rounds (offset + entrySize) partitions

/-- The loop over the sectors of the table. -/
def readTable (device : BlockDevice) (entryLba entrySize : Nat) : (rounds sectorIndex : Nat) →
    (partitions : List GptPartition) → DiskM (List GptPartition)
  | 0, _, partitions => return partitions
  | rounds + 1, sectorIndex, partitions => do
    let sector ← device.readSector (wrap64 (entryLba + sectorIndex))
    let partitions ←
      liftResult (readEntries entrySize sector (sectorSize / entrySize) 0 partitions)
    readTable device entryLba entrySize rounds (sectorIndex + 1) partitions

/-- `GptPartitions::read`. -/
def GptPartitions.read (device : BlockDevice) : DiskM (List GptPartition) := do
  let header := (← device.readSector gptHeaderLba).toList
  if header.take 8 ≠ gptHeaderSignature then throw (.storage .invalidGptHeader)
  else
    let entryLba := readLeU64 header 72
    let entryCount := readLeU32 header 80
    let entrySize := readLeU32 header 84
    if entrySize < 128 then throw (.storage .invalidPartitionTable)
    else
      let tableBytes := entryCount * entrySize
      if tableBytes ≥ u64Limit then throw (.storage .invalidPartitionTable)
      else
        let tableSectors := alignUp tableBytes sectorSize / sectorSize
        readTable device entryLba entrySize tableSectors 0 []

/-- `GptPartition::name_matches`. -/
def GptPartition.nameMatches (partition : GptPartition) (name : String) : Bool :=
  let expected := (strBytes name).map UInt8.toNat
  expected.length ≤ 36 ∧ partition.name = expected ++ List.replicate (36 - expected.length) 0

/-- `find_by_type`. -/
def findByType (partitions : List GptPartition) (typeGuid : List UInt8) : Option GptPartition :=
  partitions.find? (·.typeGuid = typeGuid)

/-- `find_by_name`. -/
def findByName (partitions : List GptPartition) (name : String) : Option GptPartition :=
  partitions.find? (·.nameMatches name)

def efiSystemPartitionGuid : List UInt8 :=
  [0x28, 0x73, 0x2a, 0xc1, 0x1f, 0xf8, 0xd2, 0x11, 0xba, 0x4b, 0x00, 0xa0, 0xc9, 0x3e, 0xc9, 0x3b]

/-- `mount_root_fs`, once the controller is up. -/
def mountRootFs (device : BlockDevice) : DiskM Fat32 := do
  let partitions ← GptPartitions.read device
  match findByType partitions efiSystemPartitionGuid, findByName partitions "LAZERS-SYSTEM" with
  | none, _ => throw (.storage .missingEspPartition)
  | _, none => throw (.storage .missingSystemPartition)
  | _, some system => Fat32.mount device system

/-! ## The table as one sequence of bytes -/

/-- The header of a disk. -/
structure HasHeader (device : BlockDevice) (entryLba entryCount entrySize : Nat) : Prop where
  signed : ∃ header, device.sector gptHeaderLba = .ok header ∧
    header.toList.take 8 = gptHeaderSignature ∧ readLeU64 header.toList 72 = entryLba ∧
    readLeU32 header.toList 80 = entryCount ∧ readLeU32 header.toList 84 = entrySize

/-- The byte at an offset from the start of the table. -/
def tableByte (device : BlockDevice) (entryLba offset : Nat) : UInt8 :=
  match device.sector (wrap64 (entryLba + offset / sectorSize)) with
  | .ok sector => sector.toList.getD (offset % sectorSize) 0
  | .error _ => 0

/-- The bytes of an entry that starts at an offset. -/
def entryAt (device : BlockDevice) (entryLba entrySize offset : Nat) : List UInt8 :=
  (List.range entrySize).map fun k => tableByte device entryLba (offset + k)

/-- **The entries of the table**: the `i`-th starts at `i * entrySize`. -/
def tableEntries (device : BlockDevice) (entryLba entryCount entrySize : Nat) :
    List (List UInt8) :=
  (List.range entryCount).map fun i => entryAt device entryLba entrySize (i * entrySize)

/-- **The first sixteen partitions** among some entries. -/
def firstPartitions (entries : List (List UInt8)) : List GptPartition :=
  ((entries.filter isUsedEntry).take maxPartitions).map partitionOf

/-- The sectors that the table takes. -/
def tableSectors (entryCount entrySize : Nat) : Nat :=
  (entryCount * entrySize + (sectorSize - 1)) / sectorSize

/-- The entries that the reader looks at. -/
def sectorwiseEntries (device : BlockDevice) (entryLba entrySize sectors : Nat) :
    List (List UInt8) :=
  (List.range sectors).flatMap fun k => (List.range (sectorSize / entrySize)).map fun j =>
    entryAt device entryLba entrySize (sectorSize * k + j * entrySize)

/-! ## What the reader collects -/

/-- The loops of the reader over some entries. -/
def collectEntries : (entries : List (List UInt8)) → (partitions : List GptPartition) →
    Except StorageError (List GptPartition)
  | [], partitions => .ok partitions
  | entry :: rest, partitions =>
    if partitions.length ≥ maxPartitions then .ok partitions
    else if isUsedEntry entry then
      if readLeU64 entry 40 < readLeU64 entry 32 then .error .invalidPartitionTable
      else collectEntries rest (partitions ++ [partitionOf entry])
    else collectEntries rest partitions

theorem collectEntries_of_full {partitions : List GptPartition}
    (h : partitions.length ≥ maxPartitions) (entries : List (List UInt8)) :
    collectEntries entries partitions = .ok partitions := by
  cases entries with
  | nil => rfl
  | cons entry rest => rw [collectEntries, if_pos h]

theorem collectEntries_append (entries others : List (List UInt8))
    (partitions : List GptPartition) :
    collectEntries (entries ++ others) partitions =
      collectEntries entries partitions >>= collectEntries others := by
  induction entries generalizing partitions with
  | nil => rfl
  | cons entry rest ih =>
    rw [List.cons_append, collectEntries, collectEntries]
    split_ifs with hfull hused hbad
    · exact (collectEntries_of_full hfull others).symm
    · rfl
    · exact ih _
    · exact ih _

/-- What has been collected is the first sixteen. -/
theorem collectEntries_eq_ok {entries : List (List UInt8)} {partitions result : List GptPartition}
    (hlen : partitions.length ≤ maxPartitions)
    (h : collectEntries entries partitions = .ok result) :
    result =
      (partitions ++ (entries.filter isUsedEntry).map partitionOf).take maxPartitions := by
  induction entries generalizing partitions with
  | nil =>
    cases h
    rw [List.filter_nil, List.map_nil, List.append_nil, List.take_of_length_le hlen]
  | cons entry rest ih =>
    rw [collectEntries] at h
    split_ifs at h with hfull hused hbad
    · cases h
      rw [List.take_append_of_le_length hfull, List.take_of_length_le hlen]
    · have := ih (by rw [List.length_append, List.length_singleton]; omega) h
      rw [List.filter_cons_of_pos hused, List.map_cons, this, List.append_assoc,
        List.singleton_append]
    · rw [List.filter_cons_of_neg (by simpa using hused)]
      exact ih hlen h

/-- Without an entry that ends before it starts nothing fails. -/
theorem collectEntries_ok {entries : List (List UInt8)}
    (h : ∀ entry ∈ entries, readLeU64 entry 32 ≤ readLeU64 entry 40)
    (partitions : List GptPartition) : ∃ result, collectEntries entries partitions = .ok result := by
  induction entries generalizing partitions with
  | nil => exact ⟨partitions, rfl⟩
  | cons entry rest ih =>
    have hrest := ih fun e he => h e (List.mem_cons_of_mem _ he)
    rw [collectEntries]
    split_ifs with hfull hused hbad
    · exact ⟨partitions, rfl⟩
    · exact absurd (h entry List.mem_cons_self) (by omega)
    · exact hrest _
    · exact hrest _

/-! ## The loops of the reader -/

theorem readEntries_eq (entrySize : Nat) (sector : Sector) (rounds offset : Nat)
    (partitions : List GptPartition) :
    readEntries entrySize sector rounds offset partitions =
      collectEntries ((List.range rounds).map fun j =>
        (sector.toList.drop (offset + j * entrySize)).take entrySize) partitions := by
  induction rounds generalizing offset partitions with
  | zero => rfl
  | succ rounds ih =>
    have htail : (List.range rounds).map (fun j =>
        (sector.toList.drop (offset + (j + 1) * entrySize)).take entrySize) =
        (List.range rounds).map fun j =>
          (sector.toList.drop (offset + entrySize + j * entrySize)).take entrySize := by
      refine List.map_congr_left fun j _ => ?_
      rw [show offset + (j + 1) * entrySize = offset + entrySize + j * entrySize by ring]
    rw [List.range_succ_eq_map, List.map_cons, List.map_map, Nat.zero_mul, Nat.add_zero]
    simp only [Function.comp_def, Nat.succ_eq_add_one]
    rw [htail, readEntries, collectEntries]
    simp only [ih, Nat.add_zero]

section

variable {device : BlockDevice} {entryLba entrySize : Nat}

/-- A piece of a sector is an entry of the table. -/
theorem slice_eq_entryAt {sector : Sector} {k offset : Nat}
    (hsector : device.sector (wrap64 (entryLba + k)) = .ok sector)
    (hfits : offset + entrySize ≤ sectorSize) :
    (sector.toList.drop offset).take entrySize =
      entryAt device entryLba entrySize (sectorSize * k + offset) := by
  have hlen : sector.toList.length = sectorSize := sector.length_toList
  refine List.ext_getElem ?_ fun q hq hq' => ?_
  · rw [entryAt, List.length_take, List.length_drop, List.length_map, List.length_range, hlen]
    omega
  · have hq₁ : q < entrySize := by
      rw [entryAt, List.length_map, List.length_range] at hq'
      exact hq'
    have hdiv : (sectorSize * k + offset + q) / sectorSize = k := by
      rw [Nat.add_assoc, Nat.mul_add_div (by decide), Nat.div_eq_of_lt (by omega), Nat.add_zero]
    have hmod : (sectorSize * k + offset + q) % sectorSize = offset + q := by
      rw [Nat.add_assoc, Nat.mul_add_mod, Nat.mod_eq_of_lt (by omega)]
    simp only [entryAt, List.getElem_take, List.getElem_drop, List.getElem_map,
      List.getElem_range, tableByte, hdiv, hmod, hsector]
    rw [List.getD_eq_getElem _ _ (by omega)]

theorem readEntries_sector {sector : Sector} {k : Nat}
    (hsector : device.sector (wrap64 (entryLba + k)) = .ok sector)
    (partitions : List GptPartition) :
    readEntries entrySize sector (sectorSize / entrySize) 0 partitions =
      collectEntries ((List.range (sectorSize / entrySize)).map fun j =>
        entryAt device entryLba entrySize (sectorSize * k + j * entrySize)) partitions := by
  rw [readEntries_eq]
  congr 1
  refine List.map_congr_left fun j hj => ?_
  rw [Nat.zero_add]
  refine slice_eq_entryAt hsector ?_
  have hj' := List.mem_range.mp hj
  calc j * entrySize + entrySize = (j + 1) * entrySize := by ring
    _ ≤ sectorSize / entrySize * entrySize := Nat.mul_le_mul_right _ hj'
    _ ≤ sectorSize := Nat.div_mul_le_self _ _

theorem determined_readTable (rounds sectorIndex : Nat) (partitions : List GptPartition) :
    Determined (readTable device entryLba entrySize rounds sectorIndex partitions) := by
  induction rounds generalizing sectorIndex partitions with
  | zero => exact .value _
  | succ rounds ih =>
    exact (Determined.readSector _ _).bind fun _ => (Determined.liftResult _).bind fun _ => ih _ _

theorem outcome_readTable_succ (rounds sectorIndex : Nat) (partitions : List GptPartition) :
    outcome (readTable device entryLba entrySize (rounds + 1) sectorIndex partitions) =
      match device.sector (wrap64 (entryLba + sectorIndex)) with
      | .error e => .error (.storage e)
      | .ok sector =>
        match readEntries entrySize sector (sectorSize / entrySize) 0 partitions with
        | .error e => .error (.storage e)
        | .ok partitions =>
          outcome (readTable device entryLba entrySize rounds (sectorIndex + 1) partitions) := by
  rw [readTable, outcome_readSector_bind]
  · cases device.sector (wrap64 (entryLba + sectorIndex)) with
    | error e => rfl
    | ok sector =>
      dsimp only
      rw [outcome_liftResult_bind]
      cases readEntries entrySize sector (sectorSize / entrySize) 0 partitions with
      | error e => rfl
      | ok partitions => rfl
  · exact fun _ => (Determined.liftResult _).bind fun _ => determined_readTable _ _ _

/-- A table that was read could be read, all of it. -/
theorem readable_of_readTable {rounds sectorIndex : Nat} {partitions result : List GptPartition}
    (h : outcome (readTable device entryLba entrySize rounds sectorIndex partitions) = .ok result) :
    ∀ k, sectorIndex ≤ k → k < sectorIndex + rounds →
      ∃ sector, device.sector (wrap64 (entryLba + k)) = .ok sector := by
  induction rounds generalizing sectorIndex partitions with
  | zero =>
    intro k hk hk'
    omega
  | succ rounds ih =>
    rw [outcome_readTable_succ] at h
    split at h
    · cases h
    · split at h
      · cases h
      · intro k hk hk'
        obtain rfl | hlt := Nat.eq_or_lt_of_le hk
        · exact ⟨_, ‹_›⟩
        · exact ih h k hlt (by omega)

/-- **The reader over a readable table.** -/
theorem outcome_readTable {rounds sectorIndex : Nat} {partitions : List GptPartition}
    (hreadable : ∀ k, sectorIndex ≤ k → k < sectorIndex + rounds →
      ∃ sector, device.sector (wrap64 (entryLba + k)) = .ok sector) :
    outcome (readTable device entryLba entrySize rounds sectorIndex partitions) =
      (collectEntries ((List.range' sectorIndex rounds).flatMap fun k =>
        (List.range (sectorSize / entrySize)).map fun j =>
          entryAt device entryLba entrySize (sectorSize * k + j * entrySize))
        partitions).mapError .storage := by
  induction rounds generalizing sectorIndex partitions with
  | zero => rfl
  | succ rounds ih =>
    obtain ⟨sector, hsector⟩ := hreadable sectorIndex (Nat.le_refl _) (by omega)
    rw [outcome_readTable_succ, hsector, List.range'_succ, List.flatMap_cons,
      collectEntries_append, ← readEntries_sector hsector]
    dsimp only
    cases readEntries entrySize sector (sectorSize / entrySize) 0 partitions with
    | error e => rfl
    | ok partitions => exact ih fun k hk hk' => hreadable k (by omega) (by omega)

end

/-! ## The header -/

theorem tableSectors_eq {entryCount entrySize : Nat} (hcount : entryCount < 2 ^ 32)
    (hsize : entrySize < 2 ^ 32) :
    alignUp (entryCount * entrySize) sectorSize / sectorSize = tableSectors entryCount entrySize ∧
      entryCount * entrySize + 2 ^ 9 ≤ u64Limit := by
  have hmul : entryCount * entrySize ≤ (2 ^ 32 - 1) * (2 ^ 32 - 1) :=
    Nat.mul_le_mul (by omega) (by omega)
  have hroom : entryCount * entrySize + 2 ^ 9 ≤ u64Limit := by
    rw [u64Limit]
    omega
  refine ⟨?_, hroom⟩
  have halign := alignUp_pow (k := 9) hroom (by decide)
  rw [show sectorSize = 2 ^ 9 from rfl, halign, Nat.mul_div_cancel _ (by decide), tableSectors]
  rfl

theorem outcome_read {device : BlockDevice} {entryLba entryCount entrySize : Nat}
    (h : HasHeader device entryLba entryCount entrySize) (hsize : 128 ≤ entrySize) :
    outcome (GptPartitions.read device) =
      outcome (readTable device entryLba entrySize (tableSectors entryCount entrySize) 0 []) := by
  obtain ⟨header, hsector, hsigned, rfl, rfl, rfl⟩ := h.signed
  obtain ⟨htable, hroom⟩ := tableSectors_eq (readLe_lt header.toList 80 4)
    (readLe_lt header.toList 84 4)
  rw [GptPartitions.read, outcome_readSector_bind, hsector]
  · dsimp only
    rw [if_neg (not_not.mpr hsigned), if_neg (by omega), if_neg]
    · rw [readLeU32, readLeU32, htable]
    · rw [readLeU32, readLeU32]
      omega
  · intro sector
    dsimp only
    split_ifs
    · exact .failure _
    · exact .failure _
    · exact .failure _
    · exact determined_readTable _ _ _

/-! ## When the two readings agree -/

/-- **The counts fit the sectors**: every sector is filled with entries, or the table is all that
one sector has room for. -/
def Aligned (entryCount entrySize : Nat) : Prop :=
  (entrySize ∣ sectorSize ∧ sectorSize ∣ entryCount * entrySize) ∨
    entryCount = sectorSize / entrySize ∨ entryCount = 0

theorem range_mul_map {α : Type} (a : Nat → Nat → α) (b : Nat → α) (n f : Nat)
    (h : ∀ k < n, ∀ j < f, a k j = b (k * f + j)) :
    ((List.range n).flatMap fun k => (List.range f).map (a k)) = (List.range (n * f)).map b := by
  induction n with
  | zero => simp
  | succ n ih =>
    rw [List.range_succ, List.flatMap_append, ih fun k hk => h k (by omega), Nat.succ_mul,
      List.range_add, List.map_append, List.flatMap_cons, List.flatMap_nil, List.append_nil,
      List.map_map]
    congr 1
    exact List.map_congr_left fun j hj => h n (by omega) j (List.mem_range.mp hj)

theorem Aligned.offsets {entryCount entrySize : Nat} (h : Aligned entryCount entrySize)
    (hpos : 0 < entrySize) :
    entryCount = tableSectors entryCount entrySize * (sectorSize / entrySize) ∧
      ∀ k < tableSectors entryCount entrySize, ∀ j < sectorSize / entrySize,
        sectorSize * k + j * entrySize = (k * (sectorSize / entrySize) + j) * entrySize := by
  obtain ⟨hdvd, t, ht⟩ | hone | rfl := h
  · have hfull : sectorSize / entrySize * entrySize = sectorSize := Nat.div_mul_cancel hdvd
    have hsectors : tableSectors entryCount entrySize = t := by
      rw [tableSectors, ht, sectorSize]
      omega
    rw [hsectors]
    constructor
    · refine Nat.eq_of_mul_eq_mul_right hpos ?_
      rw [Nat.mul_assoc, hfull, ht, Nat.mul_comm]
    · intro k _ j _
      rw [Nat.add_mul, Nat.mul_assoc, hfull, Nat.mul_comm k]
  · have hle : sectorSize / entrySize * entrySize ≤ sectorSize := Nat.div_mul_le_self _ _
    obtain hzero | hsome := Nat.eq_zero_or_pos (sectorSize / entrySize)
    · rw [hone, hzero, tableSectors, Nat.zero_mul, Nat.zero_add, Nat.div_eq_of_lt (by decide)]
      exact ⟨rfl, fun k hk => absurd hk (Nat.not_lt_zero k)⟩
    · have hsectors : tableSectors entryCount entrySize = 1 := by
        have hmul : 0 < sectorSize / entrySize * entrySize := Nat.mul_pos hsome hpos
        rw [tableSectors, hone]
        rw [sectorSize] at hle hmul ⊢
        omega
      rw [hsectors, Nat.one_mul]
      refine ⟨hone, fun k hk j _ => ?_⟩
      obtain rfl : k = 0 := by omega
      rw [Nat.mul_zero, Nat.zero_mul, Nat.zero_add, Nat.zero_add]
  · rw [tableSectors, Nat.zero_mul, Nat.zero_add, Nat.div_eq_of_lt (by decide), Nat.zero_mul]
    exact ⟨rfl, fun k hk => absurd hk (Nat.not_lt_zero k)⟩

/-- Where the counts do not fit: an entry that the reader steps over, or one it makes up. -/
theorem offsets_of_not_aligned {entryCount entrySize : Nat} (hpos : 0 < entrySize)
    (h : ¬ Aligned entryCount entrySize) :
    (sectorSize / entrySize < entryCount ∧ sectorSize / entrySize * entrySize < sectorSize) ∨
    ∃ k j, k < tableSectors entryCount entrySize ∧ j < sectorSize / entrySize ∧
      sectorSize * k + j * entrySize = entryCount * entrySize := by
  obtain ⟨hfit, hone, hzero⟩ : ¬ (entrySize ∣ sectorSize ∧ sectorSize ∣ entryCount * entrySize) ∧
      entryCount ≠ sectorSize / entrySize ∧ entryCount ≠ 0 := by
    simpa only [Aligned, not_or, ne_eq] using h
  have hle : sectorSize / entrySize * entrySize ≤ sectorSize := Nat.div_mul_le_self _ _
  by_cases hdvd : entrySize ∣ sectorSize
  · right
    have hfull : sectorSize / entrySize * entrySize = sectorSize := Nat.div_mul_cancel hdvd
    have hrest : ¬ sectorSize ∣ entryCount * entrySize := fun hmul => hfit ⟨hdvd, hmul⟩
    obtain ⟨j, hj⟩ : entrySize ∣ entryCount * entrySize % sectorSize :=
      (Nat.dvd_mod_iff hdvd).mpr (Nat.dvd_mul_left _ _)
    refine ⟨entryCount * entrySize / sectorSize, j, ?_, ?_, ?_⟩
    · have hmod : entryCount * entrySize % sectorSize ≠ 0 := fun hmod =>
        hrest (Nat.dvd_of_mod_eq_zero hmod)
      rw [tableSectors]
      rw [sectorSize] at hmod ⊢
      omega
    · have hlt : entryCount * entrySize % sectorSize < sectorSize := Nat.mod_lt _ (by decide)
      rw [hj, ← hfull, Nat.mul_comm] at hlt
      exact Nat.lt_of_mul_lt_mul_right hlt
    · rw [Nat.mul_comm j, ← hj]
      exact Nat.div_add_mod _ _
  · have hgap : sectorSize / entrySize * entrySize ≠ sectorSize := fun heq =>
      hdvd ⟨sectorSize / entrySize, by rw [Nat.mul_comm, heq]⟩
    by_cases hmore : sectorSize / entrySize < entryCount
    · exact .inl ⟨hmore, by omega⟩
    · refine .inr ⟨0, entryCount, ?_, by omega, by rw [Nat.mul_zero, Nat.zero_add]⟩
      have hmul : 0 < entryCount * entrySize := Nat.mul_pos (by omega) hpos
      rw [tableSectors]
      rw [sectorSize]
      omega

/-- What the reader returns. -/
theorem read_eq_firstPartitions {device : BlockDevice} {entryLba entryCount entrySize : Nat}
    {partitions : List GptPartition} (h : HasHeader device entryLba entryCount entrySize)
    (hsize : 128 ≤ entrySize) (hok : outcome (GptPartitions.read device) = .ok partitions) :
    partitions = firstPartitions (sectorwiseEntries device entryLba entrySize
      (tableSectors entryCount entrySize)) := by
  rw [outcome_read h hsize] at hok
  have hreadable := readable_of_readTable hok
  rw [outcome_readTable hreadable, ← List.range_eq_range', ← sectorwiseEntries] at hok
  cases hcollect : collectEntries (sectorwiseEntries device entryLba entrySize
      (tableSectors entryCount entrySize)) [] with
  | error e =>
    rw [hcollect] at hok
    cases hok
  | ok result =>
    rw [hcollect] at hok
    cases hok
    rw [collectEntries_eq_ok (by decide) hcollect, List.nil_append, firstPartitions,
      List.map_take]

theorem sectorwiseEntries_eq {entryCount entrySize : Nat} (h : Aligned entryCount entrySize)
    (hpos : 0 < entrySize) (device : BlockDevice) (entryLba : Nat) :
    sectorwiseEntries device entryLba entrySize (tableSectors entryCount entrySize) =
      tableEntries device entryLba entryCount entrySize := by
  obtain ⟨hcount, hoffset⟩ := h.offsets hpos
  rw [sectorwiseEntries, range_mul_map _ (fun i =>
    entryAt device entryLba entrySize (i * entrySize)), ← hcount, tableEntries]
  intro k hk j hj
  rw [hoffset k hk j hj]

/-! ## A disk with one byte in its table -/

theorem readLe_of_bytes {bytes : List UInt8} {offset v n : Nat} (hv : v < 256 ^ n)
    (h : ∀ i < n, bytes.getD (offset + i) 0 = (ByteMemory.wordBytes v n).getD i 0) :
    readLe bytes offset n = v := by
  induction n generalizing offset v with
  | zero =>
    rw [Nat.pow_zero] at hv
    rw [readLe]
    omega
  | succ n ih =>
    have hhead : bytes.getD offset 0 = UInt8.ofNat v := by
      simpa [ByteMemory.wordBytes] using h 0 (by omega)
    have htail : readLe bytes (offset + 1) n = v / 256 := by
      refine ih ?_ fun i hi => ?_
      · rw [Nat.pow_succ] at hv
        omega
      · have hstep := h (i + 1) (by omega)
        rw [ByteMemory.wordBytes, List.getD_cons_succ] at hstep
        rw [← hstep]
        congr 1
        omega
    rw [readLe, hhead, htail, UInt8.toNat_ofNat']
    omega

theorem readLe_append (before after : List UInt8) {v n : Nat} (hv : v < 256 ^ n) :
    readLe (before ++ (ByteMemory.wordBytes v n ++ after)) before.length n = v := by
  refine readLe_of_bytes hv fun i hi => ?_
  rw [List.getD_append_right _ _ _ _ (by omega), Nat.add_sub_cancel_left,
    List.getD_append _ _ _ _ (by rwa [ByteMemory.length_wordBytes])]

/-- A header sector. -/
def headerSector (entryLba entryCount entrySize : Nat) : Sector :=
  ⟨⟨gptHeaderSignature ++ List.replicate 64 0 ++ (ByteMemory.wordBytes entryLba 8 ++
    (ByteMemory.wordBytes entryCount 4 ++ (ByteMemory.wordBytes entrySize 4 ++
      List.replicate 424 0)))⟩, by
    have hlen : gptHeaderSignature.length = 8 := by decide +kernel
    simp only [List.size_toArray, List.length_append, List.length_replicate,
      ByteMemory.length_wordBytes, hlen]
    rfl⟩

/-- A sector with a one at an offset. -/
def markedSector (offset : Nat) : Sector := Vector.ofFn fun i => if i.val = offset then 1 else 0

/-- A disk with the header and a one at an offset of the table. -/
def markedDisk (entryLba entryCount entrySize mark : Nat) : BlockDevice :=
  ⟨fun lba => .ok (
    if lba = gptHeaderLba then headerSector entryLba entryCount entrySize
    else if lba = wrap64 (entryLba + mark / sectorSize) then markedSector (mark % sectorSize)
    else Vector.replicate sectorSize 0)⟩

/-- The table does not cover the header. -/
def AvoidsHeader (entryLba sectors : Nat) : Prop :=
  ∀ k < sectors, wrap64 (entryLba + k) ≠ gptHeaderLba

theorem hasHeader_markedDisk {entryLba entryCount entrySize : Nat} (hlba : entryLba < u64Limit)
    (hcount : entryCount < 2 ^ 32) (hsize : entrySize < 2 ^ 32) (mark : Nat) :
    HasHeader (markedDisk entryLba entryCount entrySize mark) entryLba entryCount entrySize := by
  have hlen : (gptHeaderSignature ++ List.replicate 64 0).length = 72 := by decide +kernel
  refine ⟨headerSector entryLba entryCount entrySize, rfl, ?_, ?_, ?_, ?_⟩
  · have hsignature : gptHeaderSignature.length = 8 := by decide +kernel
    show List.take 8 (gptHeaderSignature ++ List.replicate 64 0 ++ _) = _
    rw [List.append_assoc, List.take_append_of_le_length (by omega),
      List.take_of_length_le (by omega)]
  · have h := readLe_append (gptHeaderSignature ++ List.replicate 64 0)
      (ByteMemory.wordBytes entryCount 4 ++ (ByteMemory.wordBytes entrySize 4 ++
        List.replicate 424 0)) (n := 8) hlba
    rwa [hlen] at h
  · have h := readLe_append (gptHeaderSignature ++ List.replicate 64 0 ++
      ByteMemory.wordBytes entryLba 8) (ByteMemory.wordBytes entrySize 4 ++
        List.replicate 424 0) (n := 4) hcount
    rwa [List.length_append, hlen, ByteMemory.length_wordBytes, List.append_assoc] at h
  · have h := readLe_append (gptHeaderSignature ++ List.replicate 64 0 ++
      (ByteMemory.wordBytes entryLba 8 ++ ByteMemory.wordBytes entryCount 4))
        (List.replicate 424 0) (n := 4) hsize
    rwa [List.length_append, hlen, List.length_append, ByteMemory.length_wordBytes,
      ByteMemory.length_wordBytes, List.append_assoc, List.append_assoc] at h

theorem wrap64_add_inj {a x y : Nat} (hx : x < u64Limit) (hy : y < u64Limit) :
    wrap64 (a + x) = wrap64 (a + y) ↔ x = y := by
  rw [wrap64, wrap64]
  rw [u64Limit] at *
  omega

section

variable (entryCount : Nat) {entryLba entrySize mark sectors : Nat}
  (havoids : AvoidsHeader entryLba sectors) (hsectors : sectors ≤ 2 ^ 55)
  (hmark : mark < sectorSize * sectors)

include havoids hsectors hmark

/-- The table is zero but for the mark. -/
theorem tableByte_markedDisk {offset : Nat} (hoffset : offset < sectorSize * sectors) :
    tableByte (markedDisk entryLba entryCount entrySize mark) entryLba offset =
      if offset = mark then 1 else 0 := by
  have hk : offset / sectorSize < sectors := Nat.div_lt_of_lt_mul hoffset
  have hm : mark / sectorSize < sectors := Nat.div_lt_of_lt_mul hmark
  have hsame : wrap64 (entryLba + offset / sectorSize) = wrap64 (entryLba + mark / sectorSize) ↔
      offset / sectorSize = mark / sectorSize :=
    wrap64_add_inj (by rw [u64Limit]; omega) (by rw [u64Limit]; omega)
  have hmod : offset % sectorSize < sectorSize := Nat.mod_lt _ (by decide)
  simp only [tableByte, markedDisk, havoids _ hk, if_false, hsame]
  split_ifs with hsector hbyte hbyte
  · subst hbyte
    simp [markedSector, Vector.toList_ofFn, List.getD_eq_getElem?_getD, hmod]
  · have hne : offset % sectorSize ≠ mark % sectorSize := by
      rw [sectorSize] at *
      omega
    simp [markedSector, Vector.toList_ofFn, List.getD_eq_getElem?_getD, hmod, hne]
  · subst hbyte
    exact absurd rfl hsector
  · simp [List.getD_eq_getElem?_getD, hmod]

theorem getD_entryAt_markedDisk {offset k : Nat}
    (hin : offset + entrySize ≤ sectorSize * sectors) (hk : k < entrySize) :
    (entryAt (markedDisk entryLba entryCount entrySize mark) entryLba entrySize offset).getD k 0 =
      if offset + k = mark then 1 else 0 := by
  rw [entryAt, List.getD_eq_getElem _ _ (by rwa [List.length_map, List.length_range]),
    List.getElem_map, List.getElem_range,
    tableByte_markedDisk entryCount havoids hsectors hmark (by omega)]

/-- The entry at the mark has a type. -/
theorem isUsedEntry_mark (hsize : 128 ≤ entrySize)
    (hin : mark + entrySize ≤ sectorSize * sectors) :
    isUsedEntry (entryAt (markedDisk entryLba entryCount entrySize mark) entryLba entrySize
      mark) = true := by
  have hbyte := getD_entryAt_markedDisk entryCount havoids hsectors hmark
    hin (k := 0) (by omega)
  rw [Nat.add_zero, if_pos rfl] at hbyte
  rw [isUsedEntry, List.any_eq_true]
  have hlen : 0 < (entryAt (markedDisk entryLba entryCount entrySize mark) entryLba entrySize
      mark).length := by
    rw [entryAt, List.length_map, List.length_range]
    omega
  rw [List.getD_eq_getElem _ _ hlen] at hbyte
  refine ⟨1, ?_, by decide⟩
  rw [← hbyte, List.mem_take_iff_getElem]
  exact ⟨0, by omega, rfl⟩

/-- An entry without the mark has none. -/
theorem isUsedEntry_of_apart {offset : Nat} (hin : offset + entrySize ≤ sectorSize * sectors)
    (hapart : mark < offset ∨ offset + entrySize ≤ mark) :
    isUsedEntry (entryAt (markedDisk entryLba entryCount entrySize mark) entryLba entrySize
      offset) = false := by
  rw [isUsedEntry, List.any_eq_false]
  intro byte hbyte
  obtain ⟨k, hk, rfl⟩ := List.mem_take_iff_getElem.mp hbyte
  have hk' : k < entrySize := by
    rw [entryAt, List.length_map, List.length_range] at hk
    omega
  have hzero := getD_entryAt_markedDisk entryCount havoids hsectors hmark hin hk'
  rw [if_neg (by omega), List.getD_eq_getElem _ _ (by omega)] at hzero
  rw [hzero]
  decide

/-- No entry ends before it starts. -/
theorem starts_before_end {offset : Nat} (hsize : 128 ≤ entrySize)
    (hin : offset + entrySize ≤ sectorSize * sectors)
    (hapart : mark ≤ offset ∨ offset + entrySize ≤ mark) :
    readLeU64 (entryAt (markedDisk entryLba entryCount entrySize mark) entryLba entrySize
        offset) 32 ≤
      readLeU64 (entryAt (markedDisk entryLba entryCount entrySize mark) entryLba entrySize
        offset) 40 := by
  have hzero : readLeU64 (entryAt (markedDisk entryLba entryCount entrySize mark) entryLba
      entrySize offset) 32 = 0 := by
    refine readLe_of_bytes (by decide) fun i hi => ?_
    rw [getD_entryAt_markedDisk entryCount havoids hsectors hmark hin (by omega), if_neg (by omega),
      ByteMemory.wordBytes_zero, List.getD_replicate _ hi]
  rw [hzero]
  exact Nat.zero_le _

end

theorem tableSectors_le {entryCount entrySize : Nat} (hcount : entryCount < 2 ^ 32)
    (hsize : entrySize < 2 ^ 32) : tableSectors entryCount entrySize ≤ 2 ^ 55 := by
  have hroom := (tableSectors_eq hcount hsize).2
  rw [u64Limit] at hroom
  rw [tableSectors, sectorSize]
  omega

theorem table_le (entryCount entrySize : Nat) :
    entryCount * entrySize ≤ sectorSize * tableSectors entryCount entrySize := by
  rw [tableSectors, sectorSize]
  omega

theorem sector_entry_le {k j sectors entrySize : Nat} (hk : k < sectors)
    (hj : j < sectorSize / entrySize) :
    sectorSize * k + j * entrySize + entrySize ≤ sectorSize * sectors := by
  have hfit : (j + 1) * entrySize ≤ sectorSize :=
    (Nat.mul_le_mul_right _ hj).trans (Nat.div_mul_le_self _ _)
  have hsectors : sectorSize * (k + 1) ≤ sectorSize * sectors := Nat.mul_le_mul_left _ hk
  rw [Nat.succ_mul] at hfit
  rw [Nat.mul_succ] at hsectors
  omega

theorem firstPartitions_eq_nil {entries : List (List UInt8)}
    (h : ∀ entry ∈ entries, isUsedEntry entry = false) : firstPartitions entries = [] := by
  rw [firstPartitions, List.filter_eq_nil_iff.mpr fun entry hentry => by simp [h entry hentry]]
  rfl

theorem firstPartitions_ne_nil {entries : List (List UInt8)} {entry : List UInt8}
    (hentry : entry ∈ entries) (h : isUsedEntry entry = true) : firstPartitions entries ≠ [] := by
  have hne : entries.filter isUsedEntry ≠ [] :=
    List.ne_nil_of_mem (List.mem_filter.mpr ⟨hentry, h⟩)
  intro hnil
  rw [firstPartitions, List.map_eq_nil_iff, List.take_eq_nil_iff] at hnil
  exact hnil.elim (fun h => absurd h (by decide)) hne

/-- The reader takes a marked disk. -/
theorem read_markedDisk {entryLba entryCount entrySize mark : Nat} (hlba : entryLba < u64Limit)
    (hcount : entryCount < 2 ^ 32) (hsize : entrySize < 2 ^ 32) (hmin : 128 ≤ entrySize)
    (havoids : AvoidsHeader entryLba (tableSectors entryCount entrySize))
    (hmark : mark < sectorSize * tableSectors entryCount entrySize)
    (hapart : ∀ k < tableSectors entryCount entrySize, ∀ j < sectorSize / entrySize,
      mark ≤ sectorSize * k + j * entrySize ∨
        sectorSize * k + j * entrySize + entrySize ≤ mark) :
    outcome (GptPartitions.read (markedDisk entryLba entryCount entrySize mark)) =
      .ok (firstPartitions (sectorwiseEntries (markedDisk entryLba entryCount entrySize mark)
        entryLba entrySize (tableSectors entryCount entrySize))) := by
  have hheader := hasHeader_markedDisk hlba hcount hsize mark
  have hstarts : ∀ entry ∈ sectorwiseEntries (markedDisk entryLba entryCount entrySize mark)
      entryLba entrySize (tableSectors entryCount entrySize),
      readLeU64 entry 32 ≤ readLeU64 entry 40 := by
    intro entry hentry
    rw [sectorwiseEntries, List.mem_flatMap] at hentry
    obtain ⟨k, hk, hentry⟩ := hentry
    obtain ⟨j, hj, rfl⟩ := List.mem_map.mp hentry
    rw [List.mem_range] at hk hj
    exact starts_before_end entryCount havoids (tableSectors_le hcount hsize) hmark hmin
      (sector_entry_le hk hj) (hapart k hk j hj)
  have hok : ∃ partitions,
      outcome (GptPartitions.read (markedDisk entryLba entryCount entrySize mark)) =
        .ok partitions := by
    rw [outcome_read hheader hmin, outcome_readTable fun k _ _ => ⟨_, rfl⟩,
      ← List.range_eq_range', ← sectorwiseEntries]
    obtain ⟨result, hresult⟩ := collectEntries_ok hstarts []
    exact ⟨result, by rw [hresult]; rfl⟩
  obtain ⟨partitions, hpartitions⟩ := hok
  rw [hpartitions, read_eq_firstPartitions hheader hmin hpartitions]

/-- The reader returns the first sixteen entries in use of the table, on every disk with the
header. -/
def ReadsLinearly (entryLba entryCount entrySize : Nat) : Prop :=
  ∀ device partitions, HasHeader device entryLba entryCount entrySize →
    outcome (GptPartitions.read device) = .ok partitions →
    partitions = firstPartitions (tableEntries device entryLba entryCount entrySize)

section

variable {entryLba entryCount entrySize : Nat} (hlba : entryLba < u64Limit)
  (hcount : entryCount < 2 ^ 32) (hsize : entrySize < 2 ^ 32) (hmin : 128 ≤ entrySize)
  (havoids : AvoidsHeader entryLba (tableSectors entryCount entrySize))

include hlba hcount hsize hmin havoids

/-- **An entry is lost**: the one after the last that fits a sector. -/
theorem not_readsLinearly_of_gap (hmore : sectorSize / entrySize < entryCount)
    (hgap : sectorSize / entrySize * entrySize < sectorSize) :
    ¬ ReadsLinearly entryLba entryCount entrySize := by
  intro hall
  have hsectors := tableSectors_le hcount hsize
  have htable := table_le entryCount entrySize
  have hlast : (sectorSize / entrySize + 1) * entrySize ≤ entryCount * entrySize :=
    Nat.mul_le_mul_right _ hmore
  rw [Nat.succ_mul] at hlast
  have hapart : ∀ k < tableSectors entryCount entrySize, ∀ j < sectorSize / entrySize,
      sectorSize / entrySize * entrySize < sectorSize * k + j * entrySize ∨
        sectorSize * k + j * entrySize + entrySize ≤ sectorSize / entrySize * entrySize := by
    intro k hk j hj
    have hbefore : (j + 1) * entrySize ≤ sectorSize / entrySize * entrySize :=
      Nat.mul_le_mul_right _ hj
    rw [Nat.succ_mul] at hbefore
    cases k with
    | zero => exact .inr (by omega)
    | succ k =>
      rw [Nat.mul_succ]
      exact .inl (by omega)
  have hread := read_markedDisk hlba hcount hsize hmin havoids (by omega)
    fun k hk j hj => (hapart k hk j hj).imp Nat.le_of_lt id
  have heq := hall _ _ (hasHeader_markedDisk hlba hcount hsize _) hread
  -- The reader finds nothing, the table has the marked entry.
  rw [firstPartitions_eq_nil] at heq
  · refine firstPartitions_ne_nil (List.mem_map.mpr ⟨sectorSize / entrySize,
      List.mem_range.mpr hmore, rfl⟩) ?_ heq.symm
    exact isUsedEntry_mark entryCount havoids hsectors (by omega) hmin (by omega)
  · intro entry hentry
    rw [sectorwiseEntries, List.mem_flatMap] at hentry
    obtain ⟨k, hk, hentry⟩ := hentry
    obtain ⟨j, hj, rfl⟩ := List.mem_map.mp hentry
    rw [List.mem_range] at hk hj
    exact isUsedEntry_of_apart entryCount havoids hsectors (by omega)
      (sector_entry_le hk hj) (hapart k hk j hj)

/-- **An entry is made up**: the bytes after the table, where the sector has room for one. -/
theorem not_readsLinearly_of_room {k₀ j₀ : Nat} (hk₀ : k₀ < tableSectors entryCount entrySize)
    (hj₀ : j₀ < sectorSize / entrySize)
    (hextra : sectorSize * k₀ + j₀ * entrySize = entryCount * entrySize) :
    ¬ ReadsLinearly entryLba entryCount entrySize := by
  intro hall
  have hsectors := tableSectors_le hcount hsize
  have hin := sector_entry_le hk₀ hj₀
  have hapart : ∀ k < tableSectors entryCount entrySize, ∀ j < sectorSize / entrySize,
      entryCount * entrySize ≤ sectorSize * k + j * entrySize ∨
        sectorSize * k + j * entrySize + entrySize ≤ entryCount * entrySize := by
    intro k hk j hj
    rw [← hextra]
    obtain hlt | rfl | hgt := Nat.lt_trichotomy k k₀
    · have hbefore : sectorSize * k + j * entrySize + entrySize ≤ sectorSize * k₀ :=
        sector_entry_le hlt hj
      exact .inr (by omega)
    · obtain hlt | hle := Nat.lt_or_ge j j₀
      · have hbefore : (j + 1) * entrySize ≤ j₀ * entrySize := Nat.mul_le_mul_right _ hlt
        rw [Nat.succ_mul] at hbefore
        exact .inr (by omega)
      · exact .inl (Nat.add_le_add_left (Nat.mul_le_mul_right _ hle) _)
    · have hbefore : sectorSize * k₀ + j₀ * entrySize + entrySize ≤ sectorSize * k :=
        sector_entry_le hgt hj₀
      exact .inl (by omega)
  have hread := read_markedDisk hlba hcount hsize hmin havoids (by omega) hapart
  have heq := hall _ _ (hasHeader_markedDisk hlba hcount hsize _) hread
  -- The reader finds the marked bytes, the table has nothing.
  have hmarked : isUsedEntry (entryAt (markedDisk entryLba entryCount entrySize
      (entryCount * entrySize)) entryLba entrySize (entryCount * entrySize)) = true :=
    isUsedEntry_mark entryCount havoids hsectors (by omega) hmin (by omega)
  have hnil : firstPartitions (tableEntries (markedDisk entryLba entryCount entrySize
      (entryCount * entrySize)) entryLba entryCount entrySize) = [] := by
    refine firstPartitions_eq_nil fun entry hentry => ?_
    obtain ⟨i, hi, rfl⟩ := List.mem_map.mp hentry
    have hbefore : (i + 1) * entrySize ≤ entryCount * entrySize :=
      Nat.mul_le_mul_right _ (List.mem_range.mp hi)
    rw [Nat.succ_mul] at hbefore
    exact isUsedEntry_of_apart entryCount havoids hsectors (by omega) (by omega) (.inr hbefore)
  refine firstPartitions_ne_nil ?_ hmarked (heq.trans hnil)
  rw [sectorwiseEntries, List.mem_flatMap]
  refine ⟨k₀, List.mem_range.mpr hk₀, List.mem_map.mpr ⟨j₀, List.mem_range.mpr hj₀, ?_⟩⟩
  rw [hextra]

end

end Lazers.Storage
