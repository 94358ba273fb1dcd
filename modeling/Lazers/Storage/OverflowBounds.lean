import Lazers.Storage.Overflow

/-!
# Which disks overflow the storage arithmetic

`checks` is the arithmetic of a build with overflow checks: it stops where the reader would go
on with the low part of a result. When it does is a matter of what is on the disk, and is said
here in sums without a width: for the partition table (`TableFits`), the boot sector
(`MountFits`), a cluster (`AddressFits`, `LinkFits`) and the loops over a chain of clusters
(`ScanFits`, for the sectors that they come to).

`storage_fits_iff` puts these together. None of them holds on every disk: the reader takes what
is on it as it is, and only `entry_count * entry_size` is a `checked_mul`.
-/

namespace Lazers.Storage.Overflow

open Arithmetic Relation

/-- The arithmetic of a build with overflow checks. -/
abbrev checks : Arith := checked u64Limit

theorem checks_below : checks.Below unbounded := checked_below_unbounded u64Limit

variable {σ τ : Type} (fs : Fat32)

/-! ## One cluster -/

/-- The address of a cluster and the end of the partition have 64 bits. -/
def AddressFits (cluster : Nat) : Prop :=
  2 ≤ cluster → fs.firstDataSector + (cluster - 2) * fs.sectorsPerCluster < u64Limit ∧
    fs.partitionStartLba + fs.partitionSectorCount < u64Limit

/-- The address of the sector with the cluster's table entry has 64 bits. -/
def LinkFits (cluster : Nat) : Prop :=
  fs.partitionStartLba + fs.reservedSectorCount + cluster * 4 / sectorSize < u64Limit

/-- The cluster starts at this sector, and in the partition. -/
def StartsAt (cluster clusterLba : Nat) : Prop :=
  2 ≤ cluster ∧ clusterLba = fs.firstDataSector + (cluster - 2) * fs.sectorsPerCluster ∧
    clusterLba < fs.partitionStartLba + fs.partitionSectorCount

/-- The table leads from a cluster to the next. -/
def LeadsTo (cluster next : Nat) : Prop :=
  ∃ sector, fs.device.sector (fs.partitionStartLba + fs.reservedSectorCount +
      cluster * 4 / sectorSize) = .ok sector ∧
    next = readLeU32 sector.toList (cluster * 4 % sectorSize) &&& 0x0fffffff ∧
    2 ≤ next ∧ next < fatEntryBadCluster

theorem noOverflow_ofResult_bind {α β : Type} {r : Except StorageError α} {f : α → Calc β} :
    NoOverflow (ofResult r >>= f) ↔ ∀ a, r = .ok a → NoOverflow (f a) := by
  cases r with
  | ok a => simp only [ofResult, ok_bind, Except.ok.injEq, forall_eq']
  | error e =>
    refine ⟨fun _ a h => ?_, fun _ => .failure e⟩
    cases h

section

variable {fs} {cluster : Nat}

theorem noOverflow_clusterToLba (hcluster : cluster < 2 ^ 32) :
    NoOverflow (clusterToLba checks fs cluster) ↔ AddressFits fs cluster := by
  rw [clusterToLba, AddressFits]
  split_ifs with hsmall
  · exact ⟨fun _ h => by omega, fun _ => .failure _⟩
  · simp only [noOverflow_sub_bind, noOverflow_mul_bind, noOverflow_add_bind]
    have hend : NoOverflow (if fs.firstDataSector + (cluster - 2) * fs.sectorsPerCluster ≥
        fs.partitionStartLba + fs.partitionSectorCount then
          throw (.error .invalidFat32BootSector)
        else return fs.firstDataSector + (cluster - 2) * fs.sectorsPerCluster : Calc Nat) := by
      split_ifs
      · exact .failure _
      · exact .value _
    constructor
    · rintro ⟨-, -, haddress, hbound, -⟩ -
      exact ⟨haddress, hbound⟩
    · intro h
      obtain ⟨haddress, hbound⟩ := h (by omega)
      refine ⟨⟨by omega, by rw [u64Limit]; omega⟩, by omega, haddress, hbound, hend⟩

theorem clusterToLba_unbounded {clusterLba : Nat} :
    clusterToLba unbounded fs cluster = .ok clusterLba ↔ StartsAt fs cluster clusterLba := by
  rw [clusterToLba, StartsAt]
  split_ifs with hsmall
  · constructor
    · intro h
      cases h
    · rintro ⟨hle, -⟩
      omega
  · rw [unbounded_sub, ok_bind, unbounded_mul, ok_bind, unbounded_add, ok_bind, unbounded_add,
      ok_bind]
    split_ifs with hbound
    · constructor
      · intro h
        cases h
      · rintro ⟨-, rfl, hlt⟩
        omega
    · constructor
      · intro h
        cases h
        exact ⟨by omega, rfl, by omega⟩
      · rintro ⟨-, rfl, -⟩
        rfl

theorem noOverflow_nextCluster (hcluster : cluster < 2 ^ 32) :
    NoOverflow (nextCluster checks fs cluster) ↔ LinkFits fs cluster := by
  rw [nextCluster, LinkFits]
  simp only [noOverflow_mul_bind, noOverflow_add_bind, noOverflow_ofResult_bind]
  constructor
  · rintro ⟨-, -, hlink, -⟩
    exact hlink
  · intro hlink
    have hoffset : cluster * 4 < u64Limit := by
      rw [u64Limit]
      omega
    refine ⟨hoffset, (Nat.le_add_right _ _).trans_lt hlink, hlink, fun sector _ => ?_⟩
    split_ifs
    · exact .failure _
    · exact .failure _
    · exact .value _

theorem nextCluster_unbounded {next : Nat} :
    nextCluster unbounded fs cluster = .ok next ↔ LeadsTo fs cluster next := by
  rw [nextCluster, unbounded_mul, ok_bind, unbounded_add, ok_bind, unbounded_add, ok_bind, LeadsTo,
    bind_eq_ok]
  simp only [ofResult_eq_ok]
  refine exists_congr fun sector => and_congr_right fun _ => ?_
  generalize readLeU32 sector.toList (cluster * 4 % sectorSize) &&& 0x0fffffff = entry
  have hbad : fatEntryBadCluster = 0x0ffffff7 := rfl
  have hend : fatEntryEndOfChain = 0x0ffffff8 := rfl
  split_ifs with hinvalid hlast
  · constructor
    · intro h
      cases h
    · rintro ⟨rfl, htwo, hlt⟩
      omega
  · constructor
    · intro h
      cases h
    · rintro ⟨rfl, htwo, hlt⟩
      omega
  · constructor
    · intro h
      cases h
      omega
    · rintro ⟨rfl, -⟩
      rfl

end

/-! ## The loops over a chain -/

section

variable (visit : Visit σ τ)

/-- The loop goes on after each of the first sectors of a cluster, from `s` to the last state. -/
inductive Passed (clusterLba : Nat) (s : σ) : (count : Nat) → σ → Prop where
  | start : Passed clusterLba s 0 s
  | sector {i : Nat} {s' s'' : σ} {sector : Sector} (passed : Passed clusterLba s i s')
      (read : fs.device.sector (clusterLba + i) = .ok sector)
      (goesOn : visit sector s' = .inl s'') : Passed clusterLba s (i + 1) s''

/-- The loop goes on from one cluster to the next. -/
def ScanStep (state state' : Nat × σ) : Prop :=
  (∃ clusterLba, StartsAt fs state.1 clusterLba ∧
    Passed fs visit clusterLba state.2 fs.sectorsPerCluster state'.2) ∧
  LeadsTo fs state.1 state'.1

/-- What the loop computes for a cluster has 64 bits: its address, that of each sector it comes to
and, if it comes through all of them, that of its table entry. -/
def ClusterFits (cluster : Nat) (s : σ) : Prop :=
  AddressFits fs cluster ∧ ∀ clusterLba, StartsAt fs cluster clusterLba →
    (∀ i < fs.sectorsPerCluster, ∀ s', Passed fs visit clusterLba s i s' →
      clusterLba + i < u64Limit) ∧
    ∀ s', Passed fs visit clusterLba s fs.sectorsPerCluster s' → LinkFits fs cluster

/-- **What the loop computes has 64 bits**, for every cluster that it comes to. -/
def ScanFits (cluster : Nat) (s : σ) : Prop :=
  ∀ cluster' s', ReflTransGen (ScanStep fs visit) (cluster, s) (cluster', s') →
    ClusterFits fs visit cluster' s'

variable {fs visit} {clusterLba cluster : Nat} {s : σ}

theorem goesOn_scanSector {state state' : Nat × σ} :
    GoesOn (scanSector unbounded fs visit clusterLba) state state' ↔
      state'.1 = state.1 + 1 ∧ ∃ sector,
        fs.device.sector (clusterLba + state.1) = .ok sector ∧
          visit sector state.2 = .inl state'.2 := by
  obtain ⟨i, s⟩ := state
  obtain ⟨i', s'⟩ := state'
  rw [GoesOn, scanSector, unbounded_add, ok_bind, bind_eq_ok]
  simp only [ofResult_eq_ok]
  constructor
  · rintro ⟨sector, hread, h⟩
    cases hvisit : visit sector s with
    | inl m =>
      rw [hvisit] at h
      cases h
      exact ⟨rfl, sector, hread, hvisit⟩
    | inr r =>
      rw [hvisit] at h
      obtain ⟨t, -, h⟩ := bind_eq_ok.mp h
      cases h
  · rintro ⟨rfl, sector, hread, hvisit⟩
    exact ⟨sector, hread, by rw [hvisit]; rfl⟩

theorem loop_scanSector {k : Nat} {state : Nat × σ} :
    loop (scanSector unbounded fs visit clusterLba) k (0, s) = .ok (.inl state) ↔
      state.1 = k ∧ Passed fs visit clusterLba s k state.2 := by
  induction k generalizing state with
  | zero =>
    constructor
    · intro h
      cases h
      exact ⟨rfl, .start⟩
    · obtain ⟨i, s'⟩ := state
      rintro ⟨rfl, hpassed⟩
      cases hpassed
      rfl
  | succ k ih =>
    rw [loop_succ_eq_inl']
    constructor
    · rintro ⟨m, hloop, hstep⟩
      obtain ⟨hm, hpassed⟩ := ih.mp hloop
      obtain ⟨hstate, sector, hread, hvisit⟩ := goesOn_scanSector.mp hstep
      rw [hm] at hstate hread
      exact ⟨hstate, hpassed.sector hread hvisit⟩
    · rintro ⟨hstate, hpassed⟩
      cases hpassed with
      | @sector _ s' _ sector passed read goesOn =>
        exact ⟨(k, s'), ih.mpr ⟨rfl, passed⟩, goesOn_scanSector.mpr ⟨hstate, sector, read, goesOn⟩⟩

theorem noOverflow_scanSector {i : Nat} :
    NoOverflow (scanSector checks fs visit clusterLba (i, s)) ↔ clusterLba + i < u64Limit := by
  rw [scanSector, noOverflow_add_bind, noOverflow_ofResult_bind, and_iff_left_iff_imp]
  intro _ sector _
  cases visit sector s with
  | inl s' => exact .value _
  | inr r =>
    cases r with
    | ok t => exact .value _
    | error e => exact .failure _

theorem noOverflow_sectors {rounds : Nat} :
    NoOverflow (loop (scanSector checks fs visit clusterLba) rounds (0, s)) ↔
      ∀ i < rounds, ∀ s', Passed fs visit clusterLba s i s' → clusterLba + i < u64Limit := by
  rw [noOverflow_loop (agrees_scanSector checks_below fs visit clusterLba)]
  simp only [loop_scanSector]
  constructor
  · intro h i hi s' hpassed
    have hround := h i hi (i, s') ⟨rfl, hpassed⟩
    rwa [noOverflow_scanSector] at hround
  · rintro h i hi ⟨_, s'⟩ ⟨rfl, hpassed⟩
    rw [noOverflow_scanSector]
    exact h _ hi s' hpassed

theorem goesOn_scanCluster {state state' : Nat × σ} :
    GoesOn (scanCluster unbounded fs visit) state state' ↔ ScanStep fs visit state state' := by
  obtain ⟨cluster, s⟩ := state
  obtain ⟨next, s'⟩ := state'
  rw [GoesOn, scanCluster, ScanStep, bind_eq_ok]
  constructor
  · rintro ⟨clusterLba, hlba, h⟩
    obtain ⟨r, hsectors, h⟩ := bind_eq_ok.mp h
    cases r with
    | inl m =>
      obtain ⟨next', hnext, h⟩ := bind_eq_ok.mp h
      cases h
      exact ⟨⟨clusterLba, clusterToLba_unbounded.mp hlba, (loop_scanSector.mp hsectors).2⟩,
        nextCluster_unbounded.mp hnext⟩
    | inr t => cases h
  · rintro ⟨⟨clusterLba, hlba, hpassed⟩, hnext⟩
    refine ⟨clusterLba, clusterToLba_unbounded.mpr hlba, bind_eq_ok.mpr ⟨.inl (_, s'),
      loop_scanSector.mpr ⟨rfl, hpassed⟩, bind_eq_ok.mpr ⟨next, ?_, rfl⟩⟩⟩
    exact nextCluster_unbounded.mpr hnext

theorem noOverflow_scanCluster (hcluster : cluster < 2 ^ 32) :
    NoOverflow (scanCluster checks fs visit (cluster, s)) ↔ ClusterFits fs visit cluster s := by
  rw [scanCluster, ClusterFits, noOverflow_bind (agrees_clusterToLba checks_below fs cluster),
    noOverflow_clusterToLba hcluster]
  simp only [clusterToLba_unbounded]
  refine and_congr_right fun _ => forall_congr' fun clusterLba => imp_congr_right fun _ => ?_
  rw [noOverflow_bind (agrees_loop (agrees_scanSector checks_below fs visit clusterLba) _ _),
    noOverflow_sectors]
  refine and_congr_right fun _ => ?_
  have hlink : ∀ s', NoOverflow ((nextCluster checks fs cluster) >>= fun next =>
      (pure (.inl (next, s')) : Calc ((Nat × σ) ⊕ τ))) ↔ LinkFits fs cluster := by
    intro s'
    rw [noOverflow_bind (agrees_nextCluster checks_below fs cluster),
      noOverflow_nextCluster hcluster, and_iff_left_iff_imp]
    exact fun _ _ _ => .value _
  constructor
  · intro h s' hpassed
    exact (hlink s').mp (h (.inl (fs.sectorsPerCluster, s')) (loop_scanSector.mpr ⟨rfl, hpassed⟩))
  · intro h r hr
    cases r with
    | inl state => exact (hlink state.2).mpr (h state.2 (loop_scanSector.mp hr).2)
    | inr t => exact .value _

/-- The clusters that a loop comes to have 32 bits. -/
theorem cluster_lt {state : Nat × σ} (hcluster : cluster < 2 ^ 32)
    (h : ReflTransGen (ScanStep fs visit) (cluster, s) state) : state.1 < 2 ^ 32 := by
  cases h with
  | refl => exact hcluster
  | tail _ hstep =>
    obtain ⟨-, sector, -, -, -, hlt⟩ := hstep
    exact hlt.trans (by decide)

/-- **A loop over a chain overflows** unless what it computes fits. -/
theorem noOverflow_scanChain (hcluster : cluster < 2 ^ 32) :
    (∀ fuel, NoOverflow (scanChain checks fs visit fuel cluster s)) ↔
      ScanFits fs visit cluster s := by
  have hgoesOn : GoesOn (scanCluster unbounded fs visit) = ScanStep fs visit := by
    funext state state'
    exact propext goesOn_scanCluster
  simp only [scanChain]
  rw [noOverflow_loop_all (agrees_scanCluster checks_below fs visit), hgoesOn, ScanFits]
  constructor
  · intro h cluster' s' hreach
    exact (noOverflow_scanCluster (cluster_lt hcluster hreach)).mp (h _ hreach)
  · rintro h ⟨cluster', s'⟩ hreach
    exact (noOverflow_scanCluster (cluster_lt hcluster hreach)).mpr (h _ _ hreach)

/-- **A volume far below the width** fits, whatever is on it: its clusters take fewer than `2 ^ 40`
sectors, and its table fewer than `2 ^ 25`. -/
theorem scanFits_of_room (hperCluster : fs.sectorsPerCluster < 2 ^ 8)
    (hdata : fs.firstDataSector + 2 ^ 40 ≤ u64Limit)
    (hend : fs.partitionStartLba + fs.partitionSectorCount + 2 ^ 8 ≤ u64Limit)
    (hfat : fs.partitionStartLba + fs.reservedSectorCount + 2 ^ 25 ≤ u64Limit)
    (hcluster : cluster < 2 ^ 32) (s : σ) : ScanFits fs visit cluster s := by
  intro cluster' s' hreach
  have hlt : cluster' < 2 ^ 32 := cluster_lt hcluster hreach
  have hoffset : (cluster' - 2) * fs.sectorsPerCluster < 2 ^ 40 :=
    calc (cluster' - 2) * fs.sectorsPerCluster ≤ (cluster' - 2) * 2 ^ 8 :=
          Nat.mul_le_mul_left _ hperCluster.le
      _ < 2 ^ 40 := by omega
  refine ⟨fun _ => ⟨by omega, by omega⟩, fun clusterLba hstarts => ?_⟩
  refine ⟨fun i hi _ _ => ?_, fun _ _ => ?_⟩
  · have hin := hstarts.2.2
    omega
  · have htable : cluster' * 4 / sectorSize < 2 ^ 25 := by
      rw [sectorSize]
      omega
    rw [LinkFits]
    omega

end

/-! ## Mounting -/

/-- No check of `Fat32::mount` fails on the boot sector. -/
def AcceptedBoot (sector : List UInt8) (partition : GptPartition) : Prop :=
  let totalSectors :=
    if readLeU16 sector 19 ≠ 0 then readLeU16 sector 19 else readLeU32 sector 32
  ¬ (readLeU16 sector 11 ≠ sectorSize ∨ (sector.getD 13 0).toNat = 0 ∨ readLeU16 sector 14 = 0 ∨
    (sector.getD 16 0).toNat = 0 ∨ readLeU16 sector 17 ≠ 0 ∨ readLeU16 sector 22 ≠ 0 ∨
    readLeU32 sector 36 = 0) ∧
  ¬ (totalSectors = 0 ∨ totalSectors > partition.sectorCount)

/-- The first data sector, if the boot sector is taken, has 64 bits. -/
def MountFits (device : BlockDevice) (partition : GptPartition) : Prop :=
  ∀ sector, device.sector partition.startLba = .ok sector →
    AcceptedBoot sector.toList partition →
    partition.startLba + readLeU16 sector.toList 14 +
      (sector.toList.getD 16 0).toNat * readLeU32 sector.toList 36 < u64Limit

theorem noOverflow_mount (device : BlockDevice) (partition : GptPartition) :
    NoOverflow (mount checks device partition) ↔ MountFits device partition := by
  rw [mount, noOverflow_ofResult_bind, MountFits]
  refine forall_congr' fun sector => imp_congr_right fun _ => ?_
  simp only [AcceptedBoot]
  generalize (if readLeU16 sector.toList 19 ≠ 0 then readLeU16 sector.toList 19
    else readLeU32 sector.toList 32) = totalSectors
  split_ifs with hfields htotal
  · exact ⟨fun _ hboot => absurd hfields hboot.1, fun _ => .failure _⟩
  · exact ⟨fun _ hboot => absurd htotal hboot.2, fun _ => .failure _⟩
  · simp only [noOverflow_add_bind, noOverflow_mul_bind]
    constructor
    · rintro ⟨-, -, hfirst, -⟩ -
      exact hfirst
    · intro h
      have hfirst := h ⟨hfields, htotal⟩
      exact ⟨(Nat.le_add_right _ _).trans_lt hfirst, (Nat.le_add_left _ _).trans_lt hfirst,
        hfirst, .value _⟩

/-! ## The partition table -/

/-- The entries of a sector of the table. -/
def slices (entrySize : Nat) (sector : Sector) : List (List UInt8) :=
  (List.range (sectorSize / entrySize)).map fun j =>
    (sector.toList.drop (j * entrySize)).take entrySize

/-- The first sectors of a table can be read, and these are their entries. -/
inductive TableRead (device : BlockDevice) (entryLba entrySize : Nat) :
    (count : Nat) → List (List UInt8) → Prop where
  | start : TableRead device entryLba entrySize 0 []
  | sector {k : Nat} {entries : List (List UInt8)} {sector : Sector}
      (before : TableRead device entryLba entrySize k entries)
      (read : device.sector (entryLba + k) = .ok sector) :
      TableRead device entryLba entrySize (k + 1) (entries ++ slices entrySize sector)

/-- The partition of the entry does not end before it starts. -/
def isOrdered (entry : List UInt8) : Bool := readLeU64 entry 32 ≤ readLeU64 entry 40

/-- The partition of the entry has `2 ^ 64` sectors. -/
def IsWhole (entry : List UInt8) : Prop :=
  readLeU64 entry 32 = 0 ∧ readLeU64 entry 40 = u64Limit - 1

/-- The entries that there is room for. -/
def firstUsed (room : Nat) (entries : List (List UInt8)) : List (List UInt8) :=
  (entries.filter isUsedEntry).take room

/-- **What the reader computes for the table has 64 bits**: the address of every sector it comes to,
and the size of every partition it takes, which are the first sixteen up to one that ends before it
starts. -/
def TableFits (device : BlockDevice) : Prop :=
  ∀ entryLba entryCount entrySize, HasHeader device entryLba entryCount entrySize →
    128 ≤ entrySize → ∀ k ≤ tableSectors entryCount entrySize, ∀ entries,
      TableRead device entryLba entrySize k entries →
      (∀ entry ∈ (firstUsed maxPartitions entries).takeWhile isOrdered, ¬ IsWhole entry) ∧
      (k < tableSectors entryCount entrySize →
        (∀ entry ∈ firstUsed maxPartitions entries, isOrdered entry) → entryLba + k < u64Limit)

/-- The loops of the reader over some entries. -/
def collect (A : Arith) : (entries : List (List UInt8)) → (partitions : List GptPartition) →
    Calc (List GptPartition)
  | [], partitions => return partitions
  | entry :: rest, partitions =>
    if partitions.length ≥ maxPartitions then return partitions
    else if isUsedEntry entry then
      if readLeU64 entry 40 < readLeU64 entry 32 then throw (.error .invalidPartitionTable)
      else do
        let distance ← A.sub (readLeU64 entry 40) (readLeU64 entry 32)
        let sectorCount ← A.add distance 1
        collect A rest (partitions ++ [{ partitionOf entry with sectorCount }])
    else collect A rest partitions

section

variable (A : Arith)

theorem collect_of_full {partitions : List GptPartition}
    (h : partitions.length ≥ maxPartitions) (entries : List (List UInt8)) :
    collect A entries partitions = .ok partitions := by
  cases entries with
  | nil => rfl
  | cons entry rest =>
    rw [collect, if_pos h]
    rfl

theorem collect_append (entries others : List (List UInt8)) (partitions : List GptPartition) :
    collect A (entries ++ others) partitions =
      collect A entries partitions >>= collect A others := by
  induction entries generalizing partitions with
  | nil => rfl
  | cons entry rest ih =>
    rw [List.cons_append, collect, collect]
    split_ifs with hfull hused hbad
    · exact (collect_of_full A hfull others).symm
    · rfl
    · simp only [ih, bind_assoc]
    · exact ih _

theorem readEntries_eq_collect (entrySize : Nat) (sector : Sector) (rounds offset : Nat)
    (partitions : List GptPartition) :
    readEntries A entrySize sector rounds offset partitions =
      collect A ((List.range rounds).map fun j =>
        (sector.toList.drop (offset + j * entrySize)).take entrySize) partitions := by
  induction rounds generalizing offset partitions with
  | zero => rfl
  | succ rounds ih =>
    have htail : ∀ j, offset + (j + 1) * entrySize = offset + entrySize + j * entrySize := by
      intro j
      ring
    rw [List.range_succ_eq_map, List.map_cons, List.map_map, Nat.zero_mul]
    simp only [Function.comp_def, Nat.succ_eq_add_one, htail]
    rw [readEntries, collect]
    simp only [ih, Nat.add_zero]

theorem readEntries_sector (entrySize : Nat) (sector : Sector) (partitions : List GptPartition) :
    readEntries A entrySize sector (sectorSize / entrySize) 0 partitions =
      collect A (slices entrySize sector) partitions := by
  rw [readEntries_eq_collect, slices]
  simp only [Nat.zero_add]

variable {A} in
theorem agrees_collect {B : Arith} (h : A.Below B) (entries : List (List UInt8))
    (partitions : List GptPartition) :
    Agrees (collect A entries partitions) (collect B entries partitions) := by
  induction entries generalizing partitions with
  | nil => exact .refl _
  | cons entry rest ih =>
    rw [collect, collect]
    split_ifs
    · exact .refl _
    · exact .refl _
    · exact (h.sub _ _).bind fun _ => (h.add _ _).bind fun _ => ih _
    · exact ih _

end

section

variable {room : Nat} {entry : List UInt8} {entries : List (List UInt8)}

@[simp] theorem firstUsed_zero : firstUsed 0 entries = [] := List.take_zero

@[simp] theorem firstUsed_nil : firstUsed room [] = [] := List.take_nil

theorem firstUsed_cons (h : isUsedEntry entry = true) :
    firstUsed (room + 1) (entry :: entries) = entry :: firstUsed room entries := by
  rw [firstUsed, List.filter_cons_of_pos h, List.take_succ_cons, firstUsed]

theorem firstUsed_cons_of_unused (h : isUsedEntry entry = false) :
    firstUsed room (entry :: entries) = firstUsed room entries := by
  rw [firstUsed, List.filter_cons_of_neg (by rw [h]; decide), firstUsed]

/-- The size of a partition that does not end before it starts has 64 bits unless it is all of
them. -/
theorem size_lt_iff (h : isOrdered entry = true) :
    readLeU64 entry 40 - readLeU64 entry 32 + 1 < u64Limit ↔ ¬ IsWhole entry := by
  have hend := readLeU64_lt entry 40
  rw [isOrdered, decide_eq_true_eq] at h
  rw [IsWhole]
  omega

theorem not_isOrdered (h : readLeU64 entry 40 < readLeU64 entry 32) : isOrdered entry = false :=
  decide_eq_false (Nat.not_le_of_lt h)

theorem noOverflow_collect (entries : List (List UInt8)) (partitions : List GptPartition) :
    NoOverflow (collect checks entries partitions) ↔
      ∀ entry ∈ (firstUsed (maxPartitions - partitions.length) entries).takeWhile isOrdered,
        ¬ IsWhole entry := by
  induction entries generalizing partitions with
  | nil =>
    rw [firstUsed_nil, List.takeWhile_nil]
    exact iff_of_true (.value _) (List.forall_mem_nil _)
  | cons entry rest ih =>
    rw [collect]
    split_ifs with hfull hused hbad
    · rw [Nat.sub_eq_zero_of_le hfull, firstUsed_zero, List.takeWhile_nil]
      exact iff_of_true (.value _) (List.forall_mem_nil _)
    · obtain ⟨room, hroom⟩ : ∃ room, maxPartitions - partitions.length = room + 1 :=
        ⟨maxPartitions - partitions.length - 1, by omega⟩
      have hbad' : ¬ isOrdered entry = true := by
        rw [not_isOrdered hbad]
        decide
      rw [hroom, firstUsed_cons hused, List.takeWhile_cons_of_neg hbad']
      exact iff_of_true (.failure _) (List.forall_mem_nil _)
    · have hordered : isOrdered entry = true := decide_eq_true (Nat.le_of_not_lt hbad)
      have hend := readLeU64_lt entry 40
      have hroom : maxPartitions - partitions.length =
          maxPartitions - (partitions.length + 1) + 1 := by omega
      rw [hroom, firstUsed_cons hused, List.takeWhile_cons_of_pos hordered, List.forall_mem_cons,
        ← size_lt_iff hordered, noOverflow_sub_bind, noOverflow_add_bind, ih, List.length_append,
        List.length_singleton]
      exact and_iff_right ⟨Nat.le_of_not_lt hbad, by omega⟩
    · rw [firstUsed_cons_of_unused (by simpa using hused)]
      exact ih _

/-- The reader goes on when no entry that it takes ends before it starts. -/
theorem collect_unbounded (entries : List (List UInt8)) (partitions : List GptPartition) :
    (∃ result, collect unbounded entries partitions = .ok result) ↔
      ∀ entry ∈ firstUsed (maxPartitions - partitions.length) entries, isOrdered entry := by
  induction entries generalizing partitions with
  | nil =>
    rw [firstUsed_nil]
    exact iff_of_true ⟨_, rfl⟩ (List.forall_mem_nil _)
  | cons entry rest ih =>
    rw [collect]
    split_ifs with hfull hused hbad
    · rw [Nat.sub_eq_zero_of_le hfull, firstUsed_zero]
      exact iff_of_true ⟨_, rfl⟩ (List.forall_mem_nil _)
    · obtain ⟨room, hroom⟩ : ∃ room, maxPartitions - partitions.length = room + 1 :=
        ⟨maxPartitions - partitions.length - 1, by omega⟩
      rw [hroom, firstUsed_cons hused, List.forall_mem_cons, not_isOrdered hbad]
      constructor
      · rintro ⟨result, h⟩
        cases h
      · rintro ⟨h, -⟩
        cases h
    · have hordered : isOrdered entry = true := decide_eq_true (Nat.le_of_not_lt hbad)
      have hroom : maxPartitions - partitions.length =
          maxPartitions - (partitions.length + 1) + 1 := by omega
      rw [unbounded_sub, ok_bind, unbounded_add, ok_bind, ih, List.length_append,
        List.length_singleton, hroom, firstUsed_cons hused, List.forall_mem_cons]
      exact (and_iff_right hordered).symm
    · rw [firstUsed_cons_of_unused (by simpa using hused)]
      exact ih _

end

section

variable {device : BlockDevice} {entryLba entrySize : Nat}

theorem goesOn_readTableSector {state state' : Nat × List GptPartition} :
    GoesOn (readTableSector unbounded device entryLba entrySize) state state' ↔
      state'.1 = state.1 + 1 ∧ ∃ sector, device.sector (entryLba + state.1) = .ok sector ∧
        collect unbounded (slices entrySize sector) state.2 = .ok state'.2 := by
  obtain ⟨i, partitions⟩ := state
  obtain ⟨i', partitions'⟩ := state'
  rw [GoesOn, readTableSector, unbounded_add, ok_bind, bind_eq_ok]
  simp only [ofResult_eq_ok, readEntries_sector]
  constructor
  · rintro ⟨sector, hread, h⟩
    obtain ⟨collected, hcollect, h⟩ := bind_eq_ok.mp h
    cases h
    exact ⟨rfl, sector, hread, hcollect⟩
  · rintro ⟨rfl, sector, hread, hcollect⟩
    exact ⟨sector, hread, bind_eq_ok.mpr ⟨partitions', hcollect, rfl⟩⟩

theorem loop_readTableSector {k : Nat} {state : Nat × List GptPartition} :
    loop (readTableSector unbounded device entryLba entrySize) k (0, []) = .ok (.inl state) ↔
      state.1 = k ∧ ∃ entries, TableRead device entryLba entrySize k entries ∧
        collect unbounded entries [] = .ok state.2 := by
  induction k generalizing state with
  | zero =>
    constructor
    · intro h
      cases h
      exact ⟨rfl, [], .start, rfl⟩
    · obtain ⟨i, partitions⟩ := state
      rintro ⟨rfl, entries, hread, hcollect⟩
      cases hread
      cases hcollect
      rfl
  | succ k ih =>
    rw [loop_succ_eq_inl']
    constructor
    · rintro ⟨m, hloop, hstep⟩
      obtain ⟨hm, entries, hread, hcollect⟩ := ih.mp hloop
      obtain ⟨hstate, sector, hsector, hslices⟩ := goesOn_readTableSector.mp hstep
      rw [hm] at hstate hsector
      refine ⟨hstate, _, hread.sector hsector, ?_⟩
      rw [collect_append, hcollect]
      exact hslices
    · rintro ⟨hstate, _, hread, hcollect⟩
      cases hread with
      | @sector _ entries sector before read =>
        rw [collect_append, bind_eq_ok] at hcollect
        obtain ⟨partitions, hbefore, hslices⟩ := hcollect
        exact ⟨(k, partitions), ih.mpr ⟨rfl, entries, before, hbefore⟩,
          goesOn_readTableSector.mpr ⟨hstate, sector, read, hslices⟩⟩

theorem noOverflow_readTableSector {k : Nat} (hk : k + 1 < u64Limit)
    (partitions : List GptPartition) :
    NoOverflow (readTableSector checks device entryLba entrySize (k, partitions)) ↔
      entryLba + k < u64Limit ∧ ∀ sector, device.sector (entryLba + k) = .ok sector →
        NoOverflow (collect checks (slices entrySize sector) partitions) := by
  rw [readTableSector, noOverflow_add_bind, noOverflow_ofResult_bind]
  refine and_congr_right fun _ => forall_congr' fun sector => imp_congr_right fun _ => ?_
  rw [readEntries_sector, noOverflow_bind (agrees_collect checks_below _ _)]
  refine and_iff_left fun collected _ => ?_
  rw [noOverflow_add_bind]
  exact ⟨hk, .value _⟩

/-- **The loop over the sectors of the table**: the address of each sector it comes to has 64 bits,
and what it makes of the entries. -/
theorem noOverflow_table {rounds : Nat} (hrounds : rounds < u64Limit) :
    NoOverflow (loop (readTableSector checks device entryLba entrySize) rounds (0, [])) ↔
      ∀ k ≤ rounds, ∀ entries, TableRead device entryLba entrySize k entries →
        NoOverflow (collect checks entries []) ∧
        (k < rounds → (∃ result, collect unbounded entries [] = .ok result) →
          entryLba + k < u64Limit) := by
  have hsplit : ∀ entries sector,
      NoOverflow (collect checks (entries ++ slices entrySize sector) []) ↔
        NoOverflow (collect checks entries []) ∧ ∀ partitions,
        collect unbounded entries [] = .ok partitions →
          NoOverflow (collect checks (slices entrySize sector) partitions) := by
    intro entries sector
    rw [collect_append, noOverflow_bind (agrees_collect checks_below _ _)]
  rw [noOverflow_loop (agrees_readTableSector checks_below device entryLba entrySize)]
  simp only [loop_readTableSector]
  constructor
  · intro h
    have hround : ∀ k < rounds, ∀ entries partitions,
        TableRead device entryLba entrySize k entries →
        collect unbounded entries [] = .ok partitions → entryLba + k < u64Limit ∧
          ∀ sector, device.sector (entryLba + k) = .ok sector →
            NoOverflow (collect checks (slices entrySize sector) partitions) := by
      intro k hk entries partitions hread hcollect
      have hno := h k hk (k, partitions) ⟨rfl, entries, hread, hcollect⟩
      rwa [noOverflow_readTableSector (by omega)] at hno
    intro k hk entries hread
    constructor
    · -- the entries are those of one sector after the other
      induction hread with
      | start => exact .value _
      | @sector k entries sector before read ih =>
        exact (hsplit entries sector).mpr ⟨ih (by omega), fun partitions hcollect =>
          (hround k hk entries partitions before hcollect).2 sector read⟩
    · rintro hlt ⟨partitions, hcollect⟩
      exact (hround k hlt entries partitions hread hcollect).1
  · rintro h k hk ⟨_, partitions⟩ ⟨rfl, entries, hread, hcollect⟩
    rw [noOverflow_readTableSector (by omega)]
    refine ⟨(h _ hk.le entries hread).2 hk ⟨partitions, hcollect⟩, fun sector hsector => ?_⟩
    exact ((hsplit entries sector).mp (h _ hk _ (hread.sector hsector)).1).2 partitions hcollect

end

/-- The size of the table is far from the width. -/
theorem alignUp_checks {value : Nat} (hvalue : value + sectorSize < u64Limit) :
    alignUp checks value sectorSize = .ok (Lazers.alignUp value sectorSize) := by
  have hno : NoOverflow (alignUp checks value sectorSize) := by
    rw [alignUp]
    split_ifs
    · exact .value _
    · rw [noOverflow_add_bind, noOverflow_sub_bind, noOverflow_sub_bind]
      exact ⟨hvalue, ⟨by omega, by omega⟩, ⟨by decide, by decide⟩, .value _⟩
  rw [← agrees_alignUp (checked_below_wrapping u64Limit) value sectorSize hno,
    alignUp_wrapping hvalue]

/-- After the header the reader only reads the table. -/
theorem noOverflow_read_of_hasHeader {device : BlockDevice} {entryLba entryCount entrySize : Nat}
    (h : HasHeader device entryLba entryCount entrySize) (hsize : 128 ≤ entrySize) :
    NoOverflow (GptPartitions.read checks device) ↔
      NoOverflow (loop (readTableSector checks device entryLba entrySize)
        (tableSectors entryCount entrySize) (0, [])) := by
  obtain ⟨header, hsector, hsigned, rfl, rfl, rfl⟩ := h.signed
  have hwidth : ∀ offset, readLeU32 header.toList offset < 2 ^ 32 := fun _ => readLe_lt _ _ 4
  have hbytes := tableBytes_lt (hwidth 80) (hwidth 84)
  rw [GptPartitions.read, hsector, ofResult, ok_bind]
  dsimp only
  rw [if_neg (not_not.mpr hsigned), if_neg (by omega), if_neg (by omega), alignUp_checks hbytes,
    ok_bind, (tableSectors_eq (hwidth 80) (hwidth 84)).1,
    noOverflow_bind (agrees_loop (agrees_readTableSector checks_below device _ _) _ _)]
  exact and_iff_left fun _ _ => .value _

theorem noOverflow_read (device : BlockDevice) :
    NoOverflow (GptPartitions.read checks device) ↔ TableFits device := by
  have htable : ∀ entryLba entryCount entrySize,
      HasHeader device entryLba entryCount entrySize → 128 ≤ entrySize →
      (NoOverflow (GptPartitions.read checks device) ↔
        ∀ k ≤ tableSectors entryCount entrySize, ∀ entries,
          TableRead device entryLba entrySize k entries →
          (∀ entry ∈ (firstUsed maxPartitions entries).takeWhile isOrdered, ¬ IsWhole entry) ∧
          (k < tableSectors entryCount entrySize →
            (∀ entry ∈ firstUsed maxPartitions entries, isOrdered entry) →
            entryLba + k < u64Limit)) := by
    intro entryLba entryCount entrySize hheader hsize
    have hlimit : tableSectors entryCount entrySize < u64Limit := by
      obtain ⟨header, -, -, -, rfl, rfl⟩ := hheader.signed
      have hle := tableSectors_le (readLe_lt header.toList 80 4) (readLe_lt header.toList 84 4)
      rw [← readLeU32, ← readLeU32] at hle
      rw [u64Limit]
      omega
    rw [noOverflow_read_of_hasHeader hheader hsize, noOverflow_table hlimit]
    simp only [noOverflow_collect, collect_unbounded, List.length_nil, Nat.sub_zero]
  constructor
  · exact fun h entryLba entryCount entrySize hheader hsize =>
      (htable _ _ _ hheader hsize).mp h
  · intro h
    by_cases hheader : ∃ entryLba entryCount entrySize,
        HasHeader device entryLba entryCount entrySize ∧ 128 ≤ entrySize
    · obtain ⟨entryLba, entryCount, entrySize, hheader, hsize⟩ := hheader
      exact (htable _ _ _ hheader hsize).mpr (h _ _ _ hheader hsize)
    · -- Without a header the reader fails before it computes anything.
      rw [GptPartitions.read, noOverflow_ofResult_bind]
      intro header hsector
      dsimp only
      split_ifs with hsigned hsize hlarge
      · exact .failure _
      · exact .failure _
      · exact .failure _
      · exact absurd ⟨_, _, _, ⟨header, hsector, not_not.mp hsigned, rfl, rfl, rfl⟩,
          Nat.le_of_not_lt hsize⟩ hheader

/-! ## All of it -/

/-- **The storage arithmetic overflows** on no disk, partition, volume and cluster that fit, and
on every one that does not: reading the partition table, mounting, addressing a cluster, going on
to the next, and the three loops over a chain, however long they run. -/
theorem storage_fits_iff (device : BlockDevice) (partition : GptPartition) (fs : Fat32)
    {cluster : Nat} (hcluster : cluster < 2 ^ 32) (component : String) (capacity : Nat)
    {entry : FatDirectoryEntry} (hentry : entry.firstCluster < 2 ^ 32) :
    (NoOverflow (GptPartitions.read checks device) ↔ TableFits device) ∧
    (NoOverflow (mount checks device partition) ↔ MountFits device partition) ∧
    (NoOverflow (clusterToLba checks fs cluster) ↔ AddressFits fs cluster) ∧
    (NoOverflow (nextCluster checks fs cluster) ↔ LinkFits fs cluster) ∧
    ((∀ fuel, NoOverflow (findInDirectory checks fs fuel cluster component)) ↔
      ∀ shortName, makeShortName component = .ok shortName →
        ScanFits fs (findVisit shortName.toList) cluster ()) ∧
    ((∀ fuel, NoOverflow (readDirFrom checks fs fuel cluster capacity)) ↔
      ScanFits fs (listVisit capacity) cluster []) ∧
    ((∀ fuel, NoOverflow (readFile checks fs fuel entry capacity)) ↔
      (entry.size ≤ capacity → 0 < entry.size →
        ScanFits fs readVisit entry.firstCluster (entry.size, []))) := by
  refine ⟨noOverflow_read device, noOverflow_mount device partition,
    noOverflow_clusterToLba hcluster, noOverflow_nextCluster hcluster, ?_,
    noOverflow_scanChain hcluster, ?_⟩
  · simp only [findInDirectory, noOverflow_ofResult_bind, ← noOverflow_scanChain hcluster]
    exact ⟨fun h shortName hname fuel => h fuel shortName hname,
      fun h fuel shortName hname => h shortName hname fuel⟩
  · rw [← noOverflow_scanChain hentry]
    simp only [readFile]
    split_ifs with hroom hempty
    · exact iff_of_true (fun _ => .failure _) fun hle => absurd hroom (Nat.not_lt_of_le hle)
    · exact iff_of_true (fun _ => .value _) fun _ hpos => absurd hempty (Nat.ne_of_gt hpos)
    · exact ⟨fun h _ _ => h, fun h => h (Nat.le_of_not_lt hroom) (Nat.pos_of_ne_zero hempty)⟩

/-- A small volume, searched, listed and read. -/
theorem storage_fits_at_sampleVolume :
    NoOverflow (clusterToLba checks sampleVolume 2) ∧
    NoOverflow (nextCluster checks sampleVolume 2) ∧
    (∀ fuel, NoOverflow (findInDirectory checks sampleVolume fuel 2 "BIN")) ∧
    (∀ fuel, NoOverflow (readDirFrom checks sampleVolume fuel 2 16)) ∧
    ∀ fuel, NoOverflow (readFile checks sampleVolume fuel ⟨3, 16, false⟩ 16) := by
  have hfits : ∀ {σ τ : Type} (visit : Visit σ τ) (cluster : Nat) (s : σ), cluster < 2 ^ 32 →
      ScanFits sampleVolume visit cluster s := fun visit cluster s hcluster =>
    scanFits_of_room (by decide) (by decide) (by decide) (by decide) hcluster s
  obtain ⟨-, -, haddress, hlink, hfind, hlist, hread⟩ :=
    @storage_fits_iff sampleVolume.device Fat32.smallPartition sampleVolume 2 (by decide) "BIN" 16
      ⟨3, 16, false⟩ (by decide)
  exact ⟨haddress.mpr fun _ => ⟨by decide, by decide⟩, hlink.mpr (by decide : _ < u64Limit),
    hfind.mpr fun _ _ => hfits _ 2 () (by decide), hlist.mpr (hfits _ 2 [] (by decide)),
    hread.mpr fun _ _ => hfits _ 3 _ (by decide)⟩

/-- A partition that starts at sector 0 and ends at the last of `2 ^ 64`, and no others. -/
def wholeTable : Sector :=
  ⟨⟨1 :: List.replicate 39 0 ++ List.replicate 8 0xff ++ List.replicate 464 0⟩, by
    decide +kernel⟩

/-- A disk with this partition. -/
def wholeDisk : BlockDevice :=
  ⟨fun lba => .ok (if lba = gptHeaderLba then headerSector 2 4 128 else wholeTable)⟩

/-- **The size of that partition overflows**, and the reader takes it for empty. -/
theorem whole_disk_overflows : ¬ NoOverflow (GptPartitions.read checks wholeDisk) ∧
    (outcome (Storage.GptPartitions.read wholeDisk)).toOption.map
      (List.map GptPartition.sectorCount) = some [0] := by
  decide +kernel

end Lazers.Storage.Overflow
