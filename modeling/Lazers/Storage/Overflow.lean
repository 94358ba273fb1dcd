import Lazers.Lib.Arithmetic
import Lazers.Storage.FileContents
import Lazers.Storage.Gpt
import Lazers.Storage.Termination

/-!
# The storage arithmetic, in any arithmetic

Every `u64` sum, difference and product of `gpt.rs` and `fat32.rs`, in the functions that hold
them, with the arithmetic as a parameter `A`. What they do with a sector is what it is in the
reader. The loops of `find_in_directory`, `read_dir` and `read_file` compute the same addresses,
so they are one loop here (`scanChain`) over what each does with a sector (`Visit`).

In the wrapping arithmetic these functions are the reader (`read_wrapping`, `mount_wrapping`,
`clusterToLba_wrapping`, `nextCluster_wrapping`, `findInChain_wrapping`, `listChain_wrapping`,
`readChain_wrapping`).
-/

namespace Lazers.Storage.Overflow

open Arithmetic

/-- A computation of the reader, over answers of the disk. -/
abbrev Calc := Run StorageError

variable {σ τ : Type}

/-- `?` on a `Result`. -/
def ofResult {α : Type} : Except StorageError α → Calc α
  | .ok a => .ok a
  | .error e => .error (.error e)

theorem ofResult_eq_ok {α : Type} {r : Except StorageError α} {a : α} :
    ofResult r = .ok a ↔ r = .ok a := by
  cases r with
  | ok b => rw [ofResult, Except.ok.injEq, Except.ok.injEq]
  | error e =>
    constructor
    · intro h
      cases h
    · intro h
      cases h

variable (A : Arith)

/-! ## The partition table -/

/-- `align_up`. -/
def alignUp (value align : Nat) : Calc Nat :=
  if value = 0 then return 0
  else do
    let sum ← A.add value align
    let top ← A.sub sum 1
    let low ← A.sub align 1
    return top &&& u64Not low

/-- The loop over a sector of `GptPartitions::read`. -/
def readEntries (entrySize : Nat) (sector : Sector) : (rounds offset : Nat) →
    (partitions : List GptPartition) → Calc (List GptPartition)
  | 0, _, partitions => return partitions
  | rounds + 1, offset, partitions =>
    if partitions.length ≥ maxPartitions then return partitions
    else
      let entry := (sector.toList.drop offset).take entrySize
      if isUsedEntry entry then
        if readLeU64 entry 40 < readLeU64 entry 32 then throw (.error .invalidPartitionTable)
        else do
          let distance ← A.sub (readLeU64 entry 40) (readLeU64 entry 32)
          let sectorCount ← A.add distance 1
          readEntries entrySize sector rounds (offset + entrySize)
            (partitions ++ [{ partitionOf entry with sectorCount }])
      else readEntries entrySize sector rounds (offset + entrySize) partitions

/-- What the loop over the sectors of the table has collected. -/
def tableOf (table : (Nat × List GptPartition) ⊕ Empty) : List GptPartition :=
  table.elim Prod.snd Empty.elim

/-- One round of the loop over the sectors of the table. -/
def readTableSector (device : BlockDevice) (entryLba entrySize : Nat) :
    Nat × List GptPartition → Calc ((Nat × List GptPartition) ⊕ Empty)
  | (sectorIndex, partitions) => do
    let lba ← A.add entryLba sectorIndex
    let sector ← ofResult (device.sector lba)
    let partitions ← readEntries A entrySize sector (sectorSize / entrySize) 0 partitions
    let sectorIndex ← A.add sectorIndex 1
    return .inl (sectorIndex, partitions)

/-- `GptPartitions::read`. -/
def GptPartitions.read (device : BlockDevice) : Calc (List GptPartition) := do
  let header := (← ofResult (device.sector gptHeaderLba)).toList
  if header.take 8 ≠ gptHeaderSignature then throw (.error .invalidGptHeader)
  else
    let entryLba := readLeU64 header 72
    let entryCount := readLeU32 header 80
    let entrySize := readLeU32 header 84
    if entrySize < 128 then throw (.error .invalidPartitionTable)
    else
      -- `checked_mul`, which fails before it overflows
      let tableBytes := entryCount * entrySize
      if tableBytes ≥ u64Limit then throw (.error .invalidPartitionTable)
      else
        let aligned ← alignUp A tableBytes sectorSize
        let rounds := aligned / sectorSize
        let table ← loop (readTableSector A device entryLba entrySize) rounds (0, [])
        return tableOf table

/-! ## Mounting and addressing -/

/-- `Fat32::mount`. -/
def mount (device : BlockDevice) (partition : GptPartition) : Calc Fat32 := do
  let sector := (← ofResult (device.sector partition.startLba)).toList
  let bytesPerSector := readLeU16 sector 11
  let sectorsPerCluster := (sector.getD 13 0).toNat
  let reservedSectorCount := readLeU16 sector 14
  let fatCount := (sector.getD 16 0).toNat
  let rootEntryCount := readLeU16 sector 17
  let totalSectors16 := readLeU16 sector 19
  let fatSize16 := readLeU16 sector 22
  let totalSectors32 := readLeU32 sector 32
  let sectorsPerFat := readLeU32 sector 36
  let rootCluster := readLeU32 sector 44
  if bytesPerSector ≠ sectorSize ∨ sectorsPerCluster = 0 ∨ reservedSectorCount = 0 ∨
      fatCount = 0 ∨ rootEntryCount ≠ 0 ∨ fatSize16 ≠ 0 ∨ sectorsPerFat = 0 then
    throw (.error .invalidFat32BootSector)
  else
    let totalSectors := if totalSectors16 ≠ 0 then totalSectors16 else totalSectors32
    if totalSectors = 0 ∨ totalSectors > partition.sectorCount then
      throw (.error .invalidFat32BootSector)
    else
      let firstFat ← A.add partition.startLba reservedSectorCount
      let fats ← A.mul fatCount sectorsPerFat
      let firstDataSector ← A.add firstFat fats
      return {
        device
        partitionStartLba := partition.startLba
        partitionSectorCount := partition.sectorCount
        sectorsPerCluster
        reservedSectorCount
        rootCluster
        firstDataSector }

variable (fs : Fat32)

/-- `cluster_to_lba`. -/
def clusterToLba (cluster : Nat) : Calc Nat :=
  if cluster < 2 then throw (.error .invalidFat32BootSector)
  else do
    let above ← A.sub cluster 2
    let offset ← A.mul above fs.sectorsPerCluster
    let lba ← A.add fs.firstDataSector offset
    let bound ← A.add fs.partitionStartLba fs.partitionSectorCount
    if lba ≥ bound then throw (.error .invalidFat32BootSector)
    else return lba

/-- `next_cluster`. -/
def nextCluster (cluster : Nat) : Calc Nat := do
  let fatOffset ← A.mul cluster 4
  let firstFat ← A.add fs.partitionStartLba fs.reservedSectorCount
  let fatSector ← A.add firstFat (fatOffset / sectorSize)
  let sector ← ofResult (fs.device.sector fatSector)
  let entry := readLeU32 sector.toList (fatOffset % sectorSize) &&& 0x0fffffff
  if entry = fatEntryBadCluster ∨ entry < 2 then throw (.error .invalidFat32BootSector)
  else if entry ≥ fatEntryEndOfChain then throw (.error .fileNotFound)
  else return entry

/-! ## The read loops -/

/-- What a loop does with a sector: it goes on, returns or fails. -/
abbrev Visit (σ τ : Type) := Sector → σ → σ ⊕ Except StorageError τ

/-- One round of the loop over the sectors of a cluster. -/
def scanSector (visit : Visit σ τ) (clusterLba : Nat) : Nat × σ → Calc ((Nat × σ) ⊕ τ)
  | (sectorIndex, s) => do
    let lba ← A.add clusterLba sectorIndex
    let sector ← ofResult (fs.device.sector lba)
    match visit sector s with
    | .inl s => return .inl (sectorIndex + 1, s)
    | .inr r => return .inr (← ofResult r)

/-- One round of the loop over the clusters. -/
def scanCluster (visit : Visit σ τ) : Nat × σ → Calc ((Nat × σ) ⊕ τ)
  | (cluster, s) => do
    let clusterLba ← clusterToLba A fs cluster
    match ← loop (scanSector A fs visit clusterLba) fs.sectorsPerCluster (0, s) with
    | .inl (_, s) => return .inl (← nextCluster A fs cluster, s)
    | .inr t => return .inr t

/-- The loop over the clusters, for some of them at most. -/
def scanChain (visit : Visit σ τ) (fuel cluster : Nat) (s : σ) : Calc ((Nat × σ) ⊕ τ) :=
  loop (scanCluster A fs visit) fuel (cluster, s)

/-- The entries of a sector, for a name. -/
def findVisit (shortName : List UInt8) : Visit Unit FatDirectoryEntry := fun sector _ =>
  match Fat32.findInSector shortName sector (sectorSize / fatDirectoryEntrySize) 0 with
  | .found entry => .inr (.ok entry)
  | .ended => .inr (.error .fileNotFound)
  | .next => .inl ()

/-- The names in a sector. -/
def listVisit (capacity : Nat) : Visit (List UInt8) (List UInt8) := fun sector written =>
  match Fat32.listSector capacity sector (sectorSize / fatDirectoryEntrySize) 0 written with
  | .next written => .inl written
  | .ended written => .inr (.ok written)
  | .tooSmall => .inr (.error .bufferTooSmall)

/-- The bytes of a sector that belong to a file, some of which remain. The conditions of both loops
of `read_file` are met until none does. -/
def readVisit : Visit (Nat × List UInt8) (List UInt8) := fun sector (remaining, written) =>
  let bytes := min remaining sectorSize
  if remaining - bytes = 0 then .inr (.ok (written ++ sector.toList.take bytes))
  else .inl (remaining - bytes, written ++ sector.toList.take bytes)

/-- `find_in_directory`. -/
def findInDirectory (fuel startCluster : Nat) (component : String) :
    Calc ((Nat × Unit) ⊕ FatDirectoryEntry) := do
  let shortName ← ofResult (makeShortName component)
  scanChain A fs (findVisit shortName.toList) fuel startCluster ()

/-- The loop of `read_dir`. -/
def readDirFrom (fuel startCluster capacity : Nat) :
    Calc ((Nat × List UInt8) ⊕ List UInt8) :=
  scanChain A fs (listVisit capacity) fuel startCluster []

/-- `read_file`. -/
def readFile (fuel : Nat) (entry : FatDirectoryEntry) (capacity : Nat) :
    Calc ((Nat × Nat × List UInt8) ⊕ List UInt8) :=
  if capacity < entry.size then throw (.error .bufferTooSmall)
  else if entry.size = 0 then return .inr []
  else scanChain A fs readVisit fuel entry.firstCluster (entry.size, [])

/-! ## One arithmetic and another -/

section

variable {A} {B : Arith} (h : A.Below B)

include h

theorem agrees_alignUp (value align : Nat) :
    Agrees (alignUp A value align) (alignUp B value align) := by
  rw [alignUp, alignUp]
  split_ifs
  · exact .refl _
  · exact (h.add _ _).bind fun _ => (h.sub _ _).bind fun _ =>
      (h.sub _ _).bind fun _ => .refl _

theorem agrees_readEntries (entrySize : Nat) (sector : Sector) (rounds offset : Nat)
    (partitions : List GptPartition) :
    Agrees (readEntries A entrySize sector rounds offset partitions)
      (readEntries B entrySize sector rounds offset partitions) := by
  induction rounds generalizing offset partitions with
  | zero => exact .refl _
  | succ rounds ih =>
    rw [readEntries, readEntries]
    dsimp only
    split_ifs
    · exact .refl _
    · exact .refl _
    · exact (h.sub _ _).bind fun _ => (h.add _ _).bind fun _ => ih _ _
    · exact ih _ _

theorem agrees_readTableSector (device : BlockDevice) (entryLba entrySize : Nat)
    (state : Nat × List GptPartition) :
    Agrees (readTableSector A device entryLba entrySize state)
      (readTableSector B device entryLba entrySize state) := by
  refine (h.add _ _).bind fun lba => (Agrees.refl _).bind fun sector => ?_
  exact (agrees_readEntries h _ _ _ _ _).bind fun _ => (h.add _ _).bind fun _ => .refl _

theorem agrees_clusterToLba (fs : Fat32) (cluster : Nat) :
    Agrees (clusterToLba A fs cluster) (clusterToLba B fs cluster) := by
  rw [clusterToLba, clusterToLba]
  split_ifs
  · exact .refl _
  · exact (h.sub _ _).bind fun _ => (h.mul _ _).bind fun _ =>
      (h.add _ _).bind fun _ => (h.add _ _).bind fun _ => .refl _

theorem agrees_nextCluster (fs : Fat32) (cluster : Nat) :
    Agrees (nextCluster A fs cluster) (nextCluster B fs cluster) :=
  (h.mul _ _).bind fun _ => (h.add _ _).bind fun _ =>
    (h.add _ _).bind fun _ => .refl _

theorem agrees_scanSector (fs : Fat32) (visit : Visit σ τ) (clusterLba : Nat) (state : Nat × σ) :
    Agrees (scanSector A fs visit clusterLba state) (scanSector B fs visit clusterLba state) :=
  (h.add _ _).bind fun _ => .refl _

theorem agrees_scanCluster (fs : Fat32) (visit : Visit σ τ) (state : Nat × σ) :
    Agrees (scanCluster A fs visit state) (scanCluster B fs visit state) := by
  refine (agrees_clusterToLba h fs _).bind fun clusterLba => ?_
  refine (agrees_loop (agrees_scanSector h fs visit clusterLba) _ _).bind fun r => ?_
  cases r with
  | inl s => exact (agrees_nextCluster h fs _).bind fun _ => .refl _
  | inr t => exact .refl _

end

/-! ## The wrapping arithmetic is that of the reader -/

/-- The same value or error. -/
inductive Matches {α : Type} : Calc α → Except Stop α → Prop where
  | value (a : α) : Matches (.ok a) (.ok a)
  | failure (e : StorageError) : Matches (.error (.error e)) (.error (.storage e))

/-- The same end of a loop, which may not have come to one. -/
inductive MatchesLoop : Calc (σ ⊕ τ) → Except Stop τ → Prop where
  | returned (t : τ) : MatchesLoop (.ok (.inr t)) (.ok t)
  | failure (e : StorageError) : MatchesLoop (.error (.error e)) (.error (.storage e))
  | running (s : σ) : MatchesLoop (.ok (.inl s)) (.error .outOfFuel)

/-- The arithmetic of a release build. -/
abbrev release : Arith := wrapping u64Limit

section

variable {α β : Type}

theorem Matches.bind {x : Calc α} {m : Except Stop α} {f : α → Calc β} {g : α → Except Stop β}
    (h : Matches x m) (hf : ∀ a, Matches (f a) (g a)) : Matches (x >>= f) (m >>= g) := by
  cases h with
  | value a => exact hf a
  | failure e => exact .failure e

theorem matches_ofResult (r : Except StorageError α) :
    Matches (ofResult r) (r.mapError .storage) := by
  cases r with
  | ok a => exact .value a
  | error e => exact .failure e

/-- A sequence that starts with a sector. -/
theorem matches_readSector_bind (device : BlockDevice) (lba : Nat) {f : Sector → Calc β}
    {g : Sector → DiskM β} (hg : ∀ sector, Determined (g sector))
    (h : ∀ sector, Matches (f sector) (outcome (g sector))) :
    Matches (ofResult (device.sector lba) >>= f) (outcome (device.readSector lba >>= g)) := by
  rw [outcome_bind (.readSector _ _) hg, outcome_readSector]
  exact (matches_ofResult _).bind h

end

theorem mount_wrapping (device : BlockDevice) (partition : GptPartition) :
    Matches (mount release device partition) (outcome (Fat32.mount device partition)) := by
  refine matches_readSector_bind device _ (fun sector => ?_) fun sector => ?_
  · dsimp only
    generalize (if readLeU16 sector.toList 19 ≠ 0 then readLeU16 sector.toList 19
      else readLeU32 sector.toList 32) = totalSectors
    split_ifs
    · exact .failure _
    · exact .failure _
    · exact .value _
  · dsimp only
    generalize (if readLeU16 sector.toList 19 ≠ 0 then readLeU16 sector.toList 19
      else readLeU32 sector.toList 32) = totalSectors
    split_ifs
    · exact .failure _
    · exact .failure _
    · rw [wrapping_add, ok_bind, wrapping_mul, ok_bind, wrapping_add, ok_bind, Nat.add_mod_mod]
      exact .value _

section

variable (fs : Fat32)

theorem clusterToLba_wrapping (cluster : Nat) :
    clusterToLba release fs cluster = ofResult (fs.clusterToLba cluster) := by
  rw [clusterToLba, Fat32.clusterToLba]
  dsimp only
  by_cases hsmall : cluster < 2
  · rw [if_pos hsmall, if_pos hsmall]
    rfl
  · rw [if_neg hsmall, if_neg hsmall, wrapping_sub (by omega), ok_bind, wrapping_mul, ok_bind,
      Nat.mod_mul_mod, wrapping_add, ok_bind, wrapping_add, ok_bind, ← wrap64, ← wrap64, ← wrap64]
    split_ifs
    · rfl
    · rfl

theorem nextCluster_wrapping {cluster : Nat} (hcluster : cluster < 2 ^ 32) :
    Matches (nextCluster release fs cluster) (outcome (fs.nextCluster cluster)) := by
  have hoffset : cluster * 4 % u64Limit = cluster * 4 := by
    rw [u64Limit]
    omega
  rw [nextCluster, wrapping_mul, ok_bind, hoffset, wrapping_add, ok_bind, wrapping_add, ok_bind,
    Fat32.nextCluster]
  refine matches_readSector_bind _ _ (fun sector => ?_) fun sector => ?_
  · dsimp only
    split_ifs
    · exact .failure _
    · exact .failure _
    · exact .value _
  · dsimp only
    split_ifs
    · exact .failure _
    · exact .failure _
    · exact .value _

/-! ### The loops -/

/-- The loop over the sectors of a cluster without their numbers. -/
def withoutIndex : (Nat × σ) ⊕ τ → σ ⊕ τ := Sum.map Prod.snd id

/-- What the reader's two loops do is told by `visit`, from states with `valid`. -/
structure Follows (visit : Visit σ τ) (valid : σ → Prop)
    (sectors : (clusterLba rounds sectorIndex : Nat) → σ → Except Stop (σ ⊕ τ))
    (chain : (fuel cluster : Nat) → σ → Except Stop τ) : Prop where
  stays : ∀ sector s s', valid s → visit sector s = .inl s' → valid s'
  sectors_zero : ∀ clusterLba i s, valid s → sectors clusterLba 0 i s = .ok (.inl s)
  sectors_succ : ∀ clusterLba rounds i s, valid s → sectors clusterLba (rounds + 1) i s =
    (fs.device.sector (wrap64 (clusterLba + i))).mapError .storage >>= fun sector =>
      match visit sector s with
      | .inl s' => sectors clusterLba rounds (i + 1) s'
      | .inr r => (r.map Sum.inr).mapError .storage
  chain_zero : ∀ cluster s, chain 0 cluster s = .error .outOfFuel
  chain_succ : ∀ fuel cluster s, valid s → chain (fuel + 1) cluster s =
    (fs.clusterToLba cluster).mapError .storage >>= fun clusterLba =>
      sectors clusterLba fs.sectorsPerCluster 0 s >>= fun
        | .inl s' => outcome (fs.nextCluster cluster) >>= fun next => chain fuel next s'
        | .inr t => .ok t

variable {visit : Visit σ τ} {valid : σ → Prop}
  {sectors : (clusterLba rounds sectorIndex : Nat) → σ → Except Stop (σ ⊕ τ)}
  {chain : (fuel cluster : Nat) → σ → Except Stop τ}

theorem Follows.sectors_wrapping (h : Follows fs visit valid sectors chain)
    (clusterLba rounds i : Nat) {s : σ} (hs : valid s) :
    Matches (withoutIndex <$> loop (scanSector release fs visit clusterLba) rounds (i, s))
      (sectors clusterLba rounds i s) := by
  induction rounds generalizing i s with
  | zero =>
    rw [h.sectors_zero _ _ _ hs]
    exact .value _
  | succ rounds ih =>
    rw [h.sectors_succ _ _ _ _ hs, loop, scanSector, wrapping_add, ok_bind, ← wrap64]
    cases fs.device.sector (wrap64 (clusterLba + i)) with
    | error e => exact .failure _
    | ok sector =>
      show Matches
        (withoutIndex <$> ((match visit sector s with | .inl s => _ | .inr r => _) >>= _))
        (match visit sector s with | .inl s' => _ | .inr r => _)
      cases hvisit : visit sector s with
      | inl s' => exact ih (i + 1) (h.stays _ _ _ hs hvisit)
      | inr r =>
        cases r with
        | ok t => exact .value _
        | error e => exact .failure _

theorem Follows.valid_of_sectors (h : Follows fs visit valid sectors chain)
    {clusterLba rounds i : Nat} {s s' : σ} (hs : valid s)
    (hend : sectors clusterLba rounds i s = .ok (.inl s')) : valid s' := by
  induction rounds generalizing i s with
  | zero =>
    rw [h.sectors_zero _ _ _ hs] at hend
    cases hend
    exact hs
  | succ rounds ih =>
    rw [h.sectors_succ _ _ _ _ hs] at hend
    cases hsector : fs.device.sector (wrap64 (clusterLba + i)) with
    | error e =>
      rw [hsector] at hend
      cases hend
    | ok sector =>
      rw [hsector] at hend
      change (match visit sector s with | .inl s' => _ | .inr r => _) = _ at hend
      cases hvisit : visit sector s with
      | inl m =>
        rw [hvisit] at hend
        exact ih (h.stays _ _ _ hs hvisit) hend
      | inr r =>
        rw [hvisit] at hend
        cases r with
        | ok t => cases hend
        | error e => cases hend

theorem Follows.chain_wrapping (h : Follows fs visit valid sectors chain) (fuel : Nat)
    {cluster : Nat} (hcluster : cluster < 2 ^ 32) {s : σ} (hs : valid s) :
    MatchesLoop (scanChain release fs visit fuel cluster s) (chain fuel cluster s) := by
  induction fuel generalizing cluster s with
  | zero =>
    rw [h.chain_zero]
    exact .running _
  | succ fuel ih =>
    rw [h.chain_succ _ _ _ hs, scanChain, loop, scanCluster, clusterToLba_wrapping]
    cases fs.clusterToLba cluster with
    | error e => exact .failure _
    | ok clusterLba =>
      have hsectors := h.sectors_wrapping fs clusterLba fs.sectorsPerCluster 0 hs
      have hvalid : ∀ s', sectors clusterLba fs.sectorsPerCluster 0 s = .ok (.inl s') → valid s' :=
        fun s' => h.valid_of_sectors fs hs
      show MatchesLoop ((loop (scanSector release fs visit clusterLba) _ _ >>= _) >>= _)
        (sectors clusterLba fs.sectorsPerCluster 0 s >>= _)
      generalize loop (scanSector release fs visit clusterLba) fs.sectorsPerCluster (0, s) = x
        at hsectors ⊢
      generalize sectors clusterLba fs.sectorsPerCluster 0 s = o at hsectors hvalid ⊢
      cases x with
      | error e =>
        cases e with
        | error e =>
          have ho : Matches (.error (.error e)) o := hsectors
          cases ho
          exact .failure _
        | overflow =>
          have ho : Matches (.error .overflow) o := hsectors
          cases ho
      | ok r =>
        cases r with
        | inr t =>
          have ho : Matches (.ok (.inr t)) o := hsectors
          cases ho
          exact .returned _
        | inl r =>
          have ho : Matches (.ok (.inl r.2)) o := hsectors
          cases ho
          have hnext := nextCluster_wrapping fs hcluster
          have hlt : ∀ next, outcome (fs.nextCluster cluster) = .ok next → next < 2 ^ 32 :=
            fun next hok => (fs.outcome_nextCluster_eq_ok.mp hok).2.2.trans (by decide)
          show MatchesLoop ((nextCluster release fs cluster >>= _) >>= _)
            (outcome (fs.nextCluster cluster) >>= _)
          generalize nextCluster release fs cluster = y at hnext ⊢
          generalize outcome (fs.nextCluster cluster) = o at hnext hlt ⊢
          cases hnext with
          | value next => exact ih (hlt next rfl) (hvalid r.2 rfl)
          | failure e => exact .failure _

theorem follows_find (shortName : List UInt8) : Follows fs (findVisit shortName) (fun _ => True)
    (fun clusterLba rounds i _ => outcome (fs.findInCluster shortName clusterLba rounds i) >>= fun
      | some entry => .ok (.inr entry)
      | none => .ok (.inl ()))
    (fun fuel cluster _ => outcome (fs.findInChain shortName fuel cluster)) where
  stays _ _ _ _ _ := trivial
  sectors_zero _ _ _ _ := rfl
  sectors_succ clusterLba rounds i s _ := by
    rw [fs.outcome_findInCluster_succ]
    cases fs.device.sector (wrap64 (clusterLba + i)) with
    | error e => rfl
    | ok sector =>
      simp only [findVisit, Except.mapError, bind, Except.bind]
      cases Fat32.findInSector shortName sector (sectorSize / fatDirectoryEntrySize) 0 with
      | found entry => rfl
      | ended => rfl
      | next => rfl
  chain_zero _ _ := rfl
  chain_succ fuel cluster s _ := by
    rw [fs.outcome_findInChain_succ]
    cases fs.clusterToLba cluster with
    | error e => rfl
    | ok clusterLba =>
      show outcome _ >>= _ = (outcome _ >>= _) >>= _
      cases outcome (fs.findInCluster shortName clusterLba fs.sectorsPerCluster 0) with
      | error e => rfl
      | ok found =>
        cases found with
        | some entry => rfl
        | none => rfl

theorem follows_list (capacity : Nat) : Follows fs (listVisit capacity) (fun _ => True)
    (fun clusterLba rounds i written =>
      outcome (fs.listCluster capacity clusterLba rounds i written) >>= fun
        | .next written => .ok (.inl written)
        | .ended written => .ok (.inr written)
        | .tooSmall => .error (.storage .bufferTooSmall))
    (fun fuel cluster written => outcome (fs.listChain capacity fuel cluster written)) where
  stays _ _ _ _ _ := trivial
  sectors_zero _ _ _ _ := rfl
  sectors_succ clusterLba rounds i written _ := by
    rw [Fat32.listCluster, outcome_readSector_bind]
    · cases fs.device.sector (wrap64 (clusterLba + i)) with
      | error e => rfl
      | ok sector =>
        simp only [listVisit, Except.mapError, bind, Except.bind]
        cases Fat32.listSector capacity sector (sectorSize / fatDirectoryEntrySize) 0 written with
        | next written => rfl
        | ended written => rfl
        | tooSmall => rfl
    · intro sector
      split
      · exact fs.determined_listCluster _ _ _ _ _
      · exact .value _
  chain_zero _ _ := rfl
  chain_succ fuel cluster written _ := by
    rw [fs.outcome_listChain_succ]
    cases fs.clusterToLba cluster with
    | error e => rfl
    | ok clusterLba =>
      show outcome _ >>= _ = (outcome _ >>= _) >>= _
      cases outcome (fs.listCluster capacity clusterLba fs.sectorsPerCluster 0 written) with
      | error e => rfl
      | ok listing =>
        cases listing with
        | next written => rfl
        | ended written => rfl
        | tooSmall => rfl

/-- Nothing is read once nothing remains. -/
theorem readCluster_done (clusterLba rounds i : Nat) (written : List UInt8) :
    fs.readCluster clusterLba rounds i 0 written = pure (0, written) := by
  cases rounds with
  | zero => rfl
  | succ rounds => rw [Fat32.readCluster, if_pos rfl]

theorem follows_read : Follows fs readVisit (fun s => 0 < s.1)
    (fun clusterLba rounds i s => outcome (fs.readCluster clusterLba rounds i s.1 s.2) >>= fun r =>
      if r.1 = 0 then .ok (.inr r.2) else .ok (.inl r))
    (fun fuel cluster s => outcome (fs.readChain fuel cluster s.1 s.2)) where
  stays sector s s' _ h := by
    simp only [readVisit] at h
    split_ifs at h with hdone
    cases h
    exact Nat.pos_of_ne_zero hdone
  sectors_zero clusterLba i s hs := if_neg (Nat.ne_of_gt hs)
  sectors_succ clusterLba rounds i s hs := by
    rw [Fat32.readCluster, if_neg (Nat.ne_of_gt hs),
      outcome_readSector_bind _ _ fun _ => fs.determined_readCluster _ _ _ _ _]
    cases fs.device.sector (wrap64 (clusterLba + i)) with
    | error e => rfl
    | ok sector =>
      simp only [readVisit, Except.mapError, bind, Except.bind]
      split_ifs with hdone
      · rw [hdone, readCluster_done]
        rfl
      · rfl
  chain_zero _ _ := rfl
  chain_succ fuel cluster s hs := by
    rw [fs.outcome_readChain_succ hs]
    cases fs.clusterToLba cluster with
    | error e => rfl
    | ok clusterLba =>
      show outcome _ >>= _ = (outcome _ >>= _) >>= _
      cases outcome (fs.readCluster clusterLba fs.sectorsPerCluster 0 s.1 s.2) with
      | error e => rfl
      | ok r =>
        simp only [bind, Except.bind]
        split_ifs
        · rfl
        · rfl

theorem findInDirectory_wrapping (fuel : Nat) {startCluster : Nat} (hstart : startCluster < 2 ^ 32)
    (component : String) : MatchesLoop (findInDirectory release fs fuel startCluster component)
      (outcome (fs.findInDirectory fuel startCluster component)) := by
  rw [findInDirectory, Fat32.findInDirectory, outcome_liftResult_bind]
  cases makeShortName component with
  | error e => exact .failure _
  | ok shortName => exact (follows_find fs shortName.toList).chain_wrapping fs fuel hstart trivial

theorem readDirFrom_wrapping (fuel : Nat) {startCluster : Nat} (hstart : startCluster < 2 ^ 32)
    (capacity : Nat) : MatchesLoop (readDirFrom release fs fuel startCluster capacity)
      (outcome (fs.listChain capacity fuel startCluster [])) :=
  (follows_list fs capacity).chain_wrapping fs fuel hstart trivial

theorem readFile_wrapping (fuel : Nat) {entry : FatDirectoryEntry}
    (hstart : entry.firstCluster < 2 ^ 32) (capacity : Nat) :
    MatchesLoop (readFile release fs (fuel + 1) entry capacity)
      (outcome (fs.readFile (fuel + 1) entry capacity)) := by
  rw [readFile, Fat32.readFile]
  split_ifs with hroom hempty
  · exact .failure _
  · rw [hempty, Fat32.readChain, if_pos rfl]
    exact .returned _
  · exact (follows_read fs).chain_wrapping fs (fuel + 1) hstart (Nat.pos_of_ne_zero hempty)

end

/-! ### The table -/

theorem readEntries_wrapping (entrySize : Nat) (sector : Sector) (rounds offset : Nat)
    (partitions : List GptPartition) :
    readEntries release entrySize sector rounds offset partitions =
      ofResult (Storage.readEntries entrySize sector rounds offset partitions) := by
  induction rounds generalizing offset partitions with
  | zero => rfl
  | succ rounds ih =>
    rw [readEntries, Storage.readEntries]
    dsimp only
    split_ifs with hfull hused hbad
    · rfl
    · rfl
    · rw [wrapping_sub (Nat.le_of_not_lt hbad), ok_bind, wrapping_add, ok_bind, Nat.mod_add_mod]
      exact ih _ _
    · exact ih _ _

theorem readTable_wrapping (device : BlockDevice) (entryLba entrySize : Nat)
    {rounds sectorIndex : Nat} (hindex : sectorIndex + rounds < u64Limit)
    (partitions : List GptPartition) :
    Matches (tableOf <$> loop (readTableSector release device entryLba entrySize) rounds
      (sectorIndex, partitions))
      (outcome (readTable device entryLba entrySize rounds sectorIndex partitions)) := by
  induction rounds generalizing sectorIndex partitions with
  | zero => exact .value _
  | succ rounds ih =>
    rw [outcome_readTable_succ, loop, readTableSector, wrapping_add, ok_bind, ← wrap64]
    cases device.sector (wrap64 (entryLba + sectorIndex)) with
    | error e => exact .failure _
    | ok sector =>
      show Matches (tableOf <$> ((readEntries release _ _ _ _ _ >>= _) >>= _)) _
      rw [readEntries_wrapping]
      dsimp only
      cases Storage.readEntries entrySize sector (sectorSize / entrySize) 0 partitions with
      | error e => exact .failure _
      | ok partitions =>
        rw [ofResult, ok_bind, wrapping_add, ok_bind, Nat.mod_eq_of_lt (by omega)]
        exact ih (by omega) partitions

theorem tableBytes_lt {entryCount entrySize : Nat} (hcount : entryCount < 2 ^ 32)
    (hsize : entrySize < 2 ^ 32) : entryCount * entrySize + sectorSize < u64Limit := by
  have hmul : entryCount * entrySize ≤ (2 ^ 32 - 1) * (2 ^ 32 - 1) :=
    Nat.mul_le_mul (by omega) (by omega)
  rw [u64Limit, sectorSize]
  omega

theorem alignUp_wrapping {value : Nat} (hvalue : value + sectorSize < u64Limit) :
    alignUp release value sectorSize = .ok (Lazers.alignUp value sectorSize) := by
  rw [alignUp, Lazers.alignUp]
  split_ifs with hzero
  · rfl
  · have hpos : 1 ≤ value + sectorSize := by omega
    rw [wrapping_add, ok_bind, Nat.mod_eq_of_lt hvalue, wrapping_sub hpos, ok_bind,
      wrapping_sub (by decide), ok_bind]
    rfl

theorem read_wrapping (device : BlockDevice) :
    Matches (GptPartitions.read release device)
      (outcome (Storage.GptPartitions.read device)) := by
  refine matches_readSector_bind device _ (fun header => ?_) fun header => ?_
  · dsimp only
    split_ifs
    · exact .failure _
    · exact .failure _
    · exact .failure _
    · exact determined_readTable _ _ _
  · dsimp only
    have hwidth : ∀ offset, readLeU32 header.toList offset < 2 ^ 32 := fun _ => readLe_lt _ _ 4
    have hbytes := tableBytes_lt (hwidth 80) (hwidth 84)
    split_ifs with hsigned hsize hlarge
    · exact .failure _
    · exact .failure _
    · exact .failure _
    · rw [alignUp_wrapping hbytes, ok_bind, bind_pure_comp]
      refine readTable_wrapping device _ _ ?_ []
      have hcount := tableSectors_le (hwidth 80) (hwidth 84)
      rw [(tableSectors_eq (hwidth 80) (hwidth 84)).1, u64Limit]
      omega

end Lazers.Storage.Overflow
