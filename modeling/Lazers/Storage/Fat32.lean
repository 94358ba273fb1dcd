import Lazers.Lib.Triple
import Lazers.LzUtil
import Lazers.Storage.Path

/-!
# The FAT32 reader (`storage/fat32.rs`)

A mounted filesystem reads sectors of its device, follows cluster chains through the
file allocation table and compares short names. The device is whatever answers
`readSector`, always the same way; `DiskM` records which sectors were asked for.

The loops over a cluster chain have no bound of their own: a cyclic table keeps them
running. They take fuel here, and `Stop.outOfFuel` says that they have not returned yet.
-/

namespace Lazers.Storage

open FixedArray

def sectorSize : Nat := 512
def fatDirectoryEntrySize : Nat := 32
def fatAttributeDirectory : Nat := 1 <<< 4
def fatAttributeVolumeId : Nat := 1 <<< 3
def fatAttributeLongName : Nat := 0x0f
def fatEntryEndOfChain : Nat := 0x0ffffff8
def fatEntryBadCluster : Nat := 0x0ffffff7

abbrev Sector := Vector UInt8 sectorSize

/-- A block device: what it answers for each sector. -/
structure BlockDevice where
  sector : Nat → Except StorageError Sector

/-- Why a disk operation ended without a value. -/
inductive Stop where
  | storage (error : StorageError)
  | outOfFuel
deriving DecidableEq, Repr

/-- A disk operation, over the list of sectors read so far. -/
abbrev DiskM := EStateM Stop (List Nat)

/-- `BlockDevice::read_sector`. -/
def BlockDevice.readSector (device : BlockDevice) (lba : Nat) : DiskM Sector := fun log =>
  match device.sector lba with
  | .ok sector => .ok sector (log ++ [lba])
  | .error e => .error (.storage e) (log ++ [lba])

/-- `?` on a `Result`. -/
def liftResult {α : Type} : Except StorageError α → DiskM α
  | .ok a => pure a
  | .error e => throw (.storage e)

structure GptPartition where
  typeGuid : List UInt8
  startLba : Nat
  sectorCount : Nat
  name : List Nat
deriving DecidableEq, Repr

structure Fat32 where
  device : BlockDevice
  partitionStartLba : Nat
  partitionSectorCount : Nat
  sectorsPerCluster : Nat
  reservedSectorCount : Nat
  rootCluster : Nat
  firstDataSector : Nat

structure FatDirectoryEntry where
  firstCluster : Nat
  size : Nat
  isDirectory : Bool
deriving DecidableEq, Repr

inductive FatResolvedPath where
  | rootDirectory
  | directory (cluster : Nat)
  | file (entry : FatDirectoryEntry)
deriving DecidableEq, Repr

/-! ## Short names -/

/-- `byte.is_ascii_alphanumeric()`. -/
def isAsciiAlphanumeric (byte : UInt8) : Bool :=
  (48 ≤ byte ∧ byte ≤ 57) ∨ (65 ≤ byte ∧ byte ≤ 90) ∨ (97 ≤ byte ∧ byte ≤ 122)

/-- `byte.to_ascii_uppercase()`. -/
def toAsciiUppercase (byte : UInt8) : UInt8 :=
  if 97 ≤ byte ∧ byte ≤ 122 then byte - 32 else byte

/-- `normalize_fat_byte`. -/
def normalizeFatByte (byte : UInt8) : Except StorageError UInt8 :=
  if isAsciiAlphanumeric byte then .ok (toAsciiUppercase byte)
  -- $ % ' - _ @ ~ ` ! ( ) { } ^ # &
  else if byte ∈ [36, 37, 39, 45, 95, 64, 126, 96, 33, 40, 41, 123, 125, 94, 35, 38] then .ok byte
  else .error .invalidShortName

/-- `make_short_name`. -/
def makeShortName (component : String) : Except StorageError (Vector UInt8 11) := do
  match split component '.' with
  | [] => throw .invalidShortName
  | name :: parts =>
    if 2 ≤ parts.length ∨ name = "" ∨ (strBytes name).length > 8 then throw .invalidShortName
    else
      let nameBytes ← (strBytes name).mapM normalizeFatByte
      let shortName := writeAt (Vector.replicate 11 32) 0 nameBytes
      match parts.head? with
      | none => return shortName
      | some ext =>
        if ext = "" ∨ (strBytes ext).length > 3 then throw .invalidShortName
        else
          let extBytes ← (strBytes ext).mapM normalizeFatByte
          return writeAt shortName 8 extBytes

example : (makeShortName "cat.txt").toOption.map Vector.toList = some (strBytes "CAT     TXT") := by
  decide +kernel

/-- The loop that drops trailing spaces: how many of the first `len` bytes are left. -/
def trimmedLen (field : List UInt8) : (len : Nat) → Nat
  | 0 => 0
  | len + 1 => if field.getD len 0 = 32 then trimmedLen field len else len + 1

/-- `display_short_name`: the filled part of `bytes`. -/
def displayShortName (entry : List UInt8) : List UInt8 :=
  let nameLen := trimmedLen entry 8
  let extensionLen := trimmedLen (entry.drop 8) 3
  entry.take nameLen ++
    if extensionLen ≠ 0 then 46 :: (entry.drop 8).take extensionLen else []

/-- `is_dot_entry`. -/
def isDotEntry (name : List UInt8) : Bool := name = [46] ∨ name = [46, 46]

example : displayShortName (strBytes "CAT     TXT") = strBytes "CAT.TXT" := by decide +kernel

namespace Fat32

/-! ## Mounting and addressing -/

/-- `Fat32::mount`. -/
def mount (device : BlockDevice) (partition : GptPartition) : DiskM Fat32 := do
  let sector := (← device.readSector partition.startLba).toList
  let bytesPerSector := readLeU16 sector 11
  let sectorsPerCluster := (sector.getD 13 0).toNat
  let reservedSectorCount := readLeU16 sector 14
  let fatCount := (sector.getD 16 0).toNat
  let rootEntryCount := readLeU16 sector 17
  let totalSectors16 := readLeU16 sector 19
  let fatSize16 := readLeU16 sector 22
  let totalSectors32 := readLeU32 sector 32
  let sectorsPerFat := readLeU32 sector 36
  let rootCluster := readLeU32 sector 44
  if bytesPerSector ≠ sectorSize ∨ sectorsPerCluster = 0 ∨ reservedSectorCount = 0 ∨
      fatCount = 0 ∨ rootEntryCount ≠ 0 ∨ fatSize16 ≠ 0 ∨ sectorsPerFat = 0 then
    throw (.storage .invalidFat32BootSector)
  else
    let totalSectors := if totalSectors16 ≠ 0 then totalSectors16 else totalSectors32
    if totalSectors = 0 ∨ totalSectors > partition.sectorCount then
      throw (.storage .invalidFat32BootSector)
    else
      return {
        device
        partitionStartLba := partition.startLba
        partitionSectorCount := partition.sectorCount
        sectorsPerCluster
        reservedSectorCount
        rootCluster
        firstDataSector := wrap64 (wrap64 (partition.startLba + reservedSectorCount) +
          fatCount * sectorsPerFat) }

variable (fs : Fat32)

/-- `cluster_to_lba`. -/
def clusterToLba (cluster : Nat) : Except StorageError Nat :=
  if cluster < 2 then .error .invalidFat32BootSector
  else
    let offset := wrap64 ((cluster - 2) * fs.sectorsPerCluster)
    let lba := wrap64 (fs.firstDataSector + offset)
    if lba ≥ wrap64 (fs.partitionStartLba + fs.partitionSectorCount) then
      .error .invalidFat32BootSector
    else .ok lba

/-- `next_cluster`. -/
def nextCluster (cluster : Nat) : DiskM Nat := do
  let fatOffset := cluster * 4
  let fatSector :=
    wrap64 (wrap64 (fs.partitionStartLba + fs.reservedSectorCount) + fatOffset / sectorSize)
  let sector ← fs.device.readSector fatSector
  let entry := readLeU32 sector.toList (fatOffset % sectorSize) &&& 0x0fffffff
  if entry = fatEntryBadCluster ∨ entry < 2 then throw (.storage .invalidFat32BootSector)
  else if entry ≥ fatEntryEndOfChain then throw (.storage .fileNotFound)
  else return entry

/-! ## Looking a name up -/

/-- What a directory sector says about a name. -/
inductive Scan where
  | found (entry : FatDirectoryEntry)
  | ended
  | next
deriving DecidableEq, Repr

/-- The loop over the entries of a sector. -/
def findInSector (shortName : List UInt8) (sector : Sector) : (rounds entryOffset : Nat) → Scan
  | 0, _ => .next
  | rounds + 1, entryOffset =>
    let entry := (sector.toList.drop entryOffset).take fatDirectoryEntrySize
    let firstByte := entry.getD 0 0
    let attributes := (entry.getD 11 0).toNat
    if firstByte = 0x00 then .ended
    else if firstByte = 0xe5 then
      findInSector shortName sector rounds (entryOffset + fatDirectoryEntrySize)
    else if attributes = fatAttributeLongName ∨ attributes &&& fatAttributeVolumeId ≠ 0 then
      findInSector shortName sector rounds (entryOffset + fatDirectoryEntrySize)
    else if entry.take 11 = shortName then
      .found {
        firstCluster := (readLeU16 entry 20 <<< 16) ||| readLeU16 entry 26
        size := readLeU32 entry 28
        isDirectory := attributes &&& fatAttributeDirectory ≠ 0 }
    else findInSector shortName sector rounds (entryOffset + fatDirectoryEntrySize)

/-- The loop over the sectors of a cluster. -/
def findInCluster (shortName : List UInt8) (clusterLba : Nat) : (rounds sectorIndex : Nat) →
    DiskM (Option FatDirectoryEntry)
  | 0, _ => return none
  | rounds + 1, sectorIndex => do
    let sector ← fs.device.readSector (wrap64 (clusterLba + sectorIndex))
    match findInSector shortName sector (sectorSize / fatDirectoryEntrySize) 0 with
    | .found entry => return some entry
    | .ended => throw (.storage .fileNotFound)
    | .next => findInCluster shortName clusterLba rounds (sectorIndex + 1)

/-- The loop over the clusters of a directory. -/
def findInChain (shortName : List UInt8) : (fuel cluster : Nat) → DiskM FatDirectoryEntry
  | 0, _ => throw .outOfFuel
  | fuel + 1, cluster => do
    let clusterLba ← liftResult (fs.clusterToLba cluster)
    match ← fs.findInCluster shortName clusterLba fs.sectorsPerCluster 0 with
    | some entry => return entry
    | none => findInChain shortName fuel (← fs.nextCluster cluster)

/-- `find_in_directory`. -/
def findInDirectory (fuel startCluster : Nat) (component : String) : DiskM FatDirectoryEntry := do
  let shortName ← liftResult (makeShortName component)
  fs.findInChain shortName.toList fuel startCluster

/-- The loop of `resolve_absolute`, on the components that are left. -/
def resolveFrom (fuel : Nat) : (components : List String) → (currentCluster : Nat) →
    DiskM FatResolvedPath
  | [], _ => throw (.storage .fileNotFound)
  | component :: rest, currentCluster => do
    let entry ← fs.findInDirectory fuel currentCluster component
    if rest = [] then
      if entry.isDirectory then return .directory entry.firstCluster
      else return .file entry
    else if entry.isDirectory = false then throw (.storage .fileNotFound)
    else resolveFrom fuel rest entry.firstCluster

/-- `resolve_absolute`. -/
def resolveAbsolute (fuel : Nat) (path : String) : DiskM FatResolvedPath :=
  if startsWith path '/' = false then throw (.storage .pathNotAbsolute)
  else
    match (split path '/').filter (· ≠ "") with
    | [] => return .rootDirectory
    | components => fs.resolveFrom fuel components fs.rootCluster

/-- `open_absolute`. -/
def openAbsolute (fuel : Nat) (path : String) : DiskM FatDirectoryEntry := do
  match ← fs.resolveAbsolute fuel path with
  | .file entry => return entry
  | .rootDirectory | .directory _ => throw (.storage .notAFile)

/-- `ensure_dir`. -/
def ensureDir (fuel : Nat) (path : String) : DiskM Unit := do
  match ← fs.resolveAbsolute fuel path with
  | .rootDirectory | .directory _ => return ()
  | .file _ => throw (.storage .notADirectory)

/-! ## Reading a file -/

/-- The loop over the sectors of a cluster: the bytes that remain, and the filled part of the
buffer. -/
def readCluster (clusterLba : Nat) : (rounds sectorIndex remaining : Nat) →
    (written : List UInt8) → DiskM (Nat × List UInt8)
  | 0, _, remaining, written => return (remaining, written)
  | rounds + 1, sectorIndex, remaining, written =>
    if remaining = 0 then return (remaining, written)
    else do
      let sector ← fs.device.readSector (wrap64 (clusterLba + sectorIndex))
      let bytes := min remaining sectorSize
      readCluster clusterLba rounds (sectorIndex + 1) (remaining - bytes)
        (written ++ sector.toList.take bytes)

/-- The loop over the clusters of a file. -/
def readChain : (fuel cluster remaining : Nat) → (written : List UInt8) → DiskM (List UInt8)
  | 0, _, _, _ => throw .outOfFuel
  | fuel + 1, cluster, remaining, written =>
    if remaining = 0 then return written
    else do
      let clusterLba ← liftResult (fs.clusterToLba cluster)
      let (remaining, written) ←
        fs.readCluster clusterLba fs.sectorsPerCluster 0 remaining written
      if remaining = 0 then return written
      else readChain fuel (← fs.nextCluster cluster) remaining written

/-- `read_file` into a buffer of `capacity` bytes: the filled part. -/
def readFile (fuel : Nat) (entry : FatDirectoryEntry) (capacity : Nat) : DiskM (List UInt8) :=
  if capacity < entry.size then throw (.storage .bufferTooSmall)
  else fs.readChain fuel entry.firstCluster entry.size []

/-! ## Listing a directory -/

/-- Where the listing stands: the filled part of the buffer, unless a name did not fit. -/
inductive Listing where
  | ended (written : List UInt8)
  | tooSmall
  | next (written : List UInt8)
deriving DecidableEq, Repr

/-- The loop over the entries of a sector. -/
def listSector (capacity : Nat) (sector : Sector) : (rounds entryOffset : Nat) →
    (written : List UInt8) → Listing
  | 0, _, written => .next written
  | rounds + 1, entryOffset, written =>
    let entry := (sector.toList.drop entryOffset).take fatDirectoryEntrySize
    let firstByte := entry.getD 0 0
    let attributes := (entry.getD 11 0).toNat
    if firstByte = 0x00 then .ended written
    else if firstByte = 0xe5 then
      listSector capacity sector rounds (entryOffset + fatDirectoryEntrySize) written
    else if attributes = fatAttributeLongName ∨ attributes &&& fatAttributeVolumeId ≠ 0 then
      listSector capacity sector rounds (entryOffset + fatDirectoryEntrySize) written
    else
      let displayName := displayShortName (entry.take 11)
      if isDotEntry displayName then
        listSector capacity sector rounds (entryOffset + fatDirectoryEntrySize) written
      else
        let required := displayName.length + 1
        if written.length + required > capacity then .tooSmall
        else listSector capacity sector rounds (entryOffset + fatDirectoryEntrySize)
          (written ++ displayName ++ [10])

/-- The loop over the sectors of a cluster. -/
def listCluster (capacity clusterLba : Nat) : (rounds sectorIndex : Nat) →
    (written : List UInt8) → DiskM Listing
  | 0, _, written => return .next written
  | rounds + 1, sectorIndex, written => do
    let sector ← fs.device.readSector (wrap64 (clusterLba + sectorIndex))
    match listSector capacity sector (sectorSize / fatDirectoryEntrySize) 0 written with
    | .next written => listCluster capacity clusterLba rounds (sectorIndex + 1) written
    | stop => return stop

/-- The loop over the clusters of a directory. -/
def listChain (capacity : Nat) : (fuel cluster : Nat) → (written : List UInt8) →
    DiskM (List UInt8)
  | 0, _, _ => throw .outOfFuel
  | fuel + 1, cluster, written => do
    let clusterLba ← liftResult (fs.clusterToLba cluster)
    match ← fs.listCluster capacity clusterLba fs.sectorsPerCluster 0 written with
    | .ended written => return written
    | .tooSmall => throw (.storage .bufferTooSmall)
    | .next written => listChain capacity fuel (← fs.nextCluster cluster) written

/-- The first cluster of the directory a path resolved to. -/
def directoryCluster : FatResolvedPath → Except StorageError Nat
  | .rootDirectory => .ok fs.rootCluster
  | .directory cluster => .ok cluster
  | .file _ => .error .notADirectory

/-- `read_dir` into a buffer of `capacity` bytes: the filled part. -/
def readDir (fuel : Nat) (path : String) (capacity : Nat) : DiskM (List UInt8) := do
  let startCluster ← liftResult (fs.directoryCluster (← fs.resolveAbsolute fuel path))
  fs.listChain capacity fuel startCluster []

/-! ## Fuel -/

theorem findInChain_prolongs (shortName : List UInt8) {fuel fuel' : Nat} (h : fuel ≤ fuel')
    (cluster : Nat) : EStateM.Prolongs Stop.outOfFuel (fs.findInChain shortName fuel cluster)
      (fs.findInChain shortName fuel' cluster) := by
  induction fuel generalizing fuel' cluster with
  | zero => exact fun log => .inr ⟨log, rfl⟩
  | succ fuel ih =>
    obtain ⟨fuel', rfl⟩ := Nat.exists_eq_succ_of_ne_zero (n := fuel') (by omega)
    refine (EStateM.Prolongs.refl _).bind fun clusterLba => ?_
    refine (EStateM.Prolongs.refl _).bind fun found => ?_
    cases found with
    | some entry => exact .refl _
    | none => exact (EStateM.Prolongs.refl _).bind fun next => ih (by omega) next

theorem findInDirectory_prolongs {fuel fuel' : Nat} (h : fuel ≤ fuel') (cluster : Nat)
    (component : String) : EStateM.Prolongs Stop.outOfFuel
      (fs.findInDirectory fuel cluster component) (fs.findInDirectory fuel' cluster component) :=
  (EStateM.Prolongs.refl _).bind fun _ => fs.findInChain_prolongs _ h cluster

theorem resolveFrom_prolongs {fuel fuel' : Nat} (h : fuel ≤ fuel') (components : List String)
    (cluster : Nat) : EStateM.Prolongs Stop.outOfFuel (fs.resolveFrom fuel components cluster)
      (fs.resolveFrom fuel' components cluster) := by
  induction components generalizing cluster with
  | nil => exact .refl _
  | cons component rest ih =>
    refine (fs.findInDirectory_prolongs h cluster component).bind fun entry => ?_
    split_ifs
    · exact .refl _
    · exact .refl _
    · exact .refl _
    · exact ih entry.firstCluster

theorem resolveAbsolute_prolongs {fuel fuel' : Nat} (h : fuel ≤ fuel') (path : String) :
    EStateM.Prolongs Stop.outOfFuel (fs.resolveAbsolute fuel path)
      (fs.resolveAbsolute fuel' path) := by
  rw [resolveAbsolute, resolveAbsolute]
  split_ifs
  · exact .refl _
  · split
    · exact .refl _
    · exact fs.resolveFrom_prolongs h _ _

/-- More fuel does not change what `ensure_dir` returns. -/
theorem ensureDir_prolongs {fuel fuel' : Nat} (h : fuel ≤ fuel') (path : String) :
    EStateM.Prolongs Stop.outOfFuel (fs.ensureDir fuel path) (fs.ensureDir fuel' path) :=
  (fs.resolveAbsolute_prolongs h path).bind fun _ => .refl _

/-- `ensure_dir` returns `Ok(())`. -/
def Accepts (path : String) : Prop := ∃ fuel log, fs.ensureDir fuel path [] = .ok () log

/-- An error is an answer too. -/
theorem not_accepts_of_error {path : String} {fuel : Nat} {e : StorageError} {log : List Nat}
    (h : fs.ensureDir fuel path [] = .error (.storage e) log) : ¬ fs.Accepts path := by
  rintro ⟨fuel', log', hok⟩
  obtain hle | hle := Nat.le_total fuel fuel'
  · obtain heq | ⟨log'', hout⟩ := fs.ensureDir_prolongs hle path []
    · rw [h, hok] at heq
      cases heq
    · rw [h] at hout
      cases hout
  · obtain heq | ⟨log'', hout⟩ := fs.ensureDir_prolongs hle path []
    · rw [h, hok] at heq
      cases heq
    · rw [hok] at hout
      cases hout

/-- The root is a directory without looking at the disk. -/
theorem accepts_root : fs.Accepts "/" := by
  have hsplit : (split "/" '/').filter (· ≠ "") = [] := by decide
  have hresolve : fs.resolveAbsolute 0 "/" [] = .ok .rootDirectory [] := by
    rw [resolveAbsolute, if_neg (by decide), hsplit]
    rfl
  exact ⟨0, [], EStateM.bind_of_ok hresolve _⟩

end Fat32

/-! ## The root filesystem -/

/-- `ensure_root_dir`, on the mounted filesystem if there is one. -/
def ensureRootDir (rootFs : Option Fat32) (fuel : Nat) (path : String) : DiskM Unit :=
  match rootFs with
  | none => throw (.storage .rootFsUnavailable)
  | some fs => fs.ensureDir fuel path

/-- There is a root filesystem, and it takes the path for a directory. -/
def RootAccepts (rootFs : Option Fat32) (path : String) : Prop :=
  ∃ fs, rootFs = some fs ∧ fs.Accepts path

/-- What `ensure_root_dir` returned is whether the path is accepted. -/
theorem rootAccepts_of_ok {rootFs : Option Fat32} {fuel : Nat} {path : String} {log : List Nat}
    (h : ensureRootDir rootFs fuel path [] = .ok () log) : RootAccepts rootFs path := by
  cases rootFs with
  | none => cases h
  | some fs => exact ⟨fs, rfl, fuel, log, h⟩

theorem not_rootAccepts_of_error {rootFs : Option Fat32} {fuel : Nat} {path : String}
    {e : StorageError} {log : List Nat}
    (h : ensureRootDir rootFs fuel path [] = .error (.storage e) log) :
    ¬ RootAccepts rootFs path := by
  rintro ⟨fs, rfl, haccepts⟩
  exact fs.not_accepts_of_error h haccepts

/-! ## A small volume -/

/-- A directory entry of 32 bytes. -/
def directoryEntry (shortName : String) (attributes cluster : UInt8) : List UInt8 :=
  strBytes shortName ++ [attributes] ++ List.replicate 14 0 ++ [cluster] ++ List.replicate 5 0

/-- A sector that starts with the given bytes. -/
def sectorOf (bytes : List UInt8) : Sector := writeAt (Vector.replicate sectorSize 0) 0 bytes

/-- One directory, `BIN`, in the root. -/
def sampleVolume : Fat32 where
  device := ⟨fun lba => .ok (if lba = 10 then sectorOf (directoryEntry "BIN        " 16 3)
    else Vector.replicate sectorSize 0)⟩
  partitionStartLba := 0
  partitionSectorCount := 100
  sectorsPerCluster := 1
  reservedSectorCount := 1
  rootCluster := 2
  firstDataSector := 10

end Lazers.Storage
