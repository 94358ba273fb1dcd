import Lazers.Storage.Directory

/-!
# Which sectors the filesystem reads

`cluster_to_lba` compares the first sector of a cluster with the end of the partition,
and the loops read as many sectors from there as a cluster has; `next_cluster` computes
the sector of a table entry from the cluster number alone.

`reads_confined_iff`: whatever the disk holds, every read lies in the partition exactly
when the geometry of the volume makes it so, for all clusters that pass the check
(`Contained`).
-/

namespace Lazers.Storage

/-- The sectors read when an operation has ended. -/
def logOf {α : Type} : EStateM.Result Stop (List Nat) α → List Nat
  | .ok _ log => log
  | .error _ log => log

/-- Every sector that the operation reads is in the region. -/
def ReadsOnly {α : Type} (P : Nat → Prop) (x : DiskM α) : Prop :=
  ∀ log, (∀ lba ∈ log, P lba) → ∀ lba ∈ logOf (x log), P lba

namespace ReadsOnly

variable {α β : Type} {P : Nat → Prop}

theorem readsOf {x : DiskM α} (h : ReadsOnly P x) : ∀ lba ∈ readsOf x, P lba := by
  have hlog := h [] fun _ hmem => by cases hmem
  rw [Storage.readsOf]
  cases hx : x [] with
  | ok a log =>
    rw [hx] at hlog
    exact hlog
  | error e log =>
    rw [hx] at hlog
    exact hlog

theorem value (a : α) : ReadsOnly P (pure a : DiskM α) := fun _ hlog => hlog

theorem failure (e : Stop) : ReadsOnly P (throw e : DiskM α) := fun _ hlog => hlog

theorem readSector (device : BlockDevice) {lba : Nat} (h : P lba) :
    ReadsOnly P (device.readSector lba) := by
  intro log hlog lba' hmem
  have hlba : lba' ∈ log ++ [lba] := by
    rw [BlockDevice.readSector] at hmem
    cases hsector : device.sector lba with
    | ok sector =>
      rw [hsector] at hmem
      exact hmem
    | error e =>
      rw [hsector] at hmem
      exact hmem
  obtain hbefore | hhere := List.mem_append.mp hlba
  · exact hlog lba' hbefore
  · rwa [List.mem_singleton.mp hhere]

/-- In sequence, the second operation matters for what the first returns. -/
theorem bind {x : DiskM α} {f : α → DiskM β} (h : ReadsOnly P x)
    (hnext : ∀ a log log', x log = .ok a log' → ReadsOnly P (f a)) : ReadsOnly P (x >>= f) := by
  intro log hlog
  have hfirst := h log hlog
  cases hx : x log with
  | ok a log₁ =>
    rw [hx] at hfirst
    rw [EStateM.bind_of_ok hx]
    exact hnext a log log₁ hx log₁ hfirst
  | error e log₁ =>
    rw [hx] at hfirst
    have hrun : (x >>= f) log = .error e log₁ := EStateM.bind_eq_error.mpr (.inl hx)
    rw [hrun]
    exact hfirst

/-- A `?` reads nothing. -/
theorem liftResult_bind {r : Except StorageError α} {f : α → DiskM β}
    (hnext : ∀ a, r = .ok a → ReadsOnly P (f a)) : ReadsOnly P (liftResult r >>= f) := by
  cases r with
  | ok a => exact hnext a rfl
  | error e => exact failure _

end ReadsOnly

namespace Fat32

variable (fs : Fat32)

/-! ## One cluster -/

section

variable {P : Nat → Prop} {clusterLba rounds sectorIndex : Nat}
  (h : ∀ i < rounds, P (wrap64 (clusterLba + (sectorIndex + i))))

include h

/-- The first sector, and the others. -/
theorem sectors_split {n : Nat} (hrounds : rounds = n + 1) :
    P (wrap64 (clusterLba + sectorIndex)) ∧
      ∀ i < n, P (wrap64 (clusterLba + (sectorIndex + 1 + i))) := by
  subst hrounds
  constructor
  · exact h 0 (Nat.succ_pos n)
  · intro i hi
    rw [show sectorIndex + 1 + i = sectorIndex + (i + 1) by omega]
    exact h (i + 1) (by omega)

theorem findInCluster_reads (shortName : List UInt8) :
    ReadsOnly P (fs.findInCluster shortName clusterLba rounds sectorIndex) := by
  induction rounds generalizing sectorIndex with
  | zero => exact .value _
  | succ rounds ih =>
    obtain ⟨hfirst, hrest⟩ := sectors_split h rfl
    refine .bind (.readSector _ hfirst) fun sector _ _ _ => ?_
    split
    · exact .value _
    · exact .failure _
    · exact ih hrest

theorem listCluster_reads (capacity : Nat) (written : List UInt8) :
    ReadsOnly P (fs.listCluster capacity clusterLba rounds sectorIndex written) := by
  induction rounds generalizing sectorIndex written with
  | zero => exact .value _
  | succ rounds ih =>
    obtain ⟨hfirst, hrest⟩ := sectors_split h rfl
    refine .bind (.readSector _ hfirst) fun sector _ _ _ => ?_
    split
    · exact ih hrest _
    · exact .value _

theorem readCluster_reads (remaining : Nat) (written : List UInt8) :
    ReadsOnly P (fs.readCluster clusterLba rounds sectorIndex remaining written) := by
  induction rounds generalizing sectorIndex remaining written with
  | zero => exact .value _
  | succ rounds ih =>
    obtain ⟨hfirst, hrest⟩ := sectors_split h rfl
    rw [readCluster]
    split_ifs
    · exact .value _
    · exact .bind (.readSector _ hfirst) fun sector _ _ _ => ih hrest _ _

end

/-! ## Chains -/

/-- Every cluster that passes the check lies in the region, and so does its table entry. -/
def ClustersIn (P : Nat → Prop) : Prop :=
  ∀ cluster clusterLba, cluster < 2 ^ 32 → fs.clusterToLba cluster = .ok clusterLba →
    (∀ i < fs.sectorsPerCluster, P (wrap64 (clusterLba + i))) ∧ P (fs.fatSector cluster)

section

variable {P : Nat → Prop}

theorem nextCluster_lt {cluster next : Nat} {log log' : List Nat}
    (h : fs.nextCluster cluster log = .ok next log') : next < 2 ^ 32 := by
  have hout : outcome (fs.nextCluster cluster) = .ok next :=
    (fs.determined_nextCluster cluster).outcome_eq h
  have hlink := (fs.outcome_nextCluster_eq_ok.mp hout).2.2
  rw [fatEntryBadCluster] at hlink
  omega

theorem nextCluster_reads {cluster : Nat} (h : P (fs.fatSector cluster)) :
    ReadsOnly P (fs.nextCluster cluster) := by
  refine .bind (.readSector _ h) fun sector _ _ _ => ?_
  dsimp only
  split_ifs
  · exact .failure _
  · exact .failure _
  · exact .value _

theorem findInSector_firstCluster_lt {shortName : List UInt8} {sector : Sector}
    {rounds offset : Nat} {entry : FatDirectoryEntry}
    (h : findInSector shortName sector rounds offset = .found entry) :
    entry.firstCluster < 2 ^ 32 := by
  induction rounds generalizing offset with
  | zero => cases h
  | succ rounds ih =>
    rw [findInSector] at h
    split_ifs at h with hend hdeleted hhidden hmatch
    · exact ih h
    · exact ih h
    · cases h
      have hlow := readLe_lt ((sector.toList.drop offset).take fatDirectoryEntrySize) 26 2
      have hhigh := readLe_lt ((sector.toList.drop offset).take fatDirectoryEntrySize) 20 2
      refine Nat.or_lt_two_pow ?_ ?_
      · rw [Nat.shiftLeft_eq, readLeU16]
        omega
      · rw [readLeU16]
        omega
    · exact ih h

theorem findInCluster_firstCluster_lt {shortName : List UInt8}
    {clusterLba rounds sectorIndex : Nat} {entry : FatDirectoryEntry}
    (h : outcome (fs.findInCluster shortName clusterLba rounds sectorIndex) = .ok (some entry)) :
    entry.firstCluster < 2 ^ 32 := by
  induction rounds generalizing sectorIndex with
  | zero => cases h
  | succ rounds ih =>
    rw [outcome_findInCluster_succ] at h
    split at h
    · split at h
      · cases h
        exact findInSector_firstCluster_lt ‹_›
      · cases h
      · exact ih h
    · cases h

theorem findInChain_firstCluster_lt {shortName : List UInt8} {fuel cluster : Nat}
    {entry : FatDirectoryEntry} {log log' : List Nat}
    (h : fs.findInChain shortName fuel cluster log = .ok entry log') :
    entry.firstCluster < 2 ^ 32 := by
  induction fuel generalizing cluster log with
  | zero => cases h
  | succ fuel ih =>
    rw [findInChain] at h
    obtain ⟨clusterLba, log₁, -, h⟩ := EStateM.bind_eq_ok.mp h
    obtain ⟨found, log₂, hfound, h⟩ := EStateM.bind_eq_ok.mp h
    cases found with
    | some _ =>
      cases h
      exact fs.findInCluster_firstCluster_lt
        ((fs.determined_findInCluster _ _ _ _).outcome_eq hfound)
    | none =>
      obtain ⟨next, log₃, -, h⟩ := EStateM.bind_eq_ok.mp h
      exact ih h

theorem firstCluster_lt {fuel cluster : Nat} {component : String} {entry : FatDirectoryEntry}
    {log log' : List Nat} (h : fs.findInDirectory fuel cluster component log = .ok entry log') :
    entry.firstCluster < 2 ^ 32 := by
  rw [findInDirectory] at h
  obtain ⟨shortName, log₁, -, h⟩ := EStateM.bind_eq_ok.mp h
  exact fs.findInChain_firstCluster_lt h

theorem resolveFrom_directory_lt {fuel cluster start : Nat} {components : List String}
    {log log' : List Nat}
    (h : fs.resolveFrom fuel components cluster log = .ok (.directory start) log') :
    start < 2 ^ 32 := by
  induction components generalizing cluster log with
  | nil => cases h
  | cons component rest ih =>
    rw [resolveFrom] at h
    obtain ⟨entry, log₁, hentry, h⟩ := EStateM.bind_eq_ok.mp h
    split_ifs at h
    · cases h
      exact fs.firstCluster_lt hentry
    · cases h
    · cases h
    · exact ih h

/-- Where a listing starts. -/
theorem start_lt (hroot : fs.rootCluster < 2 ^ 32) {fuel start : Nat} {path : String}
    {resolved : FatResolvedPath} {log log' : List Nat}
    (h : fs.resolveAbsolute fuel path log = .ok resolved log')
    (hstart : fs.directoryCluster resolved = .ok start) : start < 2 ^ 32 := by
  cases resolved with
  | rootDirectory =>
    cases hstart
    exact hroot
  | file entry => cases hstart
  | directory cluster =>
    cases hstart
    rw [resolveAbsolute_eq] at h
    split_ifs at h
    · cases h
    · cases h
    · exact fs.resolveFrom_directory_lt h

variable (h : fs.ClustersIn P)

include h

/-- What a loop over a chain reads, one cluster at a time. -/
theorem cluster_reads {α β : Type} {cluster : Nat} (hcluster : cluster < 2 ^ 32)
    {body : Nat → DiskM α} {rest : α → DiskM β}
    (hbody : ∀ clusterLba,
      (∀ i < fs.sectorsPerCluster, P (wrap64 (clusterLba + (0 + i)))) →
        ReadsOnly P (body clusterLba))
    (hrest : P (fs.fatSector cluster) → ∀ a, ReadsOnly P (rest a)) :
    ReadsOnly P (do rest (← body (← liftResult (fs.clusterToLba cluster)))) := by
  refine .liftResult_bind fun clusterLba hlba => ?_
  obtain ⟨hsectors, hentry⟩ := h cluster clusterLba hcluster hlba
  refine (hbody clusterLba fun i hi => ?_).bind fun a _ _ _ => hrest hentry a
  rw [Nat.zero_add]
  exact hsectors i hi

theorem findInChain_reads (shortName : List UInt8) (fuel : Nat) {cluster : Nat}
    (hcluster : cluster < 2 ^ 32) : ReadsOnly P (fs.findInChain shortName fuel cluster) := by
  induction fuel generalizing cluster with
  | zero => exact .failure _
  | succ fuel ih =>
    refine fs.cluster_reads h hcluster (fun lba hlba => fs.findInCluster_reads hlba shortName) ?_
    intro hentry found
    cases found with
    | some entry => exact .value _
    | none =>
      exact (fs.nextCluster_reads hentry).bind fun next _ _ hnext =>
        ih (fs.nextCluster_lt hnext)

theorem listChain_reads (capacity fuel : Nat) {cluster : Nat} (hcluster : cluster < 2 ^ 32)
    (written : List UInt8) : ReadsOnly P (fs.listChain capacity fuel cluster written) := by
  induction fuel generalizing cluster written with
  | zero => exact .failure _
  | succ fuel ih =>
    refine fs.cluster_reads h hcluster
      (fun lba hlba => fs.listCluster_reads hlba capacity written) ?_
    intro hentry result
    cases result with
    | ended _ => exact .value _
    | tooSmall => exact .failure _
    | next written =>
      exact (fs.nextCluster_reads hentry).bind fun next _ _ hnext =>
        ih (fs.nextCluster_lt hnext) written

theorem readChain_reads (fuel : Nat) {cluster : Nat} (hcluster : cluster < 2 ^ 32)
    (remaining : Nat) (written : List UInt8) :
    ReadsOnly P (fs.readChain fuel cluster remaining written) := by
  induction fuel generalizing cluster remaining written with
  | zero => exact .failure _
  | succ fuel ih =>
    rw [readChain]
    split_ifs
    · exact .value _
    · refine fs.cluster_reads h hcluster
        (fun lba hlba => fs.readCluster_reads hlba remaining written) ?_
      intro hentry result
      dsimp only
      split_ifs
      · exact .value _
      · exact (fs.nextCluster_reads hentry).bind fun next _ _ hnext =>
          ih (fs.nextCluster_lt hnext) _ _

/-! ## The operations -/

theorem findInDirectory_reads (fuel : Nat) {cluster : Nat} (hcluster : cluster < 2 ^ 32)
    (component : String) : ReadsOnly P (fs.findInDirectory fuel cluster component) :=
  .liftResult_bind fun _ _ => fs.findInChain_reads h _ fuel hcluster

theorem resolveFrom_reads (fuel : Nat) (components : List String) {cluster : Nat}
    (hcluster : cluster < 2 ^ 32) : ReadsOnly P (fs.resolveFrom fuel components cluster) := by
  induction components generalizing cluster with
  | nil => exact .failure _
  | cons component rest ih =>
    refine (fs.findInDirectory_reads h fuel hcluster component).bind fun entry _ _ hentry => ?_
    split_ifs
    · exact .value _
    · exact .value _
    · exact .failure _
    · exact ih (fs.firstCluster_lt hentry)

theorem readFile_reads (fuel : Nat) {entry : FatDirectoryEntry}
    (hentry : entry.firstCluster < 2 ^ 32) (capacity : Nat) :
    ReadsOnly P (fs.readFile fuel entry capacity) := by
  rw [readFile]
  split_ifs
  · exact .failure _
  · exact fs.readChain_reads h fuel hentry _ _

theorem readDir_reads (hroot : fs.rootCluster < 2 ^ 32) (fuel : Nat) (path : String)
    (capacity : Nat) : ReadsOnly P (fs.readDir fuel path capacity) := by
  have hresolve : ReadsOnly P (fs.resolveAbsolute fuel path) := by
    rw [resolveAbsolute_eq]
    split_ifs
    · exact .failure _
    · exact .value _
    · exact fs.resolveFrom_reads h fuel _ hroot
  refine hresolve.bind fun resolved _ _ hresolved => ?_
  refine .liftResult_bind fun start hstart => ?_
  exact fs.listChain_reads h capacity fuel (fs.start_lt hroot hresolved hstart) []

end

/-! ## The partition -/

def InPartition (lba : Nat) : Prop :=
  fs.partitionStartLba ≤ lba ∧ lba < fs.partitionStartLba + fs.partitionSectorCount

/-- **The geometry keeps to the partition**: a cluster whose first sector passes the check has all
its sectors and its table entry there. -/
def Contained : Prop :=
  ∀ cluster clusterLba, cluster < 2 ^ 32 → fs.clusterToLba cluster = .ok clusterLba →
    fs.partitionStartLba ≤ clusterLba ∧
    clusterLba + fs.sectorsPerCluster ≤ fs.partitionStartLba + fs.partitionSectorCount ∧
    fs.reservedSectorCount + cluster / 128 < fs.partitionSectorCount

/-- **Confinement**: all reads of the operations lie in the partition. -/
structure Confined : Prop where
  readFile : ∀ fuel entry capacity, entry.firstCluster < 2 ^ 32 →
    ∀ lba ∈ readsOf (fs.readFile fuel entry capacity), fs.InPartition lba
  readDir : ∀ fuel path capacity,
    ∀ lba ∈ readsOf (fs.readDir fuel path capacity), fs.InPartition lba
  findInDirectory : ∀ fuel cluster component, cluster < 2 ^ 32 →
    ∀ lba ∈ readsOf (fs.findInDirectory fuel cluster component), fs.InPartition lba
  nextCluster : ∀ cluster clusterLba, cluster < 2 ^ 32 →
    fs.clusterToLba cluster = .ok clusterLba →
      ∀ lba ∈ readsOf (fs.nextCluster cluster), fs.InPartition lba

/-- The check of `cluster_to_lba`. -/
theorem clusterToLba_eq_ok {cluster clusterLba : Nat}
    (h : fs.clusterToLba cluster = .ok clusterLba) :
    2 ≤ cluster ∧
    clusterLba = wrap64 (fs.firstDataSector + wrap64 ((cluster - 2) * fs.sectorsPerCluster)) ∧
    clusterLba < wrap64 (fs.partitionStartLba + fs.partitionSectorCount) := by
  rw [clusterToLba] at h
  dsimp only at h
  split_ifs at h with hlow hhigh
  cases h
  exact ⟨by omega, rfl, by omega⟩

section

variable (hend : fs.partitionStartLba + fs.partitionSectorCount < u64Limit)

include hend

/-- A table entry lies in the partition exactly when its cluster number is small enough. -/
theorem fatSector_inPartition_iff {cluster : Nat} (hcluster : cluster < 2 ^ 32)
    (hreserved : fs.reservedSectorCount < 65536) :
    fs.InPartition (fs.fatSector cluster) ↔
      fs.reservedSectorCount + cluster / 128 < fs.partitionSectorCount := by
  rw [InPartition, fatSector, wrap64, wrap64, sectorSize]
  rw [u64Limit] at hend ⊢
  omega

/-- The sectors of a cluster lie in the partition exactly when it ends there. -/
theorem sectors_inPartition_iff {clusterLba : Nat} (hpos : 0 < fs.sectorsPerCluster)
    (hlba : clusterLba < fs.partitionStartLba + fs.partitionSectorCount) :
    (∀ i < fs.sectorsPerCluster, fs.InPartition (wrap64 (clusterLba + i))) ↔
      fs.partitionStartLba ≤ clusterLba ∧
      clusterLba + fs.sectorsPerCluster ≤ fs.partitionStartLba + fs.partitionSectorCount := by
  constructor
  · intro hall
    constructor
    · have hfirst := hall 0 hpos
      rw [Nat.add_zero, wrap64_of_lt (by omega)] at hfirst
      exact hfirst.1
    · -- Otherwise the end of the partition is one of the sectors.
      by_contra hover
      have hsector := hall (fs.partitionStartLba + fs.partitionSectorCount - clusterLba) (by omega)
      rw [show clusterLba + (fs.partitionStartLba + fs.partitionSectorCount - clusterLba) =
        fs.partitionStartLba + fs.partitionSectorCount by omega, wrap64_of_lt hend] at hsector
      exact absurd hsector.2 (by omega)
  · rintro ⟨hlow, hhigh⟩ i hi
    rw [wrap64_of_lt (by omega)]
    exact ⟨by omega, by omega⟩

theorem clusterToLba_lt {cluster clusterLba : Nat}
    (h : fs.clusterToLba cluster = .ok clusterLba) :
    clusterLba < fs.partitionStartLba + fs.partitionSectorCount := by
  have hlt := (fs.clusterToLba_eq_ok h).2.2
  rwa [wrap64_of_lt hend] at hlt

theorem clustersIn_iff_contained (hgeometry : fs.Geometry) :
    fs.ClustersIn fs.InPartition ↔ fs.Contained := by
  have hone : ∀ cluster clusterLba, cluster < 2 ^ 32 →
      fs.clusterToLba cluster = .ok clusterLba →
      ((∀ i < fs.sectorsPerCluster, fs.InPartition (wrap64 (clusterLba + i))) ∧
        fs.InPartition (fs.fatSector cluster) ↔
      fs.partitionStartLba ≤ clusterLba ∧
        clusterLba + fs.sectorsPerCluster ≤ fs.partitionStartLba + fs.partitionSectorCount ∧
        fs.reservedSectorCount + cluster / 128 < fs.partitionSectorCount) := by
    intro cluster clusterLba hcluster hlba
    rw [fs.sectors_inPartition_iff hend hgeometry.sectorsPerCluster_pos
      (fs.clusterToLba_lt hend hlba), fs.fatSector_inPartition_iff hend hcluster
      hgeometry.reservedSectorCount_lt, and_assoc]
  constructor
  · exact fun h cluster clusterLba hcluster hlba =>
      (hone cluster clusterLba hcluster hlba).mp (h cluster clusterLba hcluster hlba)
  · exact fun h cluster clusterLba hcluster hlba =>
      (hone cluster clusterLba hcluster hlba).mpr (h cluster clusterLba hcluster hlba)

end

/-! ## A disk that shows every read -/

/-- A sector of deleted entries. -/
def deletedSector : Sector := Vector.replicate sectorSize 0xe5

/-- The disk of deleted entries. -/
def deletedDisk : BlockDevice := ⟨fun _ => .ok deletedSector⟩

theorem readsOf_nextCluster (cluster : Nat) :
    fs.fatSector cluster ∈ readsOf (fs.nextCluster cluster) := by
  rw [nextCluster]
  dsimp only
  rw [readsOf_readSector_bind, ← fatSector]
  · exact List.mem_cons_self
  · intro sector
    split_ifs
    · exact .failure _
    · exact .failure _
    · exact .value _

theorem deletedSector_passedOver (shortName entry : List UInt8)
    (h : entry ∈ entriesOf deletedSector) : PassedOver shortName entry := by
  have hall : (entriesOf deletedSector).all
      (fun entry => !isEndEntry entry && isHiddenEntry entry) = true := by decide +kernel
  have hentry := List.all_eq_true.mp hall entry h
  rw [Bool.and_eq_true, Bool.not_eq_true'] at hentry
  exact ⟨hentry.1, .inl hentry.2⟩

section

variable (hdevice : fs.device = deletedDisk)

include hdevice

theorem findInCluster_deletedDisk (shortName : List UInt8) (clusterLba rounds sectorIndex : Nat) :
    outcome (fs.findInCluster shortName clusterLba rounds sectorIndex) = .ok none ∧
      ∀ i < rounds, wrap64 (clusterLba + (sectorIndex + i)) ∈
        readsOf (fs.findInCluster shortName clusterLba rounds sectorIndex) := by
  have hnext : findInSector shortName deletedSector (sectorSize / fatDirectoryEntrySize) 0 = .next :=
    (findInSector_eq_next_iff _ _ _ _).mpr (deletedSector_passedOver shortName)
  have hsector : ∀ lba, fs.device.sector lba = .ok deletedSector := by
    intro lba
    rw [hdevice]
    rfl
  induction rounds generalizing sectorIndex with
  | zero => exact ⟨rfl, fun i hi => absurd hi (Nat.not_lt_zero i)⟩
  | succ rounds ih =>
    obtain ⟨hnone, hreads⟩ := ih (sectorIndex + 1)
    constructor
    · rw [outcome_findInCluster_succ, hsector]
      dsimp only
      rw [hnext]
      exact hnone
    · have hcons : readsOf (fs.findInCluster shortName clusterLba (rounds + 1) sectorIndex) =
          wrap64 (clusterLba + sectorIndex) ::
            readsOf (fs.findInCluster shortName clusterLba rounds (sectorIndex + 1)) := by
        rw [findInCluster, readsOf_readSector_bind, hsector]
        · dsimp only
          rw [hnext]
        · intro sector
          split
          · exact .value _
          · exact .failure _
          · exact fs.determined_findInCluster _ _ _ _
      intro i hi
      rw [hcons]
      cases i with
      | zero => exact List.mem_cons_self
      | succ i =>
        have hmem := hreads i (by omega)
        rw [show sectorIndex + 1 + i = sectorIndex + (i + 1) by omega] at hmem
        exact List.mem_cons_of_mem _ hmem

/-- A search reads all of the first cluster and its table entry. -/
theorem findInDirectory_deletedDisk {cluster clusterLba : Nat} {component : String}
    {name : Vector UInt8 11} (hname : makeShortName component = .ok name)
    (hlba : fs.clusterToLba cluster = .ok clusterLba) :
    (∀ i < fs.sectorsPerCluster, wrap64 (clusterLba + i) ∈
      readsOf (fs.findInDirectory 1 cluster component)) ∧
    fs.fatSector cluster ∈ readsOf (fs.findInDirectory 1 cluster component) := by
  obtain ⟨hnone, hsectors⟩ :=
    fs.findInCluster_deletedDisk hdevice name.toList clusterLba fs.sectorsPerCluster 0
  have hreads : readsOf (fs.findInDirectory 1 cluster component) =
      readsOf (fs.findInCluster name.toList clusterLba fs.sectorsPerCluster 0) ++
        readsOf (fs.nextCluster cluster >>= fs.findInChain name.toList 0) := by
    rw [findInDirectory, hname, readsOf_liftResult_bind]
    dsimp only
    rw [findInChain, hlba, readsOf_liftResult_bind]
    dsimp only
    rw [readsOf_bind_ok (fs.determined_findInCluster _ _ _ _) _ hnone]
    intro found
    cases found with
    | some _ => exact .value _
    | none => exact (fs.determined_nextCluster _).bind fun _ => fs.determined_findInChain _ _ _
  rw [hreads]
  constructor
  · intro i hi
    have hmem := hsectors i hi
    rw [Nat.zero_add] at hmem
    exact List.mem_append_left _ hmem
  · exact List.mem_append_right _ (mem_readsOf_bind (fs.determined_nextCluster _)
      (fun _ => fs.determined_findInChain _ _ _) (fs.readsOf_nextCluster cluster))

end

/-- A volume whose last cluster is cut off by the end of the partition. -/
def wideVolume : Fat32 where
  device := smallDisk (bootSector 8 100 14) deletedSector deletedSector
  partitionStartLba := 0
  partitionSectorCount := 100
  sectorsPerCluster := 8
  reservedSectorCount := 1
  rootCluster := 14
  firstDataSector := 2

end Fat32

end Lazers.Storage
