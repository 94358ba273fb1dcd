import Lazers.Memory.Kernel
import Lazers.Storage.Directory

/-!
# Reading files of the root filesystem (`storage/rootfs.rs`)

A file goes either into a buffer of the caller or into a kernel buffer of its own size.

- `readFile_length`, `readDir_length`: how much of the buffer a successful call fills.
- `readFile_error`: if the cluster chain of a file does not end before the file does
  (`ChainCovers`), reading it never fails with an error that means there is no such file.
-/

namespace Lazers.Storage

open Memory

/-! ## What every run of a disk operation does -/

variable {α : Type}

/-- Any run tells the outcome. -/
theorem outcome_of_triple {x : DiskM α} {Q : α → Prop} {E : Stop → Prop}
    (h : Triple (fun _ => True) x (fun a _ => Q a) fun e _ => E e) :
    (∀ a, outcome x = .ok a → Q a) ∧ ∀ e, outcome x = .error e → E e := by
  have hrun := h [] trivial
  rw [outcome]
  cases hx : x [] with
  | ok a log =>
    rw [hx] at hrun
    refine ⟨fun b hb => ?_, fun e he => ?_⟩
    · exact Except.ok.inj hb ▸ hrun
    · cases he
  | error e log =>
    rw [hx] at hrun
    refine ⟨fun b hb => ?_, fun e' he => ?_⟩
    · cases hb
    · exact Except.error.inj he ▸ hrun

/-- The device answered with this error. -/
def BlockDevice.Fails (device : BlockDevice) (stop : Stop) : Prop :=
  ∃ lba e, device.sector lba = .error e ∧ stop = .storage e

theorem readSector_triple (device : BlockDevice) (lba : Nat) :
    Triple (fun _ => True) (device.readSector lba) (fun _ _ => True)
      fun stop _ => device.Fails stop := by
  intro log _
  rw [BlockDevice.readSector]
  cases hsector : device.sector lba with
  | ok sector => trivial
  | error e => exact ⟨lba, e, hsector, rfl⟩

namespace Fat32

variable (fs : Fat32)

/-! ## Reading a file -/

/-- The bytes of one cluster. -/
def clusterBytes : Nat := fs.sectorsPerCluster * sectorSize

/-- The sectors of a cluster fill the buffer until nothing remains. -/
theorem readCluster_triple (clusterLba rounds sectorIndex remaining : Nat)
    (written : List UInt8) :
    Triple (fun _ => True) (fs.readCluster clusterLba rounds sectorIndex remaining written)
      (fun r _ => r.1 = remaining - rounds * sectorSize ∧
        r.2.length + r.1 = written.length + remaining)
      fun stop _ => fs.device.Fails stop := by
  induction rounds generalizing sectorIndex remaining written with
  | zero => exact Triple.pure fun _ _ => ⟨by omega, rfl⟩
  | succ rounds ih =>
    rw [readCluster]
    split_ifs with hdone
    · exact Triple.pure fun _ _ => ⟨by omega, rfl⟩
    · refine Triple.bind (readSector_triple fs.device _) fun sector => ?_
      refine (ih (sectorIndex + 1) (remaining - min remaining sectorSize) _).conseq
        (fun _ _ => trivial) (fun r _ hr => ?_) fun _ _ h => h
      have hlen : (sector.toList.take (min remaining sectorSize)).length =
          min remaining sectorSize := by
        rw [List.length_take, Vector.length_toList]
        omega
      obtain ⟨hrest, hsum⟩ := hr
      rw [List.length_append, hlen] at hsum
      rw [Nat.succ_mul]
      constructor
      · omega
      · omega

/-- `k` links of the table lead from one cluster to another. -/
inductive Linked : (k : Nat) → (cluster other : Nat) → Prop where
  | refl (cluster : Nat) : Linked 0 cluster cluster
  | step {k cluster next other : Nat} (link : fs.Link cluster next) (rest : Linked k next other) :
      Linked (k + 1) cluster other

/-- **The chain does not end before the file does.** -/
def ChainCovers (cluster size : Nat) : Prop :=
  ∀ k other, fs.Linked k cluster other → (k + 1) * fs.clusterBytes < size → ¬ fs.IsLast other

theorem ChainCovers.step {cluster next size : Nat} (h : fs.ChainCovers cluster size)
    (hlink : fs.Link cluster next) : fs.ChainCovers next (size - fs.clusterBytes) := by
  intro k other hlinked hsize
  refine h (k + 1) other (.step hlink hlinked) ?_
  rw [Nat.succ_mul]
  omega

/-- A chain with enough clusters covers its file. -/
theorem chainCovers_of_chain {cluster size : Nat} {clusters : List Nat}
    (hchain : fs.Chain cluster clusters) (hsize : size ≤ clusters.length * fs.clusterBytes) :
    fs.ChainCovers cluster size := by
  intro k other hlinked hlt hlast
  -- the chain ends where the links do, so it has `k + 1` clusters
  have hlen : clusters.length = k + 1 := by
    clear hlt hsize
    induction hlinked generalizing clusters with
    | refl cluster =>
      cases hchain with
      | last _ => rfl
      | link hlink _ =>
        have hend := fs.outcome_nextCluster_of_isLast hlast
        rw [fs.outcome_nextCluster_eq_ok.mpr hlink] at hend
        cases hend
    | step hlink _ ih =>
      cases hchain with
      | last h =>
        have hend := fs.outcome_nextCluster_of_isLast h
        rw [fs.outcome_nextCluster_eq_ok.mpr hlink] at hend
        cases hend
      | link hlink' hrest =>
        have hnext := (fs.outcome_nextCluster_eq_ok.mpr hlink).symm.trans
          (fs.outcome_nextCluster_eq_ok.mpr hlink')
        cases hnext
        rw [List.length_cons, ih hrest hlast]
  rw [hlen] at hsize
  omega

/-- What can go wrong on the way to the next cluster. -/
theorem nextCluster_triple (cluster : Nat) :
    Triple (fun _ => True) (fs.nextCluster cluster) (fun next _ => fs.Link cluster next)
      fun stop _ => fs.device.Fails stop ∨ stop = .storage .invalidFat32BootSector ∨
        (fs.IsLast cluster ∧ stop = .storage .fileNotFound) := by
  intro log _
  have hout := (fs.determined_nextCluster cluster) log
  rw [fs.outcome_nextCluster] at hout
  cases hentry : fs.fatEntry cluster with
  | error e =>
    rw [hentry] at hout
    rw [hout]
    rw [fatEntry] at hentry
    cases hsector : fs.device.sector (fs.fatSector cluster) with
    | error e' =>
      rw [hsector] at hentry
      cases hentry
      exact .inl ⟨_, _, hsector, rfl⟩
    | ok sector =>
      rw [hsector] at hentry
      cases hentry
  | ok entry =>
    rw [hentry] at hout
    dsimp only at hout
    split_ifs at hout with hbad hend
    · rw [hout]
      exact .inr (.inl rfl)
    · rw [hout]
      exact .inr (.inr ⟨⟨entry, hentry, hend⟩, rfl⟩)
    · rw [hout]
      have hrun := (fs.determined_nextCluster cluster).outcome_eq hout
      exact fs.outcome_nextCluster_eq_ok.mp hrun

theorem clusterToLba_error {cluster : Nat} {e : StorageError}
    (h : fs.clusterToLba cluster = .error e) : e = .invalidFat32BootSector := by
  rw [clusterToLba] at h
  dsimp only at h
  split_ifs at h
  · cases h
    rfl
  · cases h
    rfl

/-- **Reading along the chain** gives all that remains, unless the device or the table is at
fault or the chain is too short. -/
theorem readChain_triple (fuel cluster remaining : Nat) (written : List UInt8) :
    Triple (fun _ => True) (fs.readChain fuel cluster remaining written)
      (fun r _ => r.length = written.length + remaining)
      fun stop _ => fs.device.Fails stop ∨ stop = .storage .invalidFat32BootSector ∨
        stop = .outOfFuel ∨ (stop = .storage .fileNotFound ∧ ¬ fs.ChainCovers cluster remaining) := by
  induction fuel generalizing cluster remaining written with
  | zero => exact Triple.throw fun _ _ => .inr (.inr (.inl rfl))
  | succ fuel ih =>
    rw [readChain]
    split_ifs with hdone
    · exact Triple.pure fun _ _ => by omega
    · cases hlba : fs.clusterToLba cluster with
      | error e =>
        rw [fs.clusterToLba_error hlba]
        exact Triple.throw fun _ _ => .inr (.inl rfl)
      | ok clusterLba =>
        refine Triple.bind (Triple.pure (Q := fun _ _ => True) fun _ _ => trivial) fun lba => ?_
        refine Triple.bind ((fs.readCluster_triple lba fs.sectorsPerCluster 0 remaining
          written).conseq (fun _ h => h) (fun _ _ h => h) fun _ _ h => .inl h) fun r => ?_
        obtain ⟨rest, written'⟩ := r
        refine Triple.of_start fun log₀ hr => ?_
        obtain ⟨hrest, hsum⟩ := hr
        dsimp only at hrest hsum
        dsimp only
        split_ifs with hzero
        · exact Triple.pure fun _ _ => by omega
        · -- the file is longer than this cluster, so the chain has to go on
          have hless : fs.clusterBytes < remaining := by
            rw [clusterBytes]
            omega
          refine Triple.bind (Q := fun next _ => fs.Link cluster next) ?_ fun next => ?_
          · refine (fs.nextCluster_triple cluster).conseq (fun _ _ => trivial) (fun _ _ h => h) ?_
            rintro stop _ (h | h | ⟨hlast, h⟩)
            · exact .inl h
            · exact .inr (.inl h)
            · refine .inr (.inr (.inr ⟨h, fun hcovers => ?_⟩))
              exact hcovers 0 cluster (.refl cluster) (by omega) hlast
          · refine Triple.of_start fun log₁ hlink => ?_
            refine (ih next rest written').conseq (fun _ _ => trivial) (fun _ _ h => by omega) ?_
            rintro stop _ (h | h | h | ⟨h, hshort⟩)
            · exact .inl h
            · exact .inr (.inl h)
            · exact .inr (.inr (.inl h))
            · refine .inr (.inr (.inr ⟨h, fun hcovers => hshort ?_⟩))
              rw [hrest]
              exact hcovers.step fs hlink

/-- A file that was read filled exactly its size of the buffer. -/
theorem readFile_length (fuel : Nat) (entry : FatDirectoryEntry) (capacity : Nat) :
    Triple (fun _ => True) (fs.readFile fuel entry capacity)
      (fun bytes _ => bytes.length = entry.size ∧ entry.size ≤ capacity) fun _ _ => True := by
  rw [readFile]
  split_ifs with hsmall
  · exact Triple.throw fun _ _ => trivial
  · refine (fs.readChain_triple fuel entry.firstCluster entry.size []).conseq (fun _ h => h)
      (fun bytes _ hlen => ?_) fun _ _ _ => trivial
    rw [List.length_nil, Nat.zero_add] at hlen
    exact ⟨hlen, by omega⟩

/-- **Why reading a covered file fails**: the buffer, the device or the table, but never
because there is no file. -/
theorem readFile_error {fuel capacity : Nat} {entry : FatDirectoryEntry} {stop : Stop}
    (hcovers : fs.ChainCovers entry.firstCluster entry.size)
    (h : outcome (fs.readFile fuel entry capacity) = .error stop) :
    stop = .storage .bufferTooSmall ∨ fs.device.Fails stop ∨
      stop = .storage .invalidFat32BootSector ∨ stop = .outOfFuel := by
  rw [readFile] at h
  split_ifs at h with hsmall
  · exact .inl (Except.error.inj h).symm
  · obtain herr | herr | herr | ⟨-, hshort⟩ :=
      (outcome_of_triple (fs.readChain_triple fuel entry.firstCluster entry.size [])).2 _ h
    · exact .inr (.inl herr)
    · exact .inr (.inr (.inl herr))
    · exact .inr (.inr (.inr herr))
    · exact absurd hcovers hshort

/-! ## Listing a directory -/

/-- The filled part of a listing. -/
def Listing.written? : Listing → Option (List UInt8)
  | .ended written => some written
  | .tooSmall => none
  | .next written => some written

theorem listSector_length {capacity : Nat} (sector : Sector) (rounds entryOffset : Nat)
    {written written' : List UInt8} (hroom : written.length ≤ capacity)
    (h : (listSector capacity sector rounds entryOffset written).written? = some written') :
    written'.length ≤ capacity := by
  induction rounds generalizing entryOffset written with
  | zero => exact Option.some.inj h ▸ hroom
  | succ rounds ih =>
    rw [listSector] at h
    dsimp only at h
    split_ifs at h with _ _ _ _ hfull
    · exact Option.some.inj h ▸ hroom
    · exact ih _ hroom h
    · exact ih _ hroom h
    · exact ih _ hroom h
    · cases h
    · refine ih _ ?_ h
      simp only [List.length_append, List.length_cons, List.length_nil]
      omega

theorem listCluster_triple {capacity : Nat} (clusterLba rounds sectorIndex : Nat)
    {written : List UInt8} (hroom : written.length ≤ capacity) :
    Triple (fun _ => True) (fs.listCluster capacity clusterLba rounds sectorIndex written)
      (fun r _ => ∀ written', r.written? = some written' → written'.length ≤ capacity)
      fun _ _ => True := by
  induction rounds generalizing sectorIndex written with
  | zero => exact Triple.pure fun _ _ _ h => Option.some.inj h ▸ hroom
  | succ rounds ih =>
    refine Triple.bind (Triple.top _) fun sector => ?_
    have hsector := @listSector_length capacity sector (sectorSize / fatDirectoryEntrySize) 0
      written
    cases hlisting : listSector capacity sector (sectorSize / fatDirectoryEntrySize) 0 written with
    | next written' => exact ih _ (hsector hroom (by rw [hlisting]; rfl))
    | ended written' =>
      exact Triple.pure fun _ _ _ h => Option.some.inj h ▸ hsector hroom (by rw [hlisting]; rfl)
    | tooSmall =>
      refine Triple.pure fun _ _ _ h => ?_
      cases h

theorem listChain_triple {capacity : Nat} (fuel cluster : Nat) {written : List UInt8}
    (hroom : written.length ≤ capacity) :
    Triple (fun _ => True) (fs.listChain capacity fuel cluster written)
      (fun r _ => r.length ≤ capacity) fun _ _ => True := by
  induction fuel generalizing cluster written with
  | zero => exact Triple.throw fun _ _ => trivial
  | succ fuel ih =>
    rw [listChain]
    refine Triple.bind (Triple.top _) fun lba => ?_
    refine Triple.bind (fs.listCluster_triple lba _ _ hroom) fun r => ?_
    refine Triple.of_start fun log₀ hr => ?_
    cases r with
    | ended written' => exact Triple.pure fun _ _ => hr _ rfl
    | tooSmall => exact Triple.throw fun _ _ => trivial
    | next written' =>
      exact Triple.bind (Triple.top (fs.nextCluster cluster)) fun next => ih next (hr _ rfl)

/-- A listing fits its buffer. -/
theorem readDir_length {fuel capacity : Nat} {path : String} {bytes : List UInt8}
    (h : outcome (fs.readDir fuel path capacity) = .ok bytes) : bytes.length ≤ capacity := by
  have htriple : Triple (fun _ => True) (fs.readDir fuel path capacity)
      (fun r _ => r.length ≤ capacity) fun _ _ => True := by
    refine Triple.bind (Triple.top _) fun resolved => ?_
    refine Triple.bind (Triple.top _) fun start => ?_
    exact fs.listChain_triple fuel start (Nat.zero_le _)
  exact (outcome_of_triple htriple).1 _ h

end Fat32

/-! ## The calls of `rootfs.rs` -/

/-- `RootFs::read_file_into`, into a buffer of `capacity` bytes: the filled part. -/
def readFileInto (fs : Fat32) (fuel : Nat) (path : String) (capacity : Nat) :
    DiskM (List UInt8) := do
  let file ← fs.openAbsolute fuel path
  fs.readFile fuel file capacity

namespace Fat32

variable (fs : Fat32)

theorem determined_openAbsolute (fuel : Nat) (path : String) :
    Determined (fs.openAbsolute fuel path) := by
  refine (fs.determined_resolveAbsolute fuel path).bind fun resolved => ?_
  cases resolved with
  | file entry => exact .value _
  | rootDirectory => exact .failure _
  | directory cluster => exact .failure _

theorem determined_readCluster (clusterLba rounds sectorIndex remaining : Nat)
    (written : List UInt8) :
    Determined (fs.readCluster clusterLba rounds sectorIndex remaining written) := by
  induction rounds generalizing sectorIndex remaining written with
  | zero => exact .value _
  | succ rounds ih =>
    rw [readCluster]
    split_ifs
    · exact .value _
    · exact (Determined.readSector _ _).bind fun sector => ih _ _ _

theorem determined_readChain (fuel cluster remaining : Nat) (written : List UInt8) :
    Determined (fs.readChain fuel cluster remaining written) := by
  induction fuel generalizing cluster remaining written with
  | zero => exact .failure _
  | succ fuel ih =>
    rw [readChain]
    split_ifs
    · exact .value _
    · refine (Determined.liftResult _).bind fun clusterLba => ?_
      refine (fs.determined_readCluster _ _ _ _ _).bind fun r => ?_
      obtain ⟨rest, written'⟩ := r
      dsimp only
      split_ifs
      · exact .value _
      · exact (fs.determined_nextCluster _).bind fun next => ih next rest written'

theorem determined_readFile (fuel : Nat) (entry : FatDirectoryEntry) (capacity : Nat) :
    Determined (fs.readFile fuel entry capacity) := by
  rw [readFile]
  split_ifs
  · exact .failure _
  · exact fs.determined_readChain _ _ _ _

end Fat32

/-- The file is opened, and then read. -/
theorem outcome_readFileInto (fs : Fat32) (fuel : Nat) (path : String) (capacity : Nat) :
    outcome (readFileInto fs fuel path capacity) =
      outcome (fs.openAbsolute fuel path) >>= fun file =>
        outcome (fs.readFile fuel file capacity) :=
  outcome_bind (fs.determined_openAbsolute fuel path) fun file =>
    fs.determined_readFile fuel file capacity

/-- `read_root_file_into`, on the mounted filesystem if there is one. -/
def readRootFileInto (rootFs : Option Fat32) (fuel : Nat) (path : String) (capacity : Nat) :
    DiskM (List UInt8) :=
  match rootFs with
  | none => throw (.storage .rootFsUnavailable)
  | some fs => readFileInto fs fuel path capacity

/-- `read_root_dir`. -/
def readRootDir (rootFs : Option Fat32) (fuel : Nat) (path : String) (capacity : Nat) :
    DiskM (List UInt8) :=
  match rootFs with
  | none => throw (.storage .rootFsUnavailable)
  | some fs => fs.readDir fuel path capacity

theorem readRootFileInto_length {rootFs : Option Fat32} {fuel capacity : Nat} {path : String}
    {bytes : List UInt8} (h : outcome (readRootFileInto rootFs fuel path capacity) = .ok bytes) :
    bytes.length ≤ capacity := by
  cases rootFs with
  | none => cases h
  | some fs =>
    have htriple : Triple (fun _ => True) (readFileInto fs fuel path capacity)
        (fun r _ => r.length ≤ capacity) fun _ _ => True := by
      refine Triple.bind (Triple.top _) fun entry => ?_
      refine (fs.readFile_length fuel entry capacity).conseq (fun _ h => h) (fun bytes _ hlen => ?_)
        fun _ _ h => h
      omega
    exact (outcome_of_triple htriple).1 _ h

theorem readRootDir_length {rootFs : Option Fat32} {fuel capacity : Nat} {path : String}
    {bytes : List UInt8} (h : outcome (readRootDir rootFs fuel path capacity) = .ok bytes) :
    bytes.length ≤ capacity := by
  cases rootFs with
  | none => cases h
  | some fs => exact fs.readDir_length h

/-- `RootFs::read_file`, into a new kernel buffer. A buffer whose file could not be read is
dropped, which does not release it; what was stored in it by then is left out. -/
def readFile (fs : Fat32) (fuel : Nat) (path : String) (s : MemoryState) :
    Except Stop KernelBuffer × MemoryState :=
  match outcome (fs.openAbsolute fuel path) with
  | .error stop => (.error stop, s)
  | .ok file =>
    match allocateKernelBuffer file.size s with
    | .error e s => (.error (.storage (.memory e)), s)
    | .ok buffer s =>
      match outcome (fs.readFile fuel file buffer.len) with
      | .error stop => (.error stop, s)
      | .ok bytes => (.ok buffer, { s with phys := s.phys.write buffer.startPaddr bytes })

/-- `read_root_file`. -/
def readRootFile (rootFs : Option Fat32) (fuel : Nat) (path : String) (s : MemoryState) :
    Except Stop KernelBuffer × MemoryState :=
  match rootFs with
  | none => (.error (.storage .rootFsUnavailable), s)
  | some fs => readFile fs fuel path s

end Lazers.Storage
