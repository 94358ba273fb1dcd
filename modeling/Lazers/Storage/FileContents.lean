import Lazers.Storage.RootFs

/-!
# What `read_file` puts into the buffer

`readFileTo` is `read_file` with the caller's buffer as part of the state: every sector is copied
to the place that `written` points at, and what an error leaves behind stays there. It runs in
lockstep with `readFile`, which collects the same bytes in a list.

A file of `size` bytes is there (`HoldsFile`) when the links of the table lead through enough
clusters, all of them in range, and the sectors that hold a byte of the file can be read.

`read_file_contents`: then, and only then, the file is read, and the buffer starts with its bytes
and is as it was behind them.
-/

namespace Lazers.Storage

open FixedArray

/-! ## With the buffer of the caller -/

variable {n : Nat}

/-- A disk operation that writes into a buffer of `n` bytes. -/
abbrev BufferM (n : Nat) := EStateM Stop (List Nat × Vector UInt8 n)

/-- A disk operation, next to the buffer. -/
def onDisk {α : Type} (x : DiskM α) : BufferM n α := fun s =>
  match x s.1 with
  | .ok a log => .ok a (log, s.2)
  | .error e log => .error e (log, s.2)

/-- `buffer[offset..offset + bytes.len()].copy_from_slice(bytes)`. -/
def copyFromSlice (offset : Nat) (bytes : List UInt8) : BufferM n PUnit :=
  modify fun s => (s.1, writeAt s.2 offset bytes)

theorem copyFromSlice_bind {α : Type} (offset : Nat) (bytes : List UInt8)
    (f : PUnit → BufferM n α) (s : List Nat × Vector UInt8 n) :
    (copyFromSlice offset bytes >>= f) s = f ⟨⟩ (s.1, writeAt s.2 offset bytes) := rfl

namespace Fat32

variable (fs : Fat32)

/-- The loop over the sectors of a cluster: how many bytes remain, and how many are written. -/
def readClusterTo (clusterLba : Nat) : (rounds sectorIndex remaining written : Nat) →
    BufferM n (Nat × Nat)
  | 0, _, remaining, written => return (remaining, written)
  | rounds + 1, sectorIndex, remaining, written =>
    if remaining = 0 then return (remaining, written)
    else do
      let sector ← onDisk (fs.device.readSector (wrap64 (clusterLba + sectorIndex)))
      let bytes := min remaining sectorSize
      copyFromSlice written (sector.toList.take bytes)
      readClusterTo clusterLba rounds (sectorIndex + 1) (remaining - bytes) (written + bytes)

/-- The loop over the clusters of a file. -/
def readChainTo : (fuel cluster remaining written : Nat) → BufferM n Nat
  | 0, _, _, _ => throw .outOfFuel
  | fuel + 1, cluster, remaining, written =>
    if remaining = 0 then return written
    else do
      let clusterLba ← onDisk (liftResult (fs.clusterToLba cluster))
      let (remaining, written) ←
        fs.readClusterTo clusterLba fs.sectorsPerCluster 0 remaining written
      if remaining = 0 then return written
      else readChainTo fuel (← onDisk (fs.nextCluster cluster)) remaining written

/-- `read_file` into the buffer. -/
def readFileTo (fuel : Nat) (entry : FatDirectoryEntry) : BufferM n Nat :=
  if n < entry.size then throw (.storage .bufferTooSmall)
  else fs.readChainTo fuel entry.firstCluster entry.size 0

end Fat32

/-- The buffer starts with the bytes, and is as it was behind them. -/
def Fills (before : Vector UInt8 n) (bytes : List UInt8) (buffer : Vector UInt8 n) : Prop :=
  bytes.length ≤ n ∧ buffer.toList = bytes ++ before.toList.drop bytes.length

theorem fills_nil (before : Vector UInt8 n) : Fills before [] before := ⟨Nat.zero_le _, rfl⟩

/-- The next slice goes right behind the bytes. -/
theorem Fills.copy {before buffer : Vector UInt8 n} {bytes more : List UInt8}
    (h : Fills before bytes buffer) (hroom : bytes.length + more.length ≤ n) :
    Fills before (bytes ++ more) (writeAt buffer bytes.length more) := by
  obtain ⟨-, hbuffer⟩ := h
  refine ⟨by rwa [List.length_append], ?_⟩
  rw [toList_writeAt buffer bytes.length hroom, hbuffer, List.take_left', List.append_assoc,
    List.drop_append, List.drop_of_length_le (by omega), List.nil_append, List.drop_drop,
    List.length_append]
  · congr 3
    omega
  · rfl

/-- A disk operation does the same next to a buffer. -/
theorem onDisk_lockstep {α : Type} (x : DiskM α) (log : List Nat) (buffer : Vector UInt8 n) :
    Lockstep (fun a b s t => a = b ∧ s = (t, buffer)) (fun _ _ => True)
      (onDisk x (log, buffer)) (x log) := by
  rw [onDisk]
  dsimp only
  cases x log with
  | ok a log' => exact .ok ⟨rfl, rfl⟩
  | error e log' => exact .error trivial

namespace Fat32

variable (fs : Fat32)

/-- The sectors of a cluster are copied into the buffer as they are collected in the list. -/
theorem readClusterTo_lockstep (before : Vector UInt8 n) (clusterLba rounds sectorIndex : Nat)
    {remaining : Nat} {written : List UInt8} (log : List Nat) {buffer : Vector UInt8 n}
    (hfills : Fills before written buffer) (hroom : written.length + remaining ≤ n) :
    Lockstep (fun r r' s t => r = (r'.1, r'.2.length) ∧ s.1 = t ∧ Fills before r'.2 s.2 ∧
        r'.2.length + r'.1 ≤ n) (fun _ _ => True)
      (fs.readClusterTo clusterLba rounds sectorIndex remaining written.length (log, buffer))
      (fs.readCluster clusterLba rounds sectorIndex remaining written log) := by
  induction rounds generalizing sectorIndex remaining written log buffer with
  | zero => exact .ok ⟨rfl, rfl, hfills, hroom⟩
  | succ rounds ih =>
    rw [readClusterTo, readCluster]
    split_ifs with hdone
    · exact .ok ⟨rfl, rfl, hfills, hroom⟩
    · refine Lockstep.bind (onDisk_lockstep _ log buffer) ?_
      rintro sector _ _ log' ⟨rfl, rfl⟩
      have hlen : (sector.toList.take (min remaining sectorSize)).length =
          min remaining sectorSize := by
        rw [List.length_take, Vector.length_toList]
        omega
      have hcopied := hfills.copy (by rw [hlen]; omega :
        written.length + (sector.toList.take (min remaining sectorSize)).length ≤ n)
      have hleft : (written ++ sector.toList.take (min remaining sectorSize)).length +
          (remaining - min remaining sectorSize) ≤ n := by
        rw [List.length_append, hlen]
        omega
      have hnext := ih (sectorIndex + 1) log' hcopied hleft
      dsimp only
      rw [copyFromSlice_bind]
      rwa [List.length_append, hlen] at hnext

theorem readChainTo_lockstep (before : Vector UInt8 n) (fuel cluster : Nat)
    {remaining : Nat} {written : List UInt8} (log : List Nat) {buffer : Vector UInt8 n}
    (hfills : Fills before written buffer) (hroom : written.length + remaining ≤ n) :
    Lockstep (fun r bytes s t => r = bytes.length ∧ s.1 = t ∧ Fills before bytes s.2)
      (fun _ _ => True) (fs.readChainTo fuel cluster remaining written.length (log, buffer))
      (fs.readChain fuel cluster remaining written log) := by
  induction fuel generalizing cluster remaining written log buffer with
  | zero => exact .error trivial
  | succ fuel ih =>
    rw [readChainTo, readChain]
    split_ifs with hdone
    · exact .ok ⟨rfl, rfl, hfills⟩
    · refine Lockstep.bind (onDisk_lockstep _ log buffer) ?_
      rintro clusterLba _ _ log₁ ⟨rfl, rfl⟩
      refine Lockstep.bind
        (fs.readClusterTo_lockstep before clusterLba fs.sectorsPerCluster 0 _ hfills hroom) ?_
      rintro _ ⟨remaining', written'⟩ ⟨_, buffer'⟩ log₂ ⟨rfl, rfl, hfills', hroom'⟩
      dsimp only at hfills' hroom' ⊢
      split_ifs with hzero
      · exact .ok ⟨rfl, rfl, hfills'⟩
      · refine Lockstep.bind (onDisk_lockstep _ _ buffer') ?_
        rintro next _ _ log₃ ⟨rfl, rfl⟩
        exact ih next _ hfills' hroom'

/-! ## The bytes of a file -/

/-- Where the `i`-th sector of a cluster is. -/
def sectorLba (cluster i : Nat) : Nat :=
  wrap64 (fs.firstDataSector + (cluster - 2) * fs.sectorsPerCluster + i)

/-- The bytes of a sector that can be read. -/
def sectorBytes (lba : Nat) : List UInt8 :=
  match fs.device.sector lba with
  | .ok sector => sector.toList
  | .error _ => []

/-- The bytes of some sectors in a row. -/
def bytesFrom (lba : Nat → Nat) (sectorIndex rounds : Nat) : List UInt8 :=
  (List.range' sectorIndex rounds).flatMap fun i => fs.sectorBytes (lba i)

/-- **The bytes of a cluster.** -/
def clusterContents (cluster : Nat) : List UInt8 :=
  fs.bytesFrom (fs.sectorLba cluster) 0 fs.sectorsPerCluster

/-- **The concatenated clusters of a chain.** -/
def chainContents (clusters : List Nat) : List UInt8 := clusters.flatMap fs.clusterContents

/-- The cluster is a data cluster, and starts before the end of the partition. -/
def InRange (cluster : Nat) : Prop := ∃ clusterLba, fs.clusterToLba cluster = .ok clusterLba

/-- The sectors in a row that hold one of the next `remaining` bytes can be read. -/
def RowReadable (lba : Nat → Nat) (sectorIndex rounds remaining : Nat) : Prop :=
  ∀ k < rounds, k * sectorSize < remaining →
    ∃ sector, fs.device.sector (lba (sectorIndex + k)) = .ok sector

/-- The links of the table lead from the first cluster through the others. -/
inductive Leads : (start : Nat) → (clusters : List Nat) → Prop where
  | none (start : Nat) : Leads start []
  | last (start : Nat) : Leads start [start]
  | link {start next : Nat} {rest : List Nat} (h : fs.Link start next)
      (hrest : Leads next rest) : Leads start (start :: rest)

/-- **The clusters hold the file**: a chain that is long enough for it, in range, and readable as
far as the file goes. -/
structure HoldsFile (start size : Nat) (clusters : List Nat) : Prop where
  leads : fs.Leads start clusters
  covers : size ≤ clusters.length * fs.clusterBytes
  inRange : ∀ cluster ∈ clusters, fs.InRange cluster
  readable : ∀ k cluster, clusters[k]? = some cluster →
    fs.RowReadable (fs.sectorLba cluster) 0 fs.sectorsPerCluster (size - k * fs.clusterBytes)

/-- The sectors of a cluster are where `cluster_to_lba` puts them. -/
theorem wrap64_add_eq_sectorLba {cluster clusterLba : Nat}
    (h : fs.clusterToLba cluster = .ok clusterLba) (i : Nat) :
    wrap64 (clusterLba + i) = fs.sectorLba cluster i := by
  have heq : clusterLba =
      wrap64 (fs.firstDataSector + wrap64 ((cluster - 2) * fs.sectorsPerCluster)) := by
    rw [clusterToLba] at h
    dsimp only at h
    split_ifs at h
    cases h
    rfl
  rw [heq, sectorLba]
  simp only [wrap64, Nat.add_mod, Nat.mod_mod]

theorem bytesFrom_succ (lba : Nat → Nat) (sectorIndex rounds : Nat) :
    fs.bytesFrom lba sectorIndex (rounds + 1) =
      fs.sectorBytes (lba sectorIndex) ++ fs.bytesFrom lba (sectorIndex + 1) rounds := by
  rw [bytesFrom, bytesFrom, List.range'_succ, List.flatMap_cons]

theorem length_sectorBytes_le (lba : Nat) : (fs.sectorBytes lba).length ≤ sectorSize := by
  rw [sectorBytes]
  cases fs.device.sector lba with
  | ok sector => exact sector.length_toList.le
  | error e => exact Nat.zero_le _

theorem length_bytesFrom_le (lba : Nat → Nat) (sectorIndex rounds : Nat) :
    (fs.bytesFrom lba sectorIndex rounds).length ≤ rounds * sectorSize := by
  induction rounds generalizing sectorIndex with
  | zero => exact Nat.zero_le _
  | succ rounds ih =>
    have hfirst := fs.length_sectorBytes_le (lba sectorIndex)
    have hrest := ih (sectorIndex + 1)
    rw [bytesFrom_succ, List.length_append, Nat.succ_mul]
    omega

/-- The first sector of a row, and the others. -/
theorem rowReadable_succ {lba : Nat → Nat} {sectorIndex rounds remaining : Nat}
    (hremaining : 0 < remaining) :
    fs.RowReadable lba sectorIndex (rounds + 1) remaining ↔
      (∃ sector, fs.device.sector (lba sectorIndex) = .ok sector) ∧
        fs.RowReadable lba (sectorIndex + 1) rounds (remaining - min remaining sectorSize) := by
  constructor
  · refine fun h => ⟨h 0 (Nat.succ_pos _) (by omega), fun k hk hlt => ?_⟩
    have hnext := h (k + 1) (by omega) (by rw [Nat.succ_mul]; omega)
    rwa [Nat.add_comm k, ← Nat.add_assoc] at hnext
  · rintro ⟨hfirst, hrest⟩ k hk hlt
    cases k with
    | zero => exact hfirst
    | succ k =>
      have hnext := hrest k (by omega) (by rw [Nat.succ_mul] at hlt; omega)
      rwa [Nat.add_assoc, Nat.add_comm 1] at hnext

/-- **One cluster.** What is wanted of its bytes is read, unless one of the sectors is not. -/
theorem outcome_readCluster {lba : Nat → Nat} {clusterLba : Nat}
    (hlba : ∀ i, wrap64 (clusterLba + i) = lba i) (rounds sectorIndex remaining : Nat)
    (written : List UInt8) :
    (fs.RowReadable lba sectorIndex rounds remaining ∧
      outcome (fs.readCluster clusterLba rounds sectorIndex remaining written) =
        .ok (remaining - rounds * sectorSize,
          written ++ (fs.bytesFrom lba sectorIndex rounds).take remaining) ∧
      min remaining (rounds * sectorSize) ≤ (fs.bytesFrom lba sectorIndex rounds).length) ∨
    (¬ fs.RowReadable lba sectorIndex rounds remaining ∧
      ∃ e, outcome (fs.readCluster clusterLba rounds sectorIndex remaining written) =
        .error (.storage e)) := by
  induction rounds generalizing sectorIndex remaining written with
  | zero =>
    refine .inl ⟨fun k hk => absurd hk (Nat.not_lt_zero _), ?_, by omega⟩
    rw [readCluster, bytesFrom, List.range'_zero, List.flatMap_nil, List.take_nil,
      List.append_nil, Nat.zero_mul]
    rfl
  | succ rounds ih =>
    rw [readCluster]
    by_cases hdone : remaining = 0
    · subst hdone
      refine .inl ⟨fun k _ hlt => absurd hlt (Nat.not_lt_zero _), ?_, by omega⟩
      rw [if_pos rfl, List.take_zero, List.append_nil, Nat.zero_sub]
      rfl
    · rw [if_neg hdone, fs.rowReadable_succ (Nat.pos_of_ne_zero hdone),
        outcome_readSector_bind _ _ fun _ => fs.determined_readCluster _ _ _ _ _, hlba,
        bytesFrom_succ, sectorBytes]
      cases hsector : fs.device.sector (lba sectorIndex) with
      | error e =>
        refine .inr ⟨?_, e, rfl⟩
        rintro ⟨⟨sector, hok⟩, -⟩
        cases hok
      | ok sector =>
        have hlen : sector.toList.length = sectorSize := sector.length_toList
        dsimp only
        obtain ⟨hreadable, hrun, hlong⟩ | ⟨hbroken, hrun⟩ := ih (sectorIndex + 1)
          (remaining - min remaining sectorSize)
          (written ++ sector.toList.take (min remaining sectorSize))
        · refine .inl ⟨⟨⟨sector, rfl⟩, hreadable⟩, ?_, ?_⟩
          · have htake : sector.toList.take (min remaining sectorSize) =
                sector.toList.take remaining :=
              List.take_eq_take_iff.mpr (by rw [hlen]; omega)
            have hleft : remaining - min remaining sectorSize = remaining - sectorSize := by omega
            have hrest : remaining - sectorSize - rounds * sectorSize =
                remaining - (rounds * sectorSize + sectorSize) := by omega
            rw [hrun, htake, List.append_assoc, List.take_append, hlen, hleft, Nat.succ_mul, hrest]
          · rw [List.length_append, hlen, Nat.succ_mul]
            omega
        · exact .inr ⟨fun h => hbroken h.2, hrun⟩

/-- A file that is not empty starts with its first cluster. -/
theorem holdsFile_iff {start size : Nat} {clusters : List Nat} (hsize : 0 < size) :
    fs.HoldsFile start size clusters ↔ ∃ rest, clusters = start :: rest ∧ fs.InRange start ∧
      fs.RowReadable (fs.sectorLba start) 0 fs.sectorsPerCluster size ∧
      (rest = [] ∧ size ≤ fs.clusterBytes ∨
        ∃ next, fs.Link start next ∧ fs.HoldsFile next (size - fs.clusterBytes) rest) := by
  have hshift : ∀ k, size - (k + 1) * fs.clusterBytes =
      size - fs.clusterBytes - k * fs.clusterBytes := by
    intro k
    rw [Nat.succ_mul]
    omega
  constructor
  · rintro ⟨hleads, hcovers, hrange, hreadable⟩
    have hfirst : ∀ rest, clusters = start :: rest →
        fs.RowReadable (fs.sectorLba start) 0 fs.sectorsPerCluster size := by
      rintro rest rfl
      simpa using hreadable 0 start rfl
    cases hleads with
    | none => exact absurd hcovers (by rw [List.length_nil, Nat.zero_mul]; omega)
    | last =>
      refine ⟨[], rfl, hrange start List.mem_cons_self, hfirst [] rfl, .inl ⟨rfl, ?_⟩⟩
      rwa [List.length_singleton, Nat.one_mul] at hcovers
    | @link _ next rest hlink hrest =>
      refine ⟨rest, rfl, hrange start List.mem_cons_self, hfirst rest rfl, .inr ⟨next, hlink, ?_⟩⟩
      refine ⟨hrest, ?_, fun c hc => hrange c (List.mem_cons_of_mem _ hc), fun k c hk => ?_⟩
      · rw [List.length_cons, Nat.succ_mul] at hcovers
        omega
      · rw [← hshift]
        exact hreadable (k + 1) c hk
  · rintro ⟨rest, rfl, hrange, hreadable, ⟨rfl, hcovers⟩ | ⟨next, hlink, hholds⟩⟩
    · refine ⟨.last start, ?_, ?_, fun k c hk => ?_⟩
      · rwa [List.length_singleton, Nat.one_mul]
      · exact fun c hc => List.mem_singleton.mp hc ▸ hrange
      · cases k with
        | zero =>
          cases hk
          rwa [Nat.zero_mul, Nat.sub_zero]
        | succ k => cases hk
    · refine ⟨.link hlink hholds.leads, ?_, ?_, fun k c hk => ?_⟩
      · have hcovers := hholds.covers
        rw [List.length_cons, Nat.succ_mul]
        omega
      · exact List.forall_mem_cons.mpr ⟨hrange, hholds.inRange⟩
      · cases k with
        | zero =>
          cases hk
          rwa [Nat.zero_mul, Nat.sub_zero]
        | succ k =>
          rw [hshift]
          exact hholds.readable k c hk

theorem outcome_readChain_succ {fuel start size : Nat} {written : List UInt8} (hsize : 0 < size) :
    outcome (fs.readChain (fuel + 1) start size written) = match fs.clusterToLba start with
      | .error e => .error (.storage e)
      | .ok clusterLba =>
        outcome (fs.readCluster clusterLba fs.sectorsPerCluster 0 size written) >>= fun r =>
          if r.1 = 0 then .ok r.2
          else outcome (fs.nextCluster start) >>= fun next =>
            outcome (fs.readChain fuel next r.1 r.2) := by
  rw [readChain, if_neg (by omega), outcome_liftResult_bind]
  cases fs.clusterToLba start with
  | error e => rfl
  | ok clusterLba =>
    dsimp only
    rw [outcome_bind (fs.determined_readCluster _ _ _ _ _)]
    · congr 1
      funext r
      split_ifs
      · rfl
      · exact outcome_bind (fs.determined_nextCluster _) fun _ => fs.determined_readChain _ _ _ _
    · intro r
      split_ifs
      · exact .value _
      · exact (fs.determined_nextCluster _).bind fun _ => fs.determined_readChain _ _ _ _

/-- **Reading along the chain**, with a round for every byte at most: clusters that hold what is
left give its bytes, and without such clusters there is an error. -/
theorem outcome_readChain (hpos : 0 < fs.sectorsPerCluster) {fuel size : Nat} (start : Nat)
    (hfuel : size < fuel) (written : List UInt8) :
    (∀ clusters, fs.HoldsFile start size clusters →
      outcome (fs.readChain fuel start size written) =
        .ok (written ++ (fs.chainContents clusters).take size)) ∧
    ((∀ clusters, ¬ fs.HoldsFile start size clusters) →
      ∃ e, outcome (fs.readChain fuel start size written) = .error (.storage e)) := by
  have hbytes : 0 < fs.clusterBytes := Nat.mul_pos hpos (by decide)
  induction fuel generalizing start size written with
  | zero => exact absurd hfuel (Nat.not_lt_zero _)
  | succ fuel ih =>
    rcases Nat.eq_zero_or_pos size with rfl | hsize
    · rw [readChain, if_pos rfl]
      refine ⟨fun clusters _ => ?_, fun hnone => ?_⟩
      · rw [List.take_zero, List.append_nil]
        rfl
      · refine absurd ⟨.none start, Nat.zero_le _, by simp, fun k c hk => ?_⟩ (hnone [])
        cases hk
    rw [fs.outcome_readChain_succ hsize]
    cases hlba : fs.clusterToLba start with
    | error e =>
      refine ⟨fun clusters hholds => ?_, fun _ => ⟨e, rfl⟩⟩
      obtain ⟨_, rfl, ⟨clusterLba, hok⟩, -⟩ := (fs.holdsFile_iff hsize).mp hholds
      rw [hlba] at hok
      cases hok
    | ok clusterLba =>
      obtain ⟨hreadable, hrun, hlong⟩ | ⟨hbroken, e, hrun⟩ := fs.outcome_readCluster
        (fs.wrap64_add_eq_sectorLba hlba) fs.sectorsPerCluster 0 size written
      · dsimp only
        rw [hrun]
        show (∀ clusters, fs.HoldsFile start size clusters →
          (if size - fs.clusterBytes = 0 then _ else _) = _) ∧
          ((∀ clusters, ¬ fs.HoldsFile start size clusters) →
            ∃ e, (if size - fs.clusterBytes = 0 then _ else _) = _)
        have hlen : (fs.clusterContents start).length ≤ fs.clusterBytes :=
          fs.length_bytesFrom_le _ _ _
        rw [← clusterContents, ← clusterBytes] at hlong
        by_cases hfits : size ≤ fs.clusterBytes
        · -- The file ends in this cluster, and the next link is not followed.
          rw [if_pos (by omega)]
          refine ⟨fun clusters hholds => ?_, fun hnone => ?_⟩
          · obtain ⟨rest, rfl, -⟩ := (fs.holdsFile_iff hsize).mp hholds
            rw [chainContents, List.flatMap_cons, List.take_append_of_le_length (by omega)]
            rfl
          · exact absurd ((fs.holdsFile_iff hsize).mpr
              ⟨[], rfl, ⟨clusterLba, hlba⟩, hreadable, .inl ⟨rfl, hfits⟩⟩) (hnone [start])
        · rw [if_neg (by omega)]
          have hfull : (fs.clusterContents start).length = fs.clusterBytes := by omega
          cases hnext : outcome (fs.nextCluster start) with
          | ok next =>
            have hlink := fs.outcome_nextCluster_eq_ok.mp hnext
            have hless : size - fs.clusterBytes < fuel := by omega
            obtain ⟨hread, hfail⟩ :=
              ih next hless (written ++ (fs.clusterContents start).take size)
            refine ⟨fun clusters hholds => ?_, fun hnone => ?_⟩
            · obtain ⟨rest, rfl, -, -, ⟨-, hle⟩ | ⟨next', hlink', hrest⟩⟩ :=
                (fs.holdsFile_iff hsize).mp hholds
              · exact absurd hle hfits
              · cases hnext.symm.trans (fs.outcome_nextCluster_eq_ok.mpr hlink')
                show outcome (fs.readChain fuel next _ _) = _
                rw [chainContents, List.flatMap_cons, List.take_append, hfull,
                  ← List.append_assoc]
                exact hread rest hrest
            · refine hfail fun rest hholds => hnone (start :: rest) ?_
              exact (fs.holdsFile_iff hsize).mpr
                ⟨rest, rfl, ⟨clusterLba, hlba⟩, hreadable, .inr ⟨next, hlink, hholds⟩⟩
          | error stop =>
            have hnofuel := fs.outcome_nextCluster_ne start
            rw [hnext] at hnofuel
            refine ⟨fun clusters hholds => ?_, fun _ => ?_⟩
            · obtain ⟨_, rfl, -, -, ⟨-, hle⟩ | ⟨next, hlink, -⟩⟩ :=
                (fs.holdsFile_iff hsize).mp hholds
              · exact absurd hle hfits
              · cases hnext.symm.trans (fs.outcome_nextCluster_eq_ok.mpr hlink)
            · cases stop with
              | outOfFuel => exact absurd rfl hnofuel
              | storage e => exact ⟨e, rfl⟩
      · refine ⟨fun clusters hholds => ?_, fun _ => ⟨e, ?_⟩⟩
        · obtain ⟨_, rfl, -, hreadable, -⟩ := (fs.holdsFile_iff hsize).mp hholds
          exact absurd hreadable hbroken
        · dsimp only
          rw [hrun]
          rfl

/-- **What `read_file` puts into the buffer.** For every mounted filesystem, entry and buffer:

- a buffer shorter than the file is refused, and not written to;
- where clusters hold the file, the call returns its size, the buffer starts with that many bytes
  of the concatenated clusters, and the rest of it is as it was;
- where none do, because the chain ends or breaks before, the call returns an error. -/
theorem read_file_contents {device : BlockDevice} {partition : GptPartition} {fs : Fat32}
    (hmount : outcome (mount device partition) = .ok fs) (entry : FatDirectoryEntry) {fuel : Nat}
    (hfuel : entry.size < fuel) (log : List Nat) (buffer : Vector UInt8 n) :
    (n < entry.size →
      fs.readFileTo fuel entry (log, buffer) = .error (.storage .bufferTooSmall) (log, buffer)) ∧
    (entry.size ≤ n → ∀ clusters, fs.HoldsFile entry.firstCluster entry.size clusters →
      ∃ log' buffer', fs.readFileTo fuel entry (log, buffer) = .ok entry.size (log', buffer') ∧
        buffer'.toList =
          (fs.chainContents clusters).take entry.size ++ buffer.toList.drop entry.size) ∧
    (entry.size ≤ n → (∀ clusters, ¬ fs.HoldsFile entry.firstCluster entry.size clusters) →
      ∃ e s', fs.readFileTo fuel entry (log, buffer) = .error (.storage e) s') := by
  have hpos := (mount_eq hmount).2.2.2.sectorsPerCluster_pos
  obtain ⟨hread, hfail⟩ := fs.outcome_readChain hpos entry.firstCluster hfuel []
  have hrun := fs.determined_readChain fuel entry.firstCluster entry.size [] log
  refine ⟨fun hsmall => ?_, fun hroom clusters hholds => ?_, fun hroom hnone => ?_⟩
  · rw [readFileTo, if_pos hsmall]
    rfl
  · have hlockstep := fs.readChainTo_lockstep buffer fuel entry.firstCluster log (fills_nil buffer)
      (by rwa [List.length_nil, Nat.zero_add] : ([] : List UInt8).length + entry.size ≤ n)
    have hout := hread clusters hholds
    rw [hout] at hrun
    obtain ⟨_, ⟨log', buffer'⟩, hok, rfl, -, hlen, hbuffer⟩ := hlockstep.of_ok_right hrun
    have hsize := (outcome_of_triple (fs.readChain_triple fuel entry.firstCluster entry.size
      [])).1 _ hout
    rw [List.length_nil, Nat.zero_add] at hsize
    rw [hsize] at hok hbuffer
    refine ⟨log', buffer', ?_, hbuffer⟩
    rw [readFileTo, if_neg (by omega)]
    exact hok
  · have hlockstep := fs.readChainTo_lockstep buffer fuel entry.firstCluster log (fills_nil buffer)
      (by rwa [List.length_nil, Nat.zero_add] : ([] : List UInt8).length + entry.size ≤ n)
    obtain ⟨e, hout⟩ := hfail hnone
    rw [hout] at hrun
    obtain ⟨s', herror, -⟩ := hlockstep.of_error_right hrun
    refine ⟨e, s', ?_⟩
    rw [readFileTo, if_neg (by omega)]
    exact herror

/-- A complete chain that is long enough, in range and readable holds the file. -/
theorem holdsFile_of_chain {start size : Nat} {clusters : List Nat}
    (hchain : fs.Chain start clusters) (hcovers : size ≤ clusters.length * fs.clusterBytes)
    (hrange : ∀ cluster ∈ clusters, fs.InRange cluster)
    (hreadable : ∀ cluster ∈ clusters, ∀ i < fs.sectorsPerCluster,
      ∃ sector, fs.device.sector (fs.sectorLba cluster i) = .ok sector) :
    fs.HoldsFile start size clusters := by
  refine ⟨?_, hcovers, hrange, fun k cluster hk i hi _ => ?_⟩
  · clear hcovers hrange hreadable
    induction hchain with
    | last _ => exact .last _
    | link hlink _ ih => exact .link hlink ih
  · rw [Nat.zero_add]
    exact hreadable cluster (List.mem_of_getElem? hk) i hi

/-- A complete chain that ends before the file does leaves it without clusters. -/
theorem not_holdsFile_of_chain {start size : Nat} {clusters : List Nat}
    (hchain : fs.Chain start clusters) (hshort : clusters.length * fs.clusterBytes < size)
    (others : List Nat) : ¬ fs.HoldsFile start size others := by
  induction hchain generalizing size others with
  | last hlast =>
    intro hholds
    rw [List.length_singleton, Nat.one_mul] at hshort
    obtain ⟨rest, -, -, -, ⟨-, hle⟩ | ⟨next, hlink, -⟩⟩ :=
      (fs.holdsFile_iff (by omega)).mp hholds
    · omega
    · have hend := fs.outcome_nextCluster_of_isLast hlast
      rw [fs.outcome_nextCluster_eq_ok.mpr hlink] at hend
      cases hend
  | link hlink _ ih =>
    intro hholds
    rw [List.length_cons, Nat.succ_mul] at hshort
    obtain ⟨rest, -, -, -, ⟨-, hle⟩ | ⟨next, hlink', hrest⟩⟩ :=
      (fs.holdsFile_iff (by omega)).mp hholds
    · omega
    · cases hlink.1.symm.trans hlink'.1
      exact ih (by omega) rest hrest

/-- A file of 600 bytes in two clusters of one sector. -/
def twoClusterVolume : Fat32 :=
  smallVolume (tableOf ([3, 0, 0, 0] ++ endMark)) (sectorOf (strBytes "all sectors are the same"))

theorem read_file_contents_at_twoClusterVolume : ∃ log' buffer',
    twoClusterVolume.readFileTo 601 ⟨2, 600, false⟩ ([], Vector.replicate 700 7) =
      .ok 600 (log', buffer') ∧
    buffer'.toList = (twoClusterVolume.chainContents [2, 3]).take 600 ++ List.replicate 100 7 := by
  have hmount : outcome (mount twoClusterVolume.device smallPartition) = .ok twoClusterVolume :=
    mount_of_fields (by decide +kernel)
  have hchain : twoClusterVolume.Chain 2 [2, 3] :=
    .link ⟨by decide +kernel, by decide, by decide⟩
      (.last ⟨0x0fffffff, by decide +kernel, by decide⟩)
  have hholds : twoClusterVolume.HoldsFile 2 600 [2, 3] := by
    refine twoClusterVolume.holdsFile_of_chain hchain (by decide) ?_ fun cluster _ i _ => ⟨_, rfl⟩
    intro cluster hcluster
    simp only [List.mem_cons, List.not_mem_nil, or_false] at hcluster
    rcases hcluster with rfl | rfl
    · exact ⟨2, by decide⟩
    · exact ⟨3, by decide⟩
  obtain ⟨-, hread, -⟩ := read_file_contents hmount ⟨2, 600, false⟩ (by decide : 600 < 601) []
    (Vector.replicate 700 7)
  obtain ⟨log', buffer', hok, hbuffer⟩ := hread (by decide) [2, 3] hholds
  refine ⟨log', buffer', hok, ?_⟩
  rw [hbuffer, Vector.toList_replicate, List.drop_replicate]
  rfl

end Fat32

end Lazers.Storage
