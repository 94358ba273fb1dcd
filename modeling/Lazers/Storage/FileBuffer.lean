import Lazers.Memory.Holdings
import Lazers.Storage.RootFs

/-!
# The buffer of `RootFs::read_file` (`storage/rootfs.rs`, `memory/kernel.rs`)

`read_file` allocates a kernel buffer between the lookup and the read. The buffer
has no destructor, so what becomes of it decides both results:

- `readFile_takes`: what a call has taken from the free set when it returns.
- `readFile_releases_iff`: **leaks.** A failed call leaves the free set as it was,
  except when the read itself fails: by then the buffer is allocated, and `?` drops it.
- `readFile_agrees_iff`: **the two paths.** `read_file` and `read_file_into` give the
  same bytes or the same error, except for an empty file: there is no buffer of no bytes.
-/

namespace Lazers.Memory

/-- A free range holds `size` bytes, in whole pages. -/
def PhysicalAllocator.HasRoom (a : PhysicalAllocator) (size : Nat) : Prop :=
  0 < alignUp size pageSize / pageSize ∧
    ∃ r ∈ a.live, r.start + alignUp size pageSize / pageSize * 4096 ≤ r.stop

instance (a : PhysicalAllocator) (size : Nat) : Decidable (a.HasRoom size) :=
  inferInstanceAs (Decidable (_ ∧ _))

theorem PhysicalAllocator.HasRoom.size_pos {a : PhysicalAllocator} {size : Nat}
    (h : a.HasRoom size) : 0 < size := by
  refine Nat.pos_of_ne_zero fun hzero => ?_
  obtain ⟨hcount, -⟩ := h
  rw [hzero] at hcount
  exact absurd hcount (by decide)

/-- With room for it, a buffer of that size is taken from the free set. -/
theorem allocateKernelBuffer_of_room {s : MemoryState} {size : Nat} (hvalid : s.allocator.Valid)
    (hroom : s.allocator.HasRoom size) :
    ∃ buffer s', allocateKernelBuffer size s = .ok buffer s' ∧ buffer.len = size ∧
      s'.free ≠ s.free := by
  obtain ⟨hcount, r, hr, hfits⟩ := id hroom
  cases hpages : s.allocator.allocateContiguousPages (alignUp size pageSize / pageSize) with
  | none =>
    have hfull := PhysicalAllocator.allocateContiguousPages_eq_none hvalid hcount hpages r hr
    omega
  | some taken =>
    obtain ⟨page, a⟩ := taken
    obtain ⟨-, hfree, hsub, -⟩ := PhysicalAllocator.allocateContiguousPages_spec hvalid hpages
    refine ⟨⟨page, size, alignUp size pageSize / pageSize⟩,
      { s with
        allocator := a
        phys := s.phys.zero page (alignUp size pageSize / pageSize * pageSize) }, ?_, rfl, ?_⟩
    · rw [allocateKernelBuffer, if_neg (Nat.ne_of_gt hroom.size_pos)]
      dsimp only
      rw [MemoryState.allocateContiguousPages, hpages]
    · -- the first byte of the block was free and is not any more
      have hfirst : page ∈ block page (alignUp size pageSize / pageSize) := by
        rw [mem_block]
        omega
      intro hsame
      have hmem : page ∈ a.free := (Set.ext_iff.mp hsame page).mpr (hsub hfirst)
      rw [hfree] at hmem
      exact hmem.2 hfirst

/-- Without room nothing is taken. -/
theorem allocateKernelBuffer_of_no_room {s : MemoryState} {size : Nat} (hvalid : s.allocator.Valid)
    (hroom : ¬ s.allocator.HasRoom size) : ∃ e, allocateKernelBuffer size s = .error e s := by
  rw [allocateKernelBuffer]
  split_ifs with hzero
  · exact ⟨_, rfl⟩
  · dsimp only
    rw [MemoryState.allocateContiguousPages]
    cases hpages : s.allocator.allocateContiguousPages (alignUp size pageSize / pageSize) with
    | none => exact ⟨_, rfl⟩
    | some taken =>
      obtain ⟨page, a⟩ := taken
      obtain ⟨l₁, r, l₂, hsplit, -, -, -, hcount, hfits, -⟩ :=
        PhysicalAllocator.allocateContiguousPages_live hvalid.sound hpages
      exact absurd ⟨hcount, r, by simp [hsplit], hfits⟩ hroom

/-- What was stored over the whole buffer is read back. -/
theorem KernelBuffer.asSlice_write {buffer : KernelBuffer} (s : MemoryState) {bytes : List UInt8}
    (hlen : bytes.length = buffer.len) :
    buffer.asSlice { s with phys := s.phys.write buffer.startPaddr bytes } = bytes := by
  refine List.ext_getElem ?_ fun i hi hi' => ?_
  · rw [asSlice, List.length_map, List.length_range, hlen]
  · simp only [asSlice, List.getElem_map, List.getElem_range, ByteMemory.write]
    rw [if_pos (by omega), Nat.add_sub_cancel_left, List.getD_eq_getElem _ _ hi']

end Lazers.Memory

namespace Lazers.Storage

open Memory

variable {fs : Fat32} {fuel : Nat} {path : String} {s : MemoryState}

/-! ## What a call does -/

/-- A path that names no file. -/
theorem readFile_of_error {stop : Stop} (hopen : outcome (fs.openAbsolute fuel path) = .error stop) :
    readFile fs fuel path s = (.error stop, s) := by
  rw [readFile, hopen]

/-- A file for which there is no buffer. -/
theorem readFile_of_no_room {file : FatDirectoryEntry} (hvalid : s.allocator.Valid)
    (hopen : outcome (fs.openAbsolute fuel path) = .ok file)
    (hroom : ¬ s.allocator.HasRoom file.size) :
    ∃ e, readFile fs fuel path s = (.error (.storage (.memory e)), s) := by
  obtain ⟨e, halloc⟩ := allocateKernelBuffer_of_no_room hvalid hroom
  refine ⟨e, ?_⟩
  rw [readFile, hopen]
  dsimp only
  rw [halloc]

/-- A file with its buffer. -/
theorem readFile_of_room {file : FatDirectoryEntry} (hvalid : s.allocator.Valid)
    (hopen : outcome (fs.openAbsolute fuel path) = .ok file)
    (hroom : s.allocator.HasRoom file.size) :
    ∃ buffer s₁, buffer.len = file.size ∧ s₁.free ≠ s.free ∧
      (∀ stop, outcome (fs.readFile fuel file file.size) = .error stop →
        readFile fs fuel path s = (.error stop, s₁)) ∧
      ∀ bytes, outcome (fs.readFile fuel file file.size) = .ok bytes →
        readFile fs fuel path s =
          (.ok buffer, { s₁ with phys := s₁.phys.write buffer.startPaddr bytes }) := by
  obtain ⟨buffer, s₁, halloc, hlen, hfree⟩ := allocateKernelBuffer_of_room hvalid hroom
  refine ⟨buffer, s₁, hlen, hfree, fun stop hread => ?_, fun bytes hread => ?_⟩
  · rw [readFile, hopen]
    dsimp only
    rw [halloc]
    dsimp only
    rw [hlen, hread]
  · rw [readFile, hopen]
    dsimp only
    rw [halloc]
    dsimp only
    rw [hlen, hread]

/-- **What a call takes**: the frames of the buffer it returns, and on a failure perhaps some
that nobody has then. -/
theorem readFile_takes {s' : MemoryState} (hvalid : s.allocator.Valid)
    {r : Except Stop KernelBuffer} (h : readFile fs fuel path s = (r, s')) :
    (∀ file, r = .ok file → file.Ok ∧ Takes s s' file.frames) ∧
      ∀ stop, r = .error stop → Takes s s' ∅ := by
  cases hopen : outcome (fs.openAbsolute fuel path) with
  | error stop =>
    rw [readFile_of_error hopen] at h
    cases h
    exact ⟨by rintro _ ⟨⟩, fun _ _ => .refl hvalid⟩
  | ok file =>
    by_cases hroom : s.allocator.HasRoom file.size
    · obtain ⟨buffer, s₁, halloc, hlen, -⟩ := allocateKernelBuffer_of_room hvalid hroom
      obtain ⟨hbuffer, htakes⟩ := allocateKernelBuffer_takes hvalid halloc
      rw [readFile, hopen] at h
      dsimp only at h
      rw [halloc] at h
      dsimp only at h
      cases hread : outcome (fs.readFile fuel file buffer.len) with
      | error stop =>
        rw [hread] at h
        cases h
        exact ⟨by rintro _ ⟨⟩, fun _ _ => htakes.forget⟩
      | ok bytes =>
        rw [hread] at h
        cases h
        refine ⟨fun file' hfile => ?_, by rintro _ ⟨⟩⟩
        obtain rfl := Except.ok.inj hfile
        exact ⟨hbuffer, htakes.valid, htakes.taken, htakes.rest, htakes.apart⟩
    · obtain ⟨e, hnone⟩ := readFile_of_no_room hvalid hopen hroom
      rw [hnone] at h
      cases h
      exact ⟨by rintro _ ⟨⟩, fun _ _ => .refl hvalid⟩

theorem readRootFile_takes {rootFs : Option Fat32} {s' : MemoryState}
    (hvalid : s.allocator.Valid) {r : Except Stop KernelBuffer}
    (h : readRootFile rootFs fuel path s = (r, s')) :
    (∀ file, r = .ok file → file.Ok ∧ Takes s s' file.frames) ∧
      ∀ stop, r = .error stop → Takes s s' ∅ := by
  cases rootFs with
  | none =>
    cases h
    exact ⟨by rintro _ ⟨⟩, fun _ _ => .refl hvalid⟩
  | some fs => exact readFile_takes hvalid h

/-! ## Leaks -/

/-- **When a failed `read_file` gives everything back.** It does so unless the path names a
file, there is room for its buffer, and then the file cannot be read: for every volume, path
and allocator. -/
theorem readFile_releases_iff (hvalid : s.allocator.Valid) :
    (∀ e s', readFile fs fuel path s = (.error (.storage e), s') → s'.free = s.free) ↔
      ¬ ∃ file e, outcome (fs.openAbsolute fuel path) = .ok file ∧
        s.allocator.HasRoom file.size ∧
        outcome (fs.readFile fuel file file.size) = .error (.storage e) := by
  constructor
  · rintro hsame ⟨file, e, hopen, hroom, hread⟩
    obtain ⟨buffer, s₁, -, hfree, herror, -⟩ := readFile_of_room hvalid hopen hroom
    exact hfree (hsame e s₁ (herror _ hread))
  · intro hgood e s' hrun
    cases hopen : outcome (fs.openAbsolute fuel path) with
    | error stop =>
      rw [readFile_of_error hopen] at hrun
      cases hrun
      rfl
    | ok file =>
      by_cases hroom : s.allocator.HasRoom file.size
      · obtain ⟨buffer, s₁, -, -, herror, hok⟩ := readFile_of_room hvalid hopen hroom
        cases hread : outcome (fs.readFile fuel file file.size) with
        | error stop =>
          -- the error that is returned is the error of the read
          rw [herror stop hread] at hrun
          cases hrun
          exact absurd ⟨file, e, hopen, hroom, hread⟩ hgood
        | ok bytes =>
          rw [hok bytes hread] at hrun
          cases hrun
      · obtain ⟨e', hnone⟩ := readFile_of_no_room hvalid hopen hroom
        rw [hnone] at hrun
        cases hrun
        rfl

/-! ## A volume of one file -/

/-- A root directory with the one file `A`, its length, and its only sector. -/
def oneFileVolume (length : UInt8) (data : Except StorageError Sector) : Fat32 where
  device := ⟨fun lba =>
    if lba = 2 then
      .ok (sectorOf (strBytes "A          " ++ [32] ++ List.replicate 14 0 ++ [3, 0, length]))
    else if lba = 3 then data
    else .ok (sectorOf [])⟩
  partitionStartLba := 0
  partitionSectorCount := 100
  sectorsPerCluster := 1
  reservedSectorCount := 1
  rootCluster := 2
  firstDataSector := 2

theorem readFile_releases_at_missing :
    ∃ s', readFile (oneFileVolume 1 (.ok (sectorOf [7]))) 4 "/B" overlapRun.state =
      (.error (.storage .fileNotFound), s') ∧ s'.free = overlapRun.state.free := by
  have hmissing : outcome ((oneFileVolume 1 (.ok (sectorOf [7]))).openAbsolute 4 "/B") =
      .error (.storage .fileNotFound) := by
    decide +kernel
  have hrun := readFile_of_error (s := overlapRun.state) hmissing
  refine ⟨_, hrun, (readFile_releases_iff overlapRun_contextOk.valid).mpr ?_ _ _ hrun⟩
  rintro ⟨file, e, hopen, -⟩
  rw [hmissing] at hopen
  cases hopen

/-- **A leak.** The disk cannot read the only sector of the file. -/
theorem readFile_leaks :
    ∃ e s', readFile (oneFileVolume 1 (.error .ahciTaskFileError)) 4 "/A" overlapRun.state =
      (.error (.storage e), s') ∧ s'.free ≠ overlapRun.state.free := by
  have hopen : outcome ((oneFileVolume 1 (.error .ahciTaskFileError)).openAbsolute 4 "/A") =
      .ok ⟨3, 1, false⟩ := by
    decide +kernel
  have hroom : overlapRun.state.allocator.HasRoom 1 := by decide +kernel
  have hread : outcome ((oneFileVolume 1 (.error .ahciTaskFileError)).readFile 4 ⟨3, 1, false⟩ 1) =
      .error (.storage .ahciTaskFileError) := by
    decide +kernel
  obtain ⟨buffer, s₁, -, hfree, herror, -⟩ :=
    readFile_of_room overlapRun_contextOk.valid hopen hroom
  exact ⟨.ahciTaskFileError, s₁, herror _ hread, hfree⟩

/-! ## The two paths -/

/-- What a caller of `read_file` has then: the bytes in the buffer, or the error. -/
def contents : Except Stop KernelBuffer × MemoryState → Except Stop (List UInt8)
  | (.ok buffer, s) => .ok (buffer.asSlice s)
  | (.error stop, _) => .error stop

/-- A buffer that is long enough is as good as one of the size of the file. -/
theorem Fat32.readFile_capacity {file : FatDirectoryEntry} {capacity : Nat}
    (h : file.size ≤ capacity) : fs.readFile fuel file capacity = fs.readFile fuel file file.size := by
  rw [Fat32.readFile, Fat32.readFile, if_neg (by omega), if_neg (by omega)]

/-- Reading an empty file takes nothing from the disk. -/
theorem Fat32.outcome_readFile_empty (fs : Fat32) (fuel : Nat) {file : FatDirectoryEntry}
    (hzero : file.size = 0) :
    outcome (fs.readFile fuel file file.size) = .ok [] ∨
      outcome (fs.readFile fuel file file.size) = .error .outOfFuel := by
  rw [Fat32.readFile, if_neg (by omega), hzero]
  cases fuel with
  | zero => exact .inr rfl
  | succ fuel => exact .inl rfl

/-- **The two paths agree**, with enough memory and a long enough buffer, on every path that
does not name an empty file, and on no other. -/
theorem readFile_agrees_iff {capacity : Nat} (hvalid : s.allocator.Valid)
    (hfits : ∀ file, outcome (fs.openAbsolute fuel path) = .ok file →
      file.size ≤ capacity ∧ (0 < file.size → s.allocator.HasRoom file.size)) :
    contents (readFile fs fuel path s) = outcome (readFileInto fs fuel path capacity) ↔
      ∀ file, outcome (fs.openAbsolute fuel path) = .ok file → 0 < file.size := by
  rw [outcome_readFileInto]
  cases hopen : outcome (fs.openAbsolute fuel path) with
  | error stop =>
    rw [readFile_of_error hopen]
    refine ⟨fun _ file h => ?_, fun _ => rfl⟩
    cases h
  | ok file =>
    obtain ⟨hcapacity, hroom⟩ := hfits file hopen
    show contents (readFile fs fuel path s) = outcome (fs.readFile fuel file capacity) ↔ _
    rw [Fat32.readFile_capacity hcapacity]
    have hlength := outcome_of_triple (fs.readFile_length fuel file file.size)
    constructor
    · rintro hsame file' hfile
      cases hfile
      refine Nat.pos_of_ne_zero fun hzero => ?_
      -- there is no buffer on the one side, and on the other nothing to read
      obtain ⟨e, hnone⟩ := readFile_of_no_room (s := s) hvalid hopen
        fun hroom => absurd hroom.size_pos (by omega)
      rw [hnone] at hsame
      obtain hread | hread := fs.outcome_readFile_empty fuel hzero
      · rw [hread] at hsame
        cases hsame
      · rw [hread] at hsame
        cases hsame
    · intro hpos
      obtain ⟨buffer, s₁, hlen, -, herror, hok⟩ :=
        readFile_of_room hvalid hopen (hroom (hpos file rfl))
      cases hread : outcome (fs.readFile fuel file file.size) with
      | error stop =>
        rw [herror stop hread]
        rfl
      | ok bytes =>
        rw [hok bytes hread]
        show Except.ok _ = _
        rw [KernelBuffer.asSlice_write s₁ ((hlength.1 bytes hread).1.trans hlen.symm)]

theorem readFile_agrees_at_oneByte :
    contents (readFile (oneFileVolume 1 (.ok (sectorOf [7]))) 4 "/A" overlapRun.state) =
      outcome (readFileInto (oneFileVolume 1 (.ok (sectorOf [7]))) 4 "/A" 1) := by
  have hopen : outcome ((oneFileVolume 1 (.ok (sectorOf [7]))).openAbsolute 4 "/A") =
      .ok ⟨3, 1, false⟩ := by
    decide +kernel
  refine (readFile_agrees_iff overlapRun_contextOk.valid fun file h => ?_).mpr fun file h => ?_
  · rw [hopen] at h
    cases h
    exact ⟨Nat.le_refl 1, fun _ => by decide +kernel⟩
  · rw [hopen] at h
    cases h
    exact Nat.one_pos

/-- **An empty file** is read into any buffer of the caller and into no kernel buffer. -/
theorem readFile_differs_on_empty :
    contents (readFile (oneFileVolume 0 (.ok (sectorOf []))) 4 "/A" overlapRun.state) =
        .error (.storage (.memory .invalidKernelBufferSize)) ∧
      outcome (readFileInto (oneFileVolume 0 (.ok (sectorOf []))) 4 "/A" 0) = .ok [] := by
  have hopen : outcome ((oneFileVolume 0 (.ok (sectorOf []))).openAbsolute 4 "/A") =
      .ok ⟨3, 0, false⟩ := by
    decide +kernel
  constructor
  · rw [readFile, hopen]
    rfl
  · rw [outcome_readFileInto, hopen]
    rfl

end Lazers.Storage
