import Lazers.Memory.UserSpace

/-!
# Loading and exiting conserve the allocator

A successful load records every frame it takes, so releasing the owned pages
gives the old free set back, and with it the old region table
(`PhysicalAllocator.Valid.ext_free`): freeing page by page in the order of
allocation merges into the ranges that were there.

The same holds for whole spawns, which hold the file buffer while they load and
during which the child may spawn and wait for children of its own (`Spawns`).
-/

namespace Lazers.Memory

open Builder

/-- A successful load records every frame it takes. -/
theorem loadUserProgram_drawn {s s' : MemoryState} {bytes : List UInt8} {startup : ProgramStartup}
    {p : LoadedUserProgram} (hvalid : s.allocator.Valid)
    (h : loadUserProgram bytes startup s = some (.ok p, s')) :
    Drawn { state := s, ownedPages := some OwnedPages.empty }
      { state := s', ownedPages := some p.ownedPages } p.ownedPages.list [] := by
  unfold loadUserProgram at h
  cases helf : Elf.ElfImage.parse bytes with
  | error e =>
    rw [helf] at h
    cases h
  | ok elf =>
    rw [helf] at h
    simp only at h
    split_ifs at h
    · cases h
    · cases hrun : buildUserSpace elf bytes startup
          { state := s, ownedPages := some OwnedPages.empty } with
      | error e b =>
        rw [hrun] at h
        obtain ⟨s₁, -, h⟩ := Option.map_eq_some_iff.mp h
        cases h
      | ok r b =>
        rw [hrun] at h
        cases h
        obtain ⟨recorded, hdrawn⟩ :=
          (buildUserSpace_takes elf bytes startup _ []).ok ⟨[], .refl hvalid⟩ hrun
        have howned := hdrawn.owned
        rw [Option.map_some, Option.map_eq_some_iff] at howned
        obtain ⟨owned, hsome, hlist⟩ := howned
        rw [OwnedPages.list_empty, List.nil_append] at hlist
        simp only [hsome, Option.getD_some]
        exact ⟨hdrawn.valid, hlist ▸ hdrawn.perm, by simp, hdrawn.context⟩

/-- What the load took from the free set is what its owner holds. -/
theorem loadUserProgram_frames {s s' : MemoryState} {bytes : List UInt8} {startup : ProgramStartup}
    {p : LoadedUserProgram} (hvalid : s.allocator.Valid)
    (h : loadUserProgram bytes startup s = some (.ok p, s')) :
    s'.allocator.Valid ∧ s.free = frameSet p.ownedPages.list ∪ s'.free ∧
      ∀ q ∈ p.ownedPages.list, q % 4096 = 0 ∧ 0 < q ∧ q + 4096 < u64Limit := by
  have hdrawn := loadUserProgram_drawn hvalid h
  refine ⟨hdrawn.valid, ?_, fun q hq => ?_⟩
  · rw [MemoryState.free, free_eq_frameSet hvalid, frameSet_perm hdrawn.perm, List.nil_append,
      frameSet_append, MemoryState.free, free_eq_frameSet hdrawn.valid]
  · exact PhysicalAllocator.frame_bounds hvalid (hdrawn.perm.mem_iff.mpr (by simp [hq]))

/-- What a kernel buffer took. -/
theorem allocateKernelBuffer_frames {s s' : MemoryState} {size : Nat} {buffer : KernelBuffer}
    (hvalid : s.allocator.Valid) (h : allocateKernelBuffer size s = .ok buffer s') :
    s'.allocator.Valid ∧ s.free = block buffer.startPaddr buffer.pageCount ∪ s'.free ∧
      Disjoint (block buffer.startPaddr buffer.pageCount) s'.free ∧
      0 < buffer.pageCount ∧ buffer.startPaddr % 4096 = 0 ∧ 0 < buffer.startPaddr ∧
      buffer.startPaddr + buffer.pageCount * 4096 < u64Limit := by
  unfold allocateKernelBuffer MemoryState.allocateContiguousPages at h
  split_ifs at h
  cases hpages : s.allocator.allocateContiguousPages (alignUp size pageSize / pageSize) with
  | none =>
    simp only [hpages] at h
    cases h
  | some r =>
    obtain ⟨page, a⟩ := r
    simp only [hpages] at h
    cases h
    obtain ⟨hvalid', hfree, hsub, hrest⟩ :=
      PhysicalAllocator.allocateContiguousPages_spec hvalid hpages
    refine ⟨hvalid', ?_, ?_, hrest⟩
    · rw [MemoryState.free, MemoryState.free, hfree, Set.union_sdiff_cancel hsub]
    · rw [MemoryState.free, hfree]
      exact Set.disjoint_sdiff_right

/-- Spawns that have come to an end: the file is read into a kernel buffer, the
program is loaded and the buffer released; the child runs, with spawns of its own,
and exits; then come the later spawns. -/
inductive Spawns : MemoryState → MemoryState → Prop where
  | done (s : MemoryState) : Spawns s s
  | child {s s₁ s₂ s₃ s₄ s₅ t : MemoryState} {size : Nat} {buffer : KernelBuffer}
      {bytes : List UInt8} {startup : ProgramStartup} {p : LoadedUserProgram}
      (read : allocateKernelBuffer size s = .ok buffer s₁)
      (load : loadUserProgram bytes startup s₁ = some (.ok p, s₂))
      (released : buffer.release s₂ = some s₃) (run : Spawns s₃ s₄)
      (exit : p.ownedPages.release s₄ = some s₅) (later : Spawns s₅ t) : Spawns s t

theorem Spawns.allocator_eq {s t : MemoryState} (h : Spawns s t) (hvalid : s.allocator.Valid) :
    t.allocator = s.allocator := by
  induction h with
  | done s => rfl
  | @child s s₁ s₂ s₃ s₄ s₅ t size buffer bytes startup p read load released run exit later ih ih' =>
    obtain ⟨hvalid₁, hfree₁, -, hcount, hal, hpos, hlim⟩ := allocateKernelBuffer_frames hvalid read
    obtain ⟨hvalid₂, hfree₂, hpages⟩ := loadUserProgram_frames hvalid₁ load
    obtain ⟨a₃, hrelease, rfl⟩ := Option.map_eq_some_iff.mp released
    obtain ⟨hvalid₃, hfree₃⟩ :=
      PhysicalAllocator.freeContiguousPages_spec hvalid₂ hcount hal hpos hlim hrelease
    have hrun := ih hvalid₃
    obtain ⟨hvalid₅, hfree₅, -⟩ := releasePages_spec (hrun ▸ hvalid₃) hpages exit
    -- the buffer came back before the child's frames did
    have hsame : s₅.free = s.free := by
      rw [hfree₅, hfree₁, hfree₂, MemoryState.free, hrun]
      simp only at hfree₃ ⊢
      rw [hfree₃, Set.union_comm s₂.allocator.free, Set.union_assoc,
        Set.union_comm s₂.allocator.free]
    rw [ih' hvalid₅, hvalid₅.ext_free hvalid hsame]

/-- **Load and exit conserve the allocator.** For every valid allocator and every
image and startup block that load, releasing the owned pages restores the region
table, array and count, if it returns; and so does every number of finished
spawns, one after the other or nested. -/
theorem load_release_conserves_allocator {s : MemoryState} (hvalid : s.allocator.Valid) :
    (∀ bytes startup p s' s'', loadUserProgram bytes startup s = some (.ok p, s') →
      p.ownedPages.release s' = some s'' → s''.allocator = s.allocator) ∧
    ∀ t, Spawns s t → t.allocator = s.allocator := by
  constructor
  · intro bytes startup p s' s'' hload hrelease
    obtain ⟨hvalid', hfree', hpages⟩ := loadUserProgram_frames hvalid hload
    obtain ⟨hvalid'', hfree'', -⟩ := releasePages_spec hvalid' hpages hrelease
    refine hvalid''.ext_free hvalid ?_
    exact hfree''.trans ((Set.union_comm _ _).trans hfree'.symm)
  · exact fun t h => h.allocator_eq hvalid

/-- Load a program and release it at once. -/
def loadAndRelease (bytes : List UInt8) (startup : ProgramStartup) (s : MemoryState) :
    Option MemoryState :=
  match loadUserProgram bytes startup s with
  | some (.ok p, s') => p.ownedPages.release s'
  | _ => none

theorem load_release_conserves_allocator_at_codePage :
    ∃ p s' s'', loadUserProgram codePage ⟨"a", []⟩ overlapRun.state = some (.ok p, s') ∧
      p.ownedPages.release s' = some s'' ∧ s''.allocator = overlapRun.state.allocator := by
  have hsome : (loadAndRelease codePage ⟨"a", []⟩ overlapRun.state).isSome = true := by
    decide +kernel
  unfold loadAndRelease at hsome
  split at hsome
  · rename_i p s' hload
    obtain ⟨s'', hrelease⟩ := Option.isSome_iff_exists.mp hsome
    exact ⟨p, s', s'', hload, hrelease,
      (load_release_conserves_allocator overlapRun_contextOk.valid).1 _ _ _ _ _ hload hrelease⟩
  · cases hsome

end Lazers.Memory
