import Lazers.Memory.LoadCycle

/-!
# What the memory calls take and give back

Seen from outside, a call on the memory state does one of two things to the free set: it
takes something out of it that was free (`Takes`), or it puts something into it (`Gives`).
Whatever is taken is apart from what stays free.

A failed load takes, too: frames that were drawn and not recorded do not come back.
-/

namespace Lazers.Memory

open Builder

/-- From `s` to `s'`, `S` was taken out of the free set, and perhaps more. -/
structure Takes (s s' : MemoryState) (S : Set Nat) : Prop where
  valid : s'.allocator.Valid
  taken : S ⊆ s.free
  rest : s'.free ⊆ s.free
  apart : Disjoint S s'.free

/-- From `s` to `s'`, `S` was put into the free set. -/
structure Gives (s s' : MemoryState) (S : Set Nat) : Prop where
  valid : s'.allocator.Valid
  free : s'.free = s.free ∪ S

theorem Takes.refl {s : MemoryState} (h : s.allocator.Valid) : Takes s s ∅ :=
  ⟨h, Set.empty_subset _, subset_rfl, Set.empty_disjoint _⟩

theorem Takes.forget {s s' : MemoryState} {S : Set Nat} (h : Takes s s' S) : Takes s s' ∅ :=
  ⟨h.valid, Set.empty_subset _, h.rest, Set.empty_disjoint _⟩

/-- Whatever was taken before. -/
theorem Takes.after {s s₁ s' : MemoryState} {S T : Set Nat} (h : Takes s₁ s' S)
    (hbefore : Takes s s₁ T) : Takes s s' S :=
  ⟨h.valid, h.taken.trans hbefore.rest, h.rest.trans hbefore.rest, h.apart⟩

/-! ## Page lists -/

/-- A list of pages that `OwnedPages::release` can give back. -/
structure PagesOk (pages : List Nat) : Prop where
  nodup : pages.Nodup
  bounds : ∀ q ∈ pages, q % 4096 = 0 ∧ 0 < q ∧ q + 4096 < u64Limit

theorem pagesOk_nil : PagesOk [] := ⟨List.nodup_nil, by simp⟩

theorem OwnedPages.release_gives {pages : OwnedPages} {s s' : MemoryState}
    (hvalid : s.allocator.Valid) (hpages : PagesOk pages.list) (h : pages.release s = some s') :
    Gives s s' (frameSet pages.list) := by
  obtain ⟨hvalid', hfree, -⟩ := releasePages_spec hvalid hpages.bounds h
  exact ⟨hvalid', hfree⟩

/-! ## The kernel's own page tables -/

theorem allocatePage_takes {s s' : MemoryState} {page : Nat} (hvalid : s.allocator.Valid)
    (h : MemoryState.allocatePage s = .ok page s') :
    Takes s s' (block page 1) ∧ s'.kernelSpace = s.kernelSpace := by
  obtain ⟨a, hsome, rfl⟩ := MemoryState.allocatePage_eq_ok h
  obtain ⟨hvalid', hfree, hsub, -⟩ := PhysicalAllocator.allocatePage_spec hvalid hsome
  refine ⟨⟨hvalid', hsub, ?_, ?_⟩, rfl⟩
  · show a.free ⊆ s.free
    rw [hfree]
    exact Set.sdiff_subset
  · show Disjoint (block page 1) a.free
    rw [hfree]
    exact Set.disjoint_sdiff_right

theorem Draws.takes {b b' : BuilderState} (hvalid : b.state.allocator.Valid) (h : Draws b b') :
    Takes b.state b'.state ∅ ∧ b'.state.kernelSpace = b.state.kernelSpace := by
  obtain ⟨recorded, lost, hdrawn⟩ := h
  refine ⟨⟨hdrawn.valid, Set.empty_subset _, ?_, Set.empty_disjoint _⟩, ?_⟩
  · rw [MemoryState.free, free_eq_frameSet hdrawn.valid, MemoryState.free,
      free_eq_frameSet hvalid, frameSet_perm hdrawn.perm, frameSet_append, frameSet_append]
    exact Set.subset_union_right.trans Set.subset_union_right
  · rw [hdrawn.context]

theorem runBuilder_takes {α : Type} {x : Builder α} (hx : Builder.TakesFrames x)
    {s s' : MemoryState} (hvalid : s.allocator.Valid)
    (h : (∃ r, runBuilder x s = .ok r s') ∨ ∃ e, runBuilder x s = .error e s') :
    Takes s s' ∅ ∧ s'.kernelSpace = s.kernelSpace := by
  have hdraws := hx.draws { state := s, ownedPages := none }
  obtain ⟨r, hrun⟩ | ⟨e, hrun⟩ := h
  · exact (hdraws.ok (.refl hvalid) (runBuilder_eq_ok hx hvalid hrun).1).takes hvalid
  · exact (hdraws.error (.refl hvalid) (runBuilder_eq_error hx hvalid hrun).1).takes hvalid

/-- The frames of the kernel's page tables are not free, and its root is one of them. -/
structure TablesHeld (s : MemoryState) (tables : Set Nat) : Prop where
  valid : s.allocator.Valid
  apart : Disjoint tables s.free
  root : ∀ space, s.kernelSpace = some space → block space.rootPaddr 1 ⊆ tables

/-- Nothing comes back. -/
theorem TablesHeld.takes {s s' : MemoryState} {tables : Set Nat} (h : TablesHeld s tables)
    {S : Set Nat} (htakes : Takes s s' S) (hspace : s'.kernelSpace = s.kernelSpace) :
    TablesHeld s' tables :=
  ⟨htakes.valid, h.apart.mono_right htakes.rest, fun space h' => h.root space (hspace ▸ h')⟩

/-- What was taken in between may be counted as a table. -/
theorem TablesHeld.grow {s s' : MemoryState} {tables : Set Nat} (h : TablesHeld s' tables) :
    TablesHeld s' (tables ∪ (s.free \ s'.free)) := by
  refine ⟨h.valid, ?_, fun space hspace => (h.root space hspace).trans Set.subset_union_left⟩
  rw [Set.disjoint_union_left]
  exact ⟨h.apart, Set.disjoint_sdiff_left⟩

theorem installKernelSpace_tables {bootInfo : BootInfo} {s₁ s : MemoryState}
    (hvalid : s₁.allocator.Valid) (h : installKernelSpace bootInfo s₁ = .ok () s) :
    TablesHeld s (s₁.free \ s.free) := by
  obtain ⟨root, s₂, s₃, s₄, halloc, hwindow, hframebuffer, rfl⟩ := installKernelSpace_eq_ok h
  obtain ⟨hroot, -⟩ := allocatePage_takes hvalid halloc
  obtain ⟨hwindow, -⟩ :=
    runBuilder_takes (Builder.mapIdentity2mRange_takes _ _ _ _) hroot.valid (.inl ⟨_, hwindow⟩)
  have hrest : Takes s₃ s₄ ∅ := by
    split_ifs at hframebuffer
    · exact (runBuilder_takes (Builder.mapIdentity4kRange_takes _ _ _ _) hwindow.valid
        (.inl ⟨_, hframebuffer⟩)).1
    · rw [hframebuffer]
      exact .refl hwindow.valid
  refine ⟨hrest.valid, Set.disjoint_sdiff_left, ?_⟩
  rintro _ ⟨⟩ x hx
  refine ⟨hroot.taken hx, fun hfree => ?_⟩
  exact Set.disjoint_left.mp hroot.apart hx (hwindow.rest (hrest.rest hfree))

theorem mapKernelIdentityRange_takes {s s' : MemoryState} {start stop : Nat} {writable : Bool}
    (hvalid : s.allocator.Valid)
    (h : (∃ r, mapKernelIdentityRange start stop writable s = .ok r s') ∨
      ∃ e, mapKernelIdentityRange start stop writable s = .error e s') :
    Takes s s' ∅ ∧ s'.kernelSpace = s.kernelSpace := by
  cases hspace : s.kernelSpace with
  | none =>
    rw [mapKernelIdentityRange, hspace] at h
    obtain ⟨_, hrun⟩ | ⟨_, hrun⟩ := h
    · cases hrun
    · cases hrun
      exact ⟨.refl hvalid, hspace⟩
  | some space =>
    rw [mapKernelIdentityRange, hspace] at h
    have hbuild : ∀ {s₁}, ((∃ r, runBuilder (Builder.mapIdentity4kRange space.rootPaddr start stop
        (kernelFlags writable)) s = .ok r s₁) ∨ ∃ e, runBuilder (Builder.mapIdentity4kRange
          space.rootPaddr start stop (kernelFlags writable)) s = .error e s₁) →
        Takes s s₁ ∅ ∧ s₁.kernelSpace = some space := fun hrun =>
      hspace ▸ runBuilder_takes (Builder.mapIdentity4kRange_takes _ _ _ _) hvalid hrun
    -- the record is no matter of the allocator
    have hrecord : ∀ {s₁ : MemoryState}, Takes s s₁ ∅ ∧ s₁.kernelSpace = some space →
        s'.allocator = s₁.allocator → s'.kernelSpace = s₁.kernelSpace →
        Takes s s' ∅ ∧ s'.kernelSpace = some space := by
      rintro s₁ ⟨htakes, hsome⟩ hallocator hkernel
      refine ⟨⟨hallocator ▸ htakes.valid, htakes.taken, ?_, Set.empty_disjoint _⟩,
        hkernel.trans hsome⟩
      rw [MemoryState.free, hallocator]
      exact htakes.rest
    obtain ⟨_, hrun⟩ | ⟨_, hrun⟩ := h
    · obtain ⟨_, s₁, hmap, hlog⟩ := EStateM.bind_eq_ok.mp hrun
      have hframe := recordSharedKernelMapping_frame start stop writable s₁
      rw [hlog] at hframe
      exact hrecord (hbuild (.inl ⟨_, hmap⟩)) hframe.2.1 hframe.2.2.1
    · obtain hmap | ⟨_, s₁, hmap, hlog⟩ := EStateM.bind_eq_error.mp hrun
      · exact hbuild (.inr ⟨_, hmap⟩)
      · have hframe := recordSharedKernelMapping_frame start stop writable s₁
        rw [hlog] at hframe
        exact hrecord (hbuild (.inl ⟨_, hmap⟩)) hframe.2.1 hframe.2.2.1

/-- **In every run of the kernel's own mappings**, whatever the ranges. -/
theorem KernelRun.Reachable.tablesHeld {bootInfo : BootInfo} {image : KernelImage}
    {ok : MemoryState → Nat → Nat → Prop} (hregions : ∀ r ∈ bootInfo.memoryRegions, r.Regular)
    {run : KernelRun} (h : Reachable bootInfo image ok run) :
    TablesHeld run.state run.tables := by
  induction h with
  | init filled booted =>
    obtain ⟨hvalid, -⟩ := initializeAllocator_spec hregions filled
    rw [Memory.init, filled, Option.map_some, Option.some.injEq] at booted
    exact installKernelSpace_tables hvalid booted
  | @call run start stop writable reached allowed ih =>
    rw [KernelRun.call]
    cases hrun : mapKernelIdentityRange start stop writable run.state with
    | ok r s =>
      obtain ⟨htakes, hspace⟩ := mapKernelIdentityRange_takes ih.valid (.inl ⟨r, hrun⟩)
      exact (ih.takes htakes hspace).grow
    | error e s =>
      obtain ⟨htakes, hspace⟩ := mapKernelIdentityRange_takes ih.valid (.inr ⟨e, hrun⟩)
      exact (ih.takes htakes hspace).grow

/-! ## Kernel buffers -/

/-- The bytes of the pages a buffer lies in. -/
def KernelBuffer.frames (buffer : KernelBuffer) : Set Nat :=
  block buffer.startPaddr buffer.pageCount

/-- A buffer that `release` can give back. -/
structure KernelBuffer.Ok (buffer : KernelBuffer) : Prop where
  pos : 0 < buffer.pageCount
  aligned : buffer.startPaddr % 4096 = 0
  start_pos : 0 < buffer.startPaddr
  stop_lt : buffer.startPaddr + buffer.pageCount * 4096 < u64Limit

theorem allocateKernelBuffer_takes {s s' : MemoryState} {size : Nat} {buffer : KernelBuffer}
    (hvalid : s.allocator.Valid) (h : allocateKernelBuffer size s = .ok buffer s') :
    buffer.Ok ∧ Takes s s' buffer.frames := by
  obtain ⟨hvalid', hfree, hapart, hpos, haligned, hstart, hstop⟩ :=
    allocateKernelBuffer_frames hvalid h
  refine ⟨⟨hpos, haligned, hstart, hstop⟩, hvalid', ?_, ?_, hapart⟩
  · rw [hfree]
    exact Set.subset_union_left
  · rw [hfree]
    exact Set.subset_union_right

theorem KernelBuffer.release_gives {buffer : KernelBuffer} {s s' : MemoryState}
    (hvalid : s.allocator.Valid) (hbuffer : buffer.Ok) (h : buffer.release s = some s') :
    Gives s s' buffer.frames := by
  obtain ⟨a, hfree, rfl⟩ := Option.map_eq_some_iff.mp h
  obtain ⟨hvalid', hfree'⟩ := PhysicalAllocator.freeContiguousPages_spec hvalid hbuffer.pos
    hbuffer.aligned hbuffer.start_pos hbuffer.stop_lt hfree
  exact ⟨hvalid', hfree'⟩

/-! ## Loading -/

/-- The first page that is recorded is the root of the new address space. -/
theorem buildUserSpace_root {elf : Elf.ElfImage} {bytes : List UInt8} {startup : ProgramStartup}
    {s : MemoryState} {r : Nat × Nat} {b : BuilderState} (hvalid : s.allocator.Valid)
    (h : buildUserSpace elf bytes startup { state := s, ownedPages := some OwnedPages.empty } =
      .ok r b) : r.1 ∈ (b.ownedPages.getD OwnedPages.empty).list := by
  obtain ⟨root, b₁, halloc, hrun⟩ := EStateM.bind_eq_ok.mp h
  obtain ⟨_, b₂, hpush, hrest⟩ := EStateM.bind_eq_ok.mp hrun
  have hb₁ : Keeps [root] { state := s, ownedPages := some OwnedPages.empty } b₁ :=
    (allocatePage_holds _ []).ok ⟨[], .refl hvalid⟩ halloc
  have hb₂ : Keeps [] { state := s, ownedPages := some OwnedPages.empty } b₂ :=
    (pushOwned_takes _ [] root).ok hb₁ hpush
  -- with the root in the list, the other steps only append to it
  have hroot : ∃ owned, b₂.ownedPages = some owned ∧ root ∈ owned.list := by
    obtain ⟨recorded, hdrawn⟩ := hb₁
    obtain ⟨owned₁, howned₁, -⟩ := Option.map_eq_some_iff.mp hdrawn.owned
    rw [pushOwned, howned₁] at hpush
    dsimp only at hpush
    obtain ⟨hfull, -⟩ | ⟨owned₂, hroom, -, hlist⟩ := owned₁.push_cases root
    · rw [hfull] at hpush
      cases hpush
    · rw [hroom] at hpush
      cases hpush
      exact ⟨owned₂, rfl, by rw [hlist]; simp⟩
  have hsteps : Triple (Keeps [] b₂) (do
      mapSharedKernelContext root
      let pages ← loadSegments root bytes elf.programHeaders UserPageMap.new
      let pages ← addStackPages root userStackPages userStackBase pages
      let userStackTop ← writeStartupArguments pages startup
      return (root, userStackTop) : Builder (Nat × Nat))
      (fun r b => r.1 = root ∧ Keeps [] b₂ b) fun _ _ => True := by
    refine Triple.bind ((mapSharedKernelContext_takes root b₂ []).conseq (fun _ h => h)
      (fun _ _ h => h) fun _ _ _ => trivial) fun _ => ?_
    refine Triple.bind ((loadSegments_takes _ _ _ _ b₂ []).conseq (fun _ h => h)
      (fun _ _ h => h) fun _ _ _ => trivial) fun _ => ?_
    refine Triple.bind ((addStackPages_takes _ _ _ _ b₂ []).conseq (fun _ h => h)
      (fun _ _ h => h) fun _ _ _ => trivial) fun _ => ?_
    refine Triple.bind ((writeStartupArguments_takes _ _ b₂ []).conseq (fun _ h => h)
      (fun _ _ h => h) fun _ _ _ => trivial) fun _ => ?_
    exact Triple.pure fun _ h => ⟨rfl, h⟩
  obtain ⟨hfst, recorded, hdrawn⟩ := hsteps.ok ⟨[], .refl hb₂.draws.valid⟩ hrest
  obtain ⟨owned, howned, hmem⟩ := hroot
  have hlist := hdrawn.owned
  rw [howned, Option.map_some, Option.map_eq_some_iff] at hlist
  obtain ⟨owned', howned', hlist⟩ := hlist
  rw [howned', Option.getD_some, hlist, hfst]
  exact List.mem_append_left _ hmem

/-- **A load** takes the pages of its program, which hold the root table, and nothing else. -/
theorem loadUserProgram_takes {s s' : MemoryState} {bytes : List UInt8} {startup : ProgramStartup}
    {p : LoadedUserProgram} (hvalid : s.allocator.Valid)
    (h : loadUserProgram bytes startup s = some (.ok p, s')) :
    PagesOk p.ownedPages.list ∧ p.addressSpace.rootPaddr ∈ p.ownedPages.list ∧
      Takes s s' (frameSet p.ownedPages.list) := by
  have hdrawn := loadUserProgram_drawn hvalid h
  obtain ⟨hvalid', hfree, hbounds⟩ := loadUserProgram_frames hvalid h
  have hperm := hdrawn.perm
  rw [List.nil_append] at hperm
  have hnodup := hperm.nodup_iff.mp (PhysicalAllocator.frames_nodup hvalid)
  have hapart := ((apart_frames hvalid).perm hperm).disjoint
  rw [← free_eq_frameSet hvalid'] at hapart
  refine ⟨⟨(List.nodup_append.mp hnodup).1, hbounds⟩, ?_, hvalid', ?_, ?_, hapart⟩
  · rw [loadUserProgram] at h
    cases hparse : Elf.ElfImage.parse bytes with
    | error e =>
      rw [hparse] at h
      cases h
    | ok elf =>
      rw [hparse] at h
      dsimp only at h
      split_ifs at h
      · cases h
      · cases hrun : buildUserSpace elf bytes startup
            { state := s, ownedPages := some OwnedPages.empty } with
        | error e b =>
          rw [hrun] at h
          obtain ⟨s₁, -, h⟩ := Option.map_eq_some_iff.mp h
          cases h
        | ok r b =>
          rw [hrun] at h
          cases h
          exact buildUserSpace_root hvalid hrun
  · rw [hfree]
    exact Set.subset_union_left
  · rw [hfree]
    exact Set.subset_union_right

/-- A load that fails. -/
theorem loadUserProgram_failed {s s' : MemoryState} {bytes : List UInt8}
    {startup : ProgramStartup} {e : MemoryError} (hvalid : s.allocator.Valid)
    (h : loadUserProgram bytes startup s = some (.error e, s')) : Takes s s' ∅ := by
  rw [loadUserProgram] at h
  cases hparse : Elf.ElfImage.parse bytes with
  | error e' =>
    rw [hparse] at h
    cases h
    exact .refl hvalid
  | ok elf =>
    rw [hparse] at h
    dsimp only at h
    split_ifs at h
    · cases h
      exact .refl hvalid
    · cases hrun : buildUserSpace elf bytes startup
          { state := s, ownedPages := some OwnedPages.empty } with
      | ok r b =>
        rw [hrun] at h
        cases h
      | error e' b =>
        rw [hrun] at h
        obtain ⟨s₁, hrelease, h⟩ := Option.map_eq_some_iff.mp h
        cases h
        obtain ⟨recorded, lost, -, hvalid', hfree, -⟩ := loadUserProgram_error hvalid hrun hrelease
        refine ⟨hvalid', Set.empty_subset _, ?_, Set.empty_disjoint _⟩
        rw [hfree]
        exact Set.sdiff_subset

end Lazers.Memory
