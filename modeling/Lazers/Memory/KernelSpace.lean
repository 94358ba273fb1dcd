import Lazers.Memory.Kernel
import Lazers.Memory.Ledger

/-!
# The kernel's address space over a whole boot

A run of the kernel's own mappings: `init` on some memory map, then any sequence
of `map_kernel_identity_range` calls, succeeding or failing. `KernelRun` carries
the state, the frames that serve as page tables and the ranges mapped so far.

The window is mapped with huge entries and everything else with small ones, and
`ensure_table` does not look at the huge bit. As long as no small range touches
the window, every call stores into page tables only and the walk resolves the
window and every mapped range to itself (`call_keeps_identity`). A range inside
the window makes the next store land in the memory that is mapped there
(`call_inside_window_stores_into_memory`).
-/

namespace Lazers.Memory

open PageTable AddressMap

/-! ## Reading the memory map -/

/-- The regions `initialize_allocator` adds. -/
def MemoryRegion.added (region : MemoryRegion) : Bool :=
  decide (region.kind = .usable) && decide (region.clippedStart < region.alignedEnd)

/-- Where the last added region ends. -/
def BootInfo.highestEnd (bootInfo : BootInfo) : Nat :=
  (bootInfo.memoryRegions.filter MemoryRegion.added).foldl
    (fun highest region => max highest region.alignedEnd) 0

/-- The end of the physical window. -/
def BootInfo.windowEnd (bootInfo : BootInfo) : Nat := alignUp bootInfo.highestEnd hugePageSize

/-- A usable region as firmware reports it: page-aligned and below `2^47`. -/
def MemoryRegion.Regular (region : MemoryRegion) : Prop :=
  region.kind = .usable → region.start % 4096 = 0 ∧ region.start + region.pageCount * 4096 ≤ 2 ^ 47

/-- The arithmetic of an aligned region does not leave 64 bits, and its end needs no rounding. -/
theorem MemoryRegion.alignedEnd_of_le {region : MemoryRegion} (hal : region.start % 4096 = 0)
    (hle : region.start + region.pageCount * 4096 ≤ 2 ^ 63) :
    region.alignedEnd = region.start + region.pageCount * 4096 := by
  have hmul : saturatingMul region.pageCount pageSize = region.pageCount * 4096 := by
    rw [saturatingMul, show pageSize = 4096 from rfl, u64Limit]
    omega
  have hlt : region.start + region.pageCount * 4096 < u64Limit := by
    rw [u64Limit]
    omega
  rw [alignedEnd, hmul, wrap64_of_lt hlt, alignDown_page hlt]
  omega

theorem MemoryRegion.Regular.alignedEnd_eq {region : MemoryRegion} (h : region.Regular)
    (hkind : region.kind = .usable) :
    region.alignedEnd = region.start + region.pageCount * 4096 := by
  obtain ⟨hal, hle⟩ := h hkind
  exact alignedEnd_of_le hal (hle.trans (by decide))

/-- What the loop over the memory map leaves behind. -/
theorem addRegions_spec {regions : List MemoryRegion} (hreg : ∀ r ∈ regions, r.Regular)
    {a a' : PhysicalAllocator} {highest highest' : Nat} (ha : a.Valid)
    (hfree : a.free ⊆ Set.Iio (2 ^ 47)) (hhigh : highest ≤ 2 ^ 47)
    (h : addRegions regions a highest = some (a', highest')) :
    a'.Valid ∧ a'.free ⊆ Set.Iio (2 ^ 47) ∧ highest' ≤ 2 ^ 47 ∧
      highest' = (regions.filter MemoryRegion.added).foldl
        (fun highest region => max highest region.alignedEnd) highest := by
  induction regions generalizing a highest with
  | nil =>
    simp only [addRegions, Option.some.injEq, Prod.mk.injEq] at h
    obtain ⟨rfl, rfl⟩ := h
    exact ⟨ha, hfree, hhigh, rfl⟩
  | cons r rest ih =>
    have hrest : ∀ x ∈ rest, x.Regular := fun x hx => hreg x (List.mem_cons_of_mem _ hx)
    rw [addRegions] at h
    split_ifs at h with hkind hempty
    · have hadded : r.added = false := by simp [MemoryRegion.added, hkind]
      rw [List.filter_cons_of_neg (by simp [hadded])]
      exact ih hrest ha hfree hhigh h
    · have hadded : r.added = false := by simp [MemoryRegion.added, hempty]
      rw [List.filter_cons_of_neg (by simp [hadded])]
      exact ih hrest ha hfree hhigh h
    · rw [not_not] at hkind
      have hadded : r.added = true := by
        simp only [MemoryRegion.added, hkind, decide_true, Bool.true_and, decide_eq_true_eq]
        omega
      rw [List.filter_cons_of_pos hadded, List.foldl_cons]
      obtain ⟨a₁, hadd, hnext⟩ := Option.bind_eq_some_iff.mp h
      have hr := hreg r List.mem_cons_self
      have hend := hr.alignedEnd_eq hkind
      obtain ⟨hal, hle⟩ := hr hkind
      have hstart : r.clippedStart % 4096 = 0 ∧ 0 < r.clippedStart := by
        rw [MemoryRegion.clippedStart, physWindowStart]
        omega
      have hlim : r.alignedEnd < u64Limit := by
        rw [hend, u64Limit]
        omega
      obtain ⟨hvalid, hfree'⟩ :=
        PhysicalAllocator.addRegion_spec ha hstart.1 hstart.2 (by omega) hlim hadd
      refine ih hrest hvalid ?_ (by omega) hnext
      rw [hfree']
      refine Set.union_subset hfree fun x hx => ?_
      rw [Set.mem_Ico] at hx
      rw [Set.mem_Iio]
      omega

/-- What `initialize_allocator` leaves behind. -/
theorem initializeAllocator_spec {bootInfo : BootInfo} {image : KernelImage}
    (hreg : ∀ r ∈ bootInfo.memoryRegions, r.Regular) {s s₁ : MemoryState}
    (h : initializeAllocator bootInfo image s = some (.ok () s₁)) :
    s₁.allocator.Valid ∧ s₁.free ⊆ Set.Iio (2 ^ 47) ∧ s₁.physWindowEnd = bootInfo.windowEnd ∧
      physWindowStart < bootInfo.highestEnd ∧ bootInfo.highestEnd ≤ 2 ^ 47 := by
  obtain ⟨⟨a, highest⟩, hadd, h⟩ := Option.bind_eq_some_iff.mp h
  obtain ⟨hvalid, hfree, hle, hhigh⟩ :=
    addRegions_spec hreg PhysicalAllocator.valid_new (by simp) (Nat.zero_le _) hadd
  have hhigh' : highest = bootInfo.highestEnd := hhigh
  subst hhigh'
  simp only at h
  split_ifs at h with hnone
  · cases h
  · obtain ⟨a', hres, h⟩ := Option.map_eq_some_iff.mp h
    cases h
    obtain ⟨hvalid', hfree'⟩ := PhysicalAllocator.reserveRange_free hvalid
      (alignDown_page_bounds image.start).1 (alignUp_page_bounds image.stop).1
      (alignUp_page_bounds image.stop).2 hres
    refine ⟨hvalid', ?_, rfl, by omega, hle⟩
    show a'.free ⊆ _
    rw [hfree']
    exact Set.sdiff_subset.trans hfree

theorem frames_low {a : PhysicalAllocator} (ha : a.Valid) (h : a.free ⊆ Set.Iio (2 ^ 47)) :
    ∀ f ∈ a.frames, f < 2 ^ 52 := by
  intro f hf
  have := h (PhysicalAllocator.block_subset_free ha hf (mem_block_self f))
  rw [Set.mem_Iio] at this
  omega

/-! ## A builder without a page list -/

/-- A builder operation run on the global state. -/
theorem runBuilder_eq_ok {α : Type} {x : Builder α} (hx : Builder.TakesFrames x)
    {s s' : MemoryState} {r : α} (hvalid : s.allocator.Valid)
    (h : runBuilder x s = .ok r s') :
    x { state := s, ownedPages := none } = .ok r { state := s', ownedPages := none } ∧
      s' = { s with phys := s'.phys, allocator := s'.allocator } := by
  unfold runBuilder at h
  have htake := hx.draws { state := s, ownedPages := none } _ (Draws.refl hvalid)
  cases hrun : x { state := s, ownedPages := none } with
  | ok r' b =>
    rw [hrun] at h htake
    obtain ⟨rfl, rfl⟩ : r' = r ∧ b.state = s' := by simpa using h
    obtain ⟨recorded, lost, hdrawn⟩ := htake
    have hnone : b.ownedPages = none := by simpa using hdrawn.owned
    refine ⟨?_, hdrawn.context⟩
    rw [← hnone]
  | error e b =>
    rw [hrun] at h
    cases h

theorem runBuilder_eq_error {α : Type} {x : Builder α} (hx : Builder.TakesFrames x)
    {s s' : MemoryState} {e : MemoryError} (hvalid : s.allocator.Valid)
    (h : runBuilder x s = .error e s') :
    x { state := s, ownedPages := none } = .error e { state := s', ownedPages := none } ∧
      s' = { s with phys := s'.phys, allocator := s'.allocator } := by
  unfold runBuilder at h
  have htake := hx.draws { state := s, ownedPages := none } _ (Draws.refl hvalid)
  cases hrun : x { state := s, ownedPages := none } with
  | ok r' b =>
    rw [hrun] at h
    cases h
  | error e' b =>
    rw [hrun] at h htake
    obtain ⟨rfl, rfl⟩ : e' = e ∧ b.state = s' := by simpa using h
    obtain ⟨recorded, lost, hdrawn⟩ := htake
    have hnone : b.ownedPages = none := by simpa using hdrawn.owned
    refine ⟨?_, hdrawn.context⟩
    rw [← hnone]

/-! ## The invariant -/

/-- Page `n` is entered at its own address. -/
def IdentityPage (page : Nat → Option Nat) (n : Nat) : Prop :=
  ∃ flags < 4096, flags.testBit 0 = true ∧ page n = some (n * pageSize ||| flags)

/-- The huge entries of the window, and no others. -/
def windowSlots (windowEnd : Nat) : Nat → Option Nat :=
  paintSlots (fun _ => none) (pagePresent ||| pageWritable) (physWindowStart / 2097152)
    (windowEnd / 2097152 - physWindowStart / 2097152)

theorem windowSlots_eq_some {windowEnd n : Nat} (h : physWindowStart / 2097152 ≤ n)
    (h' : n < windowEnd / 2097152) :
    windowSlots windowEnd n =
      some (n * hugePageSize ||| (pagePresent ||| pageWritable) ||| pageHuge) :=
  if_pos ⟨h, by omega⟩

theorem windowSlots_eq_none {windowEnd n : Nat}
    (h : n < physWindowStart / 2097152 ∨ windowEnd / 2097152 ≤ n) :
    windowSlots windowEnd n = none :=
  if_neg (by omega)

/-- A range of pages stays clear of the window. -/
def ClearOfWindow (windowEnd start stop : Nat) : Prop :=
  stop ≤ start ∨ stop ≤ physWindowStart ∨ windowEnd ≤ start

/-- The kernel's address space, as one moment of a run sees it: `tables` are the
frames that serve as page tables and `pages` the pages entered at their own
address. -/
structure KernelSpaceInv (s : MemoryState) (tables : Set Nat) (pages : Nat → Prop) : Prop where
  windowEnd_le : s.physWindowEnd ≤ 2 ^ 47
  windowEnd_mod : s.physWindowEnd % 2097152 = 0
  mapped : ∃ root A, s.kernelSpace = some { rootPaddr := root } ∧
    Related ⟨s.phys, tables, s.free⟩ root ∅ { state := s, ownedPages := none } A ∧
    A.slot = windowSlots s.physWindowEnd ∧ ∀ n, pages n → IdentityPage A.page n

/-- The kernel's address space is represented by `A`. -/
structure KernelSpaceIs (s : MemoryState) (tables : Set Nat) (A : AddressMap) : Prop where
  windowEnd_le : s.physWindowEnd ≤ 2 ^ 47
  windowEnd_mod : s.physWindowEnd % 2097152 = 0
  mapped : ∃ root, s.kernelSpace = some { rootPaddr := root } ∧
    Related ⟨s.phys, tables, s.free⟩ root ∅ { state := s, ownedPages := none } A
  slot : A.slot = windowSlots s.physWindowEnd

theorem KernelSpaceIs.inv {s : MemoryState} {tables : Set Nat} {A : AddressMap}
    (I : KernelSpaceIs s tables A) {pages : Nat → Prop}
    (hpages : ∀ n, pages n → IdentityPage A.page n) : KernelSpaceInv s tables pages := by
  obtain ⟨root, hroot, R⟩ := I.mapped
  exact ⟨I.windowEnd_le, I.windowEnd_mod, root, A, hroot, R, I.slot, hpages⟩

theorem KernelSpaceInv.represented {s : MemoryState} {tables : Set Nat} {pages : Nat → Prop}
    (I : KernelSpaceInv s tables pages) :
    ∃ A, KernelSpaceIs s tables A ∧ ∀ n, pages n → IdentityPage A.page n := by
  obtain ⟨root, A, hroot, R, hslot, hpages⟩ := I.mapped
  exact ⟨A, ⟨I.windowEnd_le, I.windowEnd_mod, ⟨root, hroot, R⟩, hslot⟩, hpages⟩

/-- The walk resolves the window and every entered page to itself. -/
theorem KernelSpaceInv.walk {s : MemoryState} {tables : Set Nat} {pages : Nat → Prop}
    (I : KernelSpaceInv s tables pages) {v : Nat} (hv : v < 2 ^ 47)
    (h : (physWindowStart ≤ v ∧ v < s.physWindowEnd) ∨ pages (v / 4096)) :
    ∃ space t, s.kernelSpace = some space ∧ PageTable.walk s.phys space.rootPaddr v = some t ∧
      t.phys = v := by
  obtain ⟨root, A, hroot, ⟨tab, R⟩, hslot, hpages⟩ := I.mapped
  have hnum₂ : num 2 v = v / 2097152 := rfl
  have hnum₁ : num 1 v = v / 4096 := rfl
  by_cases hin : physWindowStart / 2097152 ≤ num 2 v ∧ num 2 v < s.physWindowEnd / 2097152
  · have hleaf := R.slot (num 2 v)
    rw [hslot, windowSlots_eq_some hin.1 hin.2, Nat.or_assoc] at hleaf
    refine ⟨_, _, hroot, R.tree.walk_huge (hv.trans (by decide)) hleaf, ?_⟩
    have hbase : num 2 v * hugePageSize % 4096 = 0 ∧ num 2 v * hugePageSize < 2 ^ 52 := by
      rw [hnum₂, show hugePageSize = 2097152 from rfl]
      omega
    simp only [frame_or_flags hbase.1 hbase.2 (by decide :
      pagePresent ||| pageWritable ||| pageHuge < 4096)]
    rw [hnum₂, show hugePageSize = 2097152 from rfl]
    omega
  · have hpage : pages (v / 4096) := by
      refine h.resolve_left fun hwin => hin ?_
      have hmod := I.windowEnd_mod
      rw [hnum₂]
      simp only [physWindowStart] at hwin ⊢
      omega
    have hnone : leaf2m s.phys tab (num 2 v) = none := by
      rw [R.slot, hslot, windowSlots_eq_none (by omega)]
    obtain ⟨flags, hlt, hbit, hpg⟩ := hpages _ hpage
    have hwalk := R.tree.walk_small (hv.trans (by decide)) hnone
    rw [R.page, hnum₁, hpg] at hwalk
    refine ⟨_, _, hroot, hwalk, ?_⟩
    have hbase : v / 4096 * pageSize % 4096 = 0 ∧ v / 4096 * pageSize < 2 ^ 52 := by
      rw [show pageSize = 4096 from rfl]
      omega
    simp only [frame_or_flags hbase.1 hbase.2 hlt]
    rw [show pageSize = 4096 from rfl]
    omega

/-! ## One range -/

/-- The pages of a rounded range. -/
def RangePage (start stop n : Nat) : Prop := start / 4096 ≤ n ∧ n < (stop + 4095) / 4096

theorem IdentityPage.paint {page : Nat → Option Nat} {flags n rounds i : Nat}
    (hflags : flags < 4096) (hbit : flags.testBit 0 = true)
    (h : IdentityPage page i ∨ (n ≤ i ∧ i < n + rounds)) :
    IdentityPage (paintPages page flags n rounds) i := by
  by_cases hin : n ≤ i ∧ i < n + rounds
  · exact ⟨flags, hflags, hbit, if_pos hin⟩
  · obtain ⟨flags', hlt, hbit', hpage⟩ := h.resolve_right hin
    exact ⟨flags', hlt, hbit', (if_neg hin).trans hpage⟩

/-- No huge entry covers a page of a range that stays clear of the window. -/
theorem ClearOfWindow.slot_none {windowEnd start stop i : Nat} (hstart : start < u64Limit)
    (hstop : stop ≤ 2 ^ 47)
    (h : ClearOfWindow windowEnd (alignDown start pageSize) (alignUp stop pageSize))
    (hmod : windowEnd % 2097152 = 0) (hi : RangePage start stop i) :
    windowSlots windowEnd (i / 512) = none := by
  obtain ⟨hlo, hhi⟩ := hi
  have hlimit : stop + 4096 ≤ u64Limit := by
    rw [u64Limit]
    omega
  rw [alignDown_page hstart, alignUp_page hlimit] at h
  refine windowSlots_eq_none ?_
  rcases h with h | h | h
  · omega
  · rw [physWindowStart] at h ⊢
    omega
  · omega

/-- How many pages a rounded range has. -/
def rangePages (start stop : Nat) : Nat := (stop + 4095) / 4096 - start / 4096

/-- Mapping a range clear of the window follows the abstract edit. -/
theorem mapClearRange_lockstep {o : Origin} {root start stop flags windowEnd : Nat}
    {b : BuilderState} {A : AddressMap}
    (hbit : flags.testBit 0 = true) (hflags : flags < 4096) (hstart : start < u64Limit)
    (hstop : stop ≤ 2 ^ 47) (hmod : windowEnd % 2097152 = 0)
    (hclear : ClearOfWindow windowEnd (alignDown start pageSize) (alignUp stop pageSize))
    (R : Related o root ∅ b A) (hslot : A.slot = windowSlots windowEnd) :
    Lockstep (fun _ _ b' A' => Related o root ∅ b' A') (Related o root ∅)
      (Builder.mapIdentity4kRange root start stop flags b)
      (mapPages flags (rangePages start stop) (start / 4096) A) := by
  obtain ⟨tab, R⟩ := R
  refine mapIdentity4kRange_lockstep hbit hflags R hstart (hstop.trans (by decide))
    fun i hlo hhi => ?_
  rw [hslot]
  exact hclear.slot_none hstart hstop hmod ⟨hlo, hhi⟩

theorem mapPages_slot {flags rounds n : Nat} {A A' : AddressMap}
    (h : mapPages flags rounds n A = .ok () A' ∨ ∃ e, mapPages flags rounds n A = .error e A') :
    A'.slot = A.slot := by
  have hmaps := mapPages_maps flags rounds n A (⟨rfl, rfl⟩ : Maps A.page A.slot A)
  rcases h with h | ⟨e, h⟩
  · rw [h] at hmaps
    exact hmaps.2
  · rw [h] at hmaps
    obtain ⟨done, -, -, hslot⟩ := hmaps
    exact hslot

/-! ## `init` -/

/-- The steps of a successful `init` after the allocator is filled. -/
theorem installKernelSpace_eq_ok {bootInfo : BootInfo} {s₁ s : MemoryState}
    (h : installKernelSpace bootInfo s₁ = .ok () s) :
    ∃ root s₂ s₃ s₄, MemoryState.allocatePage s₁ = .ok root s₂ ∧
      runBuilder (Builder.mapIdentity2mRange root physWindowStart s₂.physWindowEnd
        (pagePresent ||| pageWritable)) s₂ = .ok () s₃ ∧
      (if bootInfo.framebufferStart < physWindowStart ∨ bootInfo.framebufferEnd > s₃.physWindowEnd
        then runBuilder (Builder.mapIdentity4kRange root bootInfo.framebufferStart
          bootInfo.framebufferEnd (pagePresent ||| pageWritable)) s₃ = .ok () s₄
        else s₄ = s₃) ∧
      s = { s₄ with
        framebufferStart := bootInfo.framebufferStart
        framebufferEnd := bootInfo.framebufferEnd
        kernelSpace := some { rootPaddr := root } } := by
  obtain ⟨root, s₂, halloc, h⟩ := EStateM.bind_eq_ok.mp h
  obtain ⟨_, _, hget, h⟩ := EStateM.bind_eq_ok.mp h
  cases hget
  obtain ⟨_, s₃, hwindow, h⟩ := EStateM.bind_eq_ok.mp h
  obtain ⟨_, _, hget, h⟩ := EStateM.bind_eq_ok.mp h
  cases hget
  split_ifs at h with hfb
  · obtain ⟨_, s₄, hrun, h⟩ := EStateM.bind_eq_ok.mp h
    cases h
    refine ⟨root, s₂, s₃, s₄, halloc, hwindow, ?_, rfl⟩
    rw [if_pos hfb]
    exact hrun
  · cases h
    refine ⟨root, s₂, s₃, s₃, halloc, hwindow, ?_, rfl⟩
    rw [if_neg hfb]

/-- The pages `init` enters for the framebuffer. -/
def BootInfo.FramebufferPage (bootInfo : BootInfo) (n : Nat) : Prop :=
  (bootInfo.framebufferStart < physWindowStart ∨ bootInfo.framebufferEnd > bootInfo.windowEnd) ∧
    RangePage bootInfo.framebufferStart bootInfo.framebufferEnd n

/-- **Regular boot information**: usable regions are page-aligned and end below
`2^47`, and the framebuffer lies below `2^47` and either inside the window or
clear of it. -/
structure BootInfo.Regular (bootInfo : BootInfo) : Prop where
  regions : ∀ r ∈ bootInfo.memoryRegions, r.Regular
  framebuffer_le : bootInfo.framebufferBase + bootInfo.framebufferSize ≤ 2 ^ 47
  framebuffer_clear :
    (physWindowStart ≤ bootInfo.framebufferStart ∧
      bootInfo.framebufferEnd ≤ bootInfo.windowEnd) ∨
    ClearOfWindow bootInfo.windowEnd bootInfo.framebufferStart bootInfo.framebufferEnd

theorem BootInfo.Regular.framebufferEnd_le {bootInfo : BootInfo} (h : bootInfo.Regular) :
    bootInfo.framebufferEnd ≤ 2 ^ 47 := by
  have hle := h.framebuffer_le
  have hlim : bootInfo.framebufferBase + bootInfo.framebufferSize < u64Limit := by
    rw [u64Limit]
    omega
  have hlim' : bootInfo.framebufferBase + bootInfo.framebufferSize + 4096 ≤ u64Limit := by
    rw [u64Limit]
    omega
  rw [BootInfo.framebufferEnd, wrap64_of_lt hlim, alignUp_page hlim']
  omega

theorem BootInfo.Regular.clear_rounded {bootInfo : BootInfo} (h : bootInfo.Regular)
    (hclear : ClearOfWindow bootInfo.windowEnd bootInfo.framebufferStart bootInfo.framebufferEnd) :
    ClearOfWindow bootInfo.windowEnd (alignDown bootInfo.framebufferStart pageSize)
      (alignUp bootInfo.framebufferEnd pageSize) := by
  have hstart : bootInfo.framebufferStart % 4096 = 0 ∧ bootInfo.framebufferStart < u64Limit :=
    alignDown_page_bounds _
  have hstop : bootInfo.framebufferEnd % 4096 = 0 := (alignUp_page_bounds _).1
  have hle := h.framebufferEnd_le
  generalize bootInfo.framebufferStart = start at hstart hclear ⊢
  generalize bootInfo.framebufferEnd = stop at hstop hclear hle ⊢
  rwa [alignDown_of_mod hstart.2 hstart.1, alignUp_of_mod hle hstop]

theorem windowEnd_bounds {bootInfo : BootInfo} (hlow : physWindowStart < bootInfo.highestEnd)
    (hle : bootInfo.highestEnd ≤ 2 ^ 47) :
    bootInfo.windowEnd ≤ 2 ^ 47 ∧ bootInfo.windowEnd % 2097152 = 0 ∧
      physWindowStart < bootInfo.windowEnd := by
  have hlim : bootInfo.highestEnd + 2097152 ≤ u64Limit := by
    rw [u64Limit]
    omega
  rw [BootInfo.windowEnd, alignUp_huge hlim]
  rw [physWindowStart] at hlow ⊢
  omega

/-- The pages `init` leaves: those of the framebuffer, unless the window covers it. -/
def BootInfo.framebufferMap (bootInfo : BootInfo) : Nat → Option Nat :=
  if bootInfo.framebufferStart < physWindowStart ∨ bootInfo.framebufferEnd > bootInfo.windowEnd then
    paintPages (fun _ => none) (pagePresent ||| pageWritable) (bootInfo.framebufferStart / 4096)
      (rangePages bootInfo.framebufferStart bootInfo.framebufferEnd)
  else fun _ => none

theorem BootInfo.FramebufferPage.identity {bootInfo : BootInfo} {n : Nat}
    (h : bootInfo.FramebufferPage n) : IdentityPage bootInfo.framebufferMap n := by
  obtain ⟨hout, hlo, hhi⟩ := h
  refine ⟨pagePresent ||| pageWritable, by decide, by decide, ?_⟩
  rw [framebufferMap, if_pos hout, paintPages, rangePages, if_pos (by omega)]

/-- **The address space `init` builds**, with every frame taken since the allocator
was filled serving as a table. -/
theorem installKernelSpace_is {bootInfo : BootInfo} (hboot : bootInfo.Regular)
    {s₁ s : MemoryState} (hvalid : s₁.allocator.Valid) (hfree : s₁.free ⊆ Set.Iio (2 ^ 47))
    (hend : s₁.physWindowEnd = bootInfo.windowEnd)
    (hlow : physWindowStart < bootInfo.highestEnd) (hhigh : bootInfo.highestEnd ≤ 2 ^ 47)
    (h : installKernelSpace bootInfo s₁ = .ok () s) :
    ∃ A, KernelSpaceIs s (s₁.free \ s.free) A ∧ A.page = bootInfo.framebufferMap := by
  obtain ⟨root, s₂, s₃, s₄, halloc, hwindow, hfb, rfl⟩ := installKernelSpace_eq_ok h
  obtain ⟨hle, hmod, hpos⟩ := windowEnd_bounds hlow hhigh
  -- the root
  obtain ⟨a, hpage, rfl⟩ := MemoryState.allocatePage_eq_ok halloc
  have R₂ := rep_root hvalid (frames_low hvalid hfree) hpage none
  have hvalid₂ : a.Valid := R₂.valid
  -- the window
  have hflags : (pagePresent ||| pageWritable).testBit 0 = true := by decide
  obtain ⟨hrun₃, hctx₃⟩ :=
    runBuilder_eq_ok (Builder.mapIdentity2mRange_takes _ _ _ _) hvalid₂ hwindow
  have hlock₃ := mapIdentity2mRange_lockstep hflags (by decide) R₂
    (by decide : physWindowStart < u64Limit) (by rw [hend]; omega : s₁.physWindowEnd ≤ 2 ^ 48)
    (fun i => by simp [AddressMap.blank])
  obtain ⟨_, A₃, hA₃, R₃⟩ := hlock₃.of_ok_left hrun₃
  have hmaps₃ := mapSlots_maps (pagePresent ||| pageWritable)
    ((s₁.physWindowEnd + 2097151) / 2097152 - physWindowStart / 2097152)
    (physWindowStart / 2097152) (.blank a.frames none) ⟨rfl, rfl⟩
  rw [show Option.map OwnedPages.list none = none from rfl] at hA₃
  rw [hA₃] at hmaps₃
  have hslot₃ : A₃.slot = windowSlots bootInfo.windowEnd := by
    rw [hmaps₃.2, hend]
    have hround : (bootInfo.windowEnd + 2097151) / 2097152 = bootInfo.windowEnd / 2097152 := by
      omega
    rw [hround]
    rfl
  have hend₃ : s₃.physWindowEnd = bootInfo.windowEnd := by
    rw [hctx₃]
    exact hend
  rw [hend₃] at hfb
  have hpage₃ : A₃.page = fun _ => none := hmaps₃.1
  -- the framebuffer
  have hfinal : ∃ A₄, Related ⟨s₁.phys, ∅, s₁.free⟩ root ∅ { state := s₄, ownedPages := none } A₄ ∧
      A₄.slot = windowSlots bootInfo.windowEnd ∧ A₄.page = bootInfo.framebufferMap ∧
      s₄.physWindowEnd = bootInfo.windowEnd := by
    rw [BootInfo.framebufferMap]
    split_ifs at hfb ⊢ with hout
    · have hvalid₃ : s₃.allocator.Valid := R₃.elim fun _ R => R.valid
      obtain ⟨hrun₄, hctx₄⟩ :=
        runBuilder_eq_ok (Builder.mapIdentity4kRange_takes _ _ _ _) hvalid₃ hfb
      have hclear := hboot.clear_rounded
        (hboot.framebuffer_clear.resolve_left fun hin => by omega)
      have hstart : bootInfo.framebufferStart < u64Limit := (alignDown_page_bounds _).2
      have hlock₄ := mapClearRange_lockstep hflags (by decide) hstart hboot.framebufferEnd_le hmod
        hclear R₃ hslot₃
      obtain ⟨_, A₄, hA₄, R₄⟩ := hlock₄.of_ok_left hrun₄
      obtain ⟨hpage₄, hslot₄⟩ := (mapPages_maps _ _ _).ok ⟨rfl, rfl⟩ hA₄
      refine ⟨A₄, R₄, hslot₄.trans hslot₃, by rw [hpage₄, hpage₃], ?_⟩
      rw [hctx₄]
      exact hend₃
    · subst hfb
      exact ⟨A₃, R₃, hslot₃, hpage₃, hend₃⟩
  obtain ⟨A₄, ⟨tab, R₄⟩, hslot₄, hpage₄, hend₄⟩ := hfinal
  refine ⟨A₄, ⟨by rw [hend₄]; exact hle, by rw [hend₄]; exact hmod, ⟨root, rfl, tab, ?_⟩, ?_⟩,
    hpage₄⟩
  · have hbase := (R₄.congr_state {
      state := {
        s₄ with
        framebufferStart := bootInfo.framebufferStart
        framebufferEnd := bootInfo.framebufferEnd
        kernelSpace := some { rootPaddr := root } }
      ownedPages := none } rfl rfl rfl).rebase
    simpa [Origin.written] using hbase
  · rw [hslot₄]
    exact congrArg windowSlots hend₄.symm

/-! ## `map_kernel_identity_range` -/

/-- Recording a mapping touches the record only. -/
theorem recordSharedKernelMapping_frame (start stop : Nat) (writable : Bool) (s : MemoryState) :
    match recordSharedKernelMapping start stop writable s with
    | .ok _ s' | .error _ s' => s'.phys = s.phys ∧ s'.allocator = s.allocator ∧
        s'.kernelSpace = s.kernelSpace ∧ s'.physWindowEnd = s.physWindowEnd := by
  unfold recordSharedKernelMapping
  simp only
  split_ifs
  all_goals exact ⟨rfl, rfl, rfl, rfl⟩

/-- A call whose range lies below `2^47` and, once rounded, clear of the window. -/
structure RangeOk (s : MemoryState) (start stop : Nat) : Prop where
  start_le : start ≤ 2 ^ 47
  stop_le : stop ≤ 2 ^ 47
  clear : ClearOfWindow s.physWindowEnd (alignDown start pageSize) (alignUp stop pageSize)

theorem kernelFlags_bounds (writable : Bool) :
    (kernelFlags writable).testBit 0 = true ∧ kernelFlags writable < 4096 := by
  cases writable <;> decide

/-- The address space only depends on these parts of the state. -/
theorem KernelSpaceIs.congr {s s' : MemoryState} {tables : Set Nat} {A : AddressMap}
    (I : KernelSpaceIs s tables A)
    (h : s'.phys = s.phys ∧ s'.allocator = s.allocator ∧ s'.kernelSpace = s.kernelSpace ∧
      s'.physWindowEnd = s.physWindowEnd) : KernelSpaceIs s' tables A := by
  obtain ⟨hphys, halloc, hspace, hend⟩ := h
  obtain ⟨root, hroot, tab, R⟩ := I.mapped
  have R' := R.congr_state { state := s', ownedPages := none } hphys halloc rfl
  refine ⟨hend ▸ I.windowEnd_le, hend ▸ I.windowEnd_mod, ⟨root, hspace.trans hroot, tab, ?_⟩,
    hend ▸ I.slot⟩
  rw [hphys, MemoryState.free, halloc]
  exact R'

/-- What the builder did is seen from the state it left. -/
theorem KernelSpaceIs.of_related {s s₁ : MemoryState} {tables : Set Nat} {A A₁ : AddressMap}
    {root : Nat} (I : KernelSpaceIs s tables A)
    (hroot : s.kernelSpace = some { rootPaddr := root })
    (R : Related ⟨s.phys, tables, s.free⟩ root ∅ { state := s₁, ownedPages := none } A₁)
    (hslot : A₁.slot = A.slot)
    (hctx : s₁ = { s with phys := s₁.phys, allocator := s₁.allocator }) :
    ByteMemory.WritesOnly (tables ∪ (s.free \ s₁.free)) s.phys s₁.phys ∧
      KernelSpaceIs s₁ (tables ∪ (s.free \ s₁.free)) A₁ := by
  obtain ⟨tab, R⟩ := R
  have hend : s₁.physWindowEnd = s.physWindowEnd := by rw [hctx]
  have hspace : s₁.kernelSpace = s.kernelSpace := by rw [hctx]
  refine ⟨R.writes, hend ▸ I.windowEnd_le, hend ▸ I.windowEnd_mod,
    ⟨root, hspace.trans hroot, tab, R.rebase⟩, ?_⟩
  rw [hslot, hend]
  exact I.slot

/-- **One call** enters pages as the abstract edit does, and then records the range. -/
theorem mapKernelIdentityRange_edit {s : MemoryState} {tables : Set Nat} {A : AddressMap}
    (I : KernelSpaceIs s tables A) {start stop : Nat} (writable : Bool)
    (hok : RangeOk s start stop) :
    ∃ s₁ A₁, s₁ = { s with phys := s₁.phys, allocator := s₁.allocator } ∧
      ByteMemory.WritesOnly (tables ∪ (s.free \ s₁.free)) s.phys s₁.phys ∧
      KernelSpaceIs s₁ (tables ∪ (s.free \ s₁.free)) A₁ ∧
      ((mapPages (kernelFlags writable) (rangePages start stop) (start / 4096) A = .ok () A₁ ∧
          mapKernelIdentityRange start stop writable s =
            recordSharedKernelMapping start stop writable s₁) ∨
        ∃ e, mapPages (kernelFlags writable) (rangePages start stop) (start / 4096) A =
            .error e A₁ ∧ mapKernelIdentityRange start stop writable s = .error e s₁) := by
  obtain ⟨root, hroot, R⟩ := I.mapped
  obtain ⟨hbit, hflags⟩ := kernelFlags_bounds writable
  have hvalid : s.allocator.Valid := R.elim fun _ R => R.valid
  have hstart : start < u64Limit := by
    have := hok.start_le
    rw [u64Limit]
    omega
  have hlock := mapClearRange_lockstep hbit hflags hstart hok.stop_le I.windowEnd_mod hok.clear R
    I.slot
  have hcall : mapKernelIdentityRange start stop writable s =
      (runBuilder (Builder.mapIdentity4kRange root start stop (kernelFlags writable)) >>=
        fun _ => recordSharedKernelMapping start stop writable) s := by
    simp only [mapKernelIdentityRange, hroot]
  rw [hcall]
  cases hrun : runBuilder (Builder.mapIdentity4kRange root start stop (kernelFlags writable)) s with
  | error e s₁ =>
    obtain ⟨hbuild, hctx⟩ :=
      runBuilder_eq_error (Builder.mapIdentity4kRange_takes _ _ _ _) hvalid hrun
    obtain ⟨A₁, hA₁, R₁⟩ := hlock.of_error_left hbuild
    obtain ⟨hwrites, I₁⟩ := I.of_related hroot R₁ (mapPages_slot (.inr ⟨e, hA₁⟩)) hctx
    exact ⟨s₁, A₁, hctx, hwrites, I₁, .inr ⟨e, hA₁, EStateM.bind_eq_error.mpr (.inl hrun)⟩⟩
  | ok _ s₁ =>
    obtain ⟨hbuild, hctx⟩ :=
      runBuilder_eq_ok (Builder.mapIdentity4kRange_takes _ _ _ _) hvalid hrun
    obtain ⟨_, A₁, hA₁, R₁⟩ := hlock.of_ok_left hbuild
    obtain ⟨hwrites, I₁⟩ := I.of_related hroot R₁ (mapPages_slot (.inl hA₁)) hctx
    exact ⟨s₁, A₁, hctx, hwrites, I₁, .inl ⟨hA₁, EStateM.bind_of_ok hrun _⟩⟩

/-- **One call**: it stores into page tables only, and keeps the invariant
whether it succeeds or fails. -/
theorem mapKernelIdentityRange_keeps {s : MemoryState} {tables : Set Nat} {pages : Nat → Prop}
    (I : KernelSpaceInv s tables pages) {start stop : Nat} (writable : Bool)
    (hok : RangeOk s start stop) :
    match mapKernelIdentityRange start stop writable s with
    | .ok _ s' => ByteMemory.WritesOnly (tables ∪ (s.free \ s'.free)) s.phys s'.phys ∧
        KernelSpaceInv s' (tables ∪ (s.free \ s'.free)) fun n =>
          pages n ∨ RangePage start stop n
    | .error _ s' => ByteMemory.WritesOnly (tables ∪ (s.free \ s'.free)) s.phys s'.phys ∧
        KernelSpaceInv s' (tables ∪ (s.free \ s'.free)) pages := by
  obtain ⟨A, hA, hpages⟩ := I.represented
  obtain ⟨hbit, hflags⟩ := kernelFlags_bounds writable
  obtain ⟨s₁, A₁, -, hwrites, hA₁, h⟩ := mapKernelIdentityRange_edit hA writable hok
  rcases h with ⟨hmap, hcall⟩ | ⟨e, hmap, hcall⟩
  · obtain ⟨hpage, -⟩ := (mapPages_maps _ _ _).ok ⟨rfl, rfl⟩ hmap
    have hpages₁ : ∀ n, pages n ∨ RangePage start stop n → IdentityPage A₁.page n := by
      intro n hn
      rw [hpage]
      refine IdentityPage.paint hflags hbit (hn.imp (hpages n) fun ⟨hlo, hhi⟩ => ?_)
      rw [rangePages]
      omega
    have hframe := recordSharedKernelMapping_frame start stop writable s₁
    rw [hcall]
    cases hrec : recordSharedKernelMapping start stop writable s₁ with
    | ok _ s₂ =>
      rw [hrec] at hframe
      have hfree : s₂.free = s₁.free := by rw [MemoryState.free, hframe.2.1]
      simp only [hfree, hframe.1]
      exact ⟨hwrites, (hA₁.congr hframe).inv hpages₁⟩
    | error e s₂ =>
      rw [hrec] at hframe
      have hfree : s₂.free = s₁.free := by rw [MemoryState.free, hframe.2.1]
      simp only [hfree, hframe.1]
      exact ⟨hwrites, (hA₁.congr hframe).inv fun n hn => hpages₁ n (.inl hn)⟩
  · have hmaps := mapPages_maps (kernelFlags writable) (rangePages start stop) (start / 4096) A
      (⟨rfl, rfl⟩ : Maps A.page A.slot A)
    rw [hmap] at hmaps
    obtain ⟨done, -, hpage, -⟩ := hmaps
    rw [hcall]
    refine ⟨hwrites, hA₁.inv fun n hn => ?_⟩
    rw [hpage]
    exact IdentityPage.paint hflags hbit (.inl (hpages n hn))

/-! ## Runs -/

/-- A moment of a run: the state, the frames that were taken for page tables
(the root, and those `ensure_table` allocated), and the ranges mapped so far. -/
structure KernelRun where
  state : MemoryState
  tables : Set Nat
  mapped : List (Nat × Nat)

namespace KernelRun

/-- One call of `map_kernel_identity_range`. Every frame it takes is taken by
`ensure_table`. -/
def call (run : KernelRun) (start stop : Nat) (writable : Bool) : KernelRun :=
  match mapKernelIdentityRange start stop writable run.state with
  | .ok _ s => ⟨s, run.tables ∪ (run.state.free \ s.free), (start, stop) :: run.mapped⟩
  | .error _ s => ⟨s, run.tables ∪ (run.state.free \ s.free), run.mapped⟩

/-- Runs of the kernel's own mappings: a successful `init` over any memory, then
calls that satisfy `ok` when issued. -/
inductive Reachable (bootInfo : BootInfo) (image : KernelImage)
    (ok : MemoryState → Nat → Nat → Prop) : KernelRun → Prop where
  | init {phys : ByteMemory} {s₁ s : MemoryState}
      (filled : initializeAllocator bootInfo image (.new phys) = some (.ok () s₁))
      (booted : init bootInfo image (.new phys) = some (.ok () s)) :
      Reachable bootInfo image ok ⟨s, s₁.free \ s.free, []⟩
  | call {run : KernelRun} {start stop : Nat} (writable : Bool)
      (reached : Reachable bootInfo image ok run) (allowed : ok run.state start stop) :
      Reachable bootInfo image ok (run.call start stop writable)

/-- The pages a run has entered. -/
def Entered (bootInfo : BootInfo) (run : KernelRun) (n : Nat) : Prop :=
  bootInfo.FramebufferPage n ∨ ∃ r ∈ run.mapped, RangePage r.1 r.2 n

theorem KernelSpaceInv.mono {s : MemoryState} {tables : Set Nat} {pages pages' : Nat → Prop}
    (I : KernelSpaceInv s tables pages) (h : ∀ n, pages' n → pages n) :
    KernelSpaceInv s tables pages' := by
  obtain ⟨root, A, hroot, R, hslot, hpages⟩ := I.mapped
  exact ⟨I.windowEnd_le, I.windowEnd_mod, root, A, hroot, R, hslot, fun n hn => hpages n (h n hn)⟩

/-- One call from a moment where the invariant holds. -/
theorem call_spec {bootInfo : BootInfo} {run : KernelRun}
    (I : KernelSpaceInv run.state run.tables (run.Entered bootInfo)) {start stop : Nat}
    (writable : Bool) (hok : RangeOk run.state start stop) :
    ByteMemory.WritesOnly (run.call start stop writable).tables run.state.phys
        (run.call start stop writable).state.phys ∧
      KernelSpaceInv (run.call start stop writable).state (run.call start stop writable).tables
        ((run.call start stop writable).Entered bootInfo) := by
  have hkeeps := mapKernelIdentityRange_keeps I writable hok
  unfold call
  cases hrun : mapKernelIdentityRange start stop writable run.state with
  | ok _ s =>
    rw [hrun] at hkeeps
    refine ⟨hkeeps.1, KernelSpaceInv.mono hkeeps.2 fun n hn => ?_⟩
    rcases hn with hn | ⟨r, hr, hn⟩
    · exact .inl (.inl hn)
    · rcases List.mem_cons.mp hr with rfl | hr
      · exact .inr hn
      · exact .inl (.inr ⟨r, hr, hn⟩)
  | error e s =>
    rw [hrun] at hkeeps
    exact hkeeps

/-- **The invariant holds in every run** whose calls stay clear of the window. -/
theorem Reachable.inv {bootInfo : BootInfo} {image : KernelImage} (hboot : bootInfo.Regular)
    {run : KernelRun} (h : Reachable bootInfo image RangeOk run) :
    KernelSpaceInv run.state run.tables (run.Entered bootInfo) := by
  induction h with
  | init filled booted =>
    obtain ⟨hvalid, hfree, hend, hlow, hhigh⟩ := initializeAllocator_spec hboot.regions filled
    rw [Memory.init, filled, Option.map_some, Option.some.injEq] at booted
    obtain ⟨A, hA, hpage⟩ := installKernelSpace_is hboot hvalid hfree hend hlow hhigh booted
    refine hA.inv fun n hn => ?_
    rw [hpage]
    exact BootInfo.FramebufferPage.identity (by simpa [Entered] using hn)
  | call writable _ allowed ih => exact (call_spec ih writable allowed).2

theorem tables_call (run : KernelRun) (start stop : Nat) (writable : Bool) :
    (run.call start stop writable).tables =
      run.tables ∪ (run.state.free \ (run.call start stop writable).state.free) := by
  unfold call
  split <;> rfl

theorem mapped_call (run : KernelRun) (start stop : Nat) (writable : Bool) {r : Nat × Nat}
    (h : r ∈ (run.call start stop writable).mapped) : r = (start, stop) ∨ r ∈ run.mapped := by
  unfold call at h
  split at h
  · exact List.mem_cons.mp h
  · exact .inr h

/-- Every mapped range lies below `2^47`. -/
theorem Reachable.mapped_le {bootInfo : BootInfo} {image : KernelImage} {run : KernelRun}
    (h : Reachable bootInfo image RangeOk run) : ∀ r ∈ run.mapped, r.2 ≤ 2 ^ 47 := by
  induction h with
  | init => simp
  | call writable _ allowed ih =>
    intro r hr
    rcases mapped_call _ _ _ _ hr with rfl | hr
    · exact allowed.stop_le
    · exact ih r hr

/-- **Calls clear of the window keep the kernel's address space intact.** In every
run from a regular boot in which each range stays clear of the window, a call
stores into page-table frames only, and when it returns `Ok` the walk resolves
the window and every range mapped so far to itself. -/
theorem call_keeps_identity {bootInfo : BootInfo} {image : KernelImage}
    (hboot : bootInfo.Regular) {run : KernelRun} (hrun : Reachable bootInfo image RangeOk run)
    {start stop : Nat} (writable : Bool) (hok : RangeOk run.state start stop) :
    ByteMemory.WritesOnly (run.call start stop writable).tables run.state.phys
        (run.call start stop writable).state.phys ∧
      ((∃ s, mapKernelIdentityRange start stop writable run.state = .ok () s) →
        ∀ v, (physWindowStart ≤ v ∧ v < (run.call start stop writable).state.physWindowEnd) ∨
            (∃ r ∈ (run.call start stop writable).mapped, r.1 ≤ v ∧ v < r.2) →
          ∃ space t, (run.call start stop writable).state.kernelSpace = some space ∧
            walk (run.call start stop writable).state.phys space.rootPaddr v = some t ∧
            t.phys = v) := by
  obtain ⟨hwrites, I⟩ := call_spec (hrun.inv hboot) writable hok
  refine ⟨hwrites, fun _ v hv => ?_⟩
  have hmapped := (hrun.call writable hok).mapped_le
  rcases hv with ⟨hlo, hhi⟩ | ⟨r, hr, hlo, hhi⟩
  · have hle := I.windowEnd_le
    exact I.walk (by omega) (.inl ⟨hlo, hhi⟩)
  · have hle := hmapped r hr
    refine I.walk (by omega) (.inr (.inr ⟨r, hr, ?_⟩))
    exact ⟨by omega, by omega⟩

/-! ### A machine with four megabytes -/

/-- The outcome of `initialize_allocator` or `init` as a state. -/
def stateOf : Option (EStateM.Result MemoryError MemoryState Unit) → Option MemoryState
  | some (.ok _ s) => some s
  | _ => none

theorem eq_getD_of_stateOf {r : Option (EStateM.Result MemoryError MemoryState Unit)}
    {d : MemoryState} (h : (stateOf r).isSome = true) : r = some (.ok () ((stateOf r).getD d)) := by
  rcases r with - | ⟨_ | _⟩
  · cases h
  · rfl
  · cases h

/-- A memory full of zeroes, before the kernel runs. -/
def blankState : MemoryState := .new ⟨fun _ => 0, []⟩

/-- The run right after `init` over a blank memory. -/
def bootRun (bootInfo : BootInfo) : KernelRun :=
  let filled := (stateOf (initializeAllocator bootInfo ⟨0, 0⟩ blankState)).getD blankState
  let booted := (stateOf (init bootInfo ⟨0, 0⟩ blankState)).getD blankState
  ⟨booted, filled.free \ booted.free, []⟩

theorem bootRun_reachable {bootInfo : BootInfo} (ok : MemoryState → Nat → Nat → Prop)
    (hfilled : (stateOf (initializeAllocator bootInfo ⟨0, 0⟩ blankState)).isSome = true)
    (hbooted : (stateOf (init bootInfo ⟨0, 0⟩ blankState)).isSome = true) :
    Reachable bootInfo ⟨0, 0⟩ ok (bootRun bootInfo) :=
  .init (eq_getD_of_stateOf hfilled) (eq_getD_of_stateOf hbooted)

/-- Four megabytes of usable memory at the start of the window, no framebuffer. -/
def sampleBoot : BootInfo where
  memoryRegions := [⟨physWindowStart, 1024, .usable⟩]
  framebufferBase := 0
  framebufferSize := 0

def sampleRun : KernelRun := bootRun sampleBoot

theorem sampleRun_reachable (ok : MemoryState → Nat → Nat → Prop) :
    Reachable sampleBoot ⟨0, 0⟩ ok sampleRun :=
  bootRun_reachable ok (by decide +kernel) (by decide +kernel)

theorem sampleBoot_regular : sampleBoot.Regular := by
  refine ⟨?_, by decide, .inr (.inl (by decide))⟩
  intro r hr _
  obtain rfl := List.mem_singleton.mp hr
  exact ⟨by decide, by decide⟩

/-- Mapping one page below the window. -/
theorem call_keeps_identity_at_sample :
    ∃ space t, (sampleRun.call 0x200000 0x201000 true).state.kernelSpace = some space ∧
      walk (sampleRun.call 0x200000 0x201000 true).state.phys space.rootPaddr 0x200000 = some t ∧
      t.phys = 0x200000 := by
  have hok : RangeOk sampleRun.state 0x200000 0x201000 :=
    ⟨by decide, by decide, .inr (.inl (by decide))⟩
  have hmapped : (sampleRun.call 0x200000 0x201000 true).mapped = [(0x200000, 0x201000)] := by
    decide +kernel
  refine (call_keeps_identity sampleBoot_regular (sampleRun_reachable _) true hok).2 ?_ _
    (.inr ⟨(0x200000, 0x201000), by simp [hmapped], by decide, by decide⟩)
  cases hrun : mapKernelIdentityRange 0x200000 0x201000 true sampleRun.state with
  | ok r s => exact ⟨s, rfl⟩
  | error e s =>
    simp only [call, hrun] at hmapped
    cases hmapped

/-- **A range inside the window corrupts memory.** The page table of `0x1200000`
is taken to be the huge page that maps it, so the entry is stored into that
page, which is still free memory. -/
theorem call_inside_window_stores_into_memory :
    Reachable sampleBoot ⟨0, 0⟩ (fun _ start stop => start ≤ 2 ^ 47 ∧ stop ≤ 2 ^ 47) sampleRun ∧
      ¬ ByteMemory.WritesOnly (sampleRun.call 0x1200000 0x1201000 true).tables
        sampleRun.state.phys (sampleRun.call 0x1200000 0x1201000 true).state.phys := by
  have hfree₀ : sampleRun.state.allocator.live = [⟨0x1003000, 0x1400000⟩] := by decide +kernel
  have hfree : (sampleRun.call 0x1200000 0x1201000 true).state.allocator.live =
      [⟨0x1003000, 0x1400000⟩] := by decide +kernel
  have hstored : (sampleRun.call 0x1200000 0x1201000 true).state.phys.stores =
      (0x1200000, 8) :: sampleRun.state.phys.stores := by decide +kernel
  have hin₀ : 0x1200000 ∈ sampleRun.state.free :=
    ⟨⟨0x1003000, 0x1400000⟩, by rw [hfree₀]; exact List.mem_cons_self, by decide, by decide⟩
  have hin : 0x1200000 ∈ (sampleRun.call 0x1200000 0x1201000 true).state.free :=
    ⟨⟨0x1003000, 0x1400000⟩, by rw [hfree]; exact List.mem_cons_self, by decide, by decide⟩
  refine ⟨sampleRun_reachable _, ByteMemory.not_writesOnly_of_store hstored (by decide) ?_⟩
  rw [tables_call]
  rintro (⟨-, h⟩ | ⟨-, h⟩)
  · exact h hin₀
  · exact h hin

end KernelRun

end Lazers.Memory
