import Lazers.Memory.KernelSpace

/-!
# Reading the boot memory map

Firmware lists its memory in any order. What `initialize_allocator` makes of the list is a set:
the usable addresses from the start of the physical window on, without the kernel image. The
array that holds the set has a fixed number of places, and whether it fits is a question about
sets as well (`CoveredBy`).

`memory_map_intake`: the allocator is filled with exactly that set whenever some usable region
that is not empty ends inside the window.
-/

namespace Lazers.Memory

open RangeList PhysicalAllocator

/-! ## The map as a set -/

/-- Where a region ends. -/
def MemoryRegion.stop (region : MemoryRegion) : Nat := region.start + region.pageCount * pageSize

/-- A usable region as the loader hands it over: page-aligned and below `2^63`. -/
def MemoryRegion.Aligned (region : MemoryRegion) : Prop :=
  region.kind = .usable → region.start % pageSize = 0 ∧ region.stop ≤ 2 ^ 63

/-- The usable addresses of a region from the start of the physical window on. -/
def MemoryRegion.usable (region : MemoryRegion) : Set Nat :=
  {x | region.kind = .usable ∧ physWindowStart ≤ x ∧ region.start ≤ x ∧ x < region.stop}

/-- **The usable addresses of a memory map.** -/
def usableAddresses (regions : List MemoryRegion) : Set Nat := {x | ∃ r ∈ regions, x ∈ r.usable}

/-- The addresses of the kernel image, in whole pages. -/
def KernelImage.addresses (image : KernelImage) : Set Nat :=
  Set.Ico (alignDown image.start pageSize) (alignUp image.stop pageSize)

/-- The array has a place for every range: while the regions are added, and when the kernel image
is taken out. -/
def BootInfo.FitsTable (bootInfo : BootInfo) (image : KernelImage) : Prop :=
  (∀ regions, regions <+: bootInfo.memoryRegions →
    CoveredBy maxFreeRanges (usableAddresses regions)) ∧
  CoveredBy maxFreeRanges (usableAddresses bootInfo.memoryRegions \ image.addresses)

/-- A usable region that is not empty and ends inside the physical window. -/
def MemoryRegion.Counts (region : MemoryRegion) : Prop :=
  region.kind = .usable ∧ 0 < region.pageCount ∧ physWindowStart < region.stop

@[simp] theorem usableAddresses_nil : usableAddresses [] = ∅ := by
  ext x
  simp [usableAddresses]

theorem usableAddresses_cons (region : MemoryRegion) (rest : List MemoryRegion) :
    usableAddresses (region :: rest) = region.usable ∪ usableAddresses rest := by
  ext x
  simp [usableAddresses]

namespace MemoryRegion

variable {region : MemoryRegion}

theorem Aligned.alignedEnd_eq (h : region.Aligned) (hkind : region.kind = .usable) :
    region.alignedEnd = region.stop := by
  obtain ⟨hal, hle⟩ := h hkind
  exact alignedEnd_of_le hal hle

/-- An added region contributes what it is added with. -/
theorem usable_eq (h : region.Aligned) (hkind : region.kind = .usable) :
    region.usable = Set.Ico region.clippedStart region.alignedEnd := by
  ext x
  rw [h.alignedEnd_eq hkind, clippedStart]
  simp only [usable, hkind, true_and, Set.mem_ofPred_eq, Set.mem_Ico, max_le_iff]
  tauto

theorem counts_iff (h : region.Aligned) :
    region.Counts ↔ region.kind = .usable ∧ region.clippedStart < region.alignedEnd := by
  constructor
  · rintro ⟨hkind, hpages, hend⟩
    refine ⟨hkind, ?_⟩
    rw [h.alignedEnd_eq hkind, clippedStart]
    refine max_lt ?_ hend
    exact Nat.lt_add_of_pos_right (Nat.mul_pos hpages (by decide))
  · rintro ⟨hkind, hlt⟩
    rw [h.alignedEnd_eq hkind, clippedStart, max_lt_iff] at hlt
    refine ⟨hkind, Nat.pos_of_ne_zero fun hzero => ?_, hlt.2⟩
    rw [stop, hzero] at hlt
    omega

end MemoryRegion

/-! ## Filling the table -/

namespace PhysicalAllocator

variable {a : PhysicalAllocator} {s e : Nat}

/-- A range is added when the union fits. -/
theorem Valid.insertRange_of_coveredBy (ha : Valid a) (hse : s < e)
    (hfits : CoveredBy maxFreeRanges (a.free ∪ Set.Ico s e)) : ∃ a', a.insertRange s e = some a' := by
  rcases insertRange_cases ha.tidy hse with ⟨a', hrun, -⟩ | ⟨-, hfull⟩
  · exact ⟨a', hrun⟩
  · have hsep := separated_add ha.separated hse
    rw [free, ← carrier_add ha.separated hse, hsep.coveredBy_iff, add,
      length_insertByStart] at hfits
    omega

/-- A range is reserved when the difference fits. -/
theorem Valid.reserveRange_of_coveredBy (ha : Valid a)
    (hfits : CoveredBy maxFreeRanges (a.free \ Set.Ico s e)) :
    ∃ a', a.reserveRange s e = some a' := by
  by_cases hse : s < e
  · rcases reserveRange_cases ha.tidy hse with ⟨a', hrun, -⟩ | ⟨-, hfull⟩
    · exact ⟨a', hrun⟩
    · have hsep := separated_remove ha.separated hse
      have hlong := hfull ha.separated
      rw [free, ← carrier_remove, hsep.coveredBy_iff] at hfits
      omega
  · exact ⟨a, by rw [reserveRange, if_pos (by omega)]⟩

end PhysicalAllocator

/-- **The loop over the memory map**: the allocator gains the usable addresses of the regions that
are left, and all it has free ends at the highest end seen. -/
theorem addRegions_fills {regions : List MemoryRegion} (hmap : ∀ r ∈ regions, r.Aligned)
    {a : PhysicalAllocator} {highest : Nat} (ha : Valid a) (hbelow : ∀ x ∈ a.free, x < highest)
    (hhigh : highest ≤ 2 ^ 63)
    (hfits : ∀ before, before <+: regions →
      CoveredBy maxFreeRanges (a.free ∪ usableAddresses before)) :
    ∃ a' highest', addRegions regions a highest = some (a', highest') ∧ Valid a' ∧
      a'.free = a.free ∪ usableAddresses regions ∧ (∀ x ∈ a'.free, x < highest') ∧
      highest' ≤ 2 ^ 63 ∧
      (physWindowStart < highest' ↔ physWindowStart < highest ∨ ∃ r ∈ regions, r.Counts) := by
  induction regions generalizing a highest with
  | nil =>
    refine ⟨a, highest, rfl, ha, ?_, hbelow, hhigh, ?_⟩
    · rw [usableAddresses_nil, Set.union_empty]
    · simp
  | cons r rest ih =>
    have hr := hmap r List.mem_cons_self
    have hrest : ∀ x ∈ rest, x.Aligned := fun x hx => hmap x (List.mem_cons_of_mem _ hx)
    rw [addRegions]
    by_cases hcounts : r.Counts
    · obtain ⟨hkind, hlt⟩ := (MemoryRegion.counts_iff hr).mp hcounts
      have husable := MemoryRegion.usable_eq hr hkind
      have hstop := hr.alignedEnd_eq hkind
      obtain ⟨hal, hle⟩ := hr hkind
      rw [if_neg (not_not.mpr hkind), if_neg (not_le.mpr hlt)]
      -- The range is added: the union with it is one of those that fit.
      have hroom : CoveredBy maxFreeRanges (a.free ∪ Set.Ico r.clippedStart r.alignedEnd) := by
        have hone := hfits [r] (List.prefix_iff_eq_take.mpr rfl)
        rwa [usableAddresses_cons, usableAddresses_nil, Set.union_empty, husable] at hone
      obtain ⟨b, hadd⟩ := ha.insertRange_of_coveredBy hlt hroom
      have hpage : pageSize = 4096 := rfl
      rw [MemoryRegion.stop, hpage] at hstop hle
      rw [hpage] at hal
      have hstart : r.clippedStart % 4096 = 0 ∧ 0 < r.clippedStart := by
        rw [MemoryRegion.clippedStart, physWindowStart]
        omega
      have hlim : r.alignedEnd < u64Limit := by
        rw [hstop, u64Limit]
        omega
      obtain ⟨hb, hfree⟩ := addRegion_spec ha hstart.1 hstart.2 (by omega) hlim hadd
      rw [← husable] at hfree
      have hbelow' : ∀ x ∈ b.free, x < max highest r.alignedEnd := by
        rw [hfree, husable]
        rintro x (hx | hx)
        · exact (hbelow x hx).trans_le (le_max_left _ _)
        · exact hx.2.trans_le (le_max_right _ _)
      obtain ⟨a', highest', hrun, ha', hfree', hbelow'', hhigh', hcount⟩ :=
        ih hrest hb hbelow' (by omega) fun before hbefore => by
          rw [hfree, Set.union_assoc, ← usableAddresses_cons]
          exact hfits _ (List.cons_prefix_cons.mpr ⟨rfl, hbefore⟩)
      refine ⟨a', highest', ?_, ha', ?_, hbelow'', hhigh', ?_⟩
      · show (a.insertRange r.clippedStart r.alignedEnd).bind _ = _
        rw [hadd]
        exact hrun
      · rw [hfree', hfree, usableAddresses_cons, Set.union_assoc]
      · -- An added region ends above the floor that its start is clipped to.
        have hfloor : physWindowStart ≤ r.clippedStart := le_max_right _ _
        exact ⟨fun _ => .inr ⟨r, List.mem_cons_self, hcounts⟩, fun _ => hcount.mpr (.inl (by omega))⟩
    · have hskip : r.kind ≠ .usable ∨ r.alignedEnd ≤ r.clippedStart := by
        rw [MemoryRegion.counts_iff hr] at hcounts
        by_cases hkind : r.kind = .usable
        · exact .inr (not_lt.mp fun hlt => hcounts ⟨hkind, hlt⟩)
        · exact .inl hkind
      have hnext : (if r.kind ≠ .usable then addRegions rest a highest
          else if r.alignedEnd ≤ r.clippedStart then addRegions rest a highest
          else (a.addRegion r.clippedStart r.alignedEnd).bind fun allocator =>
            addRegions rest allocator (max highest r.alignedEnd)) =
          addRegions rest a highest := by
        rcases hskip with hkind | hempty
        · rw [if_pos hkind]
        · rw [if_pos hempty, ite_self]
      have husable : r.usable = ∅ := by
        rcases hskip with hkind | hempty
        · exact Set.eq_empty_of_forall_notMem fun x hx => hkind hx.1
        · refine Set.eq_empty_of_forall_notMem fun x hx => ?_
          rw [MemoryRegion.usable_eq hr hx.1, Set.Ico_eq_empty (not_lt.mpr hempty)] at hx
          exact hx
      have hcons : ∀ before, usableAddresses (r :: before) = usableAddresses before := by
        intro before
        rw [usableAddresses_cons, husable, Set.empty_union]
      obtain ⟨a', highest', hrun, ha', hfree', hbelow', hhigh', hcount⟩ :=
        ih hrest ha hbelow hhigh fun before hbefore => by
          rw [← hcons before]
          exact hfits _ (List.cons_prefix_cons.mpr ⟨rfl, hbefore⟩)
      refine ⟨a', highest', hnext.trans hrun, ha', ?_, hbelow', hhigh', ?_⟩
      · rw [hfree', hcons]
      · rw [hcount, List.exists_mem_cons_iff]
        simp [hcounts]

/-- **Reading the memory map.** For every map of aligned regions below `2^63`, in any order, whose
ranges fit the table: `initialize_allocator` succeeds exactly when some usable region that is not
empty ends above the start of the physical window, and otherwise reports that there is no usable
memory. What is then free is the usable memory from there on without the kernel image; it lies
below the end of the window, and that is a multiple of a huge page. -/
theorem memory_map_intake {bootInfo : BootInfo} {image : KernelImage}
    (hmap : ∀ r ∈ bootInfo.memoryRegions, r.Aligned) (hfits : bootInfo.FitsTable image)
    (s : MemoryState) :
    ((∃ s', initializeAllocator bootInfo image s = some (.ok () s')) ↔
      ∃ r ∈ bootInfo.memoryRegions, r.Counts) ∧
    ((∃ s', initializeAllocator bootInfo image s = some (.error .noUsableMemory s')) ↔
      ¬ ∃ r ∈ bootInfo.memoryRegions, r.Counts) ∧
    ∀ s', initializeAllocator bootInfo image s = some (.ok () s') →
      s'.free = usableAddresses bootInfo.memoryRegions \ image.addresses ∧
      (∀ x ∈ s'.free, x < s'.physWindowEnd) ∧ s'.physWindowEnd % hugePageSize = 0 := by
  have hprefix : ∀ before, before <+: bootInfo.memoryRegions →
      CoveredBy maxFreeRanges (new.free ∪ usableAddresses before) := by
    intro before hbefore
    rw [free_new, Set.empty_union]
    exact hfits.1 before hbefore
  obtain ⟨a, highest, hadd, ha, hfree, hbelow, hhigh, hcount⟩ :=
    addRegions_fills hmap valid_new (by simp) (Nat.zero_le _) hprefix
  rw [free_new, Set.empty_union] at hfree
  have hiff : physWindowStart < highest ↔ ∃ r ∈ bootInfo.memoryRegions, r.Counts := by
    rw [hcount]
    simp
  obtain ⟨a', hres⟩ := ha.reserveRange_of_coveredBy (s := alignDown image.start pageSize)
    (e := alignUp image.stop pageSize) (by rw [hfree]; exact hfits.2)
  rw [initializeAllocator, hadd, ← hiff]
  simp only [Option.bind_some]
  by_cases hlow : highest ≤ physWindowStart
  · rw [if_pos hlow]
    refine ⟨?_, ?_, fun s' h => by cases h⟩
    · simp [hlow]
    · simp [hlow]
  · rw [if_neg hlow, hres, Option.map_some]
    refine ⟨?_, ?_, fun s' h => ?_⟩
    · simp [Nat.lt_of_not_le hlow]
    · simp [Nat.lt_of_not_le hlow]
    · cases h
      have hend : alignUp highest hugePageSize = (highest + 2097151) / 2097152 * 2097152 := by
        refine alignUp_huge ?_
        rw [u64Limit]
        omega
      have hfree' := (reserveRange_free ha (alignDown_page_bounds image.start).1
        (alignUp_page_bounds image.stop).1 (alignUp_page_bounds image.stop).2 hres).2
      refine ⟨?_, fun x hx => ?_, ?_⟩
      · show a'.free = _
        rw [hfree', hfree]
        rfl
      · have hin : x ∈ a'.free := hx
        rw [hfree'] at hin
        have hlt := hbelow x hin.1
        show x < alignUp highest hugePageSize
        rw [hend]
        omega
      · show alignUp highest hugePageSize % hugePageSize = 0
        rw [hend, show hugePageSize = 2097152 from rfl]
        exact Nat.mul_mod_left _ _

/-! ## Maps that fit -/

/-- The usable addresses as a list of ranges, one for each usable region. -/
theorem usableAddresses_eq_carrier (regions : List MemoryRegion) :
    usableAddresses regions = carrier ((regions.filter fun r => decide (r.kind = .usable)).map
      fun r => (⟨r.clippedStart, r.stop⟩ : Range Nat)) := by
  ext x
  simp only [usableAddresses, MemoryRegion.usable, MemoryRegion.clippedStart, mem_carrier,
    List.mem_map, List.mem_filter, decide_eq_true_eq, Set.mem_ofPred_eq]
  constructor
  · rintro ⟨r, hr, hkind, hfloor, hlo, hhi⟩
    exact ⟨_, ⟨r, ⟨hr, hkind⟩, rfl⟩, max_le hlo hfloor, hhi⟩
  · rintro ⟨_, ⟨r, ⟨hr, hkind⟩, rfl⟩, hlo, hhi⟩
    exact ⟨r, hr, hkind, (le_max_right _ _).trans hlo, (le_max_left _ _).trans hlo, hhi⟩

/-- A map of at most half as many regions as the table has places fits, wherever the kernel is. -/
theorem fitsTable_of_length_le {bootInfo : BootInfo} (image : KernelImage)
    (h : 2 * bootInfo.memoryRegions.length ≤ maxFreeRanges) : bootInfo.FitsTable image := by
  refine ⟨fun before hbefore => ⟨_, ?_, (usableAddresses_eq_carrier before).symm⟩, ?_⟩
  · have hlen := hbefore.length_le
    have hfilter := List.length_filter_le (fun r => decide (r.kind = .usable)) before
    rw [List.length_map]
    omega
  · rw [usableAddresses_eq_carrier, KernelImage.addresses, ← carrier_remove]
    refine ⟨_, (length_remove_le _ _ _).trans ?_, rfl⟩
    have hfilter :=
      List.length_filter_le (fun r => decide (r.kind = .usable)) bootInfo.memoryRegions
    rw [List.length_map]
    omega

/-- A map out of order, with a region across the start of the window and the kernel inside it. -/
def straddlingMap : BootInfo where
  memoryRegions := [⟨0x1800000, 256, .usable⟩, ⟨0, 160, .reserved⟩, ⟨0xf00000, 512, .usable⟩]
  framebufferBase := 0
  framebufferSize := 0

def lowImage : KernelImage := ⟨0x1000000, 0x1080010⟩

theorem memory_map_intake_at_straddlingMap :
    ∃ s', initializeAllocator straddlingMap lowImage (.new ⟨fun _ => 0, []⟩) = some (.ok () s') ∧
      s'.free = usableAddresses straddlingMap.memoryRegions \ lowImage.addresses := by
  have hmap : ∀ r ∈ straddlingMap.memoryRegions, r.Aligned := by
    intro r hr
    simp only [straddlingMap, List.mem_cons, List.not_mem_nil, or_false] at hr
    rcases hr with rfl | rfl | rfl
    · exact fun _ => ⟨rfl, by decide⟩
    · exact fun h => by cases h
    · exact fun _ => ⟨rfl, by decide⟩
  obtain ⟨hiff, -, hspec⟩ := memory_map_intake hmap
    (fitsTable_of_length_le lowImage (by decide)) (.new ⟨fun _ => 0, []⟩)
  obtain ⟨s', hok⟩ := hiff.mpr ⟨_, List.mem_cons_self, rfl, by decide, by decide⟩
  exact ⟨s', hok, (hspec s' hok).1⟩

/-- One usable region of no pages, above the start of the window. -/
def emptyRegionMap : BootInfo where
  memoryRegions := [⟨0x2000000, 0, .usable⟩]
  framebufferBase := 0
  framebufferSize := 0

/-- **An empty region counts for nothing**: it ends above the start of the window, and there is no
usable memory. -/
theorem intake_rejects_empty_region :
    ¬ ∀ (bootInfo : BootInfo) (image : KernelImage) (s : MemoryState),
      (∀ r ∈ bootInfo.memoryRegions, r.Aligned) → bootInfo.FitsTable image →
      ((∃ s', initializeAllocator bootInfo image s = some (.ok () s')) ↔
        ∃ r ∈ bootInfo.memoryRegions, r.kind = .usable ∧ physWindowStart < r.stop) := by
  intro hclaim
  have hmap : ∀ r ∈ emptyRegionMap.memoryRegions, r.Aligned := by
    intro r hr
    obtain rfl := List.mem_singleton.mp hr
    exact fun _ => ⟨rfl, by decide⟩
  obtain ⟨s', hok⟩ := (hclaim emptyRegionMap lowImage (.new ⟨fun _ => 0, []⟩) hmap
    (fitsTable_of_length_le lowImage (by decide))).mpr
      ⟨_, List.mem_cons_self, rfl, by decide⟩
  cases hok

end Lazers.Memory
