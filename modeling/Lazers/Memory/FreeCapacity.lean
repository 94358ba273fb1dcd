import Lazers.Memory.KernelSpace

/-!
# When returning memory overflows the region table

`insert_range` asserts that a slot of the region table is left. Allocating never
needs a new slot, but a block that is given back between two allocated ones does,
so fragmentation can use the table up.

A run of allocations and frees gets through if and only if each free finds a free
slot or a free neighbour (`frees_return_iff`).
-/

namespace Lazers.Memory

open RangeList

/-! ## Touching a free range -/

namespace PhysicalAllocator

/-- A block apart from the free set touches a free range if and only if the
address before it or the address after it is free. -/
theorem touches_iff {a : PhysicalAllocator} (ha : Sound a) {s e : Nat} (hpos : 0 < s)
    (hse : s < e) (hapart : Disjoint (Set.Ico s e) a.free) :
    (∀ r ∈ a.live, r.stop < s ∨ e < r.start) ↔ s - 1 ∉ a.free ∧ e ∉ a.free := by
  constructor
  · intro h
    constructor
    · rintro ⟨r, hr, hlo, hhi⟩
      have := h r hr
      omega
    · rintro ⟨r, hr, hlo, hhi⟩
      have := h r hr
      omega
  · rintro ⟨hbefore, hafter⟩ r hr
    have hne := ha.separated.nonempty r hr
    by_contra htouch
    rw [not_or] at htouch
    by_cases hlow : r.start < s
    · -- the range reaches up to the block
      refine hbefore ⟨r, hr, by omega, by omega⟩
    · by_cases hin : r.start < e
      · exact Set.disjoint_left.mp hapart ⟨Nat.le_of_not_lt hlow, hin⟩ ⟨r, hr, le_rfl, hne⟩
      · exact hafter ⟨r, hr, by omega, by omega⟩

/-- `insert_range` meets its assertion exactly when the table is full and the new
range touches none of it. -/
theorem insertRange_eq_none_iff {a : PhysicalAllocator} (ha : Sound a) {s e : Nat} (hpos : 0 < s)
    (hse : s < e) (hapart : Disjoint (Set.Ico s e) a.free) :
    a.insertRange s e = none ↔ a.count = maxFreeRanges ∧ s - 1 ∉ a.free ∧ e ∉ a.free := by
  have hle := ha.tidy.count_le
  have hsub := (absorb_sublist s e a.live).length_le
  rw [length_live] at hsub
  rw [← touches_iff ha hpos hse hapart, ← length_absorb_eq_iff, length_live]
  rcases insertRange_cases ha.tidy hse with ⟨a', hsome, -, -, hroom⟩ | ⟨hnone, hfull⟩
  · rw [hsome]
    constructor
    · intro h
      cases h
    · rintro ⟨hcount, hlen⟩
      omega
  · rw [hnone]
    exact ⟨fun _ => ⟨by omega, by omega⟩, fun _ => rfl⟩

end PhysicalAllocator

/-! ## Runs -/

inductive BlockOp where
  | allocatePage
  | allocateContiguousPages (count : Nat)
  | freeContiguousPages (start count : Nat)
deriving DecidableEq, Repr

/-- The allocator and the blocks handed out and not yet freed. -/
structure BlockRun where
  allocator : PhysicalAllocator
  blocks : List (Nat × Nat)
deriving DecidableEq

namespace BlockRun

/-- One operation; `none` is the failed assertion. -/
def step (run : BlockRun) : BlockOp → Option BlockRun
  | .allocatePage =>
    match run.allocator.allocatePage with
    | some (page, a) => some ⟨a, (page, 1) :: run.blocks⟩
    | none => some run
  | .allocateContiguousPages count =>
    match run.allocator.allocateContiguousPages count with
    | some (start, a) => some ⟨a, (start, count) :: run.blocks⟩
    | none => some run
  | .freeContiguousPages start count =>
    (run.allocator.freeContiguousPages start count).map fun a =>
      ⟨a, run.blocks.erase (start, count)⟩

/-- A sequence of operations. -/
def exec : List BlockOp → BlockRun → Option BlockRun
  | [], run => some run
  | op :: ops, run => (run.step op).bind (exec ops)

/-- Every operation of the sequence meets `ok` in the state it is issued in. -/
def Always (ok : BlockRun → BlockOp → Prop) : List BlockOp → BlockRun → Prop
  | [], _ => True
  | op :: ops, run => ok run op ∧
    match run.step op with
    | some run' => Always ok ops run'
    | none => True

instance {ok : BlockRun → BlockOp → Prop} [∀ run op, Decidable (ok run op)] :
    ∀ ops run, Decidable (Always ok ops run)
  | [], _ => inferInstanceAs (Decidable True)
  | op :: ops, run =>
    have : Decidable (match run.step op with
        | some run' => Always ok ops run'
        | none => True) :=
      match run.step op with
      | some run' => instDecidableAlways ops run'
      | none => inferInstanceAs (Decidable True)
    inferInstanceAs (Decidable (_ ∧ _))

/-- Only blocks that are out are freed. -/
def Issued (run : BlockRun) : BlockOp → Prop
  | .freeContiguousPages start count => (start, count) ∈ run.blocks
  | _ => True

instance (run : BlockRun) (op : BlockOp) : Decidable (run.Issued op) := by
  cases op <;> unfold Issued <;> infer_instance

/-- A free finds a slot in the table, or a free address right before or after its
block. -/
def RoomFor (run : BlockRun) : BlockOp → Prop
  | .freeContiguousPages start count =>
    run.allocator.count < maxFreeRanges ∨ start - 1 ∈ run.allocator.free ∨
      start + count * pageSize ∈ run.allocator.free
  | _ => True

/-- What every run keeps. -/
structure Inv (run : BlockRun) : Prop where
  sound : run.allocator.Sound
  blockOk : ∀ b ∈ run.blocks, 0 < b.2 ∧ 0 < b.1 ∧ b.1 + b.2 * 4096 < u64Limit
  free : ∀ b ∈ run.blocks, Disjoint (block b.1 b.2) run.allocator.free
  apart : run.blocks.Pairwise fun b c => Disjoint (block b.1 b.2) (block c.1 c.2)

theorem Inv.allocate {run : BlockRun} (inv : run.Inv) {start count : Nat} {a : PhysicalAllocator}
    (h : run.allocator.allocateContiguousPages count = some (start, a)) :
    Inv ⟨a, (start, count) :: run.blocks⟩ := by
  obtain ⟨hsound, hfree, hsub, hok⟩ := inv.sound.allocateContiguousPages h
  refine ⟨hsound, List.forall_mem_cons.mpr ⟨hok, inv.blockOk⟩, ?_, ?_⟩
  · simp only [hfree]
    refine List.forall_mem_cons.mpr ⟨Set.disjoint_sdiff_right, fun b hb => ?_⟩
    exact (inv.free b hb).mono_right Set.sdiff_subset
  · refine List.pairwise_cons.mpr ⟨fun b hb => ?_, inv.apart⟩
    exact (inv.free b hb).symm.mono_left hsub

theorem Inv.free_block {run : BlockRun} (inv : run.Inv) {start count : Nat}
    {a : PhysicalAllocator} (hout : (start, count) ∈ run.blocks)
    (h : run.allocator.freeContiguousPages start count = some a) :
    Inv ⟨a, run.blocks.erase (start, count)⟩ := by
  obtain ⟨hcount, hpos, hlim⟩ := inv.blockOk _ hout
  obtain ⟨hsound, hfree⟩ := inv.sound.freeContiguousPages hcount hpos hlim h
  have hpw := ((List.perm_cons_erase hout).pairwise_iff fun {_ _} hxy => hxy.symm).mp inv.apart
  obtain ⟨hfirst, hrest⟩ := List.pairwise_cons.mp hpw
  refine ⟨hsound, fun b hb => inv.blockOk b (List.mem_of_mem_erase hb), fun b hb => ?_, hrest⟩
  simp only [hfree]
  exact Set.disjoint_union_right.mpr
    ⟨inv.free b (List.mem_of_mem_erase hb), (hfirst b hb).symm⟩

theorem Inv.step {run run' : BlockRun} {op : BlockOp} (inv : run.Inv) (hissued : run.Issued op)
    (h : run.step op = some run') : run'.Inv := by
  cases op with
  | allocatePage =>
    rw [BlockRun.step, PhysicalAllocator.allocatePage_eq] at h
    split at h
    · rename_i page a halloc
      cases h
      exact inv.allocate halloc
    · cases h
      exact inv
  | allocateContiguousPages count =>
    rw [BlockRun.step] at h
    split at h
    · rename_i start a halloc
      cases h
      exact inv.allocate halloc
    · cases h
      exact inv
  | freeContiguousPages start count =>
    obtain ⟨a, hfree, rfl⟩ := Option.map_eq_some_iff.mp h
    exact inv.free_block hissued hfree

/-- **One operation** returns if and only if there is room for it. -/
theorem Inv.step_isSome_iff {run : BlockRun} {op : BlockOp} (inv : run.Inv)
    (hissued : run.Issued op) : (run.step op).isSome = true ↔ run.RoomFor op := by
  cases op with
  | allocatePage =>
    rw [BlockRun.step]
    split <;> simp [RoomFor]
  | allocateContiguousPages count =>
    rw [BlockRun.step]
    split <;> simp [RoomFor]
  | freeContiguousPages start count =>
    obtain ⟨hcount, hpos, hlim⟩ := inv.blockOk _ hissued
    have hle := inv.sound.tidy.count_le
    have hnone := PhysicalAllocator.insertRange_eq_none_iff inv.sound hpos
      (by omega : start < start + count * 4096) (inv.free _ hissued)
    rw [BlockRun.step, Option.isSome_map, PhysicalAllocator.freeContiguousPages_eq hcount hlim,
      Option.isSome_iff_ne_none, ne_eq, hnone, RoomFor]
    constructor
    · intro h
      by_contra hno
      rw [not_or, not_or] at hno
      exact h ⟨by omega, hno.2⟩
    · rintro (h | h | h) ⟨hfull, hbefore, hafter⟩
      · omega
      · exact hbefore h
      · exact hafter h

/-- A whole sequence. -/
theorem Inv.exec_isSome_iff {run : BlockRun} (inv : run.Inv) {ops : List BlockOp}
    (hissued : Always Issued ops run) : (exec ops run).isSome = true ↔ Always RoomFor ops run := by
  induction ops generalizing run with
  | nil => simp [exec, Always]
  | cons op ops ih =>
    obtain ⟨hop, hops⟩ := hissued
    have hstep := inv.step_isSome_iff hop
    rw [exec, Always, ← hstep]
    cases hrun : run.step op with
    | none => simp
    | some run' =>
      rw [hrun] at hops
      simp only [Option.bind_some, Option.isSome_some, true_and]
      exact ih (inv.step hop hrun) hops

end BlockRun

/-! ## From any memory map -/

theorem addRegions_sound {regions : List MemoryRegion} {a a' : PhysicalAllocator}
    {highest highest' : Nat} (ha : a.Sound)
    (h : addRegions regions a highest = some (a', highest')) : a'.Sound := by
  induction regions generalizing a highest with
  | nil =>
    cases h
    exact ha
  | cons r rest ih =>
    rw [addRegions] at h
    split_ifs at h with hkind hempty
    · exact ih ha h
    · exact ih ha h
    · obtain ⟨a₁, hadd, hnext⟩ := Option.bind_eq_some_iff.mp h
      have hpos : 0 < r.clippedStart := by
        rw [MemoryRegion.clippedStart, physWindowStart]
        omega
      exact ih (ha.insertRange hpos (alignDown_page_bounds _).2 hadd).1 hnext

/-- The run right after `initialize_allocator`. -/
theorem initializeAllocator_inv {bootInfo : BootInfo} {image : KernelImage} {s s₁ : MemoryState}
    (h : initializeAllocator bootInfo image s = some (.ok () s₁)) :
    BlockRun.Inv ⟨s₁.allocator, []⟩ := by
  obtain ⟨⟨a, highest⟩, hadd, h⟩ := Option.bind_eq_some_iff.mp h
  have hsound := addRegions_sound PhysicalAllocator.valid_new.sound hadd
  simp only at h
  split_ifs at h with hnone
  · cases h
  · obtain ⟨a', hres, h⟩ := Option.map_eq_some_iff.mp h
    cases h
    exact ⟨(hsound.reserveRange (alignUp_page_bounds image.stop).2 hres).1, by simp, by simp,
      List.Pairwise.nil⟩

/-- **When returning memory overflows the table.** For every memory map that
`initialize_allocator` accepts and every later sequence of allocations and of
frees of blocks that are out: no operation of the sequence reaches the assertion
if and only if every free finds a slot in the table, or a free address right
before or after its block. -/
theorem frees_return_iff {bootInfo : BootInfo} {image : KernelImage} {s s₁ : MemoryState}
    (h : initializeAllocator bootInfo image s = some (.ok () s₁)) {ops : List BlockOp}
    (hissued : BlockRun.Always BlockRun.Issued ops ⟨s₁.allocator, []⟩) :
    (BlockRun.exec ops ⟨s₁.allocator, []⟩).isSome = true ↔
      BlockRun.Always BlockRun.RoomFor ops ⟨s₁.allocator, []⟩ :=
  (initializeAllocator_inv h).exec_isSome_iff hissued

/-- Allocate pages one by one and free every second of them. -/
def fragment (pages : Nat) (first : Nat) : List BlockOp :=
  List.replicate pages .allocatePage ++
    (List.range (pages / 2)).map fun i => .freeContiguousPages (first + 2 * i * pageSize) 1

/-- The sample machine after the intake: one range of 1024 pages. -/
def sampleMemory : MemoryState :=
  (KernelRun.stateOf (initializeAllocator KernelRun.sampleBoot ⟨0, 0⟩ KernelRun.blankState)).getD
    KernelRun.blankState

theorem sampleMemory_eq :
    initializeAllocator KernelRun.sampleBoot ⟨0, 0⟩ KernelRun.blankState =
      some (.ok () sampleMemory) :=
  KernelRun.eq_getD_of_stateOf (by decide +kernel)

/-- Twenty pages leave room. -/
theorem frees_return_iff_at_twentyPages :
    BlockRun.Always BlockRun.RoomFor (fragment 20 physWindowStart) ⟨sampleMemory.allocator, []⟩ :=
  (frees_return_iff sampleMemory_eq (by decide +kernel)).mp (by decide +kernel)

/-! ## A table filled by the firmware map -/

/-- What `addRegions` does to the list of free ranges. -/
def addRegionsLive : List MemoryRegion → (live : List PhysicalRegion) → (highestEnd : Nat) →
    Option (List PhysicalRegion × Nat)
  | [], live, highestEnd => some (live, highestEnd)
  | region :: rest, live, highestEnd =>
    if region.kind ≠ .usable then addRegionsLive rest live highestEnd
    else if region.alignedEnd ≤ region.clippedStart then addRegionsLive rest live highestEnd
    else if (absorb region.clippedStart region.alignedEnd live).1.length < maxFreeRanges then
      addRegionsLive rest (add region.clippedStart region.alignedEnd live)
        (max highestEnd region.alignedEnd)
    else none

theorem addRegions_of_live {regions : List MemoryRegion} {a : PhysicalAllocator}
    {highest highest' : Nat} {l : List PhysicalRegion} (ha : a.Tidy)
    (h : addRegionsLive regions a.live highest = some (l, highest')) :
    ∃ a', addRegions regions a highest = some (a', highest') ∧ a'.Tidy ∧ a'.live = l := by
  induction regions generalizing a highest with
  | nil =>
    cases h
    exact ⟨a, rfl, ha, rfl⟩
  | cons r rest ih =>
    rw [addRegionsLive] at h
    rw [addRegions]
    split_ifs at h ⊢ with hkind hempty hroom
    · exact ih ha h
    · exact ih ha h
    · rcases PhysicalAllocator.insertRange_cases ha (Nat.lt_of_not_le hempty) with
        ⟨a', hsome, htidy, hlive, -⟩ | ⟨-, hfull⟩
      · rw [PhysicalAllocator.addRegion, hsome, Option.bind_some]
        rw [← hlive] at h
        exact ih htidy h
      · omega

/-- The table that holds the given ranges. -/
def tableOf (l : List PhysicalRegion) : PhysicalAllocator where
  regions := Vector.ofFn fun i => l.getD i PhysicalRegion.empty
  count := l.length

theorem region_tableOf (l : List PhysicalRegion) (i : Nat) (hi : i < maxFreeRanges) :
    (tableOf l).region i = l.getD i PhysicalRegion.empty := by
  simp [PhysicalAllocator.region, tableOf, hi]

/-- A table is read off its ranges. -/
theorem eq_tableOf {a : PhysicalAllocator} (ha : a.Tidy) : a = tableOf a.live := by
  have hle := ha.count_le
  have htidy : (tableOf a.live).Tidy := by
    refine ⟨by rwa [tableOf, PhysicalAllocator.length_live], fun i hi => ?_⟩
    rw [tableOf, PhysicalAllocator.length_live] at hi
    by_cases hlt : i < maxFreeRanges
    · rw [region_tableOf _ _ hlt]
      exact List.getD_eq_default _ _ (by rwa [PhysicalAllocator.length_live])
    · simp [PhysicalAllocator.region, hlt]
  refine ha.ext_live htidy (List.ext_getElem ?_ fun i hi hi' => ?_)
  · simp [tableOf]
  · rw [PhysicalAllocator.length_live] at hi
    rw [PhysicalAllocator.getElem_live (tableOf a.live), region_tableOf _ _ (by omega),
      List.getD_eq_getElem _ _ (by rwa [PhysicalAllocator.length_live])]

/-- 128 usable regions of three pages with one page between them. -/
def crowdedBoot : BootInfo where
  memoryRegions := (List.range 128).map fun i => ⟨physWindowStart + i * 0x4000, 3, .usable⟩
  framebufferBase := 0
  framebufferSize := 0

def crowdedRanges : List PhysicalRegion :=
  (List.range 128).map fun i =>
    ⟨physWindowStart + i * 0x4000, physWindowStart + i * 0x4000 + 0x3000⟩

theorem addRegionsLive_crowdedBoot :
    addRegionsLive crowdedBoot.memoryRegions [] 0 =
      some (crowdedRanges, physWindowStart + 0x1ff000) := by
  decide +kernel

theorem initializeAllocator_crowdedBoot : ∃ s₁,
    initializeAllocator crowdedBoot ⟨0x200000, 0x300000⟩ KernelRun.blankState = some (.ok () s₁) ∧
      s₁.allocator = tableOf crowdedRanges := by
  obtain ⟨a, hadd, htidy, hlive⟩ :=
    addRegions_of_live PhysicalAllocator.tidy_new addRegionsLive_crowdedBoot
  have ha : a = tableOf crowdedRanges := by
    rw [← hlive]
    exact eq_tableOf htidy
  -- the image lies below the window, so nothing is cut out for it
  have hreserve : (tableOf crowdedRanges).reserveRange 0x200000 0x300000 =
      some (tableOf crowdedRanges) := by
    decide +kernel
  have hwindow : ¬ physWindowStart + 0x1ff000 ≤ physWindowStart := by decide
  have hinit : initializeAllocator crowdedBoot ⟨0x200000, 0x300000⟩ KernelRun.blankState =
      some (.ok () { KernelRun.blankState with
        allocator := tableOf crowdedRanges
        sharedKernelMappingCount := 0
        physWindowEnd := alignUp (physWindowStart + 0x1ff000) hugePageSize }) := by
    have halign : alignDown 0x200000 pageSize = 0x200000 ∧ alignUp 0x300000 pageSize = 0x300000 := by
      decide
    simp only [initializeAllocator, hadd, Option.bind_some, if_neg hwindow, ha, halign.1, halign.2,
      hreserve, Option.map_some]
  exact ⟨_, hinit, rfl⟩

/-- Take two pages of the first range and give the first one back. -/
def returnFirst : List BlockOp :=
  [.allocatePage, .allocatePage, .freeContiguousPages physWindowStart 1]

/-- **The table overflows.** The map fills the table, and the page that is given
back has an allocated page behind it. -/
theorem returned_page_overflows_table :
    ¬ ∀ bootInfo image s s₁, initializeAllocator bootInfo image s = some (.ok () s₁) →
      ∀ ops, BlockRun.Always BlockRun.Issued ops ⟨s₁.allocator, []⟩ →
        (BlockRun.exec ops ⟨s₁.allocator, []⟩).isSome = true := by
  intro hall
  obtain ⟨s₁, hinit, ha⟩ := initializeAllocator_crowdedBoot
  have hsome := hall _ _ _ _ hinit returnFirst (by rw [ha]; decide +kernel)
  have hnone : (BlockRun.exec returnFirst ⟨tableOf crowdedRanges, []⟩).isSome = false := by
    decide +kernel
  rw [ha, hnone] at hsome
  cases hsome

end Lazers.Memory
