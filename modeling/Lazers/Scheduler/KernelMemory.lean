import Lazers.Memory.MemoryMap
import Lazers.Scheduler.FrameOwnership

/-!
# The kernel's own memory

Much of the memory belongs to the kernel without anybody keeping account of it: its image, what the
loader and the firmware keep, its page tables, and the pages that the disk controller has the
addresses of. It is safe since the allocator has never had it, or does not have it any more.

The argument is a change of the account. The kernel is a holder of frames that gives nothing away,
so whatever is counted to its frames at the start (`KernelState.keeping`) stays apart from those of
the others. The steps do not look at the account, so that a run with more on it is a run
(`KernelStep.keeping`).

- `kernel_memory_kept`: in every run, this memory is not free, in no process and in no file buffer.
-/

namespace Lazers.Scheduler

open Kernel Memory Storage SchedulerState Relation

/-! ## More on the account -/

section

variable {root : Nat} {R : Set Nat} {k k' : KernelState}

/-- The state, with `R` counted to the kernel's frames. -/
def KernelState.keeping (root : Nat) (R : Set Nat) (k : KernelState) : KernelState :=
  { k with frames := Function.update k.frames root (k.frames root ∪ R) }

theorem held_keeping (root : Nat) (R : Set Nat) (k : KernelState) :
    held root (k.keeping root R) =
      Function.update (held root k) .kernel (held root k .kernel ∪ R) := by
  funext holder
  cases holder with
  | kernel =>
    rw [Function.update_self]
    show Function.update k.frames root (k.frames root ∪ R) root = k.frames root ∪ R
    rw [Function.update_self]
  | allocator | process _ | file | hand => rfl

theorem Owned.keeping (h : Owned root k) (hR : ∀ holder, holder ≠ .kernel →
    Disjoint R (held root k holder)) : Owned root (k.keeping root R) := by
  refine ⟨h.valid, ?_, ?_, h.pages, ?_, h.file, h.hand⟩
  · rw [held_keeping]
    refine h.shares.add fun holder hne => ?_
    rw [Set.disjoint_union_left]
    exact ⟨h.shares.disjoint (Ne.symm hne), hR holder hne⟩
  · show block root 1 ⊆ Function.update k.frames root (k.frames root ∪ R) root
    rw [Function.update_self]
    exact h.kernel.trans Set.subset_union_left
  · intro p space pages howner
    by_cases hroot : space.rootPaddr = root
    · exact .inl hroot
    · obtain hroot' | hbacked := h.spaces p space pages howner
      · exact absurd hroot' hroot
      · refine .inr ?_
        show _ ⊆ Function.update k.frames root (k.frames root ∪ R) space.rootPaddr ∧
          Function.update k.frames root (k.frames root ∪ R) space.rootPaddr ⊆ _
        rw [Function.update_of_ne hroot]
        exact hbacked

/-- **The steps do not look at the account.** -/
theorem KernelStep.keeping (step : KernelStep k k') (h : Owned root (k.keeping root R)) :
    KernelStep (k.keeping root R) (k'.keeping root R) := by
  cases step with
  | store phys running => exact .store phys running
  | call running stays enabled returned => exact .call running stays enabled returned
  | yieldStays running prepared => exact .yieldStays running prepared
  | yieldSwitches running prepared => exact .yieldSwitches running prepared
  | readFails running user parent resolved read =>
    exact .readFails running user parent resolved read
  | reads argvTail silent running user parent resolved read =>
    exact .reads argvTail silent running user parent resolved read
  | loadFails loading load => exact .loadFails loading load
  | @loads target argvTail silent file program s loading load =>
    -- the root of the new space was free: it is not the kernel's
    obtain ⟨-, hroot, htakes⟩ := loadUserProgram_takes h.valid load
    have hne : root ≠ program.addressSpace.rootPaddr :=
      h.kernel_ne (htakes.taken ⟨_, hroot, mem_block_self _⟩)
    have hframes : Function.update (Function.update k.frames program.addressSpace.rootPaddr
          (k.memory.free \ s.free)) root
        (Function.update k.frames program.addressSpace.rootPaddr (k.memory.free \ s.free) root ∪
          R) =
        Function.update (Function.update k.frames root (k.frames root ∪ R))
          program.addressSpace.rootPaddr (k.memory.free \ s.free) := by
      rw [Function.update_of_ne hne, Function.update_comm hne]
    have hstep := KernelStep.loads (k := k.keeping root R) loading load
    show KernelStep _ { k with
      memory := s
      frames := Function.update (Function.update k.frames program.addressSpace.rootPaddr
          (k.memory.free \ s.free)) root
        (Function.update k.frames program.addressSpace.rootPaddr (k.memory.free \ s.free) root ∪ R)
      phase := .loaded silent file (.ok program) }
    rw [hframes]
    exact hstep
  | releaseFileFailed loaded released => exact .releaseFileFailed loaded released
  | releaseFile loaded released => exact .releaseFile loaded released
  | refuses spawning isCurrent spawned => exact .refuses spawning isCurrent spawned
  | releaseProgram refused released => exact .releaseProgram refused released
  | spawns spawning isCurrent spawned => exact .spawns spawning isCurrent spawned
  | waitFails spawned prepared => exact .waitFails spawned prepared
  | waits spawned prepared => exact .waits spawned prepared
  | activates switching => exact .activates switching
  | switches switched saved => exact .switches switched saved
  | resumes resuming resumed => exact .resumes resuming resumed
  | exits running user prepared => exact .exits running user prepared
  | activatesNext exiting => exact .activatesNext exiting
  | releasePages exited released => exact .releasePages exited released
  | shutsDown running user prepared => exact .shutsDown running user prepared

/-- **In every run.** -/
theorem Owned.keeping_run (h : Owned root (k.keeping root R))
    (hspaces : SpacesOk root (k.keeping root R) k.phase) (hrun : ReflTransGen KernelStep k k') :
    Owned root (k'.keeping root R) ∧ SpacesOk root (k'.keeping root R) k'.phase := by
  induction hrun with
  | refl => exact ⟨h, hspaces⟩
  | tail _ step ih => exact (step.keeping ih.1).keeps ih.1 ih.2

/-- Nobody but the kernel has any of `R`. -/
structure KernelState.Spares (k : KernelState) (R : Set Nat) : Prop where
  free : Disjoint R k.memory.free
  processes : ∀ p process, k.scheduler.process? p = some process →
    Disjoint R (frameSet process.ownedPages.list)
  file : ∀ file, k.phase.file = some file → Disjoint R file.frames
  pages : Disjoint R (frameSet k.phase.pages)

theorem Owned.spares (h : Owned root (k.keeping root R)) : k.Spares R := by
  have hR : ∀ holder, holder ≠ .kernel → Disjoint R (held root k holder) := by
    intro holder hne
    have hshares := h.shares.disjoint (Ne.symm hne)
    rw [held_keeping, Function.update_self, Function.update_of_ne hne] at hshares
    exact hshares.mono_left Set.subset_union_right
  refine ⟨hR .allocator (by simp), fun p process hprocess => ?_, fun file hfile => ?_,
    hR .hand (by simp)⟩
  · have howner : owners k.scheduler p = some (process.addressSpace, process.ownedPages) := by
      rw [owners, hprocess]
      rfl
    rw [← processFrames_of_owner howner]
    exact hR (.process p) (by simp)
  · have hframes : k.phase.fileFrames = file.frames := by rw [Phase.fileFrames, hfile]
    rw [← hframes]
    exact hR .file (by simp)

end

/-! ## What the allocator never has -/

/-- The loop over the memory map adds usable addresses only. -/
theorem free_addRegions {regions : List MemoryRegion} (hregions : ∀ r ∈ regions, r.Regular)
    {a a' : PhysicalAllocator} {highest highest' : Nat} (ha : a.Valid)
    (h : addRegions regions a highest = some (a', highest')) :
    a'.Valid ∧ a'.free ⊆ a.free ∪ usableAddresses regions := by
  induction regions generalizing a highest with
  | nil =>
    cases h
    exact ⟨ha, Set.subset_union_left⟩
  | cons r rest ih =>
    have hrest : ∀ x ∈ rest, x.Regular := fun x hx => hregions x (List.mem_cons_of_mem _ hx)
    have hmore : ∀ S : Set Nat, S ∪ usableAddresses rest ⊆ S ∪ usableAddresses (r :: rest) := by
      intro S
      rw [usableAddresses_cons]
      exact Set.union_subset_union_right _ Set.subset_union_right
    rw [addRegions] at h
    split_ifs at h with hkind hempty
    · obtain ⟨hvalid, hfree⟩ := ih hrest ha h
      exact ⟨hvalid, hfree.trans (hmore _)⟩
    · obtain ⟨hvalid, hfree⟩ := ih hrest ha h
      exact ⟨hvalid, hfree.trans (hmore _)⟩
    · rw [not_not] at hkind
      obtain ⟨hal, hle⟩ := hregions r List.mem_cons_self hkind
      have haligned : r.Aligned := fun _ => ⟨hal, hle.trans (by decide)⟩
      have hend := haligned.alignedEnd_eq hkind
      have husable := MemoryRegion.usable_eq haligned hkind
      rw [MemoryRegion.stop, show pageSize = 4096 from rfl] at hend
      have hstart : r.clippedStart % 4096 = 0 ∧ 0 < r.clippedStart := by
        rw [MemoryRegion.clippedStart, physWindowStart]
        omega
      have hlim : r.alignedEnd < u64Limit := by
        rw [hend, u64Limit]
        omega
      obtain ⟨a₁, hadd, hnext⟩ := Option.bind_eq_some_iff.mp h
      obtain ⟨hvalid₁, hfree₁⟩ :=
        PhysicalAllocator.addRegion_spec ha hstart.1 hstart.2 (by omega) hlim hadd
      obtain ⟨hvalid, hfree⟩ := ih hrest hvalid₁ hnext
      refine ⟨hvalid, hfree.trans ?_⟩
      rw [hfree₁, usableAddresses_cons, husable, Set.union_assoc]

theorem free_initializeAllocator {bootInfo : BootInfo} {image : KernelImage} {s s₁ : MemoryState}
    (hregions : ∀ r ∈ bootInfo.memoryRegions, r.Regular)
    (h : initializeAllocator bootInfo image s = some (.ok () s₁)) :
    s₁.free ⊆ usableAddresses bootInfo.memoryRegions \ image.addresses := by
  obtain ⟨⟨a, highest⟩, hadd, h⟩ := Option.bind_eq_some_iff.mp h
  obtain ⟨hvalid, hfree⟩ := free_addRegions hregions PhysicalAllocator.valid_new hadd
  rw [PhysicalAllocator.free_new, Set.empty_union] at hfree
  simp only at h
  split_ifs at h with hnone
  · cases h
  · obtain ⟨a', hreserve, h⟩ := Option.map_eq_some_iff.mp h
    cases h
    obtain ⟨-, hfree'⟩ := PhysicalAllocator.reserveRange_free hvalid
      (alignDown_page_bounds image.start).1 (alignUp_page_bounds image.stop).1
      (alignUp_page_bounds image.stop).2 hreserve
    show a'.free ⊆ _
    rw [hfree']
    exact Set.sdiff_subset_sdiff_left hfree

theorem free_installKernelSpace {bootInfo : BootInfo} {s₁ s : MemoryState}
    (hvalid : s₁.allocator.Valid) (h : installKernelSpace bootInfo s₁ = .ok () s) :
    s.free ⊆ s₁.free := by
  obtain ⟨root, s₂, s₃, s₄, halloc, hwindow, hframebuffer, rfl⟩ := installKernelSpace_eq_ok h
  obtain ⟨hroot, -⟩ := allocatePage_takes hvalid halloc
  obtain ⟨hwindow, -⟩ :=
    runBuilder_takes (Builder.mapIdentity2mRange_takes _ _ _ _) hroot.valid (.inl ⟨_, hwindow⟩)
  have hrest : s₄.free ⊆ s₃.free := by
    split_ifs at hframebuffer
    · exact (runBuilder_takes (Builder.mapIdentity4kRange_takes _ _ _ _) hwindow.valid
        (.inl ⟨_, hframebuffer⟩)).1.rest
    · rw [hframebuffer]
  exact hrest.trans (hwindow.rest.trans hroot.rest)

/-- The calls of the kernel's mappings only take from it. -/
theorem free_kernelRun {bootInfo : BootInfo} {image : KernelImage}
    {ok : MemoryState → Nat → Nat → Prop} {run : KernelRun}
    (hregions : ∀ r ∈ bootInfo.memoryRegions, r.Regular)
    (h : KernelRun.Reachable bootInfo image ok run) :
    run.state.free ⊆ usableAddresses bootInfo.memoryRegions \ image.addresses := by
  induction h with
  | init filled booted =>
    obtain ⟨hvalid, -⟩ := initializeAllocator_spec hregions filled
    have hfree := free_initializeAllocator hregions filled
    rw [Memory.init, filled, Option.map_some, Option.some.injEq] at booted
    exact (free_installKernelSpace hvalid booted).trans hfree
  | @call run start stop writable reached allowed ih =>
    have htables := reached.tablesHeld hregions
    rw [KernelRun.call]
    cases hrun : mapKernelIdentityRange start stop writable run.state with
    | ok r s => exact (mapKernelIdentityRange_takes htables.valid (.inl ⟨r, hrun⟩)).1.rest.trans ih
    | error e s =>
      exact (mapKernelIdentityRange_takes htables.valid (.inr ⟨e, hrun⟩)).1.rest.trans ih

/-- The pages of the controller do not stay free. -/
theorem controllerPages_apart {s s' : MemoryState} {a b c d : Nat} (hvalid : s.allocator.Valid)
    (h : controllerPages s = .ok (a, b, c, d) s') :
    Disjoint (frameSet [a, b, c, d]) s'.free := by
  obtain ⟨_, s₁, hcommands, h₁⟩ := EStateM.bind_eq_ok.mp h
  obtain ⟨_, s₂, hfis, h₂⟩ := EStateM.bind_eq_ok.mp h₁
  obtain ⟨_, s₃, htable, h₃⟩ := EStateM.bind_eq_ok.mp h₂
  obtain ⟨_, s₄, hdma, h₄⟩ := EStateM.bind_eq_ok.mp h₃
  cases h₄
  obtain ⟨htakes₁, -⟩ := allocatePage_takes hvalid hcommands
  obtain ⟨htakes₂, -⟩ := allocatePage_takes htakes₁.valid hfis
  obtain ⟨htakes₃, -⟩ := allocatePage_takes htakes₂.valid htable
  obtain ⟨htakes₄, -⟩ := allocatePage_takes htakes₃.valid hdma
  have hrest₃ : s'.free ⊆ s₃.free := htakes₄.rest
  have hrest₂ : s'.free ⊆ s₂.free := hrest₃.trans htakes₃.rest
  rw [Set.disjoint_left]
  rintro x ⟨page, hpage, hx⟩
  simp only [List.mem_cons, List.not_mem_nil, or_false] at hpage
  obtain rfl | rfl | rfl | rfl := hpage
  · exact Set.disjoint_left.mp (htakes₁.apart.mono_right (hrest₂.trans htakes₂.rest)) hx
  · exact Set.disjoint_left.mp (htakes₂.apart.mono_right hrest₂) hx
  · exact Set.disjoint_left.mp (htakes₃.apart.mono_right hrest₃) hx
  · exact Set.disjoint_left.mp htakes₄.apart hx

/-! ## Runs -/

/-- The memory of the kernel: what firmware does not give it to hand out, its image, its page tables
and the pages of the disk controller. -/
def kernelMemory (boot : KernelBoot) (run : KernelRun) (pages : Nat × Nat × Nat × Nat) : Set Nat :=
  (usableAddresses boot.bootInfo.memoryRegions \ boot.image.addresses)ᶜ ∪ run.tables ∪
    frameSet [pages.1, pages.2.1, pages.2.2.1, pages.2.2.2]

/-- Where the scheduler starts, nobody but the kernel has anything that was not free once the
controller had its pages. -/
theorem KernelBoot.Starts.held {boot : KernelBoot} {k : KernelState}
    (hregions : ∀ r ∈ boot.bootInfo.memoryRegions, r.Regular) (h : boot.Starts k) :
    ∃ run pages s₁, KernelRun.Reachable boot.bootInfo boot.image (fun _ _ _ => True) run ∧
      controllerPages run.state = .ok pages s₁ ∧ Disjoint (kernelMemory boot run pages) s₁.free ∧
      k.phase = .running ∧ ∀ root holder, holder ≠ .kernel → held root k holder ⊆ s₁.free := by
  obtain ⟨mapped, controller, kernel, read, load, released, booted⟩ := h
  rename_i run pages s₁ s₂ s₃ s₄ kernelSpace rootFs fuel file program activation s
  have htables := mapped.tablesHeld hregions
  obtain ⟨hcontroller, hspace⟩ := controllerPages_takes htables.valid controller
  obtain ⟨hfile, htakesFile⟩ := (readRootFile_takes hcontroller.valid read).1 _ rfl
  obtain ⟨hpages, hroot, htakes⟩ := loadUserProgram_takes htakesFile.valid load
  have hgives := KernelBuffer.release_gives htakes.valid hfile released
  obtain ⟨kernelId, user, hne, howners, -⟩ := bootScheduler_owners booted
  have hempty : frameSet [] ⊆ s₁.free := by
    rw [frameSet_eq_empty.mpr rfl]
    exact Set.empty_subset _
  refine ⟨run, pages, s₁, mapped, controller, ?_, rfl, fun root holder hholder => ?_⟩
  · unfold kernelMemory
    rw [Set.disjoint_union_left, Set.disjoint_union_left]
    refine ⟨⟨?_, htables.apart.mono_right hcontroller.rest⟩,
      controllerPages_apart htables.valid controller⟩
    exact Set.disjoint_compl_left_iff_subset.mpr
      (hcontroller.rest.trans (free_kernelRun hregions mapped))
  · cases holder with
    | kernel => exact absurd rfl hholder
    | allocator =>
      show s₄.free ⊆ s₁.free
      rw [hgives.free]
      exact Set.union_subset (htakes.rest.trans htakesFile.rest) htakesFile.taken
    | file => exact Set.empty_subset _
    | hand => exact hempty
    | process p =>
      show processFrames s p ⊆ s₁.free
      rw [processFrames, howners]
      by_cases huser : p = user
      · rw [huser, Function.update_self]
        exact htakes.taken.trans htakesFile.rest
      · rw [Function.update_of_ne huser]
        by_cases hkernel : p = kernelId
        · rw [hkernel, Function.update_self]
          exact hempty
        · rw [Function.update_of_ne hkernel]
          exact Set.empty_subset _

/-- What nobody has at the start, nobody gets. -/
theorem KernelBoot.Starts.spares {boot : KernelBoot} {k : KernelState}
    (hregions : ∀ r ∈ boot.bootInfo.memoryRegions, r.Regular) (h : boot.Starts k) :
    ∃ run pages s₁, KernelRun.Reachable boot.bootInfo boot.image (fun _ _ _ => True) run ∧
      controllerPages run.state = .ok pages s₁ ∧ Disjoint (kernelMemory boot run pages) s₁.free ∧
      ∀ R, Disjoint R s₁.free → ∀ k', ReflTransGen KernelStep k k' → k'.Spares R := by
  obtain ⟨run, pages, s₁, hrun, hpages, hapart, hphase, hheld⟩ := h.held hregions
  obtain ⟨root, howned, hspaces⟩ := h.owned hregions
  refine ⟨run, pages, s₁, hrun, hpages, hapart, fun R hR k' hsteps => ?_⟩
  have hkeeping := howned.keeping fun holder hholder => hR.mono_right (hheld root holder hholder)
  refine (hkeeping.keeping_run ?_ hsteps).1.spares
  rw [hphase] at hspaces ⊢
  exact hspaces

end Lazers.Scheduler
