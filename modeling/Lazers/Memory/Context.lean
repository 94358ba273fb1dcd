import Lazers.Memory.KernelSpace

/-!
# The kernel context of a user space

Every user address space starts with the same mappings: the physical window in
huge pages, and the framebuffer and the recorded kernel ranges in small ones.
`ContextOk` is what building them needs: the small ranges stay clear of the
window, since `ensure_table` would otherwise build on huge pages as if they
were tables, as in `KernelRun.call_inside_window_stores_into_memory`. Every run
of the kernel whose own calls stay clear of the window has such a context
(`KernelRun.Reachable.contextOk`).
-/

namespace Lazers.Memory

open PageTable AddressMap

/-! ## Ranges -/

/-- A range every address space maps with small pages. -/
structure ContextRange where
  start : Nat
  stop : Nat
  flags : Nat
deriving DecidableEq, Repr

/-- The framebuffer, unless the window covers it, and the recorded mappings. -/
def MemoryState.contextRanges (s : MemoryState) : List ContextRange :=
  (if s.framebufferStart ≠ 0 ∧
      (s.framebufferStart < physWindowStart ∨ s.framebufferEnd > s.physWindowEnd) then
    [⟨s.framebufferStart, s.framebufferEnd, pagePresent ||| pageWritable⟩] else []) ++
  s.sharedMappings.map fun mapping => ⟨mapping.start, mapping.stop, kernelFlags mapping.writable⟩

/-- A memory state whose allocator is in order and whose small ranges stay clear
of the window. -/
structure ContextOk (s : MemoryState) : Prop where
  valid : s.allocator.Valid
  low : ∀ f ∈ s.allocator.frames, f < 2 ^ 52
  windowEnd_le : s.physWindowEnd ≤ 2 ^ 47
  windowEnd_mod : s.physWindowEnd % 2097152 = 0
  ranges : ∀ r ∈ s.contextRanges, RangeOk s r.start r.stop

/-! ## Runs keep the context clear -/

theorem RangeOk.congr {s s' : MemoryState} {start stop : Nat} (h : RangeOk s start stop)
    (hend : s'.physWindowEnd = s.physWindowEnd) : RangeOk s' start stop :=
  ⟨h.start_le, h.stop_le, hend ▸ h.clear⟩

/-- A range that is clear stays clear when it is rounded. -/
theorem RangeOk.rounded {s : MemoryState} {start stop : Nat} (h : RangeOk s start stop) :
    RangeOk s (alignDown start pageSize) (alignUp stop pageSize) := by
  have hstart := h.start_le
  have hstop := h.stop_le
  have hlimit : stop + 4096 ≤ u64Limit := by
    rw [u64Limit]
    omega
  have hlimit' : start < u64Limit := by
    rw [u64Limit]
    omega
  have hle : alignUp stop pageSize ≤ 2 ^ 47 := by
    rw [alignUp_page hlimit]
    omega
  refine ⟨?_, hle, ?_⟩
  · rw [alignDown_page hlimit']
    omega
  · rw [alignDown_of_mod (alignDown_page_bounds start).2 (alignDown_page_bounds start).1,
      alignUp_of_mod hle (alignUp_page_bounds stop).1]
    exact h.clear

/-- What the context of a state depends on. -/
theorem MemoryState.contextRanges_congr {s s' : MemoryState}
    (h : s' = { s with phys := s'.phys, allocator := s'.allocator }) :
    s'.contextRanges = s.contextRanges ∧ s'.physWindowEnd = s.physWindowEnd := by
  rw [h]
  exact ⟨rfl, rfl⟩

/-- What recording does to the ranges of the context. -/
theorem recordSharedKernelMapping_contextRanges (start stop : Nat) (writable : Bool)
    (s : MemoryState) :
    match recordSharedKernelMapping start stop writable s with
    | .ok _ s' | .error _ s' => s'.contextRanges = s.contextRanges ∨
        s'.contextRanges = s.contextRanges ++
          [⟨alignDown start pageSize, alignUp stop pageSize, kernelFlags writable⟩] := by
  unfold recordSharedKernelMapping
  simp only
  split_ifs with hempty hcovers hfull
  · exact .inl rfl
  · exact .inl rfl
  · exact .inl rfl
  · right
    have hlog : s.sharedKernelMappings.toList.length = maxSharedKernelMappings := by simp
    rw [MemoryState.contextRanges, MemoryState.contextRanges, List.append_assoc]
    congr 1
    rw [MemoryState.sharedMappings, MemoryState.sharedMappings, Vector.toList_setIfInBounds,
      List.take_add_one, List.take_set_of_le le_rfl, List.getElem?_set_self (by omega)]
    simp

/-- A recorded mapping is the only range that recording can add. -/
theorem mem_contextRanges_of_record {start stop : Nat} {writable : Bool} {s s' : MemoryState}
    {r : EStateM.Result MemoryError MemoryState Unit}
    (h : recordSharedKernelMapping start stop writable s = r)
    (hr : r = .ok () s' ∨ ∃ e, r = .error e s') {range : ContextRange}
    (hmem : range ∈ s'.contextRanges) :
    range ∈ s.contextRanges ∨
      (range.start = alignDown start pageSize ∧ range.stop = alignUp stop pageSize) := by
  have hranges := recordSharedKernelMapping_contextRanges start stop writable s
  rw [h] at hranges
  have hcases : s'.contextRanges = s.contextRanges ∨ s'.contextRanges = s.contextRanges ++
      [⟨alignDown start pageSize, alignUp stop pageSize, kernelFlags writable⟩] := by
    rcases hr with rfl | ⟨e, rfl⟩
    · exact hranges
    · exact hranges
  rcases hcases with hsame | hgrow
  · exact .inl (hsame ▸ hmem)
  · rw [hgrow, List.mem_append, List.mem_singleton] at hmem
    refine hmem.imp id fun heq => ?_
    rw [heq]
    exact ⟨rfl, rfl⟩

/-- A call adds its own rounded range to the context, if anything. -/
theorem mapKernelIdentityRange_context {s s' : MemoryState} (hvalid : s.allocator.Valid)
    {start stop : Nat} {writable : Bool}
    (h : mapKernelIdentityRange start stop writable s = .ok () s' ∨
      ∃ e, mapKernelIdentityRange start stop writable s = .error e s') :
    s'.physWindowEnd = s.physWindowEnd ∧ ∀ range ∈ s'.contextRanges, range ∈ s.contextRanges ∨
      (range.start = alignDown start pageSize ∧ range.stop = alignUp stop pageSize) := by
  unfold mapKernelIdentityRange at h
  cases hspace : s.kernelSpace with
  | none =>
    rw [hspace] at h
    rcases h with h | ⟨e, h⟩ <;> cases h
    exact ⟨rfl, fun _ hmem => .inl hmem⟩
  | some space =>
    rw [hspace] at h
    have hafter : ∀ {s₁ : MemoryState},
        s₁ = { s with phys := s₁.phys, allocator := s₁.allocator } →
        recordSharedKernelMapping start stop writable s₁ = .ok () s' ∨
          (∃ e, recordSharedKernelMapping start stop writable s₁ = .error e s') →
        s'.physWindowEnd = s.physWindowEnd ∧ ∀ range ∈ s'.contextRanges,
          range ∈ s.contextRanges ∨
            (range.start = alignDown start pageSize ∧ range.stop = alignUp stop pageSize) := by
      intro s₁ hctx hrec
      obtain ⟨hranges, hend⟩ := MemoryState.contextRanges_congr hctx
      refine ⟨?_, fun range hmem => hranges ▸ mem_contextRanges_of_record rfl hrec hmem⟩
      have hframe := recordSharedKernelMapping_frame start stop writable s₁
      rcases hrec with hrec | ⟨e, hrec⟩
      · rw [hrec] at hframe
        exact hframe.2.2.2.trans hend
      · rw [hrec] at hframe
        exact hframe.2.2.2.trans hend
    rcases h with h | ⟨e, h⟩
    · obtain ⟨_, s₁, hrun, hrec⟩ := EStateM.bind_eq_ok.mp h
      exact hafter (runBuilder_eq_ok (Builder.mapIdentity4kRange_takes _ _ _ _) hvalid hrun).2
        (.inl hrec)
    · rcases EStateM.bind_eq_error.mp h with hrun | ⟨_, s₁, hrun, hrec⟩
      · obtain ⟨hranges, hend⟩ := MemoryState.contextRanges_congr
          (runBuilder_eq_error (Builder.mapIdentity4kRange_takes _ _ _ _) hvalid hrun).2
        exact ⟨hend, fun range hmem => .inl (hranges ▸ hmem)⟩
      · exact hafter (runBuilder_eq_ok (Builder.mapIdentity4kRange_takes _ _ _ _) hvalid hrun).2
          (.inr ⟨e, hrec⟩)

/-- The context `init` leaves: at most the framebuffer. -/
theorem installKernelSpace_context {bootInfo : BootInfo} {s₁ s : MemoryState}
    (hvalid : s₁.allocator.Valid) (hcount : s₁.sharedKernelMappingCount = 0)
    (h : installKernelSpace bootInfo s₁ = .ok () s) :
    s.physWindowEnd = s₁.physWindowEnd ∧ s.contextRanges =
      if bootInfo.framebufferStart ≠ 0 ∧ (bootInfo.framebufferStart < physWindowStart ∨
          bootInfo.framebufferEnd > s₁.physWindowEnd) then
        [⟨bootInfo.framebufferStart, bootInfo.framebufferEnd, pagePresent ||| pageWritable⟩]
      else [] := by
  obtain ⟨root, s₂, s₃, s₄, halloc, hwindow, hfb, rfl⟩ := installKernelSpace_eq_ok h
  obtain ⟨hvalid₂, hctx₂⟩ : s₂.allocator.Valid ∧
      s₂ = { s₁ with phys := s₂.phys, allocator := s₂.allocator } := by
    obtain ⟨a, hsome, rfl⟩ := MemoryState.allocatePage_eq_ok halloc
    exact ⟨(PhysicalAllocator.allocatePage_spec hvalid hsome).1, rfl⟩
  obtain ⟨hrun₃, hctx₃⟩ :=
    runBuilder_eq_ok (Builder.mapIdentity2mRange_takes _ _ _ _) hvalid₂ hwindow
  have hvalid₃ : s₃.allocator.Valid :=
    ((Builder.mapIdentity2mRange_takes _ _ _ _).draws _ |>.ok (.refl hvalid₂) hrun₃).valid
  have hctx₄ : s₄.physWindowEnd = s₃.physWindowEnd ∧
      s₄.sharedKernelMappingCount = s₃.sharedKernelMappingCount := by
    split_ifs at hfb
    · rw [(runBuilder_eq_ok (Builder.mapIdentity4kRange_takes _ _ _ _) hvalid₃ hfb).2]
      exact ⟨rfl, rfl⟩
    · rw [hfb]
      exact ⟨rfl, rfl⟩
  have hend : s₄.physWindowEnd = s₁.physWindowEnd := by
    rw [hctx₄.1, hctx₃, hctx₂]
  have hzero : s₄.sharedKernelMappingCount = 0 := by
    rw [hctx₄.2, hctx₃, hctx₂, hcount]
  refine ⟨hend, ?_⟩
  simp only [MemoryState.contextRanges, MemoryState.sharedMappings, hend, hzero, List.take_zero,
    List.map_nil, List.append_nil]

theorem initializeAllocator_count {bootInfo : BootInfo} {image : KernelImage}
    {s s₁ : MemoryState} (h : initializeAllocator bootInfo image s = some (.ok () s₁)) :
    s₁.sharedKernelMappingCount = 0 := by
  obtain ⟨⟨a, highest⟩, -, h⟩ := Option.bind_eq_some_iff.mp h
  simp only at h
  split_ifs at h
  · cases h
  · obtain ⟨a', -, h⟩ := Option.map_eq_some_iff.mp h
    cases h
    rfl

theorem BootInfo.Regular.framebufferStart_le {bootInfo : BootInfo} (h : bootInfo.Regular) :
    bootInfo.framebufferStart ≤ 2 ^ 47 := by
  have hle := h.framebuffer_le
  have hlim : bootInfo.framebufferBase < u64Limit := by
    rw [u64Limit]
    omega
  rw [BootInfo.framebufferStart, alignDown_page hlim]
  omega

/-- The small ranges of every run stay clear of the window if its calls do. -/
theorem KernelRun.Reachable.ranges {bootInfo : BootInfo} {image : KernelImage}
    (hboot : bootInfo.Regular) {run : KernelRun} (h : Reachable bootInfo image RangeOk run) :
    ∀ r ∈ run.state.contextRanges, RangeOk run.state r.start r.stop := by
  induction h with
  | @init phys s₁ s filled booted =>
    obtain ⟨hvalid, -, hend, -, -⟩ := initializeAllocator_spec hboot.regions filled
    have hinstall := booted
    rw [Memory.init, filled, Option.map_some, Option.some.injEq] at hinstall
    obtain ⟨hend', hranges⟩ :=
      installKernelSpace_context hvalid (initializeAllocator_count filled) hinstall
    intro r hr
    rw [hranges] at hr
    split_ifs at hr with hfb
    · obtain rfl := List.mem_singleton.mp hr
      obtain ⟨-, hout⟩ := hfb
      rw [hend] at hout hend'
      refine ⟨hboot.framebufferStart_le, hboot.framebufferEnd_le, ?_⟩
      show ClearOfWindow s.physWindowEnd _ _
      rw [hend']
      exact hboot.clear_rounded (hboot.framebuffer_clear.resolve_left fun hin => by omega)
    · cases hr
  | @call run start stop writable reached allowed ih =>
    have hvalid : run.state.allocator.Valid := by
      obtain ⟨-, -, root, A, -, ⟨tab, R⟩, -, -⟩ := reached.inv hboot
      exact R.valid
    have hstep : ∀ {s' : MemoryState},
        (mapKernelIdentityRange start stop writable run.state = .ok () s' ∨
          ∃ e, mapKernelIdentityRange start stop writable run.state = .error e s') →
        ∀ r ∈ s'.contextRanges, RangeOk s' r.start r.stop := by
      intro s' hs' r hr
      obtain ⟨hend, hranges⟩ := mapKernelIdentityRange_context hvalid hs'
      rcases hranges r hr with hr | ⟨hstart, hstop⟩
      · exact (ih r hr).congr hend
      · rw [hstart, hstop]
        exact (RangeOk.congr allowed hend).rounded
    unfold KernelRun.call
    cases hcall : mapKernelIdentityRange start stop writable run.state with
    | ok _ s' => exact hstep (.inl hcall)
    | error e s' => exact hstep (.inr ⟨e, hcall⟩)

/-- **In every run whose calls stay clear of the window, so does the context.** -/
theorem KernelRun.Reachable.contextOk {bootInfo : BootInfo} {image : KernelImage}
    (hboot : bootInfo.Regular) {run : KernelRun} (h : Reachable bootInfo image RangeOk run) :
    ContextOk run.state := by
  obtain ⟨hle, hmod, root, A, -, ⟨tab, R⟩, -, -⟩ := h.inv hboot
  exact ⟨R.valid, fun f hf => R.low f (R.frames ▸ hf), hle, hmod, h.ranges hboot⟩

/-! ## Mapping the context -/

/-- Map ranges one after the other. -/
def mapContextRanges (root : Nat) : List ContextRange → Builder Unit
  | [] => return ()
  | r :: rest => do
    Builder.mapIdentity4kRange root r.start r.stop r.flags
    mapContextRanges root rest

theorem mapContextRanges_shared (root : Nat) (mappings : List SharedKernelMapping) :
    mapContextRanges root (mappings.map fun mapping =>
      ⟨mapping.start, mapping.stop, kernelFlags mapping.writable⟩) =
    replaySharedKernelMappings root mappings := by
  induction mappings with
  | nil => rfl
  | cons mapping rest ih =>
    rw [List.map_cons, mapContextRanges, replaySharedKernelMappings, ih]

/-- The context is the window and a list of ranges. -/
theorem mapSharedKernelContext_eq (root : Nat) (b : BuilderState) :
    mapSharedKernelContext root b =
      (Builder.mapIdentity2mRange root physWindowStart b.state.physWindowEnd
        (pagePresent ||| pageWritable) >>= fun _ =>
          mapContextRanges root b.state.contextRanges) b := by
  unfold mapSharedKernelContext MemoryState.contextRanges
  rw [EStateM.get_bind]
  by_cases hfb : b.state.framebufferStart ≠ 0 ∧ (b.state.framebufferStart < physWindowStart ∨
      b.state.framebufferEnd > b.state.physWindowEnd)
  · simp only [if_pos hfb, List.singleton_append, mapContextRanges, mapContextRanges_shared]
  · simp only [if_neg hfb, List.nil_append, mapContextRanges_shared]

theorem MemoryState.flags_of_mem_contextRanges {s : MemoryState} {r : ContextRange}
    (h : r ∈ s.contextRanges) : ∃ writable, r.flags = kernelFlags writable := by
  rcases List.mem_append.mp h with h | h
  · split_ifs at h
    · rw [List.mem_singleton.mp h]
      exact ⟨true, rfl⟩
    · cases h
  · obtain ⟨mapping, -, rfl⟩ := List.mem_map.mp h
    exact ⟨mapping.writable, rfl⟩

namespace AddressMap

/-- Enter the pages of some ranges. -/
def mapRanges : List ContextRange → Edit Unit
  | [] => return ()
  | r :: rest => do
    mapPages r.flags ((r.stop + 4095) / 4096 - r.start / 4096) (r.start / 4096)
    mapRanges rest

/-- Enter the window and some ranges. -/
def mapContext (windowEnd : Nat) (ranges : List ContextRange) : Edit Unit := do
  mapSlots (pagePresent ||| pageWritable) (windowEnd / 2097152 - physWindowStart / 2097152)
    (physWindowStart / 2097152)
  mapRanges ranges

end AddressMap

section

variable {o : Origin} {root : Nat} {held : Set Nat} {b : BuilderState} {A : AddressMap}

theorem mapContextRanges_lockstep {windowEnd : Nat} (hmod : windowEnd % 2097152 = 0)
    {ranges : List ContextRange}
    (hflags : ∀ r ∈ ranges, ∃ writable, r.flags = kernelFlags writable)
    (hok : ∀ r ∈ ranges, r.start ≤ 2 ^ 47 ∧ r.stop ≤ 2 ^ 47 ∧
      ClearOfWindow windowEnd (alignDown r.start pageSize) (alignUp r.stop pageSize))
    (R : Related o root held b A) (hslot : A.slot = windowSlots windowEnd) :
    Lockstep (fun _ _ b' A' => Related o root held b' A' ∧ A'.slot = windowSlots windowEnd)
      (Related o root held) (mapContextRanges root ranges b) (mapRanges ranges A) := by
  induction ranges generalizing b A with
  | nil => exact .ok ⟨R, hslot⟩
  | cons r rest ih =>
    obtain ⟨tab, R⟩ := R
    obtain ⟨writable, hwr⟩ := hflags r List.mem_cons_self
    obtain ⟨hbit, hlt⟩ := kernelFlags_bounds writable
    obtain ⟨hstart, hstop, hclear⟩ := hok r List.mem_cons_self
    rw [← hwr] at hbit hlt
    have hlimit : r.start < u64Limit := by
      rw [u64Limit]
      omega
    refine (mapIdentity4kRange_lockstep hbit hlt R hlimit (by omega) fun i hlo hhi => ?_).right_eq.bind
      fun _ _ b₁ A₁ h₁ => ?_
    · rw [hslot]
      exact hclear.slot_none hlimit hstop hmod ⟨hlo, hhi⟩
    · refine ih (fun r' h => hflags r' (List.mem_cons_of_mem _ h))
        (fun r' h => hok r' (List.mem_cons_of_mem _ h)) h₁.1 ?_
      exact ((mapPages_maps _ _ _).ok ⟨rfl, rfl⟩ h₁.2).2.trans hslot

/-- **The kernel context in a new address space.** -/
theorem mapSharedKernelContext_lockstep (hs : ContextOk b.state)
    (R : Related o root held b A) (htables : A.tables = ∅) (hslot : A.slot = fun _ => none) :
    Lockstep (fun _ _ b' A' => Related o root held b' A' ∧
        A'.slot = windowSlots b.state.physWindowEnd)
      (Related o root held) (mapSharedKernelContext root b)
      (mapContext b.state.physWindowEnd b.state.contextRanges A) := by
  obtain ⟨tab, R⟩ := R
  have hle := hs.windowEnd_le
  have hmod := hs.windowEnd_mod
  rw [mapSharedKernelContext_eq]
  unfold mapContext
  have hbit : (pagePresent ||| pageWritable).testBit 0 = true := by decide
  have hflags : pagePresent ||| pageWritable < 4096 := by decide
  have hstart : physWindowStart < u64Limit := by decide
  have hstop : b.state.physWindowEnd ≤ 2 ^ 48 := by omega
  have hwindow := mapIdentity2mRange_lockstep hbit hflags R hstart hstop (by simp [htables])
  have hdiv : (b.state.physWindowEnd + 2097151) / 2097152 = b.state.physWindowEnd / 2097152 := by
    omega
  rw [hdiv] at hwindow
  refine hwindow.right_eq.bind fun _ _ b₁ A₁ h₁ => ?_
  refine mapContextRanges_lockstep hmod (fun r => MemoryState.flags_of_mem_contextRanges)
    (fun r hr => ?_) h₁.1 ?_
  · obtain ⟨hstart, hstop, hclear⟩ := hs.ranges r hr
    exact ⟨hstart, hstop, hclear⟩
  · have hmaps := ((mapSlots_maps _ _ _).ok ⟨rfl, rfl⟩ h₁.2).2
    rw [hmaps, hslot]
    rfl

end

end Lazers.Memory
