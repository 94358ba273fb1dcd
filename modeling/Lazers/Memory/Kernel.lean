import Lazers.Memory.Refinement

/-!
# Kernel memory setup (`memory/kernel.rs`)

`init` fills the allocator from the boot memory map, identity-maps the physical
window with huge pages and the framebuffer with small ones, and
`map_kernel_identity_range` extends the kernel's address space afterwards.
`map_shared_kernel_context` repeats all of it in a new user address space.

The outcome of a function that can hit the allocator's capacity assertion is
under `Option`, with `none` for the assertion. `kernel_image_range` reads two
linker symbols, which are the parameter `image`. Loading the root into the
processor has no effect on memory and is left out.
-/

namespace Lazers.Memory

open PageTable

/-! ## Boot information -/

inductive MemoryRegionKind where
  | usable
  | reserved
  | loader
  | bootServices
  | runtimeServices
  | acpiReclaimable
  | acpiNvs
  | mmio
  | persistent
  | unusable
deriving DecidableEq, Repr

structure MemoryRegion where
  start : Nat
  pageCount : Nat
  kind : MemoryRegionKind
deriving DecidableEq, Repr

/-- What `init` reads of `BootInfo`: the memory map and the framebuffer's base
and size. -/
structure BootInfo where
  memoryRegions : List MemoryRegion
  framebufferBase : Nat
  framebufferSize : Nat
deriving DecidableEq, Repr

/-- The addresses of `__kernel_start` and `__kernel_end`. -/
structure KernelImage where
  start : Nat
  stop : Nat
deriving DecidableEq, Repr

/-! ## Source functions -/

/-- The start a usable region is added with. -/
def MemoryRegion.clippedStart (region : MemoryRegion) : Nat := max region.start physWindowStart

/-- The end a usable region is added with. -/
def MemoryRegion.alignedEnd (region : MemoryRegion) : Nat :=
  alignDown (wrap64 (region.start + saturatingMul region.pageCount pageSize)) pageSize

/-- The loop over the memory map in `initialize_allocator`. -/
def addRegions : List MemoryRegion → (allocator : PhysicalAllocator) → (highestEnd : Nat) →
    Option (PhysicalAllocator × Nat)
  | [], allocator, highestEnd => some (allocator, highestEnd)
  | region :: rest, allocator, highestEnd =>
    if region.kind ≠ .usable then addRegions rest allocator highestEnd
    else if region.alignedEnd ≤ region.clippedStart then addRegions rest allocator highestEnd
    else
      (allocator.addRegion region.clippedStart region.alignedEnd).bind fun allocator =>
        addRegions rest allocator (max highestEnd region.alignedEnd)

/-- `initialize_allocator`. -/
def initializeAllocator (bootInfo : BootInfo) (image : KernelImage) (s : MemoryState) :
    Option (EStateM.Result MemoryError MemoryState Unit) :=
  (addRegions bootInfo.memoryRegions PhysicalAllocator.new 0).bind fun (allocator, highestEnd) =>
    if highestEnd ≤ physWindowStart then
      some (.error .noUsableMemory { s with allocator, sharedKernelMappingCount := 0 })
    else
      (allocator.reserveRange (alignDown image.start pageSize) (alignUp image.stop pageSize)).map
        fun allocator => .ok () {
          s with
          allocator
          sharedKernelMappingCount := 0
          physWindowEnd := alignUp highestEnd hugePageSize }

/-- A builder without a page list, as the kernel's own address space uses it. -/
def runBuilder {α : Type} (x : Builder α) : EStateM MemoryError MemoryState α := fun s =>
  match x { state := s, ownedPages := none } with
  | .ok a b => .ok a b.state
  | .error e b => .error e b.state

def kernelFlags (writable : Bool) : Nat := pagePresent ||| if writable then pageWritable else 0

def BootInfo.framebufferStart (bootInfo : BootInfo) : Nat :=
  alignDown bootInfo.framebufferBase pageSize

def BootInfo.framebufferEnd (bootInfo : BootInfo) : Nat :=
  alignUp (wrap64 (bootInfo.framebufferBase + bootInfo.framebufferSize)) pageSize

/-- The part of `init` after `initialize_allocator`. -/
def installKernelSpace (bootInfo : BootInfo) : EStateM MemoryError MemoryState Unit := do
  let rootPaddr ← MemoryState.allocatePage
  runBuilder (Builder.mapIdentity2mRange rootPaddr physWindowStart (← get).physWindowEnd
    (pagePresent ||| pageWritable))
  if bootInfo.framebufferStart < physWindowStart ∨
      bootInfo.framebufferEnd > (← get).physWindowEnd then
    runBuilder (Builder.mapIdentity4kRange rootPaddr bootInfo.framebufferStart
      bootInfo.framebufferEnd (pagePresent ||| pageWritable))
  modify fun s => {
    s with
    framebufferStart := bootInfo.framebufferStart
    framebufferEnd := bootInfo.framebufferEnd
    kernelSpace := some { rootPaddr } }

/-- `init`. -/
def init (bootInfo : BootInfo) (image : KernelImage) (s : MemoryState) :
    Option (EStateM.Result MemoryError MemoryState Unit) :=
  (initializeAllocator bootInfo image s).map fun
    | .ok () s => installKernelSpace bootInfo s
    | .error e s => .error e s

/-- The recorded shared mappings: `shared_kernel_mappings[0..count]`. -/
def MemoryState.sharedMappings (s : MemoryState) : List SharedKernelMapping :=
  s.sharedKernelMappings.toList.take s.sharedKernelMappingCount

/-- The scan of `record_shared_kernel_mapping` for a mapping that already covers
the range. -/
def MemoryState.coversShared (s : MemoryState) (start stop : Nat) (writable : Bool) : Bool :=
  s.sharedMappings.any fun mapping =>
    decide (mapping.start ≤ start ∧ mapping.stop ≥ stop ∧ mapping.writable = writable)

/-- `record_shared_kernel_mapping`. -/
def recordSharedKernelMapping (start stop : Nat) (writable : Bool) :
    EStateM MemoryError MemoryState Unit := fun s =>
  let start := alignDown start pageSize
  let stop := alignUp stop pageSize
  if start ≥ stop then .ok () s
  else if s.coversShared start stop writable then .ok () s
  else if s.sharedKernelMappingCount ≥ maxSharedKernelMappings then
    .error .sharedKernelMappingCapacityExceeded s
  else .ok () {
    s with
    sharedKernelMappings :=
      s.sharedKernelMappings.setIfInBounds s.sharedKernelMappingCount { start, stop, writable }
    sharedKernelMappingCount := s.sharedKernelMappingCount + 1 }

/-- `map_kernel_identity_range`. -/
def mapKernelIdentityRange (start stop : Nat) (writable : Bool) :
    EStateM MemoryError MemoryState Unit := fun s =>
  match s.kernelSpace with
  | none => .error .addressSpaceUninitialized s
  | some kernelSpace =>
    (do
      runBuilder (Builder.mapIdentity4kRange kernelSpace.rootPaddr start stop
        (kernelFlags writable))
      recordSharedKernelMapping start stop writable : EStateM MemoryError MemoryState Unit) s

/-- `replay_shared_kernel_mappings`. -/
def replaySharedKernelMappings (root : Nat) : List SharedKernelMapping → Builder Unit
  | [] => return ()
  | mapping :: rest => do
    Builder.mapIdentity4kRange root mapping.start mapping.stop (kernelFlags mapping.writable)
    replaySharedKernelMappings root rest

/-- `map_shared_kernel_context`. -/
def mapSharedKernelContext (root : Nat) : Builder Unit := do
  let s := (← get).state
  Builder.mapIdentity2mRange root physWindowStart s.physWindowEnd (pagePresent ||| pageWritable)
  if s.framebufferStart ≠ 0 ∧
      (s.framebufferStart < physWindowStart ∨ s.framebufferEnd > s.physWindowEnd) then
    Builder.mapIdentity4kRange root s.framebufferStart s.framebufferEnd
      (pagePresent ||| pageWritable)
  replaySharedKernelMappings root s.sharedMappings

/-- `allocate_kernel_buffer`. -/
def allocateKernelBuffer (size : Nat) : EStateM MemoryError MemoryState KernelBuffer := fun s =>
  if size = 0 then .error .invalidKernelBufferSize s
  else
    let pageCount := alignUp size pageSize / pageSize
    match MemoryState.allocateContiguousPages pageCount s with
    | .error e s => .error e s
    | .ok startPaddr s => .ok { startPaddr, len := size, pageCount } s

end Lazers.Memory
