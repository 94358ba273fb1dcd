import Lazers.Lib.ByteMemory
import Lazers.Memory.FreeSet

/-!
# Global memory state, owned pages and kernel buffers
(`memory/state.rs`, `memory/types.rs`)

`MemoryState` is the content of the global `MEMORY` cell together with physical
memory itself. The kernel reaches every frame it allocates through an identity
mapping, so a `*mut` access is an access to `phys` at the same address.

An operation that returns `Result` is an `EStateM`: like the source, an `Err`
keeps whatever the state had become. A failed `assert!` ends the kernel and is
`none`.
-/

namespace Lazers.Memory

/-! ## Owned pages -/

/-- Physical pages owned by one user process image. -/
structure OwnedPages where
  pages : Vector Nat maxOwnedPages
  len : Nat
deriving DecidableEq

namespace OwnedPages

def empty : OwnedPages := { pages := Vector.replicate maxOwnedPages 0, len := 0 }

/-- `OwnedPages::push`. -/
def push (owned : OwnedPages) (page : Nat) : Except MemoryError OwnedPages :=
  if owned.len ≥ maxOwnedPages then .error .ownedPageCapacityExceeded
  else .ok { pages := owned.pages.setIfInBounds owned.len page, len := owned.len + 1 }

/-- `self.pages[index]`. -/
def page (owned : OwnedPages) (index : Nat) : Nat := (owned.pages[index]?).getD 0

/-- The recorded pages in push order. -/
def list (owned : OwnedPages) : List Nat := (List.range owned.len).map owned.page

@[simp] theorem list_empty : list empty = [] := rfl

@[simp] theorem length_list (owned : OwnedPages) : owned.list.length = owned.len := by
  simp [list]

/-- A push appends, and fails exactly when the array is full. -/
theorem push_cases (owned : OwnedPages) (page : Nat) :
    (owned.push page = .error .ownedPageCapacityExceeded ∧ maxOwnedPages ≤ owned.len) ∨
    ∃ owned', owned.push page = .ok owned' ∧ owned.len < maxOwnedPages ∧
      owned'.list = owned.list ++ [page] := by
  unfold push
  split_ifs with hfull
  · exact .inl ⟨rfl, hfull⟩
  · have hlt : owned.len < maxOwnedPages := by omega
    refine .inr ⟨_, rfl, hlt, ?_⟩
    unfold list
    simp only
    rw [List.range_succ, List.map_append]
    congr 1
    · refine List.map_congr_left fun i hi => ?_
      have hne : owned.len ≠ i := by
        have := List.mem_range.mp hi
        omega
      simp [OwnedPages.page, hne]
    · simp [OwnedPages.page, hlt]

end OwnedPages

/-! ## The global state -/

structure SharedKernelMapping where
  start : Nat
  stop : Nat
  writable : Bool
deriving DecidableEq, Repr

def SharedKernelMapping.empty : SharedKernelMapping :=
  { start := 0, stop := 0, writable := false }

structure MemoryState where
  phys : ByteMemory
  allocator : PhysicalAllocator
  kernelSpace : Option AddressSpace
  physWindowEnd : Nat
  framebufferStart : Nat
  framebufferEnd : Nat
  sharedKernelMappings : Vector SharedKernelMapping maxSharedKernelMappings
  sharedKernelMappingCount : Nat

namespace MemoryState

/-- `MemoryState::new` over the memory the machine starts with. -/
def new (phys : ByteMemory) : MemoryState where
  phys := phys
  allocator := PhysicalAllocator.new
  kernelSpace := none
  physWindowEnd := physWindowStart
  framebufferStart := 0
  framebufferEnd := 0
  sharedKernelMappings := Vector.replicate maxSharedKernelMappings SharedKernelMapping.empty
  sharedKernelMappingCount := 0

/-- The free addresses. -/
abbrev free (s : MemoryState) : Set Nat := s.allocator.free

/-- `state.allocator.allocate_page()`, including the `write_bytes` that zeroes
the page. -/
def allocatePage : EStateM MemoryError MemoryState Nat := fun s =>
  match s.allocator.allocatePage with
  | none => .error .allocatorExhausted s
  | some (page, allocator) =>
    .ok page { s with allocator, phys := s.phys.zero page pageSize }

theorem allocatePage_eq_ok {s s' : MemoryState} {page : Nat} (h : allocatePage s = .ok page s') :
    ∃ a, s.allocator.allocatePage = some (page, a) ∧
      s' = { s with allocator := a, phys := s.phys.zero page pageSize } := by
  unfold allocatePage at h
  split at h
  · cases h
  · rename_i page' a hsome
    cases h
    exact ⟨a, hsome, rfl⟩

/-- `state.allocator.allocate_contiguous_pages(count)`, with its zeroing. -/
def allocateContiguousPages (count : Nat) : EStateM MemoryError MemoryState Nat := fun s =>
  match s.allocator.allocateContiguousPages count with
  | none => .error .allocatorExhausted s
  | some (start, allocator) =>
    .ok start { s with allocator, phys := s.phys.zero start (count * pageSize) }

/-- `state.allocator.free_contiguous_pages(start, count)`. -/
def freeContiguousPages (s : MemoryState) (start count : Nat) : Option MemoryState :=
  (s.allocator.freeContiguousPages start count).map fun allocator => { s with allocator }

end MemoryState

/-- The loop of `OwnedPages::release`. -/
def releasePages : List Nat → MemoryState → Option MemoryState
  | [], s => some s
  | page :: rest, s => (s.freeContiguousPages page 1).bind (releasePages rest)

/-- `OwnedPages::release`. -/
def OwnedPages.release (owned : OwnedPages) (s : MemoryState) : Option MemoryState :=
  releasePages owned.list s

/-- Reclaimable contiguous kernel buffer backed by physical pages. -/
structure KernelBuffer where
  startPaddr : Nat
  len : Nat
  pageCount : Nat
deriving DecidableEq, Repr

/-- `KernelBuffer::as_slice`. -/
def KernelBuffer.asSlice (buffer : KernelBuffer) (s : MemoryState) : List UInt8 :=
  (List.range buffer.len).map fun i => s.phys.byte (buffer.startPaddr + i)

/-- `KernelBuffer::release`. -/
def KernelBuffer.release (buffer : KernelBuffer) (s : MemoryState) : Option MemoryState :=
  s.freeContiguousPages buffer.startPaddr buffer.pageCount

/-! ## Free frames in allocation order -/

namespace PhysicalAllocator

open RangeList

/-- The page frames of one region. -/
def regionFrames (r : PhysicalRegion) : List Nat :=
  (List.range ((r.stop - r.start) / 4096)).map fun i => r.start + i * 4096

/-- The free page frames, lowest first. -/
def frames (a : PhysicalAllocator) : List Nat := a.live.flatMap regionFrames

theorem mem_regionFrames {r : PhysicalRegion} {f : Nat} :
    f ∈ regionFrames r ↔ ∃ i < (r.stop - r.start) / 4096, r.start + i * 4096 = f := by
  simp [regionFrames]

/-- Cutting one page off a region removes its first frame. -/
theorem regionFrames_consume {r : PhysicalRegion} {c : Nat} (hc : c = r.start + 4096)
    (hfits : c ≤ r.stop) :
    regionFrames r = r.start :: (consume c r).flatMap regionFrames := by
  have hsucc : (r.stop - r.start) / 4096 = (r.stop - c) / 4096 + 1 := by omega
  have hmap : regionFrames r =
      r.start :: (List.range ((r.stop - c) / 4096)).map fun i => c + i * 4096 := by
    rw [regionFrames, hsucc, List.range_succ_eq_map, List.map_cons, List.map_map]
    congr 1
    refine List.map_congr_left fun i _ => ?_
    simp only [Function.comp_apply]
    omega
  rw [hmap]
  rcases Nat.lt_or_ge c r.stop with hlt | hge
  · rw [consume_of_lt hlt, List.flatMap_singleton]
    rfl
  · rw [consume_of_le hge, Nat.sub_eq_zero_of_le hge]
    rfl

/-- `allocate_page` takes the first free frame. -/
theorem frames_allocatePage {a a' : PhysicalAllocator} (ha : Valid a) {page : Nat}
    (h : a.allocatePage = some (page, a')) : a.frames = page :: a'.frames := by
  rw [allocatePage_eq] at h
  obtain ⟨l₁, r, l₂, hsplit, -, hlive, rfl, -, hfits, hskip⟩ := allocateContiguousPages_live ha.sound h
  -- every region holds a page, so none is passed over
  have hnil : l₁ = [] := by
    refine List.eq_nil_iff_forall_not_mem.mpr fun x hx => ?_
    have hmem : x ∈ a.live := by simp [hsplit, hx]
    have hne := ha.separated.nonempty x hmem
    obtain ⟨⟨h₁, -⟩, h₂, -⟩ := ha.regionOk x hmem
    have := hskip x hx
    omega
  subst hnil
  obtain ⟨c, hc⟩ : ∃ c, c = r.start + 4096 := ⟨_, rfl⟩
  rw [Nat.one_mul, ← hc] at hlive hfits
  rw [frames, frames, hsplit, hlive, List.nil_append, List.nil_append, List.flatMap_cons,
    List.flatMap_append, regionFrames_consume hc hfits]
  rfl

/-- `allocate_page` fails exactly when no frame is left. -/
theorem frames_eq_nil {a : PhysicalAllocator} (ha : Valid a) :
    a.frames = [] ↔ a.allocatePage = none := by
  constructor
  · intro hnil
    by_contra hne
    obtain ⟨⟨page, a'⟩, hsome⟩ := Option.ne_none_iff_exists'.mp hne
    rw [frames_allocatePage ha hsome] at hnil
    cases hnil
  · intro hnone
    rw [frames, (allocatePage_eq_none ha).mp hnone]
    rfl

/-- The free set consists of the free frames. -/
theorem mem_free_iff {a : PhysicalAllocator} (ha : Valid a) {x : Nat} :
    x ∈ a.free ↔ ∃ f ∈ a.frames, x ∈ block f 1 := by
  simp only [frames, List.mem_flatMap, mem_regionFrames, mem_block]
  constructor
  · rintro ⟨r, hr, hlo, hhi⟩
    obtain ⟨⟨h₁, -⟩, h₂, -⟩ := ha.regionOk r hr
    refine ⟨_, ⟨r, hr, (x - r.start) / 4096, ?_, rfl⟩, ?_, ?_⟩
    · omega
    · omega
    · omega
  · rintro ⟨f, ⟨r, hr, i, hi, rfl⟩, hlo, hhi⟩
    obtain ⟨⟨h₁, -⟩, h₂, -⟩ := ha.regionOk r hr
    exact ⟨r, hr, by omega, by omega⟩

theorem block_subset_free {a : PhysicalAllocator} (ha : Valid a) {f : Nat} (hf : f ∈ a.frames) :
    block f 1 ⊆ a.free := fun _ hx => (mem_free_iff ha).mpr ⟨f, hf, hx⟩

/-- Free frames are page-aligned, above zero and inside 64 bits. -/
theorem frame_bounds {a : PhysicalAllocator} (ha : Valid a) {f : Nat} (hf : f ∈ a.frames) :
    f % 4096 = 0 ∧ 0 < f ∧ f + 4096 < u64Limit := by
  simp only [frames, List.mem_flatMap, mem_regionFrames] at hf
  obtain ⟨r, hr, i, hi, rfl⟩ := hf
  obtain ⟨⟨h₁, h₂⟩, h₃, h₄⟩ := ha.regionOk r hr
  omega

/-- Free frames do not overlap. -/
theorem frames_pairwise {a : PhysicalAllocator} (ha : Valid a) :
    a.frames.Pairwise fun f g => f + 4096 ≤ g := by
  rw [frames, List.pairwise_flatMap]
  constructor
  · intro r _
    rw [regionFrames, List.pairwise_map]
    exact List.pairwise_lt_range.imp fun h => by omega
  · refine ha.separated.gap.imp_of_mem fun {r s} hr hs hgap f hf g hg => ?_
    obtain ⟨i, hi, rfl⟩ := mem_regionFrames.mp hf
    obtain ⟨j, hj, rfl⟩ := mem_regionFrames.mp hg
    omega

theorem frames_nodup {a : PhysicalAllocator} (ha : Valid a) : a.frames.Nodup :=
  (frames_pairwise ha).imp fun h => by omega

end PhysicalAllocator

end Lazers.Memory
