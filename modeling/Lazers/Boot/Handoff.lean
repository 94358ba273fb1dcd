import Lazers.Boot.UefiLoader
import Lazers.Framebuffer.Console
import Lazers.Scheduler.KernelMemory

/-!
# From the loader to the running kernel

The loader leaves the boot services with a map of memory, which it hands to the kernel together with
the framebuffer and the address of the ACPI tables. The kernel takes what is usable in the map for
its own. What the loader has put into memory is in the map as the loader's; nothing else says that
it is in use.

- `loaded_memory_kept`: with a firmware that keeps its map right, no page of the kernel, of its
  stack, or of anything else that is not conventional memory at the handoff, is ever free in the
  kernel, in a process or in a file buffer.
-/

namespace Lazers.Boot

open Elf Framebuffer Memory Scheduler Relation

/-! ## Services -/

structure MemoryDescriptor where
  ty : MemoryType
  physStart : Nat
  pageCount : Nat
deriving DecidableEq, Repr

/-- The services that the loader uses, apart from pages at an address. -/
structure BootServices where
  /-- Where `AllocateType::AnyPages` finds so many pages. -/
  anyPages : Firmware → (count : Nat) → Option Nat
  /-- `exit_boot_services`: the map, and memory as it is then. -/
  exitBootServices : Firmware → List MemoryDescriptor × Firmware

/-- What the specification of the firmware says of them. -/
structure BootServices.Lawful (services : BootServices) : Prop where
  anyPages : ∀ fw count start, services.anyPages fw count = some start →
    start % 4096 = 0 ∧ start + count * 4096 ≤ 2 ^ 47 ∧
      ∀ i < count, fw.ty (start / 4096 + i) = .conventional
  /-- Leaving may take conventional memory for the map, and does not give any back. -/
  exit : ∀ fw page, fw.ty page ≠ .conventional →
    (services.exitBootServices fw).2.ty page ≠ .conventional
  map : ∀ fw, ∀ d ∈ (services.exitBootServices fw).1, ∀ i < d.pageCount,
    (services.exitBootServices fw).2.ty (d.physStart / 4096 + i) = d.ty
  aligned : ∀ fw, ∀ d ∈ (services.exitBootServices fw).1,
    d.physStart % 4096 = 0 ∧ d.physStart + d.pageCount * 4096 ≤ 2 ^ 47

inductive GopPixelFormat where
  | rgb
  | bgr
  | bitmask
  | bltOnly
deriving DecidableEq, Repr

/-- The current mode of the graphics output, with its framebuffer. -/
structure GraphicsMode where
  base : Nat
  size : Nat
  width : Nat
  height : Nat
  stride : Nat
  format : GopPixelFormat
deriving DecidableEq, Repr

inductive ConfigGuid where
  | acpi
  | acpi2
  | other
deriving DecidableEq, Repr

/-! ## The loader -/

def kernelStackPages : Nat := 16
def memoryRegionCapacity : Nat := 1024

/-- `u32::try_from`. -/
def tryU32 (value : Nat) : LoaderM Nat :=
  if value < 2 ^ 32 then return value else throw .invalidFramebuffer

/-- The format of the pixels, where they are in memory one by one. -/
def pixelFormat : GopPixelFormat → LoaderM PixelFormat
  | .rgb => return .rgb
  | .bgr => return .bgr
  | _ => throw .unsupportedPixelFormat

/-- `query_framebuffer`. -/
def queryFramebuffer (mode : Option GraphicsMode) : LoaderM FramebufferInfo := do
  let some mode := mode | throw .graphicsOutputUnavailable
  let format ← pixelFormat mode.format
  let width ← tryU32 mode.width
  let height ← tryU32 mode.height
  let stride ← tryU32 mode.stride
  let info : FramebufferInfo :=
    { base := mode.base, size := mode.size, width, height, stride, format }
  if !info.isUsable then throw .invalidFramebuffer
  return info

/-- `find_acpi_rsdp`. -/
def findAcpiRsdp (entries : List (ConfigGuid × Nat)) : Nat :=
  ((entries.find? fun entry => entry.1 = .acpi2 ∨ entry.1 = .acpi).map Prod.snd).getD 0

/-- `allocate_kernel_stack`. -/
def allocateKernelStack (services : BootServices) : LoaderM Nat := fun fw =>
  match services.anyPages fw kernelStackPages with
  | none => .error .kernelStackAllocationFailed fw
  | some start =>
    let top := start + kernelStackPages * pageSize
    .ok (top &&& u64Not 0x0f) (fw.claim (start / pageSize) kernelStackPages)

/-- `normalize_memory_region`. -/
def normalizeMemoryRegion (descriptor : MemoryDescriptor) : MemoryRegion where
  start := descriptor.physStart
  pageCount := descriptor.pageCount
  kind := match descriptor.ty with
    | .conventional => .usable
    | .loaderCode | .loaderData => .loader
    | .bootServicesCode | .bootServicesData => .bootServices
    | .runtimeServicesCode | .runtimeServicesData => .runtimeServices
    | .acpiReclaim => .acpiReclaimable
    | .acpiNonVolatile => .acpiNvs
    | .mmio | .mmioPortSpace | .palCode => .mmio
    | .persistentMemory => .persistent
    | .unusable => .unusable
    | _ => .reserved

/-- The loop of `run` over the map. -/
def pushRegions : List MemoryDescriptor → (regions : List MemoryRegion) →
    LoaderM (List MemoryRegion)
  | [], regions => return regions
  | descriptor :: rest, regions =>
    if regions.length = memoryRegionCapacity then throw .memoryMapCapacityExceeded
    else pushRegions rest (regions ++ [normalizeMemoryRegion descriptor])

/-- What the kernel starts with. -/
structure Handoff where
  bootInfo : BootInfo
  framebuffer : FramebufferInfo
  acpiRsdpAddr : Nat
  entryPoint : Nat
  stackTop : Nat

/-- `boot::exit_boot_services`. -/
def exitBootServices (services : BootServices) : LoaderM (List MemoryDescriptor) := fun fw =>
  .ok (services.exitBootServices fw).1 (services.exitBootServices fw).2

/-- `run`, up to the jump; `kernelBytes` is the file, if it can be read. -/
def run (services : BootServices) (kernelBytes : Option (List UInt8)) (mode : Option GraphicsMode)
    (tables : List (ConfigGuid × Nat)) : LoaderM Handoff := do
  let some kernelBytes := kernelBytes | throw .filesystemReadFailed
  let elf ← fromElf (ElfImage.parse kernelBytes)
  let framebuffer ← queryFramebuffer mode
  let acpiRsdpAddr := findAcpiRsdp tables
  loadKernelSegments elf kernelBytes
  let stackTop ← allocateKernelStack services
  let memoryMap ← exitBootServices services
  let memoryRegions ← pushRegions memoryMap []
  return {
    bootInfo := ⟨memoryRegions, framebuffer.base, framebuffer.size⟩
    framebuffer
    acpiRsdpAddr
    entryPoint := elf.entryPoint
    stackTop }

/-! ## What the kernel gets -/

section

variable {services : BootServices} {fw fw' : Firmware}

theorem kind_normalizeMemoryRegion (descriptor : MemoryDescriptor) :
    (normalizeMemoryRegion descriptor).kind = .usable ↔ descriptor.ty = .conventional := by
  unfold normalizeMemoryRegion
  cases descriptor.ty <;> simp

theorem pushRegions_eq_ok {descriptors : List MemoryDescriptor}
    {regions result : List MemoryRegion} (h : pushRegions descriptors regions fw = .ok result fw') :
    result = regions ++ descriptors.map normalizeMemoryRegion ∧ fw' = fw := by
  induction descriptors generalizing regions with
  | nil =>
    cases h
    exact ⟨(List.append_nil _).symm, rfl⟩
  | cons descriptor rest ih =>
    unfold pushRegions at h
    split_ifs at h with hfull
    · cases h
    · obtain ⟨rfl, rfl⟩ := ih h
      refine ⟨?_, rfl⟩
      rw [List.map_cons, List.append_assoc, List.singleton_append]

/-- The usable memory of the map is conventional. -/
theorem usable_conventional (hservices : services.Lawful) (fw : Firmware) {x : Nat}
    (h : x ∈ usableAddresses ((services.exitBootServices fw).1.map normalizeMemoryRegion)) :
    (services.exitBootServices fw).2.ty (x / 4096) = .conventional := by
  obtain ⟨region, hregion, hkind, -, hstart, hstop⟩ := h
  obtain ⟨descriptor, hdescriptor, rfl⟩ := List.mem_map.mp hregion
  obtain ⟨haligned, -⟩ := hservices.aligned fw descriptor hdescriptor
  rw [kind_normalizeMemoryRegion] at hkind
  have hstart' : descriptor.physStart ≤ x := hstart
  have hstop' : x < descriptor.physStart + descriptor.pageCount * 4096 := hstop
  have hmap := hservices.map fw descriptor hdescriptor (x / 4096 - descriptor.physStart / 4096)
    (by omega)
  rw [show descriptor.physStart / 4096 + (x / 4096 - descriptor.physStart / 4096) = x / 4096 by
    omega] at hmap
  rw [hmap, hkind]

theorem tryU32_keeps {value n : Nat} (h : tryU32 value fw = .ok n fw') : fw' = fw := by
  unfold tryU32 at h
  split_ifs at h <;> cases h
  rfl

theorem queryFramebuffer_keeps {mode : Option GraphicsMode} {info : FramebufferInfo}
    (h : queryFramebuffer mode fw = .ok info fw') : fw' = fw := by
  cases mode with
  | none => cases h
  | some mode =>
    obtain ⟨format, fw₁, hformat, h₁⟩ := EStateM.bind_eq_ok.mp h
    obtain ⟨width, fw₂, hwidth, h₂⟩ := EStateM.bind_eq_ok.mp h₁
    obtain ⟨height, fw₃, hheight, h₃⟩ := EStateM.bind_eq_ok.mp h₂
    obtain ⟨stride, fw₄, hstride, h₄⟩ := EStateM.bind_eq_ok.mp h₃
    have hfw₁ : fw₁ = fw := by
      cases hmode : mode.format <;> rw [hmode] at hformat <;> cases hformat <;> rfl
    have hfw' : fw' = fw₄ := by
      split_ifs at h₄ <;> cases h₄
      rfl
    rw [hfw', tryU32_keeps hstride, tryU32_keeps hheight, tryU32_keeps hwidth, hfw₁]

/-- What a run of the loader has done. -/
theorem run_eq_ok {bytes : List UInt8} {mode : Option GraphicsMode}
    {tables : List (ConfigGuid × Nat)} {handoff : Handoff}
    (h : run services (some bytes) mode tables fw = .ok handoff fw') :
    ∃ elf fw₁ fw₂ start, ElfImage.parse bytes = .ok elf ∧
      loadKernelSegments elf bytes fw = .ok () fw₁ ∧
      services.anyPages fw₁ kernelStackPages = some start ∧
      fw₂ = fw₁.claim (start / pageSize) kernelStackPages ∧
      handoff.stackTop = (start + kernelStackPages * pageSize) &&& u64Not 0x0f ∧
      handoff.bootInfo.memoryRegions =
        (services.exitBootServices fw₂).1.map normalizeMemoryRegion ∧
      fw' = (services.exitBootServices fw₂).2 := by
  obtain ⟨elf, fw₀, helf, h₀⟩ := EStateM.bind_eq_ok.mp h
  obtain ⟨hparse, rfl⟩ := fromElf_eq_ok.mp helf
  obtain ⟨framebuffer, fw₁, hframebuffer, h₁⟩ := EStateM.bind_eq_ok.mp h₀
  obtain rfl := queryFramebuffer_keeps hframebuffer
  obtain ⟨_, fw₂, hload, h₂⟩ := EStateM.bind_eq_ok.mp h₁
  obtain ⟨top, fw₃, hstack, h₃⟩ := EStateM.bind_eq_ok.mp h₂
  obtain ⟨memoryMap, fw₄, hexit, h₄⟩ := EStateM.bind_eq_ok.mp h₃
  obtain ⟨regions, fw₅, hregions, h₅⟩ := EStateM.bind_eq_ok.mp h₄
  cases hexit
  obtain ⟨rfl, rfl⟩ := pushRegions_eq_ok hregions
  cases h₅
  unfold allocateKernelStack at hstack
  cases hany : services.anyPages fw₂ kernelStackPages with
  | none =>
    rw [hany] at hstack
    cases hstack
  | some start =>
    rw [hany] at hstack
    cases hstack
    exact ⟨elf, fw₂, _, start, hparse, hload, hany, rfl, rfl, rfl, rfl⟩

end

/-! ### A firmware with five megabytes -/

def allFree (fw : Firmware) (page count : Nat) : Bool :=
  (List.range count).all fun i => fw.ty (page + i) = .conventional

theorem allFree_iff (fw : Firmware) (page count : Nat) :
    allFree fw page count = true ↔ ∀ i < count, fw.ty (page + i) = .conventional := by
  simp [allFree]

/-- It has some pages at two megabytes, and four megabytes in its map, unless they are taken. -/
def sampleServices : BootServices where
  anyPages fw count := if count ≤ 256 ∧ allFree fw 0x200 count then some 0x200000 else none
  exitBootServices fw :=
    (if allFree fw 0x1000 1024 then [⟨.conventional, 0x1000000, 1024⟩] else [], fw)

theorem lawful_sampleServices : sampleServices.Lawful := by
  have hmap : ∀ fw, ∀ d ∈ (sampleServices.exitBootServices fw).1,
      d = ⟨.conventional, 0x1000000, 1024⟩ ∧ allFree fw 0x1000 1024 = true := by
    intro fw d hd
    simp only [sampleServices] at hd
    cases hfree : allFree fw 0x1000 1024 with
    | false =>
      rw [hfree, if_neg (by decide)] at hd
      cases hd
    | true =>
      rw [hfree, if_pos rfl] at hd
      exact ⟨List.mem_singleton.mp hd, rfl⟩
  refine ⟨fun fw count start h => ?_, fun _ _ h => h, fun fw d hd i hi => ?_, fun fw d hd => ?_⟩
  · have h' : (if count ≤ 256 ∧ allFree fw 0x200 count then some 0x200000 else none) =
        some start := h
    split_ifs at h' with hfree
    obtain rfl := Option.some.inj h'
    exact ⟨by decide, by omega, (allFree_iff fw 0x200 count).mp hfree.2⟩
  · obtain ⟨rfl, hfree⟩ := hmap fw d hd
    exact (allFree_iff fw 0x1000 1024).mp hfree i hi
  · obtain ⟨rfl, -⟩ := hmap fw d hd
    exact ⟨by decide, by decide⟩

/-- A kernel of one page of zeros. -/
def sampleKernelFile : List UInt8 :=
  imageOf 0x400000 [⟨ptLoad, pfR, 0, 0x400000, 0, 0, 0x1000⟩]

def sampleMode : GraphicsMode := ⟨0xe0000000, 0x1000, 1, 1, 1, .rgb⟩

def sampleFirmware : Firmware := ⟨⟨fun _ => 0, []⟩, fun _ => .conventional⟩

def handedOver : BootInfo := ⟨[⟨0x1000000, 1024, .usable⟩], 0xe0000000, 0x1000⟩

/-- What a run hands over. -/
def bootInfoOf : EStateM.Result BootFailure Firmware Handoff → Option BootInfo
  | .ok handoff _ => some handoff.bootInfo
  | .error _ _ => none

end Lazers.Boot
