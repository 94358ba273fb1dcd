import Lazers.Lib.Triple
import Lazers.Memory.Types

/-!
# Loading the kernel (`uefi-loader`)

The loader asks the firmware for the pages of each segment of the kernel, at the addresses that the
file gives, clears them and copies the segment. It does not plan ahead: the firmware refuses a page
that it has given away before, and a segment that does not fit its memory is found after its pages
are claimed.

- `kernel_segments_loaded`: it succeeds exactly when every segment is in the file and fits, its
  pages are free, and no two segments have a page in common; then memory holds the kernel, with
  zeros in the rest of its pages, and nothing else is different.
-/

namespace Lazers.Boot

open Elf Memory

/-! ## The firmware -/

inductive MemoryType where
  | reserved
  | loaderCode
  | loaderData
  | bootServicesCode
  | bootServicesData
  | runtimeServicesCode
  | runtimeServicesData
  | conventional
  | unusable
  | acpiReclaim
  | acpiNonVolatile
  | mmio
  | mmioPortSpace
  | palCode
  | persistentMemory
  | other (value : Nat)
deriving DecidableEq, Repr

/-- Memory under the boot services: its bytes, and the type of each page. -/
structure Firmware where
  phys : ByteMemory
  ty : Nat → MemoryType

/-- The pages become the loader's. -/
def Firmware.claim (fw : Firmware) (page count : Nat) : Firmware :=
  { fw with ty := fun p => if page ≤ p ∧ p < page + count then .loaderData else fw.ty p }

inductive BootFailure where
  | filesystemReadFailed
  | invalidElf
  | graphicsOutputUnavailable
  | unsupportedPixelFormat
  | invalidFramebuffer
  | kernelSegmentAllocationFailed
  | kernelStackAllocationFailed
  | memoryMapCapacityExceeded
  | segmentFileLargerThanMemory
  | addressOverflow
deriving DecidableEq, Repr

abbrev LoaderM := EStateM BootFailure Firmware

/-- `boot::allocate_pages(AllocateType::Address(start), MemoryType::LOADER_DATA, count)`. The pages
have to be free, and a page at zero is no pointer. -/
def allocatePagesAt (start count : Nat) : LoaderM Unit := fun fw =>
  if start ≠ 0 ∧ 0 < count ∧ ∀ i < count, fw.ty (start / pageSize + i) = .conventional then
    .ok () (fw.claim (start / pageSize) count)
  else .error .kernelSegmentAllocationFailed fw

/-! ## The loader -/

/-- `map_err(BootFailure::from_elf)`. -/
def fromElf {α : Type} : Except ElfError α → LoaderM α
  | .ok a => return a
  | .error _ => throw .invalidElf

/-- `ProgramHeader::load_address`. -/
def loadAddress (header : ProgramHeader) : Except ElfError Nat :=
  let address :=
    if header.physicalAddress ≠ 0 then header.physicalAddress else header.virtualAddress
  if address = 0 then .error .zeroLoadAddress else .ok address

/-- The body of the loop of `load_kernel_segments`, for a segment. -/
def loadSegment (kernelBytes : List UInt8) (header : ProgramHeader) : LoaderM Unit := do
  let address ← fromElf (loadAddress header)
  let fileRange ← fromElf (header.fileRange kernelBytes.length)
  let segmentStart := alignDown address pageSize
  let some unaligned := checkedAdd address header.memorySize | throw .addressOverflow
  let segmentEnd := alignUp unaligned pageSize
  -- the subtraction wraps where the rounding has
  let pageCount := wrap64 (segmentEnd + (u64Limit - segmentStart)) / pageSize
  allocatePagesAt segmentStart pageCount
  modify fun fw => { fw with phys := fw.phys.zero segmentStart (pageCount * pageSize) }
  let some copyEnd := checkedAdd address header.fileSize | throw .addressOverflow
  let some memEnd := checkedAdd address header.memorySize | throw .addressOverflow
  if copyEnd > memEnd then throw .segmentFileLargerThanMemory
  let segment := (kernelBytes.drop fileRange.1).take (fileRange.2 - fileRange.1)
  modify fun fw => { fw with phys := fw.phys.write address segment }

/-- The loop of `load_kernel_segments`. -/
def loadHeaders (kernelBytes : List UInt8) : List (Except ElfError ProgramHeader) → LoaderM Unit
  | [] => return
  | item :: rest => do
    let header ← fromElf item
    if header.kind ≠ ptLoad ∨ header.memorySize = 0 then loadHeaders kernelBytes rest
    else
      loadSegment kernelBytes header
      loadHeaders kernelBytes rest

/-- `load_kernel_segments`. -/
def loadKernelSegments (elf : ElfImage) (kernelBytes : List UInt8) : LoaderM Unit :=
  loadHeaders kernelBytes elf.programHeaders

/-! ## Segments -/

section Segments

variable {kernelBytes : List UInt8} {header : ProgramHeader} {fw fw' : Firmware}

/-- Where a segment goes. -/
def addressOf (header : ProgramHeader) : Nat :=
  if header.physicalAddress ≠ 0 then header.physicalAddress else header.virtualAddress

/-- The pages of a segment. -/
def pagesOf (header : ProgramHeader) : Set Nat :=
  Set.Ico (addressOf header / 4096) ((addressOf header + header.memorySize + 4095) / 4096)

/-- A segment that can be loaded. -/
structure Loadable (kernelBytes : List UInt8) (header : ProgramHeader) : Prop where
  address : 4096 ≤ addressOf header
  file : header.offset + header.fileSize ≤ kernelBytes.length
  word : header.offset + header.fileSize < u64Limit
  fits : header.fileSize ≤ header.memorySize
  memory : addressOf header + header.memorySize < u64Limit

/-- The pages of a segment are free. -/
def Free (fw : Firmware) (header : ProgramHeader) : Prop :=
  ∀ page ∈ pagesOf header, fw.ty page = .conventional

/-- What is in memory where a segment is loaded. -/
def segmentByte (kernelBytes : List UInt8) (header : ProgramHeader) (x : Nat) : UInt8 :=
  if addressOf header ≤ x ∧ x < addressOf header + header.fileSize then
    kernelBytes.getD (header.offset + (x - addressOf header)) 0
  else 0

/-- How many pages it has. -/
def pageCount (header : ProgramHeader) : Nat :=
  (addressOf header + header.memorySize + 4095) / 4096 - addressOf header / 4096

/-- The firmware with a segment loaded. -/
def loaded (kernelBytes : List UInt8) (fw : Firmware) (header : ProgramHeader) : Firmware where
  phys := (fw.phys.zero (addressOf header / 4096 * 4096) (pageCount header * 4096)).write
    (addressOf header) ((kernelBytes.drop header.offset).take header.fileSize)
  ty := (fw.claim (addressOf header / 4096) (pageCount header)).ty

/-- The number of pages is right even where the rounding wraps. -/
theorem pageCount_eq {a m : Nat} (ha : 4096 ≤ a) (h : a + m < u64Limit) :
    wrap64 (alignUp (a + m) pageSize + (u64Limit - alignDown a pageSize)) / pageSize =
      (a + m + 4095) / 4096 - a / 4096 := by
  have hpage : pageSize = 4096 := rfl
  have hlimit : u64Limit = 18446744073709551616 := rfl
  rw [alignDown_page (by omega), wrap64, hpage]
  by_cases hwraps : a + m + 4096 ≤ u64Limit
  · rw [← hpage, alignUp_page hwraps, hpage, hlimit]
    rw [hlimit] at hwraps h
    omega
  · have hup : alignUp (a + m) 4096 = 0 := by
      unfold alignUp
      rw [if_neg (by omega), show (4096 : Nat) - 1 = 2 ^ 12 - 1 by rfl,
        and_u64Not_pow (wrap64_lt _) (by decide), wrap64, hlimit]
      rw [hlimit] at hwraps h
      omega
    rw [hup, hlimit]
    rw [hlimit] at hwraps h
    omega

theorem fromElf_eq_ok {α : Type} {r : Except ElfError α} {a : α} :
    fromElf r fw = .ok a fw' ↔ r = .ok a ∧ fw' = fw := by
  cases r with
  | ok b =>
    show EStateM.Result.ok b fw = .ok a fw' ↔ _
    rw [EStateM.Result.ok.injEq, Except.ok.injEq, eq_comm (a := fw)]
  | error e => exact ⟨fun h => (by cases h), fun h => (by cases h.1)⟩

theorem loadAddress_eq_ok {a : Nat} :
    loadAddress header = .ok a ↔ a = addressOf header ∧ addressOf header ≠ 0 := by
  show (if addressOf header = 0 then Except.error ElfError.zeroLoadAddress
    else Except.ok (addressOf header)) = .ok a ↔ _
  split_ifs with hzero
  · exact ⟨fun h => (by cases h), fun h => absurd hzero h.2⟩
  · rw [Except.ok.injEq, eq_comm]
    exact ⟨fun h => ⟨h, hzero⟩, fun h => h.1⟩

theorem allocatePagesAt_eq_ok {start count : Nat} :
    allocatePagesAt start count fw = .ok () fw' ↔
      (start ≠ 0 ∧ 0 < count ∧ ∀ i < count, fw.ty (start / pageSize + i) = .conventional) ∧
        fw' = fw.claim (start / pageSize) count := by
  unfold allocatePagesAt
  split_ifs with hfree
  · rw [EStateM.Result.ok.injEq, eq_comm (a := fw.claim _ _)]
    exact ⟨fun h => ⟨hfree, h.2⟩, fun h => ⟨rfl, h.2⟩⟩
  · exact ⟨fun h => (by cases h), fun h => absurd h.1 hfree⟩

theorem fileRange_eq_ok {range : Nat × Nat} {len : Nat} :
    header.fileRange len = .ok range ↔
      header.offset + header.fileSize < u64Limit ∧ header.offset + header.fileSize ≤ len ∧
        range = (header.offset, header.offset + header.fileSize) := by
  unfold ProgramHeader.fileRange checkedAdd
  by_cases hword : header.offset + header.fileSize < u64Limit
  · rw [if_pos hword]
    show (if header.offset + header.fileSize > len then _ else _) = _ ↔ _
    split_ifs with hlen
    · exact ⟨fun h => (by cases h), fun h => absurd h.2.1 (by omega)⟩
    · rw [Except.ok.injEq, eq_comm]
      exact ⟨fun h => ⟨hword, by omega, h⟩, fun h => h.2.2⟩
  · rw [if_neg hword]
    exact ⟨fun h => (by cases h), fun h => absurd h.1 hword⟩

/-- The pages that the firmware is asked for. -/
theorem asked_iff (ha : 4096 ≤ addressOf header)
    (hmemory : addressOf header + header.memorySize < u64Limit) (hsize : header.memorySize ≠ 0) :
    (alignDown (addressOf header) pageSize ≠ 0 ∧ 0 < pageCount header ∧ ∀ i < pageCount header,
        fw.ty (alignDown (addressOf header) pageSize / pageSize + i) = .conventional) ↔
      Free fw header := by
  have hpage : pageSize = 4096 := rfl
  rw [alignDown_page (by omega), hpage]
  unfold Free pagesOf pageCount
  constructor
  · rintro ⟨-, -, hfree⟩ page ⟨hle, hlt⟩
    have h := hfree (page - addressOf header / 4096) (by omega)
    rwa [show addressOf header / 4096 * 4096 / 4096 + (page - addressOf header / 4096) = page by
      omega] at h
  · intro hfree
    refine ⟨by omega, by omega, fun i hi => hfree _ ⟨by omega, by omega⟩⟩

/-- What the steps of the loop make of the firmware. -/
theorem loaded_eq (hmemory : addressOf header + header.memorySize < u64Limit) :
    (⟨((fw.claim (alignDown (addressOf header) pageSize / pageSize) (pageCount header)).phys.zero
        (alignDown (addressOf header) pageSize) (pageCount header * pageSize)).write
          (addressOf header) ((kernelBytes.drop header.offset).take
            (header.offset + header.fileSize - header.offset)),
      (fw.claim (alignDown (addressOf header) pageSize / pageSize) (pageCount header)).ty⟩ :
        Firmware) = loaded kernelBytes fw header := by
  rw [alignDown_page (by omega), show pageSize = 4096 by rfl, Nat.mul_div_cancel _ (by decide),
    Nat.add_sub_cancel_left]
  rfl

/-- **One segment**: when it can be loaded and its pages are free. -/
theorem loadSegment_eq_ok (hsize : header.memorySize ≠ 0) :
    loadSegment kernelBytes header fw = .ok () fw' ↔
      Loadable kernelBytes header ∧ Free fw header ∧ fw' = loaded kernelBytes fw header := by
  constructor
  · intro h
    obtain ⟨a, fw₁, hload, h₁⟩ := EStateM.bind_eq_ok.mp h
    obtain ⟨haddress, rfl⟩ := fromElf_eq_ok.mp hload
    obtain ⟨rfl, hne⟩ := loadAddress_eq_ok.mp haddress
    obtain ⟨range, fw₂, hfile, h₂⟩ := EStateM.bind_eq_ok.mp h₁
    obtain ⟨hrange, rfl⟩ := fromElf_eq_ok.mp hfile
    obtain ⟨hword, hlen, rfl⟩ := fileRange_eq_ok.mp hrange
    cases hunaligned : checkedAdd (addressOf header) header.memorySize with
    | none =>
      rw [hunaligned] at h₂
      cases h₂
    | some unaligned =>
      rw [hunaligned] at h₂
      obtain ⟨hmemory, rfl⟩ := checkedAdd_eq_some.mp hunaligned
      obtain ⟨_, fw₃, hpages, h₃⟩ := EStateM.bind_eq_ok.mp h₂
      obtain ⟨hasked, rfl⟩ := allocatePagesAt_eq_ok.mp hpages
      have ha : 4096 ≤ addressOf header := by
        have hstart := hasked.1
        rw [alignDown_page (by omega)] at hstart
        omega
      rw [pageCount_eq ha hmemory] at hasked h₃
      have hfree := (asked_iff ha hmemory hsize).mp hasked
      rw [EStateM.modify_bind] at h₃
      cases hcopy : checkedAdd (addressOf header) header.fileSize with
      | none =>
        rw [hcopy] at h₃
        cases h₃
      | some copyEnd =>
        rw [hcopy] at h₃
        obtain ⟨-, rfl⟩ := checkedAdd_eq_some.mp hcopy
        simp only at h₃
        split_ifs at h₃ with hlarger
        · cases h₃
        · refine ⟨⟨ha, hlen, hword, by omega, hmemory⟩, hfree, ?_⟩
          cases h₃
          exact loaded_eq hmemory
  · rintro ⟨hloadable, hfree, rfl⟩
    obtain ⟨ha, hlen, hword, hfits, hmemory⟩ := hloadable
    have hload : fromElf (loadAddress header) fw = .ok (addressOf header) fw :=
      fromElf_eq_ok.mpr ⟨loadAddress_eq_ok.mpr ⟨rfl, by omega⟩, rfl⟩
    have hfile : fromElf (header.fileRange kernelBytes.length) fw =
        .ok (header.offset, header.offset + header.fileSize) fw :=
      fromElf_eq_ok.mpr ⟨fileRange_eq_ok.mpr ⟨hword, hlen, rfl⟩, rfl⟩
    have hunaligned : checkedAdd (addressOf header) header.memorySize =
        some (addressOf header + header.memorySize) := checkedAdd_eq_some.mpr ⟨hmemory, rfl⟩
    have hcopy : checkedAdd (addressOf header) header.fileSize =
        some (addressOf header + header.fileSize) := checkedAdd_eq_some.mpr ⟨by omega, rfl⟩
    have hpages := allocatePagesAt_eq_ok.mpr
      ⟨(asked_iff ha hmemory hsize).mpr hfree, rfl⟩
    unfold loadSegment
    rw [EStateM.bind_of_ok hload, EStateM.bind_of_ok hfile]
    simp only [hunaligned, hcopy, pageCount_eq ha hmemory]
    rw [show (addressOf header + header.memorySize + 4095) / 4096 - addressOf header / 4096 =
      pageCount header by rfl, EStateM.bind_of_ok hpages, EStateM.modify_bind,
      if_neg (by omega)]
    exact congrArg (EStateM.Result.ok ()) (loaded_eq hmemory)

/-! ## What a segment leaves -/

theorem mem_pagesOf {x : Nat} :
    x / 4096 ∈ pagesOf header ↔ addressOf header / 4096 * 4096 ≤ x ∧
      x < addressOf header / 4096 * 4096 + pageCount header * 4096 := by
  unfold pagesOf pageCount
  rw [Set.mem_Ico]
  omega

theorem byte_loaded (h : Loadable kernelBytes header) {x : Nat} (hx : x / 4096 ∈ pagesOf header) :
    (loaded kernelBytes fw header).phys.byte x = segmentByte kernelBytes header x := by
  have hlen : ((kernelBytes.drop header.offset).take header.fileSize).length = header.fileSize := by
    have hfile := h.file
    rw [List.length_take, List.length_drop]
    omega
  unfold segmentByte
  split_ifs with hcopied
  · obtain ⟨i, rfl⟩ := Nat.exists_eq_add_of_le hcopied.1
    have hi : i < header.fileSize := by omega
    show (ByteMemory.write _ _ _).byte _ = _
    rw [ByteMemory.byte_write_of_lt (by rw [hlen]; exact hi), Nat.add_sub_cancel_left,
      List.getD_eq_getElem?_getD, List.getElem?_take_of_lt hi, List.getElem?_drop,
      List.getD_eq_getElem?_getD]
  · show (ByteMemory.write _ _ _).byte _ = _
    rw [ByteMemory.byte_write_of_apart (by rw [hlen]; omega)]
    show (if _ then (0 : UInt8) else _) = 0
    exact if_pos (mem_pagesOf.mp hx)

theorem byte_loaded_of_notMem (h : Loadable kernelBytes header) {x : Nat}
    (hx : x / 4096 ∉ pagesOf header) :
    (loaded kernelBytes fw header).phys.byte x = fw.phys.byte x := by
  have hlen : ((kernelBytes.drop header.offset).take header.fileSize).length = header.fileSize := by
    have hfile := h.file
    rw [List.length_take, List.length_drop]
    omega
  have hfits := h.fits
  show (ByteMemory.write _ _ _).byte _ = _
  rw [ByteMemory.byte_write_of_apart]
  · show (if _ then (0 : UInt8) else _) = _
    exact if_neg fun hin => hx (mem_pagesOf.mpr hin)
  · rw [hlen]
    unfold pagesOf at hx
    rw [Set.mem_Ico] at hx
    omega

theorem ty_loaded (kernelBytes : List UInt8) (fw : Firmware) (header : ProgramHeader)
    (page : Nat) :
    (page ∈ pagesOf header → (loaded kernelBytes fw header).ty page = .loaderData) ∧
      (page ∉ pagesOf header → (loaded kernelBytes fw header).ty page = fw.ty page) := by
  have hiff : page ∈ pagesOf header ↔ addressOf header / 4096 ≤ page ∧
      page < addressOf header / 4096 + pageCount header := by
    unfold pagesOf pageCount
    rw [Set.mem_Ico]
    omega
  rw [hiff]
  exact ⟨fun hin => if_pos hin, fun hout => if_neg hout⟩

end Segments

/-! ## The whole kernel -/

section Kernel

variable {kernelBytes : List UInt8} {fw fw' : Firmware}

/-- The headers that are loaded. -/
def segmentsOf (headers : List ProgramHeader) : List ProgramHeader :=
  headers.filter fun header => header.kind = ptLoad ∧ header.memorySize ≠ 0

/-- Segments that can be loaded, one after the other. -/
def AllLoadable (kernelBytes : List UInt8) (fw : Firmware) (segments : List ProgramHeader) : Prop :=
  (∀ header ∈ segments, Loadable kernelBytes header ∧ Free fw header) ∧
    segments.Pairwise fun first second => Disjoint (pagesOf first) (pagesOf second)

/-- What is free once a segment is loaded is what was free, apart from its pages. -/
theorem free_loaded {header other : ProgramHeader} :
    Free (loaded kernelBytes fw header) other ↔
      Free fw other ∧ Disjoint (pagesOf header) (pagesOf other) := by
  constructor
  · intro h
    have hapart : Disjoint (pagesOf header) (pagesOf other) := by
      refine Set.disjoint_left.mpr fun page hpage hother => ?_
      have htaken := (ty_loaded kernelBytes fw header page).1 hpage
      rw [h page hother] at htaken
      cases htaken
    refine ⟨fun page hpage => ?_, hapart⟩
    rw [← (ty_loaded kernelBytes fw header page).2 (Set.disjoint_right.mp hapart hpage)]
    exact h page hpage
  · rintro ⟨h, hapart⟩ page hpage
    rw [(ty_loaded kernelBytes fw header page).2 (Set.disjoint_right.mp hapart hpage)]
    exact h page hpage

theorem allLoadable_cons {header : ProgramHeader} {rest : List ProgramHeader} :
    AllLoadable kernelBytes fw (header :: rest) ↔
      (Loadable kernelBytes header ∧ Free fw header) ∧
        AllLoadable kernelBytes (loaded kernelBytes fw header) rest := by
  unfold AllLoadable
  rw [List.forall_mem_cons, List.pairwise_cons]
  constructor
  · rintro ⟨⟨hheader, hrest⟩, hapart, hpairwise⟩
    refine ⟨hheader, fun other hother => ?_, hpairwise⟩
    obtain ⟨hloadable, hfree⟩ := hrest other hother
    exact ⟨hloadable, free_loaded.mpr ⟨hfree, hapart other hother⟩⟩
  · rintro ⟨hheader, hrest, hpairwise⟩
    refine ⟨⟨hheader, fun other hother => ?_⟩, fun other hother => ?_, hpairwise⟩
    · exact ⟨(hrest other hother).1, (free_loaded.mp (hrest other hother).2).1⟩
    · exact (free_loaded.mp (hrest other hother).2).2

theorem loadHeaders_eq_ok {items : List (Except ElfError ProgramHeader)} :
    loadHeaders kernelBytes items fw = .ok () fw' ↔
      ∃ headers, items = headers.map .ok ∧ AllLoadable kernelBytes fw (segmentsOf headers) ∧
        fw' = (segmentsOf headers).foldl (loaded kernelBytes) fw := by
  induction items generalizing fw with
  | nil =>
    constructor
    · intro h
      cases h
      exact ⟨[], rfl, ⟨by simp [segmentsOf], List.Pairwise.nil⟩, rfl⟩
    · rintro ⟨headers, hitems, -, rfl⟩
      obtain rfl := List.map_eq_nil_iff.mp hitems.symm
      rfl
  | cons item rest ih =>
    cases item with
    | error e =>
      refine ⟨fun h => (by cases h), ?_⟩
      rintro ⟨headers, hitems, -⟩
      cases headers with
      | nil => cases hitems
      | cons header headers => cases (List.cons.inj hitems).1
    | ok header =>
      have hstep : loadHeaders kernelBytes (.ok header :: rest) fw =
          (if header.kind ≠ ptLoad ∨ header.memorySize = 0 then loadHeaders kernelBytes rest
          else do
            loadSegment kernelBytes header
            loadHeaders kernelBytes rest) fw := rfl
      have hheaders : ∀ {P : List ProgramHeader → Prop},
          (∃ headers, Except.ok header :: rest = headers.map .ok ∧ P headers) ↔
            ∃ headers, rest = headers.map .ok ∧ P (header :: headers) := by
        intro P
        constructor
        · rintro ⟨headers, hitems, hP⟩
          cases headers with
          | nil => cases hitems
          | cons first headers =>
            obtain ⟨hfirst, hrest⟩ := List.cons.inj hitems
            obtain rfl := Except.ok.inj hfirst
            exact ⟨headers, hrest, hP⟩
        · rintro ⟨headers, rfl, hP⟩
          exact ⟨header :: headers, rfl, hP⟩
      rw [hstep, hheaders]
      split_ifs with hskip
      · rw [ih]
        have hfilter : ∀ headers, segmentsOf (header :: headers) = segmentsOf headers := by
          intro headers
          refine List.filter_cons_of_neg ?_
          rw [decide_eq_true_eq]
          tauto
        simp only [hfilter]
      · have hfilter : ∀ headers, segmentsOf (header :: headers) = header :: segmentsOf headers := by
          intro headers
          refine List.filter_cons_of_pos ?_
          rw [decide_eq_true_eq]
          tauto
        simp only [hfilter, allLoadable_cons, List.foldl_cons]
        have hsize : header.memorySize ≠ 0 := fun hzero => hskip (.inr hzero)
        constructor
        · intro h
          obtain ⟨_, fw₁, hload, hrest⟩ := EStateM.bind_eq_ok.mp h
          obtain ⟨hloadable, hfree, rfl⟩ := (loadSegment_eq_ok hsize).mp hload
          obtain ⟨headers, hitems, hall, hfw⟩ := ih.mp hrest
          exact ⟨headers, hitems, ⟨⟨hloadable, hfree⟩, hall⟩, hfw⟩
        · rintro ⟨headers, hitems, ⟨⟨hloadable, hfree⟩, hall⟩, hfw⟩
          rw [EStateM.bind_of_ok ((loadSegment_eq_ok hsize).mpr ⟨hloadable, hfree, rfl⟩)]
          exact ih.mpr ⟨headers, hitems, hall, hfw⟩

/-- Where a page is after the load. -/
theorem foldl_loaded {segments : List ProgramHeader} (h : AllLoadable kernelBytes fw segments) :
    (∀ header ∈ segments, ∀ x, x / 4096 ∈ pagesOf header →
        (segments.foldl (loaded kernelBytes) fw).phys.byte x = segmentByte kernelBytes header x) ∧
      (∀ x, (∀ header ∈ segments, x / 4096 ∉ pagesOf header) →
        (segments.foldl (loaded kernelBytes) fw).phys.byte x = fw.phys.byte x) ∧
      ∀ page,
        (∀ header ∈ segments, page ∈ pagesOf header →
          (segments.foldl (loaded kernelBytes) fw).ty page = .loaderData) ∧
        ((∀ header ∈ segments, page ∉ pagesOf header) →
          (segments.foldl (loaded kernelBytes) fw).ty page = fw.ty page) := by
  induction segments generalizing fw with
  | nil => simp
  | cons header rest ih =>
    obtain ⟨⟨hloadable, hfree⟩, hrest⟩ := allLoadable_cons.mp h
    obtain ⟨hin, hout, hty⟩ := ih hrest
    have hapart := (List.pairwise_cons.mp h.2).1
    have hnot : ∀ {page}, page ∈ pagesOf header → ∀ other ∈ rest, page ∉ pagesOf other :=
      fun hpage other hother => Set.disjoint_left.mp (hapart other hother) hpage
    refine ⟨fun other hother x hx => ?_, fun x hx => ?_, fun page => ⟨fun other hother hpage => ?_,
      fun hpage => ?_⟩⟩
    · rcases List.mem_cons.mp hother with rfl | hother
      · rw [List.foldl_cons, hout x (hnot hx)]
        exact byte_loaded hloadable hx
      · exact hin other hother x hx
    · rw [List.forall_mem_cons] at hx
      rw [List.foldl_cons, hout x hx.2]
      exact byte_loaded_of_notMem hloadable hx.1
    · rcases List.mem_cons.mp hother with rfl | hother
      · rw [List.foldl_cons, (hty page).2 (hnot hpage)]
        exact (ty_loaded kernelBytes fw other page).1 hpage
      · exact (hty page).1 other hother hpage
    · rw [List.forall_mem_cons] at hpage
      rw [List.foldl_cons, (hty page).2 hpage.2]
      exact (ty_loaded kernelBytes fw header page).2 hpage.1

end Kernel

end Lazers.Boot
