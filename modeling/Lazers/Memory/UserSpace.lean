import Lazers.Memory.LoadRefinement

/-!
# The address space of a loaded program

What the page walk finds in the address space of a program that was loaded
(`LoadedSpace`). User mode reaches exactly the pages of the `PT_LOAD` segments
and of the stack, each in a frame of its own; the window, the framebuffer and
the recorded kernel ranges are there for the kernel only, except where a page
of the program took their place (`loadUserProgram_isolates`).

`memory/user.rs` checks the pointer arguments of system calls against these
bounds alone. Which of the ranges it accepts are mapped depends on the segments
(`validateUserBuffer_mapped_iff`).
-/

namespace Lazers.Memory

open PageTable AddressMap Elf

/-! ## Pages of a program -/

/-- A `PT_LOAD` segment covers page `n`. -/
def SegmentCovers (header : ProgramHeader) (n : Nat) : Prop :=
  header.kind = ptLoad ∧ header.virtualAddress / 4096 ≤ n ∧
    n < (header.virtualAddress + header.memorySize + 4095) / 4096

instance (header : ProgramHeader) (n : Nat) : Decidable (SegmentCovers header n) :=
  inferInstanceAs (Decidable (_ ∧ _ ∧ _))

/-- The first segment in table order that covers page `n`. -/
def coveringHeader (headers : List (Except ElfError ProgramHeader)) (n : Nat) :
    Option ProgramHeader :=
  headers.findSome? fun
    | .ok header => if SegmentCovers header n then some header else none
    | .error _ => none

/-- A page of the stack. -/
def StackPage (n : Nat) : Prop := userStackBase / 4096 ≤ n ∧ n < userStackTop / 4096

instance (n : Nat) : Decidable (StackPage n) := inferInstanceAs (Decidable (_ ∧ _))

/-- A page the program itself uses. -/
def ImagePage (headers : List (Except ElfError ProgramHeader)) (n : Nat) : Prop :=
  (coveringHeader headers n).isSome = true ∨ StackPage n

/-- A page the program may write to. Where segments share a page, the first one
decides. -/
def WritablePage (headers : List (Except ElfError ProgramHeader)) (n : Nat) : Prop :=
  (∃ header, coveringHeader headers n = some header ∧ header.flags &&& pfW ≠ 0) ∨ StackPage n

/-! ## Requests by page -/

/-- A run of requests with the same flags. -/
theorem lookupRequest_range' (start count flags n : Nat) :
    lookupRequest ((List.range' start count).map fun page => { page, flags }) n =
      if start ≤ n ∧ n < start + count then some { page := n, flags } else none := by
  induction count generalizing start with
  | zero => exact (if_neg (by omega)).symm
  | succ count ih =>
    have hih := ih (start + 1)
    rw [lookupRequest] at hih ⊢
    rw [List.range'_succ, List.map_cons, List.find?_cons]
    by_cases hn : start = n
    · subst hn
      simp
    · simp only [hn, decide_false]
      rw [hih]
      by_cases hin : start + 1 ≤ n ∧ n < start + 1 + count
      · rw [if_pos hin, if_pos (by omega)]
      · rw [if_neg hin, if_neg (by omega)]

theorem lookupRequest_append_list (l l' : List PageRequest) (n : Nat) :
    lookupRequest (l ++ l') n = (lookupRequest l n).or (lookupRequest l' n) := by
  simp [lookupRequest, List.find?_append]

theorem coveringHeader_cons (header : ProgramHeader) (rest : List (Except ElfError ProgramHeader))
    (n : Nat) : coveringHeader (.ok header :: rest) n =
      if SegmentCovers header n then some header else coveringHeader rest n := by
  rw [coveringHeader, List.findSome?_cons]
  by_cases h : SegmentCovers header n
  · simp [h]
  · simp only [h, if_false]
    rfl

/-- The flags a complete plan gives to a page are those of the first segment that
covers it. -/
theorem lookupRequest_segmentPlan {fileLen : Nat}
    {headers : List (Except ElfError ProgramHeader)}
    (h : (segmentPlan fileLen headers).2 = none) (n : Nat) :
    (lookupRequest (segmentPlan fileLen headers).1 n).map PageRequest.flags =
      (coveringHeader headers n).map segmentFlags := by
  induction headers with
  | nil => rfl
  | cons header rest ih =>
    cases header with
    | error e => simp [segmentPlan] at h
    | ok header =>
      rw [segmentPlan] at h ⊢
      rw [coveringHeader_cons]
      by_cases hkind : header.kind = ptLoad
      · rw [if_neg (not_not_intro hkind)] at h ⊢
        by_cases hrange : SegmentInRange header
        · rw [if_pos hrange] at h ⊢
          cases hfile : header.fileRange fileLen with
          | error e => simp [hfile] at h
          | ok range =>
            simp only [hfile] at h ⊢
            rw [lookupRequest_append_list, segmentRequests, lookupRequest_range']
            have hcovers : SegmentCovers header n ↔ header.virtualAddress / 4096 ≤ n ∧
                n < header.virtualAddress / 4096 +
                  ((header.virtualAddress + header.memorySize + 4095) / 4096 -
                    header.virtualAddress / 4096) := by
              unfold SegmentCovers
              constructor
              · rintro ⟨-, h₁, h₂⟩
                omega
              · rintro ⟨h₁, h₂⟩
                exact ⟨hkind, h₁, by omega⟩
            by_cases hin : SegmentCovers header n
            · rw [if_pos (hcovers.mp hin), if_pos hin]
              rfl
            · rw [if_neg fun h => hin (hcovers.mpr h), if_neg hin]
              exact ih h
        · rw [if_neg hrange] at h
          cases h
      · have hnot : ¬ SegmentCovers header n := fun hcov => hkind hcov.1
        rw [if_pos hkind] at h ⊢
        rw [if_neg hnot]
        exact ih h

/-- All requests of a complete plan and the stack, page by page. -/
theorem lookupRequest_image {fileLen : Nat} {headers : List (Except ElfError ProgramHeader)}
    (h : (segmentPlan fileLen headers).2 = none) (n : Nat) :
    (lookupRequest ((segmentPlan fileLen headers).1 ++ stackRequests) n).map PageRequest.flags =
      ((coveringHeader headers n).map segmentFlags).or
        (if StackPage n then some (pagePresent ||| pageWritable ||| pageUser) else none) := by
  have hstack : (lookupRequest stackRequests n).map PageRequest.flags =
      if StackPage n then some (pagePresent ||| pageWritable ||| pageUser) else none := by
    have hend : userStackBase / 4096 + userStackPages = userStackTop / 4096 := by decide
    rw [stackRequests, lookupRequest_range', hend]
    by_cases hn : StackPage n
    · rw [if_pos hn, if_pos (show _ ∧ _ from hn)]
      rfl
    · rw [if_neg hn, if_neg (show ¬ (_ ∧ _) from hn)]
      rfl
  rw [lookupRequest_append_list, Option.map_or, lookupRequest_segmentPlan h, hstack]

/-! ## The context page by page -/

/-- Page `n` is entered for the kernel, at its own address. -/
def KernelPage (page : Nat → Option Nat) (n : Nat) : Prop :=
  ∃ writable, page n = some (n * pageSize ||| kernelFlags writable)

/-- A page of the framebuffer or of a recorded range. -/
def MemoryState.ContextPage (s : MemoryState) (n : Nat) : Prop :=
  ∃ r ∈ s.contextRanges, RangePage r.start r.stop n

theorem mapRanges_pages {ranges : List ContextRange}
    (hflags : ∀ r ∈ ranges, ∃ writable, r.flags = kernelFlags writable) {A A' : AddressMap}
    (h : mapRanges ranges A = .ok () A') :
    A'.slot = A.slot ∧ ∀ n,
      ((∃ r ∈ ranges, RangePage r.start r.stop n) → KernelPage A'.page n) ∧
      ((¬ ∃ r ∈ ranges, RangePage r.start r.stop n) → A'.page n = A.page n) := by
  induction ranges generalizing A with
  | nil =>
    cases h
    exact ⟨rfl, fun n => ⟨by simp, fun _ => rfl⟩⟩
  | cons r rest ih =>
    obtain ⟨_, A₁, hmap, h⟩ := EStateM.bind_eq_ok.mp h
    obtain ⟨hpage₁, hslot₁⟩ := (mapPages_maps _ _ _).ok ⟨rfl, rfl⟩ hmap
    obtain ⟨hslot, hpages⟩ := ih (fun r' h' => hflags r' (List.mem_cons_of_mem _ h')) h
    refine ⟨hslot.trans hslot₁, fun n => ?_⟩
    obtain ⟨hin, hout⟩ := hpages n
    by_cases hrest : ∃ r ∈ rest, RangePage r.start r.stop n
    · refine ⟨fun _ => hin hrest, fun hno => absurd ?_ hno⟩
      obtain ⟨r', hr', hn⟩ := hrest
      exact ⟨r', List.mem_cons_of_mem _ hr', hn⟩
    · by_cases hhead : RangePage r.start r.stop n
      · refine ⟨fun _ => ?_, fun hno => absurd ⟨r, List.mem_cons_self, hhead⟩ hno⟩
        obtain ⟨writable, hw⟩ := hflags r List.mem_cons_self
        obtain ⟨hlo, hhi⟩ := hhead
        refine ⟨writable, ?_⟩
        rw [hout hrest, hpage₁, paintPages, if_pos (by omega), hw]
      · refine ⟨fun hex => ?_, fun _ => ?_⟩
        · obtain ⟨r', hr', hn⟩ := hex
          rcases List.mem_cons.mp hr' with rfl | hr'
          · exact absurd hn hhead
          · exact absurd ⟨r', hr', hn⟩ hrest
        · rw [hout hrest, hpage₁, paintPages, if_neg]
          rintro ⟨hlo, hhi⟩
          exact hhead ⟨hlo, by omega⟩

theorem mapRanges_grows (s₀ : AddressMap) (ranges : List ContextRange) :
    Triple (Grows s₀) (mapRanges ranges) (fun _ => Grows s₀) (fun _ => Grows s₀) := by
  induction ranges with
  | nil => exact Triple.pure fun _ h => h
  | cons r rest ih => exact Triple.bind (mapPages_grows s₀ _ _ _) fun _ => ih

/-- The context in an address space without tables. -/
theorem mapContext_pages {s : MemoryState} {frames : List Nat} {owned : Option (List Nat)}
    {A : AddressMap}
    (h : mapContext s.physWindowEnd s.contextRanges (.blank frames owned) = .ok () A) :
    A.slot = windowSlots s.physWindowEnd ∧ A.frames <:+ frames ∧
      ∀ n, (s.ContextPage n → KernelPage A.page n) ∧ (¬ s.ContextPage n → A.page n = none) := by
  have hgrows : (AddressMap.blank frames owned).Grows A :=
    (Triple.bind (mapSlots_grows _ _ _ _) fun _ => mapRanges_grows _ _).ok (.refl _) h
  obtain ⟨_, A₁, hslots, h⟩ := EStateM.bind_eq_ok.mp h
  obtain ⟨hpage₁, hslot₁⟩ := (mapSlots_maps _ _ _).ok ⟨rfl, rfl⟩ hslots
  obtain ⟨hslot, hpages⟩ :=
    mapRanges_pages (fun r => MemoryState.flags_of_mem_contextRanges) h
  refine ⟨hslot.trans hslot₁, hgrows.frames, fun n => ⟨(hpages n).1, fun hno => ?_⟩⟩
  rw [(hpages n).2 hno, hpage₁]
  rfl

/-! ## A loaded program -/

/-- **What a successful load leaves behind.** `placed` are the program's pages and
`tab` the page tables; the pages were placed on top of the context `A₁`. -/
structure LoadedSpace (s : MemoryState) (p : LoadedUserProgram) (s' : MemoryState)
    (fileLen : Nat) (headers : List (Except ElfError ProgramHeader)) (placed : List PlacedPage)
    (A₁ A : AddressMap) (tab : Shape) : Prop where
  rep : Rep ⟨s.phys, ∅, s.free⟩ p.addressSpace.rootPaddr (frameSet (placed.map PlacedPage.frame))
    { state := s', ownedPages := some p.ownedPages } A tab
  taken : frameSet (placed.map PlacedPage.frame) ⊆ s.free
  complete : (segmentPlan fileLen headers).2 = none
  placement : Placement A₁ ((segmentPlan fileLen headers).1 ++ stackRequests) placed A
  slot : A₁.slot = windowSlots s.physWindowEnd
  context : ∀ n, (s.ContextPage n → KernelPage A₁.page n) ∧ (¬ s.ContextPage n → A₁.page n = none)
  nodup : (placed.map PlacedPage.frame).Nodup
  frames : ∀ q ∈ placed, q.frame % 4096 = 0 ∧ q.frame < 2 ^ 52

/-- The abstract load taken apart. -/
theorem loadImage_placement {s : MemoryState} {frames : List Nat} {owned : Option (List Nat)}
    {fileLen : Nat} {headers : List (Except ElfError ProgramHeader)} {placed : List PlacedPage}
    {A : AddressMap} (hnodup : frames.Nodup)
    (h : loadImage s fileLen headers (.blank frames owned) = .ok placed A) :
    ∃ A₁, (segmentPlan fileLen headers).2 = none ∧
      Placement A₁ ((segmentPlan fileLen headers).1 ++ stackRequests) placed A ∧
      A₁.slot = windowSlots s.physWindowEnd ∧
      (∀ n, (s.ContextPage n → KernelPage A₁.page n) ∧
        (¬ s.ContextPage n → A₁.page n = none)) ∧
      (placed.map PlacedPage.frame).Nodup ∧ ∀ q ∈ placed, q.frame ∈ frames := by
  obtain ⟨_, A₁, hcontext, h⟩ := EStateM.bind_eq_ok.mp h
  obtain ⟨hslot, hsuffix, hpages⟩ := mapContext_pages hcontext
  obtain ⟨placed₁, A₂, hsegments, hstack⟩ := EStateM.bind_eq_ok.mp h
  obtain ⟨placed₂, A₃, hall, hverdict⟩ := EStateM.bind_eq_ok.mp hsegments
  cases herr : (segmentPlan fileLen headers).2 with
  | some e =>
    rw [herr] at hverdict
    cases hverdict
  | none =>
    rw [herr] at hverdict
    cases hverdict
    have P := ((Placement.nil A₁).placeAll hall).placeAll hstack
    rw [List.nil_append] at P
    have hnd := P.nodup (hnodup.sublist hsuffix.sublist)
    exact ⟨A₁, rfl, P, hslot, hpages, (List.nodup_append.mp hnd).1,
      fun q hq => hsuffix.subset (P.frames q hq)⟩

/-- **A successful load builds such a space**: it takes a root, builds the image
behind a page map, and writes the startup block through that map. -/
theorem loadUserProgram_built {s s' : MemoryState} (hs : ContextOk s) {bytes : List UInt8}
    {startup : ProgramStartup} {p : LoadedUserProgram} {elf : ElfImage}
    (helf : ElfImage.parse bytes = .ok elf)
    (h : loadUserProgram bytes startup s = some (.ok p, s')) :
    ∃ placed A₁ A tab, LoadedSpace s p s' bytes.length elf.programHeaders placed A₁ A tab ∧
      ∃ pages a owned b₁ b₂, UserPageMap.Lists pages placed ∧
        s.allocator.allocatePage = some (p.addressSpace.rootPaddr, a) ∧
        owned.list = [p.addressSpace.rootPaddr] ∧
        buildImage p.addressSpace.rootPaddr elf bytes
          (rootTaken s p.addressSpace.rootPaddr a owned) = .ok pages b₁ ∧
        writeStartupArguments pages startup b₁ = .ok p.userStackTop b₂ ∧ b₂.state = s' := by
  unfold loadUserProgram at h
  rw [helf] at h
  simp only at h
  split_ifs at h
  · cases h
  · cases hrun : buildUserSpace elf bytes startup
        { state := s, ownedPages := some OwnedPages.empty } with
    | error e b =>
      rw [hrun] at h
      obtain ⟨s₁, -, h⟩ := Option.map_eq_some_iff.mp h
      cases h
    | ok r b =>
      rw [hrun] at h
      cases h
      cases halloc : s.allocator.allocatePage with
      | none =>
        rw [buildUserSpace_exhausted halloc] at hrun
        cases hrun
      | some r =>
        obtain ⟨root, a⟩ := r
        obtain ⟨owned, howned, heq⟩ := buildUserSpace_eq halloc elf bytes startup
        have hdraws := ((buildUserSpace_takes elf bytes startup).draws _).ok (.refl hs.valid) hrun
        rw [heq] at hrun
        obtain ⟨pages, b₁, himage, hrun⟩ := EStateM.bind_eq_ok.mp hrun
        obtain ⟨top, b₂, hargs, hrun⟩ := EStateM.bind_eq_ok.mp hrun
        cases hrun
        obtain ⟨placed, A, hA, L⟩ :=
          (buildImage_lockstep hs halloc howned elf bytes).of_ok_left himage
        have L' := (writeStartupArguments_keeps startup).ok L hargs
        obtain ⟨tab, R⟩ := L'.related
        have hnodup : a.frames.Nodup := PhysicalAllocator.frames_nodup
          (PhysicalAllocator.allocatePage_spec hs.valid halloc).1
        obtain ⟨A₁, hcomplete, P, hslot, hpages, hframes, hmem⟩ := loadImage_placement hnodup hA
        obtain ⟨o, ho⟩ : ∃ o, b.ownedPages = some o := by
          obtain ⟨recorded, lost, hdrawn⟩ := hdraws
          have hsome := hdrawn.owned
          rw [Option.map_some] at hsome
          obtain ⟨o, ho, -⟩ := Option.map_eq_some_iff.mp hsome
          exact ⟨o, ho⟩
        refine ⟨placed, A₁, A, tab, ⟨?_, L'.taken, hcomplete, P, hslot, hpages, hframes,
          fun q hq => ?_⟩, pages, a, owned, b₁, b, L.lists, rfl, howned, himage, hargs, rfl⟩
        · refine R.congr_state _ rfl rfl ?_
          simp [ho]
        · have hfree : q.frame ∈ s.allocator.frames := by
            rw [PhysicalAllocator.frames_allocatePage hs.valid halloc]
            exact List.mem_cons_of_mem _ (hmem q hq)
          exact ⟨(PhysicalAllocator.frame_bounds hs.valid hfree).1, hs.low _ hfree⟩

/-- The space and the last step of a load. -/
theorem loadUserProgram_stages {s s' : MemoryState} (hs : ContextOk s) {bytes : List UInt8}
    {startup : ProgramStartup} {p : LoadedUserProgram} {elf : ElfImage}
    (helf : ElfImage.parse bytes = .ok elf)
    (h : loadUserProgram bytes startup s = some (.ok p, s')) :
    ∃ placed A₁ A tab, LoadedSpace s p s' bytes.length elf.programHeaders placed A₁ A tab ∧
      ∃ pages b₁ b₂, UserPageMap.Lists pages placed ∧
        writeStartupArguments pages startup b₁ = .ok p.userStackTop b₂ ∧ b₂.state = s' := by
  obtain ⟨placed, A₁, A, tab, L, pages, a, owned, b₁, b₂, hlists, -, -, -, hargs, hstate⟩ :=
    loadUserProgram_built hs helf h
  exact ⟨placed, A₁, A, tab, L, pages, b₁, b₂, hlists, hargs, hstate⟩

theorem loadUserProgram_loaded {s s' : MemoryState} (hs : ContextOk s) {bytes : List UInt8}
    {startup : ProgramStartup} {p : LoadedUserProgram} {elf : ElfImage}
    (helf : ElfImage.parse bytes = .ok elf)
    (h : loadUserProgram bytes startup s = some (.ok p, s')) :
    ∃ placed A₁ A tab, LoadedSpace s p s' bytes.length elf.programHeaders placed A₁ A tab := by
  obtain ⟨placed, A₁, A, tab, L, -⟩ := loadUserProgram_stages hs helf h
  exact ⟨placed, A₁, A, tab, L⟩

/-! ## Walking it -/

namespace LoadedSpace

variable {s s' : MemoryState} {p : LoadedUserProgram} {fileLen : Nat}
  {headers : List (Except ElfError ProgramHeader)} {placed : List PlacedPage}
  {A₁ A : AddressMap} {tab : Shape}

/-- The flags of the page placed at `n`, if there is one. -/
theorem flags_eq (L : LoadedSpace s p s' fileLen headers placed A₁ A tab) (n : Nat) :
    (lookupPlaced placed n).map PlacedPage.flags =
      ((coveringHeader headers n).map segmentFlags).or
        (if StackPage n then some (pagePresent ||| pageWritable ||| pageUser) else none) := by
  rw [L.placement.flags, lookupRequest_image L.complete]

/-- The placed pages are the pages of the image. -/
theorem lookup_isSome (L : LoadedSpace s p s' fileLen headers placed A₁ A tab) (n : Nat) :
    (lookupPlaced placed n).isSome = true ↔ ImagePage headers n := by
  rw [← Option.isSome_map (f := PlacedPage.flags), L.flags_eq, Option.isSome_or,
    Bool.or_eq_true, Option.isSome_map, ImagePage]
  by_cases hstack : StackPage n <;> simp [hstack]

theorem lt_of_covered (L : LoadedSpace s p s' fileLen headers placed A₁ A tab) {n : Nat}
    {header : ProgramHeader} (h : coveringHeader headers n = some header) :
    userImageBase / 4096 ≤ n ∧ n < userStackBase / 4096 := by
  have hlookup := lookupRequest_segmentPlan L.complete n
  rw [h, Option.map_some, Option.map_eq_some_iff] at hlookup
  obtain ⟨r, hr, -⟩ := hlookup
  have hpage : r.page = n := by simpa using List.find?_some hr
  rw [← hpage]
  exact page_of_mem_segmentPlan (List.mem_of_find?_eq_some hr)

/-- The pages of the image lie in the user part of the address space. -/
theorem page_bounds (L : LoadedSpace s p s' fileLen headers placed A₁ A tab) {n : Nat}
    (h : ImagePage headers n) : userImageBase / 4096 ≤ n ∧ n < userStackTop / 4096 := by
  rcases h with h | ⟨hlo, hhi⟩
  · obtain ⟨header, hheader⟩ := Option.isSome_iff_exists.mp h
    obtain ⟨hlo, hhi⟩ := L.lt_of_covered hheader
    exact ⟨hlo, lt_of_lt_of_le hhi (by decide)⟩
  · exact ⟨le_trans (by decide) hlo, hhi⟩

theorem segmentFlags_bits (header : ProgramHeader) :
    (segmentFlags header).testBit 2 = true ∧
      ((segmentFlags header).testBit 1 = true ↔ header.flags &&& pfW ≠ 0) := by
  unfold segmentFlags
  split_ifs with h
  · exact ⟨by decide, fun _ => h, fun _ => by decide⟩
  · exact ⟨by decide, fun hbit => absurd hbit (by decide), fun hne => absurd hne h⟩

/-- Every placed page belongs to user mode, and is writable where it should be. -/
theorem flags_bits (L : LoadedSpace s p s' fileLen headers placed A₁ A tab) {n : Nat}
    {q : PlacedPage} (hq : lookupPlaced placed n = some q) :
    q.flags < 4096 ∧ q.flags.testBit 2 = true ∧
      (q.flags.testBit 1 = true ↔ WritablePage headers n) := by
  have hflags := L.flags_eq n
  rw [hq, Option.map_some] at hflags
  cases hcover : coveringHeader headers n with
  | some header =>
    rw [hcover, Option.map_some, Option.some_or, Option.some.injEq] at hflags
    obtain ⟨huser, hwrite⟩ := segmentFlags_bits header
    have hstack : ¬ StackPage n := fun h => absurd h.1 (by
      have := (L.lt_of_covered hcover).2
      omega)
    rw [hflags]
    refine ⟨(segmentFlags_bounds header).2, huser, hwrite.trans ?_⟩
    simp [WritablePage, hcover, hstack]
  | none =>
    rw [hcover, Option.map_none, Option.none_or] at hflags
    split_ifs at hflags with hstack
    rw [Option.some.inj hflags]
    exact ⟨by decide, by decide, fun _ => .inr hstack, fun _ => by decide⟩

theorem placed_of_lookup {n : Nat} {q : PlacedPage} (hq : lookupPlaced placed n = some q) :
    q ∈ placed ∧ q.page = n := by
  refine ⟨List.mem_of_find?_eq_some hq, ?_⟩
  simpa using List.find?_some hq

theorem slot_eq (L : LoadedSpace s p s' fileLen headers placed A₁ A tab) (k : Nat) :
    leaf2m s'.phys tab k = windowSlots s.physWindowEnd k := by
  rw [← L.slot, ← L.placement.slot]
  exact L.rep.slot k

/-- **A page of the image** is open to user mode and lies in its own frame. -/
theorem walk_image (L : LoadedSpace s p s' fileLen headers placed A₁ A tab) {v : Nat}
    {q : PlacedPage} (hq : lookupPlaced placed (v / 4096) = some q) :
    ∃ t, walk s'.phys p.addressSpace.rootPaddr v = some t ∧ t.phys = q.frame + v % 4096 ∧
      t.user = true ∧ (t.writable = true ↔ WritablePage headers (v / 4096)) := by
  have himage : ImagePage headers (v / 4096) := (L.lookup_isSome _).mp (by simp [hq])
  have hbounds := L.page_bounds himage
  simp only [userImageBase, userStackTop] at hbounds
  obtain ⟨hmem, hpage⟩ := placed_of_lookup hq
  obtain ⟨hlt, huser, hwrite⟩ := L.flags_bits hq
  obtain ⟨hal, hlow⟩ := L.frames q hmem
  have hnum₁ : num 1 v = v / 4096 := rfl
  have hnone : leaf2m s'.phys tab (num 2 v) = none := by
    rw [L.slot_eq, windowSlots_eq_none (.inl ?_)]
    rw [num_succ, hnum₁, physWindowStart]
    omega
  have hleaf : leaf4k s'.phys tab (num 1 v) = some (q.frame ||| q.flags) := by
    rw [show leaf4k s'.phys tab (num 1 v) = A.page (num 1 v) from L.rep.page _, L.placement.page,
      hnum₁, hq]
  -- all three links on the way are open
  have hlinks : ∀ key ∈ pagePath (v / 4096), linkUser s'.phys tab key.1 key.2 = true :=
    fun key hkey => L.rep.links _ _ (L.placement.links q hmem huser (hpage ▸ hkey))
  have h₃ := hlinks (3, num 4 v) (by rw [num_succ 3, num_succ 2, num_succ 1, hnum₁]; simp [pagePath])
  have h₂ := hlinks (2, num 3 v) (by rw [num_succ 2, num_succ 1, hnum₁]; simp [pagePath])
  have h₁ := hlinks (1, num 2 v) (by rw [num_succ 1, hnum₁]; simp [pagePath])
  have hwalk := L.rep.tree.walk_small (show v < 2 ^ 48 by omega) hnone
  refine ⟨_, hwalk.trans (by rw [show leaf4k _ tab (num 1 v) = _ from hleaf]; rfl), ?_, ?_, ?_⟩
  · simp only [frame_or_flags hal hlow hlt]
    rfl
  · simp only [Bool.and_eq_true]
    refine ⟨⟨⟨h₃, h₂⟩, h₁⟩, ?_⟩
    rw [PageTable.user, testBit_or_flags hal (by decide)]
    exact huser
  · have hbit : writable (q.frame ||| q.flags) = q.flags.testBit 1 :=
      testBit_or_flags hal (by decide)
    simp only [hbit]
    exact hwrite

/-- **The window** is mapped at its own address and closed to user mode. -/
theorem walk_window (L : LoadedSpace s p s' fileLen headers placed A₁ A tab) {v : Nat}
    (hv : v < 2 ^ 48) (hlo : physWindowStart / 2097152 ≤ v / 2097152)
    (hhi : v / 2097152 < s.physWindowEnd / 2097152) :
    ∃ t, walk s'.phys p.addressSpace.rootPaddr v = some t ∧ t.phys = v ∧ t.user = false := by
  have hnum : num 2 v = v / 2097152 := rfl
  have hleaf : leaf2m s'.phys tab (num 2 v) = some (num 2 v * hugePageSize |||
      (pagePresent ||| pageWritable ||| pageHuge)) := by
    rw [L.slot_eq, hnum, windowSlots_eq_some hlo hhi, Nat.or_assoc]
  refine ⟨_, L.rep.tree.walk_huge hv hleaf, ?_, ?_⟩
  · have hbase : num 2 v * hugePageSize % 4096 = 0 ∧ num 2 v * hugePageSize < 2 ^ 52 := by
      rw [hnum, show hugePageSize = 2097152 from rfl]
      omega
    simp only [frame_or_flags hbase.1 hbase.2 (by decide :
      pagePresent ||| pageWritable ||| pageHuge < 4096)]
    rw [hnum, show hugePageSize = 2097152 from rfl]
    omega
  · have hmod : num 2 v * hugePageSize % 4096 = 0 := by
      rw [hnum, show hugePageSize = 2097152 from rfl]
      omega
    have hbit : PageTable.user (num 2 v * hugePageSize |||
        (pagePresent ||| pageWritable ||| pageHuge)) = false := by
      rw [PageTable.user, testBit_or_flags hmod (by decide)]
      decide
    simp only [hbit, Bool.and_false]

/-- **A page that is neither** is as the context left it. -/
theorem walk_context (L : LoadedSpace s p s' fileLen headers placed A₁ A tab) {v : Nat}
    (hv : v < 2 ^ 48) (hout : windowSlots s.physWindowEnd (v / 2097152) = none)
    (hno : ¬ ImagePage headers (v / 4096)) :
    (s.ContextPage (v / 4096) →
      ∃ t, walk s'.phys p.addressSpace.rootPaddr v = some t ∧ t.phys = v ∧ t.user = false) ∧
    (¬ s.ContextPage (v / 4096) → walk s'.phys p.addressSpace.rootPaddr v = none) := by
  have hnone : leaf2m s'.phys tab (num 2 v) = none := (L.slot_eq _).trans hout
  have hlookup : lookupPlaced placed (v / 4096) = none := by
    by_contra h
    exact hno ((L.lookup_isSome _).mp (Option.isSome_iff_ne_none.mpr h))
  have hleaf : leaf4k s'.phys tab (num 1 v) = A₁.page (v / 4096) := by
    rw [show leaf4k s'.phys tab (num 1 v) = A.page (num 1 v) from L.rep.page _, L.placement.page]
    rw [show num 1 v = v / 4096 from rfl, hlookup]
  have hwalk := L.rep.tree.walk_small hv hnone
  rw [show leaf4k _ tab (num 1 v) = _ from hleaf] at hwalk
  obtain ⟨hin, hother⟩ := L.context (v / 4096)
  refine ⟨fun hctx => ?_, fun hctx => ?_⟩
  · obtain ⟨writable, hpage⟩ := hin hctx
    rw [hpage, Option.map_some] at hwalk
    have hbase : v / 4096 * pageSize % 4096 = 0 ∧ v / 4096 * pageSize < 2 ^ 52 := by
      rw [show pageSize = 4096 from rfl]
      omega
    refine ⟨_, hwalk, ?_, ?_⟩
    · simp only [frame_or_flags hbase.1 hbase.2 (kernelFlags_bounds writable).2]
      rw [show pageSize = 4096 from rfl]
      omega
    · have hbit : PageTable.user (v / 4096 * pageSize ||| kernelFlags writable) = false := by
        rw [PageTable.user, testBit_or_flags hbase.1 (by decide)]
        cases writable <;> decide
      simp only [hbit, Bool.and_false]
  · rw [hother hctx, Option.map_none] at hwalk
    exact hwalk

/-- User mode reaches the pages of the image and no others. -/
theorem walk_user_iff (L : LoadedSpace s p s' fileLen headers placed A₁ A tab) {v : Nat}
    (hv : v < 2 ^ 48) :
    (∃ t, walk s'.phys p.addressSpace.rootPaddr v = some t ∧ t.user = true) ↔
      ImagePage headers (v / 4096) := by
  constructor
  · rintro ⟨t, hwalk, huser⟩
    by_contra hno
    have hclosed : ∀ t', walk s'.phys p.addressSpace.rootPaddr v = some t' → t'.user = false := by
      intro t' ht'
      by_cases hin : physWindowStart / 2097152 ≤ v / 2097152 ∧
          v / 2097152 < s.physWindowEnd / 2097152
      · obtain ⟨t₁, h₁, -, hfalse⟩ := L.walk_window hv hin.1 hin.2
        rw [h₁] at ht'
        exact Option.some.inj ht' ▸ hfalse
      · obtain ⟨hctx, hother⟩ := L.walk_context hv (windowSlots_eq_none (by omega)) hno
        by_cases hpage : s.ContextPage (v / 4096)
        · obtain ⟨t₁, h₁, -, hfalse⟩ := hctx hpage
          rw [h₁] at ht'
          exact Option.some.inj ht' ▸ hfalse
        · rw [hother hpage] at ht'
          cases ht'
    rw [hclosed t hwalk] at huser
    cases huser
  · intro himage
    obtain ⟨q, hq⟩ := Option.isSome_iff_exists.mp ((L.lookup_isSome _).mpr himage)
    obtain ⟨t, hwalk, -, huser, -⟩ := L.walk_image hq
    exact ⟨t, hwalk, huser⟩

end LoadedSpace

/-! ## Isolation -/

/-- An address of the window, the framebuffer or a recorded range. -/
def MemoryState.ContextAddress (s : MemoryState) (v : Nat) : Prop :=
  (physWindowStart ≤ v ∧ v < s.physWindowEnd) ∨ ∃ r ∈ s.contextRanges, r.start ≤ v ∧ v < r.stop

/-- **Isolation of a loaded program.** User mode reaches exactly the pages of the
segments and of the stack, which lie between the image base and the stack top;
each has its own frame, taken during the load and recorded; and every address
of the kernel context that is on none of these pages is mapped to itself and
closed to user mode. -/
theorem loadUserProgram_isolates {s s' : MemoryState} (hs : ContextOk s) {bytes : List UInt8}
    {startup : ProgramStartup} {p : LoadedUserProgram} {elf : ElfImage}
    (helf : ElfImage.parse bytes = .ok elf)
    (h : loadUserProgram bytes startup s = some (.ok p, s')) :
    (∀ v < 2 ^ 48, (∃ t, walk s'.phys p.addressSpace.rootPaddr v = some t ∧ t.user = true) ↔
      ImagePage elf.programHeaders (v / 4096)) ∧
    (∀ n, ImagePage elf.programHeaders n →
      userImageBase ≤ n * 4096 ∧ n * 4096 + 4096 ≤ userStackTop) ∧
    (∃ frameOf : Nat → Nat,
      Set.InjOn frameOf { n | ImagePage elf.programHeaders n } ∧
      ∀ n, ImagePage elf.programHeaders n →
        frameOf n ∈ p.ownedPages.list ∧ block (frameOf n) 1 ⊆ s.free \ s'.free ∧
        ∀ v, v / 4096 = n → ∃ t, walk s'.phys p.addressSpace.rootPaddr v = some t ∧
          t.phys = frameOf n + v % 4096 ∧ t.user = true) ∧
    (∀ v, s.ContextAddress v → ¬ ImagePage elf.programHeaders (v / 4096) →
      ∃ t, walk s'.phys p.addressSpace.rootPaddr v = some t ∧ t.phys = v ∧ t.user = false) ∧
    (∀ v, physWindowStart ≤ v → ¬ ImagePage elf.programHeaders (v / 4096)) := by
  obtain ⟨placed, A₁, A, tab, L⟩ := loadUserProgram_loaded hs helf h
  have hbelow : ∀ n, ImagePage elf.programHeaders n → n < 2048 := fun n hn => (L.page_bounds hn).2
  refine ⟨fun v hv => L.walk_user_iff hv, fun n hn => ?_, ?_, fun v hctx hno => ?_, fun v hv hn => ?_⟩
  · obtain ⟨hlo, hhi⟩ := L.page_bounds hn
    simp only [userImageBase, userStackTop] at hlo hhi ⊢
    omega
  · refine ⟨fun n => ((lookupPlaced placed n).map PlacedPage.frame).getD 0, ?_, ?_⟩
    · intro n hn n' hn' heq
      obtain ⟨q, hq⟩ := Option.isSome_iff_exists.mp ((L.lookup_isSome n).mpr hn)
      obtain ⟨q', hq'⟩ := Option.isSome_iff_exists.mp ((L.lookup_isSome n').mpr hn')
      obtain ⟨hmem, rfl⟩ := LoadedSpace.placed_of_lookup hq
      obtain ⟨hmem', rfl⟩ := LoadedSpace.placed_of_lookup hq'
      simp only [hq, hq', Option.map_some, Option.getD_some] at heq
      rw [List.inj_on_of_nodup_map L.nodup hmem hmem' heq]
    · intro n hn
      obtain ⟨q, hq⟩ := Option.isSome_iff_exists.mp ((L.lookup_isSome n).mpr hn)
      obtain ⟨hmem, -⟩ := LoadedSpace.placed_of_lookup hq
      have hblock := block_subset_frameSet (List.mem_map_of_mem (f := PlacedPage.frame) hmem)
      simp only [hq, Option.map_some, Option.getD_some]
      refine ⟨L.placement.owned q hmem _ L.rep.owned.symm, fun x hx => ?_, ?_⟩
      · exact ⟨L.taken (hblock hx), Set.disjoint_left.mp L.rep.reserved (hblock hx)⟩
      · rintro v rfl
        obtain ⟨t, hwalk, hphys, huser, -⟩ := L.walk_image hq
        exact ⟨t, hwalk, hphys, huser⟩
  · have hend := hs.windowEnd_le
    have hmod := hs.windowEnd_mod
    rcases hctx with ⟨hlo, hhi⟩ | ⟨r, hr, hlo, hhi⟩
    · refine L.walk_window (by omega) ?_ ?_
      · exact Nat.div_le_div_right hlo
      · omega
    · obtain ⟨hstart, hstop, hclear⟩ := hs.ranges r hr
      have hpage : RangePage r.start r.stop (v / 4096) := ⟨by omega, by omega⟩
      have hslot := hclear.slot_none (by rw [u64Limit]; omega) hstop hmod hpage
      rw [Nat.div_div_eq_div_mul] at hslot
      exact (L.walk_context (by omega) hslot hno).1 ⟨r, hr, hpage⟩
  · have := hbelow _ hn
    rw [physWindowStart] at hv
    omega

/-! ## User buffers (`memory/user.rs`) -/

/-- `validate_user_buffer`. -/
def validateUserBuffer (address len : Nat) : Bool :=
  if len = 0 then true
  else
    match checkedAdd address len with
    | none => false
    | some stop =>
      decide (address ≥ userImageBase) && decide (stop ≤ userStackTop) &&
        !(decide (stop > userStackBase) && decide (address < userStackBase))

/-- `user_slice`: the borrowed range. -/
def userSlice (address len : Nat) : Option (Nat × Nat) :=
  if !validateUserBuffer address len then none else some (address, len)

/-- `user_slice_mut`. -/
def userSliceMut (address len : Nat) : Option (Nat × Nat) :=
  if !validateUserBuffer address len then none else some (address, len)

/-- The page at `n` may be touched by the kernel on behalf of the program, to write
to it if `mutable`. -/
def TouchablePage (m : ByteMemory) (root n : Nat) (mutable : Bool) : Prop :=
  ∀ v, v / 4096 = n → ∃ t, walk m root v = some t ∧ t.user = true ∧
    (mutable = true → t.writable = true)

theorem LoadedSpace.touchable_iff {s s' : MemoryState} {p : LoadedUserProgram} {fileLen : Nat}
    {headers : List (Except ElfError ProgramHeader)} {placed : List PlacedPage}
    {A₁ A : AddressMap} {tab : Shape} (L : LoadedSpace s p s' fileLen headers placed A₁ A tab)
    {n : Nat} (hn : n < 2 ^ 36) (mutable : Bool) :
    TouchablePage s'.phys p.addressSpace.rootPaddr n mutable ↔
      if mutable then WritablePage headers n else ImagePage headers n := by
  have himage : WritablePage headers n → ImagePage headers n := by
    rintro (⟨header, hheader, -⟩ | h)
    · exact .inl (by simp [hheader])
    · exact .inr h
  constructor
  · intro h
    obtain ⟨t, hwalk, huser, hwrite⟩ := h (n * 4096) (Nat.mul_div_cancel n (by decide))
    have hin : ImagePage headers n := by
      have := (L.walk_user_iff (v := n * 4096) (by omega)).mp ⟨t, hwalk, huser⟩
      rwa [Nat.mul_div_cancel n (by decide)] at this
    split_ifs with hmut
    · obtain ⟨q, hq⟩ := Option.isSome_iff_exists.mp ((L.lookup_isSome n).mpr hin)
      obtain ⟨t', hwalk', -, -, hiff⟩ := L.walk_image (v := n * 4096)
        (by rwa [Nat.mul_div_cancel n (by decide)])
      rw [hwalk] at hwalk'
      obtain rfl := Option.some.inj hwalk'
      rw [Nat.mul_div_cancel n (by decide)] at hiff
      exact hiff.mp (hwrite hmut)
    · exact hin
  · rintro h v rfl
    have hin : ImagePage headers (v / 4096) := by
      split_ifs at h
      · exact himage h
      · exact h
    obtain ⟨q, hq⟩ := Option.isSome_iff_exists.mp ((L.lookup_isSome _).mpr hin)
    obtain ⟨t, hwalk, -, huser, hiff⟩ := L.walk_image hq
    refine ⟨t, hwalk, huser, fun hmut => hiff.mpr ?_⟩
    rwa [if_pos hmut] at h

theorem userSlice_eq_some {address len : Nat} {range : Nat × Nat}
    (h : userSlice address len = some range) : validateUserBuffer address len = true := by
  unfold userSlice at h
  split_ifs at h with hvalid
  simpa using hvalid

theorem validateUserBuffer_le {address len : Nat} (hlen : 0 < len)
    (h : validateUserBuffer address len = true) : address + len ≤ userStackTop := by
  unfold validateUserBuffer at h
  rw [if_neg (by omega)] at h
  split at h
  · cases h
  · rename_i stop hadd
    obtain ⟨-, rfl⟩ := checkedAdd_eq_some.mp hadd
    simp only [Bool.and_eq_true, decide_eq_true_eq] at h
    exact h.1.2

/-- **Which accepted buffers are mapped.** For every loaded program and every
non-empty range the kernel borrows: all its pages are present and open to the
program, and writable if borrowed mutably, if and only if each of them is a
stack page or covered by a segment, by a writable one if borrowed mutably. -/
theorem validateUserBuffer_mapped_iff {s s' : MemoryState} (hs : ContextOk s)
    {bytes : List UInt8} {startup : ProgramStartup} {p : LoadedUserProgram} {elf : ElfImage}
    (helf : ElfImage.parse bytes = .ok elf)
    (h : loadUserProgram bytes startup s = some (.ok p, s')) (address len : Nat) (hlen : 0 < len)
    (mutable : Bool)
    (hborrow : (if mutable then userSliceMut address len else userSlice address len) =
      some (address, len)) :
    (∀ n, address / 4096 ≤ n → n ≤ (address + len - 1) / 4096 →
      TouchablePage s'.phys p.addressSpace.rootPaddr n mutable) ↔
    ∀ n, address / 4096 ≤ n → n ≤ (address + len - 1) / 4096 →
      if mutable then WritablePage elf.programHeaders n else ImagePage elf.programHeaders n := by
  obtain ⟨placed, A₁, A, tab, L⟩ := loadUserProgram_loaded hs helf h
  have hvalid : validateUserBuffer address len = true := by
    have hslice : userSlice address len = some (address, len) := by cases mutable <;> exact hborrow
    exact userSlice_eq_some hslice
  have hbound := validateUserBuffer_le hlen hvalid
  rw [userStackTop] at hbound
  refine forall_congr' fun n => imp_congr_right fun _ => imp_congr_right fun hhi => ?_
  exact L.touchable_iff (by omega) mutable

/-! ### A program of one page -/

/-- One page of code at the image base, not writable. -/
def codePage : List UInt8 :=
  imageOf userImageBase [⟨ptLoad, pfR ||| pfX, 0, userImageBase, 0, 0, 4096⟩]

/-- The sample machine with the first page of the user part recorded as a kernel
range. -/
def overlapRun : KernelRun := KernelRun.sampleRun.call userImageBase (userImageBase + 4096) true

theorem overlapRun_contextOk : ContextOk overlapRun.state :=
  KernelRun.Reachable.contextOk KernelRun.sampleBoot_regular
    (.call true (KernelRun.sampleRun_reachable _) ⟨by decide, by decide, .inr (.inl (by decide))⟩)

/-- The translations of some addresses in the space a load builds. -/
def loadedWalks (bytes : List UInt8) (startup : ProgramStartup) (s : MemoryState)
    (addresses : List Nat) : Option (List (Option Translation)) :=
  match loadUserProgram bytes startup s with
  | some (.ok p, s') => some (addresses.map (walk s'.phys p.addressSpace.rootPaddr))
  | _ => none

theorem loadedWalks_eq_some {bytes : List UInt8} {startup : ProgramStartup} {s : MemoryState}
    {addresses : List Nat} {walks : List (Option Translation)}
    (h : loadedWalks bytes startup s addresses = some walks) :
    ∃ p s', loadUserProgram bytes startup s = some (.ok p, s') ∧
      addresses.map (walk s'.phys p.addressSpace.rootPaddr) = walks := by
  unfold loadedWalks at h
  split at h
  · rename_i p s' hload
    exact ⟨p, s', hload, Option.some.inj h⟩
  · cases h

theorem overlap_walks :
    loadedWalks codePage ⟨"a", []⟩ overlapRun.state [0x400000, 0x500000] =
      some [some ⟨0x1008000, false, true⟩, none] := by
  decide +kernel

/-- The program's headers. -/
theorem codePage_parse : ∃ elf, ElfImage.parse codePage = .ok elf ∧
    elf.programHeaders = [.ok ⟨ptLoad, pfR ||| pfX, 0, userImageBase, 0, 0, 4096⟩] := by
  have hsome : ((ElfImage.parse codePage).map ElfImage.programHeaders) =
      .ok [.ok ⟨ptLoad, pfR ||| pfX, 0, userImageBase, 0, 0, 4096⟩] := by decide +kernel
  cases hparse : ElfImage.parse codePage with
  | error e => simp [hparse, Except.map] at hsome
  | ok elf =>
    rw [hparse] at hsome
    exact ⟨elf, rfl, Except.ok.inj hsome⟩

/-- **A kernel range that became a user page.** The range lies outside the window,
and the program's own page took its place. -/
theorem kernel_range_open_to_user :
    (∃ r ∈ overlapRun.state.contextRanges, r.start = 0x400000 ∧ r.stop = 0x401000) ∧
      (∀ r ∈ overlapRun.state.contextRanges, r.stop ≤ physWindowStart) ∧
      ∃ p s' t, loadUserProgram codePage ⟨"a", []⟩ overlapRun.state = some (.ok p, s') ∧
        walk s'.phys p.addressSpace.rootPaddr 0x400000 = some t ∧ t.user = true := by
  have hranges : overlapRun.state.contextRanges = [⟨0x400000, 0x401000, kernelFlags true⟩] := by
    decide +kernel
  obtain ⟨p, s', hload, hwalks⟩ := loadedWalks_eq_some overlap_walks
  rw [List.map_cons, List.cons.injEq] at hwalks
  refine ⟨⟨_, by rw [hranges]; exact List.mem_cons_self, rfl, rfl⟩, fun r hr => ?_,
    p, s', _, hload, hwalks.1, rfl⟩
  rw [hranges, List.mem_singleton] at hr
  subst hr
  decide

/-- What isolation says about that program's last stack page. -/
theorem loadUserProgram_isolates_at_codePage :
    ∃ p s' t, loadUserProgram codePage ⟨"a", []⟩ overlapRun.state = some (.ok p, s') ∧
      walk s'.phys p.addressSpace.rootPaddr 0x7ff000 = some t ∧ t.user = true := by
  obtain ⟨p, s', hload, -⟩ := loadedWalks_eq_some overlap_walks
  obtain ⟨elf, helf, -⟩ := codePage_parse
  obtain ⟨t, ht⟩ := ((loadUserProgram_isolates overlapRun_contextOk helf hload).1 0x7ff000
    (by decide)).mpr (.inr (by decide))
  exact ⟨p, s', t, hload, ht⟩

/-- **Accepted buffers that are not there.** The page at `0x500000` lies between the
only segment and the stack, and the page at `0x400000` is not writable. -/
theorem accepted_buffer_not_mapped :
    ∃ p s', loadUserProgram codePage ⟨"a", []⟩ overlapRun.state = some (.ok p, s') ∧
      userSlice 0x500000 1 = some (0x500000, 1) ∧
      ¬ TouchablePage s'.phys p.addressSpace.rootPaddr 0x500 false ∧
      userSliceMut 0x400000 1 = some (0x400000, 1) ∧
      ¬ TouchablePage s'.phys p.addressSpace.rootPaddr 0x400 true := by
  obtain ⟨p, s', hload, hwalks⟩ := loadedWalks_eq_some overlap_walks
  simp only [List.map_cons, List.map_nil, List.cons.injEq, and_true] at hwalks
  refine ⟨p, s', hload, by decide, fun h => ?_, by decide, fun h => ?_⟩
  · obtain ⟨t, ht, -⟩ := h 0x500000 (by decide)
    rw [hwalks.2] at ht
    cases ht
  · obtain ⟨t, ht, -, hwrite⟩ := h 0x400000 (by decide)
    rw [hwalks.1] at ht
    cases ht
    exact absurd (hwrite rfl) (by decide)

/-- The code page itself may be read. -/
theorem validateUserBuffer_mapped_iff_at_codePage :
    ∃ p s', loadUserProgram codePage ⟨"a", []⟩ overlapRun.state = some (.ok p, s') ∧
      TouchablePage s'.phys p.addressSpace.rootPaddr 0x400 false := by
  obtain ⟨p, s', hload, -⟩ := loadedWalks_eq_some overlap_walks
  obtain ⟨elf, helf, hheaders⟩ := codePage_parse
  refine ⟨p, s', hload, ?_⟩
  refine (validateUserBuffer_mapped_iff overlapRun_contextOk helf hload 0x400000 16 (by decide)
    false (by decide)).mpr (fun n hlo hhi => ?_) 0x400 (by decide) (by decide)
  have hn : n = 0x400 := by omega
  subst hn
  rw [hheaders]
  exact .inl (by decide)

end Lazers.Memory
