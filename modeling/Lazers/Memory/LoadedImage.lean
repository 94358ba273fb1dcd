import Lazers.Memory.StartupBlock

/-!
# The image of a loaded program

What `load_user_program` leaves in the pages of the `PT_LOAD` segments, and which
of them are writable.

Segments may share pages and overlap. The bytes are settled by the last segment
whose file part covers an address, because `copy_into` runs once per header in
table order, and a page starts out zeroed (`loadUserProgram_contents`). The
flags are settled by the first segment that touches a page, because a page that
is there already is not mapped again (`loadUserProgram_writable_iff`).

`Filled` is the invariant behind the first result: through the page map, every
mapped byte is the one the headers so far put there, and no byte is owed to a
page that is not mapped yet.
-/

namespace Lazers.Memory

open PageTable AddressMap Elf

/-! ## What the headers ask for -/

/-- The file part of a `PT_LOAD` segment covers address `v`. -/
def FileCovers (header : ProgramHeader) (v : Nat) : Prop :=
  header.kind = ptLoad ∧ header.virtualAddress ≤ v ∧ v < header.virtualAddress + header.fileSize

instance (header : ProgramHeader) (v : Nat) : Decidable (FileCovers header v) :=
  inferInstanceAs (Decidable (_ ∧ _ ∧ _))

/-- The last header in table order whose file part covers `v`. -/
def fileHeader (headers : List (Except ElfError ProgramHeader)) (v : Nat) :
    Option ProgramHeader :=
  headers.reverse.findSome? fun
    | .ok header => if FileCovers header v then some header else none
    | .error _ => none

/-- Page `n` belongs to the pages of some segment. -/
def SegmentPage (headers : List (Except ElfError ProgramHeader)) (n : Nat) : Prop :=
  (coveringHeader headers n).isSome = true

instance (headers : List (Except ElfError ProgramHeader)) (n : Nat) :
    Decidable (SegmentPage headers n) := inferInstanceAs (Decidable (_ = _))

/-- Some byte of a `PT_LOAD` segment lies on page `n`. -/
def SegmentOverlaps (header : ProgramHeader) (n : Nat) : Prop :=
  header.kind = ptLoad ∧ ∃ v, header.virtualAddress ≤ v ∧
    v < header.virtualAddress + header.memorySize ∧ v / 4096 = n

/-- A segment that overlaps page `n` asks for it to be writable. -/
def WritableOverlap (headers : List (Except ElfError ProgramHeader)) (n : Nat) : Prop :=
  ∃ header, .ok header ∈ headers ∧ SegmentOverlaps header n ∧ header.flags &&& pfW ≠ 0

theorem fileHeader_cons (header : ProgramHeader) (rest : List (Except ElfError ProgramHeader))
    (v : Nat) : fileHeader (.ok header :: rest) v =
      (fileHeader rest v).or (if FileCovers header v then some header else none) := by
  rw [fileHeader, List.reverse_cons, List.findSome?_append]
  congr 1
  by_cases h : FileCovers header v
  · simp [h]
  · simp [h]

/-- The bytes of an image over `under`, the bytes there before. -/
def imageOver (bytes : List UInt8) (headers : List (Except ElfError ProgramHeader))
    (under : Nat → UInt8) (v : Nat) : UInt8 :=
  match fileHeader headers v with
  | some header => bytes.getD (header.offset + (v - header.virtualAddress)) 0
  | none => under v

/-- The first header goes below the others. -/
theorem imageOver_cons (bytes : List UInt8) (header : ProgramHeader)
    (rest : List (Except ElfError ProgramHeader)) (under : Nat → UInt8) :
    imageOver bytes (.ok header :: rest) under =
      imageOver bytes rest (imageOver bytes [.ok header] under) := by
  funext v
  rw [imageOver, imageOver, imageOver, fileHeader_cons, fileHeader_cons]
  cases fileHeader rest v with
  | some later => rfl
  | none => rfl

/-- One header lays its slice of the file over what was there. -/
theorem imageOver_single {bytes : List UInt8} {header : ProgramHeader}
    (hkind : header.kind = ptLoad) (under : Nat → UInt8) :
    (fun v => if header.virtualAddress ≤ v ∧ v < header.virtualAddress + header.fileSize then
        ((bytes.drop header.offset).take (header.offset + header.fileSize - header.offset)).getD
          (v - header.virtualAddress) 0 else under v) = imageOver bytes [.ok header] under := by
  funext v
  rw [imageOver, fileHeader_cons]
  by_cases hin : header.virtualAddress ≤ v ∧ v < header.virtualAddress + header.fileSize
  · rw [if_pos hin, if_pos (show FileCovers header v from ⟨hkind, hin⟩)]
    simp only [fileHeader, List.reverse_nil, List.findSome?_nil, Option.none_or]
    rw [List.getD_eq_getElem?_getD, List.getD_eq_getElem?_getD, List.getElem?_take,
      if_pos (by omega), List.getElem?_drop]
  · rw [if_neg hin, if_neg fun hcov : FileCovers header v => hin hcov.2]
    rfl

/-! ## Bytes behind the page map -/

/-- **The invariant of a load.** Every page has its own frame, every mapped byte is
the byte of `content`, and unmapped bytes are still zero there. -/
structure Filled (pages : UserPageMap) (m : ByteMemory) (content : Nat → UInt8) : Prop where
  own : pages.OwnFrames
  mapped : ∀ v x, pages.view m v = some x → x = content v
  unmapped : ∀ v, pages.view m v = none → content v = 0

theorem filled_new (m : ByteMemory) : Filled UserPageMap.new m fun _ => 0 := by
  have hfind : ∀ n, UserPageMap.new.find (n * pageSize) = none := fun n =>
    UserPageMap.lists_new.find_eq n
  refine ⟨fun n n' p p' _ hp => ?_, fun v x hx => ?_, fun _ _ => rfl⟩
  · rw [hfind] at hp
    cases hp
  · rw [UserPageMap.view, hfind] at hx
    cases hx

section

variable {o : Origin} {root : Nat} {slots : Nat → Option Nat} {pages pages' : UserPageMap}
  {placed : List PlacedPage} {b b' : BuilderState} {A : AddressMap} {held : Set Nat} {tab : Shape}
  {content : Nat → UInt8}

/-- Measure stores from here on against the tables and the free set. -/
theorem Rep.tighten (R : Rep o root held b A tab) :
    Rep ⟨b.state.phys, { x | ∃ ℓ k f, tab ℓ k = some f ∧ x ∈ block f 1 }, b.state.free⟩ root held b
      A tab :=
  { R with
    inside := fun {ℓ k f} hf _ hx => .inl ⟨ℓ, k, f, hf, hx⟩
    sub := subset_rfl
    writes := .refl _ _ }

theorem liftExcept_eq_ok {α : Type} {x : Except MemoryError α} {a : α}
    (h : liftExcept x b = .ok a b') : x = .ok a ∧ b' = b := by
  cases x with
  | ok a' =>
    cases h
    exact ⟨rfl, rfl⟩
  | error e => cases h

theorem pushOwned_state {c : Nat} (h : Builder.pushOwned c b = .ok () b') : b'.state = b.state := by
  unfold Builder.pushOwned at h
  split at h
  · cases h
    rfl
  · split at h
    · cases h
      rfl
    · cases h

theorem allocatePage_phys {c : Nat}
    (h : Builder.withStateMut MemoryState.allocatePage b = .ok c b') :
    b'.state.phys = b.state.phys.zero c pageSize := by
  cases halloc : b.state.allocator.allocatePage with
  | none => simp [Builder.withStateMut, MemoryState.allocatePage, halloc] at h
  | some r =>
    simp only [Builder.withStateMut, MemoryState.allocatePage, halloc] at h
    cases h
    rfl

/-- Mapping a page stores into tables and new frames, so held frames keep their bytes. -/
theorem map4k_keeps_held {n phys flags : Nat} (R : Rep o root held b A tab) (hn : n < 2 ^ 36)
    (hclear : A.slot (n / 512) = none) (hpresent : flags.testBit 0 = true)
    (hphys : phys % 4096 = 0) (hlow : phys < 2 ^ 64) (hflags : flags < 4096)
    (h : Builder.map4k root (n * pageSize) phys flags b = .ok () b') {x : Nat} (hx : x ∈ held) :
    b'.state.phys.byte x = b.state.phys.byte x := by
  obtain ⟨-, A', -, ⟨tab', R'⟩, -⟩ :=
    (map4k_lockstep R.tighten hn hclear hpresent hphys hlow hflags).of_ok_left h
  refine R'.writes.byte x ?_
  rintro (⟨ℓ, k, f, hf, hin⟩ | ⟨hfree, -⟩)
  · exact Set.disjoint_left.mp (R.apart hf) hin (.inr hx)
  · exact Set.disjoint_left.mp R.reserved hx hfree

/-- The page map after one more page. -/
theorem UserPageMap.Lists.find_insert (h : pages.Lists placed) {n c : Nat}
    (hinsert : pages.insert (n * pageSize) c = .ok pages') (k : Nat) :
    pages'.find (k * pageSize) =
      (pages.find (k * pageSize)).or (if n = k then some ⟨n * pageSize, c⟩ else none) := by
  have hroom : placed.length < maxSegmentPages := by
    by_contra hfull
    rw [h.insert_full (Nat.le_of_not_lt hfull)] at hinsert
    cases hinsert
  -- the flags of the new page do not show in the map
  obtain ⟨pages₁, hok, hlists⟩ := h.insert_room hroom { page := n, frame := c, flags := 0 }
  rw [hok] at hinsert
  obtain rfl := Except.ok.inj hinsert
  rw [hlists.find_eq, h.find_eq, lookupPlaced_append, Option.map_or]
  congr 1
  split_ifs <;> rfl

/-- A zeroed page in a frame of its own. -/
theorem Filled.insert {m m' : ByteMemory} {n c : Nat} (F : Filled pages m content)
    (hfind : ∀ k, pages'.find (k * pageSize) =
      (pages.find (k * pageSize)).or (if n = k then some ⟨n * pageSize, c⟩ else none))
    (hold : ∀ k p, pages.find (k * pageSize) = some p →
      (∀ i < 4096, m'.byte (p.physPage + i) = m.byte (p.physPage + i)) ∧
      (p.physPage + 4096 ≤ c ∨ c + 4096 ≤ p.physPage))
    (hnew : ∀ i < 4096, m'.byte (c + i) = 0) : Filled pages' m' content := by
  refine ⟨fun k k' p p' hne hp hp' => ?_, fun v x hx => ?_, fun v hx => ?_⟩
  · rw [hfind] at hp hp'
    cases hk : pages.find (k * pageSize) with
    | some q =>
      rw [hk, Option.some_or] at hp
      obtain rfl := Option.some.inj hp
      cases hk' : pages.find (k' * pageSize) with
      | some q' =>
        rw [hk', Option.some_or] at hp'
        obtain rfl := Option.some.inj hp'
        exact F.own k k' _ _ hne hk hk'
      | none =>
        rw [hk', Option.none_or, Option.ite_none_right_eq_some, Option.some.injEq] at hp'
        obtain ⟨-, rfl⟩ := hp'
        exact (hold k _ hk).2
    | none =>
      rw [hk, Option.none_or, Option.ite_none_right_eq_some, Option.some.injEq] at hp
      obtain ⟨rfl, rfl⟩ := hp
      cases hk' : pages.find (k' * pageSize) with
      | some q' =>
        rw [hk', Option.some_or] at hp'
        obtain rfl := Option.some.inj hp'
        exact (hold k' _ hk').2.symm
      | none =>
        rw [hk', Option.none_or, if_neg hne] at hp'
        cases hp'
  · rw [UserPageMap.view, hfind] at hx
    cases hk : pages.find (v / 4096 * pageSize) with
    | some q =>
      rw [hk, Option.some_or, Option.map_some, Option.some.injEq] at hx
      refine F.mapped v x ?_
      rw [UserPageMap.view, hk, Option.map_some, ← hx, (hold _ q hk).1 _ (Nat.mod_lt _ (by decide))]
    | none =>
      have hcontent : content v = 0 := F.unmapped v (by rw [UserPageMap.view, hk]; rfl)
      rw [hk, Option.none_or, Option.map_eq_some_iff] at hx
      obtain ⟨q, hq, rfl⟩ := hx
      rw [Option.ite_none_right_eq_some, Option.some.injEq] at hq
      obtain ⟨-, rfl⟩ := hq
      rw [hcontent]
      exact hnew _ (Nat.mod_lt _ (by decide))
  · rw [UserPageMap.view, hfind, Option.map_eq_none_iff, Option.or_eq_none_iff] at hx
    exact F.unmapped v (by rw [UserPageMap.view, hx.1]; rfl)

/-- **One user page.** It starts out zeroed, and the other pages keep their bytes. -/
theorem addUserPage_filled {n flags : Nat} (L : Loading o root slots pages placed b A)
    (hn : n < 2 ^ 36) (hclear : slots (n / 512) = none) (hpresent : flags.testBit 0 = true)
    (hflags : flags < 4096) (F : Filled pages b.state.phys content)
    (h : addUserPage root (n * pageSize) flags pages b = .ok pages' b') :
    Filled pages' b'.state.phys content := by
  obtain ⟨c, b₁, halloc, h⟩ := EStateM.bind_eq_ok.mp h
  obtain ⟨_, b₂, hmap, h⟩ := EStateM.bind_eq_ok.mp h
  obtain ⟨pages₁, b₃, hlift, h⟩ := EStateM.bind_eq_ok.mp h
  obtain ⟨_, b₄, hpush, h⟩ := EStateM.bind_eq_ok.mp h
  cases h
  obtain ⟨hinsert, rfl⟩ := liftExcept_eq_ok hlift
  obtain ⟨tab, R⟩ := L.related
  obtain ⟨_, A₁, -, rfl, R₁, F₁, hA₁⟩ := (allocatePage_lockstep R).of_ok_left halloc
  have hslot₁ : A₁.slot = slots := by rw [hA₁, L.slot]
  have hkeep : ∀ x ∈ frameSet (placed.map PlacedPage.frame) ∪ block c 1,
      b'.state.phys.byte x = b₁.state.phys.byte x := by
    intro x hx
    rw [pushOwned_state hpush]
    exact map4k_keeps_held R₁ hn (by rw [hslot₁, hclear]) hpresent F₁.aligned
      (F₁.low.trans (by decide)) hflags hmap hx
  have hzero := allocatePage_phys halloc
  have hfind := L.lists.find_insert hinsert
  -- a page of the old map keeps its bytes, and lies apart from the new frame
  have hold : ∀ k p, pages.find (k * pageSize) = some p →
      (∀ i < 4096, b'.state.phys.byte (p.physPage + i) = b.state.phys.byte (p.physPage + i)) ∧
      (p.physPage + 4096 ≤ c ∨ c + 4096 ≤ p.physPage) := by
    intro k p hp
    obtain ⟨q, hq, rfl⟩ := L.lists.mem_of_find hp
    have hblock : block q.frame 1 ⊆ frameSet (placed.map PlacedPage.frame) :=
      block_subset_frameSet (List.mem_map_of_mem hq)
    have hapart : Disjoint (block c 1) (block q.frame 1) := F₁.apart.mono_right hblock
    have hsides : q.frame + 4096 ≤ c ∨ c + 4096 ≤ q.frame := by
      by_contra hno
      have hmax : max c q.frame ∈ block c 1 := mem_block.mpr ⟨by omega, by omega⟩
      exact Set.disjoint_left.mp hapart hmax (mem_block.mpr ⟨by omega, by omega⟩)
    refine ⟨fun i hi => ?_, hsides⟩
    have hmem : q.frame + i ∈ block q.frame 1 := mem_block.mpr ⟨by omega, by omega⟩
    rw [PlacedPage.entry, hkeep _ (.inl (hblock hmem)), hzero, ByteMemory.zero]
    exact if_neg (by rw [show pageSize = 4096 from rfl]; omega)
  have hnew : ∀ i < 4096, b'.state.phys.byte (c + i) = 0 := by
    intro i hi
    have hmem : c + i ∈ block c 1 := mem_block.mpr ⟨by omega, by omega⟩
    rw [hkeep _ (.inr hmem), hzero, ByteMemory.zero]
    exact if_pos (by rw [show pageSize = 4096 from rfl]; omega)
  exact F.insert hfind hold hnew

/-- The page loop of a segment. -/
theorem addSegmentPages_filled {flags : Nat} (hpresent : flags.testBit 0 = true)
    (hflags : flags < 4096) (rounds : Nat) {n : Nat} (L : Loading o root slots pages placed b A)
    (hn : n + rounds ≤ 2 ^ 36) (hclear : ∀ i, n ≤ i → i < n + rounds → slots (i / 512) = none)
    (F : Filled pages b.state.phys content)
    (h : addSegmentPages root flags rounds (n * pageSize) pages b = .ok pages' b') :
    Filled pages' b'.state.phys content := by
  induction rounds generalizing n pages placed b A with
  | zero =>
    cases h
    exact F
  | succ rounds ih =>
    have hnext : n * pageSize + pageSize = (n + 1) * pageSize := (Nat.succ_mul n pageSize).symm
    have hrest : ∀ i, n + 1 ≤ i → i < n + 1 + rounds → slots (i / 512) = none :=
      fun i hlo hhi => hclear i (by omega) (by omega)
    rw [addSegmentPages, hnext] at h
    split_ifs at h
    · exact ih L (by omega) hrest F h
    · obtain ⟨pages₁, b₁, hstep, h⟩ := EStateM.bind_eq_ok.mp h
      have hfree := hclear n le_rfl (by omega)
      obtain ⟨placed₁, A₁, -, L₁⟩ :=
        (addUserPage_lockstep L (by omega) hfree hpresent hflags).of_ok_left hstep
      exact ih L₁ (by omega) hrest
        (addUserPage_filled L (by omega) hfree hpresent hflags F hstep) h

/-- The stack loop. -/
theorem addStackPages_filled (rounds : Nat) {n : Nat} (L : Loading o root slots pages placed b A)
    (hn : n + rounds ≤ 2 ^ 36) (hclear : ∀ i, n ≤ i → i < n + rounds → slots (i / 512) = none)
    (F : Filled pages b.state.phys content)
    (h : addStackPages root rounds (n * pageSize) pages b = .ok pages' b') :
    Filled pages' b'.state.phys content := by
  induction rounds generalizing n pages placed b A with
  | zero =>
    cases h
    exact F
  | succ rounds ih =>
    have hnext : n * pageSize + pageSize = (n + 1) * pageSize := (Nat.succ_mul n pageSize).symm
    rw [addStackPages, hnext] at h
    obtain ⟨pages₁, b₁, hstep, h⟩ := EStateM.bind_eq_ok.mp h
    have hfree := hclear n le_rfl (by omega)
    obtain ⟨placed₁, A₁, -, L₁⟩ :=
      (addUserPage_lockstep L (by omega) hfree (by decide) (by decide)).of_ok_left hstep
    exact ih L₁ (by omega) (fun i hlo hhi => hclear i (by omega) (by omega))
      (addUserPage_filled L (by omega) hfree (by decide) (by decide) F hstep) h

/-! ## Bytes of the file -/

/-- A copy lays its bytes over the contents. -/
theorem copyInto_filled {address : Nat} {data : List UInt8} (F : Filled pages b.state.phys content)
    (hlimit : address + data.length < u64Limit)
    (hcovers : pages.Covers address (address + data.length))
    (h : pages.copyInto address data b = .ok () b') :
    Filled pages b'.state.phys fun v =>
      if address ≤ v ∧ v < address + data.length then data.getD (v - address) 0 else content v := by
  obtain ⟨b₁, hrun, hview⟩ := UserPageMap.copyInto_view F.own address data hlimit hcovers b
  rw [hrun] at h
  injection h with _ hstate
  subst hstate
  refine ⟨F.own, fun v x hx => ?_, fun v hx => ?_⟩
  · rw [hview, ByteView.overlay] at hx
    split_ifs at hx ⊢
    · rw [List.getD_eq_getElem?_getD, hx]
      rfl
    · exact F.mapped v x hx
  · rw [hview, ByteView.overlay] at hx
    split_ifs at hx ⊢ with hin
    · rw [List.getElem?_eq_none_iff] at hx
      omega
    · exact F.unmapped v hx

/-- The bytes of a segment in the file. -/
theorem fileRange_eq_ok {header : ProgramHeader} {fileLen start stop : Nat}
    (h : header.fileRange fileLen = .ok (start, stop)) :
    start = header.offset ∧ stop = header.offset + header.fileSize ∧
      header.offset + header.fileSize ≤ fileLen := by
  unfold ProgramHeader.fileRange at h
  split at h
  · cases h
  · rename_i stop' hadd
    obtain ⟨-, rfl⟩ := checkedAdd_eq_some.mp hadd
    split_ifs at h with hlong
    cases h
    exact ⟨rfl, rfl, by omega⟩

/-- **One segment** lays its file part over the contents. -/
theorem loadSegment_filled {bytes : List UInt8} {header : ProgramHeader}
    (hslots : UserSlotsFree slots) (L : Loading o root slots pages placed b A)
    (hkind : header.kind = ptLoad) (F : Filled pages b.state.phys content)
    (h : loadSegment root bytes header pages b = .ok pages' b') :
    Filled pages' b'.state.phys (imageOver bytes [.ok header] content) := by
  rw [loadSegment_eq] at h
  split_ifs at h with hrange
  · obtain ⟨pages₁, b₁, hpages, h⟩ := EStateM.bind_eq_ok.mp h
    obtain ⟨range, b₂, hlift, h⟩ := EStateM.bind_eq_ok.mp h
    obtain ⟨hfile, rfl⟩ := liftExcept_eq_ok hlift
    obtain ⟨start, stop⟩ := range
    dsimp only at h
    obtain ⟨_, b₃, hcopy, h⟩ := EStateM.bind_eq_ok.mp h
    cases h
    obtain ⟨hlo, hhi⟩ := hrange.bounds
    obtain ⟨hbit, hflags⟩ := segmentFlags_bounds header
    have hclear : ∀ i, header.virtualAddress / 4096 ≤ i → i < header.virtualAddress / 4096 +
        ((header.virtualAddress + header.memorySize + 4095) / 4096 -
          header.virtualAddress / 4096) → slots (i / 512) = none := by
      intro i h h'
      refine hslots i ?_ ?_ <;> simp only [userImageBase, userStackTop] <;> omega
    have F₁ := addSegmentPages_filled hbit hflags _ L (by omega) hclear F hpages
    obtain ⟨placed₁, A₁, hplace, L₁⟩ :=
      (addSegmentPages_lockstep hbit hflags _ L (by omega) hclear).of_ok_left hpages
    obtain ⟨rfl, rfl, hlen⟩ : start = header.offset ∧ stop = header.offset + header.fileSize ∧
        header.offset + header.fileSize ≤ bytes.length := by
      cases hr : header.fileRange bytes.length with
      | error e =>
        rw [hr] at hfile
        cases hfile
      | ok range =>
        rw [hr] at hfile
        cases hfile
        exact fileRange_eq_ok hr
    have hslice : ((bytes.drop header.offset).take
        (header.offset + header.fileSize - header.offset)).length = header.fileSize := by
      rw [List.length_take, List.length_drop]
      omega
    have hsize := hrange.2.2
    -- the page loop has placed every page of the file part
    have hcovers : pages'.Covers header.virtualAddress
        (header.virtualAddress + header.fileSize) := by
      intro n h h'
      rw [L₁.lists.find_eq, Option.isSome_map, Option.isSome_iff_ne_none, ne_eq,
        lookupPlaced_eq_none, not_not]
      refine (mem_of_placeAll hplace n).mpr (.inr ⟨⟨n, segmentFlags header⟩, ?_, rfl⟩)
      exact List.mem_map.mpr ⟨n, List.mem_range'_1.mpr ⟨h, by omega⟩, rfl⟩
    have F₂ := copyInto_filled F₁ (by rw [hslice, u64Limit]; omega) (by rwa [hslice]) hcopy
    rw [hslice] at F₂
    rwa [imageOver_single hkind] at F₂
  · cases h

/-- **The loop over the headers.** -/
theorem loadSegments_filled {bytes : List UInt8} (hslots : UserSlotsFree slots)
    (headers : List (Except ElfError ProgramHeader)) (L : Loading o root slots pages placed b A)
    (F : Filled pages b.state.phys content)
    (h : loadSegments root bytes headers pages b = .ok pages' b') :
    Filled pages' b'.state.phys (imageOver bytes headers content) := by
  induction headers generalizing pages placed b A content with
  | nil =>
    cases h
    exact F
  | cons item rest ih =>
    cases item with
    | error e => cases h
    | ok header =>
      rw [loadSegments] at h
      rw [imageOver_cons]
      split_ifs at h with hkind
      · have hsame : imageOver bytes [.ok header] content = content := by
          funext v
          rw [imageOver, fileHeader_cons, if_neg fun hcov : FileCovers header v => hkind hcov.1]
          rfl
        rw [hsame]
        exact ih L F h
      · obtain ⟨pages₁, b₁, hstep, h⟩ := EStateM.bind_eq_ok.mp h
        obtain ⟨placed₁, A₁, -, L₁⟩ := (loadSegment_lockstep hslots L).of_ok_left hstep
        exact ih L₁ (loadSegment_filled hslots L (not_not.mp hkind) F hstep) h

end

/-- **The whole image**, stack pages included. -/
theorem buildImage_filled {s : MemoryState} (hs : ContextOk s) {root : Nat}
    {a : PhysicalAllocator} (h : s.allocator.allocatePage = some (root, a)) {owned : OwnedPages}
    (howned : owned.list = [root]) {elf : ElfImage} {bytes : List UInt8} {pages : UserPageMap}
    {b : BuilderState}
    (hrun : buildImage root elf bytes (rootTaken s root a owned) = .ok pages b) :
    Filled pages b.state.phys (imageOver bytes elf.programHeaders fun _ => 0) := by
  have hfree := userSlotsFree_windowSlots s.physWindowEnd
  obtain ⟨_, b₁, hcontext, hrun⟩ := EStateM.bind_eq_ok.mp hrun
  obtain ⟨pages₁, b₂, hsegments, hstack⟩ := EStateM.bind_eq_ok.mp hrun
  obtain ⟨_, A₁, -, L₁⟩ := (mapSharedKernelContext_loading hs h howned).of_ok_left hcontext
  obtain ⟨placed, A₂, -, L₂⟩ :=
    (loadSegments_lockstep hfree elf.programHeaders L₁).of_ok_left hsegments
  have F₂ := loadSegments_filled hfree elf.programHeaders L₁ (filled_new _) hsegments
  rw [show userStackBase = userStackBase / 4096 * pageSize from rfl] at hstack
  exact addStackPages_filled userStackPages L₂ (by decide)
    (fun i hlo hhi => hfree i (le_trans (by decide) hlo) (lt_of_lt_of_le hhi (by decide))) F₂ hstack

/-! ## Contents -/

/-- What a complete plan says about every segment. -/
theorem segmentPlan_complete {fileLen : Nat} {headers : List (Except ElfError ProgramHeader)}
    (h : (segmentPlan fileLen headers).2 = none) {header : ProgramHeader}
    (hmem : .ok header ∈ headers) (hkind : header.kind = ptLoad) :
    SegmentInRange header ∧ header.offset + header.fileSize ≤ fileLen := by
  induction headers with
  | nil => cases hmem
  | cons item rest ih =>
    cases item with
    | error e => simp [segmentPlan] at h
    | ok first =>
      rw [segmentPlan] at h
      split_ifs at h with hother hrange
      · rcases List.mem_cons.mp hmem with heq | hmem
        · obtain rfl := Except.ok.inj heq
          exact absurd hkind hother
        · exact ih h hmem
      · cases hfile : first.fileRange fileLen with
        | error e => simp [hfile] at h
        | ok range =>
          simp only [hfile] at h
          rcases List.mem_cons.mp hmem with heq | hmem
          · obtain rfl := Except.ok.inj heq
            exact ⟨hrange, (fileRange_eq_ok hfile).2.2⟩
          · exact ih h hmem

theorem mem_of_fileHeader {headers : List (Except ElfError ProgramHeader)} {v : Nat}
    {header : ProgramHeader} (h : fileHeader headers v = some header) :
    .ok header ∈ headers ∧ FileCovers header v := by
  obtain ⟨item, hmem, hitem⟩ := List.exists_of_findSome?_eq_some h
  cases item with
  | error e => cases hitem
  | ok first =>
    simp only [Option.ite_none_right_eq_some, Option.some.injEq] at hitem
    obtain ⟨hcov, rfl⟩ := hitem
    exact ⟨List.mem_reverse.mp hmem, hcov⟩

theorem segmentPage_of_covers {headers : List (Except ElfError ProgramHeader)}
    {header : ProgramHeader} {n : Nat} (hmem : .ok header ∈ headers)
    (h : SegmentCovers header n) : SegmentPage headers n := by
  rw [SegmentPage, coveringHeader, List.findSome?_isSome_iff]
  exact ⟨.ok header, hmem, by simp [h]⟩

/-- A program whose one segment maps the four bytes of its own magic number. -/
def magicImage : List UInt8 :=
  imageOf userImageBase [⟨ptLoad, pfR, 0, userImageBase, 0, 4, 4096⟩]

theorem magicImage_headers : (ElfImage.parse magicImage).map ElfImage.programHeaders =
    .ok [.ok ⟨ptLoad, pfR, 0, userImageBase, 0, 4, 4096⟩] := by
  decide +kernel

theorem magicImage_walks :
    loadedWalks magicImage ⟨"a", []⟩ overlapRun.state [] = some [] := by
  decide +kernel

theorem segmentOverlaps_iff {header : ProgramHeader} {n : Nat} :
    SegmentOverlaps header n ↔ SegmentCovers header n ∧ 0 < header.memorySize := by
  constructor
  · rintro ⟨hkind, v, hlo, hhi, rfl⟩
    exact ⟨⟨hkind, by omega, by omega⟩, by omega⟩
  · rintro ⟨⟨hkind, hlo, hhi⟩, hpos⟩
    exact ⟨hkind, max header.virtualAddress (n * 4096), by omega, by omega, by omega⟩

theorem mem_of_coveringHeader {headers : List (Except ElfError ProgramHeader)} {n : Nat}
    {first : ProgramHeader} (h : coveringHeader headers n = some first) :
    .ok first ∈ headers ∧ SegmentCovers first n := by
  obtain ⟨item, hmem, hitem⟩ := List.exists_of_findSome?_eq_some h
  cases item with
  | error e => cases hitem
  | ok header =>
    simp only [Option.ite_none_right_eq_some, Option.some.injEq] at hitem
    obtain ⟨hcov, rfl⟩ := hitem
    exact ⟨hmem, hcov⟩

/-- The first segment to touch a page speaks for all of them. -/
structure WritableFirst (headers : List (Except ElfError ProgramHeader)) : Prop where
  /-- No writable segment finds its page taken by one that is not. -/
  taken : ∀ n first header, coveringHeader headers n = some first → .ok header ∈ headers →
    SegmentOverlaps header n → header.flags &&& pfW ≠ 0 → first.flags &&& pfW ≠ 0
  /-- An empty segment opens a page for writing only if another one does, too. -/
  empty : ∀ n first, coveringHeader headers n = some first → first.memorySize = 0 →
    first.flags &&& pfW ≠ 0 → WritableOverlap headers n

/-- A page of the image has the flag of the first segment that touches it. -/
theorem LoadedSpace.writable_iff {s s' : MemoryState} {p : LoadedUserProgram} {fileLen : Nat}
    {headers : List (Except ElfError ProgramHeader)} {placed : List PlacedPage}
    {A₁ A : AddressMap} {tab : Shape} (L : LoadedSpace s p s' fileLen headers placed A₁ A tab)
    {v : Nat} {first : ProgramHeader} (hfirst : coveringHeader headers (v / 4096) = some first) :
    (∃ t, walk s'.phys p.addressSpace.rootPaddr v = some t ∧ t.writable = true) ↔
      first.flags &&& pfW ≠ 0 := by
  have himage : ImagePage headers (v / 4096) := .inl (by rw [hfirst]; rfl)
  have hstack : ¬ StackPage (v / 4096) := fun h => by
    have hpage := (L.lt_of_covered hfirst).2
    have hbase := h.1
    omega
  obtain ⟨q, hq⟩ := Option.isSome_iff_exists.mp ((L.lookup_isSome _).mpr himage)
  obtain ⟨t, hwalk, -, -, hwrite⟩ := L.walk_image hq
  have hflag : t.writable = true ↔ first.flags &&& pfW ≠ 0 := by
    rw [hwrite, WritablePage, hfirst]
    simp [hstack]
  rw [← hflag]
  constructor
  · rintro ⟨t', hwalk', hw⟩
    rw [hwalk] at hwalk'
    obtain rfl := Option.some.inj hwalk'
    exact hw
  · intro hw
    exact ⟨t, hwalk, hw⟩

/-- Two segments on one page, the writable one second. -/
def sharedPage : List UInt8 :=
  imageOf userImageBase [⟨ptLoad, pfR, 0, 0x400000, 0, 0, 1⟩,
    ⟨ptLoad, pfR ||| pfW, 0, 0x400800, 0, 0, 1⟩]

theorem sharedPage_headers : (ElfImage.parse sharedPage).map ElfImage.programHeaders =
    .ok [.ok ⟨ptLoad, pfR, 0, 0x400000, 0, 0, 1⟩,
      .ok ⟨ptLoad, pfR ||| pfW, 0, 0x400800, 0, 0, 1⟩] := by
  decide +kernel

theorem sharedPage_walks :
    loadedWalks sharedPage ⟨"a", []⟩ overlapRun.state [0x400800] =
      some [some ⟨0x1008800, false, true⟩] := by
  decide +kernel

end Lazers.Memory
