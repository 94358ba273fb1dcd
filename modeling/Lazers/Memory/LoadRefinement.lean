import Lazers.Memory.Context
import Lazers.Memory.LoadFrames
import Lazers.Memory.LoadPlan

/-!
# A load follows its plan

`load_user_program` runs in lockstep with the abstract load: map the kernel
context, then place the pages the headers ask for, then the stack. `Loading`
is the relation in between. It adds to `Rep` that the page map of the loader
lists the placed pages, and that their frames are held by the image, so that
copying file contents and arguments disturbs no table.
-/

namespace Lazers.Memory

open PageTable AddressMap Elf

/-! ## The page map -/

/-- The page map's entry for a placed page. -/
def PlacedPage.entry (p : PlacedPage) : UserPage :=
  { virtPage := p.page * pageSize, physPage := p.frame }

/-- The page map lists the placed pages in order. -/
def UserPageMap.Lists (pages : UserPageMap) (placed : List PlacedPage) : Prop :=
  pages.pages.toList = placed.map (fun p => some p.entry) ++
    List.replicate (maxSegmentPages - placed.length) none

namespace UserPageMap

variable {pages : UserPageMap} {placed : List PlacedPage}

theorem lists_new : new.Lists [] := by
  simp [Lists, new]

theorem Lists.length_le (h : pages.Lists placed) : placed.length ≤ maxSegmentPages := by
  have hlen := congrArg List.length h
  simp only [Vector.length_toList, List.length_append, List.length_map,
    List.length_replicate] at hlen
  omega

theorem Lists.find_eq (h : pages.Lists placed) (n : Nat) :
    pages.find (n * pageSize) = (lookupPlaced placed n).map PlacedPage.entry := by
  have hnone : ∀ (f : Option UserPage → Option UserPage) (k : Nat), f none = none →
      (List.replicate k none).findSome? f = none := by
    intro f k hf
    rw [List.findSome?_eq_none_iff]
    intro x hx
    rw [List.eq_of_mem_replicate hx, hf]
  rw [find, h, List.findSome?_append, hnone _ _ rfl, Option.or_none, lookupPlaced]
  clear h
  induction placed with
  | nil => rfl
  | cons p rest ih =>
    rw [List.map_cons, List.findSome?_cons, List.find?_cons]
    by_cases hp : p.page = n
    · simp [hp, PlacedPage.entry]
    · have hne : p.page * pageSize ≠ n * pageSize := fun heq =>
        hp (Nat.mul_right_cancel (by decide) heq)
      simp only [PlacedPage.entry, hne, hp, if_false, decide_false]
      exact ih

theorem Lists.contains_eq (h : pages.Lists placed) (n : Nat) :
    pages.contains (n * pageSize) = decide (n ∈ placed.map PlacedPage.page) := by
  rw [contains, h.find_eq, Option.isSome_map, Bool.eq_iff_iff, decide_eq_true_eq,
    Option.isSome_iff_ne_none, ne_eq, lookupPlaced_eq_none, not_not]

/-- A page the map knows was placed. -/
theorem Lists.mem_of_find (h : pages.Lists placed) {virtPage : Nat} {page : UserPage}
    (hfind : pages.find virtPage = some page) : ∃ p ∈ placed, page = p.entry := by
  rw [find, h, List.findSome?_eq_some_iff] at hfind
  obtain ⟨l₁, x, l₂, hsplit, hx, -⟩ := hfind
  cases x with
  | none => cases hx
  | some y =>
    simp only [Option.ite_none_right_eq_some, Option.some.injEq] at hx
    obtain ⟨-, rfl⟩ := hx
    have hmem : some y ∈ placed.map (fun p => some p.entry) ++
        List.replicate (maxSegmentPages - placed.length) none := by
      rw [hsplit]
      simp
    rcases List.mem_append.mp hmem with hmem | hmem
    · obtain ⟨p, hp, heq⟩ := List.mem_map.mp hmem
      exact ⟨p, hp, (Option.some.inj heq).symm⟩
    · cases List.eq_of_mem_replicate hmem

/-- A full page map takes no page. -/
theorem Lists.insert_full (h : pages.Lists placed) (hfull : maxSegmentPages ≤ placed.length)
    (virtPage physPage : Nat) :
    pages.insert virtPage physPage = .error .segmentOverlapCapacityExceeded := by
  have hnone : pages.pages.toList.findIdx? Option.isNone = none := by
    rw [h, List.findIdx?_eq_none_iff, Nat.sub_eq_zero_of_le hfull]
    intro x hx
    obtain ⟨p, -, rfl⟩ := List.mem_map.mp (by simpa using hx)
    rfl
  rw [insert, hnone]

/-- A page map with room lists the new page last. -/
theorem Lists.insert_room (h : pages.Lists placed) (hroom : placed.length < maxSegmentPages)
    (p : PlacedPage) :
    ∃ pages', pages.insert (p.page * pageSize) p.frame = .ok pages' ∧
      pages'.Lists (placed ++ [p]) := by
  obtain ⟨k, hk⟩ : ∃ k, maxSegmentPages - placed.length = k + 1 :=
    ⟨maxSegmentPages - placed.length - 1, by omega⟩
  have hidx : pages.pages.toList.findIdx? Option.isNone = some placed.length := by
    rw [h, hk, List.findIdx?_append]
    have hleft : (placed.map fun p => some p.entry).findIdx? Option.isNone = none := by
      rw [List.findIdx?_eq_none_iff]
      intro x hx
      obtain ⟨q, -, rfl⟩ := List.mem_map.mp hx
      rfl
    rw [hleft, List.replicate_succ, List.findIdx?_cons]
    simp
  refine ⟨_, by rw [insert, hidx], ?_⟩
  rw [Lists, Vector.toList_setIfInBounds, h, hk]
  rw [List.set_append_right _ _ (by simp)]
  have hlen : maxSegmentPages - (placed ++ [p]).length = k := by
    rw [List.length_append, List.length_singleton]
    omega
  rw [hlen, List.replicate_succ]
  simp [PlacedPage.entry]

end UserPageMap

/-! ## The relation -/

/-- A load in progress: `placed` are the pages placed so far. Their frames are
held by the image, no huge entry stands outside `slots`, and the page map lists
them. -/
structure Loading (o : Origin) (root : Nat) (slots : Nat → Option Nat) (pages : UserPageMap)
    (placed : List PlacedPage) (b : BuilderState) (A : AddressMap) : Prop where
  related : Related o root (frameSet (placed.map PlacedPage.frame)) b A
  taken : frameSet (placed.map PlacedPage.frame) ⊆ o.free
  lists : pages.Lists placed
  slot : A.slot = slots

/-- The relation a failure leaves. -/
def Stopped (o : Origin) (root : Nat) (b : BuilderState) (A : AddressMap) : Prop :=
  ∃ held, Related o root held b A

section

variable {o : Origin} {root : Nat} {slots : Nat → Option Nat} {pages : UserPageMap}
  {placed : List PlacedPage} {b : BuilderState} {A : AddressMap}

theorem Loading.stopped (L : Loading o root slots pages placed b A) : Stopped o root b A :=
  ⟨_, L.related⟩

theorem block_subset_frameSet {f : Nat} {l : List Nat} (h : f ∈ l) : block f 1 ⊆ frameSet l :=
  fun _ hx => ⟨f, h, hx⟩

/-! ## Copying -/

/-- A store into the frame of a placed page. -/
theorem Loading.write (L : Loading o root slots pages placed b A) {p : PlacedPage}
    (hp : p ∈ placed) {offset : Nat} {bytes : List UInt8} (h : bytes.length ≤ 4096 - offset) :
    Loading o root slots pages placed
      { b with state.phys := b.state.phys.write (p.frame + offset) bytes } A := by
  obtain ⟨tab, R⟩ := L.related
  refine ⟨⟨tab, R.store_held (ByteMemory.writesOnly_write _ fun x hx => ?_) fun x hx => ?_⟩,
    L.taken, L.lists, L.slot⟩
  · refine block_subset_frameSet (List.mem_map_of_mem hp) ?_
    rw [Set.mem_Ico] at hx
    rw [mem_block]
    omega
  · exact .inr ⟨L.taken hx, Set.disjoint_left.mp R.reserved hx⟩

/-- Copying keeps the relation, whether all pages are there or not. -/
theorem copyFrom_keeps (rounds address : Nat) (remaining : List UInt8) :
    Triple (fun b => Loading o root slots pages placed b A)
      (pages.copyFrom rounds address remaining)
      (fun _ b => Loading o root slots pages placed b A)
      (fun _ b => Loading o root slots pages placed b A) := by
  induction rounds generalizing address remaining with
  | zero => exact Triple.pure fun _ h => h
  | succ rounds ih =>
    rw [UserPageMap.copyFrom]
    split_ifs
    · exact Triple.pure fun _ h => h
    · simp only
      split
      · rename_i page hfind
        refine Triple.bind (Triple.modify fun b L => ?_) fun _ => ih _ _
        obtain ⟨p, hp, rfl⟩ := L.lists.mem_of_find hfind
        refine L.write hp ?_
        rw [List.length_take]
        exact (min_le_left _ _).trans (min_le_right _ _)
      · exact Triple.throw fun _ h => h

theorem copyInto_keeps (address : Nat) (bytes : List UInt8) :
    Triple (fun b => Loading o root slots pages placed b A) (pages.copyInto address bytes)
      (fun _ b => Loading o root slots pages placed b A)
      (fun _ b => Loading o root slots pages placed b A) := copyFrom_keeps _ _ _

/-- Copying to pages that are all there succeeds. -/
theorem copyFrom_ok (hlists : pages.Lists placed) {rounds address : Nat} {remaining : List UInt8}
    (hrounds : remaining.length ≤ rounds) (hlimit : address + remaining.length < u64Limit)
    (hpages : ∀ n, address / 4096 ≤ n → n < (address + remaining.length + 4095) / 4096 →
      n ∈ placed.map PlacedPage.page) (b : BuilderState) :
    ∃ b', pages.copyFrom rounds address remaining b = .ok () b' := by
  induction rounds generalizing address remaining b with
  | zero => exact ⟨b, rfl⟩
  | succ rounds ih =>
    rw [UserPageMap.copyFrom]
    split_ifs with hempty
    · exact ⟨b, rfl⟩
    · have hpos : 0 < remaining.length := by
        rw [List.length_pos_iff]
        simpa using hempty
      have hdown : alignDown address pageSize = address / 4096 * pageSize :=
        alignDown_page (by omega)
      obtain ⟨p, hp⟩ : ∃ p, lookupPlaced placed (address / 4096) = some p := by
        refine Option.ne_none_iff_exists'.mp fun hnone => lookupPlaced_eq_none.mp hnone ?_
        exact hpages _ le_rfl (by omega)
      simp only [hdown, hlists.find_eq, hp, Option.map_some]
      have hoffset : address - address / 4096 * pageSize = address % 4096 := by
        rw [show pageSize = 4096 from rfl]
        omega
      rw [hoffset, show pageSize = 4096 from rfl]
      have hwrap : wrap64 (address + min remaining.length (4096 - address % 4096)) =
          address + min remaining.length (4096 - address % 4096) := wrap64_of_lt (by omega)
      rw [hwrap]
      refine (ih ?_ ?_ ?_ _).imp fun b' h => EStateM.bind_eq_ok.mpr ⟨_, _, rfl, h⟩
      · rw [List.length_drop]
        omega
      · rw [List.length_drop]
        omega
      · intro n hlo hhi
        rw [List.length_drop] at hhi
        exact hpages n (by omega) (by omega)

/-! ## Pages -/

/-- **One user page.** -/
theorem addUserPage_lockstep {n flags : Nat} (L : Loading o root slots pages placed b A)
    (hn : n < 2 ^ 36) (hclear : slots (n / 512) = none) (hpresent : flags.testBit 0 = true)
    (hflags : flags < 4096) :
    Lockstep (fun pages' placed' b' A' => Loading o root slots pages' placed' b' A')
      (Stopped o root) (addUserPage root (n * pageSize) flags pages b)
      (placePage { page := n, flags } placed A) := by
  obtain ⟨tab, R⟩ := L.related
  refine ((allocatePage_lockstep R).mono (fun _ _ _ _ h => h) fun _ _ h => ⟨_, h⟩).bind ?_
  rintro c _ b₁ A₁ ⟨rfl, R₁, F₁, hA₁⟩
  have hslot₁ : A₁.slot = slots := by rw [hA₁, L.slot]
  refine ((map4k_lockstep R₁ hn (by rw [hslot₁, hclear]) hpresent F₁.aligned
    (F₁.low.trans (by decide)) hflags).mono (fun _ _ _ _ h => h) fun _ _ h => ⟨_, h⟩).bind ?_
  rintro - - b₂ A₂ ⟨⟨tab₂, R₂⟩, hslot₂, -⟩
  by_cases hfull : maxSegmentPages ≤ placed.length
  · rw [L.lists.insert_full hfull, if_pos hfull]
    exact .error ⟨_, _, R₂⟩
  · obtain ⟨pages', hinsert, hlists⟩ :=
      L.lists.insert_room (Nat.lt_of_not_le hfull) { page := n, frame := c, flags }
    rw [hinsert, if_neg hfull]
    refine ((pushOwned_lockstep R₂ c).mono (fun _ _ _ _ h => h) fun _ _ h => ⟨_, h⟩).bind ?_
    rintro - - b₃ A₃ ⟨R₃, -, hA₃⟩
    have hheld :
        frameSet ((placed ++ [(⟨n, c, flags⟩ : PlacedPage)]).map PlacedPage.frame) =
          frameSet (placed.map PlacedPage.frame) ∪ block c 1 := by
      rw [List.map_append, frameSet_append, List.map_singleton, frameSet_cons,
        frameSet_eq_empty.mpr rfl, Set.union_empty]
    refine .ok ⟨⟨_, hheld ▸ R₃⟩, ?_, hlists, by rw [hA₃, hslot₂, hslot₁]⟩
    rw [hheld]
    exact Set.union_subset L.taken fun x hx => (F₁.taken hx).1

/-- The page loop of a segment. -/
theorem addSegmentPages_lockstep {flags : Nat} (hpresent : flags.testBit 0 = true)
    (hflags : flags < 4096) (rounds : Nat) {n : Nat} (L : Loading o root slots pages placed b A)
    (hn : n + rounds ≤ 2 ^ 36) (hclear : ∀ i, n ≤ i → i < n + rounds → slots (i / 512) = none) :
    Lockstep (fun pages' placed' b' A' => Loading o root slots pages' placed' b' A')
      (Stopped o root) (addSegmentPages root flags rounds (n * pageSize) pages b)
      (placeAll ((List.range' n rounds).map fun page => { page, flags }) placed A) := by
  induction rounds generalizing n pages placed b A with
  | zero => exact .ok L
  | succ rounds ih =>
    have hnext : n * pageSize + pageSize = (n + 1) * pageSize := (Nat.succ_mul n pageSize).symm
    have hrest : ∀ {pages' placed' b' A'}, Loading o root slots pages' placed' b' A' →
        Lockstep (fun pages' placed' b' A' => Loading o root slots pages' placed' b' A')
          (Stopped o root) (addSegmentPages root flags rounds (n * pageSize + pageSize) pages' b')
          (placeAll ((List.range' (n + 1) rounds).map fun page => { page, flags }) placed' A') := by
      intro pages' placed' b' A' L'
      rw [hnext]
      exact ih L' (by omega) fun i hlo hhi => hclear i (by omega) (by omega)
    rw [addSegmentPages, L.lists.contains_eq, List.range'_succ, List.map_cons, placeAll]
    by_cases hmem : n ∈ placed.map PlacedPage.page
    · simp only [hmem, decide_true, if_true, pure_bind]
      exact hrest L
    · simp only [hmem, decide_false, if_false, Bool.false_eq_true]
      refine (addUserPage_lockstep L (by omega) (hclear n le_rfl (by omega)) hpresent
        hflags).bind fun _ _ _ _ L' => hrest L'

/-- The stack loop, which does not look for pages that are there already. -/
theorem addStackPages_lockstep (rounds : Nat) {n : Nat} (L : Loading o root slots pages placed b A)
    (hn : n + rounds ≤ 2 ^ 36) (hclear : ∀ i, n ≤ i → i < n + rounds → slots (i / 512) = none)
    (hnew : ∀ i ∈ placed.map PlacedPage.page, i < n) :
    Lockstep (fun pages' placed' b' A' => Loading o root slots pages' placed' b' A')
      (Stopped o root) (addStackPages root rounds (n * pageSize) pages b)
      (placeAll ((List.range' n rounds).map fun page =>
        { page, flags := pagePresent ||| pageWritable ||| pageUser }) placed A) := by
  induction rounds generalizing n pages placed b A with
  | zero => exact .ok L
  | succ rounds ih =>
    have hnext : n * pageSize + pageSize = (n + 1) * pageSize := (Nat.succ_mul n pageSize).symm
    have hmem : n ∉ placed.map PlacedPage.page := fun h => absurd (hnew n h) (Nat.lt_irrefl n)
    rw [addStackPages, List.range'_succ, List.map_cons, placeAll, if_neg hmem, hnext]
    refine (addUserPage_lockstep L (by omega) (hclear n le_rfl (by omega)) (by decide)
      (by decide)).right_eq.bind ?_
    rintro pages' placed' b' A' ⟨L', hplace⟩
    refine ih L' (by omega) (fun i hlo hhi => hclear i (by omega) (by omega)) fun i hi => ?_
    obtain ⟨f, -, -, -, -, -, -, rfl⟩ := placePage_eq_ok hplace
    simp only [List.map_append, List.map_cons, List.map_nil, List.mem_append,
      List.mem_singleton] at hi
    rcases hi with hi | rfl
    · exact Nat.lt_succ_of_lt (hnew i hi)
    · exact Nat.lt_succ_self _

/-! ## Segments -/

theorem segmentFlags_bounds (header : ProgramHeader) :
    (segmentFlags header).testBit 0 = true ∧ segmentFlags header < 4096 := by
  unfold segmentFlags
  split_ifs <;> decide

theorem fileRange_length {header : ProgramHeader} {bytes : List UInt8} {start stop : Nat}
    (h : header.fileRange bytes.length = .ok (start, stop)) :
    ((bytes.drop start).take (stop - start)).length ≤ header.fileSize := by
  unfold ProgramHeader.fileRange at h
  split at h
  · cases h
  · rename_i stop' hadd
    obtain ⟨-, rfl⟩ := checkedAdd_eq_some.mp hadd
    split_ifs at h
    cases h
    rw [List.length_take]
    omega

/-- The slots of user pages are free of huge entries. -/
def UserSlotsFree (slots : Nat → Option Nat) : Prop :=
  ∀ i, userImageBase / 4096 ≤ i → i < userStackTop / 4096 → slots (i / 512) = none

theorem SegmentInRange.bounds {header : ProgramHeader} (h : SegmentInRange header) :
    0x400000 ≤ header.virtualAddress ∧ header.virtualAddress + header.memorySize ≤ 0x7f0000 :=
  ⟨h.1, h.2.1⟩

/-- The checks of `load_segment` are one condition. -/
theorem loadSegment_eq (root : Nat) (bytes : List UInt8) (header : ProgramHeader)
    (pages : UserPageMap) :
    loadSegment root bytes header pages =
      if SegmentInRange header then do
        let pages ← addSegmentPages root (segmentFlags header)
          ((header.virtualAddress + header.memorySize + 4095) / 4096 - header.virtualAddress / 4096)
          (header.virtualAddress / 4096 * pageSize) pages
        let (start, stop) ← liftExcept ((header.fileRange bytes.length).mapError .elf)
        pages.copyInto header.virtualAddress ((bytes.drop start).take (stop - start))
        return pages
      else throw .userImageOutOfRange := by
  unfold loadSegment
  by_cases hrange : SegmentInRange header
  · have hguard : ¬ (header.virtualAddress < userImageBase ∨
        header.virtualAddress + header.memorySize > userStackBase ∨
        header.memorySize < header.fileSize) := by
      obtain ⟨h₁, h₂, h₃⟩ := hrange
      omega
    obtain ⟨hlo, hhi⟩ := hrange.bounds
    have hlimit : header.virtualAddress + header.memorySize + 4096 ≤ u64Limit := by
      rw [u64Limit]
      omega
    have hadd : checkedAdd header.virtualAddress header.memorySize =
        some (header.virtualAddress + header.memorySize) :=
      checkedAdd_eq_some.mpr ⟨by omega, rfl⟩
    have hrounds : (alignUp (header.virtualAddress + header.memorySize) pageSize -
        header.virtualAddress / 4096 * pageSize) / pageSize =
        (header.virtualAddress + header.memorySize + 4095) / 4096 -
          header.virtualAddress / 4096 := by
      rw [alignUp_page hlimit, show pageSize = 4096 from rfl, ← Nat.sub_mul]
      exact Nat.mul_div_cancel _ (by decide)
    have hdown : alignDown header.virtualAddress pageSize =
        header.virtualAddress / 4096 * pageSize := alignDown_page (by omega)
    simp only [hadd, hguard, if_false, if_pos hrange, hrounds, hdown]
  · rw [if_neg hrange]
    cases hadd : checkedAdd header.virtualAddress header.memorySize with
    | none => rfl
    | some segmentEnd =>
      obtain ⟨-, rfl⟩ := checkedAdd_eq_some.mp hadd
      have hguard : header.virtualAddress < userImageBase ∨
          header.virtualAddress + header.memorySize > userStackBase ∨
          header.memorySize < header.fileSize := by
        by_contra h
        refine hrange ⟨?_, ?_, ?_⟩ <;> omega
      simp only [if_pos hguard]
      rfl

/-- **One segment.** -/
theorem loadSegment_lockstep {bytes : List UInt8} {header : ProgramHeader}
    (hslots : UserSlotsFree slots) (L : Loading o root slots pages placed b A) :
    Lockstep (fun pages' placed' b' A' => Loading o root slots pages' placed' b' A')
      (Stopped o root) (loadSegment root bytes header pages b)
      ((if SegmentInRange header then
          placeAll (segmentRequests header) placed >>= verdict
            (match header.fileRange bytes.length with
              | .error e => some (.elf e)
              | .ok _ => none)
        else throw .userImageOutOfRange : Edit (List PlacedPage)) A) := by
  rw [loadSegment_eq]
  by_cases hrange : SegmentInRange header
  · rw [if_pos hrange, if_pos hrange]
    obtain ⟨hlo, hhi⟩ := hrange.bounds
    obtain ⟨hbit, hflags⟩ := segmentFlags_bounds header
    refine (addSegmentPages_lockstep hbit hflags _ L (by omega) fun i h h' => ?_).right_eq.bind ?_
    · refine hslots i ?_ ?_ <;> simp only [userImageBase, userStackTop] <;> omega
    · rintro pages' placed' b' A' ⟨L', hplace⟩
      cases hfile : header.fileRange bytes.length with
      | error e => exact .error L'.stopped
      | ok range =>
        obtain ⟨start, stop⟩ := range
        -- the file part is no longer than the pages just placed
        have hlen := fileRange_length hfile
        have hsize := hrange.2.2
        have hpages : ∀ n, header.virtualAddress / 4096 ≤ n →
            n < (header.virtualAddress + ((bytes.drop start).take (stop - start)).length + 4095) /
              4096 → n ∈ placed'.map PlacedPage.page := by
          intro n h h'
          refine (mem_of_placeAll hplace n).mpr (.inr ⟨⟨n, segmentFlags header⟩, ?_, rfl⟩)
          exact List.mem_map.mpr ⟨n, List.mem_range'_1.mpr ⟨h, by omega⟩, rfl⟩
        have hlimit : header.virtualAddress + ((bytes.drop start).take (stop - start)).length <
            u64Limit := by
          rw [u64Limit]
          omega
        obtain ⟨b'', hcopy⟩ := copyFrom_ok L'.lists le_rfl hlimit hpages b'
        have hrun : (pages'.copyInto header.virtualAddress
            ((bytes.drop start).take (stop - start)) >>= fun _ =>
            (pure pages' : Builder UserPageMap)) b' = .ok pages' b'' :=
          EStateM.bind_eq_ok.mpr ⟨(), b'', hcopy, rfl⟩
        exact .of_ok hrun rfl ((copyInto_keeps _ _).ok L' hcopy)
  · rw [if_neg hrange, if_neg hrange]
    exact .error L.stopped

/-- The steps of one header, abstractly. -/
theorem placeSegment_eq {fileLen : Nat} {header : ProgramHeader}
    {rest : List (Except ElfError ProgramHeader)} (hkind : header.kind = ptLoad) :
    (placeAll (segmentPlan fileLen (.ok header :: rest)).1 placed >>=
        verdict (segmentPlan fileLen (.ok header :: rest)).2) =
      (if SegmentInRange header then
          placeAll (segmentRequests header) placed >>= verdict
            (match header.fileRange fileLen with
              | .error e => some (.elf e)
              | .ok _ => none)
        else throw .userImageOutOfRange : Edit (List PlacedPage)) >>= fun placed' =>
        placeAll (segmentPlan fileLen rest).1 placed' >>= verdict (segmentPlan fileLen rest).2 := by
  rw [segmentPlan, if_neg (not_not_intro hkind)]
  by_cases hrange : SegmentInRange header
  · rw [if_pos hrange, if_pos hrange]
    cases header.fileRange fileLen with
    | error e =>
      rw [bind_assoc]
      rfl
    | ok range =>
      simp only [placeAll_append, bind_assoc]
      rfl
  · rw [if_neg hrange, if_neg hrange]
    rfl

/-- **The loop over the headers.** -/
theorem loadSegments_lockstep {bytes : List UInt8} (hslots : UserSlotsFree slots)
    (headers : List (Except ElfError ProgramHeader)) (L : Loading o root slots pages placed b A) :
    Lockstep (fun pages' placed' b' A' => Loading o root slots pages' placed' b' A')
      (Stopped o root) (loadSegments root bytes headers pages b)
      ((placeAll (segmentPlan bytes.length headers).1 placed >>=
        verdict (segmentPlan bytes.length headers).2) A) := by
  induction headers generalizing pages placed b A with
  | nil => exact .ok L
  | cons header rest ih =>
    cases header with
    | error e => exact .error L.stopped
    | ok header =>
      rw [loadSegments]
      by_cases hkind : header.kind = ptLoad
      · rw [placeSegment_eq hkind, if_neg (not_not_intro hkind)]
        exact (loadSegment_lockstep hslots L).bind fun _ _ _ _ L' => ih L'
      · rw [segmentPlan, if_pos hkind, if_pos hkind, pure_bind]
        exact ih L

/-! ## Arguments -/

theorem writeArguments_keeps (args : List (List UInt8)) (cursor : Nat) :
    Triple (fun b => Loading o root slots pages placed b A) (writeArguments pages args cursor)
      (fun _ b => Loading o root slots pages placed b A)
      (fun _ b => Loading o root slots pages placed b A) := by
  induction args generalizing cursor with
  | nil => exact Triple.pure fun _ h => h
  | cons arg rest ih =>
    refine Triple.bind (copyInto_keeps _ _) fun _ => Triple.bind (copyInto_keeps _ _) fun _ => ?_
    exact Triple.bind (ih _) fun _ => Triple.pure fun _ h => h

/-- Writing the startup block touches the image's frames only. -/
theorem writeStartupArguments_keeps (startup : ProgramStartup) :
    Triple (fun b => Loading o root slots pages placed b A) (writeStartupArguments pages startup)
      (fun _ b => Loading o root slots pages placed b A)
      (fun _ b => Loading o root slots pages placed b A) := by
  refine Triple.bind (Q := fun _ b => Loading o root slots pages placed b A) ?_ fun layout => ?_
  · cases prepareStartupLayout startup with
    | ok layout => exact Triple.pure fun _ h => h
    | error e => exact Triple.throw fun _ h => h
  · refine Triple.bind (writeArguments_keeps _ _) fun _ => ?_
    refine Triple.bind (copyInto_keeps _ _) fun _ => ?_
    exact Triple.bind (copyInto_keeps _ _) fun _ => Triple.pure fun _ h => h

end

/-! ## The whole load -/

/-- The part of `load_user_program` between the new root and the arguments. -/
def buildImage (root : Nat) (elf : ElfImage) (bytes : List UInt8) : Builder UserPageMap := do
  mapSharedKernelContext root
  let pages ← loadSegments root bytes elf.programHeaders UserPageMap.new
  addStackPages root userStackPages userStackBase pages

/-- The abstract load: the context, the headers' pages, the stack. -/
def AddressMap.loadImage (s : MemoryState) (fileLen : Nat)
    (headers : List (Except ElfError ProgramHeader)) : Edit (List PlacedPage) := do
  mapContext s.physWindowEnd s.contextRanges
  placeImage fileLen headers

/-- The state after the new root is taken and recorded. -/
def rootTaken (s : MemoryState) (root : Nat) (a : PhysicalAllocator) (owned : OwnedPages) :
    BuilderState where
  state := { s with allocator := a, phys := s.phys.zero root pageSize }
  ownedPages := some owned

theorem buildUserSpace_exhausted {s : MemoryState} (h : s.allocator.allocatePage = none)
    (elf : ElfImage) (bytes : List UInt8) (startup : ProgramStartup) :
    buildUserSpace elf bytes startup { state := s, ownedPages := some OwnedPages.empty } =
      .error .allocatorExhausted { state := s, ownedPages := some OwnedPages.empty } := by
  refine EStateM.bind_eq_error.mpr (.inl ?_)
  simp [Builder.withStateMut, MemoryState.allocatePage, h]

/-- Taking the root, building the image, writing the arguments. -/
theorem buildUserSpace_eq {s : MemoryState} {root : Nat} {a : PhysicalAllocator}
    (h : s.allocator.allocatePage = some (root, a)) (elf : ElfImage) (bytes : List UInt8)
    (startup : ProgramStartup) :
    ∃ owned, OwnedPages.list owned = [root] ∧
      buildUserSpace elf bytes startup { state := s, ownedPages := some OwnedPages.empty } =
        (buildImage root elf bytes >>= fun pages => do
          let userStackTop ← writeStartupArguments pages startup
          return (root, userStackTop) : Builder (Nat × Nat)) (rootTaken s root a owned) := by
  rcases OwnedPages.empty.push_cases root with ⟨-, hfull⟩ | ⟨owned, hpush, -, hlist⟩
  · exact absurd hfull (by decide)
  · refine ⟨owned, by simpa using hlist, ?_⟩
    have hroot : Builder.withStateMut MemoryState.allocatePage
        { state := s, ownedPages := some OwnedPages.empty } =
        .ok root (rootTaken s root a OwnedPages.empty) := by
      simp [Builder.withStateMut, MemoryState.allocatePage, h, rootTaken]
    have hown : Builder.pushOwned root (rootTaken s root a OwnedPages.empty) =
        .ok () (rootTaken s root a owned) := by
      simp [Builder.pushOwned, rootTaken, hpush]
    unfold buildUserSpace buildImage
    simp only [bind_assoc]
    rw [EStateM.bind_of_ok hroot, EStateM.bind_of_ok hown]

theorem ContextOk.rootTaken {s : MemoryState} (hs : ContextOk s) {root : Nat}
    {a : PhysicalAllocator} (h : s.allocator.allocatePage = some (root, a)) (owned : OwnedPages) :
    ContextOk (rootTaken s root a owned).state := by
  refine ⟨(PhysicalAllocator.allocatePage_spec hs.valid h).1, fun f hf => hs.low f ?_,
    hs.windowEnd_le, hs.windowEnd_mod, fun r hr => ?_⟩
  · rw [PhysicalAllocator.frames_allocatePage hs.valid h]
    exact List.mem_cons_of_mem _ hf
  · obtain ⟨h₁, h₂, h₃⟩ := hs.ranges r hr
    exact ⟨h₁, h₂, h₃⟩

theorem userSlotsFree_windowSlots (windowEnd : Nat) : UserSlotsFree (windowSlots windowEnd) := by
  intro i hlo hhi
  refine windowSlots_eq_none (.inl ?_)
  simp only [userImageBase, userStackTop, physWindowStart] at hlo hhi ⊢
  omega

/-- The context is there, and no page of the program yet. -/
theorem mapSharedKernelContext_loading {s : MemoryState} (hs : ContextOk s) {root : Nat}
    {a : PhysicalAllocator} (h : s.allocator.allocatePage = some (root, a)) {owned : OwnedPages}
    (howned : owned.list = [root]) :
    Lockstep
      (fun _ _ b A => Loading ⟨s.phys, ∅, s.free⟩ root (windowSlots s.physWindowEnd)
        UserPageMap.new [] b A)
      (Stopped ⟨s.phys, ∅, s.free⟩ root)
      (mapSharedKernelContext root (rootTaken s root a owned))
      (mapContext s.physWindowEnd s.contextRanges (.blank a.frames (some [root]))) := by
  have R := rep_root hs.valid hs.low h (some owned)
  rw [Option.map_some, howned] at R
  have hnone : frameSet (([] : List PlacedPage).map PlacedPage.frame) = ∅ :=
    frameSet_eq_empty.mpr rfl
  refine (mapSharedKernelContext_lockstep (hs.rootTaken h owned) R.related rfl rfl).mono
    (fun _ _ b A hctx => ?_) fun _ _ h => ⟨_, h⟩
  refine ⟨?_, ?_, UserPageMap.lists_new, hctx.2⟩
  · rw [hnone]
    exact hctx.1
  · rw [hnone]
    exact Set.empty_subset _

/-- **Building the image follows the abstract load.** -/
theorem buildImage_lockstep {s : MemoryState} (hs : ContextOk s) {root : Nat}
    {a : PhysicalAllocator} (h : s.allocator.allocatePage = some (root, a)) {owned : OwnedPages}
    (howned : owned.list = [root]) (elf : ElfImage) (bytes : List UInt8) :
    Lockstep
      (fun pages placed b A => Loading ⟨s.phys, ∅, s.free⟩ root (windowSlots s.physWindowEnd) pages
        placed b A)
      (Stopped ⟨s.phys, ∅, s.free⟩ root)
      (buildImage root elf bytes (rootTaken s root a owned))
      (loadImage s bytes.length elf.programHeaders (.blank a.frames (some [root]))) := by
  refine (mapSharedKernelContext_loading hs h howned).bind ?_
  rintro - - b₁ A₁ L
  have hfree := userSlotsFree_windowSlots s.physWindowEnd
  refine (loadSegments_lockstep hfree elf.programHeaders L).right_eq.bind ?_
  rintro pages placed b₂ A₂ ⟨L₂, hplaced⟩
  have hbelow : ∀ i ∈ placed.map PlacedPage.page, i < userStackBase / 4096 := by
    intro i hi
    obtain ⟨placed₁, A', hall, hverdict⟩ := EStateM.bind_eq_ok.mp hplaced
    cases herr : (segmentPlan bytes.length elf.programHeaders).2 with
    | some e =>
      rw [herr] at hverdict
      cases hverdict
    | none =>
      rw [herr] at hverdict
      cases hverdict
      rcases (mem_of_placeAll hall i).mp hi with hi | ⟨r, hr, rfl⟩
      · cases hi
      · exact (page_of_mem_segmentPlan hr).2
  have hstack := addStackPages_lockstep userStackPages L₂ (by decide)
    (fun i hlo hhi => hfree i (le_trans (by decide) hlo) (lt_of_lt_of_le hhi (by decide))) hbelow
  rw [show userStackBase / 4096 * pageSize = userStackBase from rfl] at hstack
  exact hstack

end Lazers.Memory
