import Lazers.Memory.Allocator
import Mathlib.Logic.Relation

/-!
# The allocator refines a set of free addresses

`PhysicalAllocator.free` is the set the region table stands for and
`PhysicalAllocator.Valid` the representation invariant: a tidy array whose live
regions are separated, page-aligned and start above zero. Each operation has one
spec lemma in terms of the set, and `AllocatorRun` strings them together: a run
records the abstract set next to the array, and the blocks handed out and not
yet returned.
-/

namespace Lazers.Memory

open RangeList

/-- The addresses of `count` pages from `start` on. -/
def block (start count : Nat) : Set Nat := Set.Ico start (start + count * pageSize)

theorem mem_block {start count x : Nat} :
    x ∈ block start count ↔ start ≤ x ∧ x < start + count * 4096 := Iff.rfl

namespace PhysicalAllocator

/-- The free addresses. -/
def free (a : PhysicalAllocator) : Set Nat := carrier a.live

/-- A page-aligned range with a non-zero start that fits 64 bits. -/
def RegionOk (r : PhysicalRegion) : Prop :=
  (r.start % 4096 = 0 ∧ 0 < r.start) ∧ (r.stop % 4096 = 0 ∧ r.stop < u64Limit)

/-- The array is tidy and its regions are merged and in order, whatever their alignment. -/
structure Normal (a : PhysicalAllocator) : Prop where
  tidy : Tidy a
  separated : Separated a.live

/-- What every region table keeps, whatever the alignment of the memory map. -/
structure Sound (a : PhysicalAllocator) : Prop where
  tidy : Tidy a
  separated : Separated a.live
  bounds : ∀ r ∈ a.live, 0 < r.start ∧ r.stop < u64Limit

/-- The representation invariant. -/
structure Valid (a : PhysicalAllocator) : Prop where
  tidy : Tidy a
  separated : Separated a.live
  regionOk : ∀ r ∈ a.live, RegionOk r

theorem Valid.sound {a : PhysicalAllocator} (ha : Valid a) : Sound a :=
  ⟨ha.tidy, ha.separated, fun r hr => ⟨(ha.regionOk r hr).1.2, (ha.regionOk r hr).2.2⟩⟩

theorem Sound.normal {a : PhysicalAllocator} (ha : Sound a) : Normal a := ⟨ha.tidy, ha.separated⟩

theorem valid_new : Valid new := ⟨tidy_new, separated_nil, by simp⟩

@[simp] theorem free_new : free new = ∅ := carrier_nil

/-! ## Adding and reserving -/

theorem Normal.insertRange {a a' : PhysicalAllocator} (ha : Normal a) {s e : Nat}
    (h : a.insertRange s e = some a') : Normal a' ∧ a'.free = a.free ∪ Set.Ico s e := by
  by_cases hse : s < e
  · obtain ⟨htidy, hlive⟩ := insertRange_spec ha.tidy hse h
    refine ⟨⟨htidy, ?_⟩, ?_⟩
    · rw [hlive]
      exact separated_add ha.separated hse
    · rw [free, hlive, carrier_add ha.separated hse]
      rfl
  · rw [PhysicalAllocator.insertRange, if_pos (by omega)] at h
    obtain rfl := Option.some.inj h
    exact ⟨ha, by rw [Set.Ico_eq_empty hse, Set.union_empty]⟩

theorem Normal.reserveRange {a a' : PhysicalAllocator} (ha : Normal a) {s e : Nat}
    (h : a.reserveRange s e = some a') : Normal a' ∧ a'.free = a.free \ Set.Ico s e := by
  by_cases hse : s < e
  · obtain ⟨htidy, hlive⟩ := reserveRange_spec ha.tidy hse h
    refine ⟨⟨htidy, ?_⟩, ?_⟩
    · rw [hlive]
      exact separated_remove ha.separated hse
    · rw [free, hlive, carrier_remove]
      rfl
  · rw [PhysicalAllocator.reserveRange, if_pos (by omega)] at h
    obtain rfl := Option.some.inj h
    exact ⟨ha, by rw [Set.Ico_eq_empty hse, Set.sdiff_empty]⟩

/-- What holds of the ends of all regions is kept, if it holds of the new ones. -/
theorem insertRange_forall {p q : Nat → Prop} {a a' : PhysicalAllocator} (ha : Tidy a) {s e : Nat}
    (hs : p s) (he : q e) (hall : ∀ r ∈ a.live, p r.start ∧ q r.stop)
    (h : a.insertRange s e = some a') : ∀ r ∈ a'.live, p r.start ∧ q r.stop := by
  by_cases hse : s < e
  · rw [(insertRange_spec ha hse h).2]
    exact forall_mem_add hs he hall
  · rw [insertRange, if_pos (by omega)] at h
    obtain rfl := Option.some.inj h
    exact hall

theorem reserveRange_forall {p q : Nat → Prop} {a a' : PhysicalAllocator} (ha : Tidy a) {s e : Nat}
    (hs : s < e → q s) (he : s < e → p e) (hall : ∀ r ∈ a.live, p r.start ∧ q r.stop)
    (h : a.reserveRange s e = some a') : ∀ r ∈ a'.live, p r.start ∧ q r.stop := by
  by_cases hse : s < e
  · rw [(reserveRange_spec ha hse h).2]
    exact forall_mem_remove (hs hse) (he hse) hall
  · rw [reserveRange, if_pos (by omega)] at h
    obtain rfl := Option.some.inj h
    exact hall

theorem Sound.insertRange {a a' : PhysicalAllocator} (ha : Sound a) {s e : Nat} (hpos : 0 < s)
    (hlim : e < u64Limit) (h : a.insertRange s e = some a') :
    Sound a' ∧ a'.free = a.free ∪ Set.Ico s e := by
  obtain ⟨hnormal, hfree⟩ := ha.normal.insertRange h
  exact ⟨⟨hnormal.tidy, hnormal.separated,
    insertRange_forall (p := fun x => 0 < x) (q := fun x => x < u64Limit) ha.tidy hpos hlim
      ha.bounds h⟩, hfree⟩

theorem Sound.reserveRange {a a' : PhysicalAllocator} (ha : Sound a) {s e : Nat}
    (hlim : e < u64Limit) (h : a.reserveRange s e = some a') :
    Sound a' ∧ a'.free = a.free \ Set.Ico s e := by
  obtain ⟨hnormal, hfree⟩ := ha.normal.reserveRange h
  exact ⟨⟨hnormal.tidy, hnormal.separated,
    reserveRange_forall (p := fun x => 0 < x) (q := fun x => x < u64Limit) ha.tidy
      (fun hse => hse.trans hlim) Nat.zero_lt_of_lt ha.bounds h⟩, hfree⟩

theorem addRegion_spec {a a' : PhysicalAllocator} (ha : Valid a) {s e : Nat}
    (hs : s % 4096 = 0) (hpos : 0 < s) (he : e % 4096 = 0) (hlim : e < u64Limit)
    (h : a.insertRange s e = some a') : Valid a' ∧ a'.free = a.free ∪ Set.Ico s e := by
  obtain ⟨hnormal, hfree⟩ := ha.sound.normal.insertRange h
  exact ⟨⟨hnormal.tidy, hnormal.separated,
    insertRange_forall (p := fun x => x % 4096 = 0 ∧ 0 < x)
      (q := fun x => x % 4096 = 0 ∧ x < u64Limit) ha.tidy ⟨hs, hpos⟩ ⟨he, hlim⟩ ha.regionOk h⟩,
    hfree⟩

theorem reserveRange_free {a a' : PhysicalAllocator} (ha : Valid a) {s e : Nat}
    (hs : s % 4096 = 0) (he : e % 4096 = 0) (hlim : e < u64Limit)
    (h : a.reserveRange s e = some a') : Valid a' ∧ a'.free = a.free \ Set.Ico s e := by
  obtain ⟨hnormal, hfree⟩ := ha.sound.normal.reserveRange h
  exact ⟨⟨hnormal.tidy, hnormal.separated,
    reserveRange_forall (p := fun x => x % 4096 = 0 ∧ 0 < x)
      (q := fun x => x % 4096 = 0 ∧ x < u64Limit) ha.tidy (fun hse => ⟨hs, hse.trans hlim⟩)
      (fun hse => ⟨he, Nat.zero_lt_of_lt hse⟩) ha.regionOk h⟩, hfree⟩

/-! ## Allocating -/

/-- One page is the contiguous case for one page. -/
theorem allocatePage_eq (a : PhysicalAllocator) :
    a.allocatePage = a.allocateContiguousPages 1 := by
  have hregion : PhysicalRegion.allocatePage = PhysicalRegion.allocateContiguousPages 1 := by
    funext r
    have hmul : checkedMul 1 pageSize = some pageSize := by decide
    simp only [PhysicalRegion.allocatePage, PhysicalRegion.allocateContiguousPages, hmul,
      Nat.one_ne_zero, false_or]
  rw [allocatePage, allocateContiguousPages, hregion]

/-- What a region gives for a request of `count` pages. -/
theorem region_take_eq_some {count page : Nat} {r rest : PhysicalRegion}
    (h : PhysicalRegion.allocateContiguousPages count r = some (page, rest)) :
    0 < count ∧ page = r.start ∧ r.start + count * 4096 ≤ r.stop ∧
      rest = { start := r.start + count * 4096, stop := r.stop } := by
  unfold PhysicalRegion.allocateContiguousPages at h
  split_ifs at h with hempty
  split at h
  · cases h
  · rename_i bytes hmul
    split at h
    · cases h
    · rename_i stop hadd
      rw [checkedMul_eq_some] at hmul
      rw [checkedAdd_eq_some] at hadd
      split_ifs at h with hgt
      simp only [Option.some.injEq, Prod.mk.injEq] at h
      obtain ⟨rfl, rfl⟩ := h
      obtain ⟨-, rfl⟩ := hmul
      obtain ⟨-, rfl⟩ := hadd
      rw [not_or] at hempty
      refine ⟨by omega, rfl, by simpa [pageSize] using hgt, rfl⟩

/-- A region serves every request that fits into it. -/
theorem region_take_of_fits {count : Nat} {r : PhysicalRegion}
    (hr : 0 < r.start ∧ r.stop < u64Limit) (hcount : 0 < count) (hfits : r.start + count * 4096 ≤ r.stop) :
    (PhysicalRegion.allocateContiguousPages count r).isSome := by
  obtain ⟨hpos, hlim⟩ := hr
  have hnonempty : ¬ (count = 0 ∨ PhysicalRegion.isEmpty r = true) := by
    simp only [PhysicalRegion.isEmpty, Bool.or_eq_true, beq_iff_eq, decide_eq_true_eq]
    omega
  have hmul : checkedMul count pageSize = some (count * 4096) :=
    checkedMul_eq_some.mpr ⟨by simp only [pageSize]; omega, rfl⟩
  have hadd : checkedAdd r.start (count * 4096) = some (r.start + count * 4096) :=
    checkedAdd_eq_some.mpr ⟨by omega, rfl⟩
  simp only [PhysicalRegion.allocateContiguousPages, if_neg hnonempty, hmul, hadd]
  rw [if_neg (by omega)]
  rfl

theorem region_take_start_pos {count page : Nat} {r rest : PhysicalRegion}
    (h : PhysicalRegion.allocateContiguousPages count r = some (page, rest)) : 0 < r.start := by
  unfold PhysicalRegion.allocateContiguousPages at h
  split_ifs at h with hempty
  rw [not_or, PhysicalRegion.isEmpty] at hempty
  have hzero : ¬ r.start = 0 := by
    intro hzero
    simp [hzero] at hempty
  omega

/-- An allocation cuts the front off the first region that gives it. -/
theorem allocateContiguousPages_cut {a a' : PhysicalAllocator} (ha : Tidy a)
    {count page : Nat} (h : a.allocateContiguousPages count = some (page, a')) :
    ∃ l₁ r l₂, a.live = l₁ ++ r :: l₂ ∧ Tidy a' ∧
      a'.live = l₁ ++ (consume (r.start + count * 4096) r ++ l₂) ∧
      page = r.start ∧ 0 < count ∧ r.start + count * 4096 ≤ r.stop ∧
      ∀ x ∈ l₁, PhysicalRegion.allocateContiguousPages count x = none := by
  rcases allocateFirst_cases ha (PhysicalRegion.allocateContiguousPages count) []
      (l := a.live) rfl with
    ⟨hnone, -⟩ | ⟨l₁, r, l₂, page', rest, a'', hsplit, hskip, htake, hrun, htidy, hlive⟩
  · rw [length_live, List.length_nil] at hnone
    rw [allocateContiguousPages, hnone] at h
    cases h
  · rw [length_live, List.length_nil] at hrun
    rw [allocateContiguousPages, hrun] at h
    simp only [Option.some.injEq, Prod.mk.injEq] at h
    obtain ⟨rfl, rfl⟩ := h
    have hpos := region_take_start_pos htake
    obtain ⟨hcount, rfl, hfits, rfl⟩ := region_take_eq_some htake
    -- the region is dropped exactly when the block reaches its end
    have hrest : (if PhysicalRegion.isEmpty
          { start := r.start + count * 4096, stop := r.stop } then []
        else [({ start := r.start + count * 4096, stop := r.stop } : PhysicalRegion)]) =
        consume (r.start + count * 4096) r := by
      simp only [PhysicalRegion.isEmpty, consume, Bool.or_eq_true, beq_iff_eq, decide_eq_true_eq]
      split_ifs <;> first | rfl | omega
    rw [hrest, List.nil_append] at hlive
    exact ⟨l₁, r, l₂, hsplit, htidy, hlive, rfl, hcount, hfits, hskip⟩

/-- The regions before the one that serves a request are too short for it. -/
theorem allocateContiguousPages_live {a a' : PhysicalAllocator} (ha : Sound a)
    {count page : Nat} (h : a.allocateContiguousPages count = some (page, a')) :
    ∃ l₁ r l₂, a.live = l₁ ++ r :: l₂ ∧ Tidy a' ∧
      a'.live = l₁ ++ (consume (r.start + count * 4096) r ++ l₂) ∧
      page = r.start ∧ 0 < count ∧ r.start + count * 4096 ≤ r.stop ∧
      ∀ x ∈ l₁, x.stop < x.start + count * 4096 := by
  obtain ⟨l₁, r, l₂, hsplit, htidy, hlive, hpage, hcount, hfits, hskip⟩ :=
    allocateContiguousPages_cut ha.tidy h
  refine ⟨l₁, r, l₂, hsplit, htidy, hlive, hpage, hcount, hfits, fun x hx => ?_⟩
  by_contra hlong
  have hsome := region_take_of_fits (ha.bounds x (by simp [hsplit, hx])) hcount (by omega)
  rw [hskip x hx] at hsome
  cases hsome

/-- An allocation returns a wholly free block and removes exactly it. -/
theorem Sound.allocateContiguousPages {a a' : PhysicalAllocator} (ha : Sound a) {count page : Nat}
    (h : a.allocateContiguousPages count = some (page, a')) :
    Sound a' ∧ a'.free = a.free \ block page count ∧ block page count ⊆ a.free ∧
      0 < count ∧ 0 < page ∧ page + count * 4096 < u64Limit := by
  obtain ⟨l₁, r, l₂, hsplit, htidy, hlive, rfl, hcount, hfits, -⟩ :=
    allocateContiguousPages_live ha h
  have hsep : Separated (l₁ ++ r :: l₂) := hsplit ▸ ha.separated
  obtain ⟨hpos, hlim⟩ := ha.bounds r (by simp [hsplit])
  refine ⟨⟨htidy, ?_, ?_⟩, ?_, ?_, hcount, hpos, by omega⟩
  · rw [hlive]
    exact separated_consume hsep (by omega)
  · rw [hlive]
    exact forall_mem_consume (p := fun x => 0 < x) (q := fun x => x < u64Limit) (by omega)
      (hsplit ▸ ha.bounds)
  · rw [free, hlive, carrier_consume hsep (by omega) hfits, ← hsplit]
    rfl
  · intro x hx
    refine ⟨r, by simp [hsplit], ?_⟩
    rw [mem_block] at hx
    exact ⟨hx.1, by omega⟩

theorem allocateContiguousPages_spec {a a' : PhysicalAllocator} (ha : Valid a)
    {count page : Nat} (h : a.allocateContiguousPages count = some (page, a')) :
    Valid a' ∧ a'.free = a.free \ block page count ∧ block page count ⊆ a.free ∧
      0 < count ∧ page % 4096 = 0 ∧ 0 < page ∧ page + count * 4096 < u64Limit := by
  obtain ⟨hsound, hfree, hsub, hcount, hpos, hlim⟩ := ha.sound.allocateContiguousPages h
  obtain ⟨l₁, r, l₂, hsplit, -, hlive, rfl, -⟩ := allocateContiguousPages_live ha.sound h
  obtain ⟨⟨hal, -⟩, -⟩ := ha.regionOk r (by simp [hsplit])
  refine ⟨⟨hsound.tidy, hsound.separated, ?_⟩, hfree, hsub, hcount, hal, hpos, hlim⟩
  rw [hlive]
  exact forall_mem_consume (p := fun x => x % 4096 = 0 ∧ 0 < x)
    (q := fun x => x % 4096 = 0 ∧ x < u64Limit) ⟨by omega, by omega⟩ (hsplit ▸ ha.regionOk)

/-- A request fails only when no region can hold it. -/
theorem allocateContiguousPages_eq_none {a : PhysicalAllocator} (ha : Valid a) {count : Nat}
    (hcount : 0 < count) (h : a.allocateContiguousPages count = none) :
    ∀ r ∈ a.live, r.stop < r.start + count * 4096 := by
  intro r hr
  rcases allocateFirst_cases ha.tidy (PhysicalRegion.allocateContiguousPages count) []
      (l := a.live) rfl with
    ⟨-, hall⟩ | ⟨l₁, x, l₂, page', rest, a'', hsplit, -, htake, hrun, htidy, hlive⟩
  · by_contra hfits
    have hsome := region_take_of_fits (ha.sound.bounds r hr) hcount (by omega)
    rw [hall r hr] at hsome
    cases hsome
  · rw [length_live, List.length_nil] at hrun
    rw [allocateContiguousPages, hrun] at h
    cases h

theorem allocatePage_spec {a a' : PhysicalAllocator} (ha : Valid a) {page : Nat}
    (h : a.allocatePage = some (page, a')) :
    Valid a' ∧ a'.free = a.free \ block page 1 ∧ block page 1 ⊆ a.free ∧
      page % 4096 = 0 ∧ 0 < page ∧ page + 4096 < u64Limit := by
  rw [allocatePage_eq] at h
  obtain ⟨hvalid, hfree, hsub, -, hal, hpos, hlim⟩ := allocateContiguousPages_spec ha h
  exact ⟨hvalid, hfree, hsub, hal, hpos, by omega⟩

/-- `allocate_page` fails exactly when nothing is free. -/
theorem allocatePage_eq_none {a : PhysicalAllocator} (ha : Valid a) :
    a.allocatePage = none ↔ a.live = [] := by
  rw [allocatePage_eq]
  constructor
  · intro h
    have hall := allocateContiguousPages_eq_none ha Nat.one_pos h
    refine List.eq_nil_iff_forall_not_mem.mpr fun r hr => ?_
    have hlt := hall r hr
    have hne := ha.separated.nonempty r hr
    obtain ⟨⟨h₁, -⟩, h₂, -⟩ := ha.regionOk r hr
    omega
  · intro h
    have hzero : a.count = 0 := by
      rw [← length_live, h]
      rfl
    rw [allocateContiguousPages, hzero]
    rfl

/-! ## Freeing -/

theorem freeContiguousPages_eq {a : PhysicalAllocator} {start count : Nat} (hcount : 0 < count)
    (hlim : start + count * 4096 < u64Limit) :
    a.freeContiguousPages start count = a.insertRange start (start + count * 4096) := by
  rw [freeContiguousPages, if_neg (by omega)]
  simp only [pageSize, wrap64_of_lt (by omega : count * 4096 < u64Limit), wrap64_of_lt hlim]

theorem Sound.freeContiguousPages {a a' : PhysicalAllocator} (ha : Sound a) {start count : Nat}
    (hcount : 0 < count) (hpos : 0 < start) (hlim : start + count * 4096 < u64Limit)
    (h : a.freeContiguousPages start count = some a') :
    Sound a' ∧ a'.free = a.free ∪ block start count := by
  rw [freeContiguousPages_eq hcount hlim] at h
  exact ha.insertRange hpos hlim h

theorem freeContiguousPages_spec {a a' : PhysicalAllocator} (ha : Valid a) {start count : Nat}
    (hcount : 0 < count) (hal : start % 4096 = 0) (hpos : 0 < start)
    (hlim : start + count * 4096 < u64Limit)
    (h : a.freeContiguousPages start count = some a') :
    Valid a' ∧ a'.free = a.free ∪ block start count := by
  rw [freeContiguousPages_eq hcount hlim] at h
  have hend : (start + count * 4096) % 4096 = 0 := by omega
  exact addRegion_spec ha hal hpos hend hlim h

/-! ## The table's shape, slot by slot -/

/-- The shape of the region table: `regions[0..count]` are non-empty, strictly
ascending and separated by a gap, and all later slots are empty. -/
structure Canonical (a : PhysicalAllocator) : Prop where
  count_le : a.count ≤ maxFreeRanges
  nonempty : ∀ i < a.count, (a.region i).start < (a.region i).stop
  gap : ∀ i j, i < j → j < a.count → (a.region i).stop < (a.region j).start
  tail_empty : ∀ i, a.count ≤ i → i < maxFreeRanges → a.region i = PhysicalRegion.empty

theorem Valid.canonical {a : PhysicalAllocator} (ha : Valid a) : Canonical a := by
  refine ⟨ha.tidy.count_le, ?_, ?_, fun i hi _ => ha.tidy.tail_empty i hi⟩
  · intro i hi
    have hlen : i < a.live.length := by rwa [length_live]
    have h := ha.separated.nonempty a.live[i] (List.getElem_mem hlen)
    rwa [getElem_live] at h
  · intro i j hij hj
    have hlen : j < a.live.length := by rwa [length_live]
    have h := List.pairwise_iff_getElem.mp ha.separated.gap i j (by omega) hlen hij
    rwa [getElem_live, getElem_live] at h

/-- The array is determined by the regions in use. -/
theorem Tidy.ext_live {a b : PhysicalAllocator} (ha : Tidy a) (hb : Tidy b)
    (h : a.live = b.live) : a = b := by
  have hcount : a.count = b.count := by rw [← length_live, ← length_live, h]
  have hregion : ∀ i, a.region i = b.region i := by
    intro i
    by_cases hi : i < a.count
    · have hlen : i < a.live.length := by rwa [length_live]
      have hlen' : i < b.live.length := by rwa [← h]
      rw [← getElem_live a i hlen, ← getElem_live b i hlen']
      simp only [h]
    · rw [ha.tail_empty i (by omega), hb.tail_empty i (by omega)]
  obtain ⟨regions, count⟩ := a
  obtain ⟨regions', count'⟩ := b
  congr 1
  refine Vector.ext fun i hi => ?_
  have hi' := hregion i
  simpa [region, hi] using hi'

/-- **The representation is canonical**: the free set determines the whole array. -/
theorem Valid.ext_free {a b : PhysicalAllocator} (ha : Valid a) (hb : Valid b)
    (h : a.free = b.free) : a = b :=
  ha.tidy.ext_live hb.tidy (ha.separated.unique hb.separated h)

end PhysicalAllocator

/-! ## Runs -/

/-- An allocator with its history: the abstract free set, and the blocks
(`start`, page count) handed out and not yet freed. -/
structure AllocatorRun where
  allocator : PhysicalAllocator
  free : Set Nat
  blocks : List (Nat × Nat)

inductive AllocatorOp where
  | addRegion (start stop : Nat)
  | reserveRange (start stop : Nat)
  | allocatePage
  | allocateContiguousPages (count : Nat)
  | freeContiguousPages (start count : Nat)

/-- A range the callers pass: page-aligned, not starting at zero, 64-bit. -/
def PageRange (start stop : Nat) : Prop :=
  start % pageSize = 0 ∧ 0 < start ∧ stop % pageSize = 0 ∧ stop < u64Limit

/-- One operation that returns (an assertion that fires has no step). The
abstract set is updated by union for adding and freeing, by difference for
reserving, and by removal of the returned block for allocating; only blocks that
are still out may be freed. -/
inductive AllocatorStep : AllocatorRun → AllocatorOp → AllocatorRun → Prop where
  | addRegion {run : AllocatorRun} {start stop : Nat} {a : PhysicalAllocator}
      (range : PageRange start stop) (h : run.allocator.addRegion start stop = some a) :
      AllocatorStep run (.addRegion start stop)
        ⟨a, run.free ∪ Set.Ico start stop, run.blocks⟩
  | reserveRange {run : AllocatorRun} {start stop : Nat} {a : PhysicalAllocator}
      (range : PageRange start stop) (h : run.allocator.reserveRange start stop = some a) :
      AllocatorStep run (.reserveRange start stop)
        ⟨a, run.free \ Set.Ico start stop, run.blocks⟩
  | allocatePage {run : AllocatorRun} {page : Nat} {a : PhysicalAllocator}
      (h : run.allocator.allocatePage = some (page, a)) :
      AllocatorStep run .allocatePage
        ⟨a, run.free \ block page 1, (page, 1) :: run.blocks⟩
  | allocatePageExhausted {run : AllocatorRun} (h : run.allocator.allocatePage = none) :
      AllocatorStep run .allocatePage run
  | allocateContiguousPages {run : AllocatorRun} {count page : Nat} {a : PhysicalAllocator}
      (h : run.allocator.allocateContiguousPages count = some (page, a)) :
      AllocatorStep run (.allocateContiguousPages count)
        ⟨a, run.free \ block page count, (page, count) :: run.blocks⟩
  | allocateContiguousPagesExhausted {run : AllocatorRun} {count : Nat}
      (h : run.allocator.allocateContiguousPages count = none) :
      AllocatorStep run (.allocateContiguousPages count) run
  | freeContiguousPages {run : AllocatorRun} {start count : Nat} {a : PhysicalAllocator}
      (out : (start, count) ∈ run.blocks)
      (h : run.allocator.freeContiguousPages start count = some a) :
      AllocatorStep run (.freeContiguousPages start count)
        ⟨a, run.free ∪ block start count, run.blocks.erase (start, count)⟩

namespace AllocatorRun

/-- The run right after `reset()`. -/
def reset : AllocatorRun := ⟨PhysicalAllocator.new, ∅, []⟩

/-- Runs from `reset()` all of whose operations satisfy `ok` when issued. -/
def Reachable (ok : AllocatorRun → AllocatorOp → Prop) (run : AllocatorRun) : Prop :=
  Relation.ReflTransGen (fun r r' => ∃ op, ok r op ∧ AllocatorStep r op r') reset run

theorem Reachable.next {ok : AllocatorRun → AllocatorOp → Prop} {run run' : AllocatorRun}
    {op : AllocatorOp} (h : run.Reachable ok) (hok : ok run op) (hstep : AllocatorStep run op run') :
    run'.Reachable ok :=
  Relation.ReflTransGen.tail h ⟨op, hok, hstep⟩

/-- No address of an outstanding block is added again. -/
def AddsUnallocated (run : AllocatorRun) : AllocatorOp → Prop
  | .addRegion start stop => ∀ b ∈ run.blocks, Disjoint (block b.1 b.2) (Set.Ico start stop)
  | _ => True

/-- What every run keeps: a valid table that stands for the abstract set, and
outstanding blocks that are page ranges. -/
structure Inv (run : AllocatorRun) : Prop where
  valid : run.allocator.Valid
  free_eq : run.allocator.free = run.free
  blockOk : ∀ b ∈ run.blocks,
    0 < b.2 ∧ b.1 % 4096 = 0 ∧ 0 < b.1 ∧ b.1 + b.2 * 4096 < u64Limit

theorem inv_reset : reset.Inv :=
  ⟨PhysicalAllocator.valid_new, PhysicalAllocator.free_new, by simp [reset]⟩

theorem Inv.step {run run' : AllocatorRun} {op : AllocatorOp} (inv : run.Inv)
    (h : AllocatorStep run op run') : run'.Inv := by
  cases h with
  | addRegion range h =>
    obtain ⟨hs, hpos, he, hlim⟩ := range
    obtain ⟨hvalid, hfree⟩ := PhysicalAllocator.addRegion_spec inv.valid hs hpos he hlim h
    exact ⟨hvalid, by rw [hfree, inv.free_eq], inv.blockOk⟩
  | reserveRange range h =>
    obtain ⟨hs, -, he, hlim⟩ := range
    obtain ⟨hvalid, hfree⟩ := PhysicalAllocator.reserveRange_free inv.valid hs he hlim h
    exact ⟨hvalid, by rw [hfree, inv.free_eq], inv.blockOk⟩
  | allocatePage h =>
    obtain ⟨hvalid, hfree, -, hal, hpos, hlim⟩ := PhysicalAllocator.allocatePage_spec inv.valid h
    refine ⟨hvalid, by rw [hfree, inv.free_eq], ?_⟩
    refine List.forall_mem_cons.mpr ⟨?_, inv.blockOk⟩
    simp only [Nat.one_mul]
    exact ⟨Nat.one_pos, hal, hpos, hlim⟩
  | allocatePageExhausted h => exact inv
  | allocateContiguousPages h =>
    obtain ⟨hvalid, hfree, -, hblock⟩ :=
      PhysicalAllocator.allocateContiguousPages_spec inv.valid h
    exact ⟨hvalid, by rw [hfree, inv.free_eq],
      List.forall_mem_cons.mpr ⟨hblock, inv.blockOk⟩⟩
  | allocateContiguousPagesExhausted h => exact inv
  | freeContiguousPages out h =>
    obtain ⟨hcount, hal, hpos, hlim⟩ := inv.blockOk _ out
    obtain ⟨hvalid, hfree⟩ :=
      PhysicalAllocator.freeContiguousPages_spec inv.valid hcount hal hpos hlim h
    exact ⟨hvalid, by rw [hfree, inv.free_eq],
      fun b hb => inv.blockOk b (List.mem_of_mem_erase hb)⟩

theorem Reachable.inv {ok : AllocatorRun → AllocatorOp → Prop} {run : AllocatorRun}
    (h : run.Reachable ok) : run.Inv := by
  induction h with
  | refl => exact inv_reset
  | tail _ hstep ih =>
    obtain ⟨op, -, hstep⟩ := hstep
    exact ih.step hstep

/-- Outstanding blocks are apart from the free set and from each other. -/
structure Apart (run : AllocatorRun) : Prop where
  free : ∀ b ∈ run.blocks, Disjoint (block b.1 b.2) run.free
  blocks : run.blocks.Pairwise fun b c => Disjoint (block b.1 b.2) (block c.1 c.2)

/-- Handing out a wholly free block keeps blocks apart. -/
theorem Apart.allocate {run : AllocatorRun} (hap : run.Apart) {page count : Nat}
    {a : PhysicalAllocator} (hsub : block page count ⊆ run.free) :
    Apart ⟨a, run.free \ block page count, (page, count) :: run.blocks⟩ := by
  constructor
  · refine List.forall_mem_cons.mpr ⟨Set.disjoint_sdiff_right, fun b hb => ?_⟩
    exact (hap.free b hb).mono_right Set.sdiff_subset
  · refine List.pairwise_cons.mpr ⟨fun b hb => ?_, hap.blocks⟩
    exact (hap.free b hb).symm.mono_left hsub

theorem Apart.step {run run' : AllocatorRun} {op : AllocatorOp} (inv : run.Inv)
    (hap : run.Apart) (hok : AddsUnallocated run op) (h : AllocatorStep run op run') :
    run'.Apart := by
  cases h with
  | addRegion range h =>
    exact ⟨fun b hb => Set.disjoint_union_right.mpr ⟨hap.free b hb, hok b hb⟩, hap.blocks⟩
  | reserveRange range h =>
    exact ⟨fun b hb => (hap.free b hb).mono_right Set.sdiff_subset, hap.blocks⟩
  | allocatePage h =>
    obtain ⟨-, -, hsub, -⟩ := PhysicalAllocator.allocatePage_spec inv.valid h
    exact hap.allocate (inv.free_eq ▸ hsub)
  | allocatePageExhausted h => exact hap
  | allocateContiguousPages h =>
    obtain ⟨-, -, hsub, -⟩ := PhysicalAllocator.allocateContiguousPages_spec inv.valid h
    exact hap.allocate (inv.free_eq ▸ hsub)
  | allocateContiguousPagesExhausted h => exact hap
  | @freeContiguousPages start count a out h =>
    have hperm : run.blocks.Perm ((start, count) :: run.blocks.erase (start, count)) :=
      List.perm_cons_erase out
    have hpw := (hperm.pairwise_iff (fun {_ _} hxy => hxy.symm)).mp hap.blocks
    obtain ⟨hfirst, hrest⟩ := List.pairwise_cons.mp hpw
    refine ⟨fun b hb => Set.disjoint_union_right.mpr ⟨?_, (hfirst b hb).symm⟩, hrest⟩
    exact hap.free b (List.mem_of_mem_erase hb)

theorem Reachable.apart {run : AllocatorRun} (h : run.Reachable AddsUnallocated) :
    run.Apart := by
  induction h with
  | refl => exact ⟨by simp [reset], List.Pairwise.nil⟩
  | tail hreach hstep ih =>
    obtain ⟨op, hok, hstep⟩ := hstep
    exact ih.step (Reachable.inv hreach) hok hstep

/-- **The region table refines a set of free addresses.** In every run from
`reset()` the table is canonical and stands for the abstract set, and an
allocation takes its block out of the free addresses. In a run that never adds
an address of an outstanding block again, outstanding blocks never overlap. -/
theorem reachable_refines_freeSet :
    (∀ run : AllocatorRun, run.Reachable (fun _ _ => True) →
      run.allocator.Canonical ∧ run.allocator.free = run.free ∧
        (∀ page a, run.allocator.allocatePage = some (page, a) → block page 1 ⊆ run.free) ∧
        (∀ count page a, run.allocator.allocateContiguousPages count = some (page, a) →
          block page count ⊆ run.free)) ∧
    (∀ run : AllocatorRun, run.Reachable AddsUnallocated →
      run.blocks.Pairwise fun b c => Disjoint (block b.1 b.2) (block c.1 c.2)) := by
  constructor
  · intro run h
    have inv := h.inv
    refine ⟨inv.valid.canonical, inv.free_eq, fun page a halloc => ?_, fun count page a halloc => ?_⟩
    · exact inv.free_eq ▸ (PhysicalAllocator.allocatePage_spec inv.valid halloc).2.2.1
    · exact inv.free_eq ▸ (PhysicalAllocator.allocateContiguousPages_spec inv.valid halloc).2.2.1
  · exact fun run h => h.apart.blocks

/-- The table after `add_region(0x1000, 0x2000)`. -/
def onePage : PhysicalAllocator :=
  { PhysicalAllocator.new.setRegion 0 { start := 4096, stop := 8192 } with count := 1 }

/-- Adding a page, allocating it, adding it again and allocating once more hands
the same page out twice. -/
theorem readded_page_is_allocated_twice :
    ¬ ∀ run : AllocatorRun, run.Reachable (fun _ _ => True) →
      run.blocks.Pairwise fun b c => Disjoint (block b.1 b.2) (block c.1 c.2) := by
  intro hall
  have hadd : PhysicalAllocator.new.addRegion 4096 8192 = some onePage := by decide +kernel
  have halloc : onePage.allocatePage = some (4096, PhysicalAllocator.new) := by decide +kernel
  have hrange : PageRange 4096 8192 := ⟨rfl, by decide, rfl, by decide⟩
  have hfirst : AllocatorStep reset (.addRegion 4096 8192)
      ⟨onePage, ∅ ∪ Set.Ico 4096 8192, []⟩ := .addRegion hrange hadd
  have hadded : Reachable (fun _ _ => True) _ := Reachable.next .refl trivial hfirst
  have hout := hadded.next trivial (.allocatePage halloc)
  have hreadded := hout.next trivial (.addRegion hrange hadd)
  have hpw := hall _ (hreadded.next trivial (.allocatePage halloc))
  have hdisj := (List.pairwise_cons.mp hpw).1 (4096, 1) (by simp)
  have hmem : 4096 ∈ block 4096 1 := by simp [mem_block]
  exact Set.disjoint_left.mp hdisj hmem hmem

end AllocatorRun

end Lazers.Memory
