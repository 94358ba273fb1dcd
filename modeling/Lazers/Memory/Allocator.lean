import Lazers.Lib.RangeList
import Lazers.Memory.Types

/-!
# The physical page allocator (`memory/allocator.rs`)

A fixed array of `maxFreeRanges` regions and a count. Every operation shifts the
array in place exactly as the source does; the loops recurse on the number of
rounds they make. A failed `assert!` is `none`.

The second half relates the array to the list `live` of its first `count`
slots: each operation is one operation of `RangeList` on that list
(`live_insertRange`, `live_reserveRange`, `live_allocatePage`, …), and the slots
from `count` on stay empty (`Tidy`).
-/

namespace Lazers.Memory

open RangeList

/-- `PhysicalRegion`: the half-open range `[start, stop)`. -/
abbrev PhysicalRegion := Range Nat

namespace PhysicalRegion

def empty : PhysicalRegion := { start := 0, stop := 0 }

/-- `PhysicalRegion::is_empty`: address zero never starts a usable region. -/
def isEmpty (region : PhysicalRegion) : Bool :=
  region.start == 0 || decide (region.start ≥ region.stop)

/-- `PhysicalRegion::allocate_page`: the page and the shrunken region. -/
def allocatePage (region : PhysicalRegion) : Option (Nat × PhysicalRegion) :=
  if isEmpty region then none
  else
    match checkedAdd region.start pageSize with
    | none => none
    | some next =>
      if next > region.stop then none
      else some (region.start, { region with start := next })

/-- `PhysicalRegion::allocate_contiguous_pages`. -/
def allocateContiguousPages (count : Nat) (region : PhysicalRegion) :
    Option (Nat × PhysicalRegion) :=
  if count = 0 ∨ isEmpty region then none
  else
    match checkedMul count pageSize with
    | none => none
    | some bytes =>
      match checkedAdd region.start bytes with
      | none => none
      | some stop =>
        if stop > region.stop then none
        else some (region.start, { region with start := stop })

end PhysicalRegion

structure PhysicalAllocator where
  regions : Vector PhysicalRegion maxFreeRanges
  count : Nat
deriving DecidableEq

namespace PhysicalAllocator

/-- `PhysicalAllocator::new`; `reset` assigns it. -/
def new : PhysicalAllocator :=
  { regions := Vector.replicate maxFreeRanges PhysicalRegion.empty, count := 0 }

/-- `self.regions[index]`. -/
def region (a : PhysicalAllocator) (index : Nat) : PhysicalRegion :=
  (a.regions[index]?).getD PhysicalRegion.empty

/-- `self.regions[index] = region`. -/
def setRegion (a : PhysicalAllocator) (index : Nat) (r : PhysicalRegion) : PhysicalAllocator :=
  { a with regions := a.regions.setIfInBounds index r }

/-- The first loop of `remove_region`: move the regions above `shift` down. -/
def shiftDown : (rounds shift : Nat) → PhysicalAllocator → PhysicalAllocator
  | 0, _, a => a
  | n + 1, shift, a => shiftDown n (shift + 1) (a.setRegion shift (a.region (shift + 1)))

/-- `remove_region`. -/
def removeRegion (a : PhysicalAllocator) (index : Nat) : PhysicalAllocator :=
  let a := shiftDown (a.count - 1 - index) index a
  if a.count > 0 then
    { a with count := a.count - 1 }.setRegion (a.count - 1) PhysicalRegion.empty
  else a

/-- The loop that opens a slot: move the regions from `shift - rounds` up. -/
def shiftUp : (rounds shift : Nat) → PhysicalAllocator → PhysicalAllocator
  | 0, _, a => a
  | n + 1, shift, a => shiftUp n (shift - 1) (a.setRegion shift (a.region (shift - 1)))

/-- Write `r` into a fresh slot at `index`. `insert_range` and the split in
`reserve_range` share these lines. -/
def openSlot (a : PhysicalAllocator) (index : Nat) (r : PhysicalRegion) : PhysicalAllocator :=
  let a := shiftUp (a.count - index) a.count a
  { a.setRegion index r with count := a.count + 1 }

/-- The merging loop of `insert_range`. A round either passes a region or
removes it, so the loop makes `count` rounds. -/
def mergeTouching : (rounds index mergedStart mergedEnd : Nat) → PhysicalAllocator →
    PhysicalRegion × PhysicalAllocator
  | 0, _, mergedStart, mergedEnd, a => ({ start := mergedStart, stop := mergedEnd }, a)
  | n + 1, index, mergedStart, mergedEnd, a =>
    let region := a.region index
    if region.stop < mergedStart ∨ region.start > mergedEnd then
      mergeTouching n (index + 1) mergedStart mergedEnd a
    else
      mergeTouching n index (min mergedStart region.start) (max mergedEnd region.stop)
        (a.removeRegion index)

/-- The search for `insert_at`. -/
def findInsertAt (mergedStart : Nat) (a : PhysicalAllocator) : (rounds insertAt : Nat) → Nat
  | 0, insertAt => insertAt
  | n + 1, insertAt =>
    if (a.region insertAt).start < mergedStart then findInsertAt mergedStart a n (insertAt + 1)
    else insertAt

/-- `insert_range`; `none` is the capacity assertion. -/
def insertRange (a : PhysicalAllocator) (start stop : Nat) : Option PhysicalAllocator :=
  if start ≥ stop then some a
  else
    let (merged, a) := mergeTouching a.count 0 start stop a
    if a.count < maxFreeRanges then
      some (a.openSlot (findInsertAt merged.start a a.count 0) merged)
    else none

/-- `add_region`: fallible in its type, but its only failure is the assertion. -/
def addRegion (a : PhysicalAllocator) (start stop : Nat) : Option PhysicalAllocator :=
  a.insertRange start stop

/-- The scan both allocation methods share: take from the first region that can
serve the request, and drop the region when that empties it. -/
def allocateFirst (take : PhysicalRegion → Option (Nat × PhysicalRegion)) :
    (rounds index : Nat) → PhysicalAllocator → Option (Nat × PhysicalAllocator)
  | 0, _, _ => none
  | n + 1, index, a =>
    match take (a.region index) with
    | some (page, rest) =>
      let a := a.setRegion index rest
      some (page, if PhysicalRegion.isEmpty rest then a.removeRegion index else a)
    | none => allocateFirst take n (index + 1) a

/-- `allocate_page`; `none` is `AllocatorExhausted`. The page is zeroed by the
caller's memory (`MemoryState.allocatePage`). -/
def allocatePage (a : PhysicalAllocator) : Option (Nat × PhysicalAllocator) :=
  allocateFirst PhysicalRegion.allocatePage a.count 0 a

/-- `allocate_contiguous_pages`; `none` is `AllocatorExhausted`. -/
def allocateContiguousPages (a : PhysicalAllocator) (count : Nat) :
    Option (Nat × PhysicalAllocator) :=
  allocateFirst (PhysicalRegion.allocateContiguousPages count) a.count 0 a

/-- `free_contiguous_pages`. Both the product and the sum are unchecked. -/
def freeContiguousPages (a : PhysicalAllocator) (start count : Nat) : Option PhysicalAllocator :=
  if count = 0 then some a
  else
    let bytes := wrap64 (count * pageSize)
    a.insertRange start (wrap64 (start + bytes))

/-- The loop of `reserve_range`. A round passes a region, removes it, trims it,
or splits it in two and passes both, so the loop makes `count` rounds. -/
def reserveLoop (start stop : Nat) : (rounds index : Nat) → PhysicalAllocator →
    Option PhysicalAllocator
  | 0, _, a => some a
  | n + 1, index, a =>
    let region := a.region index
    if region.stop ≤ start ∨ region.start ≥ stop then reserveLoop start stop n (index + 1) a
    else if start ≤ region.start ∧ stop ≥ region.stop then
      reserveLoop start stop n index (a.removeRegion index)
    else if start ≤ region.start then
      reserveLoop start stop n (index + 1)
        (a.setRegion index { region with start := min stop region.stop })
    else if stop ≥ region.stop then
      reserveLoop start stop n (index + 1)
        (a.setRegion index { region with stop := max start region.start })
    else if a.count < maxFreeRanges then
      let right : PhysicalRegion := { start := stop, stop := region.stop }
      reserveLoop start stop n (index + 2)
        ((a.setRegion index { region with stop := start }).openSlot (index + 1) right)
    else none

/-- `reserve_range`; `none` is the capacity assertion. -/
def reserveRange (a : PhysicalAllocator) (start stop : Nat) : Option PhysicalAllocator :=
  if start ≥ stop then some a else reserveLoop start stop a.count 0 a

/-! ## The array as a list -/

/-- The regions in use: `regions[0..count]`. -/
def live (a : PhysicalAllocator) : List PhysicalRegion :=
  (List.range a.count).map a.region

/-- The array discipline: the count fits, and slots from `count` on are empty. -/
structure Tidy (a : PhysicalAllocator) : Prop where
  count_le : a.count ≤ maxFreeRanges
  tail_empty : ∀ i, a.count ≤ i → a.region i = PhysicalRegion.empty

@[simp] theorem setRegion_count (a : PhysicalAllocator) (i : Nat) (r : PhysicalRegion) :
    (a.setRegion i r).count = a.count := rfl

theorem region_setRegion (a : PhysicalAllocator) (i j : Nat) (r : PhysicalRegion)
    (hi : i < maxFreeRanges) :
    (a.setRegion i r).region j = if j = i then r else a.region j := by
  unfold setRegion region
  simp only [Vector.getElem?_setIfInBounds, hi, if_true]
  split_ifs with h₁ h₂ h₂
  · rfl
  · exact absurd h₁.symm h₂
  · exact absurd h₂.symm h₁
  · rfl

@[simp] theorem region_mk_count (a : PhysicalAllocator) (n i : Nat) :
    ({ a with count := n } : PhysicalAllocator).region i = a.region i := rfl

@[simp] theorem length_live (a : PhysicalAllocator) : a.live.length = a.count := by
  simp [live]

@[simp] theorem getElem_live (a : PhysicalAllocator) (i : Nat) (h : i < a.live.length) :
    a.live[i] = a.region i := by
  simp [live]

theorem region_eq_of_live {a : PhysicalAllocator} {l₁ l₂ : List PhysicalRegion}
    {r : PhysicalRegion} (h : a.live = l₁ ++ r :: l₂) : a.region l₁.length = r := by
  have hlen : l₁.length < a.live.length := by simp [h]
  have hget := getElem_live a l₁.length hlen
  rw [← hget]
  simp [h]

theorem tidy_new : Tidy new := by
  refine ⟨by decide, fun i _ => ?_⟩
  unfold region new
  rw [Vector.getElem?_replicate]
  split <;> rfl

@[simp] theorem live_new : live new = [] := rfl

/-! ### Shifting -/

@[simp] theorem shiftDown_count (n i : Nat) (a : PhysicalAllocator) :
    (shiftDown n i a).count = a.count := by
  induction n generalizing i a with
  | zero => rfl
  | succ n ih => rw [shiftDown, ih, setRegion_count]

theorem region_shiftDown (n i j : Nat) (a : PhysicalAllocator) (h : i + n ≤ maxFreeRanges) :
    (shiftDown n i a).region j = if i ≤ j ∧ j < i + n then a.region (j + 1) else a.region j := by
  induction n generalizing i a with
  | zero => simp [shiftDown]
  | succ n ih =>
    rw [shiftDown, ih _ _ (by omega), region_setRegion _ _ _ _ (by omega),
      region_setRegion _ _ _ _ (by omega)]
    -- the slot written in this round is `i`; every other slot is the induction's
    split_ifs <;> first | rfl | (exfalso; omega) | (congr 1; omega)

@[simp] theorem shiftUp_count (n i : Nat) (a : PhysicalAllocator) :
    (shiftUp n i a).count = a.count := by
  induction n generalizing i a with
  | zero => rfl
  | succ n ih => rw [shiftUp, ih, setRegion_count]

theorem region_shiftUp (n i j : Nat) (a : PhysicalAllocator) (hn : n ≤ i)
    (h : i < maxFreeRanges) :
    (shiftUp n i a).region j =
      if i - n < j ∧ j ≤ i then a.region (j - 1) else a.region j := by
  induction n generalizing i a with
  | zero =>
    rw [shiftUp, if_neg (by omega)]
  | succ n ih =>
    rw [shiftUp, ih _ _ (by omega) (by omega), region_setRegion _ _ _ _ h,
      region_setRegion _ _ _ _ h]
    -- the slot written in this round is `i`; every other slot is the induction's
    split_ifs <;> first | rfl | (exfalso; omega) | (congr 1; omega)

/-! ### Removing, inserting and replacing one region -/

theorem removeRegion_count (a : PhysicalAllocator) (i : Nat) :
    (a.removeRegion i).count = a.count - 1 := by
  unfold removeRegion
  simp only [shiftDown_count]
  split
  · rfl
  · rw [shiftDown_count]
    omega

theorem region_removeRegion {a : PhysicalAllocator} (ha : Tidy a) {i : Nat} (hi : i < a.count)
    (j : Nat) : (a.removeRegion i).region j = if i ≤ j then a.region (j + 1) else a.region j := by
  have hle := ha.count_le
  unfold removeRegion
  simp only [shiftDown_count]
  rw [if_pos (by omega), region_setRegion _ _ _ _ (by omega), region_mk_count,
    region_shiftDown _ _ _ _ (by omega)]
  by_cases hj : j = a.count - 1
  · rw [if_pos hj, if_pos (by omega), ha.tail_empty (j + 1) (by omega)]
  · rw [if_neg hj]
    by_cases hij : i ≤ j
    · rw [if_pos hij]
      split_ifs with h
      · rfl
      · rw [ha.tail_empty j (by omega), ha.tail_empty (j + 1) (by omega)]
    · rw [if_neg hij, if_neg (by omega)]

theorem Tidy.removeRegion {a : PhysicalAllocator} (ha : Tidy a) {i : Nat} (hi : i < a.count) :
    Tidy (a.removeRegion i) := by
  have hle := ha.count_le
  refine ⟨?_, fun j hj => ?_⟩
  · rw [removeRegion_count]
    omega
  · rw [removeRegion_count] at hj
    rw [region_removeRegion ha hi, if_pos (by omega), ha.tail_empty _ (by omega)]

theorem live_removeRegion {a : PhysicalAllocator} (ha : Tidy a) {l₁ l₂ : List PhysicalRegion}
    {r : PhysicalRegion} (h : a.live = l₁ ++ r :: l₂) :
    (a.removeRegion l₁.length).live = l₁ ++ l₂ := by
  have hcount : a.count = l₁.length + (l₂.length + 1) := by
    rw [← length_live, h]
    simp
  apply List.ext_getElem
  · rw [length_live, removeRegion_count, List.length_append]
    omega
  · intro j hj hj'
    rw [length_live, removeRegion_count] at hj
    rw [getElem_live, region_removeRegion ha (by omega)]
    by_cases hlt : l₁.length ≤ j
    · rw [if_pos hlt, ← getElem_live a (j + 1) (by rw [length_live]; omega)]
      simp only [h]
      rw [List.getElem_append_right (by omega), List.getElem_append_right hlt]
      simp [show j + 1 - l₁.length = (j - l₁.length) + 1 by omega]
    · rw [if_neg hlt, ← getElem_live a j (by rw [length_live]; omega)]
      simp only [h]
      rw [List.getElem_append_left (by omega), List.getElem_append_left (by omega)]

theorem openSlot_count (a : PhysicalAllocator) (i : Nat) (r : PhysicalRegion) :
    (a.openSlot i r).count = a.count + 1 := by
  simp [openSlot]

theorem region_openSlot (a : PhysicalAllocator) {i : Nat} (r : PhysicalRegion)
    (hi : i ≤ a.count) (hcap : a.count < maxFreeRanges) (j : Nat) :
    (a.openSlot i r).region j =
      if j = i then r else if i < j ∧ j ≤ a.count then a.region (j - 1) else a.region j := by
  unfold openSlot
  simp only [region_mk_count]
  rw [region_setRegion _ _ _ _ (by omega)]
  by_cases hj : j = i
  · rw [if_pos hj, if_pos hj]
  · rw [if_neg hj, if_neg hj, region_shiftUp _ _ _ _ (by omega) hcap]
    split_ifs <;> first | rfl | omega

theorem Tidy.openSlot {a : PhysicalAllocator} (ha : Tidy a) {i : Nat} (r : PhysicalRegion)
    (hi : i ≤ a.count) (hcap : a.count < maxFreeRanges) : Tidy (a.openSlot i r) := by
  refine ⟨?_, fun j hj => ?_⟩
  · rw [openSlot_count]
    omega
  · rw [openSlot_count] at hj
    rw [region_openSlot a r hi hcap, if_neg (by omega), if_neg (by omega),
      ha.tail_empty _ (by omega)]

theorem live_openSlot {a : PhysicalAllocator} (hcap : a.count < maxFreeRanges)
    {l₁ l₂ : List PhysicalRegion} (r : PhysicalRegion) (h : a.live = l₁ ++ l₂) :
    (a.openSlot l₁.length r).live = l₁ ++ r :: l₂ := by
  have hcount : a.count = l₁.length + l₂.length := by
    rw [← length_live, h]
    simp
  apply List.ext_getElem
  · rw [length_live, openSlot_count, List.length_append, List.length_cons]
    omega
  · intro j hj hj'
    rw [length_live, openSlot_count] at hj
    rw [getElem_live, region_openSlot a r (by omega) hcap]
    rcases Nat.lt_trichotomy j l₁.length with hlt | heq | hgt
    · rw [if_neg (by omega), if_neg (by omega), ← getElem_live a j (by rw [length_live]; omega)]
      simp only [h]
      rw [List.getElem_append_left hlt, List.getElem_append_left hlt]
    · subst heq
      simp
    · rw [if_neg (by omega), if_pos (by omega),
        ← getElem_live a (j - 1) (by rw [length_live]; omega)]
      simp only [h]
      rw [List.getElem_append_right (by omega), List.getElem_append_right (by omega)]
      simp [show j - l₁.length = (j - 1 - l₁.length) + 1 by omega]

theorem Tidy.setRegion {a : PhysicalAllocator} (ha : Tidy a) {i : Nat} (r : PhysicalRegion)
    (hi : i < a.count) : Tidy (a.setRegion i r) := by
  have hle := ha.count_le
  refine ⟨hle, fun j hj => ?_⟩
  rw [setRegion_count] at hj
  rw [region_setRegion _ _ _ _ (by omega), if_neg (by omega), ha.tail_empty _ hj]

theorem live_setRegion {a : PhysicalAllocator} (ha : Tidy a) {l₁ l₂ : List PhysicalRegion}
    {r : PhysicalRegion} (r' : PhysicalRegion) (h : a.live = l₁ ++ r :: l₂) :
    (a.setRegion l₁.length r').live = l₁ ++ r' :: l₂ := by
  have hle := ha.count_le
  have hcount : a.count = l₁.length + (l₂.length + 1) := by
    rw [← length_live, h]
    simp
  apply List.ext_getElem
  · rw [length_live, setRegion_count, List.length_append, List.length_cons]
    omega
  · intro j hj hj'
    rw [length_live, setRegion_count] at hj
    rw [getElem_live, region_setRegion _ _ _ _ (by omega)]
    rcases Nat.lt_trichotomy j l₁.length with hlt | heq | hgt
    · rw [if_neg (by omega), ← getElem_live a j (by rw [length_live]; omega)]
      simp only [h]
      rw [List.getElem_append_left hlt, List.getElem_append_left hlt]
    · subst heq
      simp
    · rw [if_neg (by omega), ← getElem_live a j (by rw [length_live]; omega)]
      simp only [h]
      rw [List.getElem_append_right (by omega), List.getElem_append_right (by omega)]
      simp [show j - l₁.length = (j - 1 - l₁.length) + 1 by omega]

/-! ### The loops -/

/-- The merging loop is `RangeList.absorb` on the regions from `index` on. -/
theorem mergeTouching_spec {a : PhysicalAllocator} (ha : Tidy a)
    (passed : List PhysicalRegion) {l : List PhysicalRegion} (h : a.live = passed ++ l) (s e : Nat) :
    Tidy (mergeTouching l.length passed.length s e a).2 ∧
      (mergeTouching l.length passed.length s e a).1 = (absorb s e l).2 ∧
      (mergeTouching l.length passed.length s e a).2.live = passed ++ (absorb s e l).1 := by
  induction l generalizing a passed s e with
  | nil => exact ⟨ha, rfl, h⟩
  | cons r l ih =>
    have hr := region_eq_of_live h
    have hcount : passed.length < a.count := by
      rw [← length_live, h]
      simp
    rw [List.length_cons, mergeTouching, absorb, hr]
    by_cases hapart : r.stop < s ∨ e < r.start
    · have hnext := ih ha (passed ++ [r]) (by simp [h]) s e
      rw [List.length_append, List.length_singleton] at hnext
      simpa only [gt_iff_lt, if_pos hapart, List.append_assoc, List.singleton_append] using hnext
    · have hnext := ih (ha.removeRegion hcount) passed (live_removeRegion ha h)
        (min s r.start) (max e r.stop)
      simpa only [gt_iff_lt, if_neg hapart] using hnext

theorem findInsertAt_spec {a : PhysicalAllocator} (passed : List PhysicalRegion)
    {l : List PhysicalRegion} (h : a.live = passed ++ l) (r : PhysicalRegion) :
    ∃ l₁ l₂, l = l₁ ++ l₂ ∧ insertByStart r l = l₁ ++ r :: l₂ ∧
      findInsertAt r.start a l.length passed.length = (passed ++ l₁).length := by
  induction l generalizing passed with
  | nil => exact ⟨[], [], rfl, rfl, by simp [findInsertAt]⟩
  | cons x l ih =>
    have hx := region_eq_of_live h
    rw [List.length_cons, findInsertAt, hx, insertByStart]
    by_cases hlt : x.start < r.start
    · obtain ⟨l₁, l₂, rfl, hins, hfind⟩ := ih (passed ++ [x]) (by simp [h])
      refine ⟨x :: l₁, l₂, rfl, by rw [if_pos hlt, hins]; rfl, ?_⟩
      rw [if_pos hlt]
      simpa using hfind
    · exact ⟨[], x :: l, rfl, by rw [if_neg hlt]; rfl, by rw [if_neg hlt, List.append_nil]⟩

/-- Opening a slot where `insert_at` points is `RangeList.insertByStart`. -/
theorem openSlot_spec {a : PhysicalAllocator} (ha : Tidy a) (hcap : a.count < maxFreeRanges)
    (r : PhysicalRegion) :
    Tidy (a.openSlot (findInsertAt r.start a a.count 0) r) ∧
      (a.openSlot (findInsertAt r.start a a.count 0) r).live = insertByStart r a.live := by
  obtain ⟨l₁, l₂, hsplit, hins, hfind⟩ :=
    findInsertAt_spec (a := a) [] (l := a.live) rfl r
  simp only [length_live, List.length_nil, List.nil_append] at hfind
  have hle : l₁.length ≤ a.count := by
    rw [← length_live, hsplit]
    simp
  rw [hfind, hins]
  exact ⟨ha.openSlot r hle hcap, live_openSlot hcap r hsplit⟩

/-- `insert_range` adds its range to the list; it fails exactly when the regions
it does not touch already fill the array. -/
theorem insertRange_cases {a : PhysicalAllocator} (ha : Tidy a) {s e : Nat} (hse : s < e) :
    (∃ a', a.insertRange s e = some a' ∧ Tidy a' ∧ a'.live = add s e a.live ∧
      (absorb s e a.live).1.length < maxFreeRanges) ∨
    (a.insertRange s e = none ∧ maxFreeRanges ≤ (absorb s e a.live).1.length) := by
  obtain ⟨htidy, hmerged, hlive⟩ := mergeTouching_spec ha [] (l := a.live) rfl s e
  simp only [length_live, List.length_nil, List.nil_append] at htidy hmerged hlive
  have hcount : (mergeTouching a.count 0 s e a).2.count = (absorb s e a.live).1.length := by
    rw [← length_live, hlive]
  rw [insertRange, if_neg (by omega)]
  by_cases hcap : (mergeTouching a.count 0 s e a).2.count < maxFreeRanges
  · left
    obtain ⟨htidy', hlive'⟩ :=
      openSlot_spec htidy hcap (mergeTouching a.count 0 s e a).1
    refine ⟨_, if_pos hcap, htidy', ?_, hcount ▸ hcap⟩
    rw [hlive', hlive, hmerged, add]
  · exact .inr ⟨if_neg hcap, by omega⟩

theorem insertRange_spec {a a' : PhysicalAllocator} (ha : Tidy a) {s e : Nat} (hse : s < e)
    (h : a.insertRange s e = some a') : Tidy a' ∧ a'.live = add s e a.live := by
  rcases insertRange_cases ha hse with ⟨b, hb, htidy, hlive, -⟩ | ⟨hnone, -⟩
  · obtain rfl := Option.some.inj (h.symm.trans hb)
    exact ⟨htidy, hlive⟩
  · rw [hnone] at h
    cases h

/-- The reserving loop is `RangeList.remove` on the regions from `index` on. On separated regions
it fails only where that list gets too long: the one region that it splits is followed by regions
it does not touch. -/
theorem reserveLoop_cases {a : PhysicalAllocator} (ha : Tidy a) (s e : Nat)
    (passed : List PhysicalRegion) {l : List PhysicalRegion} (h : a.live = passed ++ l) :
    (∃ a', reserveLoop s e l.length passed.length a = some a' ∧ Tidy a' ∧
      a'.live = passed ++ remove s e l) ∨
    (reserveLoop s e l.length passed.length a = none ∧
      (Separated l → maxFreeRanges < (passed ++ remove s e l).length)) := by
  induction l generalizing a passed with
  | nil => exact .inl ⟨a, rfl, ha, h⟩
  | cons r l ih =>
    have hr := region_eq_of_live h
    have hcount : a.count = passed.length + (l.length + 1) := by
      rw [← length_live, h, List.length_append, List.length_cons]
    have hlt : passed.length < a.count := by omega
    -- What the rest of the loop does is what the loop does.
    have hrest : ∀ {b : PhysicalAllocator} (passed' : List PhysicalRegion), Tidy b →
        b.live = passed' ++ l →
        (∃ a', reserveLoop s e l.length passed'.length b = some a' ∧ Tidy a' ∧
          a'.live = passed' ++ remove s e l) ∨
        (reserveLoop s e l.length passed'.length b = none ∧
          (Separated (r :: l) → maxFreeRanges < (passed' ++ remove s e l).length)) := by
      intro b passed' hb hlive
      refine (ih hb passed' hlive).imp_right fun hfail => ⟨hfail.1, fun hl => ?_⟩
      exact hfail.2 (separated_cons.mp hl).2.2
    rw [List.length_cons, reserveLoop, hr, remove_cons, cut]
    simp only [ge_iff_le]
    -- one case per branch of the loop body; each is one list edit at `index`
    split_ifs with h₁ h₂ h₃ h₄ hcap
    · have hnext := hrest (passed ++ [r]) ha (by simp [h])
      simpa using hnext
    · have hnext := hrest passed (ha.removeRegion hlt) (live_removeRegion ha h)
      simpa using hnext
    · have hmin : min e r.stop = e := by omega
      have hnext := hrest (passed ++ [⟨e, r.stop⟩]) (ha.setRegion ⟨e, r.stop⟩ hlt)
        (by simp [live_setRegion ha _ h])
      rw [hmin]
      simpa using hnext
    · have hmax : max s r.start = s := by omega
      have hnext := hrest (passed ++ [⟨r.start, s⟩]) (ha.setRegion ⟨r.start, s⟩ hlt)
        (by simp [live_setRegion ha _ h])
      rw [hmax]
      simpa using hnext
    · have hset := live_setRegion ha ⟨r.start, s⟩ h
      have hlive : (a.setRegion passed.length ⟨r.start, s⟩).live =
          (passed ++ [⟨r.start, s⟩]) ++ l := by simp [hset]
      have hopen := live_openSlot (a := a.setRegion passed.length ⟨r.start, s⟩) hcap
        ⟨e, r.stop⟩ hlive
      rw [List.length_append, List.length_singleton] at hopen
      have hnext := hrest (passed ++ [⟨r.start, s⟩, ⟨e, r.stop⟩])
        ((ha.setRegion ⟨r.start, s⟩ hlt).openSlot ⟨e, r.stop⟩ hlt hcap) (by simp [hopen])
      simpa using hnext
    · refine .inr ⟨rfl, fun hl => ?_⟩
      have hkeep : remove s e l = l := by
        refine remove_of_le fun x hx => ?_
        have hgap := (separated_cons.mp hl).2.1 x hx
        omega
      rw [hkeep]
      simp only [List.length_append, List.length_cons, List.length_nil]
      omega

/-- `reserve_range` on separated regions: it fails exactly when what is left does not fit. -/
theorem reserveRange_cases {a : PhysicalAllocator} (ha : Tidy a) {s e : Nat} (hse : s < e) :
    (∃ a', a.reserveRange s e = some a' ∧ Tidy a' ∧ a'.live = remove s e a.live) ∨
      (a.reserveRange s e = none ∧
        (Separated a.live → maxFreeRanges < (remove s e a.live).length)) := by
  have hloop := reserveLoop_cases ha s e [] (l := a.live) rfl
  rw [reserveRange, if_neg (by omega)]
  simpa using hloop

theorem reserveRange_spec {a a' : PhysicalAllocator} (ha : Tidy a) {s e : Nat} (hse : s < e)
    (h : a.reserveRange s e = some a') : Tidy a' ∧ a'.live = remove s e a.live := by
  rcases reserveRange_cases ha hse with ⟨b, hb, htidy, hlive⟩ | ⟨hnone, -⟩
  · obtain rfl := Option.some.inj (h.symm.trans hb)
    exact ⟨htidy, hlive⟩
  · rw [hnone] at h
    cases h

/-- The allocation scan serves from the first region that can, and only that
region changes. -/
theorem allocateFirst_cases {a : PhysicalAllocator} (ha : Tidy a)
    (take : PhysicalRegion → Option (Nat × PhysicalRegion))
    (passed : List PhysicalRegion) {l : List PhysicalRegion} (h : a.live = passed ++ l) :
    (allocateFirst take l.length passed.length a = none ∧ ∀ r ∈ l, take r = none) ∨
    ∃ l₁ r l₂ page rest a', l = l₁ ++ r :: l₂ ∧ (∀ x ∈ l₁, take x = none) ∧
      take r = some (page, rest) ∧
      allocateFirst take l.length passed.length a = some (page, a') ∧ Tidy a' ∧
      a'.live = passed ++ (l₁ ++
        ((if PhysicalRegion.isEmpty rest then [] else [rest]) ++ l₂)) := by
  induction l generalizing passed with
  | nil => exact .inl ⟨rfl, by simp⟩
  | cons r l ih =>
    have hr := region_eq_of_live h
    have hcount : passed.length < a.count := by
      rw [← length_live, h]
      simp
    rw [List.length_cons, allocateFirst, hr]
    cases htake : take r with
    | some found =>
      obtain ⟨page, rest⟩ := found
      right
      have hset := live_setRegion ha rest h
      have htidy := ha.setRegion rest hcount
      refine ⟨[], r, l, page, rest, _, rfl, by simp, htake, rfl, ?_, ?_⟩
      · split
        · exact htidy.removeRegion hcount
        · exact htidy
      · split
        · simpa using live_removeRegion htidy hset
        · simpa using hset
    | none =>
      have hnext := ih (passed ++ [r]) (by simp [h])
      rw [List.length_append, List.length_singleton] at hnext
      rcases hnext with ⟨hnone, hall⟩ | ⟨l₁, x, l₂, page, rest, a', rfl, hall, hx, hrun, ht, hl⟩
      · exact .inl ⟨hnone, by simpa [htake] using hall⟩
      · exact .inr ⟨r :: l₁, x, l₂, page, rest, a', rfl, by simpa [htake] using hall, hx,
          hrun, ht, by simpa using hl⟩

end PhysicalAllocator

end Lazers.Memory
