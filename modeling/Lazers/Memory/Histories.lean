import Lazers.Memory.State

/-!
# Allocator histories

A history is a list of calls, made one after the other from `reset()`. A call that ends with
`AllocatorExhausted` leaves the allocator as it was; the capacity assertion ends the history.

- `histories_canonical`: two histories that end with the same free addresses end with the same
  array, so the order and the grouping of what is added or freed leave no trace;
- `allocation_is_first_fit`: the scan tries the starts of the regions only, and that is enough,
  since a free interval lies inside one region.
-/

namespace Lazers.Memory

open RangeList PhysicalAllocator

/-! ## Calls and histories -/

namespace AllocatorOp

/-- One call; `none` is the capacity assertion. -/
def run (a : PhysicalAllocator) : AllocatorOp → Option PhysicalAllocator
  | .addRegion start stop => a.addRegion start stop
  | .reserveRange start stop => a.reserveRange start stop
  -- `AllocatorExhausted` changes nothing.
  | .allocatePage => some ((a.allocatePage.map Prod.snd).getD a)
  | .allocateContiguousPages count =>
    some (((a.allocateContiguousPages count).map Prod.snd).getD a)
  | .freeContiguousPages start count => a.freeContiguousPages start count

/-- The ranges that the callers pass are page-aligned and 64-bit, and nothing at address zero is
added or freed. A request may be for any number of pages. -/
def Regular : AllocatorOp → Prop
  | .addRegion start stop => PageRange start stop
  | .reserveRange start stop =>
    start % pageSize = 0 ∧ stop % pageSize = 0 ∧ stop < u64Limit
  | .allocatePage => True
  | .allocateContiguousPages _ => True
  | .freeContiguousPages start count => PageRange start (start + count * pageSize)

/-- The range that a call makes free, if that is what it does. -/
def gained : AllocatorOp → Option (Range Nat)
  | .addRegion start stop => some ⟨start, stop⟩
  | .freeContiguousPages start count => some ⟨start, start + count * pageSize⟩
  | _ => none

end AllocatorOp

/-- The allocator after some calls from `reset()`, unless an assertion failed. -/
def runHistory (ops : List AllocatorOp) : Option PhysicalAllocator :=
  ops.foldlM AllocatorOp.run PhysicalAllocator.new

/-- What every call keeps holds after every history. -/
theorem foldlM_run_induction {P : PhysicalAllocator → Prop} {ops : List AllocatorOp}
    {a a' : PhysicalAllocator} (ha : P a) (h : ops.foldlM AllocatorOp.run a = some a')
    (hstep : ∀ op ∈ ops, ∀ b b', P b → op.run b = some b' → P b') : P a' := by
  induction ops generalizing a with
  | nil =>
    cases h
    exact ha
  | cons op rest ih =>
    obtain ⟨b, hrun, hrest⟩ := Option.bind_eq_some_iff.mp h
    refine ih ?_ hrest fun op' hop' => hstep op' (List.mem_cons_of_mem _ hop')
    exact hstep op List.mem_cons_self a b ha hrun

/-! ## The form of the array -/

namespace PhysicalAllocator

theorem normal_new : Normal new := ⟨tidy_new, separated_nil⟩

/-- The free set determines a normal array. -/
theorem Normal.ext_free {a b : PhysicalAllocator} (ha : Normal a) (hb : Normal b)
    (h : a.free = b.free) : a = b :=
  ha.tidy.ext_live hb.tidy (ha.separated.unique hb.separated h)

theorem Normal.allocateContiguousPages {a a' : PhysicalAllocator} (ha : Normal a)
    {count page : Nat} (h : a.allocateContiguousPages count = some (page, a')) : Normal a' := by
  obtain ⟨l₁, r, l₂, hsplit, htidy, hlive, -, -, hfits, -⟩ :=
    allocateContiguousPages_cut ha.tidy h
  refine ⟨htidy, ?_⟩
  rw [hlive]
  exact separated_consume (hsplit ▸ ha.separated) (by omega)

/-- Freeing inserts some range, even where the arithmetic wraps. -/
theorem Normal.freeContiguousPages {a a' : PhysicalAllocator} (ha : Normal a) {start count : Nat}
    (h : a.freeContiguousPages start count = some a') : Normal a' := by
  rw [PhysicalAllocator.freeContiguousPages] at h
  split_ifs at h with hzero
  · obtain rfl := Option.some.inj h
    exact ha
  · exact (ha.insertRange h).1

/-- **Every call keeps the form**, with any arguments at all. -/
theorem Normal.run {a a' : PhysicalAllocator} (ha : Normal a) {op : AllocatorOp}
    (h : op.run a = some a') : Normal a' := by
  cases op with
  | addRegion start stop => exact (ha.insertRange h).1
  | reserveRange start stop => exact (ha.reserveRange h).1
  | allocatePage =>
    obtain rfl := Option.some.inj h
    cases halloc : a.allocatePage with
    | none => exact ha
    | some taken =>
      rw [allocatePage_eq] at halloc
      exact ha.allocateContiguousPages halloc
  | allocateContiguousPages count =>
    obtain rfl := Option.some.inj h
    cases halloc : a.allocateContiguousPages count with
    | none => exact ha
    | some taken => exact ha.allocateContiguousPages halloc
  | freeContiguousPages start count => exact ha.freeContiguousPages h

/-- What a call frees is added to the free set. -/
theorem Normal.run_gained {a a' : PhysicalAllocator} (ha : Normal a) {op : AllocatorOp}
    (hop : op.Regular) {r : Range Nat} (hgained : op.gained = some r) (h : op.run a = some a') :
    a'.free = a.free ∪ r.points := by
  cases op with
  | addRegion start stop =>
    cases hgained
    exact (ha.insertRange h).2
  | freeContiguousPages start count =>
    cases hgained
    obtain ⟨-, -, -, hlim⟩ := hop
    rcases Nat.eq_zero_or_pos count with rfl | hcount
    · obtain rfl := Option.some.inj h
      rw [Range.points, Nat.zero_mul, Nat.add_zero, Set.Ico_self, Set.union_empty]
    · rw [AllocatorOp.run, freeContiguousPages_eq hcount hlim] at h
      exact (ha.insertRange h).2
  | reserveRange start stop => cases hgained
  | allocatePage => cases hgained
  | allocateContiguousPages count => cases hgained

end PhysicalAllocator

theorem normal_of_runHistory {ops : List AllocatorOp} {a : PhysicalAllocator}
    (h : runHistory ops = some a) : Normal a :=
  foldlM_run_induction normal_new h fun _ _ _ _ hb hrun => hb.run hrun

/-- Calls that only make addresses free leave their union behind. -/
theorem free_of_gains {gains : List AllocatorOp} {a a' : PhysicalAllocator} (ha : Normal a)
    (hgains : ∀ op ∈ gains, op.Regular ∧ op.gained.isSome)
    (h : gains.foldlM AllocatorOp.run a = some a') :
    Normal a' ∧ a'.free = a.free ∪ carrier (gains.filterMap AllocatorOp.gained) := by
  induction gains generalizing a with
  | nil =>
    cases h
    exact ⟨ha, by rw [List.filterMap_nil, carrier_nil, Set.union_empty]⟩
  | cons op rest ih =>
    obtain ⟨b, hrun, hrest⟩ := Option.bind_eq_some_iff.mp h
    obtain ⟨hregular, hsome⟩ := hgains op List.mem_cons_self
    obtain ⟨r, hr⟩ := Option.isSome_iff_exists.mp hsome
    obtain ⟨hnormal, hfree⟩ := ih (ha.run hrun)
      (fun op' hop' => hgains op' (List.mem_cons_of_mem _ hop')) hrest
    refine ⟨hnormal, ?_⟩
    rw [hfree, ha.run_gained hregular hr hrun, List.filterMap_cons_some hr, carrier_cons,
      Set.union_assoc]

/-- **The representation is canonical.** Two histories that end with the same free addresses end
with the same regions and the same count. So what is added or freed after a history may come in
any order and any grouping. -/
theorem histories_canonical {ops ops' : List AllocatorOp} {a a' : PhysicalAllocator}
    (h : runHistory ops = some a) (h' : runHistory ops' = some a') :
    (a.free = a'.free → a = a') ∧
    ∀ gains gains' : List AllocatorOp,
      (∀ op ∈ gains ++ gains', op.Regular ∧ op.gained.isSome) →
      carrier (gains.filterMap AllocatorOp.gained) =
        carrier (gains'.filterMap AllocatorOp.gained) →
      ∀ b b', runHistory (ops ++ gains) = some b → runHistory (ops ++ gains') = some b' →
        b = b' := by
  have ha := normal_of_runHistory h
  refine ⟨fun hfree => ha.ext_free (normal_of_runHistory h') hfree, ?_⟩
  intro gains gains' hgains hsame b b' hb hb'
  rw [runHistory, List.foldlM_append] at hb hb'
  rw [runHistory] at h
  rw [h] at hb hb'
  obtain ⟨hnormal, hfree⟩ :=
    free_of_gains ha (fun op hop => hgains op (List.mem_append_left _ hop)) hb
  obtain ⟨hnormal', hfree'⟩ :=
    free_of_gains ha (fun op hop => hgains op (List.mem_append_right _ hop)) hb'
  exact hnormal.ext_free hnormal' (by rw [hfree, hfree', hsame])

/-- A hole between two regions, filled last or with its neighbour. -/
theorem histories_canonical_at_bridge :
    ∃ b, runHistory ([.addRegion 4096 8192] ++ [.addRegion 12288 16384,
        .freeContiguousPages 8192 1]) = some b ∧
      runHistory ([.addRegion 4096 8192] ++ [.addRegion 8192 16384]) = some b := by
  have hstart : runHistory [.addRegion 4096 8192] = some AllocatorRun.onePage := by
    decide +kernel
  obtain ⟨b, hb⟩ := Option.isSome_iff_exists.mp (show (runHistory ([.addRegion 4096 8192] ++
    [.addRegion 12288 16384, .freeContiguousPages 8192 1])).isSome by decide +kernel)
  obtain ⟨b', hb'⟩ := Option.isSome_iff_exists.mp (show (runHistory ([.addRegion 4096 8192] ++
    [.addRegion 8192 16384])).isSome by decide +kernel)
  have hsame : carrier [(⟨12288, 16384⟩ : Range Nat), ⟨8192, 12288⟩] =
      carrier [(⟨8192, 16384⟩ : Range Nat)] := by
    ext x
    simp only [mem_carrier, List.mem_cons, List.not_mem_nil, or_false, exists_eq_or_imp,
      exists_eq_left]
    omega
  refine ⟨b, hb, ?_⟩
  have heq := (histories_canonical hstart hstart).2
    [.addRegion 12288 16384, .freeContiguousPages 8192 1] [.addRegion 8192 16384] ?_ hsame b b' hb
    hb'
  · rw [heq, hb']
  · intro op hop
    simp only [List.cons_append, List.nil_append, List.mem_cons, List.not_mem_nil, or_false] at hop
    rcases hop with rfl | rfl | rfl
    · exact ⟨⟨rfl, by decide, rfl, by decide⟩, rfl⟩
    · exact ⟨⟨rfl, by decide, rfl, by decide⟩, rfl⟩
    · exact ⟨⟨rfl, by decide, rfl, by decide⟩, rfl⟩

/-! ## First fit -/

theorem valid_of_runHistory {ops : List AllocatorOp} (hops : ∀ op ∈ ops, op.Regular)
    {a : PhysicalAllocator} (h : runHistory ops = some a) : Valid a := by
  refine foldlM_run_induction valid_new h fun op hop b b' hb hrun => ?_
  have hregular := hops op hop
  cases op with
  | addRegion start stop =>
    obtain ⟨hs, hpos, he, hlim⟩ := hregular
    exact (addRegion_spec hb hs hpos he hlim hrun).1
  | reserveRange start stop =>
    obtain ⟨hs, he, hlim⟩ := hregular
    exact (reserveRange_free hb hs he hlim hrun).1
  | allocatePage =>
    obtain rfl := Option.some.inj hrun
    cases halloc : b.allocatePage with
    | none => exact hb
    | some taken => exact (allocatePage_spec hb halloc).1
  | allocateContiguousPages count =>
    obtain rfl := Option.some.inj hrun
    cases halloc : b.allocateContiguousPages count with
    | none => exact hb
    | some taken => exact (allocateContiguousPages_spec hb halloc).1
  | freeContiguousPages start count =>
    obtain ⟨hs, hpos, -, hlim⟩ := hregular
    rcases Nat.eq_zero_or_pos count with rfl | hcount
    · obtain rfl := Option.some.inj hrun
      exact hb
    · exact (freeContiguousPages_spec hb hcount hs hpos hlim hrun).1

namespace PhysicalAllocator

/-- A free block lies inside one region. -/
theorem Valid.region_of_block {a : PhysicalAllocator} (ha : Valid a) {start count : Nat}
    (hcount : 0 < count) (hfree : block start count ⊆ a.free) :
    ∃ r ∈ a.live, r.start ≤ start ∧ start + count * 4096 ≤ r.stop := by
  have hlt : start < start + count * pageSize :=
    Nat.lt_add_of_pos_right (Nat.mul_pos hcount (by decide))
  exact ha.separated.exists_range_of_subset hlt hfree

/-- **Allocation fails only without a free block.** -/
theorem allocateContiguousPages_eq_none_iff {a : PhysicalAllocator} (ha : Valid a) {count : Nat}
    (hcount : 0 < count) :
    a.allocateContiguousPages count = none ↔ ∀ start, ¬ block start count ⊆ a.free := by
  constructor
  · intro h start hfree
    obtain ⟨r, hr, hlo, hhi⟩ := ha.region_of_block hcount hfree
    have hshort := allocateContiguousPages_eq_none ha hcount h r hr
    omega
  · intro h
    cases halloc : a.allocateContiguousPages count with
    | none => rfl
    | some taken =>
      obtain ⟨-, -, hsub, -⟩ := allocateContiguousPages_spec ha halloc
      exact absurd hsub (h taken.1)

/-- **The block handed out is the lowest free one**: a block below it would lie in an earlier
region, and those are too short. -/
theorem allocateContiguousPages_isLeast {a a' : PhysicalAllocator} (ha : Valid a)
    {count page : Nat} (h : a.allocateContiguousPages count = some (page, a')) :
    IsLeast {start | block start count ⊆ a.free} page := by
  obtain ⟨-, -, hsub, hcount, -⟩ := allocateContiguousPages_spec ha h
  refine ⟨hsub, fun start hstart => ?_⟩
  obtain ⟨l₁, r, l₂, hsplit, -, -, rfl, -, -, hskip⟩ := allocateContiguousPages_live ha.sound h
  obtain ⟨x, hx, hlo, hhi⟩ := ha.region_of_block hcount hstart
  have hsep : Separated (l₁ ++ r :: l₂) := hsplit ▸ ha.separated
  obtain ⟨-, hrest, -⟩ := separated_append.mp hsep
  obtain ⟨hne, hafter, -⟩ := separated_cons.mp hrest
  rw [hsplit] at hx
  rcases List.mem_append.mp hx with hx | hx
  · have hshort := hskip x hx
    omega
  · rcases List.mem_cons.mp hx with rfl | hx
    · exact hlo
    · have hgap := hafter x hx
      omega

end PhysicalAllocator

/-- The zeroed memory apart, a request to the memory state is one to its allocator. -/
theorem allocateContiguousPages_eq_error_iff {count : Nat} {e : MemoryError} {s s' : MemoryState} :
    MemoryState.allocateContiguousPages count s = .error e s' ↔
      s.allocator.allocateContiguousPages count = none ∧ e = .allocatorExhausted ∧ s' = s := by
  rw [MemoryState.allocateContiguousPages]
  cases s.allocator.allocateContiguousPages count with
  | none => simp [eq_comm]
  | some taken => simp

theorem allocateContiguousPages_eq_ok {count start : Nat} {s s' : MemoryState}
    (h : MemoryState.allocateContiguousPages count s = .ok start s') :
    ∃ a, s.allocator.allocateContiguousPages count = some (start, a) := by
  rw [MemoryState.allocateContiguousPages] at h
  cases halloc : s.allocator.allocateContiguousPages count with
  | none =>
    rw [halloc] at h
    cases h
  | some taken =>
    rw [halloc] at h
    cases h
    exact ⟨taken.2, rfl⟩

/-- One page is a request for one page, zeroing included. -/
theorem allocatePage_eq_contiguous (s : MemoryState) :
    MemoryState.allocatePage s = MemoryState.allocateContiguousPages 1 s := by
  rw [MemoryState.allocatePage, MemoryState.allocateContiguousPages, allocatePage_eq,
    Nat.one_mul]

/-- Where anything is free, the lowest free block of one page is a page frame. -/
theorem isLeast_page {a : PhysicalAllocator} {page : Nat}
    (h : IsLeast {start | block start 1 ⊆ a.free} page) (hal : page % pageSize = 0) :
    IsLeast {page | page % pageSize = 0 ∧ block page 1 ⊆ a.free} page :=
  ⟨⟨hal, h.1⟩, fun _ hp => h.2 hp.2⟩

/-- **Complete and lowest first.** After every history, and for every request of at least one
page, the allocator reports exhaustion exactly when no interval of that length is free, and
otherwise returns the lowest address at which one starts. -/
theorem allocation_is_first_fit {ops : List AllocatorOp} (hops : ∀ op ∈ ops, op.Regular)
    {s : MemoryState} (h : runHistory ops = some s.allocator) :
    (∀ count, 0 < count →
      (MemoryState.allocateContiguousPages count s = .error .allocatorExhausted s ↔
        ∀ start, ¬ block start count ⊆ s.free) ∧
      (∀ start s', MemoryState.allocateContiguousPages count s = .ok start s' →
        IsLeast {start | block start count ⊆ s.free} start ∧
          start + count * pageSize < u64Limit) ∧
      ∀ e s', MemoryState.allocateContiguousPages count s = .error e s' →
        e = .allocatorExhausted ∧ s' = s) ∧
    ((∃ page s', MemoryState.allocatePage s = .ok page s') ↔
      ∃ page, page % pageSize = 0 ∧ block page 1 ⊆ s.free) ∧
    (∀ page s', MemoryState.allocatePage s = .ok page s' →
      IsLeast {page | page % pageSize = 0 ∧ block page 1 ⊆ s.free} page) ∧
    ∀ e s', MemoryState.allocatePage s = .error e s' → e = .allocatorExhausted ∧ s' = s := by
  have ha := valid_of_runHistory hops h
  refine ⟨fun count hcount => ⟨?_, fun start s' hok => ?_, fun e s' herr => ?_⟩, ⟨?_, ?_⟩,
    fun page s' hok => ?_, fun e s' herr => ?_⟩
  · rw [allocateContiguousPages_eq_error_iff, ← allocateContiguousPages_eq_none_iff ha hcount]
    simp
  · obtain ⟨a, halloc⟩ := allocateContiguousPages_eq_ok hok
    obtain ⟨-, -, -, -, -, -, hlim⟩ := allocateContiguousPages_spec ha halloc
    exact ⟨allocateContiguousPages_isLeast ha halloc, hlim⟩
  · exact (allocateContiguousPages_eq_error_iff.mp herr).2
  · rintro ⟨page, s', hok⟩
    obtain ⟨a, halloc, -⟩ := MemoryState.allocatePage_eq_ok hok
    obtain ⟨-, -, hsub, hal, -⟩ := allocatePage_spec ha halloc
    exact ⟨page, hal, hsub⟩
  · rintro ⟨page, -, hsub⟩
    rw [allocatePage_eq_contiguous]
    cases hrun : MemoryState.allocateContiguousPages 1 s with
    | ok start s' => exact ⟨start, s', rfl⟩
    | error e s' =>
      obtain ⟨hnone, -⟩ := allocateContiguousPages_eq_error_iff.mp hrun
      exact absurd hsub ((allocateContiguousPages_eq_none_iff ha Nat.one_pos).mp hnone page)
  · rw [allocatePage_eq_contiguous] at hok
    obtain ⟨a, halloc⟩ := allocateContiguousPages_eq_ok hok
    obtain ⟨-, -, -, -, hal, -⟩ := allocateContiguousPages_spec ha halloc
    exact isLeast_page (allocateContiguousPages_isLeast ha halloc) hal
  · rw [allocatePage_eq_contiguous] at herr
    exact (allocateContiguousPages_eq_error_iff.mp herr).2

/-- Two regions with a reserved page between them, of one page and of three. -/
def splitHistory : List AllocatorOp := [.addRegion 4096 24576, .reserveRange 8192 12288]

theorem allocation_is_first_fit_at_splitHistory :
    ∃ s : MemoryState, runHistory splitHistory = some s.allocator ∧
      (∃ s', MemoryState.allocateContiguousPages 2 s = .ok 12288 s' ∧
        IsLeast {start | block start 2 ⊆ s.free} 12288) ∧
      ∀ start, ¬ block start 4 ⊆ s.free := by
  obtain ⟨a, ha⟩ := Option.isSome_iff_exists.mp
    (show (runHistory splitHistory).isSome by decide +kernel)
  have hops : ∀ op ∈ splitHistory, op.Regular := by
    intro op hop
    simp only [splitHistory, List.mem_cons, List.not_mem_nil, or_false] at hop
    rcases hop with rfl | rfl
    · exact ⟨rfl, by decide, rfl, by decide⟩
    · exact ⟨rfl, rfl, by decide⟩
  have htwo : (a.allocateContiguousPages 2).map Prod.fst = some 12288 := by
    have hrun : (runHistory splitHistory).bind
        (fun a => (a.allocateContiguousPages 2).map Prod.fst) = some 12288 := by decide +kernel
    rwa [ha] at hrun
  have hfour : (a.allocateContiguousPages 4).isNone := by
    have hrun : (runHistory splitHistory).map
        (fun a => (a.allocateContiguousPages 4).isNone) = some true := by decide +kernel
    rw [ha] at hrun
    exact Option.some.inj hrun
  obtain ⟨⟨start, a'⟩, htaken, rfl⟩ := Option.map_eq_some_iff.mp htwo
  refine ⟨{ MemoryState.new ⟨fun _ => 0, []⟩ with allocator := a }, ha, ?_, ?_⟩
  · have htake : ∃ s', MemoryState.allocateContiguousPages 2
        { MemoryState.new ⟨fun _ => 0, []⟩ with allocator := a } = .ok 12288 s' := by
      rw [MemoryState.allocateContiguousPages]
      dsimp only
      rw [htaken]
      exact ⟨_, rfl⟩
    obtain ⟨s', hok⟩ := htake
    exact ⟨s', hok, (((allocation_is_first_fit hops ha).1 2 (by decide)).2.1 _ _ hok).1⟩
  · refine ((allocation_is_first_fit hops ha).1 4 (by decide)).1.mp ?_
    rw [MemoryState.allocateContiguousPages]
    dsimp only
    rw [Option.isNone_iff_eq_none.mp hfour]

end Lazers.Memory
