import Lazers.Memory.LoadBudget
import Lazers.Memory.UserSpace

/-!
# Do user spaces see the kernel's mappings?

`map_kernel_identity_range` changes the kernel's page tables at once and then
writes the range into a log of 16 entries; a user space gets the mappings by
replaying that log. The two agree as long as every call either reaches the log or
changes nothing (`calls_propagate`). A call that changes pages and is not logged
breaks the agreement: one that the log is full for, one that runs out of frames on
the way, and one the log swallows as a repetition although a later entry has
changed the range since (`remapping_is_lost`).
-/

namespace Lazers.Memory

open PageTable AddressMap

namespace AddressMap

/-! ## Buying tables without a page list -/

/-- Frames and tables add up, and no page list is kept. -/
structure Funded (total : Nat) (tables : Finset (Nat × Nat)) (s : AddressMap) : Prop where
  owned : s.owned = none
  tables_eq : s.tables = tables
  total_eq : s.frames.length + tables.card = total

/-- The edit makes the tables of `K` exist, for one frame each, and fails only if
they cost more than there is. -/
def Buys (K : Finset (Nat × Nat)) {α : Type} (x : Edit α) : Prop :=
  ∀ total T, Triple (Funded total T) x (fun _ => Funded total (T ∪ K))
    (fun _ _ => total < (T ∪ K).card)

theorem Buys.congr {K K' : Finset (Nat × Nat)} {α : Type} {x : Edit α} (h : Buys K x)
    (heq : K = K') : Buys K' x := heq ▸ h

theorem Buys.bind {K K' : Finset (Nat × Nat)} {α β : Type} {x : Edit α} {f : α → Edit β}
    (hx : Buys K x) (hf : ∀ a, Buys K' (f a)) : Buys (K ∪ K') (x >>= f) := by
  intro total T
  have hcard : (T ∪ K).card ≤ (T ∪ (K ∪ K')).card :=
    Finset.card_le_card (Finset.union_subset_union_right Finset.subset_union_left)
  refine Triple.bind ((hx total T).conseq (fun _ h => h) (fun _ _ h => h)
    fun _ _ h => by omega) fun a => ?_
  rw [← Finset.union_assoc]
  exact hf a total (T ∪ K)

theorem buys_modify {f : AddressMap → AddressMap}
    (h : ∀ s, (f s).tables = s.tables ∧ (f s).owned = s.owned ∧ (f s).frames = s.frames) :
    Buys ∅ (modify f : Edit PUnit) := by
  intro total T
  rw [Finset.union_empty]
  refine Triple.modify fun s hs => ?_
  obtain ⟨ht, ho, hf⟩ := h s
  exact ⟨ho.trans hs.owned, ht.trans hs.tables_eq, by rw [hf]; exact hs.total_eq⟩

theorem ensure_buys (key : Nat × Nat) (user : Bool) : Buys {key} (ensure key user) := by
  intro total T s hs
  have htotal := hs.total_eq
  by_cases hmem : key ∈ s.tables
  · rw [ensure_of_mem hmem]
    have hT : T ∪ {key} = T := by
      rw [← hs.tables_eq]
      exact Finset.union_eq_left.mpr (Finset.singleton_subset_iff.mpr hmem)
    rw [hT]
    exact ⟨by simp [hs.owned], by simp [hs.tables_eq], by simpa using htotal⟩
  · have hcard : (T ∪ {key}).card = T.card + 1 := by
      rw [Finset.union_comm, ← Finset.insert_eq, Finset.card_insert_of_notMem (hs.tables_eq ▸ hmem)]
    rw [ensure_of_not_mem hmem]
    cases hf : s.frames with
    | nil =>
      have htake : take s = .error .allocatorExhausted s := by simp [take, hf]
      rw [EStateM.bind_eq_error.mpr (.inl htake)]
      rw [hf, List.length_nil] at htotal
      show total < (T ∪ {key}).card
      omega
    | cons f rest =>
      have htake : take s = .ok f { s with frames := rest } := by simp [take, hf]
      have hrec : record f { s with frames := rest } = .ok () { s with frames := rest } := by
        simp [record, hs.owned]
      rw [EStateM.bind_of_ok htake, EStateM.bind_of_ok hrec]
      rw [hf, List.length_cons] at htotal
      refine ⟨?_, ?_, ?_⟩
      · rw [openLink_owned]
        exact hs.owned
      · rw [openLink_tables, Finset.union_comm, ← Finset.insert_eq, hs.tables_eq]
      · rw [openLink_frames, hcard]
        show rest.length + (T.card + 1) = total
        omega

theorem mapPage_buys (n phys flags : Nat) : Buys (pagePath n) (mapPage n phys flags) := by
  unfold mapPage ensureDirectory
  refine Buys.congr (((ensure_buys _ _).bind fun _ => ensure_buys _ _).bind fun _ =>
    (ensure_buys _ _).bind fun _ => buys_modify fun _ => ⟨rfl, rfl, rfl⟩) ?_
  rw [Finset.union_empty, pagePath]
  rfl

/-- The tables above `rounds` pages from `n` on. -/
def tablesAbove (n rounds : Nat) : Finset (Nat × Nat) :=
  (Finset.Ico n (n + rounds)).biUnion pagePath

theorem tablesAbove_succ (n rounds : Nat) :
    tablesAbove n (rounds + 1) = pagePath n ∪ tablesAbove (n + 1) rounds :=
  (Ico_biUnion_succ pagePath n rounds).symm

/-- What entering pages costs: it gets through if the frames cover all missing
tables, and otherwise enters a prefix that they do cover. -/
theorem mapPages_cost (flags rounds n : Nat) {total : Nat} {A : AddressMap}
    (hA : Funded total A.tables A) :
    match mapPages flags rounds n A with
    | .ok _ A' => A'.page = paintPages A.page flags n rounds ∧
        (A.tables ∪ tablesAbove n rounds).card ≤ total
    | .error _ A' => total < (A.tables ∪ tablesAbove n rounds).card ∧
        ∃ done, A'.page = paintPages A.page flags n done ∧ done < rounds ∧
          (A.tables ∪ tablesAbove n done).card ≤ total := by
  have hzero : ∀ n, A.tables ∪ tablesAbove n 0 = A.tables := by simp [tablesAbove]
  have hbase : A.tables.card ≤ total := by
    have := hA.total_eq
    omega
  induction rounds generalizing n A with
  | zero =>
    refine ⟨?_, by rwa [hzero]⟩
    funext i
    exact (if_neg (by omega)).symm
  | succ rounds ih =>
    have hmap := mapPage_buys n (n * pageSize) flags total A.tables A hA
    have hpage := mapPage_maps n (n * pageSize) flags A (⟨rfl, rfl⟩ : Maps A.page A.slot A)
    rw [mapPages, tablesAbove_succ, ← Finset.union_assoc]
    cases hrun : mapPage n (n * pageSize) flags A with
    | error e A₁ =>
      rw [hrun] at hmap hpage
      rw [EStateM.bind_eq_error.mpr (.inl hrun)]
      refine ⟨?_, 0, ?_, by omega, by rwa [hzero]⟩
      · exact lt_of_lt_of_le hmap (Finset.card_le_card Finset.subset_union_left)
      · rw [hpage.1]
        funext i
        exact (if_neg (by omega)).symm
    | ok _ A₁ =>
      rw [hrun] at hmap hpage
      have htables : A₁.tables = A.tables ∪ pagePath n := hmap.tables_eq
      have hcard : (A.tables ∪ pagePath n).card ≤ total := by
        have := hmap.total_eq
        omega
      rw [EStateM.bind_of_ok hrun]
      have hnext := ih (n + 1) (htables ▸ hmap) (by simp [tablesAbove]) (by rwa [htables])
      rw [htables, hpage.1] at hnext
      cases hrest : mapPages flags rounds (n + 1) A₁ with
      | ok _ A' =>
        rw [hrest] at hnext
        rw [paintPages_update] at hnext
        exact hnext
      | error e A' =>
        rw [hrest] at hnext
        obtain ⟨hover, done, hdone, hlt, hle⟩ := hnext
        rw [paintPages_update] at hdone
        refine ⟨hover, done + 1, hdone, by omega, ?_⟩
        rwa [tablesAbove_succ, ← Finset.union_assoc]

/-! ## Painting ranges -/

/-- The pages of some ranges, later ranges over earlier ones. -/
def paintRanges : List ContextRange → (Nat → Option Nat) → Nat → Option Nat
  | [], page => page
  | r :: rest, page =>
    paintRanges rest (paintPages page r.flags (r.start / 4096) (rangePages r.start r.stop))

theorem paintRanges_append (l l' : List ContextRange) (page : Nat → Option Nat) :
    paintRanges (l ++ l') page = paintRanges l' (paintRanges l page) := by
  induction l generalizing page with
  | nil => rfl
  | cons r rest ih => exact ih _

theorem mapRanges_page {ranges : List ContextRange} {A A' : AddressMap}
    (h : mapRanges ranges A = .ok () A') : A'.page = paintRanges ranges A.page := by
  induction ranges generalizing A with
  | nil =>
    cases h
    rfl
  | cons r rest ih =>
    obtain ⟨_, A₁, hmap, hrest⟩ := EStateM.bind_eq_ok.mp h
    obtain ⟨hpage, -⟩ := (mapPages_maps _ _ _).ok ⟨rfl, rfl⟩ hmap
    rw [ih hrest, hpage]
    rfl

/-- Painted pages are kernel pages. -/
theorem paintRanges_kernel {ranges : List ContextRange}
    (hflags : ∀ r ∈ ranges, ∃ writable, r.flags = kernelFlags writable)
    {page : Nat → Option Nat} {n : Nat} (hpage : page n = none ∨ KernelPage page n) :
    paintRanges ranges page n = none ∨ KernelPage (paintRanges ranges page) n := by
  induction ranges generalizing page with
  | nil => exact hpage
  | cons r rest ih =>
    refine ih (fun r' h => hflags r' (List.mem_cons_of_mem _ h)) ?_
    obtain ⟨writable, hw⟩ := hflags r List.mem_cons_self
    by_cases hin : r.start / 4096 ≤ n ∧ n < r.start / 4096 + rangePages r.start r.stop
    · exact .inr ⟨writable, by rw [paintPages, if_pos hin, hw]⟩
    · rw [paintPages, if_neg hin, KernelPage, paintPages, if_neg hin]
      exact hpage

/-- Painting pages that look like that already changes nothing. -/
theorem paintPages_eq_self {page : Nat → Option Nat} {flags n rounds : Nat}
    (h : ∀ i, n ≤ i → i < n + rounds → page i = some (i * pageSize ||| flags)) :
    paintPages page flags n rounds = page := by
  funext i
  by_cases hin : n ≤ i ∧ i < n + rounds
  · rw [paintPages, if_pos hin, h i hin.1 hin.2]
  · rw [paintPages, if_neg hin]

end AddressMap

/-! ## The condition -/

/-- The page tables above pages `first` to `last` that an address space lacks. -/
def MemoryState.missingTables (s : MemoryState) (root first last : Nat) : Finset (Nat × Nat) :=
  ((Finset.Icc first last).biUnion pagePath).filter fun key =>
    tableAt s.phys root (4 - key.1) key.2 = none

/-- The free frames cover them. -/
def MemoryState.Affords (s : MemoryState) (root first last : Nat) : Prop :=
  (s.missingTables root first last).card ≤ s.allocator.frames.length

instance (s : MemoryState) (root first last : Nat) : Decidable (s.Affords root first last) :=
  inferInstanceAs (Decidable (_ ≤ _))

/-- Page `n` leads to itself, with the given writability. -/
def MappedAs (m : ByteMemory) (root n : Nat) (writable : Bool) : Prop :=
  walk m root (n * pageSize) = some { phys := n * pageSize, writable, user := false }

instance (m : ByteMemory) (root n : Nat) (writable : Bool) : Decidable (MappedAs m root n writable) :=
  inferInstanceAs (Decidable (_ = _))

/-- The call will reach the log: there are frames for all its tables, the log has
room, and no entry of the same kind covers the range. -/
structure ReachesLog (s : MemoryState) (root start stop : Nat) (writable : Bool) : Prop where
  affords : ∀ n, RangePage start stop n → s.Affords root (start / 4096) n
  fresh : s.coversShared (alignDown start pageSize) (alignUp stop pageSize) writable = false
  room : s.sharedKernelMappingCount < maxSharedKernelMappings

/-- The call will change nothing: every page that there are frames for is mapped
like that already. -/
def ChangesNothing (s : MemoryState) (root start stop : Nat) (writable : Bool) : Prop :=
  ∀ n, RangePage start stop n → s.Affords root (start / 4096) n → MappedAs s.phys root n writable

/-- **What keeps user spaces in step** with a call. -/
def Propagates (s : MemoryState) (start stop : Nat) (writable : Bool) : Prop :=
  ∀ space, s.kernelSpace = some space →
    ReachesLog s space.rootPaddr start stop writable ∨
      ChangesNothing s space.rootPaddr start stop writable

/-! ## One call -/

section

variable {o : Origin} {root : Nat} {held : Set Nat} {b : BuilderState} {A : AddressMap}
  {tab : Shape}

/-- Which tables are missing, abstractly. -/
theorem Rep.missingTables_eq (R : Rep o root held b A tab) {first last : Nat}
    (hlast : last < 2 ^ 36) (hclear : ∀ i, first ≤ i → i ≤ last → A.slot (i / 512) = none) :
    b.state.missingTables root first last =
      tablesAbove first (last + 1 - first) \ A.tables := by
  have hIco : Finset.Ico first (first + (last + 1 - first)) = Finset.Icc first last := by
    ext i
    simp only [Finset.mem_Ico, Finset.mem_Icc]
    omega
  rw [MemoryState.missingTables, tablesAbove, hIco, Finset.sdiff_eq_filter]
  refine Finset.filter_congr fun ⟨ℓ, k⟩ hkey => ?_
  obtain ⟨n, hn, hpath⟩ := Finset.mem_biUnion.mp hkey
  obtain ⟨hlo, hhi⟩ := Finset.mem_Icc.mp hn
  -- every table on the way to a page is found by following present entries
  have hfind : tableAt b.state.phys root (4 - ℓ) k = tab ℓ k ∧ ℓ ≠ 4 := by
    simp only [pagePath, Finset.mem_insert, Finset.mem_singleton, Prod.mk.injEq] at hpath
    rcases hpath with ⟨rfl, rfl⟩ | ⟨rfl, rfl⟩ | ⟨rfl, rfl⟩
    · exact ⟨R.tree.tableAt_eq (by decide) (by decide) (by omega) fun h => absurd h (by decide),
        by decide⟩
    · exact ⟨R.tree.tableAt_eq (by decide) (by decide) (by omega) fun h => absurd h (by decide),
        by decide⟩
    · refine ⟨R.tree.tableAt_eq (by decide) (by decide) (by omega) fun _ => ?_, by decide⟩
      rw [R.slot, hclear n hlo hhi]
  rw [hfind.1]
  constructor
  · intro hnone hmem
    obtain ⟨f, hf⟩ := (R.tables ℓ k).mpr (.inr hmem)
    rw [hnone] at hf
    cases hf
  · exact R.tab_eq_none hfind.2

/-- What the frames cover, abstractly. -/
theorem Rep.affords_iff (R : Rep o root held b A tab) {first last : Nat}
    (hlast : last < 2 ^ 36) (hclear : ∀ i, first ≤ i → i ≤ last → A.slot (i / 512) = none) :
    b.state.Affords root first last ↔
      (A.tables ∪ tablesAbove first (last + 1 - first)).card ≤
        A.frames.length + A.tables.card := by
  rw [MemoryState.Affords, R.missingTables_eq hlast hclear, R.frames, ← Finset.union_sdiff_self_eq_union,
    Finset.card_union_of_disjoint Finset.disjoint_sdiff]
  omega

/-- A page that leads to itself has the expected entry. -/
theorem Rep.page_of_mappedAs (R : Rep o root held b A tab) {n : Nat} {writable : Bool}
    (hn : n < 2 ^ 36) (hclear : A.slot (n / 512) = none)
    (hpage : A.page n = none ∨ KernelPage A.page n) (h : MappedAs b.state.phys root n writable) :
    A.page n = some (n * pageSize ||| kernelFlags writable) := by
  have hnum : num 1 (n * pageSize) = n := num_one_page n
  have hnum₂ : num 2 (n * pageSize) = n / 512 := num_two_page n
  have hv : n * pageSize < 2 ^ 48 := by
    rw [show pageSize = 4096 from rfl]
    omega
  have hwalk := R.tree.walk_small hv (by rw [hnum₂, R.slot, hclear])
  rw [h, hnum, R.page] at hwalk
  rcases hpage with hnone | ⟨w, hw⟩
  · rw [hnone] at hwalk
    cases hwalk
  · rw [hw] at hwalk ⊢
    rw [Option.map_some, Option.some.injEq, Translation.mk.injEq] at hwalk
    have hbits := hwalk.2.1
    rw [PageTable.writable, show pageSize = 4096 from rfl,
      testBit_or_flags (Nat.mul_mod_left n 4096) (by decide)] at hbits
    have hw' : (kernelFlags w).testBit 1 = w := by cases w <;> decide
    rw [hbits, hw']

end

/-- A call that reaches the log adds its range to the context. -/
theorem recordSharedKernelMapping_logged {start stop : Nat} {writable : Bool} {s : MemoryState}
    (hrange : alignDown start pageSize < alignUp stop pageSize)
    (hfresh : s.coversShared (alignDown start pageSize) (alignUp stop pageSize) writable = false)
    (hroom : s.sharedKernelMappingCount < maxSharedKernelMappings) :
    ∃ s', recordSharedKernelMapping start stop writable s = .ok () s' ∧
      s'.contextRanges = s.contextRanges ++
          [⟨alignDown start pageSize, alignUp stop pageSize, kernelFlags writable⟩] := by
  have hctx := recordSharedKernelMapping_contextRanges start stop writable s
  unfold recordSharedKernelMapping at hctx ⊢
  simp only [hfresh, if_neg (Nat.not_le_of_lt hrange), if_neg (Nat.not_le_of_lt hroom),
    Bool.false_eq_true, if_false] at hctx ⊢
  refine ⟨_, rfl, hctx.resolve_left fun hsame => ?_⟩
  have hlen := congrArg List.length hsame
  have hlog : s.sharedKernelMappings.toList.length = maxSharedKernelMappings := by simp
  simp [MemoryState.contextRanges, MemoryState.sharedMappings] at hlen
  omega

/-- The pages of the rounded range are those of the range. -/
theorem RangeOk.rangePages_rounded {s : MemoryState} {start stop : Nat} (h : RangeOk s start stop) :
    alignDown start pageSize / 4096 = start / 4096 ∧
      rangePages (alignDown start pageSize) (alignUp stop pageSize) = rangePages start stop ∧
      (alignDown start pageSize < alignUp stop pageSize ↔ 0 < rangePages start stop) := by
  have hstart := h.start_le
  have hstop := h.stop_le
  have hlimit : stop + 4096 ≤ u64Limit := by
    rw [u64Limit]
    omega
  have hlimit' : start < u64Limit := by
    rw [u64Limit]
    omega
  rw [alignDown_page hlimit', alignUp_page hlimit, rangePages, rangePages]
  refine ⟨by omega, by omega, by omega⟩

/-! ### What the frames cover -/

section

variable {s : MemoryState} {tables : Set Nat} {A : AddressMap} {root start stop : Nat}
  {writable : Bool}

/-- No huge entry covers a page of the range. -/
theorem KernelSpaceIs.clear (I : KernelSpaceIs s tables A) (hok : RangeOk s start stop) {n : Nat}
    (hn : RangePage start stop n) : n < 2 ^ 36 ∧ A.slot (n / 512) = none := by
  have hstart := hok.start_le
  have hstop := hok.stop_le
  have hlimit : start < u64Limit := by
    rw [u64Limit]
    omega
  refine ⟨by have := hn.2; omega, ?_⟩
  rw [I.slot]
  exact hok.clear.slot_none hlimit hstop I.windowEnd_mod hn

theorem KernelSpaceIs.affords_iff (I : KernelSpaceIs s tables A) (hok : RangeOk s start stop)
    (hroot : s.kernelSpace = some { rootPaddr := root }) {n : Nat} (hn : RangePage start stop n) :
    s.Affords root (start / 4096) n ↔
      (A.tables ∪ tablesAbove (start / 4096) (n + 1 - start / 4096)).card ≤
        A.frames.length + A.tables.card := by
  obtain ⟨root', hroot', tab, R⟩ := I.mapped
  obtain rfl : root' = root := by
    rw [hroot] at hroot'
    cases hroot'
    rfl
  exact R.affords_iff (I.clear hok hn).1 fun i hlo hhi =>
    (I.clear hok ⟨hlo, lt_of_le_of_lt hhi hn.2⟩).2

/-- When the call changes nothing, every prefix of the range that the frames cover
looks already as the call paints it. -/
theorem ChangesNothing.paint (h : ChangesNothing s root start stop writable)
    (I : KernelSpaceIs s tables A) (hkernel : ∀ n, A.page n = none ∨ KernelPage A.page n)
    (hok : RangeOk s start stop) (hroot : s.kernelSpace = some { rootPaddr := root }) {done : Nat}
    (hdone : done ≤ rangePages start stop)
    (hcard : (A.tables ∪ tablesAbove (start / 4096) done).card ≤
      A.frames.length + A.tables.card) :
    paintPages A.page (kernelFlags writable) (start / 4096) done = A.page := by
  refine paintPages_eq_self fun n hlo hhi => ?_
  rw [rangePages] at hdone
  have hn : RangePage start stop n := ⟨hlo, by omega⟩
  have hsub : A.tables ∪ tablesAbove (start / 4096) (n + 1 - start / 4096) ⊆
      A.tables ∪ tablesAbove (start / 4096) done := by
    refine Finset.union_subset_union_right (Finset.biUnion_subset_biUnion_of_subset_left _ ?_)
    exact Finset.Ico_subset_Ico_right (by omega)
  have hmapped := h n hn
    ((I.affords_iff hok hroot hn).mpr ((Finset.card_le_card hsub).trans hcard))
  obtain ⟨root', hroot', tab, R⟩ := I.mapped
  obtain rfl : root' = root := by
    rw [hroot] at hroot'
    cases hroot'
    rfl
  exact R.page_of_mappedAs (I.clear hok hn).1 (I.clear hok hn).2 (hkernel n) hmapped

/-- A call that reaches the log is not short of frames. -/
theorem ReachesLog.covers (h : ReachesLog s root start stop writable)
    (I : KernelSpaceIs s tables A) (hok : RangeOk s start stop)
    (hroot : s.kernelSpace = some { rootPaddr := root }) (hpos : 0 < rangePages start stop) :
    (A.tables ∪ tablesAbove (start / 4096) (rangePages start stop)).card ≤
      A.frames.length + A.tables.card := by
  have hlast : RangePage start stop (start / 4096 + (rangePages start stop - 1)) := by
    rw [rangePages] at hpos ⊢
    exact ⟨by omega, by omega⟩
  have hpaid := (I.affords_iff hok hroot hlast).mp (h.affords _ hlast)
  rwa [show start / 4096 + (rangePages start stop - 1) + 1 - start / 4096 =
    rangePages start stop by omega] at hpaid

end

/-! ### Staying in step -/

/-- The kernel's pages are the pages a replay enters. -/
def InStep (s : MemoryState) : Prop :=
  ∃ tables A, KernelSpaceIs s tables A ∧ A.page = paintRanges s.contextRanges fun _ => none

/-- The range a call would log. -/
def loggedRange (start stop : Nat) (writable : Bool) : ContextRange :=
  ⟨alignDown start pageSize, alignUp stop pageSize, kernelFlags writable⟩

/-- A range that is logged is painted over the rest. -/
theorem paintRanges_logged {s : MemoryState} {start stop : Nat} (writable : Bool)
    (hok : RangeOk s start stop) (ranges : List ContextRange) :
    paintRanges (ranges ++ [loggedRange start stop writable]) (fun _ => none) =
      paintPages (paintRanges ranges fun _ => none) (kernelFlags writable) (start / 4096)
        (rangePages start stop) := by
  obtain ⟨hdown, hround, -⟩ := hok.rangePages_rounded
  rw [paintRanges_append]
  simp only [paintRanges, loggedRange, hdown, hround]

structure KernelCall where
  start : Nat
  stop : Nat
  writable : Bool
deriving DecidableEq, Repr

/-- The state after a call, whether it returns `Ok` or `Err`. -/
def KernelCall.run (call : KernelCall) (s : MemoryState) : MemoryState :=
  match mapKernelIdentityRange call.start call.stop call.writable s with
  | .ok _ s' | .error _ s' => s'

/-- Recording, after all pages were entered. -/
theorem InStep.record {s₁ : MemoryState} {tables : Set Nat} {A₁ : AddressMap}
    (I₁ : KernelSpaceIs s₁ tables A₁) {start stop : Nat} {writable : Bool}
    (hok : RangeOk s₁ start stop)
    (hpage₁ : A₁.page = paintPages (paintRanges s₁.contextRanges fun _ => none)
      (kernelFlags writable) (start / 4096) (rangePages start stop))
    (hskip : (s₁.coversShared (alignDown start pageSize) (alignUp stop pageSize) writable = false ∧
        s₁.sharedKernelMappingCount < maxSharedKernelMappings) ∨
      A₁.page = paintRanges s₁.contextRanges fun _ => none) :
    InStep (match recordSharedKernelMapping start stop writable s₁ with
      | .ok _ s' | .error _ s' => s') := by
  obtain ⟨-, -, hempty⟩ := hok.rangePages_rounded
  have hframe := recordSharedKernelMapping_frame start stop writable s₁
  have hrec := recordSharedKernelMapping_contextRanges start stop writable s₁
  by_cases hlogged : (s₁.coversShared (alignDown start pageSize) (alignUp stop pageSize)
      writable = false ∧ s₁.sharedKernelMappingCount < maxSharedKernelMappings) ∧
      0 < rangePages start stop
  · obtain ⟨⟨hfresh, hroom⟩, hpos⟩ := hlogged
    obtain ⟨s', hrun, hgrow⟩ :=
      recordSharedKernelMapping_logged (hempty.mpr hpos) hfresh hroom
    rw [hrun] at hframe ⊢
    refine ⟨_, A₁, I₁.congr hframe, ?_⟩
    rw [hgrow, hpage₁]
    exact (paintRanges_logged writable hok _).symm
  · -- either way the pages are those of the old log
    have hsame : A₁.page = paintRanges s₁.contextRanges fun _ => none := by
      refine hskip.elim (fun hreach => ?_) id
      rw [hpage₁, Nat.eq_zero_of_not_pos fun hpos => hlogged ⟨hreach, hpos⟩]
      exact paintPages_eq_self fun i hlo hhi => by omega
    have hfinal : ∀ {s'}, (s'.phys = s₁.phys ∧ s'.allocator = s₁.allocator ∧
        s'.kernelSpace = s₁.kernelSpace ∧ s'.physWindowEnd = s₁.physWindowEnd) →
        (s'.contextRanges = s₁.contextRanges ∨
          s'.contextRanges = s₁.contextRanges ++ [loggedRange start stop writable]) →
        InStep s' := by
      intro s' hframe hrec
      refine ⟨_, A₁, I₁.congr hframe, ?_⟩
      rcases hrec with hrec | hrec
      · rw [hrec, hsame]
      · rw [hrec, hpage₁]
        exact (paintRanges_logged writable hok _).symm
    cases hrun : recordSharedKernelMapping start stop writable s₁ with
    | ok _ s' =>
      rw [hrun] at hframe hrec
      exact hfinal hframe hrec
    | error e s' =>
      rw [hrun] at hframe hrec
      exact hfinal hframe hrec

/-- **One call keeps the kernel and the log in step.** -/
theorem InStep.call {s : MemoryState} (h : InStep s) {call : KernelCall}
    (hok : RangeOk s call.start call.stop)
    (hprop : Propagates s call.start call.stop call.writable) : InStep (call.run s) := by
  obtain ⟨start, stop, writable⟩ := call
  dsimp only at hok hprop
  obtain ⟨tables, A, I, hpage⟩ := h
  obtain ⟨root, hroot, tab, R⟩ := I.mapped
  obtain ⟨s₁, A₁, hctx, -, I₁, hcall⟩ := mapKernelIdentityRange_edit I writable hok
  obtain ⟨hranges, hend⟩ := MemoryState.contextRanges_congr hctx
  have hkernel : ∀ n, A.page n = none ∨ KernelPage A.page n := by
    rw [hpage]
    exact fun n => paintRanges_kernel (fun r => MemoryState.flags_of_mem_contextRanges) (.inl rfl)
  have hfund : Funded (A.frames.length + A.tables.card) A.tables A :=
    ⟨R.owned.symm, rfl, rfl⟩
  have hcost := mapPages_cost (kernelFlags writable) (rangePages start stop) (start / 4096) hfund
  rw [KernelCall.run]
  rcases hcall with ⟨hmap, hcall⟩ | ⟨e, hmap, hcall⟩
  · rw [hmap] at hcost
    obtain ⟨hpage₁, hcard⟩ := hcost
    rw [hcall]
    refine InStep.record I₁ (hok.congr hend) (by rw [hranges, ← hpage, hpage₁]) ?_
    rcases hprop _ hroot with hreach | hnothing
    · left
      rw [hctx]
      exact ⟨hreach.fresh, hreach.room⟩
    · right
      rw [hranges, ← hpage, hpage₁]
      exact hnothing.paint I hkernel hok hroot le_rfl hcard
  · -- out of frames: the pages entered so far must have been there
    rw [hmap] at hcost
    obtain ⟨hover, done, hpage₁, hlt, hcard⟩ := hcost
    rw [hcall]
    refine ⟨_, A₁, I₁, ?_⟩
    rw [hranges, ← hpage, hpage₁]
    rcases hprop _ hroot with hreach | hnothing
    · have := hreach.covers I hok hroot (by omega)
      omega
    · exact hnothing.paint I hkernel hok hroot hlt.le hcard

/-! ## A populated address space -/

/-- A builder that records its frames in `owned` or nowhere. -/
def runBuilderWith {α : Type} (owned : Option OwnedPages) (x : Builder α) :
    EStateM MemoryError MemoryState α := fun s =>
  match x { state := s, ownedPages := owned } with
  | .ok r b => .ok r b.state
  | .error e b => .error e b.state

theorem runBuilderWith_eq_ok {α : Type} {owned : Option OwnedPages} {x : Builder α} {r : α}
    {s s' : MemoryState} (h : runBuilderWith owned x s = .ok r s') :
    ∃ b, x { state := s, ownedPages := owned } = .ok r b ∧ b.state = s' := by
  unfold runBuilderWith at h
  cases hrun : x { state := s, ownedPages := owned } with
  | error e b =>
    rw [hrun] at h
    cases h
  | ok r' b =>
    rw [hrun] at h
    obtain ⟨rfl, rfl⟩ : r' = r ∧ b.state = s' := by simpa using h
    exact ⟨b, rfl, rfl⟩

/-- A new root populated by `map_shared_kernel_context`. -/
def populate (owned : Option OwnedPages) : EStateM MemoryError MemoryState Nat := do
  let root ← MemoryState.allocatePage
  runBuilderWith owned (mapSharedKernelContext root)
  return root

theorem populate_eq_ok {s s' : MemoryState} {owned : Option OwnedPages} {root : Nat}
    (h : populate owned s = .ok root s') :
    ∃ a b, s.allocator.allocatePage = some (root, a) ∧
      mapSharedKernelContext root {
        state := { s with allocator := a, phys := s.phys.zero root pageSize }
        ownedPages := owned } = .ok () b ∧ b.state = s' := by
  obtain ⟨root₁, s₁, halloc, h⟩ := EStateM.bind_eq_ok.mp h
  obtain ⟨_, s₂, hmap, h⟩ := EStateM.bind_eq_ok.mp h
  cases h
  obtain ⟨a, hpage, rfl⟩ := MemoryState.allocatePage_eq_ok halloc
  obtain ⟨b, hrun, rfl⟩ := runBuilderWith_eq_ok hmap
  exact ⟨a, b, hpage, hrun, rfl⟩

theorem kernelFlags_user {n : Nat} (writable : Bool) :
    user (n * pageSize ||| kernelFlags writable) = false := by
  rw [user, show pageSize = 4096 from rfl, testBit_or_flags (Nat.mul_mod_left n 4096) (by decide)]
  cases writable <;> decide

theorem windowSlots_user {windowEnd n e : Nat} (h : windowSlots windowEnd n = some e) :
    user e = false := by
  rw [windowSlots, paintSlots] at h
  split_ifs at h
  obtain rfl := Option.some.inj h
  have hmod : n * hugePageSize % 4096 = 0 := by
    rw [show hugePageSize = 2097152 from rfl]
    omega
  rw [Nat.or_assoc, user, testBit_or_flags hmod (by decide)]
  decide

/-- **In step, a populated space translates like the kernel's.** -/
theorem InStep.walk_eq {s s' : MemoryState} (h : InStep s) (hs : ContextOk s)
    {owned : Option OwnedPages} {root : Nat} (hpop : populate owned s = .ok root s') :
    ∃ space, s.kernelSpace = some space ∧
      ∀ v < 2 ^ 48, walk s'.phys root v = walk s'.phys space.rootPaddr v := by
  obtain ⟨tables, A, I, hpage⟩ := h
  obtain ⟨kernelRoot, hroot, tab, R⟩ := I.mapped
  obtain ⟨a, b, hpage₁, hmap, rfl⟩ := populate_eq_ok hpop
  have hs₁ : ContextOk { s with allocator := a, phys := s.phys.zero root pageSize } :=
    hs.rootTaken hpage₁ .empty
  have R₁ := (rep_root hs.valid hs.low hpage₁ owned).related
  have hlock := (mapSharedKernelContext_lockstep (b := {
      state := { s with allocator := a, phys := s.phys.zero root pageSize }
      ownedPages := owned }) hs₁ R₁ rfl rfl).right_eq
  obtain ⟨_, A', -, ⟨⟨tab', R'⟩, hslot'⟩, hA'⟩ := hlock.of_ok_left hmap
  have hpage' : A'.page = A.page := by
    obtain ⟨_, A₂, hslots, hranges⟩ := EStateM.bind_eq_ok.mp hA'
    obtain ⟨hnone, -⟩ := (mapSlots_maps _ _ _).ok ⟨rfl, rfl⟩ hslots
    rw [mapRanges_page hranges, hnone, hpage]
    rfl
  -- the kernel's tables lie outside the frames taken for the new space
  have hagree : Agree s.phys b.state.phys tab := by
    refine agree_of_writesOnly R'.writes fun {ℓ k f} hf => ?_
    have hapart := (Set.disjoint_union_right.mp (R.apart hf)).1
    refine (hapart.mono_right ?_).mono_left fun x hx => ?_
    · rintro x (hx | hx)
      · cases hx
      · exact hx.1
    · rw [Set.mem_Ico] at hx
      rw [mem_block]
      omega
  have hkernel : ∀ n, A.page n = none ∨ KernelPage A.page n := by
    rw [hpage]
    exact fun n => paintRanges_kernel (fun r => MemoryState.flags_of_mem_contextRanges) (.inl rfl)
  have hslotEq : ∀ n, leaf2m b.state.phys tab n = A.slot n := fun n =>
    (hagree.leaf2m_eq n).trans (R.slot n)
  have hpageEq : ∀ n, leaf4k b.state.phys tab n = A.page n := fun n =>
    (hagree.leaf4k_eq n).trans (R.page n)
  refine ⟨_, hroot, fun v hv => (R.tree.agree hagree).walk_congr R'.tree hv ?_ ?_ ?_ ?_⟩
  · rw [R'.slot, hslotEq, hslot', I.slot]
  · rw [R'.page, hpageEq, hpage']
  · intro e he
    rw [hslotEq, I.slot] at he
    exact windowSlots_user he
  · intro e he
    rw [hpageEq] at he
    rcases hkernel (num 1 v) with hnone | ⟨w, hw⟩
    · rw [hnone] at he
      cases he
    · rw [hw] at he
      obtain rfl := Option.some.inj he
      exact kernelFlags_user w

/-! ## Runs -/

def runCalls (calls : List KernelCall) (s : MemoryState) : MemoryState :=
  calls.foldl (fun s call => call.run s) s

/-- Every call meets `ok` in the state it is made in. -/
def CallsOk (ok : MemoryState → KernelCall → Prop) : List KernelCall → MemoryState → Prop
  | [], _ => True
  | call :: rest, s => ok s call ∧ CallsOk ok rest (call.run s)

/-- The framebuffer `init` maps is one that user spaces map: it does not start in
page zero, unless it is empty. -/
def BootInfo.FramebufferShared (bootInfo : BootInfo) : Prop :=
  bootInfo.framebufferStart ≠ 0 ∨ bootInfo.framebufferEnd = 0

/-- **After `init` the kernel and the log are in step.** -/
theorem init_inStep {bootInfo : BootInfo} {image : KernelImage} (hboot : bootInfo.Regular)
    (hfb : bootInfo.FramebufferShared) {s₀ s : MemoryState}
    (h : init bootInfo image s₀ = some (.ok () s)) : InStep s := by
  obtain ⟨r, filled, hinstall⟩ := Option.map_eq_some_iff.mp h
  cases r with
  | error e s₁ => cases hinstall
  | ok _ s₁ =>
    obtain ⟨hvalid, hfree, hend, hlow, hhigh⟩ := initializeAllocator_spec hboot.regions filled
    obtain ⟨A, hA, hpage⟩ := installKernelSpace_is hboot hvalid hfree hend hlow hhigh hinstall
    obtain ⟨-, hranges⟩ :=
      installKernelSpace_context hvalid (initializeAllocator_count filled) hinstall
    rw [hend] at hranges
    refine ⟨_, A, hA, ?_⟩
    rw [hpage, BootInfo.framebufferMap]
    by_cases hzero : bootInfo.framebufferStart = 0
    · -- `init` maps the empty range here, and a user space maps nothing
      rw [if_neg fun hne => hne.1 hzero] at hranges
      rw [hranges, hzero, hfb.resolve_left fun hne => hne hzero]
      split_ifs
      · exact paintPages_eq_self fun i hlo hhi => by simp [rangePages] at hhi
      · rfl
    · rw [hranges]
      split_ifs with hout hboth hboth
      · rfl
      · exact absurd ⟨hzero, hout⟩ hboth
      · exact absurd hboth.2 hout
      · rfl

/-- The states of a run are those of a run of the kernel's own mappings. -/
theorem KernelRun.Reachable.calls {bootInfo : BootInfo} {image : KernelImage} {run : KernelRun}
    (h : Reachable bootInfo image RangeOk run) {calls : List KernelCall}
    (hcalls : CallsOk (fun s call => RangeOk s call.start call.stop) calls run.state) :
    ∃ run', Reachable bootInfo image RangeOk run' ∧ run'.state = runCalls calls run.state := by
  induction calls generalizing run with
  | nil => exact ⟨run, h, rfl⟩
  | cons call rest ih =>
    obtain ⟨hok, hrest⟩ := hcalls
    have hstate : (run.call call.start call.stop call.writable).state = call.run run.state := by
      unfold KernelRun.call KernelCall.run
      split <;> simp_all
    rw [← hstate] at hrest
    obtain ⟨run', hreach, hrun'⟩ := ih (h.call call.writable hok) hrest
    refine ⟨run', hreach, hrun'.trans ?_⟩
    rw [hstate]
    rfl

theorem CallsOk.mono {ok ok' : MemoryState → KernelCall → Prop} (hsub : ∀ s c, ok s c → ok' s c)
    {calls : List KernelCall} {s : MemoryState} (h : CallsOk ok calls s) :
    CallsOk ok' calls s := by
  induction calls generalizing s with
  | nil => trivial
  | cons call rest ih => exact ⟨hsub _ _ h.1, ih h.2⟩

/-- A call in a range that lies clear of the window and that user spaces will see. -/
def Shared (s : MemoryState) (call : KernelCall) : Prop :=
  RangeOk s call.start call.stop ∧ Propagates s call.start call.stop call.writable

/-- The kernel and the log stay in step. -/
theorem InStep.calls {s : MemoryState} (h : InStep s) {calls : List KernelCall}
    (hcalls : CallsOk Shared calls s) : InStep (runCalls calls s) := by
  induction calls generalizing s with
  | nil => exact h
  | cons call rest ih =>
    obtain ⟨⟨hok, hprop⟩, hrest⟩ := hcalls
    exact ih (h.call hok hprop) hrest

/-- **User spaces see the kernel's mappings.** After `init` and any calls, each of
which reaches the log or changes nothing, every address has the same translation
in the kernel's address space and in a newly populated one. -/
theorem calls_propagate {bootInfo : BootInfo} {image : KernelImage} (hboot : bootInfo.Regular)
    (hfb : bootInfo.FramebufferShared) {phys : ByteMemory} {s : MemoryState}
    (hinit : init bootInfo image (.new phys) = some (.ok () s)) {calls : List KernelCall}
    (hcalls : CallsOk Shared calls s) {owned : Option OwnedPages} {root : Nat} {s' : MemoryState}
    (hpop : populate owned (runCalls calls s) = .ok root s') :
    ∃ space, (runCalls calls s).kernelSpace = some space ∧
      ∀ v < 2 ^ 48, walk s'.phys root v = walk s'.phys space.rootPaddr v := by
  obtain ⟨s₁, filled⟩ : ∃ s₁, initializeAllocator bootInfo image (.new phys) = some (.ok () s₁) := by
    obtain ⟨r, filled, hinstall⟩ := Option.map_eq_some_iff.mp hinit
    cases r with
    | error e s₁ => cases hinstall
    | ok _ s₁ => exact ⟨s₁, filled⟩
  obtain ⟨run, hreach, hrun⟩ := (KernelRun.Reachable.init filled hinit).calls
    (hcalls.mono fun _ _ h => h.1)
  have hcontext := hreach.contextOk hboot
  rw [hrun] at hcontext
  exact ((init_inStep hboot hfb hinit).calls hcalls).walk_eq hcontext hpop

/-! ### Mapping one page three times -/

def sampleCall (writable : Bool) : KernelCall := ⟨0x200000, 0x201000, writable⟩

theorem rangeOk_sampleCall {s : MemoryState} (writable : Bool) :
    RangeOk s (sampleCall writable).start (sampleCall writable).stop := by
  have hclear : alignUp 0x201000 pageSize ≤ physWindowStart := by decide
  exact ⟨by simp [sampleCall], by simp [sampleCall], .inr (.inl hclear)⟩

theorem sampleBoot_init :
    ∃ phys, init KernelRun.sampleBoot ⟨0, 0⟩ (.new phys) =
      some (.ok () KernelRun.sampleRun.state) := by
  have hbooted : KernelRun.sampleRun.state =
      (KernelRun.stateOf (init KernelRun.sampleBoot ⟨0, 0⟩ KernelRun.blankState)).getD
        KernelRun.blankState := by
    rw [KernelRun.sampleRun, KernelRun.bootRun]
  rw [hbooted]
  exact ⟨⟨fun _ => 0, []⟩, KernelRun.eq_getD_of_stateOf (by decide +kernel)⟩

theorem sampleBoot_framebufferShared : KernelRun.sampleBoot.FramebufferShared := .inr (by decide)

/-- The page of the calls in the kernel's address space and in a new one. -/
def samplePage (s : MemoryState) : Option (Option Translation × Option Translation) :=
  match populate none s with
  | .error _ _ => none
  | .ok root s' => s.kernelSpace.map fun space =>
    (walk s'.phys space.rootPaddr 0x200000, walk s'.phys root 0x200000)

/-- A call for the sample page that reaches the log. -/
theorem shared_sampleCall {s : MemoryState} {writable : Bool} (space : AddressSpace)
    (hspace : s.kernelSpace = some space)
    (haffords : s.Affords space.rootPaddr 0x200 0x200)
    (hfresh : s.coversShared (alignDown 0x200000 pageSize) (alignUp 0x201000 pageSize) writable =
      false)
    (hroom : s.sharedKernelMappingCount < maxSharedKernelMappings) :
    Shared s (sampleCall writable) := by
  refine ⟨rangeOk_sampleCall writable, fun space' hspace' => .inl ⟨fun n hn => ?_, hfresh, hroom⟩⟩
  obtain rfl : space' = space := by
    rw [hspace] at hspace'
    exact (Option.some.inj hspace').symm
  obtain ⟨hlo, hhi⟩ := hn
  simp only [sampleCall] at hlo hhi
  obtain rfl : n = 0x200 := by omega
  have hfirst : (sampleCall writable).start / 4096 = 0x200 := by simp [sampleCall]
  rw [hfirst]
  exact haffords

/-- One page mapped writable and then read-only is read-only in user spaces. -/
theorem calls_propagate_at_sampleCalls :
    ∃ (root : Nat) (s' : MemoryState) (space : AddressSpace),
      populate none (runCalls [sampleCall true, sampleCall false] KernelRun.sampleRun.state) =
        .ok root s' ∧ walk s'.phys root 0x200000 = walk s'.phys space.rootPaddr 0x200000 := by
  have hcalls : CallsOk Shared [sampleCall true, sampleCall false] KernelRun.sampleRun.state := by
    refine ⟨shared_sampleCall ⟨0x1000000⟩ ?_ ?_ ?_ ?_, shared_sampleCall ⟨0x1000000⟩ ?_ ?_ ?_ ?_,
      trivial⟩
    all_goals decide +kernel
  have hsome : (samplePage (runCalls [sampleCall true, sampleCall false]
      KernelRun.sampleRun.state)).isSome = true := by decide +kernel
  obtain ⟨phys, hinit⟩ := sampleBoot_init
  generalize KernelRun.sampleRun.state = s at hcalls hsome hinit ⊢
  rw [samplePage] at hsome
  split at hsome
  · cases hsome
  · rename_i root s' hpop
    obtain ⟨space, -, hwalk⟩ := calls_propagate KernelRun.sampleBoot_regular
      sampleBoot_framebufferShared hinit hcalls hpop
    exact ⟨root, s', space, hpop, hwalk 0x200000 (by decide)⟩

/-- **A remapping is lost.** Mapping one page writable, read-only and writable again
leaves it writable in the kernel; the third call finds the first entry of the log
and adds none, so a replay ends with the second. -/
theorem remapping_is_lost :
    ¬ ∀ (bootInfo : BootInfo) (image : KernelImage) (phys : ByteMemory) (s : MemoryState),
      bootInfo.Regular → bootInfo.FramebufferShared →
      init bootInfo image (.new phys) = some (.ok () s) →
      ∀ calls, CallsOk (fun s call => RangeOk s call.start call.stop) calls s →
      ∀ owned root s', populate owned (runCalls calls s) = .ok root s' →
      ∃ space, (runCalls calls s).kernelSpace = some space ∧
        ∀ v < 2 ^ 48, walk s'.phys root v = walk s'.phys space.rootPaddr v := by
  intro hall
  have hpage : samplePage (runCalls [sampleCall true, sampleCall false, sampleCall true]
      KernelRun.sampleRun.state) =
      some (some ⟨0x200000, true, false⟩, some ⟨0x200000, false, false⟩) := by
    decide +kernel
  obtain ⟨phys, hinit⟩ := sampleBoot_init
  generalize KernelRun.sampleRun.state = s at hpage hinit
  have hcalls : CallsOk (fun s call => RangeOk s call.start call.stop)
      [sampleCall true, sampleCall false, sampleCall true] s :=
    ⟨rangeOk_sampleCall _, rangeOk_sampleCall _, rangeOk_sampleCall _, trivial⟩
  rw [samplePage] at hpage
  split at hpage
  · cases hpage
  · rename_i root s' hpop
    obtain ⟨space, hspace, hwalk⟩ := hall _ _ _ _ KernelRun.sampleBoot_regular
      sampleBoot_framebufferShared hinit _ hcalls _ _ _ hpop
    rw [hspace, Option.map_some, hwalk 0x200000 (by decide), Option.some.injEq] at hpage
    obtain ⟨htrue, hfalse⟩ := Prod.mk.inj hpage
    rw [htrue] at hfalse
    cases hfalse

end Lazers.Memory
