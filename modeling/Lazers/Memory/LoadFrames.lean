import Lazers.Memory.Ledger
import Lazers.Memory.Loader

/-!
# The frames of a load

Whatever the image, the startup block and the page tables are, loading takes
frames and either records or loses them (`buildUserSpace_takes`). A failed load
gives back the recorded ones, so its effect on the free set is the loss of the
others (`loadUserProgram_error`).
-/

namespace Lazers.Memory

open Builder

/-! ## Building -/

theorem liftExcept_takes {α : Type} (x : Except MemoryError α) : TakesFrames (liftExcept x) := by
  intro b₀ lost
  cases x with
  | ok a => exact Triple.pure fun _ h => h
  | error e => exact Triple.throw fun _ h => h.draws

theorem copyFrom_takes (map : UserPageMap) (rounds address : Nat) (remaining : List UInt8) :
    TakesFrames (map.copyFrom rounds address remaining) := by
  intro b₀ lost
  induction rounds generalizing address remaining with
  | zero => exact Triple.pure fun _ h => h
  | succ rounds ih =>
    rw [UserPageMap.copyFrom]
    split_ifs
    · exact Triple.pure fun _ h => h
    · simp only
      split
      · refine Triple.bind (Triple.modify fun b h => ?_) fun _ => ih _ _
        exact h.trans ⟨[], Drawn.store h.draws.valid _⟩
      · exact Triple.throw fun _ h => h.draws

theorem copyInto_takes (map : UserPageMap) (address : Nat) (bytes : List UInt8) :
    TakesFrames (map.copyInto address bytes) := copyFrom_takes _ _ _ _

theorem writeArguments_takes (pages : UserPageMap) (args : List (List UInt8)) (cursor : Nat) :
    TakesFrames (writeArguments pages args cursor) := by
  intro b₀ lost
  induction args generalizing cursor with
  | nil => exact Triple.pure fun _ h => h
  | cons arg rest ih =>
    refine Triple.bind (copyInto_takes _ _ _ b₀ lost) fun _ => ?_
    refine Triple.bind (copyInto_takes _ _ _ b₀ lost) fun _ => ?_
    exact Triple.bind (ih _) fun _ => Triple.pure fun _ h => h

theorem writeStartupArguments_takes (pages : UserPageMap) (startup : ProgramStartup) :
    TakesFrames (writeStartupArguments pages startup) := fun b₀ lost =>
  Triple.bind (liftExcept_takes _ b₀ lost) fun _ =>
    Triple.bind (writeArguments_takes _ _ _ b₀ lost) fun _ =>
      Triple.bind (copyInto_takes _ _ _ b₀ lost) fun _ =>
        Triple.bind (copyInto_takes _ _ _ b₀ lost) fun _ => Triple.pure fun _ h => h

theorem addUserPage_takes (root virt flags : Nat) (pages : UserPageMap) :
    TakesFrames (addUserPage root virt flags pages) := fun b₀ lost =>
  Triple.bind (allocatePage_holds b₀ lost) fun phys =>
    Triple.bind ((map4k_takes root virt phys flags) b₀ (phys :: lost)) fun _ =>
      Triple.bind ((liftExcept_takes (pages.insert virt phys)) b₀ (phys :: lost)) fun _ =>
        Triple.bind (pushOwned_takes b₀ lost phys) fun _ => Triple.pure fun _ h => h

theorem addSegmentPages_takes (root flags rounds virt : Nat) (pages : UserPageMap) :
    TakesFrames (addSegmentPages root flags rounds virt pages) := by
  intro b₀ lost
  induction rounds generalizing virt pages with
  | zero => exact Triple.pure fun _ h => h
  | succ rounds ih =>
    rw [addSegmentPages]
    split_ifs
    · exact Triple.bind (Triple.pure fun _ h => h) fun _ => ih _ _
    · exact Triple.bind (addUserPage_takes _ _ _ _ b₀ lost) fun _ => ih _ _

theorem addStackPages_takes (root rounds virt : Nat) (pages : UserPageMap) :
    TakesFrames (addStackPages root rounds virt pages) := by
  intro b₀ lost
  induction rounds generalizing virt pages with
  | zero => exact Triple.pure fun _ h => h
  | succ rounds ih => exact Triple.bind (addUserPage_takes _ _ _ _ b₀ lost) fun _ => ih _ _

theorem loadSegment_takes (root : Nat) (bytes : List UInt8) (header : Elf.ProgramHeader)
    (pages : UserPageMap) : TakesFrames (loadSegment root bytes header pages) := by
  intro b₀ lost
  unfold loadSegment
  split
  · simp only
    split_ifs
    · exact Triple.throw fun _ h => h.draws
    · refine Triple.bind (addSegmentPages_takes _ _ _ _ _ b₀ lost) fun _ => ?_
      refine Triple.bind (liftExcept_takes _ b₀ lost) fun _ => ?_
      exact Triple.bind (copyInto_takes _ _ _ b₀ lost) fun _ => Triple.pure fun _ h => h
  · exact Triple.throw fun _ h => h.draws

theorem loadSegments_takes (root : Nat) (bytes : List UInt8)
    (headers : List (Except Elf.ElfError Elf.ProgramHeader)) (pages : UserPageMap) :
    TakesFrames (loadSegments root bytes headers pages) := by
  intro b₀ lost
  induction headers generalizing pages with
  | nil => exact Triple.pure fun _ h => h
  | cons header rest ih =>
    cases header with
    | error e => exact Triple.throw fun _ h => h.draws
    | ok header =>
      rw [loadSegments]
      split_ifs
      · exact Triple.bind (Triple.pure fun _ h => h) fun _ => ih _
      · exact Triple.bind (loadSegment_takes _ _ _ _ b₀ lost) fun _ => ih _

theorem replaySharedKernelMappings_takes (root : Nat) (mappings : List SharedKernelMapping) :
    TakesFrames (replaySharedKernelMappings root mappings) := by
  intro b₀ lost
  induction mappings with
  | nil => exact Triple.pure fun _ h => h
  | cons mapping rest ih => exact Triple.bind (mapIdentity4kRange_takes _ _ _ _ b₀ lost) fun _ => ih

theorem mapSharedKernelContext_takes (root : Nat) : TakesFrames (mapSharedKernelContext root) := by
  intro b₀ lost
  refine Triple.bind (fun b h => h : Triple (Keeps lost b₀) get (fun _ => Keeps lost b₀) _) fun b => ?_
  refine Triple.bind (mapIdentity2mRange_takes _ _ _ _ b₀ lost) fun _ => ?_
  split_ifs
  · exact Triple.bind (mapIdentity4kRange_takes _ _ _ _ b₀ lost) fun _ =>
      replaySharedKernelMappings_takes _ _ b₀ lost
  · exact replaySharedKernelMappings_takes _ _ b₀ lost

/-- **Building a user space only takes frames and stores.** -/
theorem buildUserSpace_takes (elf : Elf.ElfImage) (bytes : List UInt8) (startup : ProgramStartup) :
    TakesFrames (buildUserSpace elf bytes startup) := fun b₀ lost =>
  Triple.bind (allocatePage_holds b₀ lost) fun root =>
    Triple.bind (pushOwned_takes b₀ lost root) fun _ =>
      Triple.bind (mapSharedKernelContext_takes root b₀ lost) fun _ =>
        Triple.bind (loadSegments_takes _ _ _ _ b₀ lost) fun _ =>
          Triple.bind (addStackPages_takes _ _ _ _ b₀ lost) fun _ =>
            Triple.bind (writeStartupArguments_takes _ _ b₀ lost) fun _ => Triple.pure fun _ h => h

/-! ## Frames as addresses -/

/-- The addresses of some frames. -/
def frameSet (frames : List Nat) : Set Nat := { x | ∃ f ∈ frames, x ∈ block f 1 }

theorem frameSet_append (l l' : List Nat) : frameSet (l ++ l') = frameSet l ∪ frameSet l' := by
  ext x
  simp only [frameSet, List.mem_append, Set.mem_ofPred_eq, Set.mem_union]
  constructor
  · rintro ⟨f, hf | hf, hx⟩
    · exact .inl ⟨f, hf, hx⟩
    · exact .inr ⟨f, hf, hx⟩
  · rintro (⟨f, hf, hx⟩ | ⟨f, hf, hx⟩)
    · exact ⟨f, .inl hf, hx⟩
    · exact ⟨f, .inr hf, hx⟩

theorem frameSet_cons (f : Nat) (l : List Nat) : frameSet (f :: l) = block f 1 ∪ frameSet l := by
  ext x
  simp only [frameSet, List.mem_cons, Set.mem_ofPred_eq, Set.mem_union, or_and_right, exists_or,
    exists_eq_left]

theorem frameSet_perm {l l' : List Nat} (h : l.Perm l') : frameSet l = frameSet l' := by
  ext x
  simp only [frameSet, Set.mem_ofPred_eq, h.mem_iff]

theorem frameSet_eq_empty {l : List Nat} : frameSet l = ∅ ↔ l = [] := by
  constructor
  · intro h
    refine List.eq_nil_iff_forall_not_mem.mpr fun f hf => ?_
    have hmem : f ∈ frameSet l := ⟨f, hf, mem_block.mpr ⟨le_rfl, by omega⟩⟩
    rw [h] at hmem
    exact hmem
  · rintro rfl
    ext x
    simp [frameSet]

theorem free_eq_frameSet {a : PhysicalAllocator} (ha : a.Valid) : a.free = frameSet a.frames :=
  Set.ext fun _ => PhysicalAllocator.mem_free_iff ha

/-- Frames that do not overlap. -/
abbrev Apart (frames : List Nat) : Prop :=
  frames.Pairwise fun f g => Disjoint (block f 1) (block g 1)

theorem apart_frames {a : PhysicalAllocator} (ha : a.Valid) : Apart a.frames := by
  refine (PhysicalAllocator.frames_pairwise ha).imp fun {f g} h => ?_
  rw [Set.disjoint_left]
  intro x hx hx'
  rw [mem_block] at hx hx'
  omega

theorem Apart.perm {l l' : List Nat} (h : Apart l) (hp : l.Perm l') : Apart l' :=
  (hp.pairwise_iff fun h => h.symm).mp h

theorem Apart.disjoint {l l' : List Nat} (h : Apart (l ++ l')) :
    Disjoint (frameSet l) (frameSet l') := by
  rw [Set.disjoint_left]
  rintro x ⟨f, hf, hx⟩ ⟨g, hg, hx'⟩
  exact Set.disjoint_left.mp ((List.pairwise_append.mp h).2.2 f hf g hg) hx hx'

/-! ## Releasing -/

/-- The loop of `OwnedPages::release` makes its pages free. -/
theorem releasePages_spec {pages : List Nat} {s s' : MemoryState} (hvalid : s.allocator.Valid)
    (hpages : ∀ p ∈ pages, p % 4096 = 0 ∧ 0 < p ∧ p + 4096 < u64Limit)
    (h : releasePages pages s = some s') :
    s'.allocator.Valid ∧ s'.free = s.free ∪ frameSet pages ∧
      s' = { s with allocator := s'.allocator } := by
  induction pages generalizing s with
  | nil =>
    obtain rfl := Option.some.inj h
    refine ⟨hvalid, ?_, rfl⟩
    rw [frameSet_eq_empty.mpr rfl, Set.union_empty]
  | cons p rest ih =>
    obtain ⟨s₁, hfree, h⟩ := Option.bind_eq_some_iff.mp h
    obtain ⟨a, halloc, rfl⟩ := Option.map_eq_some_iff.mp hfree
    obtain ⟨hal, hpos, hlim⟩ := hpages p List.mem_cons_self
    obtain ⟨hvalid₁, hfree₁⟩ := PhysicalAllocator.freeContiguousPages_spec hvalid Nat.one_pos hal
      hpos (by omega) halloc
    obtain ⟨hvalid', hfree', hctx⟩ := ih hvalid₁
      (fun q hq => hpages q (List.mem_cons_of_mem _ hq)) h
    refine ⟨hvalid', ?_, ?_⟩
    · rw [hfree', frameSet_cons, ← Set.union_assoc, MemoryState.free, hfree₁]
    · rw [hctx]

/-- Giving back the recorded frames leaves exactly the lost ones missing. -/
theorem Drawn.release {b₀ b : BuilderState} {recorded lost : List Nat} {s' : MemoryState}
    (h : Drawn b₀ b recorded lost) (hvalid : b₀.state.allocator.Valid)
    (howned : b₀.ownedPages = some OwnedPages.empty)
    (hrel : (b.ownedPages.getD OwnedPages.empty).release b.state = some s') :
    s'.allocator.Valid ∧ s'.free = b₀.state.free \ frameSet lost ∧
      s' = { b₀.state with phys := s'.phys, allocator := s'.allocator } := by
  have hlist : (b.ownedPages.getD OwnedPages.empty).list = recorded := by
    have hb := h.owned
    rw [howned] at hb
    cases hpages : b.ownedPages with
    | none => simp [hpages] at hb
    | some o => simpa [hpages] using hb
  have hapart := (apart_frames hvalid).perm h.perm
  have hbounds : ∀ p ∈ recorded, p % 4096 = 0 ∧ 0 < p ∧ p + 4096 < u64Limit := fun p hp =>
    PhysicalAllocator.frame_bounds hvalid (h.perm.mem_iff.mpr (by simp [hp]))
  rw [OwnedPages.release, hlist] at hrel
  obtain ⟨hvalid', hfree', hctx⟩ := releasePages_spec h.valid hbounds hrel
  refine ⟨hvalid', ?_, ?_⟩
  · have hsplit : b₀.state.free = frameSet recorded ∪ (frameSet lost ∪ b.state.free) := by
      rw [MemoryState.free, MemoryState.free, free_eq_frameSet hvalid, free_eq_frameSet h.valid,
        frameSet_perm h.perm, frameSet_append, frameSet_append]
    -- the lost frames overlap neither the recorded nor the free ones
    have hleft : Disjoint (frameSet recorded) (frameSet lost) := by
      have := hapart.disjoint
      rw [frameSet_append, Set.disjoint_union_right] at this
      exact this.1
    have hright : Disjoint (frameSet lost) b.state.free := by
      rw [MemoryState.free, free_eq_frameSet h.valid]
      exact Apart.disjoint ((List.pairwise_append.mp hapart).2.1)
    rw [hfree', hsplit]
    ext x
    have h₁ : x ∈ frameSet recorded → x ∉ frameSet lost := fun h => Set.disjoint_left.mp hleft h
    have h₂ : x ∈ frameSet lost → x ∉ b.state.free := fun h => Set.disjoint_left.mp hright h
    simp only [Set.mem_union, Set.mem_sdiff]
    tauto
  · rw [hctx, h.context]

/-- **A failed load loses exactly the frames that were taken and not recorded.** -/
theorem loadUserProgram_error {bytes : List UInt8} {startup : ProgramStartup} {s s' : MemoryState}
    {e : MemoryError} {elf : Elf.ElfImage} {b : BuilderState} (hvalid : s.allocator.Valid)
    (hrun : buildUserSpace elf bytes startup { state := s, ownedPages := some OwnedPages.empty } =
      .error e b)
    (hrel : (b.ownedPages.getD OwnedPages.empty).release b.state = some s') :
    ∃ recorded lost, Drawn { state := s, ownedPages := some OwnedPages.empty } b recorded lost ∧
      s'.allocator.Valid ∧ s'.free = s.free \ frameSet lost ∧
      s' = { s with phys := s'.phys, allocator := s'.allocator } := by
  obtain ⟨recorded, lost, h⟩ :=
    ((buildUserSpace_takes elf bytes startup).draws _).error (.refl hvalid) hrun
  exact ⟨recorded, lost, h, h.release hvalid rfl hrel⟩

end Lazers.Memory
