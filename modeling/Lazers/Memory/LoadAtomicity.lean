import Lazers.Memory.LoadBudget

/-!
# When a failed load gives everything back

A failed `load_user_program` releases the page list, so it gives back all it
took except frames that were taken and not recorded yet. Which frames are in
that position when a load stops can be read off its inputs: the pages the
headers ask for (`requestedPages`), the frames they need together with the
kernel context (`framesNeeded`), and the number of free frames.

A page's own frame is taken first and recorded last, so a load that stops at a
page gives everything back only if not even that frame was there
(`NoLeak`, `loadUserProgram_atomic_iff`).
-/

namespace Lazers.Memory

open AddressMap Elf

/-! ## What is asked for -/

/-- The pages of some requests in the order they are placed, after `done`. -/
def placingOrder : List PageRequest → (done : List Nat) → List Nat
  | [], done => done
  | request :: rest, done =>
    if request.page ∈ done then placingOrder rest done
    else placingOrder rest (done ++ [request.page])

/-- The pages a program asks for: those of its segments up to the first bad
header and, if there is none, those of the stack. -/
def requestedPages (fileLen : Nat) (headers : List (Except ElfError ProgramHeader)) : List Nat :=
  placingOrder ((segmentPlan fileLen headers).1 ++
    if (segmentPlan fileLen headers).2.isNone then stackRequests else []) []

namespace MemoryState

/-- The frames that the root, the context, `pages` and their tables take. -/
def framesNeeded (s : MemoryState) (pages : List Nat) : Nat :=
  1 + (s.contextTables ∪ pages.toFinset.biUnion pagePath).card + pages.length

/-- There is room for the context and `pages`: in the page map, in the page list
and in the allocator. -/
def Fits (s : MemoryState) (pages : List Nat) : Prop :=
  pages.length ≤ maxSegmentPages ∧ s.framesNeeded pages ≤ maxOwnedPages ∧
    s.framesNeeded pages ≤ s.allocator.frames.length

/-- **When stopping is harmless.** A context that does not fit must lack frames
rather than room in the page list, and the first page that does not fit must
find no free frame at all. -/
def NoLeak (s : MemoryState) (pages : List Nat) : Prop :=
  (¬ s.Fits [] → s.allocator.frames.length ≤ maxOwnedPages) ∧
    ∀ done page, done ++ [page] <+: pages → s.Fits done → ¬ s.Fits (done ++ [page]) →
      s.framesNeeded done = s.allocator.frames.length

end MemoryState

theorem placingOrder_append (l l' : List PageRequest) (done : List Nat) :
    placingOrder (l ++ l') done = placingOrder l' (placingOrder l done) := by
  induction l generalizing done with
  | nil => rfl
  | cons request rest ih =>
    rw [List.cons_append, placingOrder, placingOrder]
    split_ifs
    · exact ih _
    · exact ih _

theorem prefix_placingOrder (l : List PageRequest) (done : List Nat) :
    done <+: placingOrder l done := by
  induction l generalizing done with
  | nil => exact List.prefix_refl _
  | cons request rest ih =>
    rw [placingOrder]
    split_ifs
    · exact ih _
    · exact (List.prefix_append _ _).trans (ih _)

namespace MemoryState

variable {s : MemoryState} {pages pages' : List Nat}

theorem framesNeeded_mono (h : pages <+: pages') : s.framesNeeded pages ≤ s.framesNeeded pages' := by
  have hcard : (s.contextTables ∪ pages.toFinset.biUnion pagePath).card ≤
      (s.contextTables ∪ pages'.toFinset.biUnion pagePath).card := by
    refine Finset.card_le_card (Finset.union_subset_union_right ?_)
    refine Finset.biUnion_subset_biUnion_of_subset_left _ fun n hn => ?_
    exact List.mem_toFinset.mpr (h.subset (List.mem_toFinset.mp hn))
  have hlen := h.length_le
  unfold framesNeeded
  omega

theorem Fits.of_prefix (h : pages <+: pages') (hfit : s.Fits pages') : s.Fits pages :=
  ⟨h.length_le.trans hfit.1, (framesNeeded_mono h).trans hfit.2.1,
    (framesNeeded_mono h).trans hfit.2.2⟩

/-- Nothing is lost where everything fits. -/
theorem NoLeak.of_fits (h : s.Fits pages) : s.NoLeak pages :=
  ⟨fun hnil => absurd (h.of_prefix (List.nil_prefix)) hnil,
    fun _ _ hpre _ hno => absurd (h.of_prefix hpre) hno⟩

/-- Where even the context does not fit, it is the page list that decides. -/
theorem noLeak_iff_of_not_fits (h : ¬ s.Fits []) :
    s.NoLeak pages ↔ s.allocator.frames.length ≤ maxOwnedPages :=
  ⟨fun hno => hno.1 h, fun hle => ⟨fun _ => hle, fun _ _ _ hfit _ =>
    absurd (hfit.of_prefix List.nil_prefix) h⟩⟩

/-- The page where a load stops is unique. -/
theorem noLeak_iff_of_stop {done : List Nat} {page : Nat} (hpre : done ++ [page] <+: pages)
    (hfit : s.Fits done) (hno : ¬ s.Fits (done ++ [page])) :
    s.NoLeak pages ↔ s.framesNeeded done = s.allocator.frames.length := by
  refine ⟨fun h => h.2 done page hpre hfit hno, fun hall =>
    ⟨fun h => absurd (hfit.of_prefix List.nil_prefix) h, fun done' page' hpre' hfit' hno' => ?_⟩⟩
  -- one of two prefixes of a list extends the other
  rcases List.prefix_or_prefix_of_prefix hpre hpre' with h | h
  · rcases List.prefix_concat_iff.mp h with h | h
    · rw [← (List.append_inj' h rfl).1]
      exact hall
    · exact absurd (hfit'.of_prefix h) hno
  · rcases List.prefix_concat_iff.mp h with h | h
    · rw [(List.append_inj' h rfl).1]
      exact hall
    · exact absurd (hfit.of_prefix h) hno'

end MemoryState

/-! ## Serving requests -/

/-- Recording the frame in hand. -/
theorem record_paid {total p : Nat} {T : Finset (Nat × Nat)} (f : Nat) :
    Triple (Paid total 1 p T) (record f) (fun _ => Paid total 0 (p + 1) T)
      (fun _ A => maxOwnedPages < 1 + T.card + (p + 1) ∧ Missing total 1 A) := by
  intro A hA
  obtain ⟨l, ho, hl, hmax, hsum⟩ := hA.owned
  by_cases hfull : maxOwnedPages ≤ l.length
  · have hrec : record f A = .error .ownedPageCapacityExceeded A := by simp [record, ho, hfull]
    rw [hrec]
    exact ⟨by omega, hA.missing⟩
  · have hrec : record f A = .ok () { A with owned := some (l ++ [f]) } := by
      simp [record, ho, hfull]
    rw [hrec]
    refine ⟨hA.tables_eq, l ++ [f], rfl, ?_, ?_, ?_⟩
    all_goals rw [List.length_append, List.length_singleton]
    · omega
    · omega
    · show l.length + 1 + A.frames.length + 0 = total
      omega

/-- The steps of one page: its frame, its tables, its slot, its record. -/
theorem placePage_paid {total p : Nat} {T : Finset (Nat × Nat)} {request : PageRequest}
    {placed : List PlacedPage} (hlen : placed.length = p) :
    Triple (Paid total 0 p T) (placePage request placed)
      (fun placed' A => placed'.map PlacedPage.page = placed.map PlacedPage.page ++ [request.page] ∧
        p < maxSegmentPages ∧ Paid total 0 (p + 1) (T ∪ pagePath request.page) A)
      (fun _ A => ¬ (p < maxSegmentPages ∧
          1 + (T ∪ pagePath request.page).card + (p + 1) ≤ min total maxOwnedPages) ∧
        ∃ lost, Missing total lost A ∧ (lost = 0 ↔ 1 + T.card + p = total)) := by
  intro s hs
  obtain ⟨l, ho, hl, hmax, hsum⟩ := hs.owned
  have hgrow : T.card ≤ (T ∪ pagePath request.page).card :=
    Finset.card_le_card Finset.subset_union_left
  unfold placePage
  cases hf : s.frames with
  | nil =>
    have htake : take s = .error .allocatorExhausted s := by simp [take, hf]
    rw [EStateM.bind_eq_error.mpr (.inl htake)]
    rw [hf, List.length_nil] at hsum
    exact ⟨by omega, 0, hs.missing, by omega⟩
  | cons f rest =>
    have htake : take s = .ok f { s with frames := rest } := by simp [take, hf]
    rw [EStateM.bind_of_ok htake]
    rw [hf, List.length_cons] at hsum
    have hpaid : Paid total 1 p T { s with frames := rest } := by
      refine ⟨hs.tables_eq, l, ho, hl, hmax, ?_⟩
      show l.length + rest.length + 1 = total
      omega
    refine Triple.bind ((mapPage_demands request.page f request.flags total 1 p T).conseq
      (fun _ h => h) (fun _ _ h => h) fun _ A h => ?_) (fun _ => ?_) _ hpaid
    · -- a table is missing, and the page's frame is lost with it
      obtain ⟨hno, hmiss⟩ := h
      exact ⟨by omega, _, hmiss, fun h => by omega, fun h => by omega⟩
    · simp only [hlen]
      split_ifs with hfull
      · exact Triple.throw fun A h => ⟨by omega, 1, h.missing, by omega⟩
      · refine Triple.bind ((record_paid f).conseq (fun _ h => h) (fun _ _ h => h) fun _ A h => ?_)
          fun _ => Triple.pure fun A h => ⟨by simp, by omega, h⟩
        obtain ⟨hno, hmiss⟩ := h
        exact ⟨by omega, 1, hmiss, by omega⟩

/-- The pages of `done` are placed and everything is paid. -/
structure Served (s : MemoryState) (done : List Nat) (placed : List PlacedPage) (A : AddressMap) :
    Prop where
  pages : placed.map PlacedPage.page = done
  room : done.length ≤ maxSegmentPages
  paid : Paid s.allocator.frames.length 0 done.length
    (s.contextTables ∪ done.toFinset.biUnion pagePath) A

theorem Served.fits {s : MemoryState} {done : List Nat} {placed : List PlacedPage} {A : AddressMap}
    (h : Served s done placed A) : s.Fits done := by
  obtain ⟨h₁, h₂⟩ := h.paid.le
  exact ⟨h.room, h₁, h₂⟩

/-- A failure loses nothing exactly when `NoLeak` says so. -/
def Settled (s : MemoryState) (pages : List Nat) (A : AddressMap) : Prop :=
  ∃ lost, Missing s.allocator.frames.length lost A ∧ (lost = 0 ↔ s.NoLeak pages)

/-- **Serving a list of requests**: all are served, or the load stops at the first
page that does not fit. -/
theorem placeAll_served (s : MemoryState) (requests : List PageRequest) {done : List Nat}
    {placed : List PlacedPage} (pages : List Nat) (hpages : placingOrder requests done <+: pages) :
    Triple (Served s done placed) (placeAll requests placed)
      (fun placed' A => Served s (placingOrder requests done) placed' A)
      (fun _ => Settled s pages) := by
  induction requests generalizing done placed with
  | nil => exact Triple.pure fun _ h => h
  | cons request rest ih =>
    refine Triple.of_start fun A hA => ?_
    rw [placeAll]
    rw [placingOrder] at hpages ⊢
    rw [hA.pages]
    split_ifs at hpages ⊢ with hmem
    · exact (ih hpages).conseq (fun _ h => h ▸ hA) (fun _ _ h => h) fun _ _ h => h
    · have hlen : placed.length = done.length := by rw [← hA.pages, List.length_map]
      have hset : s.contextTables ∪ done.toFinset.biUnion pagePath ∪ pagePath request.page =
          s.contextTables ∪ (done ++ [request.page]).toFinset.biUnion pagePath := by
        rw [List.toFinset_append, Finset.union_biUnion, Finset.union_assoc]
        simp
      refine Triple.bind ((placePage_paid hlen).conseq (fun _ h => h ▸ hA.paid) (fun _ _ h => h)
        fun _ A' h => ?_) fun placed' => ?_
      · obtain ⟨hno, lost, hmiss, hlost⟩ := h
        rw [hset] at hno
        refine ⟨lost, hmiss, hlost.trans (MemoryState.noLeak_iff_of_stop
          ((prefix_placingOrder rest _).trans hpages) hA.fits fun hfit => hno ?_).symm⟩
        obtain ⟨h₁, h₂, h₃⟩ := hfit
        rw [List.length_append, List.length_singleton] at h₁
        unfold MemoryState.framesNeeded at h₂ h₃
        rw [List.length_append, List.length_singleton] at h₂ h₃
        omega
      · refine (ih hpages).conseq (fun A' h => ?_) (fun _ _ h => h) fun _ _ h => h
        obtain ⟨hmap, hroom, hpaid⟩ := h
        rw [hset] at hpaid
        refine ⟨by rw [hmap, hA.pages], ?_, ?_⟩
        · rw [List.length_append, List.length_singleton]
          omega
        · rwa [List.length_append, List.length_singleton]

/-- **A whole load.** -/
theorem loadImage_settled (s : MemoryState) (fileLen : Nat)
    (headers : List (Except ElfError ProgramHeader)) :
    Triple (Paid s.allocator.frames.length 0 0 ∅) (loadImage s fileLen headers)
      (fun _ A => Missing s.allocator.frames.length 0 A ∧
        s.NoLeak (requestedPages fileLen headers))
      (fun _ => Settled s (requestedPages fileLen headers)) := by
  have hpages : requestedPages fileLen headers =
      placingOrder (if (segmentPlan fileLen headers).2.isNone then stackRequests else [])
        (placingOrder (segmentPlan fileLen headers).1 []) := placingOrder_append ..
  have hneed : s.framesNeeded [] = 1 + s.contextTables.card := by simp [MemoryState.framesNeeded]
  refine Triple.bind (Q := fun _ => Served s [] []) ?_ fun _ => ?_
  · refine (mapContext_demands s s.allocator.frames.length 0 0 ∅).conseq (fun _ h => h)
      (fun _ A h => ?_) fun _ A h => ?_
    · refine ⟨rfl, Nat.zero_le _, ?_⟩
      simpa using h
    · obtain ⟨hno, hmiss⟩ := h
      rw [Finset.empty_union] at hno
      have hfit : ¬ s.Fits [] := by
        rintro ⟨-, h₁, h₂⟩
        rw [hneed] at h₁ h₂
        omega
      refine ⟨_, hmiss, Iff.trans ?_ (MemoryState.noLeak_iff_of_not_fits hfit).symm⟩
      rw [Nat.sub_zero, Nat.zero_add]
      split_ifs with hle
      · exact ⟨fun _ => hle, fun _ => rfl⟩
      · exact ⟨False.elim, fun h => absurd h hle⟩
  · unfold placeImage
    refine Triple.bind (Q := fun placed A => (segmentPlan fileLen headers).2 = none ∧
      Served s (placingOrder (segmentPlan fileLen headers).1 []) placed A) ?_ fun placed => ?_
    · refine Triple.bind (placeAll_served s _ (requestedPages fileLen headers) ?_)
        fun placed => ?_
      · rw [hpages]
        exact prefix_placingOrder _ _
      · cases herr : (segmentPlan fileLen headers).2 with
        | none => exact Triple.pure fun _ h => ⟨rfl, h⟩
        | some e =>
          refine Triple.throw fun A h => ⟨0, h.paid.missing, ?_⟩
          rw [hpages, herr]
          exact ⟨fun _ => .of_fits h.fits, fun _ => rfl⟩
    · refine Triple.of_start fun A ⟨hnone, hserved⟩ => ?_
      rw [hnone, Option.isNone_none, if_pos rfl] at hpages
      rw [hpages]
      exact (placeAll_served s stackRequests _ (List.prefix_refl _)).conseq
        (fun _ h => h ▸ hserved) (fun _ A' h => ⟨h.paid.missing, .of_fits h.fits⟩) fun _ _ h => h

/-! ## The load itself -/

/-- What the abstract account says about the frames that were lost. -/
theorem Drawn.lost_eq_nil_iff {s : MemoryState} {b : BuilderState} {recorded lost : List Nat}
    {o : Origin} {root : Nat} {A : AddressMap}
    (hdrawn : Drawn { state := s, ownedPages := some OwnedPages.empty } b recorded lost)
    (hstop : Stopped o root b A) {n : Nat} (hmiss : Missing s.allocator.frames.length n A) :
    lost = [] ↔ n = 0 := by
  obtain ⟨held, tab, R⟩ := hstop
  obtain ⟨l, hl, hsum⟩ := hmiss
  have howned : l = recorded := by
    have h := hdrawn.owned
    rw [R.owned, hl] at h
    simpa using h
  have hlen := hdrawn.perm.length_eq
  rw [List.length_append, List.length_append, R.frames] at hlen
  change s.allocator.frames.length = _ at hlen
  rw [← List.length_eq_zero_iff]
  subst howned
  exact ⟨fun _ => by omega, fun _ => by omega⟩

/-- The account after the root is taken. -/
theorem paid_root {s : MemoryState} (hvalid : s.allocator.Valid) {root : Nat}
    {a : PhysicalAllocator} (halloc : s.allocator.allocatePage = some (root, a)) :
    Paid s.allocator.frames.length 0 0 ∅ (.blank a.frames (some [root])) := by
  refine ⟨rfl, [root], rfl, rfl, ?_, ?_⟩
  · show 1 ≤ maxOwnedPages
    decide
  · rw [PhysicalAllocator.frames_allocatePage hvalid halloc]
    show 1 + a.frames.length + 0 = a.frames.length + 1
    omega

/-- A build that succeeds had room for everything. -/
theorem buildUserSpace_noLeak {s : MemoryState} (hs : ContextOk s) {elf : ElfImage}
    {bytes : List UInt8} {startup : ProgramStartup} {p : Nat × Nat} {b : BuilderState}
    (hrun : buildUserSpace elf bytes startup { state := s, ownedPages := some OwnedPages.empty } =
      .ok p b) : s.NoLeak (requestedPages bytes.length elf.programHeaders) := by
  cases halloc : s.allocator.allocatePage with
  | none =>
    rw [buildUserSpace_exhausted halloc] at hrun
    cases hrun
  | some r =>
    obtain ⟨root, a⟩ := r
    obtain ⟨owned, howned, heq⟩ := buildUserSpace_eq halloc elf bytes startup
    rw [heq] at hrun
    obtain ⟨pages, b₁, himage, -⟩ := EStateM.bind_eq_ok.mp hrun
    obtain ⟨placed, A, hA, -⟩ :=
      (buildImage_lockstep hs halloc howned elf bytes).of_ok_left himage
    exact ((loadImage_settled s bytes.length elf.programHeaders).ok (paid_root hs.valid halloc)
      hA).2

/-- A failed build loses frames exactly when `NoLeak` does not hold. -/
theorem buildUserSpace_lost {s : MemoryState} (hs : ContextOk s) {elf : ElfImage}
    {bytes : List UInt8} {startup : ProgramStartup} {e : MemoryError} {b : BuilderState}
    (hrun : buildUserSpace elf bytes startup { state := s, ownedPages := some OwnedPages.empty } =
      .error e b) {recorded lost : List Nat}
    (hdrawn : Drawn { state := s, ownedPages := some OwnedPages.empty } b recorded lost) :
    lost = [] ↔ s.NoLeak (requestedPages bytes.length elf.programHeaders) := by
  cases halloc : s.allocator.allocatePage with
  | none =>
    rw [buildUserSpace_exhausted halloc] at hrun
    cases hrun
    have hnil := (PhysicalAllocator.frames_eq_nil hs.valid).mpr halloc
    have hperm := hdrawn.perm
    rw [hnil] at hperm
    have hlost : lost = [] := by
      have := hperm.length_eq
      simp only [List.length_append, List.length_nil] at this
      exact List.length_eq_zero_iff.mp (by omega)
    have hfit : ¬ s.Fits [] := by
      rintro ⟨-, -, h⟩
      rw [hnil, MemoryState.framesNeeded, List.length_nil] at h
      omega
    simp [hlost, MemoryState.noLeak_iff_of_not_fits hfit, hnil]
  | some r =>
    obtain ⟨root, a⟩ := r
    obtain ⟨owned, howned, heq⟩ := buildUserSpace_eq halloc elf bytes startup
    have hlock := buildImage_lockstep hs halloc howned elf bytes
    have hstart := paid_root hs.valid halloc
    have hsettled := loadImage_settled s bytes.length elf.programHeaders
    rw [heq] at hrun
    rcases EStateM.bind_eq_error.mp hrun with hrun | ⟨pages, b₁, himage, hrun⟩
    · obtain ⟨A, hA, hstop⟩ := hlock.of_error_left hrun
      obtain ⟨n, hmiss, hn⟩ := hsettled.error hstart hA
      exact (hdrawn.lost_eq_nil_iff hstop hmiss).trans hn
    · -- the image was complete; writing the arguments takes no frame
      obtain ⟨placed, A, hA, L⟩ := hlock.of_ok_left himage
      obtain ⟨hmiss, hno⟩ := hsettled.ok hstart hA
      have hstop : Stopped ⟨s.phys, ∅, s.free⟩ root b A := by
        rcases EStateM.bind_eq_error.mp hrun with hrun | ⟨_, _, _, hrun⟩
        · exact ((writeStartupArguments_keeps startup).error L hrun).stopped
        · cases hrun
      exact (hdrawn.lost_eq_nil_iff hstop hmiss).trans ⟨fun _ => hno, fun _ => rfl⟩

/-- Taking nothing away from the free set. -/
theorem Drawn.free_eq_iff {s : MemoryState} {b : BuilderState} {recorded lost : List Nat}
    (hvalid : s.allocator.Valid)
    (hdrawn : Drawn { state := s, ownedPages := some OwnedPages.empty } b recorded lost) :
    s.free \ frameSet lost = s.free ↔ lost = [] := by
  have hsub : frameSet lost ⊆ s.free := by
    rw [MemoryState.free, free_eq_frameSet hvalid, frameSet_perm hdrawn.perm, frameSet_append,
      frameSet_append]
    exact Set.subset_union_of_subset_right Set.subset_union_left _
  rw [← frameSet_eq_empty]
  constructor
  · intro h
    refine Set.eq_empty_iff_forall_notMem.mpr fun x hx => ?_
    have hin : x ∈ s.free \ frameSet lost := by
      rw [h]
      exact hsub hx
    exact hin.2 hx
  · intro h
    rw [h, Set.sdiff_empty]

/-- **A failed load is atomic exactly when `NoLeak` holds.** Over every image,
startup block and allocator state, for a load that returns: if it returns an
error the free set is what it was before, if and only if the headers are not
reached or the load stops harmlessly. -/
theorem loadUserProgram_atomic_iff {s s' : MemoryState} (hs : ContextOk s) {bytes : List UInt8}
    {startup : ProgramStartup} {r : Except MemoryError LoadedUserProgram}
    (h : loadUserProgram bytes startup s = some (r, s')) :
    (∀ e, r = .error e → s'.free = s.free) ↔
      ∀ elf, ElfImage.parse bytes = .ok elf → containsUserAddress elf.entryPoint = true →
        s.NoLeak (requestedPages bytes.length elf.programHeaders) := by
  unfold loadUserProgram at h
  cases hparse : ElfImage.parse bytes with
  | error e =>
    rw [hparse] at h
    cases h
    simp
  | ok elf =>
    rw [hparse] at h
    simp only [Except.ok.injEq, forall_eq'] at h ⊢
    cases hentry : containsUserAddress elf.entryPoint with
    | false =>
      rw [hentry, Bool.not_false, if_pos rfl] at h
      cases h
      simp
    | true =>
      rw [hentry, Bool.not_true, if_neg Bool.false_ne_true] at h
      cases hrun : buildUserSpace elf bytes startup
          { state := s, ownedPages := some OwnedPages.empty } with
      | ok p b =>
        rw [hrun] at h
        cases h
        simp [buildUserSpace_noLeak hs hrun]
      | error e b =>
        rw [hrun] at h
        obtain ⟨s₁, hrel, h⟩ := Option.map_eq_some_iff.mp h
        cases h
        obtain ⟨recorded, lost, hdrawn, -, hfree, -⟩ := loadUserProgram_error hs.valid hrun hrel
        rw [hfree]
        simp only [Except.error.injEq, forall_eq', hdrawn.free_eq_iff hs.valid,
          buildUserSpace_lost hs hrun hdrawn, true_imp_iff]

/-! ### A machine with seven pages -/

/-- Seven pages of usable memory; three of them hold the kernel's own tables. -/
def sevenPages : BootInfo where
  memoryRegions := [⟨physWindowStart, 7, .usable⟩]
  framebufferBase := 0
  framebufferSize := 0

theorem sevenPages_regular : sevenPages.Regular := by
  refine ⟨?_, by decide, .inr (.inl (by decide))⟩
  intro r hr _
  obtain rfl := List.mem_singleton.mp hr
  exact ⟨by decide, by decide⟩

/-- The kernel right after `init` on that machine. -/
def sevenPagesState : MemoryState := (KernelRun.bootRun sevenPages).state

theorem sevenPagesState_contextOk : ContextOk sevenPagesState :=
  KernelRun.Reachable.contextOk sevenPages_regular
    (KernelRun.bootRun_reachable _ (by decide +kernel) (by decide +kernel))

/-- A program of one page. -/
def onePageImage : List UInt8 := imageOf userImageBase [⟨ptLoad, pfR, 0, userImageBase, 0, 0, 1⟩]

/-- The error and the free ranges a load leaves. -/
def loadOutcome (bytes : List UInt8) (startup : ProgramStartup) (s : MemoryState) :
    Option (Option MemoryError × List PhysicalRegion) :=
  (loadUserProgram bytes startup s).map fun r =>
    (match r.1 with
      | .error e => some e
      | .ok _ => none, r.2.allocator.live)

theorem loadOutcome_error {bytes : List UInt8} {startup : ProgramStartup} {s : MemoryState}
    {e : MemoryError} {live : List PhysicalRegion}
    (h : loadOutcome bytes startup s = some (some e, live)) :
    ∃ s', loadUserProgram bytes startup s = some (.error e, s') ∧ s'.allocator.live = live := by
  obtain ⟨⟨r, s'⟩, hload, hr⟩ := Option.map_eq_some_iff.mp h
  cases r with
  | ok p => simp at hr
  | error e' =>
    simp only [Prod.mk.injEq, Option.some.injEq] at hr
    obtain ⟨rfl, rfl⟩ := hr
    exact ⟨s', hload, rfl⟩

theorem sevenPages_load :
    loadOutcome onePageImage ⟨"a", []⟩ sevenPagesState =
      some (some .allocatorExhausted, [⟨0x1003000, 0x1006000⟩]) := by
  decide +kernel

/-- **A failed load that keeps a frame.** Root and context take three of the four
free frames and the page takes the last; its page table finds none, and the
page's frame is never given back. -/
theorem failed_load_keeps_frame :
    ∃ s', loadUserProgram onePageImage ⟨"a", []⟩ sevenPagesState =
        some (.error .allocatorExhausted, s') ∧ s'.free ≠ sevenPagesState.free := by
  obtain ⟨s', hload, hlive⟩ := loadOutcome_error sevenPages_load
  refine ⟨s', hload, fun heq => ?_⟩
  have hlive₀ : sevenPagesState.allocator.live = [⟨0x1003000, 0x1007000⟩] := by decide +kernel
  have hin : 0x1006000 ∈ sevenPagesState.free :=
    ⟨⟨0x1003000, 0x1007000⟩, by rw [hlive₀]; exact List.mem_cons_self, by decide, by decide⟩
  rw [← heq] at hin
  obtain ⟨r, hr, -, hhi⟩ := hin
  rw [hlive, List.mem_singleton] at hr
  subst hr
  exact absurd hhi (by decide)

/-- The condition at that load. -/
theorem loadUserProgram_atomic_iff_at_sevenPages :
    ∃ s', loadUserProgram onePageImage ⟨"a", []⟩ sevenPagesState =
        some (.error .allocatorExhausted, s') ∧
      (s'.free = sevenPagesState.free ↔
        ∀ elf, ElfImage.parse onePageImage = .ok elf →
          containsUserAddress elf.entryPoint = true →
          sevenPagesState.NoLeak (requestedPages onePageImage.length elf.programHeaders)) := by
  obtain ⟨s', hload, -⟩ := loadOutcome_error sevenPages_load
  refine ⟨s', hload, ?_⟩
  rw [← loadUserProgram_atomic_iff sevenPagesState_contextOk hload]
  simp

end Lazers.Memory
