import Lazers.Memory.AddressMap
import Lazers.Memory.Paging

/-!
# The page-table builder follows the abstract address space

`Rep` ties a builder state to an `AddressMap`: memory holds a tree of page
tables whose two leaf maps are the abstract ones, the allocator's frames are the
abstract frames, and the page list is the abstract list. Every operation of the
builder then runs in lockstep with the abstract edit of the same name, and keeps
`Rep` on success and on failure.

The one proviso is the one the code does not check: a page may only be mapped
where no huge entry covers it, because `ensure_table` would follow that entry as
if it were a table.

`Rep` also records the frame condition: since an `Origin`, memory was only
stored to in tables that existed then and in frames taken since. `held` is a set
of addresses that belong to somebody else and no table may use.
-/

namespace Lazers.Memory

open PageTable

/-! ## Bits and indices -/

theorem present_iff (e : Nat) : present e = true ↔ e &&& pagePresent ≠ 0 := by
  have h : e &&& pagePresent = e % 2 := Nat.and_one_is_mod e
  rw [h, present, Nat.testBit_zero, decide_eq_true_eq]
  omega

theorem shift_and_eq_index (v level : Nat) :
    (v >>> (3 + 9 * level)) &&& 0x1ff = index level v := by
  rw [Nat.shiftRight_eq_div_pow, show (0x1ff : Nat) = 2 ^ 9 - 1 from rfl,
    Nat.and_two_pow_sub_one_eq_mod]
  rfl

theorem pml4Index_eq (v : Nat) : pml4Index v = index 4 v := shift_and_eq_index v 4
theorem pdptIndex_eq (v : Nat) : pdptIndex v = index 3 v := shift_and_eq_index v 3
theorem pdIndex_eq (v : Nat) : pdIndex v = index 2 v := shift_and_eq_index v 2
theorem ptIndex_eq (v : Nat) : ptIndex v = index 1 v := shift_and_eq_index v 1

/-- `flags & PAGE_USER` is the user bit or nothing. -/
theorem and_pageUser (flags : Nat) :
    flags &&& pageUser = if flags.testBit 2 then pageUser else 0 := by
  apply Nat.eq_of_testBit_eq
  intro i
  have hbit : pageUser.testBit i = decide (2 = i) := Nat.testBit_two_pow (n := 2)
  rw [Nat.testBit_and, hbit]
  by_cases hi : 2 = i
  · subst hi
    cases flags.testBit 2 <;> simp [hbit]
  · split_ifs
    · simp [hbit, hi]
    · simp [hi]

/-! ## Runs of `ensure_table` -/

namespace Builder

theorem ensureTable_present {b : BuilderState} {p i extra : Nat}
    (h : present (entry b.state.phys p i) = true) :
    ensureTable p i extra b = .ok (frame (entry b.state.phys p i))
      (if entry b.state.phys p i &&& extra ≠ extra then
        { b with state.phys := b.state.phys.writeU64 (p + 8 * i) (entry b.state.phys p i ||| extra) }
      else b) := by
  show (if entry b.state.phys p i &&& pagePresent ≠ 0 then _ else _ : Builder Nat) b = _
  rw [if_pos ((present_iff _).mp h)]
  show (if entry b.state.phys p i &&& extra ≠ extra then _ else _ : Builder Nat) b = _
  by_cases hlabel : entry b.state.phys p i &&& extra ≠ extra
  · rw [if_pos hlabel, if_pos hlabel]
    rfl
  · rw [if_neg hlabel, if_neg hlabel]
    rfl

theorem ensureTable_absent {b : BuilderState} {p i extra : Nat}
    (h : present (entry b.state.phys p i) = false) :
    ensureTable p i extra b =
      (withStateMut MemoryState.allocatePage >>= fun child => do
        pushOwned child
        writeEntry p i (child ||| pageTableFlags ||| extra)
        return child : Builder Nat) b := by
  show (if entry b.state.phys p i &&& pagePresent ≠ 0 then _ else _ : Builder Nat) b = _
  rw [if_neg fun hne => by simp [(present_iff _).mpr hne] at h]

end Builder

/-! ## The relation -/

/-- What stores are measured against: memory, the addresses of tables and the
free set at some earlier moment. -/
structure Origin where
  memory : ByteMemory
  tables : Set Nat
  free : Set Nat

/-- The addresses that may have been stored to since. -/
def Origin.written (o : Origin) (s : MemoryState) : Set Nat := o.tables ∪ (o.free \ s.free)

/-- A builder state represents an abstract address space. -/
structure Rep (o : Origin) (root : Nat) (held : Set Nat) (b : BuilderState) (A : AddressMap)
    (tab : Shape) : Prop where
  valid : b.state.allocator.Valid
  frames : b.state.allocator.frames = A.frames
  low : ∀ f ∈ A.frames, f < 2 ^ 52
  owned : b.ownedPages.map OwnedPages.list = A.owned
  tree : Tree b.state.phys tab root
  tables : ∀ ℓ k, (∃ f, tab ℓ k = some f) ↔ (ℓ = 4 ∧ k = 0) ∨ (ℓ, k) ∈ A.tables
  links_sub : A.links ⊆ A.tables
  links : ∀ ℓ k, (ℓ, k) ∈ A.links → linkUser b.state.phys tab ℓ k = true
  page : ∀ n, leaf4k b.state.phys tab n = A.page n
  slot : ∀ n, leaf2m b.state.phys tab n = A.slot n
  apart : ∀ {ℓ k f}, tab ℓ k = some f → Disjoint (block f 1) (b.state.free ∪ held)
  reserved : Disjoint held b.state.free
  inside : ∀ {ℓ k f}, tab ℓ k = some f → block f 1 ⊆ o.written b.state
  sub : b.state.free ⊆ o.free
  writes : ByteMemory.WritesOnly (o.written b.state) o.memory b.state.phys

/-- Some tables represent the abstract address space. -/
def Related (o : Origin) (root : Nat) (held : Set Nat) (b : BuilderState) (A : AddressMap) : Prop :=
  ∃ tab, Rep o root held b A tab

namespace Rep

variable {o : Origin} {root : Nat} {held : Set Nat} {b : BuilderState} {A : AddressMap}
  {tab : Shape}

theorem related (R : Rep o root held b A tab) : Related o root held b A := ⟨tab, R⟩

theorem table_level (R : Rep o root held b A tab) {ℓ k : Nat} (h : (ℓ, k) ∈ A.tables) :
    1 ≤ ℓ := by
  obtain ⟨f, hf⟩ := (R.tables ℓ k).mpr (.inr h)
  exact (R.tree.level hf).1

theorem tab_eq_none (R : Rep o root held b A tab) {ℓ k : Nat} (hℓ : ℓ ≠ 4)
    (h : (ℓ, k) ∉ A.tables) : tab ℓ k = none := by
  by_contra hne
  rcases (R.tables ℓ k).mp (Option.ne_none_iff_exists'.mp hne) with ⟨h4, -⟩ | hmem
  · exact hℓ h4
  · exact h hmem

theorem mono_held (R : Rep o root held b A tab) {held' : Set Nat} (h : held' ⊆ held) :
    Rep o root held' b A tab :=
  { R with
    apart := fun hf => (R.apart hf).mono_right (Set.union_subset_union_right _ h)
    reserved := R.reserved.mono_left h }

/-- Forget what was stored so far. -/
theorem rebase (R : Rep o root held b A tab) :
    Rep ⟨b.state.phys, o.written b.state, b.state.free⟩ root held b A tab :=
  { R with
    inside := fun hf => (R.inside hf).trans Set.subset_union_left
    sub := subset_rfl
    writes := .refl _ _ }

/-- Only memory, the allocator and the page list matter. -/
theorem congr_state (R : Rep o root held b A tab) (b' : BuilderState)
    (hphys : b'.state.phys = b.state.phys) (halloc : b'.state.allocator = b.state.allocator)
    (howned : b'.ownedPages = b.ownedPages) : Rep o root held b' A tab := by
  have hwritten : o.written b'.state = o.written b.state := by
    simp only [Origin.written, MemoryState.free, halloc]
  exact
    { valid := halloc ▸ R.valid
      frames := halloc ▸ R.frames
      low := R.low
      owned := howned ▸ R.owned
      tree := hphys ▸ R.tree
      tables := R.tables
      links_sub := R.links_sub
      links := hphys ▸ R.links
      page := hphys ▸ R.page
      slot := hphys ▸ R.slot
      apart := fun hf => by simpa only [MemoryState.free, halloc] using R.apart hf
      reserved := by simpa only [MemoryState.free, halloc] using R.reserved
      inside := by
        rw [hwritten]
        exact R.inside
      sub := by simpa only [MemoryState.free, halloc] using R.sub
      writes := by
        rw [hwritten, hphys]
        exact R.writes }

/-- A store into tables that keeps the shape. -/
theorem store (R : Rep o root held b A tab) {m : ByteMemory} {A' : AddressMap}
    (hw : ByteMemory.WritesOnly (o.written b.state) b.state.phys m) (htree : Tree m tab root)
    (hframes : A'.frames = A.frames) (howned : A'.owned = A.owned)
    (htables : A'.tables = A.tables) (hsub : A'.links ⊆ A'.tables)
    (hlinks : ∀ ℓ k, (ℓ, k) ∈ A'.links → linkUser m tab ℓ k = true)
    (hpage : ∀ n, leaf4k m tab n = A'.page n) (hslot : ∀ n, leaf2m m tab n = A'.slot n) :
    Rep o root held { b with state.phys := m } A' tab where
  valid := R.valid
  frames := R.frames.trans hframes.symm
  low := by
    rw [hframes]
    exact R.low
  owned := R.owned.trans howned.symm
  tree := htree
  tables := by
    rw [htables]
    exact R.tables
  links_sub := hsub
  links := hlinks
  page := hpage
  slot := hslot
  apart := R.apart
  reserved := R.reserved
  inside := R.inside
  sub := R.sub
  writes := R.writes.trans hw

/-- A store into held frames disturbs no table. -/
theorem store_held (R : Rep o root held b A tab) {m : ByteMemory}
    (hw : ByteMemory.WritesOnly held b.state.phys m) (hsub : held ⊆ o.written b.state) :
    Rep o root held { b with state.phys := m } A tab := by
  have hagree : Agree b.state.phys m tab := by
    refine agree_of_writesOnly hw fun {ℓ k f} hf => ?_
    refine (Set.disjoint_union_right.mp (R.apart hf)).2.mono_left fun x hx => ?_
    rw [Set.mem_Ico] at hx
    rw [mem_block]
    omega
  exact R.store (hw.mono hsub) (R.tree.agree hagree) rfl rfl rfl R.links_sub
    (fun ℓ k h => (hagree.linkUser_eq ℓ k).trans (R.links ℓ k h))
    (fun n => (hagree.leaf4k_eq n).trans (R.page n)) fun n => (hagree.leaf2m_eq n).trans (R.slot n)

/-- The link of a missing table is not present, unless a huge entry stands there. -/
theorem entry_absent (R : Rep o root held b A tab) {ℓ k p : Nat} (hℓ : 1 ≤ ℓ)
    (hp : tab (ℓ + 1) (k / 512) = some p) (hnone : tab ℓ k = none)
    (hclear : ℓ = 1 → A.slot k = none) : present (entry b.state.phys p (k % 512)) = false := by
  by_contra hpres
  have hpres' : present (entry b.state.phys p (k % 512)) = true := by simpa using hpres
  obtain ⟨rfl, hhuge⟩ := R.tree.absent hℓ hp hnone hpres'
  have hslot := R.slot k
  simp [leaf2m, hp, hpres', hhuge, hclear rfl] at hslot

/-- One entry of a table lies inside it. -/
theorem writesOnly_entry (R : Rep o root held b A tab) {ℓ k p i e : Nat}
    (hp : tab ℓ k = some p) (hi : i < 512) :
    ByteMemory.WritesOnly (o.written b.state) b.state.phys
      (b.state.phys.writeU64 (p + 8 * i) e) := by
  refine ByteMemory.writesOnly_writeU64 _ fun x hx => R.inside hp ?_
  rw [Set.mem_Ico] at hx
  rw [mem_block]
  omega

end Rep

/-! ## Taking and recording frames -/

theorem mem_block_self (c : Nat) : c ∈ block c 1 := by
  rw [mem_block]
  omega

/-- A frame that was just handed out and has no use yet. -/
structure Fresh (o : Origin) (held : Set Nat) (tab : Shape) (s : MemoryState) (c : Nat) :
    Prop where
  aligned : c % 4096 = 0
  low : c < 2 ^ 52
  unused : ∀ ℓ k, tab ℓ k ≠ some c
  apart : Disjoint (block c 1) held
  taken : block c 1 ⊆ o.free \ s.free
  zero : ∀ {i}, i < 512 → entry s.phys c i = 0

section

variable {o : Origin} {root : Nat} {held : Set Nat} {b : BuilderState} {A : AddressMap}
  {tab : Shape}

/-- `allocate_page` hands out the first free frame, zeroed. -/
theorem allocatePage_lockstep (R : Rep o root held b A tab) :
    Lockstep
      (fun c c' b A' => c = c' ∧ Rep o root (held ∪ block c 1) b A' tab ∧
        Fresh o held tab b.state c ∧ A' = { A with frames := A'.frames })
      (Related o root held)
      (Builder.withStateMut MemoryState.allocatePage b) (AddressMap.take A) := by
  cases halloc : b.state.allocator.allocatePage with
  | none =>
    have hnil : A.frames = [] := R.frames ▸ (PhysicalAllocator.frames_eq_nil R.valid).mpr halloc
    have hx : Builder.withStateMut MemoryState.allocatePage b = .error .allocatorExhausted b := by
      simp [Builder.withStateMut, MemoryState.allocatePage, halloc]
    have hy : AddressMap.take A = .error .allocatorExhausted A := by
      simp [AddressMap.take, hnil]
    exact .of_error hx hy R.related
  | some r =>
    obtain ⟨c, a⟩ := r
    obtain ⟨hvalid, hfree, hsub, hal, hpos, hlim⟩ := PhysicalAllocator.allocatePage_spec R.valid halloc
    have hframes : A.frames = c :: a.frames :=
      R.frames ▸ PhysicalAllocator.frames_allocatePage R.valid halloc
    have hx : Builder.withStateMut MemoryState.allocatePage b =
        .ok c { b with state.allocator := a, state.phys := b.state.phys.zero c pageSize } := by
      simp [Builder.withStateMut, MemoryState.allocatePage, halloc]
    have hy : AddressMap.take A = .ok c { A with frames := a.frames } := by
      simp [AddressMap.take, hframes]
    have hunused : ∀ ℓ k, tab ℓ k ≠ some c := fun ℓ k hf =>
      Set.disjoint_left.mp (R.apart hf) (mem_block_self c) (.inl (hsub (mem_block_self c)))
    have hz : Zeroed b.state.phys (b.state.phys.zero c pageSize) c := zeroed_zero _ hal
    have htaken : block c 1 ⊆ o.free \ a.free := fun x hx =>
      ⟨R.sub (hsub hx), fun h => by rw [hfree] at h; exact h.2 hx⟩
    refine .of_ok hx hy ⟨rfl, ?_, ?_, rfl⟩
    · have hagree : Agree b.state.phys (b.state.phys.zero c pageSize) tab :=
        ⟨fun {ℓ k f i} hf hi => hz.other (R.tree.aligned hf).1 hi fun heq =>
          hunused ℓ k (heq ▸ hf)⟩
      have hless : a.free ⊆ b.state.free := hfree ▸ Set.sdiff_subset
      have hmono : o.written b.state ⊆ o.tables ∪ (o.free \ a.free) :=
        Set.union_subset_union_right _ (Set.sdiff_subset_sdiff_right hless)
      refine
        { valid := hvalid
          frames := rfl
          low := fun f hf => R.low f (by rw [hframes]; exact List.mem_cons_of_mem _ hf)
          owned := R.owned
          tree := R.tree.agree hagree
          tables := R.tables
          links_sub := R.links_sub
          links := fun ℓ k h => (hagree.linkUser_eq ℓ k).trans (R.links ℓ k h)
          page := fun n => (hagree.leaf4k_eq n).trans (R.page n)
          slot := fun n => (hagree.leaf2m_eq n).trans (R.slot n)
          apart := fun {ℓ k f} hf => ?_
          reserved := ?_
          inside := fun hf => (R.inside hf).trans hmono
          sub := hless.trans R.sub
          writes := (R.writes.mono hmono).trans
            (ByteMemory.writesOnly_zero _ fun x hx => .inr (htaken hx)) }
      · -- the new frame was free, so no table uses it
        have hold := Set.disjoint_union_right.mp (R.apart hf)
        rw [Set.disjoint_union_right, Set.disjoint_union_right]
        exact ⟨hold.1.mono_right hless, hold.2, hold.1.mono_right hsub⟩
      · rw [Set.disjoint_union_left]
        refine ⟨R.reserved.mono_right hless, ?_⟩
        show Disjoint (block c 1) a.free
        rw [hfree]
        exact Set.disjoint_sdiff_right
    · exact ⟨hal, R.low c (by rw [hframes]; exact List.mem_cons_self), hunused,
        (R.reserved.mono_right hsub).symm, htaken, hz.same⟩

/-- `OwnedPages::push` through the builder's pointer. -/
theorem pushOwned_lockstep (R : Rep o root held b A tab) (c : Nat) :
    Lockstep
      (fun _ _ b' A' => Rep o root held b' A' tab ∧ b'.state = b.state ∧
        A' = { A with owned := A'.owned })
      (Related o root held) (Builder.pushOwned c b) (AddressMap.record c A) := by
  cases howned : b.ownedPages with
  | none =>
    have hnone : A.owned = none := by rw [← R.owned, howned]; rfl
    have hx : Builder.pushOwned c b = .ok () b := by simp [Builder.pushOwned, howned]
    have hy : AddressMap.record c A = .ok () A := by simp [AddressMap.record, hnone]
    exact .of_ok hx hy ⟨R, rfl, rfl⟩
  | some owned =>
    have hsome : A.owned = some owned.list := by rw [← R.owned, howned]; rfl
    rcases owned.push_cases c with ⟨hpush, hfull⟩ | ⟨owned', hpush, hroom, hlist⟩
    · have hx : Builder.pushOwned c b = .error .ownedPageCapacityExceeded b := by
        simp [Builder.pushOwned, howned, hpush]
      have hy : AddressMap.record c A = .error .ownedPageCapacityExceeded A := by
        simp [AddressMap.record, hsome, hfull]
      exact .of_error hx hy R.related
    · have hx : Builder.pushOwned c b = .ok () { b with ownedPages := some owned' } := by
        simp [Builder.pushOwned, howned, hpush]
      have hy : AddressMap.record c A = .ok () { A with owned := some (owned.list ++ [c]) } := by
        simp [AddressMap.record, hsome, Nat.not_le.mpr hroom]
      exact .of_ok hx hy ⟨{ R with owned := by simp [hlist] }, rfl, rfl⟩

/-- An address space without tables. -/
def AddressMap.blank (frames : List Nat) (owned : Option (List Nat)) : AddressMap where
  frames := frames
  owned := owned
  tables := ∅
  links := ∅
  page := fun _ => none
  slot := fun _ => none

/-- A freshly allocated root is an address space without tables. -/
theorem rep_root {s : MemoryState} {c : Nat} {a : PhysicalAllocator} (hvalid : s.allocator.Valid)
    (hlow : ∀ f ∈ s.allocator.frames, f < 2 ^ 52)
    (halloc : s.allocator.allocatePage = some (c, a)) (owned : Option OwnedPages) :
    Rep ⟨s.phys, ∅, s.free⟩ c ∅
      { state := { s with allocator := a, phys := s.phys.zero c pageSize }, ownedPages := owned }
      (.blank a.frames (owned.map OwnedPages.list)) (Shape.single c) := by
  obtain ⟨hvalid', hfree, hsub, hal, -, -⟩ := PhysicalAllocator.allocatePage_spec hvalid halloc
  have hframes := PhysicalAllocator.frames_allocatePage hvalid halloc
  have hz : Zeroed s.phys (s.phys.zero c pageSize) c := zeroed_zero s.phys hal
  have hclow : c < 2 ^ 52 := hlow c (by rw [hframes]; exact List.mem_cons_self)
  have hnotfree : Disjoint (block c 1) a.free := by
    rw [hfree]
    exact Set.disjoint_sdiff_right
  have hwritten : block c 1 ⊆ ∅ ∪ (s.free \ a.free) := fun x hx =>
    .inr ⟨hsub hx, Set.disjoint_left.mp hnotfree hx⟩
  exact
    { valid := hvalid'
      frames := rfl
      low := fun f hf => hlow f (by rw [hframes]; exact List.mem_cons_of_mem _ hf)
      owned := rfl
      tree := tree_single ⟨hal, hclow⟩ fun i hi => hz.same hi
      tables := fun ℓ k => by simp [Shape.single, AddressMap.blank]
      links_sub := Finset.Subset.refl _
      links := fun ℓ k h => by simp [AddressMap.blank] at h
      page := fun n => leaf4k_single c n
      slot := fun n => leaf2m_single c n
      apart := fun hf => by
        obtain ⟨-, rfl⟩ := Shape.single_eq_some hf
        simpa using hnotfree
      reserved := Set.empty_disjoint _
      inside := fun hf => by
        obtain ⟨-, rfl⟩ := Shape.single_eq_some hf
        exact hwritten
      sub := by
        show a.free ⊆ s.allocator.free
        rw [hfree]
        exact Set.sdiff_subset
      writes := ByteMemory.writesOnly_zero _ hwritten }

/-! ## Ensuring tables -/

/-- The flags `ensure_table` gets for a user or a kernel mapping. -/
def extraFlags (user : Bool) : Nat := if user then pageUser else 0

theorem openLink_links {key key' : Nat × Nat} {user : Bool} :
    key' ∈ (A.openLink key user).links ↔ key' ∈ A.links ∨ (user = true ∧ key' = key) := by
  unfold AddressMap.openLink
  split_ifs with h
  · simp [h, or_comm]
  · simp [h]

theorem openLink_eq (A : AddressMap) (key : Nat × Nat) (user : Bool) :
    A.openLink key user = { A with links := (A.openLink key user).links } := by
  unfold AddressMap.openLink
  split_ifs <;> rfl

/-- Linking a fresh frame under its parent. -/
theorem rep_link {ℓ k p c : Nat} (user : Bool) (R : Rep o root (held ∪ block c 1) b A tab)
    (F : Fresh o held tab b.state c) (hℓ : 1 ≤ ℓ) (hp : tab (ℓ + 1) (k / 512) = some p)
    (hnone : tab ℓ k = none) (hnp : present (entry b.state.phys p (k % 512)) = false) :
    Rep o root held
      { b with
        state.phys := b.state.phys.writeU64 (p + 8 * (k % 512))
          (c ||| pageTableFlags ||| extraFlags user) }
      (({ A with tables := insert (ℓ, k) A.tables } : AddressMap).openLink (ℓ, k) user)
      (tab.insert ℓ k c) := by
  have hmod : k % 512 < 512 := Nat.mod_lt _ (by decide)
  have hflags : pageTableFlags ||| extraFlags user < 4096 := by cases user <;> decide
  have he : c ||| pageTableFlags ||| extraFlags user = c ||| (pageTableFlags ||| extraFlags user) :=
    Nat.or_assoc ..
  have hlt : c ||| pageTableFlags ||| extraFlags user < 2 ^ 64 := by
    rw [he]
    exact Nat.or_lt_two_pow (F.low.trans (by decide)) (hflags.trans (by decide))
  have htable : IsTable (c ||| pageTableFlags ||| extraFlags user) c := by
    rw [he]
    refine isTable_or_flags F.aligned F.low hflags ?_ ?_ ?_ <;> cases user <;> decide
  have huser : user = true → PageTable.user (c ||| pageTableFlags ||| extraFlags user) = true := by
    rintro rfl
    rw [he, PageTable.user, testBit_or_flags F.aligned (by decide)]
    decide
  have hz : Zeroed b.state.phys b.state.phys c := ⟨F.zero, fun _ _ _ => rfl⟩
  have hs := setEntry_writeU64 b.state.phys (R.tree.aligned hp).1 hmod hlt
  obtain ⟨htree, hpage, hslot, hlink⟩ :=
    R.tree.link hℓ hp hnone hnp F.unused ⟨F.aligned, F.low⟩ hz hs htable
  rw [openLink_eq]
  have hheld : held ⊆ held ∪ block c 1 := Set.subset_union_left
  refine
    { valid := R.valid
      frames := R.frames
      low := R.low
      owned := R.owned
      tree := htree
      tables := fun ℓ' k' => ?_
      links_sub := fun key hkey => ?_
      links := fun ℓ' k' hmem => ?_
      page := fun n => (hpage n).trans (R.page n)
      slot := fun n => (hslot n).trans (R.slot n)
      apart := fun {ℓ' k' f} hf => ?_
      reserved := R.reserved.mono_left hheld
      inside := fun {ℓ' k' f} hf => ?_
      sub := R.sub
      writes := R.writes.trans (R.writesOnly_entry hp hmod) }
  · simp only [Finset.mem_insert, Prod.mk.injEq]
    by_cases hat : ℓ' = ℓ ∧ k' = k
    · obtain ⟨rfl, rfl⟩ := hat
      simp [Shape.insert_self]
    · rw [Shape.insert_of_ne hat, R.tables]
      simp [hat]
  · rcases openLink_links.mp hkey with h | ⟨-, rfl⟩
    · exact Finset.mem_insert_of_mem (R.links_sub h)
    · exact Finset.mem_insert_self _ _
  · rw [hlink]
    split_ifs with hat
    · obtain ⟨rfl, rfl⟩ := hat
      rcases openLink_links.mp hmem with h | ⟨htrue, -⟩
      · obtain ⟨f, hf⟩ := (R.tables _ _).mpr (.inr (R.links_sub h))
        rw [hnone] at hf
        cases hf
      · exact huser htrue
    · rcases openLink_links.mp hmem with h | ⟨-, heq⟩
      · exact R.links _ _ h
      · exact absurd (Prod.mk.inj heq) hat
  · rcases Shape.insert_eq_some hf with ⟨rfl, rfl, rfl⟩ | ⟨-, hf⟩
    · rw [Set.disjoint_union_right]
      exact ⟨R.reserved.mono_left Set.subset_union_right, F.apart⟩
    · exact (R.apart hf).mono_right (Set.union_subset_union_right _ hheld)
  · rcases Shape.insert_eq_some hf with ⟨rfl, rfl, rfl⟩ | ⟨-, hf⟩
    · exact F.taken.trans Set.subset_union_right
    · exact R.inside hf

/-- What an existing table's entry says about its user bit. -/
theorem user_of_and_eq {e : Nat} (h : e &&& pageUser = pageUser) : PageTable.user e = true := by
  have hbit : (e &&& pageUser).testBit 2 = true := by
    rw [h]
    decide
  rw [Nat.testBit_and, Bool.and_eq_true] at hbit
  exact hbit.1

/-- An existing table is followed, and its link opened if need be. -/
theorem followTable_lockstep {ℓ k p : Nat} (user : Bool) (R : Rep o root held b A tab)
    (hmem : (ℓ, k) ∈ A.tables) (hp : tab (ℓ + 1) (k / 512) = some p) :
    Lockstep (fun c _ b' A' => Rep o root held b' A' tab ∧ tab ℓ k = some c ∧
        A' = { A with links := A'.links })
      (Related o root held) (Builder.ensureTable p (k % 512) (extraFlags user) b)
      (AddressMap.ensure (ℓ, k) user A) := by
  have hmod : k % 512 < 512 := Nat.mod_lt _ (by decide)
  obtain ⟨f, hf⟩ := (R.tables ℓ k).mpr (.inr hmem)
  have hlinked := R.tree.linked hf hp
  have hsub : (A.openLink (ℓ, k) user).links ⊆ A.tables := by
    intro key hkey
    rcases openLink_links.mp hkey with h | ⟨-, rfl⟩
    · exact R.links_sub h
    · exact hmem
  refine .of_ok (Builder.ensureTable_present hlinked.present) (AddressMap.ensure_of_mem hmem)
    ⟨?_, by rw [hlinked.frame]; exact hf, openLink_eq ..⟩
  split_ifs with hlabel
  · -- only a user mapping finds a bit missing
    obtain rfl : user = true := by
      by_contra huser
      simp [extraFlags, huser] at hlabel
    have hlt : entry b.state.phys p (k % 512) ||| extraFlags true < 2 ^ 64 :=
      Nat.or_lt_two_pow (ByteMemory.readU64_lt _ _) (by decide)
    obtain ⟨htree, hpage, hslot, hlink⟩ := R.tree.relabel hf hp
      (setEntry_writeU64 b.state.phys (R.tree.aligned hp).1 hmod hlt)
      (hlinked.or_flags (by decide) (by decide))
    rw [openLink_eq]
    refine R.store (R.writesOnly_entry hp hmod) htree rfl rfl rfl hsub ?_
      (fun n => (hpage n).trans (R.page n)) (fun n => (hslot n).trans (R.slot n))
    intro ℓ' k' hlinks
    rw [hlink]
    split_ifs with hat
    · rw [PageTable.user, Nat.testBit_or, Bool.or_eq_true]
      exact .inr (by decide)
    · rcases openLink_links.mp hlinks with h | ⟨-, heq⟩
      · exact R.links _ _ h
      · exact absurd (Prod.mk.inj heq) hat
  · rw [openLink_eq]
    refine R.store (.refl _ _) R.tree rfl rfl rfl hsub ?_ R.page R.slot
    intro ℓ' k' hlinks
    rcases openLink_links.mp hlinks with h | ⟨rfl, heq⟩
    · exact R.links _ _ h
    · obtain ⟨rfl, rfl⟩ := Prod.mk.inj heq
      simp only [linkUser, hp]
      exact user_of_and_eq (by simpa [extraFlags] using hlabel)

/-- **`ensure_table` makes one table exist**, provided no huge entry stands where
its link would go. -/
theorem ensureTable_lockstep {ℓ k p : Nat} (user : Bool) (R : Rep o root held b A tab)
    (hℓ : 1 ≤ ℓ) (hℓ' : ℓ ≤ 3) (hp : tab (ℓ + 1) (k / 512) = some p)
    (hclear : ℓ = 1 → A.slot k = none) :
    Lockstep
      (fun c _ b' A' => ∃ tab', Rep o root held b' A' tab' ∧ tab' ℓ k = some c ∧
        A'.slot = A.slot ∧ A'.page = A.page ∧ A'.tables = insert (ℓ, k) A.tables)
      (Related o root held)
      (Builder.ensureTable p (k % 512) (extraFlags user) b) (AddressMap.ensure (ℓ, k) user A) := by
  by_cases hmem : (ℓ, k) ∈ A.tables
  · refine (followTable_lockstep user R hmem hp).mono ?_ fun _ _ h => h
    rintro c _ b' A' ⟨R', hc, hA'⟩
    refine ⟨tab, R', hc, ?_, ?_, ?_⟩
    · rw [hA']
    · rw [hA']
    · rw [hA', Finset.insert_eq_of_mem hmem]
  · have hnone := R.tab_eq_none (by omega) hmem
    rw [Builder.ensureTable_absent (R.entry_absent hℓ hp hnone hclear),
      AddressMap.ensure_of_not_mem hmem]
    refine (allocatePage_lockstep R).bind ?_
    rintro c _ b₁ A₁ ⟨rfl, R₁, F₁, hA₁⟩
    refine ((pushOwned_lockstep R₁ c).mono (fun _ _ _ _ h => h) fun b' A' ⟨tab', R'⟩ =>
      (R'.mono_held Set.subset_union_left).related).bind ?_
    rintro - - b₂ A₂ ⟨R₂, hst, hA₂⟩
    have hslot : A₂.slot = A.slot := by rw [hA₂, hA₁]
    have hpage : A₂.page = A.page := by rw [hA₂, hA₁]
    have htables : A₂.tables = A.tables := by rw [hA₂, hA₁]
    have hlink := rep_link user R₂ (hst ▸ F₁) hℓ hp hnone
      (R₂.entry_absent hℓ hp hnone (hslot ▸ hclear))
    refine .ok ⟨_, hlink, Shape.insert_self .., ?_, ?_, ?_⟩
    · simp [hslot]
    · simp [hpage]
    · simp [htables]

theorem ensurePageDirectory_lockstep {v : Nat} (user : Bool) (R : Rep o root held b A tab)
    (hv : v < 2 ^ 48) :
    Lockstep
      (fun pd _ b' A' => ∃ tab', Rep o root held b' A' tab' ∧ tab' 2 (num 3 v) = some pd ∧
        A'.slot = A.slot ∧ A'.page = A.page ∧
        A'.tables = insert (2, num 3 v) (insert (3, num 4 v) A.tables))
      (Related o root held)
      (Builder.ensurePageDirectory root v (extraFlags user) b)
      (AddressMap.ensureDirectory (num 2 v) user A) := by
  unfold Builder.ensurePageDirectory AddressMap.ensureDirectory
  rw [pml4Index_eq, pdptIndex_eq, ← num_succ, ← num_succ]
  refine (ensureTable_lockstep user R (by decide) (by decide) (R.tree.root_at hv)
    fun h => absurd h (by decide)).bind ?_
  rintro pdpt - b₁ A₁ ⟨tab₁, R₁, hpdpt, hslot₁, hpage₁, htables₁⟩
  have hpdpt' : tab₁ 3 (num 3 v / 512) = some pdpt := by rw [← num_succ, hpdpt]
  refine (ensureTable_lockstep user R₁ (by decide) (by decide) hpdpt'
    fun h => absurd h (by decide)).mono ?_ fun _ _ h => h
  rintro pd - b₂ A₂ ⟨tab₂, R₂, hpd, hslot₂, hpage₂, htables₂⟩
  exact ⟨tab₂, R₂, hpd, hslot₂.trans hslot₁, hpage₂.trans hpage₁, by rw [htables₂, htables₁]⟩

theorem ensurePageTable_lockstep {v : Nat} (user : Bool) (R : Rep o root held b A tab)
    (hv : v < 2 ^ 48) (hclear : A.slot (num 2 v) = none) :
    Lockstep
      (fun pt _ b' A' => ∃ tab', Rep o root held b' A' tab' ∧ tab' 1 (num 2 v) = some pt ∧
        A'.slot = A.slot ∧ A'.page = A.page)
      (Related o root held)
      (Builder.ensurePageTable root v (extraFlags user) b)
      ((do AddressMap.ensureDirectory (num 2 v) user
           AddressMap.ensure (1, num 2 v) user : Edit Unit) A) := by
  unfold Builder.ensurePageTable
  rw [pdIndex_eq]
  refine (ensurePageDirectory_lockstep user R hv).bind ?_
  rintro pd - b₁ A₁ ⟨tab₁, R₁, hpd, hslot₁, hpage₁, -⟩
  have hpd' : tab₁ 2 (num 2 v / 512) = some pd := by rw [← num_succ, hpd]
  refine (ensureTable_lockstep user R₁ (by decide) (by decide) hpd'
    fun _ => by rw [hslot₁, hclear]).mono ?_ fun _ _ h => h
  rintro pt - b₂ A₂ ⟨tab₂, R₂, hpt, hslot₂, hpage₂, -⟩
  exact ⟨tab₂, R₂, hpt, hslot₂.trans hslot₁, hpage₂.trans hpage₁⟩

/-! ## Mapping -/

theorem num_one_page (n : Nat) : num 1 (n * 4096) = n := Nat.mul_div_cancel n (by decide)

theorem num_two_page (n : Nat) : num 2 (n * 4096) = n / 512 := by rw [num_succ, num_one_page]

theorem num_two_slot (n : Nat) : num 2 (n * 2097152) = n := Nat.mul_div_cancel n (by decide)

/-- **`map_4k` enters one page**, provided no huge entry covers it. -/
theorem map4k_lockstep {n phys flags : Nat} (R : Rep o root held b A tab)
    (hn : n < 2 ^ 36) (hclear : A.slot (n / 512) = none) (hpresent : flags.testBit 0 = true)
    (hphys : phys % 4096 = 0) (hlt : phys < 2 ^ 64) (hflags : flags < 4096) :
    Lockstep
      (fun _ _ b' A' => Related o root held b' A' ∧ A'.slot = A.slot ∧
        A'.page = Function.update A.page n (some (phys ||| flags)))
      (Related o root held)
      (Builder.map4k root (n * pageSize) phys flags b) (AddressMap.mapPage n phys flags A) := by
  have hv : n * pageSize < 2 ^ 48 := by
    rw [show pageSize = 4096 from rfl]
    omega
  unfold Builder.map4k AddressMap.mapPage
  rw [and_pageUser, ptIndex_eq, ← bind_assoc]
  show Lockstep _ _ ((Builder.ensurePageTable root (n * pageSize) (extraFlags _) >>= _) b) _
  have htables := ensurePageTable_lockstep (flags.testBit 2) R hv
    (by rw [show pageSize = 4096 from rfl, num_two_page, hclear])
  rw [show num 2 (n * pageSize) = n / 512 from num_two_page n] at htables
  refine htables.bind ?_
  rintro pt - b₁ A₁ ⟨tab₁, R₁, hpt, hslot₁, hpage₁⟩
  have hentry : phys ||| flags < 2 ^ 64 := Nat.or_lt_two_pow hlt (hflags.trans (by decide))
  have hset := setEntry_writeU64 b₁.state.phys (R₁.tree.aligned hpt).1
    (Nat.mod_lt n (by decide : 0 < 512)) hentry
  obtain ⟨htree, hpage, hslot, hlink⟩ := R₁.tree.setLeaf hpt hset
  have hbit : present (phys ||| flags) = true :=
    (testBit_or_flags hphys (by decide)).trans hpresent
  have hindex : index 1 (n * pageSize) = n % 512 := by rw [index]; congr 1; exact num_one_page n
  rw [hindex]
  refine .ok ⟨⟨tab₁, R₁.store (R₁.writesOnly_entry hpt (Nat.mod_lt _ (by decide))) htree
    rfl rfl rfl R₁.links_sub ?_ ?_ ?_⟩, hslot₁, by simp only [hpage₁]⟩
  · intro ℓ k hmem
    rw [hlink ℓ k (R₁.table_level (R₁.links_sub hmem))]
    exact R₁.links ℓ k hmem
  · intro n'
    simp only [hpage, hbit, if_true, Function.update_apply, R₁.page]
  · exact fun n' => (hslot n').trans (R₁.slot n')

/-- **`map_2m` enters one huge page**, provided no page table covers its slot. -/
theorem map2m_lockstep {n phys flags : Nat} (R : Rep o root held b A tab)
    (hn : n < 2 ^ 27) (hclear : (1, n) ∉ A.tables) (hpresent : flags.testBit 0 = true)
    (hphys : phys % 4096 = 0) (hlt : phys < 2 ^ 64) (hflags : flags < 4096) :
    Lockstep
      (fun _ _ b' A' => Related o root held b' A' ∧ A'.page = A.page ∧
        A'.slot = Function.update A.slot n (some (phys ||| flags ||| pageHuge)) ∧
        A'.tables = insert (2, n / 512) (insert (3, n / 512 / 512) A.tables))
      (Related o root held)
      (Builder.map2m root (n * hugePageSize) phys flags b) (AddressMap.mapSlot n phys flags A) := by
  have hv : n * hugePageSize < 2 ^ 48 := by
    rw [show hugePageSize = 2097152 from rfl]
    omega
  have hnum : num 2 (n * hugePageSize) = n := num_two_slot n
  unfold Builder.map2m AddressMap.mapSlot
  rw [and_pageUser, pdIndex_eq]
  show Lockstep _ _ ((Builder.ensurePageDirectory root (n * hugePageSize) (extraFlags _) >>= _) b) _
  have htables := ensurePageDirectory_lockstep (flags.testBit 2) R hv
  rw [num_succ 3, num_succ 2, hnum] at htables
  refine htables.bind ?_
  rintro pd - b₁ A₁ ⟨tab₁, R₁, hpd, hslot₁, hpage₁, htables₁⟩
  have hassoc : phys ||| flags ||| pageHuge = phys ||| (flags ||| pageHuge) := Nat.or_assoc ..
  have hflags' : flags ||| pageHuge < 2 ^ 12 := Nat.or_lt_two_pow hflags (by decide)
  have hentry : phys ||| flags ||| pageHuge < 2 ^ 64 := by
    rw [hassoc]
    exact Nat.or_lt_two_pow hlt (hflags'.trans (by decide))
  have hset := setEntry_writeU64 b₁.state.phys (R₁.tree.aligned hpd).1
    (Nat.mod_lt n (by decide : 0 < 512)) hentry
  have hnone : tab₁ 1 n = none := by
    refine R₁.tab_eq_none (by decide) ?_
    rw [htables₁]
    simp [hclear]
  have hpres : present (phys ||| flags ||| pageHuge) = true := by
    rw [hassoc, present, testBit_or_flags hphys (by decide), Nat.testBit_or, hpresent, Bool.true_or]
  have hhuge : huge (phys ||| flags ||| pageHuge) = true := by
    rw [huge, Nat.testBit_or, Bool.or_eq_true]
    exact .inr (by decide)
  obtain ⟨htree, hpage, hslot, hlink⟩ := R₁.tree.setHuge hpd hnone hset hpres hhuge
  rw [index, hnum]
  refine .ok ⟨⟨tab₁, R₁.store (R₁.writesOnly_entry hpd (Nat.mod_lt _ (by decide))) htree
    rfl rfl rfl R₁.links_sub ?_ ?_ ?_⟩, hpage₁, by simp only [hslot₁], htables₁⟩
  · intro ℓ k hmem
    rw [hlink ℓ k, R₁.links ℓ k hmem]
    rintro ⟨rfl, rfl⟩
    obtain ⟨f, hf⟩ := (R₁.tables 1 k).mpr (.inr (R₁.links_sub hmem))
    rw [hnone] at hf
    cases hf
  · exact fun n' => (hpage n').trans (R₁.page n')
  · intro n'
    simp only [hslot, Function.update_apply, R₁.slot]

/-- The page loop. -/
theorem mapIdentity4kFrom_lockstep {flags : Nat} (hpresent : flags.testBit 0 = true)
    (hflags : flags < 4096) (rounds : Nat) {n : Nat} (R : Rep o root held b A tab)
    (hn : n + rounds ≤ 2 ^ 36) (hclear : ∀ i, n ≤ i → i < n + rounds → A.slot (i / 512) = none) :
    Lockstep (fun _ _ b' A' => Related o root held b' A') (Related o root held)
      (Builder.mapIdentity4kFrom root flags rounds (n * pageSize) b)
      (AddressMap.mapPages flags rounds n A) := by
  induction rounds generalizing n b A tab with
  | zero => exact .ok R.related
  | succ rounds ih =>
    refine (map4k_lockstep R (by omega) (hclear n le_rfl (by omega)) hpresent ?_ ?_ hflags).bind ?_
    · exact Nat.mul_mod_left n 4096
    · rw [show pageSize = 4096 from rfl]
      omega
    · rintro - - b₁ A₁ ⟨⟨tab₁, R₁⟩, hslot, -⟩
      have hnext : n * pageSize + pageSize = (n + 1) * pageSize := (Nat.succ_mul n pageSize).symm
      simp only [hnext]
      refine ih R₁ (by omega) fun i hlo hhi => ?_
      rw [hslot]
      exact hclear i (by omega) (by omega)

/-- **`map_identity_4k_range`** enters the pages of the rounded range. -/
theorem mapIdentity4kRange_lockstep {flags start stop : Nat} (hpresent : flags.testBit 0 = true)
    (hflags : flags < 4096) (R : Rep o root held b A tab) (hstart : start < u64Limit)
    (hstop : stop ≤ 2 ^ 48)
    (hclear : ∀ i, start / 4096 ≤ i → i < (stop + 4095) / 4096 → A.slot (i / 512) = none) :
    Lockstep (fun _ _ b' A' => Related o root held b' A') (Related o root held)
      (Builder.mapIdentity4kRange root start stop flags b)
      (AddressMap.mapPages flags ((stop + 4095) / 4096 - start / 4096) (start / 4096) A) := by
  have hlimit : stop + 4096 ≤ u64Limit := by
    rw [u64Limit]
    omega
  unfold Builder.mapIdentity4kRange
  simp only [alignDown_page hstart, alignUp_page hlimit]
  have hrounds : ((stop + 4095) / 4096 * 4096 - start / 4096 * 4096) / pageSize =
      (stop + 4095) / 4096 - start / 4096 := by
    rw [← Nat.sub_mul]
    exact Nat.mul_div_cancel _ (by decide)
  rw [hrounds]
  by_cases hempty : (stop + 4095) / 4096 ≤ start / 4096
  · rw [Nat.sub_eq_zero_of_le hempty]
    exact .ok R.related
  · exact mapIdentity4kFrom_lockstep hpresent hflags _ R (by omega) fun i hlo hhi =>
      hclear i hlo (by omega)

/-- The huge-page loop. -/
theorem mapIdentity2mFrom_lockstep {flags : Nat} (hpresent : flags.testBit 0 = true)
    (hflags : flags < 4096) (rounds : Nat) {n : Nat} (R : Rep o root held b A tab)
    (hn : n + rounds ≤ 2 ^ 27) (hclear : ∀ i, n ≤ i → i < n + rounds → (1, i) ∉ A.tables) :
    Lockstep (fun _ _ b' A' => Related o root held b' A') (Related o root held)
      (Builder.mapIdentity2mFrom root flags rounds (n * hugePageSize) b)
      (AddressMap.mapSlots flags rounds n A) := by
  induction rounds generalizing n b A tab with
  | zero => exact .ok R.related
  | succ rounds ih =>
    refine (map2m_lockstep R (by omega) (hclear n le_rfl (by omega)) hpresent ?_ ?_ hflags).bind ?_
    · rw [show hugePageSize = 2097152 from rfl]
      omega
    · rw [show hugePageSize = 2097152 from rfl]
      omega
    · rintro - - b₁ A₁ ⟨⟨tab₁, R₁⟩, -, -, htables⟩
      have hnext : n * hugePageSize + hugePageSize = (n + 1) * hugePageSize :=
        (Nat.succ_mul n hugePageSize).symm
      simp only [hnext]
      refine ih R₁ (by omega) fun i hlo hhi => ?_
      rw [htables]
      simpa using hclear i (by omega) (by omega)

/-- **`map_identity_2m_range`** enters the slots of the rounded range. -/
theorem mapIdentity2mRange_lockstep {flags start stop : Nat} (hpresent : flags.testBit 0 = true)
    (hflags : flags < 4096) (R : Rep o root held b A tab) (hstart : start < u64Limit)
    (hstop : stop ≤ 2 ^ 48) (hclear : ∀ i, (1, i) ∉ A.tables) :
    Lockstep (fun _ _ b' A' => Related o root held b' A') (Related o root held)
      (Builder.mapIdentity2mRange root start stop flags b)
      (AddressMap.mapSlots flags ((stop + 2097151) / 2097152 - start / 2097152)
        (start / 2097152) A) := by
  have hlimit : stop + 2097152 ≤ u64Limit := by
    rw [u64Limit]
    omega
  unfold Builder.mapIdentity2mRange
  simp only [alignDown_huge hstart, alignUp_huge hlimit]
  have hrounds : ((stop + 2097151) / 2097152 * 2097152 - start / 2097152 * 2097152) / hugePageSize =
      (stop + 2097151) / 2097152 - start / 2097152 := by
    rw [← Nat.sub_mul]
    exact Nat.mul_div_cancel _ (by decide)
  rw [hrounds]
  by_cases hempty : (stop + 2097151) / 2097152 ≤ start / 2097152
  · rw [Nat.sub_eq_zero_of_le hempty]
    exact .ok R.related
  · exact mapIdentity2mFrom_lockstep hpresent hflags _ R (by omega) fun i _ _ => hclear i

end

end Lazers.Memory
