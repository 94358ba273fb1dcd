import Lazers.Lib.Shares
import Lazers.Scheduler.Boot
import Lazers.Scheduler.KernelState

/-!
# Every frame has one holder

The allocator, the kernel's page tables, the processes, the file that is being loaded and
the pages on their way to or from a process: in every run these hold their frames apart
(`Owned`). An address space is backed by what one of them holds (`Backed`), and the active
one by what the current process holds, or has just held (`SpacesOk`).

- `KernelStep.keeps`: every step of the kernel keeps both.
- `frames_held_once`: so no frame of a live process is free, in a file buffer or in another
  process, and no frame of the active address space is free.
-/

namespace Lazers.Scheduler

open Kernel Memory Storage SchedulerState

/-! ## Holders -/

inductive Holder where
  | allocator
  | kernel
  | process (p : ProcessId)
  | file
  | hand
deriving DecidableEq

/-- The frames of the process in slot `p`. -/
def processFrames (s : SchedulerState) (p : ProcessId) : Set Nat :=
  match owners s p with
  | some (_, pages) => frameSet pages.list
  | none => ∅

/-- The frames of the file that is being loaded. -/
def Phase.fileFrames (phase : Phase) : Set Nat :=
  match phase.file with
  | some file => file.frames
  | none => ∅

/-- A table of what each holder has. -/
def shareOf (free tables : Set Nat) (processes : ProcessId → Set Nat) (file hand : Set Nat) :
    Holder → Set Nat
  | .allocator => free
  | .kernel => tables
  | .process p => processes p
  | .file => file
  | .hand => hand

/-- What each holder has; `root` is the root of the kernel's address space. -/
def held (root : Nat) (k : KernelState) : Holder → Set Nat :=
  shareOf k.memory.free (k.frames root) (processFrames k.scheduler) k.phase.fileFrames
    (frameSet k.phase.pages)

/-- The address space is the kernel's, or its frames are among `S`. -/
def Backed (root : Nat) (frames : Nat → Set Nat) (space : AddressSpace) (S : Set Nat) : Prop :=
  space.rootPaddr = root ∨
    (block space.rootPaddr 1 ⊆ frames space.rootPaddr ∧ frames space.rootPaddr ⊆ S)

/-- **The frames are held apart**, and can all be given back. -/
structure Owned (root : Nat) (k : KernelState) : Prop where
  valid : k.memory.allocator.Valid
  shares : Shares (held root k)
  kernel : block root 1 ⊆ k.frames root
  pages : ∀ p space pages, owners k.scheduler p = some (space, pages) → PagesOk pages.list
  spaces : ∀ p space pages, owners k.scheduler p = some (space, pages) →
    Backed root k.frames space (frameSet pages.list)
  file : ∀ file, k.phase.file = some file → file.Ok
  hand : PagesOk k.phase.pages

/-- **What backs the address spaces** in play: the active one belongs to the current process,
except around a switch. -/
def SpacesOk (root : Nat) (k : KernelState) : Phase → Prop
  | .loaded _ _ (.ok program) | .spawning _ program | .refused program =>
    CurrentSpace k.scheduler k.active ∧
      Backed root k.frames program.addressSpace (frameSet program.ownedPages.list)
  | .switching switch _ =>
    (∃ p pages, owners k.scheduler p = some (k.active, pages)) ∧
      CurrentSpace k.scheduler switch.nextSpace
  | .exiting switch =>
    Backed root k.frames k.active (frameSet switch.releasedPages.list) ∧
      CurrentSpace k.scheduler switch.nextSpace
  | .shutDown releasedPages => Backed root k.frames k.active (frameSet releasedPages.list)
  | _ => CurrentSpace k.scheduler k.active

section

variable {root : Nat} {k : KernelState}

theorem processFrames_of_owner {s : SchedulerState} {p : ProcessId} {space : AddressSpace}
    {pages : OwnedPages} (h : owners s p = some (space, pages)) :
    processFrames s p = frameSet pages.list := by
  rw [processFrames, h]

/-- The kernel's page tables are not free. -/
theorem Owned.kernel_held (h : Owned root k) : Disjoint (k.frames root) k.memory.free := by
  show Disjoint (held root k .kernel) (held root k .allocator)
  exact h.shares.disjoint (by simp)

/-- What backs an address space is held, and not by the allocator. -/
theorem Owned.backed (h : Owned root k) {space : AddressSpace} {S : Set Nat}
    (hapart : Disjoint S k.memory.free) (hbacked : Backed root k.frames space S) :
    block space.rootPaddr 1 ⊆ k.frames space.rootPaddr ∧
      Disjoint (k.frames space.rootPaddr) k.memory.free := by
  obtain hroot | ⟨hblock, hframes⟩ := hbacked
  · rw [hroot]
    exact ⟨h.kernel, h.kernel_held⟩
  · exact ⟨hblock, hapart.mono_left hframes⟩

theorem Owned.space_held (h : Owned root k) {p : ProcessId} {space : AddressSpace}
    {pages : OwnedPages} (howner : owners k.scheduler p = some (space, pages)) :
    block space.rootPaddr 1 ⊆ k.frames space.rootPaddr ∧
      Disjoint (k.frames space.rootPaddr) k.memory.free := by
  refine h.backed ?_ (h.spaces p space pages howner)
  rw [← processFrames_of_owner howner]
  show Disjoint (held root k (.process p)) (held root k .allocator)
  exact h.shares.disjoint (by simp)

/-- A page that is free is the root of no address space. -/
theorem Owned.space_ne (h : Owned root k) {p : ProcessId} {space : AddressSpace}
    {pages : OwnedPages} (howner : owners k.scheduler p = some (space, pages)) {page : Nat}
    (hfree : page ∈ k.memory.free) : space.rootPaddr ≠ page := by
  rintro rfl
  obtain ⟨hblock, hapart⟩ := h.space_held howner
  exact Set.disjoint_left.mp hapart (hblock (mem_block_self _)) hfree

theorem Owned.kernel_ne (h : Owned root k) {page : Nat} (hfree : page ∈ k.memory.free) :
    root ≠ page := by
  rintro rfl
  exact Set.disjoint_left.mp h.kernel_held (h.kernel (mem_block_self _)) hfree

/-- **The active address space** is not free, whatever the kernel is doing. -/
theorem Owned.active_held (h : Owned root k) (hspaces : SpacesOk root k k.phase) :
    block k.active.rootPaddr 1 ⊆ k.frames k.active.rootPaddr ∧
      Disjoint (k.frames k.active.rootPaddr) k.memory.free := by
  have hcurrent : CurrentSpace k.scheduler k.active →
      block k.active.rootPaddr 1 ⊆ k.frames k.active.rootPaddr ∧
        Disjoint (k.frames k.active.rootPaddr) k.memory.free := by
    rintro ⟨t, -, p, pages, -, howner⟩
    exact h.space_held howner
  have hhand : ∀ pages : OwnedPages, k.phase.pages = pages.list →
      Backed root k.frames k.active (frameSet pages.list) →
      block k.active.rootPaddr 1 ⊆ k.frames k.active.rootPaddr ∧
        Disjoint (k.frames k.active.rootPaddr) k.memory.free := by
    intro pages hpages hbacked
    refine h.backed ?_ hbacked
    rw [← hpages]
    show Disjoint (held root k .hand) (held root k .allocator)
    exact h.shares.disjoint (by simp)
  cases hphase : k.phase with
  | running | loading _ _ _ _ | spawned _ | switched _ _ | exited _ | resuming =>
    rw [hphase] at hspaces
    exact hcurrent hspaces
  | loaded _ _ result =>
    rw [hphase] at hspaces
    cases result with
    | error e => exact hcurrent hspaces
    | ok program => exact hcurrent hspaces.1
  | spawning _ _ | refused _ =>
    rw [hphase] at hspaces
    exact hcurrent hspaces.1
  | switching _ _ =>
    rw [hphase] at hspaces
    obtain ⟨⟨p, pages, howner⟩, -⟩ := hspaces
    exact h.space_held howner
  | exiting switch =>
    rw [hphase] at hspaces
    exact hhand _ (by rw [hphase]; rfl) hspaces.1
  | shutDown releasedPages =>
    rw [hphase] at hspaces
    exact hhand _ (by rw [hphase]; rfl) hspaces

end

/-! ## Passing frames on -/

section

variable {A A' K F F' H H' : Set Nat} {P P' : ProcessId → Set Nat}

theorem shares_file (h : Shares (shareOf A K P F H)) (hA : A' ⊆ A ∪ F) (hF : F' ⊆ A ∪ F)
    (hapart : Disjoint A' F') : Shares (shareOf A' K P F' H) := by
  refine h.pass (i := .allocator) (j := .file) (by simp) ?_ hA hF hapart
  intro holder hallocator hfile
  cases holder with
  | allocator => exact absurd rfl hallocator
  | file => exact absurd rfl hfile
  | kernel | process _ | hand => exact subset_rfl

theorem shares_hand (h : Shares (shareOf A K P F H)) (hA : A' ⊆ A ∪ H) (hH : H' ⊆ A ∪ H)
    (hapart : Disjoint A' H') : Shares (shareOf A' K P F H') := by
  refine h.pass (i := .allocator) (j := .hand) (by simp) ?_ hA hH hapart
  intro holder hallocator hhand
  cases holder with
  | allocator => exact absurd rfl hallocator
  | hand => exact absurd rfl hhand
  | kernel | process _ | file => exact subset_rfl

theorem shares_process {p : ProcessId} (h : Shares (shareOf A K P F H))
    (hrest : ∀ q, q ≠ p → P' q = P q) (hP : P' p ⊆ P p ∪ H) (hH : H' ⊆ P p ∪ H)
    (hapart : Disjoint (P' p) H') : Shares (shareOf A K P' F H') := by
  refine h.pass (i := .process p) (j := .hand) (by simp) ?_ hP hH hapart
  intro holder hprocess hhand
  cases holder with
  | hand => exact absurd rfl hhand
  | process q => exact (hrest q fun hq => hprocess (by rw [hq])).subset
  | allocator | kernel | file => exact subset_rfl

end

/-! ## What the steps do to the holders -/

section

variable {root : Nat} {k : KernelState} {phase : Phase}

/-- Nobody gets or loses anything. -/
theorem Owned.stays (h : Owned root k) {k' : KernelState}
    (hallocator : k'.memory.allocator = k.memory.allocator)
    (howners : owners k'.scheduler = owners k.scheduler) (hframes : k'.frames = k.frames)
    (hfile : k'.phase.file = k.phase.file) (hpages : k'.phase.pages = k.phase.pages) :
    Owned root k' := by
  have hprocesses : processFrames k'.scheduler = processFrames k.scheduler := by
    funext p
    rw [processFrames, processFrames, howners]
  have hheld : held root k' = held root k := by
    rw [held, held, MemoryState.free, hallocator, hframes, hprocesses, Phase.fileFrames, hfile,
      hpages]
    rfl
  refine ⟨hallocator ▸ h.valid, hheld ▸ h.shares, hframes ▸ h.kernel, ?_, ?_, hfile ▸ h.file,
    hpages ▸ h.hand⟩
  · rw [howners]
    exact h.pages
  · rw [howners, hframes]
    exact h.spaces

/-- The allocator, and perhaps the file, is different. -/
theorem Owned.atFile (h : Owned root k) {s : MemoryState} (hvalid : s.allocator.Valid)
    (hfree : s.free ⊆ k.memory.free ∪ k.phase.fileFrames)
    (hfile : phase.fileFrames ⊆ k.memory.free ∪ k.phase.fileFrames)
    (hapart : Disjoint s.free phase.fileFrames) (hok : ∀ file, phase.file = some file → file.Ok)
    (hpages : phase.pages = k.phase.pages) : Owned root { k with memory := s, phase } := by
  refine ⟨hvalid, ?_, h.kernel, h.pages, h.spaces, hok, hpages ▸ h.hand⟩
  have hshares := shares_file h.shares hfree hfile hapart
  rw [← hpages] at hshares
  exact hshares

/-- Something gets lost. -/
theorem Owned.loses (h : Owned root k) {s : MemoryState} (htakes : Takes k.memory s ∅)
    (hfile : phase.file = k.phase.file) (hpages : phase.pages = k.phase.pages) :
    Owned root { k with memory := s, phase } := by
  have hframes : phase.fileFrames = k.phase.fileFrames := by
    rw [Phase.fileFrames, Phase.fileFrames, hfile]
  refine h.atFile htakes.valid (htakes.rest.trans Set.subset_union_left) ?_ ?_ (hfile ▸ h.file)
    hpages
  · rw [hframes]
    exact Set.subset_union_right
  · rw [hframes]
    have hapart := h.shares.disjoint (i := .allocator) (j := .file) (by simp)
    exact hapart.mono_left htakes.rest

/-- From the allocator to the file. -/
theorem Owned.takesFile (h : Owned root k) {s : MemoryState} {file : KernelBuffer}
    (htakes : Takes k.memory s file.frames) (hok : file.Ok) (hfile : phase.file = some file)
    (hpages : phase.pages = k.phase.pages) : Owned root { k with memory := s, phase } := by
  have hframes : phase.fileFrames = file.frames := by rw [Phase.fileFrames, hfile]
  refine h.atFile htakes.valid (htakes.rest.trans Set.subset_union_left) ?_ ?_ ?_ hpages
  · rw [hframes]
    exact htakes.taken.trans Set.subset_union_left
  · rw [hframes]
    exact htakes.apart.symm
  · intro file' hfile'
    rw [hfile, Option.some.injEq] at hfile'
    exact hfile' ▸ hok

/-- From the file back to the allocator. -/
theorem Owned.givesFile (h : Owned root k) {s : MemoryState} {file : KernelBuffer}
    (hheld : k.phase.file = some file) (hrelease : file.release k.memory = some s)
    (hfile : phase.file = none) (hpages : phase.pages = k.phase.pages) :
    Owned root { k with memory := s, phase } := by
  obtain ⟨hvalid, hfree⟩ := KernelBuffer.release_gives h.valid (h.file file hheld) hrelease
  have hfrom : k.phase.fileFrames = file.frames := by rw [Phase.fileFrames, hheld]
  have hempty : phase.fileFrames = ∅ := by rw [Phase.fileFrames, hfile]
  refine h.atFile hvalid ?_ ?_ ?_ ?_ hpages
  · rw [hfree, hfrom]
  · rw [hempty]
    exact Set.empty_subset _
  · rw [hempty]
    exact Set.disjoint_empty _
  · intro file' hfile'
    rw [hfile] at hfile'
    cases hfile'

/-- A new address space is backed by the pages of its program. -/
theorem Backed.of_load {memory s : MemoryState} {bytes : List UInt8} {startup : ProgramStartup}
    {program : LoadedUserProgram} {frames : Nat → Set Nat} (hvalid : memory.allocator.Valid)
    (hload : loadUserProgram bytes startup memory = some (.ok program, s))
    (hnew : frames program.addressSpace.rootPaddr = memory.free \ s.free) :
    Backed root frames program.addressSpace (frameSet program.ownedPages.list) := by
  obtain ⟨-, hroot, htakes⟩ := loadUserProgram_takes hvalid hload
  refine .inr ⟨fun x hx => ?_, ?_⟩
  · have hx' : x ∈ frameSet program.ownedPages.list := ⟨_, hroot, hx⟩
    rw [hnew]
    exact ⟨htakes.taken hx', Set.disjoint_left.mp htakes.apart hx'⟩
  · rw [hnew, (loadUserProgram_frames hvalid hload).2.1]
    rintro x ⟨hx | hx, hnot⟩
    · exact hx
    · exact absurd hx hnot

/-- From the allocator to a program. -/
theorem Owned.loads (h : Owned root k) {s : MemoryState} {bytes : List UInt8}
    {startup : ProgramStartup} {program : LoadedUserProgram} {frames : Nat → Set Nat}
    (hload : loadUserProgram bytes startup k.memory = some (.ok program, s))
    (hold : ∀ r, r ≠ program.addressSpace.rootPaddr → frames r = k.frames r)
    (hfile : phase.file = k.phase.file) (hpages : phase.pages = program.ownedPages.list) :
    Owned root { k with memory := s, frames, phase } := by
  obtain ⟨hok, hroot, htakes⟩ := loadUserProgram_takes h.valid hload
  -- the new root was free, so that no other address space has it
  have hfree : program.addressSpace.rootPaddr ∈ k.memory.free :=
    htakes.taken ⟨_, hroot, mem_block_self _⟩
  have hkernel : frames root = k.frames root :=
    hold _ (h.kernel_ne hfree)
  have hframes : phase.fileFrames = k.phase.fileFrames := by
    rw [Phase.fileFrames, Phase.fileFrames, hfile]
  refine ⟨htakes.valid, ?_, ?_, h.pages, ?_, hfile ▸ h.file, hpages ▸ hok⟩
  · show Shares (shareOf s.free (frames root) (processFrames k.scheduler) phase.fileFrames
      (frameSet phase.pages))
    rw [hkernel, hframes, hpages]
    exact shares_hand h.shares (htakes.rest.trans Set.subset_union_left)
      (htakes.taken.trans Set.subset_union_left) htakes.apart.symm
  · show block root 1 ⊆ frames root
    rw [hkernel]
    exact h.kernel
  · intro p space pages howner
    have hne : space.rootPaddr ≠ program.addressSpace.rootPaddr := h.space_ne howner hfree
    show space.rootPaddr = root ∨
      (_ ⊆ frames space.rootPaddr ∧ frames space.rootPaddr ⊆ _)
    rw [hold _ hne]
    exact h.spaces p space pages howner

/-- From the hand back to the allocator. -/
theorem Owned.givesHand (h : Owned root k) {s : MemoryState} {pages : OwnedPages}
    (hheld : k.phase.pages = pages.list) (hrelease : pages.release k.memory = some s)
    (hfile : phase.file = k.phase.file) (hpages : phase.pages = []) :
    Owned root { k with memory := s, phase } := by
  obtain ⟨hvalid, hfree⟩ := OwnedPages.release_gives h.valid (hheld ▸ h.hand) hrelease
  have hframes : phase.fileFrames = k.phase.fileFrames := by
    rw [Phase.fileFrames, Phase.fileFrames, hfile]
  refine ⟨hvalid, ?_, h.kernel, h.pages, h.spaces, hfile ▸ h.file, hpages ▸ pagesOk_nil⟩
  show Shares (shareOf s.free (k.frames root) (processFrames k.scheduler) phase.fileFrames
    (frameSet phase.pages))
  rw [hframes, hpages, frameSet_eq_empty.mpr rfl]
  refine shares_hand h.shares ?_ (Set.empty_subset _) (Set.disjoint_empty _)
  rw [hfree, hheld]

/-- From a program to the process that is made of it. -/
theorem Owned.installs (h : Owned root k) {s : SchedulerState} {program : LoadedUserProgram}
    {slot : ProcessId} (hheld : k.phase.pages = program.ownedPages.list)
    (hinstalled : Installed k.scheduler s program slot)
    (hbacked : Backed root k.frames program.addressSpace (frameSet program.ownedPages.list))
    (hfile : phase.file = k.phase.file) (hpages : phase.pages = []) :
    Owned root { k with machine.scheduler := s, phase } := by
  have howners := hinstalled.owners_eq
  have hself : owners s slot = some (brings program) := by rw [howners, Function.update_self]
  have hother : ∀ q, q ≠ slot → owners s q = owners k.scheduler q := by
    intro q hq
    rw [howners, Function.update_of_ne hq]
  have hframes : phase.fileFrames = k.phase.fileFrames := by
    rw [Phase.fileFrames, Phase.fileFrames, hfile]
  -- whatever holds of the processes before and of the new one holds of all
  have hall : ∀ {P : AddressSpace → OwnedPages → Prop},
      (∀ q space pages, owners k.scheduler q = some (space, pages) → P space pages) →
      P program.addressSpace program.ownedPages →
      ∀ q space pages, owners s q = some (space, pages) → P space pages := by
    intro P hbefore hnew q space pages howner
    by_cases hq : q = slot
    · rw [hq, hself] at howner
      cases howner
      exact hnew
    · rw [hother q hq] at howner
      exact hbefore q space pages howner
  refine ⟨h.valid, ?_, h.kernel, hall h.pages (hheld ▸ h.hand), hall h.spaces hbacked,
    hfile ▸ h.file, hpages ▸ pagesOk_nil⟩
  show Shares (shareOf k.memory.free (k.frames root) (processFrames s) phase.fileFrames
    (frameSet phase.pages))
  rw [hframes, hpages, frameSet_eq_empty.mpr rfl]
  refine shares_process (p := slot) h.shares (fun q hq => ?_) ?_ (Set.empty_subset _)
    (Set.disjoint_empty _)
  · rw [processFrames, processFrames, hother q hq]
  · rw [processFrames_of_owner hself, hheld]
    exact Set.subset_union_right

/-- From a process that exits. -/
theorem Owned.removes (h : Owned root k) {s : SchedulerState} {p : ProcessId}
    {space : AddressSpace} {pages : OwnedPages}
    (howner : owners k.scheduler p = some (space, pages))
    (howners : owners s = Function.update (owners k.scheduler) p none)
    (hfile : phase.file = k.phase.file) (hpages : phase.pages = pages.list) :
    Owned root { k with machine.scheduler := s, phase } := by
  have hself : owners s p = none := by rw [howners, Function.update_self]
  have hother : ∀ q, q ≠ p → owners s q = owners k.scheduler q := by
    intro q hq
    rw [howners, Function.update_of_ne hq]
  have hframes : phase.fileFrames = k.phase.fileFrames := by
    rw [Phase.fileFrames, Phase.fileFrames, hfile]
  have hsome : ∀ {q r}, owners s q = some r → owners k.scheduler q = some r := by
    intro q r hq
    have hne : q ≠ p := by
      rintro rfl
      rw [hself] at hq
      cases hq
    rw [← hother q hne]
    exact hq
  refine ⟨h.valid, ?_, h.kernel, fun q space pages hq => h.pages q space pages (hsome hq),
    fun q space pages hq => h.spaces q space pages (hsome hq), hfile ▸ h.file,
    hpages ▸ h.pages p space pages howner⟩
  show Shares (shareOf k.memory.free (k.frames root) (processFrames s) phase.fileFrames
    (frameSet phase.pages))
  have hempty : processFrames s p = ∅ := by rw [processFrames, hself]
  rw [hframes, hpages]
  refine shares_process (p := p) h.shares (fun q hq => ?_) ?_ ?_ ?_
  · rw [processFrames, processFrames, hother q hq]
  · rw [hempty]
    exact Set.empty_subset _
  · rw [processFrames_of_owner howner]
    exact Set.subset_union_left
  · rw [hempty]
    exact Set.empty_disjoint _

end

/-! ## Every step -/

section

variable {root : Nat} {k k' : KernelState}

/-- Whoever is current has its space in the tables. -/
theorem CurrentSpace.owner {s : SchedulerState} {space : AddressSpace} (h : CurrentSpace s space) :
    ∃ p pages, owners s p = some (space, pages) := by
  obtain ⟨t, -, p, pages, -, howner⟩ := h
  exact ⟨p, pages, howner⟩

/-- There is one address space that is current. -/
theorem CurrentSpace.eq_of_current {s : SchedulerState} {space space' : AddressSpace}
    {t : ThreadId} {p : ProcessId} {pages : OwnedPages} (h : CurrentSpace s space)
    (hcurrent : s.currentThread = some t) (hthread : ownerOf s t = some p)
    (howner : owners s p = some (space', pages)) : space = space' := by
  obtain ⟨t', hcurrent', p', pages', hthread', howner'⟩ := h
  rw [hcurrent, Option.some.injEq] at hcurrent'
  subst hcurrent'
  rw [hthread, Option.some.injEq] at hthread'
  subst hthread'
  rw [howner] at howner'
  cases howner'
  rfl

/-- **Every step keeps the frames apart** and the active address space backed. -/
theorem KernelStep.keeps (step : KernelStep k k') (h : Owned root k)
    (hspaces : SpacesOk root k k.phase) : Owned root k' ∧ SpacesOk root k' k'.phase := by
  obtain ⟨machine, memory, active, frames, phase⟩ := k
  cases step with
  | store phys running =>
    cases running
    exact ⟨h.stays rfl rfl rfl rfl rfl, hspaces⟩
  | call running stays enabled returned =>
    cases running
    have hunmoved := step_unmoved stays returned
    exact ⟨h.stays rfl hunmoved.owners rfl rfl rfl, hunmoved.currentSpace hunmoved.current hspaces⟩
  | yieldStays running prepared =>
    cases running
    have hprepared := prepareSwitch_prepared prepared
    refine ⟨h.stays rfl hprepared.same.owners rfl rfl rfl, ?_⟩
    exact hprepared.same.currentSpace (hprepared.none_current rfl) hspaces
  | yieldSwitches running prepared =>
    cases running
    have hprepared := prepareSwitch_prepared prepared
    refine ⟨h.stays rfl hprepared.same.owners rfl rfl rfl, ?_, hprepared.space _ rfl⟩
    rw [hprepared.same.owners]
    exact hspaces.owner
  | readFails running user parent resolved read =>
    cases running
    exact ⟨h.loses ((readRootFile_takes h.valid read).2 _ rfl) rfl rfl, hspaces⟩
  | reads argvTail silent running user parent resolved read =>
    cases running
    obtain ⟨hok, htakes⟩ := (readRootFile_takes h.valid read).1 _ rfl
    exact ⟨h.takesFile htakes hok rfl rfl, hspaces⟩
  | loadFails loading load =>
    cases loading
    exact ⟨h.loses (loadUserProgram_failed h.valid load) rfl rfl, hspaces⟩
  | loads loading load =>
    cases loading
    exact ⟨h.loads load (fun r hr => Function.update_of_ne hr _ _) rfl rfl, hspaces,
      .of_load h.valid load (Function.update_self _ _ _)⟩
  | releaseFileFailed loaded released =>
    cases loaded
    exact ⟨h.givesFile rfl released rfl rfl, hspaces⟩
  | releaseFile loaded released =>
    cases loaded
    exact ⟨h.givesFile rfl released rfl rfl, hspaces⟩
  | refuses spawning isCurrent spawned =>
    cases spawning
    obtain ⟨hsame, rfl⟩ | ⟨slot, heq, -⟩ := spawnChildProcess_cases spawned
    · cases hsame
      exact ⟨h.stays rfl rfl rfl rfl rfl, hspaces⟩
    · cases heq
  | releaseProgram refused released =>
    cases refused
    exact ⟨h.givesHand rfl released rfl rfl, hspaces.1⟩
  | spawns spawning isCurrent spawned =>
    cases spawning
    obtain ⟨heq, -⟩ | ⟨slot, -, hinstalled⟩ := spawnChildProcess_cases spawned
    · cases heq
    · exact ⟨h.installs rfl hinstalled hspaces.2 rfl rfl, hinstalled.currentSpace hspaces.1⟩
  | waitFails spawned prepared =>
    cases spawned
    have hprepared := prepareWaitForChild_prepared prepared
    refine ⟨h.stays rfl hprepared.same.owners rfl rfl rfl, ?_⟩
    exact hprepared.same.currentSpace (hprepared.none_current rfl) hspaces
  | waits spawned prepared =>
    cases spawned
    have hprepared := prepareWaitForChild_prepared prepared
    refine ⟨h.stays rfl hprepared.same.owners rfl rfl rfl, ?_, hprepared.space _ rfl⟩
    rw [hprepared.same.owners]
    exact hspaces.owner
  | activates switching =>
    cases switching
    exact ⟨h.stays rfl rfl rfl rfl rfl, hspaces.2⟩
  | switches switched saved =>
    cases switched
    have hunmoved := contextSwitch_unmoved saved
    exact ⟨h.stays rfl hunmoved.owners rfl rfl rfl, hunmoved.currentSpace hunmoved.current hspaces⟩
  | resumes resuming resumed =>
    cases resuming
    have hunmoved := resume_unmoved resumed
    exact ⟨h.stays rfl hunmoved.owners rfl rfl rfl, hunmoved.currentSpace hunmoved.current hspaces⟩
  | exits running user prepared =>
    cases running
    obtain ⟨t, p, space, hcurrent, hthread, howner, howners, hnext⟩ := prepareExit_owners prepared
    obtain rfl := hspaces.eq_of_current hcurrent hthread howner
    refine ⟨h.removes howner howners rfl rfl, h.spaces p _ _ howner, hnext _ rfl⟩
  | activatesNext exiting =>
    cases exiting
    exact ⟨h.stays rfl rfl rfl rfl rfl, hspaces.2⟩
  | releasePages exited released =>
    cases exited
    exact ⟨h.givesHand rfl released rfl rfl, hspaces⟩
  | shutsDown running user prepared =>
    cases running
    obtain ⟨t, p, space, hcurrent, hthread, howner, howners, -⟩ := prepareExit_owners prepared
    obtain rfl := hspaces.eq_of_current hcurrent hthread howner
    exact ⟨h.removes howner howners rfl rfl, h.spaces p _ _ howner⟩

end

/-! ## Boot -/

theorem controllerPages_takes {s s' : MemoryState} {pages : Nat × Nat × Nat × Nat}
    (hvalid : s.allocator.Valid) (h : controllerPages s = .ok pages s') :
    Takes s s' ∅ ∧ s'.kernelSpace = s.kernelSpace := by
  obtain ⟨_, s₁, hcommands, h₁⟩ := EStateM.bind_eq_ok.mp h
  obtain ⟨_, s₂, hfis, h₂⟩ := EStateM.bind_eq_ok.mp h₁
  obtain ⟨_, s₃, htable, h₃⟩ := EStateM.bind_eq_ok.mp h₂
  obtain ⟨_, s₄, hdma, h₄⟩ := EStateM.bind_eq_ok.mp h₃
  cases h₄
  obtain ⟨htakes₁, hspace₁⟩ := allocatePage_takes hvalid hcommands
  obtain ⟨htakes₂, hspace₂⟩ := allocatePage_takes htakes₁.valid hfis
  obtain ⟨htakes₃, hspace₃⟩ := allocatePage_takes htakes₂.valid htable
  obtain ⟨htakes₄, hspace₄⟩ := allocatePage_takes htakes₃.valid hdma
  exact ⟨(htakes₄.after (htakes₃.after (htakes₂.after htakes₁))).forget,
    hspace₄.trans (hspace₃.trans (hspace₂.trans hspace₁))⟩

theorem shares_start {A K U : Set Nat} {P : ProcessId → Set Nat} {user : ProcessId}
    (hA : Disjoint U A) (hK : Disjoint A K) (hU : Disjoint K U) (huser : P user = U)
    (hrest : ∀ p, p ≠ user → P p = ∅) : Shares (shareOf A K P ∅ ∅) := by
  have hshares : Shares (Function.update (Function.update (Function.update (fun _ => ∅)
      Holder.allocator A) Holder.kernel K) (Holder.process user) U) := by
    refine ((Shares.empty.add (i := Holder.allocator) fun _ _ => Set.disjoint_empty _).add
      (i := Holder.kernel) fun holder hne => ?_).add (i := Holder.process user) fun holder hne => ?_
    · cases holder with
      | allocator => exact hK.symm
      | kernel | process _ | file | hand => exact Set.disjoint_empty _
    · cases holder with
      | allocator => exact hA
      | kernel => exact hU.symm
      | process _ | file | hand => exact Set.disjoint_empty _
  refine hshares.mono fun holder => ?_
  cases holder with
  | process p =>
    by_cases hp : p = user
    · subst hp
      rw [Function.update_self]
      exact huser.subset
    · exact (hrest p hp).subset.trans (Set.empty_subset _)
  | allocator | kernel | file | hand => exact subset_rfl

/-- **Boot**: the kernel has its page tables, and the first program its pages. -/
theorem KernelBoot.Starts.owned {boot : KernelBoot} {k : KernelState}
    (hregions : ∀ r ∈ boot.bootInfo.memoryRegions, r.Regular) (h : boot.Starts k) :
    ∃ root, Owned root k ∧ SpacesOk root k k.phase := by
  obtain ⟨mapped, controller, kernel, read, load, released, booted⟩ := h
  rename_i run pages s₁ s₂ s₃ s₄ kernelSpace rootFs fuel file program activation s
  obtain ⟨hcontroller, hspace⟩ :=
    controllerPages_takes (mapped.tablesHeld hregions).valid controller
  have htables := (mapped.tablesHeld hregions).takes hcontroller hspace
  obtain ⟨hfile, htakesFile⟩ := (readRootFile_takes htables.valid read).1 _ rfl
  obtain ⟨hpages, hroot, htakes⟩ := loadUserProgram_takes htakesFile.valid load
  have hgives := KernelBuffer.release_gives htakes.valid hfile released
  obtain ⟨kernelId, user, hne, howners, hcurrent⟩ := bootScheduler_owners booted
  -- what is free in the end was free before the file was read
  have hfree : s₄.free ⊆ s₁.free := by
    rw [hgives.free]
    exact Set.union_subset (htakes.rest.trans htakesFile.rest) htakesFile.taken
  have hapart : Disjoint (frameSet program.ownedPages.list) s₄.free := by
    rw [hgives.free, Set.disjoint_union_right]
    exact ⟨htakes.apart, htakesFile.apart.symm.mono_left htakes.taken⟩
  have hprogram : frameSet program.ownedPages.list ⊆ s₁.free := htakes.taken.trans htakesFile.rest
  have hblock := htables.root kernelSpace kernel
  have hrootNe : kernelSpace.rootPaddr ≠ program.addressSpace.rootPaddr := by
    intro heq
    have hmem : kernelSpace.rootPaddr ∈ frameSet program.ownedPages.list :=
      ⟨_, hroot, heq ▸ mem_block_self _⟩
    exact Set.disjoint_left.mp htables.apart (hblock (mem_block_self _)) (hprogram hmem)
  have hcases : ∀ p space pages, owners s p = some (space, pages) →
      (space = kernelSpace ∧ pages = OwnedPages.empty) ∨
        (space = program.addressSpace ∧ pages = program.ownedPages) := by
    intro p space pages howner
    rw [howners] at howner
    by_cases huser : p = user
    · rw [huser, Function.update_self] at howner
      cases howner
      exact .inr ⟨rfl, rfl⟩
    · rw [Function.update_of_ne huser] at howner
      by_cases hkernel : p = kernelId
      · rw [hkernel, Function.update_self] at howner
        cases howner
        exact .inl ⟨rfl, rfl⟩
      · rw [Function.update_of_ne hkernel] at howner
        cases howner
  obtain ⟨frames, hframes⟩ : ∃ frames : Nat → Set Nat, frames = Function.update (Function.update
      (fun _ => ∅) kernelSpace.rootPaddr run.tables) program.addressSpace.rootPaddr
        (s₂.free \ s₃.free) := ⟨_, rfl⟩
  have hkernelFrames : frames kernelSpace.rootPaddr = run.tables := by
    rw [hframes, Function.update_of_ne hrootNe, Function.update_self]
  have hnewFrames : frames program.addressSpace.rootPaddr = s₂.free \ s₃.free := by
    rw [hframes, Function.update_self]
  have howner : owners s user = some (program.addressSpace, program.ownedPages) := by
    rw [howners, Function.update_self]
    rfl
  rw [← hframes]
  refine ⟨kernelSpace.rootPaddr, ⟨hgives.valid, ?_, ?_, ?_, ?_, by rintro _ ⟨⟩, pagesOk_nil⟩,
    hcurrent⟩
  · show Shares (shareOf s₄.free (frames kernelSpace.rootPaddr) (processFrames s) ∅ (frameSet []))
    rw [hkernelFrames, frameSet_eq_empty.mpr rfl]
    refine shares_start hapart (htables.apart.symm.mono_left hfree)
      (htables.apart.mono_right hprogram) (processFrames_of_owner howner) fun p hp => ?_
    show processFrames s p = ∅
    rw [processFrames, howners, Function.update_of_ne hp]
    by_cases hkernel : p = kernelId
    · rw [hkernel, Function.update_self]
      exact frameSet_eq_empty.mpr rfl
    · rw [Function.update_of_ne hkernel]
  · show _ ⊆ frames _
    rw [hkernelFrames]
    exact hblock
  · rintro p space pages howner
    obtain ⟨-, rfl⟩ | ⟨-, rfl⟩ := hcases p space pages howner
    · exact pagesOk_nil
    · exact hpages
  · rintro p space pages howner
    obtain ⟨rfl, -⟩ | ⟨rfl, rfl⟩ := hcases p space pages howner
    · exact .inl rfl
    · exact .of_load htakesFile.valid load hnewFrames

/-! ## Runs -/

/-- **In every run.** -/
theorem KernelBoot.Reaches.owned {boot : KernelBoot} {k : KernelState}
    (hregions : ∀ r ∈ boot.bootInfo.memoryRegions, r.Regular) (h : boot.Reaches k) :
    ∃ root, Owned root k ∧ SpacesOk root k k.phase := by
  induction h with
  | start starts => exact starts.owned hregions
  | step reaches steps ih =>
    obtain ⟨root, howned, hspaces⟩ := ih
    exact ⟨root, steps.keeps howned hspaces⟩

/-- **Every frame has one holder.** In every state that the kernel reaches from any boot, and
whatever the programs, the disk and the devices do, the pages of a process in the table have
no duplicates, and none is free, in the buffer of a file, or a page of another process; and
the frames of the active address space, its root table among them, are not free. -/
theorem frames_held_once {boot : KernelBoot} {k : KernelState}
    (hregions : ∀ r ∈ boot.bootInfo.memoryRegions, r.Regular) (h : boot.Reaches k) :
    (∀ p process, k.scheduler.process? p = some process →
      process.ownedPages.list.Nodup ∧
      Disjoint (frameSet process.ownedPages.list) k.memory.free ∧
      (∀ file, k.phase.file = some file →
        Disjoint (frameSet process.ownedPages.list) file.frames) ∧
      ∀ q process', q ≠ p → k.scheduler.process? q = some process' →
        Disjoint (frameSet process.ownedPages.list) (frameSet process'.ownedPages.list)) ∧
    block k.active.rootPaddr 1 ⊆ k.frames k.active.rootPaddr ∧
      Disjoint (k.frames k.active.rootPaddr) k.memory.free := by
  obtain ⟨root, howned, hspaces⟩ := h.owned hregions
  refine ⟨fun p process hprocess => ?_, howned.active_held hspaces⟩
  have howner : ∀ {q pr}, k.scheduler.process? q = some pr →
      owners k.scheduler q = some (pr.addressSpace, pr.ownedPages) := by
    intro q pr hq
    rw [owners, hq]
    rfl
  have hframes := processFrames_of_owner (howner hprocess)
  refine ⟨(howned.pages p _ _ (howner hprocess)).nodup, ?_, fun file hfile => ?_,
    fun q process' hq hprocess' => ?_⟩
  · rw [← hframes]
    show Disjoint (held root k (.process p)) (held root k .allocator)
    exact howned.shares.disjoint (by simp)
  · have hfileFrames : k.phase.fileFrames = file.frames := by rw [Phase.fileFrames, hfile]
    rw [← hframes, ← hfileFrames]
    show Disjoint (held root k (.process p)) (held root k .file)
    exact howned.shares.disjoint (by simp)
  · rw [← hframes, ← processFrames_of_owner (howner hprocess')]
    show Disjoint (held root k (.process p)) (held root k (.process q))
    exact howned.shares.disjoint fun heq => hq (Holder.process.inj heq).symm

/-! ### A machine with one program -/

/-- What `kernel_main` does to memory between the kernel's mappings and the scheduler. -/
def loadFirst (rootFs : Option Fat32) (fuel : Nat) (path : String) (s : MemoryState) :
    Option (AddressSpace × LoadedUserProgram) :=
  match controllerPages s with
  | .error _ _ => none
  | .ok _ s =>
    match s.kernelSpace, readRootFile rootFs fuel path s with
    | some kernelSpace, (.ok file, s) =>
      match loadUserProgram (file.asSlice s) ⟨path, []⟩ s with
      | some (.ok program, s) => (file.release s).map fun _ => (kernelSpace, program)
      | _ => none
    | _, _ => none

/-- The scheduler always gets started. -/
theorem KernelBoot.starts_of_loadFirst (boot : KernelBoot) {run : KernelRun}
    (mapped : KernelRun.Reachable boot.bootInfo boot.image (fun _ _ _ => True) run)
    {rootFs : Option Fat32} {fuel : Nat}
    (h : (loadFirst rootFs fuel boot.initialUserProgram run.state).isSome = true) :
    ∃ k, boot.Starts k := by
  rw [loadFirst.eq_def] at h
  split at h
  · cases h
  · rename_i pages s₁ hcontroller
    split at h
    · rename_i kernelSpace file s₂ hkernel hread
      split at h
      · rename_i program s₃ hload
        rw [Option.isSome_map] at h
        obtain ⟨s₄, hrelease⟩ := Option.isSome_iff_exists.mp h
        obtain ⟨activation, s, c, first, hbooted, -⟩ :=
          boot_spec boot.stacksAddress kernelSpace program
        exact ⟨_, .start mapped hcontroller hkernel hread hload hrelease hbooted⟩
      · cases h
    · cases h

/-- Four megabytes, and a disk with one program. -/
def sampleKernel : KernelBoot where
  bootInfo := KernelRun.sampleBoot
  image := ⟨0, 0⟩
  stacksAddress := 0x200000
  initialUserProgram := "/A"

theorem frames_held_once_at_sampleKernel :
    ∃ k, sampleKernel.Reaches k ∧ block k.active.rootPaddr 1 ⊆ k.frames k.active.rootPaddr ∧
      Disjoint (k.frames k.active.rootPaddr) k.memory.free := by
  have hload : (loadFirst (some (oneFileVolume 120 (.ok (sectorOf codePage)))) 4 "/A"
      KernelRun.sampleRun.state).isSome = true := by
    decide +kernel
  obtain ⟨k, hstarts⟩ := sampleKernel.starts_of_loadFirst
    (KernelRun.sampleRun_reachable _) hload
  have hregions := KernelRun.sampleBoot_regular.regions
  exact ⟨k, .start hstarts, (frames_held_once hregions (.start hstarts)).2⟩

end Lazers.Scheduler
