import Lazers.Lib.ByteView
import Lazers.Memory.UserSpace

/-!
# The startup block in memory (`memory/loader.rs`, `write_startup_arguments`)

The loader writes the startup block page by page into physical frames. Through
its page map this is one store per `copy_into` (`copyInto_view`), so that the
new stack holds `argc`, the pointer table and the strings
(`writeStartupArguments_view`).
-/

namespace Lazers.Memory

open PageTable AddressMap Elf

namespace UserPageMap

/-- The bytes the program will see: each mapped page lies in its frame. -/
def view (pages : UserPageMap) (m : ByteMemory) : ByteView := fun v =>
  (pages.find (v / 4096 * pageSize)).map fun page => m.byte (page.physPage + v % 4096)

/-- No two pages share a frame. -/
def OwnFrames (pages : UserPageMap) : Prop :=
  ∀ n n' p p', n ≠ n' → pages.find (n * pageSize) = some p → pages.find (n' * pageSize) = some p' →
    p.physPage + 4096 ≤ p'.physPage ∨ p'.physPage + 4096 ≤ p.physPage

/-- Every page from `lo` to below `hi` is mapped. -/
def Covers (pages : UserPageMap) (lo hi : Nat) : Prop :=
  ∀ n, lo / 4096 ≤ n → n * 4096 < hi → (pages.find (n * pageSize)).isSome = true

variable {pages : UserPageMap}

theorem Lists.ownFrames {placed : List PlacedPage} (hlists : pages.Lists placed)
    (hnodup : (placed.map PlacedPage.frame).Nodup) (haligned : ∀ q ∈ placed, q.frame % 4096 = 0) :
    pages.OwnFrames := by
  intro n n' q q' hne hq hq'
  rw [hlists.find_eq, Option.map_eq_some_iff] at hq hq'
  obtain ⟨r, hr, rfl⟩ := hq
  obtain ⟨r', hr', rfl⟩ := hq'
  obtain ⟨hmem, rfl⟩ := LoadedSpace.placed_of_lookup hr
  obtain ⟨hmem', rfl⟩ := LoadedSpace.placed_of_lookup hr'
  have hframes : r.frame ≠ r'.frame := fun heq =>
    hne (congrArg PlacedPage.page (List.inj_on_of_nodup_map hnodup hmem hmem' heq))
  have h := haligned r hmem
  have h' := haligned r' hmem'
  simp only [PlacedPage.entry]
  omega

theorem Lists.covers_stack {placed : List PlacedPage} (hlists : pages.Lists placed)
    (hplaced : ∀ n, StackPage n → (lookupPlaced placed n).isSome = true) :
    pages.Covers userStackBase userStackTop := by
  intro n hlo hhi
  rw [hlists.find_eq, Option.isSome_map]
  refine hplaced n ⟨hlo, ?_⟩
  simp only [userStackTop] at hhi ⊢
  omega

theorem Covers.mono {lo hi lo' hi' : Nat} (h : pages.Covers lo hi) (hlo : lo ≤ lo')
    (hhi : hi' ≤ hi) : pages.Covers lo' hi' := by
  intro n h₁ h₂
  exact h n (by omega) (by omega)

/-- A store into the frame of one page. -/
theorem view_write (hown : pages.OwnFrames) {n : Nat} {p : UserPage}
    (hp : pages.find (n * pageSize) = some p) (offset : Nat) (bytes : List UInt8)
    (hfits : offset + bytes.length ≤ 4096) (m : ByteMemory) :
    pages.view (m.write (p.physPage + offset) bytes) =
      (pages.view m).overlay (n * 4096 + offset) bytes := by
  funext v
  simp only [view, ByteView.overlay, ByteMemory.write]
  by_cases hv : v / 4096 = n
  · subst hv
    rw [hp]
    simp only [Option.map_some]
    by_cases hin : offset ≤ v % 4096 ∧ v % 4096 < offset + bytes.length
    · rw [if_pos (by omega), if_pos (by omega)]
      have hindex : v - (v / 4096 * 4096 + offset) = v % 4096 - offset := by omega
      have hindex' : p.physPage + v % 4096 - (p.physPage + offset) = v % 4096 - offset := by omega
      rw [hindex, hindex', List.getElem?_eq_getElem (by omega), List.getD_eq_getElem?_getD,
        List.getElem?_eq_getElem (by omega)]
      rfl
    · rw [if_neg (by omega), if_neg (by omega)]
  · -- another page lies in another frame
    rw [if_neg (by omega)]
    cases hfind : pages.find (v / 4096 * pageSize) with
    | none => rfl
    | some p' =>
      have happart := hown n (v / 4096) p p' (Ne.symm hv) hp hfind
      simp only [Option.map_some]
      rw [if_neg (by omega)]

/-- **Copying is one store**, however many pages it crosses. -/
theorem copyFrom_view (hown : pages.OwnFrames) (rounds address : Nat) (remaining : List UInt8)
    (hrounds : remaining.length ≤ rounds) (hlimit : address + remaining.length < u64Limit)
    (hcovers : pages.Covers address (address + remaining.length)) (b : BuilderState) :
    ∃ b', pages.copyFrom rounds address remaining b = .ok () b' ∧
      pages.view b'.state.phys = (pages.view b.state.phys).overlay address remaining := by
  induction rounds generalizing address remaining b with
  | zero =>
    obtain rfl : remaining = [] := List.eq_nil_of_length_eq_zero (by omega)
    exact ⟨b, rfl, by rw [ByteView.overlay_nil]⟩
  | succ rounds ih =>
    rw [copyFrom]
    split_ifs with hempty
    · obtain rfl : remaining = [] := by simpa using hempty
      exact ⟨b, rfl, by rw [ByteView.overlay_nil]⟩
    · have hpos : 0 < remaining.length := by
        rw [List.length_pos_iff]
        simpa using hempty
      have hdown : alignDown address pageSize = address / 4096 * pageSize :=
        alignDown_page (by omega)
      obtain ⟨p, hp⟩ := Option.isSome_iff_exists.mp (hcovers (address / 4096) le_rfl (by omega))
      have hoffset : address - address / 4096 * pageSize = address % 4096 := by
        rw [show pageSize = 4096 from rfl]
        omega
      simp only [hdown, hp, hoffset, show pageSize - address % 4096 = 4096 - address % 4096 from rfl]
      obtain ⟨k, hk⟩ : ∃ k, k = min remaining.length (4096 - address % 4096) := ⟨_, rfl⟩
      rw [← hk, wrap64_of_lt (by omega)]
      -- the first page, then the rest
      have htake : (remaining.take k).length = k := by
        rw [List.length_take]
        omega
      have hdrop : (remaining.drop k).length = remaining.length - k := List.length_drop
      have hfirst := view_write hown hp (address % 4096) (remaining.take k) (by omega) b.state.phys
      rw [show address / 4096 * 4096 + address % 4096 = address by omega] at hfirst
      obtain ⟨b', hrun, hview⟩ := ih (address + k) (remaining.drop k) (by omega) (by omega)
        (hcovers.mono (by omega) (by omega))
        { b with state.phys :=
            b.state.phys.write (p.physPage + address % 4096) (remaining.take k) }
      refine ⟨b', EStateM.bind_eq_ok.mpr ⟨(), _, rfl, hrun⟩, ?_⟩
      calc pages.view b'.state.phys
          = ((pages.view b.state.phys).overlay address (remaining.take k)).overlay (address + k)
              (remaining.drop k) := by rw [hview, hfirst]
        _ = (pages.view b.state.phys).overlay address (remaining.take k ++ remaining.drop k) := by
            rw [ByteView.overlay_append, htake]
        _ = (pages.view b.state.phys).overlay address remaining := by rw [List.take_append_drop]

theorem copyInto_view (hown : pages.OwnFrames) (address : Nat) (bytes : List UInt8)
    (hlimit : address + bytes.length < u64Limit)
    (hcovers : pages.Covers address (address + bytes.length)) (b : BuilderState) :
    ∃ b', pages.copyInto address bytes b = .ok () b' ∧
      pages.view b'.state.phys = (pages.view b.state.phys).overlay address bytes :=
  copyFrom_view hown _ _ _ le_rfl hlimit hcovers b

end UserPageMap

/-! ## The block -/

/-- Where the strings start, one after the other. -/
def pointersFrom : (cursor : Nat) → (args : List (List UInt8)) → List Nat
  | _, [] => []
  | cursor, arg :: rest => cursor :: pointersFrom (cursor + arg.length + 1) rest

@[simp] theorem length_pointersFrom (cursor : Nat) (args : List (List UInt8)) :
    (pointersFrom cursor args).length = args.length := by
  induction args generalizing cursor with
  | nil => rfl
  | cons arg rest ih => simp [pointersFrom, ih]

/-- The pointer table with its null terminator. -/
def pointerTable (pointers : List Nat) : List UInt8 :=
  (pointers ++ [0]).flatMap fun pointer => ByteMemory.wordBytes pointer 8

theorem length_pointerTable (pointers : List Nat) :
    (pointerTable pointers).length = (pointers.length + 1) * 8 := by
  rw [pointerTable, List.length_flatMap]
  simp [Nat.succ_mul]

theorem stringsSize_cons (arg : List UInt8) (rest : List (List UInt8)) :
    stringsSize (arg :: rest) = arg.length + 1 + stringsSize rest := by
  simp [stringsSize]

/-- The argument loop stores the strings one after the other. -/
theorem writeArguments_view {pages : UserPageMap} (hown : pages.OwnFrames)
    (args : List (List UInt8)) (cursor : Nat) (hlimit : cursor + stringsSize args < u64Limit)
    (hcovers : pages.Covers cursor (cursor + stringsSize args)) (b : BuilderState) :
    ∃ b', writeArguments pages args cursor b = .ok (pointersFrom cursor args) b' ∧
      pages.view b'.state.phys = (pages.view b.state.phys).overlay cursor (payloadOf args) := by
  induction args generalizing cursor b with
  | nil =>
    exact ⟨b, rfl, (ByteView.overlay_nil _ _).symm⟩
  | cons arg rest ih =>
    rw [stringsSize_cons] at hlimit hcovers
    obtain ⟨b₁, hrun₁, hview₁⟩ := UserPageMap.copyInto_view hown cursor arg
      (by omega) (hcovers.mono le_rfl (by omega)) b
    obtain ⟨b₂, hrun₂, hview₂⟩ := UserPageMap.copyInto_view hown (cursor + arg.length) [0]
      (by rw [List.length_singleton]; omega)
      (hcovers.mono (by omega) (by rw [List.length_singleton]; omega)) b₁
    obtain ⟨b₃, hrun₃, hview₃⟩ := ih (cursor + arg.length + 1) (by omega)
      (hcovers.mono (by omega) (by omega)) b₂
    refine ⟨b₃, ?_, ?_⟩
    · rw [writeArguments, EStateM.bind_of_ok hrun₁, EStateM.bind_of_ok hrun₂,
        EStateM.bind_of_ok hrun₃]
      rfl
    · rw [hview₃, hview₂, hview₁, payloadOf_cons, ByteView.overlay_append]
      exact (ByteView.overlay_append _ _ [0] (payloadOf rest)).symm

/-- **What the startup block looks like** to the program. -/
structure StartupBlock (view : ByteView) (layout : StartupLayout) : Prop where
  argc : view.Holds layout.stackStart (ByteMemory.wordBytes layout.argc 8)
  pointers : view.Holds (layout.stackStart + 8)
    (pointerTable (pointersFrom layout.stringsStart layout.args))
  strings : view.Holds layout.stringsStart (payloadOf layout.args)

/-- Writing the startup block is three stores, all into the stack. -/
theorem writeStartupArguments_overlays {pages : UserPageMap} (hown : pages.OwnFrames)
    (hstack : pages.Covers userStackBase userStackTop) {startup : ProgramStartup}
    {layout : StartupLayout} (hlayout : prepareStartupLayout startup = .ok layout)
    (b : BuilderState) :
    ∃ b', writeStartupArguments pages startup b = .ok layout.stackStart b' ∧
      pages.view b'.state.phys =
        (((pages.view b.state.phys).overlay layout.stringsStart (payloadOf layout.args)).overlay
          layout.stackStart (ByteMemory.wordBytes layout.argc 8)).overlay (layout.stackStart + 8)
          (pointerTable (pointersFrom layout.stringsStart layout.args)) := by
  obtain ⟨fields, -, -, -, -, hplaced⟩ := prepareStartupLayout_eq_ok hlayout
  have hstrings := hplaced.strings
  have hbase := hplaced.base
  have hpointers := hplaced.pointers
  rw [← hplaced.args_eq] at hstrings hpointers
  have htop : userStackTop < u64Limit := by decide
  have htable := length_pointerTable (pointersFrom layout.stringsStart layout.args)
  rw [length_pointersFrom] at htable
  have hpayload := length_payloadOf layout.args
  obtain ⟨b₁, hrun₁, hview₁⟩ := writeArguments_view hown layout.args layout.stringsStart
    (by omega) (hstack.mono (by omega) (by omega)) b
  obtain ⟨b₂, hrun₂, hview₂⟩ := UserPageMap.copyInto_view hown layout.stackStart
    (ByteMemory.wordBytes layout.argc 8) (by rw [ByteMemory.length_wordBytes]; omega)
    (hstack.mono (by omega) (by rw [ByteMemory.length_wordBytes]; omega)) b₁
  obtain ⟨b₃, hrun₃, hview₃⟩ := UserPageMap.copyInto_view hown (layout.stackStart + 8)
    (pointerTable (pointersFrom layout.stringsStart layout.args)) (by omega)
    (hstack.mono (by omega) (by omega)) b₂
  refine ⟨b₃, ?_, by rw [hview₃, hview₂, hview₁]⟩
  rw [pointerTable] at hrun₃
  rw [writeStartupArguments, hlayout]
  rw [show liftExcept (.ok layout) = (pure layout : Builder StartupLayout) from rfl, pure_bind,
    EStateM.bind_of_ok hrun₁, EStateM.bind_of_ok hrun₂, EStateM.bind_of_ok hrun₃]
  rfl

/-- **Writing the startup block.** Any page map that has the stack pages, each in
a frame of its own, takes every block that `prepare_startup_layout` accepts. -/
theorem writeStartupArguments_view {pages : UserPageMap} (hown : pages.OwnFrames)
    (hstack : pages.Covers userStackBase userStackTop) {startup : ProgramStartup}
    {layout : StartupLayout} (hlayout : prepareStartupLayout startup = .ok layout)
    (b : BuilderState) :
    ∃ b', writeStartupArguments pages startup b = .ok layout.stackStart b' ∧
      StartupBlock (pages.view b'.state.phys) layout := by
  obtain ⟨fields, -, -, -, -, hplaced⟩ := prepareStartupLayout_eq_ok hlayout
  have hpointers := hplaced.pointers
  rw [← hplaced.args_eq] at hpointers
  have htable := length_pointerTable (pointersFrom layout.stringsStart layout.args)
  rw [length_pointersFrom] at htable
  obtain ⟨b', hrun, hview⟩ := writeStartupArguments_overlays hown hstack hlayout b
  refine ⟨b', hrun, ?_, ?_, ?_⟩
  · rw [hview]
    refine (ByteView.holds_overlay _ _ _).overlay (.inl ?_)
    rw [ByteMemory.length_wordBytes]
  · rw [hview]
    exact ByteView.holds_overlay _ _ _
  · rw [hview]
    refine ((ByteView.holds_overlay _ _ _).overlay (.inr ?_)).overlay (.inr ?_)
    · rw [ByteMemory.length_wordBytes]
      omega
    · omega

/-- Below the stack, writing the startup block changes nothing. -/
theorem writeStartupArguments_below {pages : UserPageMap} (hown : pages.OwnFrames)
    (hstack : pages.Covers userStackBase userStackTop) {startup : ProgramStartup} {top : Nat}
    {b b' : BuilderState} (h : writeStartupArguments pages startup b = .ok top b') {v : Nat}
    (hv : v < userStackBase) : pages.view b'.state.phys v = pages.view b.state.phys v := by
  cases hlayout : prepareStartupLayout startup with
  | error e =>
    rw [writeStartupArguments, hlayout] at h
    cases h
  | ok layout =>
    obtain ⟨b₁, hrun, hview⟩ := writeStartupArguments_overlays hown hstack hlayout b
    rw [hrun] at h
    injection h with _ hstate
    subst hstate
    obtain ⟨fields, -, -, -, -, hplaced⟩ := prepareStartupLayout_eq_ok hlayout
    have hbase := hplaced.base
    have hpointers := hplaced.pointers
    rw [hview, ByteView.overlay, if_neg (by omega), ByteView.overlay, if_neg (by omega),
      ByteView.overlay, if_neg (by omega)]

/-! ## Through the page tables -/

/-- What user mode sees in an address space. -/
def userView (m : ByteMemory) (root : Nat) : ByteView := fun v =>
  (walk m root v).bind fun t => if t.user then some (m.byte t.phys) else none

theorem StartupBlock.mono {view view' : ByteView} {layout : StartupLayout}
    (h : StartupBlock view layout) (hmono : ∀ v x, view v = some x → view' v = some x) :
    StartupBlock view' layout := by
  have hholds : ∀ {a : Nat} {bytes : List UInt8}, view.Holds a bytes → view'.Holds a bytes := by
    intro a bytes hold i hi
    rw [List.getElem?_eq_getElem hi]
    exact hmono _ _ (by rw [hold i hi, List.getElem?_eq_getElem hi])
  exact ⟨hholds h.argc, hholds h.pointers, hholds h.strings⟩

namespace LoadedSpace

variable {s s' : MemoryState} {p : LoadedUserProgram} {fileLen : Nat}
  {headers : List (Except ElfError ProgramHeader)} {placed : List PlacedPage}
  {A₁ A : AddressMap} {tab : Shape} {pages : UserPageMap}

theorem ownFrames (L : LoadedSpace s p s' fileLen headers placed A₁ A tab)
    (hlists : pages.Lists placed) : pages.OwnFrames :=
  hlists.ownFrames L.nodup fun q hq => (L.frames q hq).1

theorem covers_stack (L : LoadedSpace s p s' fileLen headers placed A₁ A tab)
    (hlists : pages.Lists placed) : pages.Covers userStackBase userStackTop :=
  hlists.covers_stack fun n hn => (L.lookup_isSome n).mpr (.inr hn)

/-- User mode sees what the loader put behind its page map. -/
theorem userView_of_view (L : LoadedSpace s p s' fileLen headers placed A₁ A tab)
    (hlists : pages.Lists placed) {v : Nat} {x : UInt8} (h : pages.view s'.phys v = some x) :
    userView s'.phys p.addressSpace.rootPaddr v = some x := by
  rw [UserPageMap.view, hlists.find_eq, Option.map_map, Option.map_eq_some_iff] at h
  obtain ⟨q, hq, rfl⟩ := h
  obtain ⟨t, hwalk, hphys, huser, -⟩ := L.walk_image hq
  rw [userView, hwalk]
  simp [huser, hphys, PlacedPage.entry]

end LoadedSpace

/-- **Every loaded program finds its startup block** at its stack pointer. -/
theorem loadUserProgram_startupBlock {s s' : MemoryState} (hs : ContextOk s) {bytes : List UInt8}
    {startup : ProgramStartup} {p : LoadedUserProgram}
    (h : loadUserProgram bytes startup s = some (.ok p, s')) :
    ∃ layout, prepareStartupLayout startup = .ok layout ∧ p.userStackTop = layout.stackStart ∧
      StartupBlock (userView s'.phys p.addressSpace.rootPaddr) layout := by
  cases helf : ElfImage.parse bytes with
  | error e =>
    rw [loadUserProgram, helf] at h
    cases h
  | ok elf =>
    obtain ⟨placed, A₁, A, tab, L, pages, b₁, b₂, hlists, hargs, rfl⟩ :=
      loadUserProgram_stages hs helf h
    cases hlayout : prepareStartupLayout startup with
    | error e =>
      rw [writeStartupArguments, hlayout] at hargs
      cases hargs
    | ok layout =>
      obtain ⟨b₃, hrun, hblock⟩ := writeStartupArguments_view (L.ownFrames hlists)
        (L.covers_stack hlists) hlayout b₁
      rw [hrun] at hargs
      injection hargs with htop hstate
      subst hstate
      exact ⟨layout, rfl, htop.symm, hblock.mono fun v x => L.userView_of_view hlists⟩

end Lazers.Memory
