import Lazers.Memory.StartupBlock
import Mathlib.Data.Set.List

/-!
# Program start in userland (`liblazer/src/runtime.rs`)

`_start` passes the stack pointer to `__liblazer_initialize`, which finds `argc`
there and the pointer table above it; `Args` then walks the table and scans each
string for its NUL. The kernel's loader and this reader share no code, only the
layout of the block.

`startup_arguments_arrive` is the round trip: whatever `prepare_startup_layout`
accepts is read back, in order and to the end.
-/

namespace Lazers.LibLazer

open Memory

structure StartupArgs where
  argc : Nat
  argv : Nat
deriving DecidableEq, Repr

/-- Iterator over the current process arguments. -/
structure Args where
  index : Nat
  argc : Nat
  argv : Nat
deriving DecidableEq, Repr

/-- `__liblazer_initialize`; `none` is a fault. -/
def liblazerInitialize (view : ByteView) (stackTop : Nat) : Option StartupArgs := do
  let argc ← view.readWord stackTop 8
  return { argc, argv := stackTop + 8 }

/-- `args`. -/
def args (startup : StartupArgs) : Args :=
  { index := 0, argc := startup.argc, argv := startup.argv }

/-- The loop of `c_string_len`. It has no bound of its own: `none` is a fault or
that `rounds` bytes held no NUL. -/
def cStringLen (view : ByteView) (pointer : Nat) : (rounds length : Nat) → Option Nat
  | 0, _ => none
  | rounds + 1, length => do
    let byte ← view (pointer + length)
    if byte = 0 then return length
    else cStringLen view pointer rounds (length + 1)

/-- `Args::next`: the value returned, if there is one, and the iterator after. -/
def Args.next (view : ByteView) (rounds : Nat) (it : Args) : Option (Option String × Args) :=
  if it.index ≥ it.argc then return (none, it)
  else do
    let pointer ← view.readWord (it.argv + 8 * it.index) 8
    let length ← cStringLen view pointer rounds 0
    let bytes ← view.readBytes pointer length
    match fromUtf8 bytes with
    | none => return (none, it)
    | some value => return (some value, { it with index := it.index + 1 })

/-- What a loop over the iterator collects before the first `None`, in at most
`calls` calls of `next`. -/
def Args.collect (view : ByteView) (rounds : Nat) : (calls : Nat) → Args → Option (List String)
  | 0, _ => none
  | calls + 1, it => do
    match ← it.next view rounds with
    | (none, _) => return []
    | (some value, it) =>
      let rest ← Args.collect view rounds calls it
      return value :: rest

/-! ## Reading the block -/

/-- The scan stops at the end of a NUL-free string. -/
theorem cStringLen_eq {view : ByteView} {pointer rounds : Nat} (length : Nat) {bytes : List UInt8}
    (hholds : view.Holds (pointer + length) (bytes ++ [0])) (hnul : 0 ∉ bytes)
    (hrounds : bytes.length < rounds) :
    cStringLen view pointer rounds length = some (length + bytes.length) := by
  induction rounds generalizing length bytes with
  | zero => exact absurd hrounds (Nat.not_lt_zero _)
  | succ rounds ih =>
    rw [cStringLen]
    cases bytes with
    | nil =>
      rw [List.nil_append, ByteView.holds_cons] at hholds
      simp [hholds.1]
    | cons x xs =>
      rw [List.cons_append, ByteView.holds_cons] at hholds
      have hx : x ≠ 0 := fun heq => hnul (heq ▸ List.mem_cons_self)
      have hxs : 0 ∉ xs := fun hmem => hnul (List.mem_cons_of_mem _ hmem)
      have hrest := ih (length + 1) hholds.2 hxs
        (by rw [List.length_cons] at hrounds; omega)
      rw [hholds.1]
      simp only [Option.bind_eq_bind, Option.bind_some, hx, if_false, hrest, List.length_cons]
      congr 1
      omega

/-- One argument. -/
theorem Args.next_eq {view : ByteView} (rounds : Nat) {it : Args} {pointer : Nat} {value : String}
    (hindex : it.index < it.argc) (hpointer : pointer < 2 ^ 64)
    (hword : view.Holds (it.argv + 8 * it.index) (ByteMemory.wordBytes pointer 8))
    (hstring : view.Holds pointer (strBytes value ++ [0])) (hnul : 0 ∉ strBytes value)
    (hrounds : (strBytes value).length < rounds) :
    it.next view rounds = some (some value, { it with index := it.index + 1 }) := by
  have hlen : cStringLen view pointer rounds 0 = some (strBytes value).length := by
    have h := cStringLen_eq 0 hstring hnul hrounds
    rwa [Nat.zero_add] at h
  have hbytes := (ByteView.holds_append.mp hstring).1.readBytes
  rw [Args.next, if_neg (by omega), hword.readWord hpointer]
  simp only [Option.bind_eq_bind, Option.bind_some, hlen, hbytes, fromUtf8_strBytes]
  rfl

/-- The whole table, from any index on. -/
theorem Args.collect_eq {view : ByteView} {rounds : Nat} {values : List String} (calls : Nat)
    (it : Args) (cursor : Nat) (hcount : it.index + values.length = it.argc) (hcalls : values.length < calls)
    (htable : view.Holds (it.argv + 8 * it.index)
      (pointerTable (pointersFrom cursor (values.map strBytes))))
    (hstrings : view.Holds cursor (payloadOf (values.map strBytes)))
    (hnul : ∀ value ∈ values, 0 ∉ strBytes value)
    (hend : cursor + stringsSize (values.map strBytes) ≤ 2 ^ 64)
    (hrounds : stringsSize (values.map strBytes) ≤ rounds) :
    it.collect view rounds calls = some values := by
  induction values generalizing it cursor calls with
  | nil =>
    obtain ⟨calls, rfl⟩ : ∃ c, calls = c + 1 := ⟨calls - 1, by simp at hcalls; omega⟩
    rw [List.length_nil, Nat.add_zero] at hcount
    rw [Args.collect, Args.next, if_pos (by omega)]
    rfl
  | cons value rest ih =>
    obtain ⟨calls, rfl⟩ : ∃ c, calls = c + 1 := ⟨calls - 1, by omega⟩
    rw [List.length_cons] at hcount hcalls
    rw [List.map_cons] at htable hstrings hend hrounds
    rw [stringsSize_cons] at hend hrounds
    -- the first pointer and the first string
    have hsplit : pointerTable (pointersFrom cursor (strBytes value :: rest.map strBytes)) =
        ByteMemory.wordBytes cursor 8 ++ pointerTable
          (pointersFrom (cursor + (strBytes value).length + 1) (rest.map strBytes)) := by
      simp [pointerTable, pointersFrom]
    rw [hsplit, ByteView.holds_append, ByteMemory.length_wordBytes] at htable
    have hpayload : payloadOf (strBytes value :: rest.map strBytes) =
        (strBytes value ++ [0]) ++ payloadOf (rest.map strBytes) := by
      simp [payloadOf]
    rw [hpayload, ByteView.holds_append, List.length_append, List.length_singleton] at hstrings
    have hnext := Args.next_eq rounds (by omega) (by omega) htable.1 hstrings.1
      (hnul value List.mem_cons_self) (by omega)
    have hrest := ih calls { it with index := it.index + 1 }
      (cursor + (strBytes value).length + 1) (by dsimp only; omega) (by omega)
      (by
        have h := htable.2
        dsimp only
        rwa [Nat.mul_succ, ← Nat.add_assoc])
      hstrings.2 (fun v hv => hnul v (List.mem_cons_of_mem _ hv)) (by omega) (by omega)
    rw [Args.collect, hnext]
    simp only [Option.bind_eq_bind, Option.bind_some, hrest]
    rfl

/-! ## The round trip -/

/-- The NUL-separated fields of an argument block. -/
def argvFields (argvTail : List UInt8) : List (List UInt8) := (argvTail.splitOn 0).dropLast

theorem argvFields_payloadOf {fields : List (List UInt8)} (hnul : ∀ f ∈ fields, 0 ∉ f) :
    argvFields (payloadOf fields) = fields := by
  have hsplit : (payloadOf fields).splitOn 0 = fields ++ [[]] := by
    induction fields with
    | nil => rfl
    | cons field rest ih =>
      rw [payloadOf_cons, List.splitOn_append_cons_self,
        List.splitOn_eq_singleton (hnul field List.mem_cons_self),
        ih fun f hf => hnul f (List.mem_cons_of_mem _ hf)]
      rfl
  rw [argvFields, hsplit, List.dropLast_concat]

/-- The places of the startup block: `argc`, the pointer table, each string. -/
def startupRanges (layout : StartupLayout) : List (Nat × Nat) :=
  (layout.stackStart, 8) :: (layout.stackStart + 8, (layout.argc + 1) * 8) ::
    (pointersFrom layout.stringsStart layout.args).zip
      (layout.args.map fun arg => arg.length + 1)

theorem pointersFrom_ordered (cursor : Nat) (fields : List (List UInt8)) :
    ((pointersFrom cursor fields).zip (fields.map fun f => f.length + 1)).Pairwise
        (fun r r' => r.1 + r.2 ≤ r'.1) ∧
      ∀ r ∈ (pointersFrom cursor fields).zip (fields.map fun f => f.length + 1),
        cursor ≤ r.1 ∧ r.1 + r.2 ≤ cursor + stringsSize fields := by
  induction fields generalizing cursor with
  | nil => simp [pointersFrom]
  | cons field rest ih =>
    obtain ⟨hordered, hbounds⟩ := ih (cursor + field.length + 1)
    rw [pointersFrom, List.map_cons, List.zip_cons_cons, stringsSize_cons]
    constructor
    · refine List.pairwise_cons.mpr ⟨fun r hr => ?_, hordered⟩
      exact (hbounds r hr).1
    · intro r hr
      rcases List.mem_cons.mp hr with rfl | hr
      · dsimp only
        omega
      · have hr := hbounds r hr
        omega

/-- The places do not overlap and lie on the stack. -/
theorem startupRanges_ordered {startup : ProgramStartup} {layout : StartupLayout}
    (hlayout : prepareStartupLayout startup = .ok layout) :
    (startupRanges layout).Pairwise (fun r r' => r.1 + r.2 ≤ r'.1) ∧
      ∀ r ∈ startupRanges layout, userStackBase ≤ r.1 ∧ r.1 + r.2 ≤ userStackTop := by
  obtain ⟨fields, -, -, -, -, hplaced⟩ := prepareStartupLayout_eq_ok hlayout
  have hbase := hplaced.base
  have hstrings := hplaced.strings
  have hpointers := hplaced.pointers
  rw [← hplaced.args_eq] at hstrings hpointers
  obtain ⟨hordered, hbounds⟩ := pointersFrom_ordered layout.stringsStart layout.args
  rw [startupRanges, StartupLayout.argc]
  constructor
  · refine List.pairwise_cons.mpr ⟨fun r hr => ?_, List.pairwise_cons.mpr ⟨fun r hr => ?_, hordered⟩⟩
    · rcases List.mem_cons.mp hr with rfl | hr
      · exact le_rfl
      · have hr := hbounds r hr
        dsimp only
        omega
    · have hr := hbounds r hr
      dsimp only
      omega
  · intro r hr
    rcases List.mem_cons.mp hr with rfl | hr
    · dsimp only
      omega
    · rcases List.mem_cons.mp hr with rfl | hr
      · dsimp only
        omega
      · have hr := hbounds r hr
        omega

/-- **liblazer reads the block back.** `rounds` bounds the scan of one string. -/
theorem startupBlock_read {startup : ProgramStartup} {layout : StartupLayout}
    (hlayout : prepareStartupLayout startup = .ok layout) {view : ByteView}
    (hblock : StartupBlock view layout) :
    ∃ startupArgs fields, liblazerInitialize view layout.stackStart = some startupArgs ∧
      fields.map strBytes = argvFields startup.argvTail ∧
      ∀ rounds calls, userStackPages * pageSize ≤ rounds → fields.length + 1 < calls →
        (args startupArgs).collect view rounds calls = some (startup.argv0 :: fields) := by
  obtain ⟨fields, htail, hfields, hargv0, hcount, hplaced⟩ := prepareStartupLayout_eq_ok hlayout
  have hargs := hplaced.args_eq
  have hstrings := hplaced.strings
  have hbase := hplaced.base
  have hpointers := hplaced.pointers
  -- every field is the bytes of a string
  obtain ⟨values, rfl⟩ : fields ∈ Set.range (List.map strBytes) := by
    rw [Set.range_list_map]
    exact fun f hf => isUtf8_eq_true.mp (hfields f hf).utf8
  have hnul : ∀ value ∈ startup.argv0 :: values, 0 ∉ strBytes value := by
    intro value hvalue
    rcases List.mem_cons.mp hvalue with rfl | hvalue
    · exact hargv0
    · exact (hfields _ (List.mem_map_of_mem hvalue)).noNul
  have hmap : (startup.argv0 :: values).map strBytes = layout.args := by
    rw [hargs, List.map_cons]
  have hargc : layout.argc = values.length + 1 := by
    rw [StartupLayout.argc, hargs, List.length_cons, List.length_map]
  rw [List.length_map, maxStartupArgs] at hcount
  rw [← hargs] at hstrings
  have hlimit : layout.argc < 2 ^ 64 := by omega
  refine ⟨⟨layout.argc, layout.stackStart + 8⟩, values, ?_, ?_, fun rounds calls hrounds hcalls => ?_⟩
  · rw [liblazerInitialize, hblock.argc.readWord hlimit]
    rfl
  · rw [htail]
    exact (argvFields_payloadOf fun f hf => (hfields f hf).noNul).symm
  · refine Args.collect_eq calls _ layout.stringsStart ?_ ?_ ?_ ?_ hnul ?_ ?_
    · rw [args, List.length_cons, hargc, Nat.zero_add]
    · exact hcalls
    · rw [hmap]
      exact hblock.pointers
    · rw [hmap]
      exact hblock.strings
    · rw [hmap, hstrings]
      decide
    · rw [hmap]
      simp only [userStackTop, userStackBase, userStackPages, pageSize] at *
      omega

/-- **The startup block round trip.** For every startup data that
`prepare_startup_layout` accepts and every page map with the stack pages, each in
a frame of its own, `write_startup_arguments` returns a 16-byte aligned stack
pointer, keeps `argc`, the table and the strings apart on the stack, and liblazer
reads back the program name and every field of `argv_tail`. -/
theorem startup_arguments_arrive {pages : UserPageMap} (hown : pages.OwnFrames)
    (hstack : pages.Covers userStackBase userStackTop) {startup : ProgramStartup}
    {layout : StartupLayout} (hlayout : prepareStartupLayout startup = .ok layout)
    (b : BuilderState) :
    ∃ b', writeStartupArguments pages startup b = .ok layout.stackStart b' ∧
      layout.stackStart % 16 = 0 ∧
      (startupRanges layout).Pairwise (fun r r' => r.1 + r.2 ≤ r'.1) ∧
      (∀ r ∈ startupRanges layout, userStackBase ≤ r.1 ∧ r.1 + r.2 ≤ userStackTop) ∧
      StartupBlock (pages.view b'.state.phys) layout ∧
      ∃ startupArgs fields,
        liblazerInitialize (pages.view b'.state.phys) layout.stackStart = some startupArgs ∧
        fields.map strBytes = argvFields startup.argvTail ∧
        ∀ rounds calls, userStackPages * pageSize ≤ rounds → fields.length + 1 < calls →
          (args startupArgs).collect (pages.view b'.state.phys) rounds calls =
            some (startup.argv0 :: fields) := by
  obtain ⟨b', hrun, hblock⟩ := writeStartupArguments_view hown hstack hlayout b
  obtain ⟨hordered, hinside⟩ := startupRanges_ordered hlayout
  obtain ⟨_, -, -, -, -, hplaced⟩ := prepareStartupLayout_eq_ok hlayout
  exact ⟨b', hrun, hplaced.aligned, hordered, hinside, hblock, startupBlock_read hlayout hblock⟩

/-- A page map with the stack alone. -/
def stackOnly : UserPageMap where
  pages := Vector.ofFn fun i =>
    if i.val < userStackPages then
      some { virtPage := userStackBase + i.val * pageSize, physPage := 0x1000000 + i.val * pageSize }
    else none

def stackOnlyPlaced : List PlacedPage :=
  (List.range userStackPages).map fun i =>
    { page := userStackBase / 4096 + i, frame := 0x1000000 + i * pageSize, flags := 7 }

def sampleStartup : ProgramStartup :=
  { argv0 := "/system/bin/echo", argvTail := [97, 0, 98, 99, 0] }

theorem startup_arguments_arrive_at_sample :
    ∃ (layout : StartupLayout) (b' : BuilderState) (startupArgs : StartupArgs),
      writeStartupArguments stackOnly sampleStartup
        { state := .new ⟨fun _ => 0, []⟩, ownedPages := none } = .ok layout.stackStart b' ∧
      layout.stackStart % 16 = 0 ∧
      liblazerInitialize (stackOnly.view b'.state.phys) layout.stackStart = some startupArgs ∧
      (args startupArgs).collect (stackOnly.view b'.state.phys) 65536 4 =
        some ["/system/bin/echo", "a", "bc"] := by
  have hlists : stackOnly.Lists stackOnlyPlaced := by
    rw [UserPageMap.Lists]
    decide +kernel
  have hown : stackOnly.OwnFrames := hlists.ownFrames (by decide +kernel) (by decide +kernel)
  have hcovers : stackOnly.Covers userStackBase userStackTop := by
    have hall : ∀ n < userStackTop / 4096, userStackBase / 4096 ≤ n →
        (lookupPlaced stackOnlyPlaced n).isSome = true := by decide +kernel
    exact hlists.covers_stack fun n hn => hall n hn.2 hn.1
  have hlayout : ∃ layout, prepareStartupLayout sampleStartup = .ok layout := by
    cases h : prepareStartupLayout sampleStartup with
    | ok layout => exact ⟨layout, rfl⟩
    | error e =>
      have hok : (prepareStartupLayout sampleStartup).isOk = true := by decide +kernel
      rw [h] at hok
      cases hok
  obtain ⟨layout, hlayout⟩ := hlayout
  obtain ⟨b', hrun, haligned, -, -, -, startupArgs, fields, hinit, hfields, hcollect⟩ :=
    startup_arguments_arrive hown hcovers hlayout
      { state := .new ⟨fun _ => 0, []⟩, ownedPages := none }
  have hsplit : argvFields sampleStartup.argvTail = ["a", "bc"].map strBytes := by decide +kernel
  obtain rfl : fields = ["a", "bc"] :=
    List.map_injective_iff.mpr (fun _ _ h => strBytes_inj.mp h) (hfields.trans hsplit)
  exact ⟨layout, b', startupArgs, hrun, haligned, hinit, hcollect 65536 4 (by decide) (by decide)⟩

/-- **Every loaded program starts with its arguments.** -/
theorem loadUserProgram_arguments {s s' : MemoryState} (hs : ContextOk s) {bytes : List UInt8}
    {startup : ProgramStartup} {p : LoadedUserProgram}
    (h : loadUserProgram bytes startup s = some (.ok p, s')) :
    ∃ startupArgs fields,
      liblazerInitialize (userView s'.phys p.addressSpace.rootPaddr) p.userStackTop =
        some startupArgs ∧
      fields.map strBytes = argvFields startup.argvTail ∧
      ∀ rounds calls, userStackPages * pageSize ≤ rounds → fields.length + 1 < calls →
        (args startupArgs).collect (userView s'.phys p.addressSpace.rootPaddr) rounds calls =
          some (startup.argv0 :: fields) := by
  obtain ⟨layout, hlayout, htop, hblock⟩ := loadUserProgram_startupBlock hs h
  rw [htop]
  exact startupBlock_read hlayout hblock

end Lazers.LibLazer
