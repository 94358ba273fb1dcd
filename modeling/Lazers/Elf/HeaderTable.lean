import Lazers.Elf

/-!
# The program header table

`ElfHeader.parse` bounds the table once, `ProgramHeaderIter::next` computes with checked
arithmetic and a checked slice at every item, and would end the iteration without a word where one
of these fails. Here the iterator has its state (`ProgramHeaderIter`), and the parser its
indexing (`ElfHeader.parseIndexed`), where `none` is a panic.

`program_headers_exact`: no index is out of bounds, whatever the bytes; and in a file that was
accepted none of the silent exits is ever taken.
-/

namespace Lazers.Elf

/-! ## The parser, with its indexing -/

/-- `read_le_u16` and its kin: the word in `bytes[offset..offset + n]`. -/
def readIndexed (bytes : List UInt8) (offset n : Nat) : Option Nat :=
  (sliceGet bytes offset (offset + n)).map fun word => readLe word 0 n

/-- `bytes[index]`. -/
def byteAt (bytes : List UInt8) (index : Nat) : Option UInt8 := bytes[index]?

/-- `ElfHeader::parse`, where an index out of bounds is `none`. -/
def ElfHeader.parseIndexed (bytes : List UInt8) : ExceptT ElfError Option ElfHeader := do
  if bytes.length < elfHeaderSize then throw .headerTooSmall
  if (← sliceGet bytes 0 4) ≠ elfMagic then throw .invalidMagic
  if (← byteAt bytes 4) ≠ elfClass64 then throw .unsupportedClass
  if (← byteAt bytes 5) ≠ elfDataLe then throw .unsupportedEncoding
  if (← byteAt bytes 6) ≠ 1 then throw .unsupportedVersion
  if (← readIndexed bytes 16 2) ≠ elfTypeExecutable then throw .unsupportedType
  if (← readIndexed bytes 18 2) ≠ elfMachineX86_64 then throw .unsupportedMachine
  if (← readIndexed bytes 20 4) ≠ 1 then throw .unsupportedVersion
  let programHeaderOffset ← readIndexed bytes 32 8
  let programHeaderEntrySize ← readIndexed bytes 54 2
  let programHeaderCount ← readIndexed bytes 56 2
  let some tableSize := checkedMul programHeaderEntrySize programHeaderCount
    | throw .addressOutOfRange
  let some tableEnd := checkedAdd programHeaderOffset tableSize
    | throw .addressOutOfRange
  if tableEnd > bytes.length then throw .programHeaderTableOutOfRange
  let entry ← readIndexed bytes 24 8
  return { entry, programHeaderOffset, programHeaderEntrySize, programHeaderCount }

/-- `ProgramHeader::parse`, likewise. -/
def ProgramHeader.parseIndexed (bytes : List UInt8) : ExceptT ElfError Option ProgramHeader := do
  if bytes.length < elfProgramHeaderSize then throw .programHeaderTruncated
  return {
    kind := ← readIndexed bytes 0 4
    flags := ← readIndexed bytes 4 4
    offset := ← readIndexed bytes 8 8
    virtualAddress := ← readIndexed bytes 16 8
    physicalAddress := ← readIndexed bytes 24 8
    fileSize := ← readIndexed bytes 32 8
    memorySize := ← readIndexed bytes 40 8 }

theorem sliceGet_of_le {bytes : List UInt8} {start stop : Nat} (h : start ≤ stop)
    (hstop : stop ≤ bytes.length) :
    sliceGet bytes start stop = some ((bytes.drop start).take (stop - start)) := by
  rw [sliceGet, if_pos ⟨h, hstop⟩]

theorem readIndexed_of_le {bytes : List UInt8} {offset n : Nat} (h : offset + n ≤ bytes.length) :
    readIndexed bytes offset n = some (readLe bytes offset n) := by
  rw [readIndexed, sliceGet_of_le (Nat.le_add_right _ _) h, Option.map_some,
    readLe_slice bytes offset _ (by omega), Nat.add_zero]

section

variable {α β : Type}

/-- A check comes to the same in both. -/
theorem run_check {c : Prop} [Decidable c] {e : ElfError} {x : ExceptT ElfError Option α}
    {y : Except ElfError α} (h : ¬ c → x.run = some y) :
    ExceptT.run (do
      if c then throw e
      x) = some (do
      if c then throw e
      y) := by
  by_cases hc : c
  · dsimp only
    rw [if_pos hc, if_pos hc]
    rfl
  · dsimp only
    rw [if_neg hc, if_neg hc]
    exact h hc

/-- A read in bounds. -/
theorem run_read {a : α} {r : Option α} {f : α → ExceptT ElfError Option β}
    {y : Except ElfError β} (hr : r = some a) (h : (f a).run = some y) :
    (liftM r >>= f).run = some y := by
  subst hr
  exact h

end

/-- **No index is out of bounds.** -/
theorem ElfHeader.parseIndexed_eq (bytes : List UInt8) :
    (ElfHeader.parseIndexed bytes).run = some (ElfHeader.parse bytes) := by
  refine run_check fun hsmall => ?_
  have hlen : 64 ≤ bytes.length := Nat.not_lt.mp hsmall
  have hbyte : ∀ i < 64, byteAt bytes i = some (bytes.getD i 0) := by
    intro i hi
    rw [byteAt, List.getElem?_eq_getElem (by omega), List.getD_eq_getElem]
  have hword2 : ∀ i ≤ 62, readIndexed bytes i 2 = some (readLeU16 bytes i) :=
    fun i hi => readIndexed_of_le (by omega)
  have hword4 : ∀ i ≤ 60, readIndexed bytes i 4 = some (readLeU32 bytes i) :=
    fun i hi => readIndexed_of_le (by omega)
  have hword8 : ∀ i ≤ 56, readIndexed bytes i 8 = some (readLeU64 bytes i) :=
    fun i hi => readIndexed_of_le (by omega)
  have hmagic : sliceGet bytes 0 4 = some (bytes.take 4) := sliceGet_of_le (by omega) (by omega)
  refine run_read hmagic ?_
  refine run_check fun _ => ?_
  refine run_read (hbyte 4 (by omega)) ?_
  refine run_check fun _ => ?_
  refine run_read (hbyte 5 (by omega)) ?_
  refine run_check fun _ => ?_
  refine run_read (hbyte 6 (by omega)) ?_
  refine run_check fun _ => ?_
  refine run_read (hword2 16 (by omega)) ?_
  refine run_check fun _ => ?_
  refine run_read (hword2 18 (by omega)) ?_
  refine run_check fun _ => ?_
  refine run_read (hword4 20 (by omega)) ?_
  refine run_check fun _ => ?_
  refine run_read (hword8 32 (by omega)) ?_
  refine run_read (hword2 54 (by omega)) ?_
  refine run_read (hword2 56 (by omega)) ?_
  cases checkedMul (readLeU16 bytes 54) (readLeU16 bytes 56) with
  | none => rfl
  | some tableSize =>
    dsimp only
    cases checkedAdd (readLeU64 bytes 32) tableSize with
    | none => rfl
    | some tableEnd =>
      refine run_check fun _ => ?_
      exact run_read (hword8 24 (by omega)) rfl

theorem ProgramHeader.parseIndexed_eq (bytes : List UInt8) :
    (ProgramHeader.parseIndexed bytes).run = some (ProgramHeader.parse bytes) := by
  rw [ProgramHeader.parse]
  by_cases hsmall : bytes.length < elfProgramHeaderSize
  · rw [ProgramHeader.parseIndexed, if_pos hsmall, if_pos hsmall]
    rfl
  · have hlen : 56 ≤ bytes.length := Nat.not_lt.mp hsmall
    have hword4 : ∀ i ≤ 52, readIndexed bytes i 4 = some (readLeU32 bytes i) :=
      fun i hi => readIndexed_of_le (by omega)
    have hword8 : ∀ i ≤ 48, readIndexed bytes i 8 = some (readLeU64 bytes i) :=
      fun i hi => readIndexed_of_le (by omega)
    rw [ProgramHeader.parseIndexed, if_neg hsmall, if_neg hsmall, hword4 0 (by omega),
      hword4 4 (by omega), hword8 8 (by omega), hword8 16 (by omega), hword8 24 (by omega),
      hword8 32 (by omega), hword8 40 (by omega)]
    rfl

/-! ## What was accepted -/

theorem ok_of_check {α : Type} {c : Prop} [Decidable c] {e : ElfError} {y : Except ElfError α}
    {a : α} (h : (do
      if c then throw e
      y) = .ok a) : ¬ c ∧ y = .ok a := by
  by_cases hc : c
  · dsimp only at h
    rw [if_pos hc] at h
    cases h
  · dsimp only at h
    rw [if_neg hc] at h
    exact ⟨hc, h⟩

/-- **The table of an accepted file** lies in the file. -/
theorem ElfHeader.parse_eq_ok {bytes : List UInt8} {header : ElfHeader}
    (h : ElfHeader.parse bytes = .ok header) :
    header.programHeaderOffset = readLeU64 bytes 32 ∧
      header.programHeaderEntrySize = readLeU16 bytes 54 ∧
      header.programHeaderCount = readLeU16 bytes 56 ∧
      header.programHeaderOffset + header.programHeaderEntrySize * header.programHeaderCount ≤
        bytes.length ∧
      header.programHeaderOffset + header.programHeaderEntrySize * header.programHeaderCount <
        u64Limit := by
  obtain ⟨-, h⟩ := ok_of_check h
  obtain ⟨-, h⟩ := ok_of_check h
  obtain ⟨-, h⟩ := ok_of_check h
  obtain ⟨-, h⟩ := ok_of_check h
  obtain ⟨-, h⟩ := ok_of_check h
  obtain ⟨-, h⟩ := ok_of_check h
  obtain ⟨-, h⟩ := ok_of_check h
  obtain ⟨-, h⟩ := ok_of_check h
  cases hsize : checkedMul (readLeU16 bytes 54) (readLeU16 bytes 56) with
  | none =>
    rw [hsize] at h
    cases h
  | some tableSize =>
    rw [hsize] at h
    dsimp only at h
    cases hend : checkedAdd (readLeU64 bytes 32) tableSize with
    | none =>
      rw [hend] at h
      cases h
    | some tableEnd =>
      rw [hend] at h
      obtain ⟨hinside, h⟩ := ok_of_check h
      obtain rfl := Except.ok.inj h
      obtain ⟨-, rfl⟩ := checkedMul_eq_some.mp hsize
      obtain ⟨hlimit, rfl⟩ := checkedAdd_eq_some.mp hend
      exact ⟨rfl, rfl, rfl, Nat.not_lt.mp hinside, hlimit⟩

/-! ## The iterator -/

/-- `ProgramHeaderIter`; its `next` is the index of the item to come. -/
structure ProgramHeaderIter where
  bytes : List UInt8
  nextIndex : Nat
  count : Nat
  tableOffset : Nat
  entrySize : Nat

/-- `ElfImage::program_headers`. -/
def ElfImage.programHeaderIter (elf : ElfImage) : ProgramHeaderIter where
  bytes := elf.bytes
  nextIndex := 0
  count := elf.header.programHeaderCount
  tableOffset := elf.header.programHeaderOffset
  entrySize := elf.header.programHeaderEntrySize

/-- `ProgramHeaderIter::next`. -/
def ProgramHeaderIter.next (it : ProgramHeaderIter) :
    Option (Except ElfError ProgramHeader) × ProgramHeaderIter :=
  if it.nextIndex ≥ it.count then (none, it)
  else
    let index := it.nextIndex
    let item := do
      let relative ← checkedMul index it.entrySize
      let offset ← checkedAdd it.tableOffset relative
      let stop ← checkedAdd offset it.entrySize
      let bytes ← sliceGet it.bytes offset stop
      return ProgramHeader.parse bytes
    (item, { it with nextIndex := it.nextIndex + 1 })

/-- What a loop over the iterator gets to see: the items up to the first `None`. -/
def ProgramHeaderIter.items : (rounds : Nat) → ProgramHeaderIter →
    List (Except ElfError ProgramHeader)
  | 0, _ => []
  | rounds + 1, it =>
    match it.next with
    | (none, _) => []
    | (some item, it) => item :: it.items rounds

/-- The program header at an offset of the file. -/
def headerAt (bytes : List UInt8) (offset : Nat) : ProgramHeader where
  kind := readLeU32 bytes offset
  flags := readLeU32 bytes (offset + 4)
  offset := readLeU64 bytes (offset + 8)
  virtualAddress := readLeU64 bytes (offset + 16)
  physicalAddress := readLeU64 bytes (offset + 24)
  fileSize := readLeU64 bytes (offset + 32)
  memorySize := readLeU64 bytes (offset + 40)

/-- `ProgramHeader::parse` of a part of the file. -/
theorem parse_slice {bytes : List UInt8} {offset len : Nat} (h : offset + len ≤ bytes.length) :
    ProgramHeader.parse ((bytes.drop offset).take len) =
      if 56 ≤ len then .ok (headerAt bytes offset) else .error .programHeaderTruncated := by
  have hlen : ((bytes.drop offset).take len).length = len := by
    rw [List.length_take, List.length_drop]
    omega
  have hsize : elfProgramHeaderSize = 56 := rfl
  rw [ProgramHeader.parse, hlen, hsize]
  by_cases hlong : 56 ≤ len
  · have hword : ∀ i n, i + n ≤ 56 →
        readLe ((bytes.drop offset).take len) i n = readLe bytes (offset + i) n :=
      fun i n hi => readLe_slice bytes offset len (hi.trans hlong)
    rw [if_neg (by omega), if_pos hlong, headerAt]
    simp only [readLeU32, readLeU64, hword 0 4 (by omega), hword 4 4 (by omega),
      hword 8 8 (by omega), hword 16 8 (by omega), hword 24 8 (by omega), hword 32 8 (by omega),
      hword 40 8 (by omega), Nat.add_zero]
  · rw [if_pos (by omega), if_neg hlong]

namespace ProgramHeaderIter

/-- **The table the iterator is over** lies in the file, and its end is a `u64`. -/
structure InFile (it : ProgramHeaderIter) : Prop where
  inside : it.tableOffset + it.entrySize * it.count ≤ it.bytes.length
  limit : it.tableOffset + it.entrySize * it.count < u64Limit

/-- The item for an entry of the table. -/
def itemAt (it : ProgramHeaderIter) (index : Nat) : Except ElfError ProgramHeader :=
  if 56 ≤ it.entrySize then .ok (headerAt it.bytes (it.tableOffset + index * it.entrySize))
  else .error .programHeaderTruncated

variable {it : ProgramHeaderIter}

/-- An entry of the table lies in the table. -/
theorem entry_le {index : Nat} (h : index < it.count) :
    it.tableOffset + index * it.entrySize + it.entrySize ≤
      it.tableOffset + it.entrySize * it.count := by
  have hmul : (index + 1) * it.entrySize ≤ it.count * it.entrySize := Nat.mul_le_mul_right _ h
  rw [Nat.succ_mul, Nat.mul_comm it.count] at hmul
  omega

/-- **One step**: none of the checks fails before the last entry. -/
theorem InFile.next_eq (h : it.InFile) (hindex : it.nextIndex < it.count) :
    it.next = (some (it.itemAt it.nextIndex), { it with nextIndex := it.nextIndex + 1 }) := by
  have hentry := entry_le hindex
  have hinside := hentry.trans h.inside
  have hlimit := hentry.trans_lt h.limit
  have hmul : checkedMul it.nextIndex it.entrySize = some (it.nextIndex * it.entrySize) :=
    checkedMul_eq_some.mpr ⟨by omega, rfl⟩
  have hadd : checkedAdd it.tableOffset (it.nextIndex * it.entrySize) =
      some (it.tableOffset + it.nextIndex * it.entrySize) :=
    checkedAdd_eq_some.mpr ⟨by omega, rfl⟩
  have hstop : checkedAdd (it.tableOffset + it.nextIndex * it.entrySize) it.entrySize =
      some (it.tableOffset + it.nextIndex * it.entrySize + it.entrySize) :=
    checkedAdd_eq_some.mpr ⟨by omega, rfl⟩
  have hslice := sliceGet_of_le (Nat.le_add_right _ _) hinside
  rw [Nat.add_sub_cancel_left] at hslice
  rw [next, if_neg (by omega)]
  simp only [hmul, hadd, hstop, hslice, Option.bind_eq_bind, Option.bind_some, Option.pure_def,
    parse_slice hinside, itemAt]

theorem InFile.step (h : it.InFile) : InFile { it with nextIndex := it.nextIndex + 1 } :=
  ⟨h.inside, h.limit⟩

/-- **The whole run**: every entry of the table, and then no more. -/
theorem InFile.items_eq (h : it.InFile) {rounds : Nat} (hrounds : it.count < it.nextIndex + rounds) :
    it.items rounds =
      (List.range' it.nextIndex (it.count - it.nextIndex)).map it.itemAt := by
  induction rounds generalizing it with
  | zero => rw [Nat.sub_eq_zero_of_le (by omega), List.range'_zero, items, List.map_nil]
  | succ rounds ih =>
    rw [items]
    by_cases hdone : it.nextIndex ≥ it.count
    · rw [next, if_pos hdone, Nat.sub_eq_zero_of_le hdone, List.range'_zero, List.map_nil]
    · have hrest := ih h.step (by dsimp only; omega)
      rw [h.next_eq (by omega),
        show it.count - it.nextIndex = it.count - (it.nextIndex + 1) + 1 by omega,
        List.range'_succ, List.map_cons]
      exact congrArg _ hrest

end ProgramHeaderIter

/-- The list the loader goes over is what the iterator yields. -/
theorem ElfImage.items_eq_headersFrom (elf : ElfImage) {rounds remaining next : Nat}
    (h : remaining < rounds) (hnext : next + remaining = elf.header.programHeaderCount) :
    ProgramHeaderIter.items rounds { elf.programHeaderIter with nextIndex := next } =
      elf.headersFrom remaining next := by
  induction remaining generalizing rounds next with
  | zero =>
    obtain ⟨rounds, rfl⟩ : ∃ n, rounds = n + 1 := ⟨rounds - 1, by omega⟩
    have hcount : elf.programHeaderIter.count = elf.header.programHeaderCount := rfl
    have hdone : next ≥ elf.programHeaderIter.count := by omega
    rw [ProgramHeaderIter.items, ProgramHeaderIter.next, if_pos hdone]
    rfl
  | succ remaining ih =>
    obtain ⟨rounds, rfl⟩ : ∃ n, rounds = n + 1 := ⟨rounds - 1, by omega⟩
    have hcount : elf.programHeaderIter.count = elf.header.programHeaderCount := rfl
    have hmore : ¬ next ≥ elf.programHeaderIter.count := by omega
    have hstep : ProgramHeaderIter.next { elf.programHeaderIter with nextIndex := next } =
        (elf.programHeader? next, { elf.programHeaderIter with nextIndex := next + 1 }) :=
      if_neg hmore
    rw [ProgramHeaderIter.items, hstep, headersFrom]
    cases elf.programHeader? next with
    | none => rfl
    | some item => exact congrArg _ (ih (by omega) (by omega))

theorem ElfImage.items_eq (elf : ElfImage) {rounds : Nat}
    (h : elf.header.programHeaderCount < rounds) :
    elf.programHeaderIter.items rounds = elf.programHeaders :=
  elf.items_eq_headersFrom h (Nat.zero_add _)

/-- A segment that has a range has it in the file. -/
theorem ProgramHeader.fileRange_eq_ok {header : ProgramHeader} {fileLen start stop : Nat}
    (h : header.fileRange fileLen = .ok (start, stop)) : start ≤ stop ∧ stop ≤ fileLen := by
  rw [fileRange] at h
  cases hend : checkedAdd header.offset header.fileSize with
  | none =>
    rw [hend] at h
    cases h
  | some last =>
    rw [hend] at h
    dsimp only at h
    split_ifs at h with hpast
    cases h
    obtain ⟨-, rfl⟩ := checkedAdd_eq_some.mp hend
    exact ⟨Nat.le_add_right _ _, Nat.not_lt.mp hpast⟩

theorem ElfImage.parse_eq_ok {bytes : List UInt8} {elf : ElfImage}
    (h : ElfImage.parse bytes = .ok elf) :
    elf.bytes = bytes ∧ ElfHeader.parse bytes = .ok elf.header := by
  rw [ElfImage.parse] at h
  cases hheader : ElfHeader.parse bytes with
  | error e =>
    rw [hheader] at h
    cases h
  | ok header =>
    rw [hheader] at h
    cases h
    exact ⟨rfl, rfl⟩

/-- **The headers of an accepted file.** Whatever the bytes, parsing indexes none that is not
there. If it accepts them, a loop over `program_headers()` sees exactly `e_phnum` items, each made
of the 56 bytes at its place in the file, unless the entries are too short for that; and the range
of every one of them is inside the file it is asked for. -/
theorem program_headers_exact (bytes : List UInt8) :
    (ElfHeader.parseIndexed bytes).run = some (ElfHeader.parse bytes) ∧
    (ProgramHeader.parseIndexed bytes).run = some (ProgramHeader.parse bytes) ∧
    ∀ elf, ElfImage.parse bytes = .ok elf →
      (∀ rounds, readLeU16 bytes 56 < rounds →
        elf.programHeaderIter.items rounds = (List.range (readLeU16 bytes 56)).map fun i =>
          if 56 ≤ readLeU16 bytes 54 then
            .ok (headerAt bytes (readLeU64 bytes 32 + i * readLeU16 bytes 54))
          else .error .programHeaderTruncated) ∧
      (∀ i < readLeU16 bytes 56,
        readLeU64 bytes 32 + i * readLeU16 bytes 54 + readLeU16 bytes 54 ≤ bytes.length) ∧
      ∀ header, .ok header ∈ elf.programHeaders → ∀ fileLen start stop,
        header.fileRange fileLen = .ok (start, stop) → start ≤ stop ∧ stop ≤ fileLen := by
  refine ⟨ElfHeader.parseIndexed_eq bytes, ProgramHeader.parseIndexed_eq bytes,
    fun elf hparse => ?_⟩
  obtain ⟨hbytes, hheader⟩ := ElfImage.parse_eq_ok hparse
  obtain ⟨hoffset, hsize, hcount, hinside, hlimit⟩ := ElfHeader.parse_eq_ok hheader
  have hfile : elf.programHeaderIter.InFile := ⟨by rw [← hbytes] at hinside; exact hinside, hlimit⟩
  rw [← hoffset, ← hsize, ← hcount]
  refine ⟨fun rounds hrounds => ?_, fun i hi => ?_,
    fun header _ fileLen start stop h => header.fileRange_eq_ok h⟩
  · rw [hfile.items_eq (by show _ < 0 + rounds; rwa [Nat.zero_add]), List.range_eq_range', ← hbytes]
    rfl
  · have hentry : i < elf.programHeaderIter.count := hi
    have h := (ProgramHeaderIter.entry_le hentry).trans hfile.inside
    rw [← hbytes]
    exact h

/-- A file of one segment. -/
def oneSegment : List UInt8 := imageOf 0x400000 [⟨ptLoad, pfR, 0, 0x400000, 0, 0, 0x1000⟩]

theorem program_headers_exact_at_one_segment :
    ∃ elf, ElfImage.parse oneSegment = .ok elf ∧
      elf.programHeaderIter.items 2 = [.ok (headerAt oneSegment 64)] := by
  have hsome : (ElfImage.parse oneSegment).toOption.isSome = true := by decide +kernel
  cases hparse : ElfImage.parse oneSegment with
  | error e =>
    rw [hparse] at hsome
    cases hsome
  | ok elf =>
    have hcount : readLeU16 oneSegment 56 = 1 := by decide +kernel
    have hsize : readLeU16 oneSegment 54 = 56 := by decide +kernel
    have hoffset : readLeU64 oneSegment 32 = 64 := by decide +kernel
    have hitems := ((program_headers_exact oneSegment).2.2 elf hparse).1
    rw [hcount, hsize, hoffset] at hitems
    exact ⟨elf, rfl, hitems 2 (by decide)⟩

end Lazers.Elf
