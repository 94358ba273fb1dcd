import Lazers.Lib.ByteMemory
import Lazers.LzUtil

/-!
# The shared ELF parser (`libs/elf`)

`ElfHeader.parse` checks the fixed 64-byte header and the bounds of the program
header table; `ElfImage.programHeaders` is the list `ProgramHeaderIter` yields.
-/

namespace Lazers.Elf

def ptLoad : Nat := 1
def pfX : Nat := 1 <<< 0
def pfW : Nat := 1 <<< 1
def pfR : Nat := 1 <<< 2

def elfMagic : List UInt8 := [0x7f, 0x45, 0x4c, 0x46]
def elfClass64 : UInt8 := 2
def elfDataLe : UInt8 := 1
def elfMachineX86_64 : Nat := 0x3e
def elfTypeExecutable : Nat := 2

/-- `size_of::<ElfHeaderLayout>()`. -/
def elfHeaderSize : Nat := 64

/-- `size_of::<ElfProgramHeaderLayout>()`. -/
def elfProgramHeaderSize : Nat := 56

inductive ElfError where
  | headerTooSmall
  | invalidMagic
  | unsupportedClass
  | unsupportedEncoding
  | unsupportedType
  | unsupportedMachine
  | unsupportedVersion
  | programHeaderTruncated
  | programHeaderTableOutOfRange
  | segmentExtendsPastFile
  | addressOutOfRange
  | zeroLoadAddress
deriving DecidableEq, Repr

structure ElfHeader where
  entry : Nat
  programHeaderOffset : Nat
  programHeaderEntrySize : Nat
  programHeaderCount : Nat
deriving DecidableEq, Repr

/-- `ElfHeader::parse`. `usize::try_from` never fails on a 64-bit target. -/
def ElfHeader.parse (bytes : List UInt8) : Except ElfError ElfHeader := do
  if bytes.length < elfHeaderSize then throw .headerTooSmall
  if bytes.take 4 ≠ elfMagic then throw .invalidMagic
  if bytes.getD 4 0 ≠ elfClass64 then throw .unsupportedClass
  if bytes.getD 5 0 ≠ elfDataLe then throw .unsupportedEncoding
  if bytes.getD 6 0 ≠ 1 then throw .unsupportedVersion
  if readLeU16 bytes 16 ≠ elfTypeExecutable then throw .unsupportedType
  if readLeU16 bytes 18 ≠ elfMachineX86_64 then throw .unsupportedMachine
  if readLeU32 bytes 20 ≠ 1 then throw .unsupportedVersion
  let programHeaderOffset := readLeU64 bytes 32
  let programHeaderEntrySize := readLeU16 bytes 54
  let programHeaderCount := readLeU16 bytes 56
  let some tableSize := checkedMul programHeaderEntrySize programHeaderCount
    | throw .addressOutOfRange
  let some tableEnd := checkedAdd programHeaderOffset tableSize
    | throw .addressOutOfRange
  if tableEnd > bytes.length then throw .programHeaderTableOutOfRange
  return {
    entry := readLeU64 bytes 24
    programHeaderOffset
    programHeaderEntrySize
    programHeaderCount }

structure ProgramHeader where
  kind : Nat
  flags : Nat
  offset : Nat
  virtualAddress : Nat
  physicalAddress : Nat
  fileSize : Nat
  memorySize : Nat
deriving DecidableEq, Repr

/-- `ProgramHeader::parse`. -/
def ProgramHeader.parse (bytes : List UInt8) : Except ElfError ProgramHeader :=
  if bytes.length < elfProgramHeaderSize then .error .programHeaderTruncated
  else .ok {
    kind := readLeU32 bytes 0
    flags := readLeU32 bytes 4
    offset := readLeU64 bytes 8
    virtualAddress := readLeU64 bytes 16
    physicalAddress := readLeU64 bytes 24
    fileSize := readLeU64 bytes 32
    memorySize := readLeU64 bytes 40 }

/-- `ProgramHeader::file_range`: the start and end of the segment in a file of
`fileLen` bytes. -/
def ProgramHeader.fileRange (header : ProgramHeader) (fileLen : Nat) :
    Except ElfError (Nat × Nat) :=
  match checkedAdd header.offset header.fileSize with
  | none => .error .addressOutOfRange
  | some stop =>
    if stop > fileLen then .error .segmentExtendsPastFile
    else .ok (header.offset, stop)

structure ElfImage where
  bytes : List UInt8
  header : ElfHeader
deriving DecidableEq, Repr

/-- `ElfImage::parse`. -/
def ElfImage.parse (bytes : List UInt8) : Except ElfError ElfImage := do
  let header ← ElfHeader.parse bytes
  return { bytes, header }

def ElfImage.entryPoint (elf : ElfImage) : Nat := elf.header.entry

/-- `slice::get(start..stop)`. -/
def sliceGet (bytes : List UInt8) (start stop : Nat) : Option (List UInt8) :=
  if start ≤ stop ∧ stop ≤ bytes.length then some ((bytes.drop start).take (stop - start))
  else none

/-- The body of `ProgramHeaderIter::next` for entry `index`; `none` ends the
iteration. -/
def ElfImage.programHeader? (elf : ElfImage) (index : Nat) :
    Option (Except ElfError ProgramHeader) := do
  let relative ← checkedMul index elf.header.programHeaderEntrySize
  let offset ← checkedAdd elf.header.programHeaderOffset relative
  let stop ← checkedAdd offset elf.header.programHeaderEntrySize
  let bytes ← sliceGet elf.bytes offset stop
  return ProgramHeader.parse bytes

/-- The items `ProgramHeaderIter` still yields with `remaining` entries left. -/
def ElfImage.headersFrom (elf : ElfImage) : (remaining next : Nat) →
    List (Except ElfError ProgramHeader)
  | 0, _ => []
  | remaining + 1, next =>
    match elf.programHeader? next with
    | none => []
    | some item => item :: elf.headersFrom remaining (next + 1)

/-- Everything `ElfImage::program_headers()` yields, in table order. -/
def ElfImage.programHeaders (elf : ElfImage) : List (Except ElfError ProgramHeader) :=
  elf.headersFrom elf.header.programHeaderCount 0

/-! ## Files without contents -/

/-- The bytes of a program header. -/
def ProgramHeader.encode (header : ProgramHeader) : List UInt8 :=
  ByteMemory.wordBytes header.kind 4 ++ ByteMemory.wordBytes header.flags 4 ++
    [header.offset, header.virtualAddress, header.physicalAddress, header.fileSize,
      header.memorySize, 0].flatMap (ByteMemory.wordBytes · 8)

/-- An executable that consists of its program headers. -/
def imageOf (entry : Nat) (headers : List ProgramHeader) : List UInt8 :=
  elfMagic ++ [elfClass64, elfDataLe, 1] ++ List.replicate 9 0 ++
    ByteMemory.wordBytes elfTypeExecutable 2 ++ ByteMemory.wordBytes elfMachineX86_64 2 ++
    ByteMemory.wordBytes 1 4 ++ [entry, elfHeaderSize, 0].flatMap (ByteMemory.wordBytes · 8) ++
    ByteMemory.wordBytes 0 4 ++
    [elfHeaderSize, elfProgramHeaderSize, headers.length, 0, 0, 0].flatMap
      (ByteMemory.wordBytes · 2) ++
    headers.flatMap ProgramHeader.encode

example : (ElfImage.parse (imageOf 0x400000 [⟨ptLoad, pfR, 0, 0x400000, 0, 0, 0x1000⟩])).map
    ElfImage.programHeaders = .ok [.ok ⟨ptLoad, pfR, 0, 0x400000, 0, 0, 0x1000⟩] := by
  decide +kernel

end Lazers.Elf
