import Lazers.Memory.Kernel
import Lazers.Memory.Startup

/-!
# Loading a user program (`memory/loader.rs`)

`load_user_program` builds a fresh address space: the shared kernel context, one
frame per page of every `PT_LOAD` segment, the stack, and the startup arguments.
The closure's early returns are errors of the `Builder`, after which the owned
pages are released.
-/

namespace Lazers.Memory

open Elf

/-! ## The pages of the new image -/

structure UserPage where
  virtPage : Nat
  physPage : Nat
deriving DecidableEq, Repr

structure UserPageMap where
  pages : Vector (Option UserPage) maxSegmentPages

namespace UserPageMap

def new : UserPageMap := { pages := Vector.replicate maxSegmentPages none }

/-- `UserPageMap::find`. -/
def find (map : UserPageMap) (virtPage : Nat) : Option UserPage :=
  map.pages.toList.findSome? fun
    | some page => if page.virtPage = virtPage then some page else none
    | none => none

/-- `UserPageMap::contains`. -/
def contains (map : UserPageMap) (virtPage : Nat) : Bool := (map.find virtPage).isSome

/-- `UserPageMap::insert`: the first free slot takes the page. -/
def insert (map : UserPageMap) (virtPage physPage : Nat) : Except MemoryError UserPageMap :=
  match map.pages.toList.findIdx? Option.isNone with
  | some index => .ok { pages := map.pages.setIfInBounds index (some { virtPage, physPage }) }
  | none => .error .segmentOverlapCapacityExceeded

/-- The loop of `UserPageMap::copy_into`. Every round copies at least one byte,
so the number of bytes bounds the rounds. -/
def copyFrom (map : UserPageMap) : (rounds address : Nat) → (remaining : List UInt8) → Builder Unit
  | 0, _, _ => return ()
  | rounds + 1, address, remaining =>
    if remaining.isEmpty then return ()
    else do
      let virtPage := alignDown address pageSize
      let some page := map.find virtPage | throw .userImageOutOfRange
      let offset := address - virtPage
      let length := min remaining.length (pageSize - offset)
      modify fun b =>
        { b with state.phys := b.state.phys.write (page.physPage + offset) (remaining.take length) }
      map.copyFrom rounds (wrap64 (address + length)) (remaining.drop length)

/-- `UserPageMap::copy_into`. -/
def copyInto (map : UserPageMap) (startAddress : Nat) (bytes : List UInt8) : Builder Unit :=
  map.copyFrom bytes.length startAddress bytes

end UserPageMap

/-! ## Startup arguments on the new stack -/

/-- The argument loop of `write_startup_arguments`; the result holds
`argv_pointers`. -/
def writeArguments (pages : UserPageMap) : (args : List (List UInt8)) → (stringCursor : Nat) →
    Builder (List Nat)
  | [], _ => return []
  | arg :: rest, stringCursor => do
    pages.copyInto stringCursor arg
    pages.copyInto (stringCursor + arg.length) [0]
    let pointers ← writeArguments pages rest (stringCursor + arg.length + 1)
    return stringCursor :: pointers

/-- The result of a fallible function that touches no state. -/
def liftExcept {α : Type} : Except MemoryError α → Builder α
  | .ok a => return a
  | .error e => throw e

/-- `write_startup_arguments`. -/
def writeStartupArguments (pages : UserPageMap) (startup : ProgramStartup) : Builder Nat := do
  let layout ← liftExcept (prepareStartupLayout startup)
  let pointers ← writeArguments pages layout.args layout.stringsStart
  pages.copyInto layout.stackStart (ByteMemory.wordBytes layout.argc 8)
  pages.copyInto (layout.stackStart + 8)
    ((pointers ++ [0]).flatMap fun pointer => ByteMemory.wordBytes pointer 8)
  return layout.stackStart

/-! ## Segments and stack -/

/-- Allocate, map and record one user page: the four steps both page loops share. -/
def addUserPage (root virt flags : Nat) (pages : UserPageMap) : Builder UserPageMap := do
  let phys ← Builder.withStateMut MemoryState.allocatePage
  Builder.map4k root virt phys flags
  let pages ← liftExcept (pages.insert virt phys)
  Builder.pushOwned phys
  return pages

/-- The page loop of one segment. -/
def addSegmentPages (root flags : Nat) : (rounds virt : Nat) → UserPageMap → Builder UserPageMap
  | 0, _, pages => return pages
  | rounds + 1, virt, pages => do
    let pages ← if pages.contains virt then pure pages else addUserPage root virt flags pages
    addSegmentPages root flags rounds (virt + pageSize) pages

def segmentFlags (header : ProgramHeader) : Nat :=
  pagePresent ||| pageUser ||| if header.flags &&& pfW ≠ 0 then pageWritable else 0

/-- One round of the loop over the program headers. -/
def loadSegment (root : Nat) (bytes : List UInt8) (header : ProgramHeader) (pages : UserPageMap) :
    Builder UserPageMap := do
  let some segmentEnd := checkedAdd header.virtualAddress header.memorySize
    | throw .userImageOutOfRange
  if header.virtualAddress < userImageBase ∨ segmentEnd > userStackBase ∨
      header.memorySize < header.fileSize then
    throw .userImageOutOfRange
  let pageStart := alignDown header.virtualAddress pageSize
  let pageEnd := alignUp segmentEnd pageSize
  let pages ← addSegmentPages root (segmentFlags header) ((pageEnd - pageStart) / pageSize)
    pageStart pages
  let (start, stop) ← liftExcept ((header.fileRange bytes.length).mapError .elf)
  pages.copyInto header.virtualAddress ((bytes.drop start).take (stop - start))
  return pages

/-- The loop over the program headers. -/
def loadSegments (root : Nat) (bytes : List UInt8) :
    List (Except ElfError ProgramHeader) → UserPageMap → Builder UserPageMap
  | [], pages => return pages
  | .error e :: _, _ => throw (.elf e)
  | .ok header :: rest, pages => do
    let pages ← if header.kind ≠ ptLoad then pure pages
      else loadSegment root bytes header pages
    loadSegments root bytes rest pages

/-- The stack loop. -/
def addStackPages (root : Nat) : (rounds virt : Nat) → UserPageMap → Builder UserPageMap
  | 0, _, pages => return pages
  | rounds + 1, virt, pages => do
    let pages ← addUserPage root virt (pagePresent ||| pageWritable ||| pageUser) pages
    addStackPages root rounds (virt + pageSize) pages

/-! ## `load_user_program` -/

/-- Result of loading one user ELF into a newly created address space. -/
structure LoadedUserProgram where
  addressSpace : AddressSpace
  entryPoint : Nat
  userStackTop : Nat
  ownedPages : OwnedPages

def containsUserAddress (address : Nat) : Bool :=
  decide (userImageBase ≤ address) && decide (address < userStackTop)

/-- The closure of `load_user_program`: the new root and the stack pointer. -/
def buildUserSpace (elf : ElfImage) (bytes : List UInt8) (startup : ProgramStartup) :
    Builder (Nat × Nat) := do
  let root ← Builder.withStateMut MemoryState.allocatePage
  Builder.pushOwned root
  mapSharedKernelContext root
  let pages ← loadSegments root bytes elf.programHeaders UserPageMap.new
  let pages ← addStackPages root userStackPages userStackBase pages
  let userStackTop ← writeStartupArguments pages startup
  return (root, userStackTop)

/-- `load_user_program`; `none` is a failed assertion while pages are released. -/
def loadUserProgram (bytes : List UInt8) (startup : ProgramStartup) (s : MemoryState) :
    Option (Except MemoryError LoadedUserProgram × MemoryState) :=
  match ElfImage.parse bytes with
  | .error e => some (.error (.elf e), s)
  | .ok elf =>
    if !containsUserAddress elf.entryPoint then some (.error .userImageOutOfRange, s)
    else
      match buildUserSpace elf bytes startup { state := s, ownedPages := some OwnedPages.empty } with
      | .ok (root, userStackTop) b =>
        some (.ok {
          addressSpace := { rootPaddr := root }
          entryPoint := elf.entryPoint
          userStackTop
          ownedPages := b.ownedPages.getD OwnedPages.empty }, b.state)
      | .error e b =>
        ((b.ownedPages.getD OwnedPages.empty).release b.state).map fun s => (.error e, s)

end Lazers.Memory
