import Lazers.Lib.PageTable
import Lazers.Lib.Triple
import Lazers.Memory.State

/-!
# Page-table construction (`memory/paging.rs`, `memory/util.rs`)

`AddressSpaceBuilder` walks and extends the tables below `root_paddr`. Its raw
pointer to the caller's `OwnedPages` is the field `ownedPages` of the state its
operations run in.
-/

namespace Lazers.Memory

/-! ## Index helpers -/

def pml4Index (address : Nat) : Nat := (address >>> 39) &&& 0x1ff
def pdptIndex (address : Nat) : Nat := (address >>> 30) &&& 0x1ff
def pdIndex (address : Nat) : Nat := (address >>> 21) &&& 0x1ff
def ptIndex (address : Nat) : Nat := (address >>> 12) &&& 0x1ff

def addressMask : Nat := 0x000ffffffffff000

/-! ## The builder -/

/-- What a builder operation reads and changes: the global state and the page
list table frames are recorded in, if there is one. -/
structure BuilderState where
  state : MemoryState
  ownedPages : Option OwnedPages

abbrev Builder := EStateM MemoryError BuilderState

namespace Builder

/-- Run an operation of the global state (`with_state_mut`). -/
def withStateMut {α : Type} (x : EStateM MemoryError MemoryState α) : Builder α := fun s =>
  match x s.state with
  | .ok a state => .ok a { s with state }
  | .error e state => .error e { s with state }

/-- `page_table_mut(table).entries[index]`. -/
def readEntry (table index : Nat) : Builder Nat := fun s =>
  .ok (PageTable.entry s.state.phys table index) s

/-- `page_table_mut(table).entries[index] = entry`. -/
def writeEntry (table index entry : Nat) : Builder Unit := fun s =>
  .ok () { s with state.phys := s.state.phys.writeU64 (table + 8 * index) entry }

/-- `if let Some(owned_pages) = self.owned_pages { (*owned_pages).push(page)?; }` -/
def pushOwned (page : Nat) : Builder Unit := fun s =>
  match s.ownedPages with
  | none => .ok () s
  | some owned =>
    match owned.push page with
    | .ok owned => .ok () { s with ownedPages := some owned }
    | .error e => .error e s

/-- `ensure_table`. A present entry is followed whatever its other bits are. -/
def ensureTable (table index extraFlags : Nat) : Builder Nat := do
  let entry ← readEntry table index
  if entry &&& pagePresent ≠ 0 then do
    if entry &&& extraFlags ≠ extraFlags then
      writeEntry table index (entry ||| extraFlags)
    return entry &&& addressMask
  else do
    let child ← withStateMut MemoryState.allocatePage
    pushOwned child
    writeEntry table index (child ||| pageTableFlags ||| extraFlags)
    return child

/-- `ensure_page_directory`. -/
def ensurePageDirectory (root virt extraFlags : Nat) : Builder Nat := do
  let pdpt ← ensureTable root (pml4Index virt) extraFlags
  ensureTable pdpt (pdptIndex virt) extraFlags

/-- `ensure_page_table`. -/
def ensurePageTable (root virt extraFlags : Nat) : Builder Nat := do
  let pd ← ensurePageDirectory root virt extraFlags
  ensureTable pd (pdIndex virt) extraFlags

/-- `map_2m`. -/
def map2m (root virt phys flags : Nat) : Builder Unit := do
  let pd ← ensurePageDirectory root virt (flags &&& pageUser)
  writeEntry pd (pdIndex virt) (phys ||| flags ||| pageHuge)

/-- `map_4k`. -/
def map4k (root virt phys flags : Nat) : Builder Unit := do
  let pt ← ensurePageTable root virt (flags &&& pageUser)
  writeEntry pt (ptIndex virt) (phys ||| flags)

/-- The loop of `map_identity_2m_range`. -/
def mapIdentity2mFrom (root flags : Nat) : (rounds address : Nat) → Builder Unit
  | 0, _ => return ()
  | n + 1, address => do
    map2m root address address flags
    mapIdentity2mFrom root flags n (address + hugePageSize)

/-- `map_identity_2m_range`. Both bounds are multiples of the step, so the loop
makes `(limit - address) / 2 MiB` rounds. -/
def mapIdentity2mRange (root start stop flags : Nat) : Builder Unit :=
  let address := alignDown start hugePageSize
  let limit := alignUp stop hugePageSize
  mapIdentity2mFrom root flags ((limit - address) / hugePageSize) address

/-- The loop of `map_identity_4k_range`. -/
def mapIdentity4kFrom (root flags : Nat) : (rounds address : Nat) → Builder Unit
  | 0, _ => return ()
  | n + 1, address => do
    map4k root address address flags
    mapIdentity4kFrom root flags n (address + pageSize)

/-- `map_identity_4k_range`. -/
def mapIdentity4kRange (root start stop flags : Nat) : Builder Unit :=
  let address := alignDown start pageSize
  let limit := alignUp stop pageSize
  mapIdentity4kFrom root flags ((limit - address) / pageSize) address

end Builder

end Lazers.Memory
