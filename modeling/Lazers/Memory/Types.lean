import Lazers.Elf

/-!
# Layout constants and errors of the memory subsystem (`memory/types.rs`)
-/

namespace Lazers.Memory

def pageSize : Nat := 4096
def userImageBase : Nat := 0x0000000000400000
def userStackTop : Nat := 0x0000000000800000
def userStackPages : Nat := 16

def maxSegmentPages : Nat := 128
def maxFreeRanges : Nat := 128
def maxOwnedPages : Nat := maxSegmentPages + userStackPages + 32
def maxSharedKernelMappings : Nat := 16
def maxStartupArgs : Nat := 32
def pagePresent : Nat := 1 <<< 0
def pageWritable : Nat := 1 <<< 1
def pageUser : Nat := 1 <<< 2
def pageHuge : Nat := 1 <<< 7
def pageTableFlags : Nat := pagePresent ||| pageWritable
def physWindowStart : Nat := 0x0000000001000000

/-- The span of one huge entry, `2 * 1024 * 1024` in the source. -/
def hugePageSize : Nat := 2 * 1024 * 1024

/-- `user_stack_base`, computed in place wherever the source needs it. -/
def userStackBase : Nat := userStackTop - userStackPages * pageSize

/-- Errors raised while building page tables or loading a user image. -/
inductive MemoryError where
  | noUsableMemory
  | addressSpaceUninitialized
  | allocatorExhausted
  | invalidKernelBufferSize
  | sharedKernelMappingCapacityExceeded
  | elf (error : Elf.ElfError)
  | userImageOutOfRange
  | invalidStartupArguments
  | startupArgumentsTooLarge
  | segmentOverlapCapacityExceeded
  | ownedPageCapacityExceeded
deriving DecidableEq, Repr

/-- Page-table root for either the kernel or a user process. -/
structure AddressSpace where
  rootPaddr : Nat
deriving DecidableEq, Repr

/-! ## Page rounding -/

theorem alignDown_page {v : Nat} (hv : v < u64Limit) :
    alignDown v pageSize = v / 4096 * 4096 := by
  have hpow : pageSize = 2 ^ 12 := rfl
  rw [hpow, alignDown_pow hv (by decide)]
  omega

theorem alignUp_page {v : Nat} (hv : v + 4096 ≤ u64Limit) :
    alignUp v pageSize = (v + 4095) / 4096 * 4096 := by
  have hpow : pageSize = 2 ^ 12 := rfl
  rw [hpow, alignUp_pow hv (by decide)]
  omega

/-- Rounding a page-aligned word changes nothing. -/
theorem alignDown_of_mod {v : Nat} (hv : v < u64Limit) (h : v % 4096 = 0) :
    alignDown v pageSize = v := by
  rw [alignDown_page hv]
  omega

theorem alignUp_of_mod {v : Nat} (hv : v ≤ 2 ^ 47) (h : v % 4096 = 0) : alignUp v pageSize = v := by
  have hlim : v + 4096 ≤ u64Limit := by
    rw [u64Limit]
    omega
  rw [alignUp_page hlim]
  omega

/-- Rounding always gives a page-aligned word. -/
theorem and_pageMask (v : Nat) :
    (v &&& u64Not (pageSize - 1)) % 4096 = 0 ∧ v &&& u64Not (pageSize - 1) < u64Limit := by
  constructor
  · rw [show (4096 : Nat) = 2 ^ 12 from rfl, Nat.and_mod_two_pow]
    exact Nat.and_zero _
  · exact lt_of_le_of_lt Nat.and_le_right (by decide)

theorem alignDown_page_bounds (v : Nat) :
    alignDown v pageSize % 4096 = 0 ∧ alignDown v pageSize < u64Limit := and_pageMask v

theorem alignUp_page_bounds (v : Nat) :
    alignUp v pageSize % 4096 = 0 ∧ alignUp v pageSize < u64Limit := by
  unfold alignUp
  split_ifs
  · exact ⟨rfl, by decide⟩
  · exact and_pageMask _

theorem alignDown_huge {v : Nat} (hv : v < u64Limit) :
    alignDown v hugePageSize = v / 2097152 * 2097152 := by
  have hpow : hugePageSize = 2 ^ 21 := rfl
  rw [hpow, alignDown_pow hv (by decide)]
  omega

theorem alignUp_huge {v : Nat} (hv : v + 2097152 ≤ u64Limit) :
    alignUp v hugePageSize = (v + 2097151) / 2097152 * 2097152 := by
  have hpow : hugePageSize = 2 ^ 21 := rfl
  rw [hpow, alignUp_pow hv (by decide)]
  omega

end Lazers.Memory
