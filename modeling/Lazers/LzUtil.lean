import Mathlib.Data.Nat.Bitwise
import Mathlib.Tactic.Common

/-!
# 64-bit arithmetic and the `lzutil` crate

Machine words are `Nat` here. Every place where the source arithmetic can leave
64 bits goes through one of the operations below: the kernel is built with
`--release`, so an unchecked `+` wraps (`wrap64`), while `checked_*` and
`saturating_*` keep their documented meaning. `usize` is `u64` on this target.
-/

namespace Lazers

/-- One past the largest `u64`. -/
def u64Limit : Nat := 2 ^ 64

/-- Unchecked `u64` arithmetic in a release build. -/
def wrap64 (value : Nat) : Nat := value % u64Limit

/-- `u64::checked_add`. -/
def checkedAdd (a b : Nat) : Option Nat :=
  if a + b < u64Limit then some (a + b) else none

/-- `u64::checked_mul`. -/
def checkedMul (a b : Nat) : Option Nat :=
  if a * b < u64Limit then some (a * b) else none

/-- `u64::checked_sub`. -/
def checkedSub (a b : Nat) : Option Nat :=
  if b ≤ a then some (a - b) else none

/-- `u64::saturating_mul`. -/
def saturatingMul (a b : Nat) : Nat := min (a * b) (u64Limit - 1)

/-- Bitwise complement of a `u64`. -/
def u64Not (value : Nat) : Nat := u64Limit - 1 - value

theorem checkedAdd_eq_some {a b c : Nat} :
    checkedAdd a b = some c ↔ a + b < u64Limit ∧ c = a + b := by
  unfold checkedAdd
  split <;> simp_all [eq_comm]

theorem checkedMul_eq_some {a b c : Nat} :
    checkedMul a b = some c ↔ a * b < u64Limit ∧ c = a * b := by
  unfold checkedMul
  split <;> simp_all [eq_comm]

theorem checkedSub_eq_some {a b c : Nat} :
    checkedSub a b = some c ↔ b ≤ a ∧ c = a - b := by
  unfold checkedSub
  split <;> simp_all [eq_comm]

theorem wrap64_of_lt {a : Nat} (h : a < u64Limit) : wrap64 a = a := Nat.mod_eq_of_lt h

theorem wrap64_lt (a : Nat) : wrap64 a < u64Limit := Nat.mod_lt _ (by decide)

/-! ## Alignment -/

/-- `align_down`: clear the bits below `align`. -/
def alignDown (value align : Nat) : Nat := value &&& u64Not (align - 1)

/-- `align_up`. The addition is unchecked, so it wraps near `u64::MAX`. -/
def alignUp (value align : Nat) : Nat :=
  if value = 0 then 0 else wrap64 (value + align - 1) &&& u64Not (align - 1)

/-- Masking the low `k` bits off a word rounds it down to a multiple of `2^k`. -/
theorem and_u64Not_pow {v k : Nat} (hv : v < u64Limit) (hk : k ≤ 64) :
    v &&& u64Not (2 ^ k - 1) = v / 2 ^ k * 2 ^ k := by
  have hpow : 2 ^ k * 2 ^ (64 - k) = 2 ^ 64 := by
    rw [← Nat.pow_add, Nat.add_sub_cancel' hk]
  have hmask : u64Not (2 ^ k - 1) = (2 ^ (64 - k) - 1) <<< k := by
    rw [Nat.shiftLeft_eq, Nat.sub_mul, Nat.mul_comm (2 ^ (64 - k)), hpow, u64Not, u64Limit]
    have := Nat.two_pow_pos k
    omega
  have hsplit : v &&& (2 ^ (64 - k) - 1) <<< k = (v >>> k) <<< k := by
    apply Nat.eq_of_testBit_eq
    intro i
    rw [Nat.testBit_and, Nat.testBit_shiftLeft, Nat.testBit_shiftLeft,
      Nat.testBit_two_pow_sub_one, Nat.testBit_shiftRight]
    by_cases hi : k ≤ i
    · have hik : k + (i - k) = i := by omega
      rw [hik]
      by_cases hi' : i - k < 64 - k
      · simp [hi, hi']
      · have hzero : v.testBit i = false :=
          Nat.testBit_eq_false_of_lt (hv.trans_le (Nat.pow_le_pow_right (by decide) (by omega)))
        simp [hi, hi', hzero]
    · simp [hi]
  rw [hmask, hsplit, Nat.shiftLeft_eq, Nat.shiftRight_eq_div_pow]

theorem alignDown_pow {v k : Nat} (hv : v < u64Limit) (hk : k ≤ 64) :
    alignDown v (2 ^ k) = v / 2 ^ k * 2 ^ k := and_u64Not_pow hv hk

theorem alignUp_pow {v k : Nat} (hv : v + 2 ^ k ≤ u64Limit) (hk : k ≤ 64) :
    alignUp v (2 ^ k) = (v + 2 ^ k - 1) / 2 ^ k * 2 ^ k := by
  have hpos := Nat.two_pow_pos k
  unfold alignUp
  split
  · rename_i h
    subst h
    rw [Nat.zero_add, Nat.div_eq_of_lt (by omega), Nat.zero_mul]
  · rw [wrap64_of_lt (by omega), and_u64Not_pow (by omega) hk]

/-! ## Little-endian readers -/

/-- The `n`-byte little-endian word at `offset`. The source slices
`bytes[offset..offset + n]`; every caller has checked the length before. -/
def readLe (bytes : List UInt8) (offset : Nat) : Nat → Nat
  | 0 => 0
  | n + 1 => (bytes.getD offset 0).toNat + 256 * readLe bytes (offset + 1) n

/-- `read_le_u16`. -/
def readLeU16 (bytes : List UInt8) (offset : Nat) : Nat := readLe bytes offset 2

/-- `read_le_u32`. -/
def readLeU32 (bytes : List UInt8) (offset : Nat) : Nat := readLe bytes offset 4

/-- `read_le_u64`. -/
def readLeU64 (bytes : List UInt8) (offset : Nat) : Nat := readLe bytes offset 8

theorem readLe_lt (bytes : List UInt8) (offset n : Nat) : readLe bytes offset n < 256 ^ n := by
  induction n generalizing offset with
  | zero => simp [readLe]
  | succ n ih =>
    have hbyte := (bytes.getD offset 0).toNat_lt
    have hrest := ih (offset + 1)
    rw [readLe, Nat.pow_succ]
    omega

/-- A word reads the same in a slice that has all of it. -/
theorem readLe_slice (bytes : List UInt8) (start len : Nat) {offset n : Nat}
    (h : offset + n ≤ len) :
    readLe ((bytes.drop start).take len) offset n = readLe bytes (start + offset) n := by
  induction n generalizing offset with
  | zero => rfl
  | succ n ih =>
    rw [readLe, readLe, ih (by omega), Nat.add_assoc]
    congr 2
    rw [List.getD_eq_getElem?_getD, List.getElem?_take_of_lt (by omega), List.getElem?_drop,
      ← List.getD_eq_getElem?_getD]

theorem readLeU64_lt (bytes : List UInt8) (offset : Nat) : readLeU64 bytes offset < u64Limit :=
  readLe_lt bytes offset 8

end Lazers
