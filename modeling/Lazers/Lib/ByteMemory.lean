import Mathlib.Data.Set.Lattice
import Mathlib.Order.CompletePartialOrder
import Mathlib.Order.Interval.Set.Basic
import Mathlib.Data.Nat.Bitwise
import Mathlib.Tactic.Common

/-!
# Byte-addressed memory with a store log

Memory maps every address to a byte and logs each store as `(address, length)`,
newest first, so that "stores only into `S`" can be stated about the stores
themselves and not only about the bytes that ended up different. `WritesOnly`
is the frame condition every proof about a store composes: it is reflexive,
transitive and monotone in the set.
-/

structure ByteMemory where
  byte : Nat → UInt8
  stores : List (Nat × Nat)

namespace ByteMemory

/-- Store `bytes` from `start` on. -/
def write (m : ByteMemory) (start : Nat) (bytes : List UInt8) : ByteMemory where
  byte a := if start ≤ a ∧ a < start + bytes.length then bytes.getD (a - start) 0 else m.byte a
  stores := (start, bytes.length) :: m.stores

/-- Fill `len` bytes from `start` on with zero. -/
def zero (m : ByteMemory) (start len : Nat) : ByteMemory where
  byte a := if start ≤ a ∧ a < start + len then 0 else m.byte a
  stores := (start, len) :: m.stores

/-- The `n`-byte little-endian word at `a`. -/
def readWord (m : ByteMemory) (a : Nat) : Nat → Nat
  | 0 => 0
  | n + 1 => (m.byte a).toNat + 256 * m.readWord (a + 1) n

/-- The low `n` bytes of `v`, little-endian. -/
def wordBytes (v : Nat) : Nat → List UInt8
  | 0 => []
  | n + 1 => UInt8.ofNat v :: wordBytes (v / 256) n

def readU64 (m : ByteMemory) (a : Nat) : Nat := m.readWord a 8

def writeU64 (m : ByteMemory) (a v : Nat) : ByteMemory := m.write a (wordBytes v 8)

/-- What has been stored. -/
theorem byte_write_of_lt {m : ByteMemory} {a i : Nat} {bytes : List UInt8}
    (h : i < bytes.length) : (m.write a bytes).byte (a + i) = bytes.getD i 0 := by
  simp only [write]
  rw [if_pos (by omega), Nat.add_sub_cancel_left]

theorem byte_write_of_apart {m : ByteMemory} {a b : Nat} {bytes : List UInt8}
    (h : b < a ∨ a + bytes.length ≤ b) : (m.write a bytes).byte b = m.byte b := by
  simp only [write]
  exact if_neg (by omega)

/-! ## Words -/

@[simp] theorem length_wordBytes (v n : Nat) : (wordBytes v n).length = n := by
  induction n generalizing v with
  | zero => rfl
  | succ n ih => simp [wordBytes, ih]

theorem wordBytes_zero (n : Nat) : wordBytes 0 n = List.replicate n 0 := by
  induction n with
  | zero => rfl
  | succ n ih =>
    rw [wordBytes, Nat.zero_div, ih, List.replicate_succ]
    rfl

/-- A word depends only on its own bytes. -/
theorem readWord_congr {m m' : ByteMemory} {a n : Nat}
    (h : ∀ x, a ≤ x → x < a + n → m.byte x = m'.byte x) : m.readWord a n = m'.readWord a n := by
  induction n generalizing a with
  | zero => rfl
  | succ n ih =>
    rw [readWord, readWord, h a (by omega) (by omega),
      ih fun x hx hx' => h x (by omega) (by omega)]

theorem readWord_lt (m : ByteMemory) (a n : Nat) : m.readWord a n < 256 ^ n := by
  induction n generalizing a with
  | zero => simp [readWord]
  | succ n ih =>
    have hbyte := (m.byte a).toNat_lt
    have hrest := ih (a + 1)
    rw [readWord, Nat.pow_succ]
    omega

theorem readU64_lt (m : ByteMemory) (a : Nat) : m.readU64 a < 2 ^ 64 := m.readWord_lt a 8

/-- Reading back the bytes of a word, wherever they were stored. -/
theorem readWord_of_bytes {m : ByteMemory} {a v n : Nat} (hv : v < 256 ^ n)
    (h : ∀ i < n, m.byte (a + i) = (wordBytes v n).getD i 0) : m.readWord a n = v := by
  induction n generalizing a v with
  | zero =>
    rw [Nat.pow_zero] at hv
    rw [readWord]
    omega
  | succ n ih =>
    have hhead : m.byte a = UInt8.ofNat v := by simpa [wordBytes] using h 0 (by omega)
    have htail : m.readWord (a + 1) n = v / 256 := by
      refine ih ?_ fun i hi => ?_
      · rw [Nat.pow_succ] at hv
        omega
      · have hstep := h (i + 1) (by omega)
        rw [wordBytes, List.getD_cons_succ] at hstep
        rw [← hstep]
        congr 1
        omega
    rw [readWord, hhead, htail, UInt8.toNat_ofNat']
    omega

theorem readU64_writeU64 (m : ByteMemory) (a : Nat) {v : Nat} (hv : v < 2 ^ 64) :
    (m.writeU64 a v).readU64 a = v := by
  refine readWord_of_bytes (n := 8) hv fun i hi => ?_
  simp only [writeU64, write, length_wordBytes]
  rw [if_pos (by omega)]
  congr 1
  omega

/-- A store does not change a word it does not touch. -/
theorem readU64_write_of_apart {m : ByteMemory} {a b : Nat} {bytes : List UInt8}
    (h : b + 8 ≤ a ∨ a + bytes.length ≤ b) : (m.write a bytes).readU64 b = m.readU64 b := by
  refine readWord_congr fun x hx hx' => ?_
  simp only [write]
  rw [if_neg (by omega)]

theorem readU64_writeU64_of_apart {m : ByteMemory} {a b v : Nat}
    (h : b + 8 ≤ a ∨ a + 8 ≤ b) : (m.writeU64 a v).readU64 b = m.readU64 b :=
  readU64_write_of_apart (by rwa [length_wordBytes])

theorem readU64_zero_of_apart {m : ByteMemory} {a b len : Nat}
    (h : b + 8 ≤ a ∨ a + len ≤ b) : (m.zero a len).readU64 b = m.readU64 b := by
  refine readWord_congr fun x hx hx' => ?_
  simp only [zero]
  rw [if_neg (by omega)]

theorem readU64_zero {m : ByteMemory} {a b len : Nat} (h : a ≤ b) (h' : b + 8 ≤ a + len) :
    (m.zero a len).readU64 b = 0 := by
  refine readWord_of_bytes (n := 8) (by decide) fun i hi => ?_
  simp only [zero]
  rw [if_pos (by omega)]
  rw [wordBytes_zero, List.getD_eq_getElem?_getD, List.getElem?_replicate, if_pos hi]
  rfl

/-! ## Frame conditions -/

/-- Every store between `m` and `m'` went into `S`. -/
structure WritesOnly (S : Set Nat) (m m' : ByteMemory) : Prop where
  stores : ∃ new, m'.stores = new ++ m.stores ∧
    ∀ r ∈ new, Set.Ico r.1 (r.1 + r.2) ⊆ S
  byte : ∀ a, a ∉ S → m'.byte a = m.byte a

theorem WritesOnly.refl (S : Set Nat) (m : ByteMemory) : WritesOnly S m m :=
  ⟨⟨[], rfl, by simp⟩, fun _ _ => rfl⟩

theorem WritesOnly.trans {S : Set Nat} {m₁ m₂ m₃ : ByteMemory} (h₁ : WritesOnly S m₁ m₂)
    (h₂ : WritesOnly S m₂ m₃) : WritesOnly S m₁ m₃ := by
  obtain ⟨new₁, hs₁, hin₁⟩ := h₁.stores
  obtain ⟨new₂, hs₂, hin₂⟩ := h₂.stores
  refine ⟨⟨new₂ ++ new₁, by rw [hs₂, hs₁, List.append_assoc], ?_⟩,
    fun a ha => (h₂.byte a ha).trans (h₁.byte a ha)⟩
  intro r hr
  rcases List.mem_append.mp hr with hr | hr
  · exact hin₂ r hr
  · exact hin₁ r hr

theorem WritesOnly.mono {S T : Set Nat} {m m' : ByteMemory} (hST : S ⊆ T)
    (h : WritesOnly S m m') : WritesOnly T m m' := by
  obtain ⟨new, hs, hin⟩ := h.stores
  exact ⟨⟨new, hs, fun r hr => (hin r hr).trans hST⟩,
    fun a ha => h.byte a fun hS => ha (hST hS)⟩

theorem writesOnly_write {S : Set Nat} (m : ByteMemory) {a : Nat} {bytes : List UInt8}
    (h : Set.Ico a (a + bytes.length) ⊆ S) : WritesOnly S m (m.write a bytes) := by
  refine ⟨⟨[(a, bytes.length)], rfl, by simpa using h⟩, fun x hx => ?_⟩
  simp only [write]
  exact if_neg fun hin => hx (h hin)

theorem writesOnly_writeU64 {S : Set Nat} (m : ByteMemory) {a v : Nat}
    (h : Set.Ico a (a + 8) ⊆ S) : WritesOnly S m (m.writeU64 a v) :=
  writesOnly_write m (by rwa [length_wordBytes])

theorem writesOnly_zero {S : Set Nat} (m : ByteMemory) {a len : Nat}
    (h : Set.Ico a (a + len) ⊆ S) : WritesOnly S m (m.zero a len) := by
  refine ⟨⟨[(a, len)], rfl, by simpa using h⟩, fun x hx => ?_⟩
  simp only [zero]
  exact if_neg fun hin => hx (h hin)

/-- A store that starts outside `S` breaks the frame condition. -/
theorem not_writesOnly_of_store {S : Set Nat} {m m' : ByteMemory} {a n : Nat}
    (h : m'.stores = (a, n) :: m.stores) (hn : 0 < n) (ha : a ∉ S) : ¬ WritesOnly S m m' := by
  intro hw
  obtain ⟨new, hnew, hinside⟩ := hw.stores
  rw [h, ← List.singleton_append] at hnew
  obtain rfl := List.append_cancel_right hnew
  exact ha (hinside (a, n) List.mem_cons_self (Set.mem_Ico.mpr ⟨le_rfl, by omega⟩))

/-- A word apart from everything written is unchanged. -/
theorem WritesOnly.readU64 {S : Set Nat} {m m' : ByteMemory} (h : WritesOnly S m m') {a : Nat}
    (ha : Disjoint (Set.Ico a (a + 8)) S) : m'.readU64 a = m.readU64 a := by
  refine readWord_congr fun x hx hx' => ?_
  exact h.byte x (Set.disjoint_left.mp ha ⟨hx, hx'⟩)

end ByteMemory
