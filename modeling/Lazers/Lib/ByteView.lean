import Lazers.Lib.ByteMemory

/-!
# Memory as a program sees it

A view gives the byte at each address, or nothing where the address is not
mapped. Stores are overlays: consecutive overlays are one (`overlay_append`),
and what a view holds is kept by every overlay apart from it (`Holds.overlay`).
-/

/-- The bytes seen at mapped addresses. -/
def ByteView : Type := Nat → Option UInt8

namespace ByteView

/-- The view with `bytes` from `start` on. -/
def overlay (view : ByteView) (start : Nat) (bytes : List UInt8) : ByteView := fun a =>
  if start ≤ a ∧ a < start + bytes.length then bytes[a - start]? else view a

/-- `bytes` are seen from `start` on. -/
def Holds (view : ByteView) (start : Nat) (bytes : List UInt8) : Prop :=
  ∀ i, i < bytes.length → view (start + i) = bytes[i]?

/-- The `n`-byte little-endian word seen at `a`. -/
def readWord (view : ByteView) (a : Nat) : Nat → Option Nat
  | 0 => some 0
  | n + 1 => do
    let low ← view a
    let high ← view.readWord (a + 1) n
    return low.toNat + 256 * high

/-- The `n` bytes seen from `a` on. -/
def readBytes (view : ByteView) (a : Nat) : Nat → Option (List UInt8)
  | 0 => some []
  | n + 1 => do
    let byte ← view a
    let rest ← view.readBytes (a + 1) n
    return byte :: rest

/-! ## Overlays -/

@[simp] theorem overlay_nil (view : ByteView) (start : Nat) : view.overlay start [] = view := by
  funext a
  rw [overlay, if_neg (by rw [List.length_nil]; omega)]

theorem overlay_append (view : ByteView) (start : Nat) (xs ys : List UInt8) :
    view.overlay start (xs ++ ys) = (view.overlay start xs).overlay (start + xs.length) ys := by
  funext a
  simp only [overlay, List.length_append]
  by_cases hxs : start ≤ a ∧ a < start + xs.length
  · rw [if_pos (by omega), if_neg (by omega), if_pos hxs, List.getElem?_append_left (by omega)]
  · by_cases hys : start + xs.length ≤ a ∧ a < start + xs.length + ys.length
    · rw [if_pos (by omega), if_pos hys, List.getElem?_append_right (by omega)]
      congr 1
      omega
    · rw [if_neg (by omega), if_neg hys, if_neg hxs]

theorem holds_overlay (view : ByteView) (start : Nat) (bytes : List UInt8) :
    (view.overlay start bytes).Holds start bytes := by
  intro i hi
  rw [overlay, if_pos (by omega), Nat.add_sub_cancel_left]

/-- An overlay elsewhere changes nothing. -/
theorem Holds.overlay {view : ByteView} {a b : Nat} {bytes other : List UInt8}
    (h : view.Holds a bytes) (happart : a + bytes.length ≤ b ∨ b + other.length ≤ a) :
    (view.overlay b other).Holds a bytes := by
  intro i hi
  rw [ByteView.overlay, if_neg (by omega)]
  exact h i hi

/-! ## Reading -/

theorem holds_append {view : ByteView} {a : Nat} {xs ys : List UInt8} :
    view.Holds a (xs ++ ys) ↔ view.Holds a xs ∧ view.Holds (a + xs.length) ys := by
  constructor
  · intro h
    constructor
    · intro i hi
      rw [h i (by rw [List.length_append]; omega), List.getElem?_append_left hi]
    · intro i hi
      have hget := h (xs.length + i) (by rw [List.length_append]; omega)
      rw [List.getElem?_append_right (by omega), Nat.add_sub_cancel_left] at hget
      rw [← hget]
      congr 1
      omega
  · rintro ⟨hxs, hys⟩ i hi
    by_cases hlt : i < xs.length
    · rw [hxs i hlt, List.getElem?_append_left hlt]
    · rw [List.length_append] at hi
      have hget := hys (i - xs.length) (by omega)
      rw [List.getElem?_append_right (by omega), ← hget]
      congr 1
      omega

theorem holds_cons {view : ByteView} {a : Nat} {x : UInt8} {xs : List UInt8} :
    view.Holds a (x :: xs) ↔ view a = some x ∧ view.Holds (a + 1) xs := by
  rw [← List.singleton_append, holds_append]
  refine and_congr ⟨fun h => h 0 (by simp), fun h i hi => ?_⟩ Iff.rfl
  obtain rfl : i = 0 := by simpa using hi
  exact h

theorem Holds.readWord {view : ByteView} {a v n : Nat}
    (h : view.Holds a (ByteMemory.wordBytes v n)) (hv : v < 256 ^ n) :
    view.readWord a n = some v := by
  induction n generalizing a v with
  | zero =>
    rw [Nat.pow_zero] at hv
    rw [ByteView.readWord, Nat.lt_one_iff.mp hv]
  | succ n ih =>
    rw [ByteMemory.wordBytes, holds_cons] at h
    have hhigh : v / 256 < 256 ^ n := by
      rw [Nat.pow_succ] at hv
      omega
    rw [ByteView.readWord, h.1, ih h.2 hhigh]
    simp only [Option.bind_eq_bind, Option.bind_some, UInt8.toNat_ofNat', Option.pure_def,
      Option.some.injEq]
    omega

theorem Holds.readBytes {view : ByteView} {a : Nat} {bytes : List UInt8}
    (h : view.Holds a bytes) : view.readBytes a bytes.length = some bytes := by
  induction bytes generalizing a with
  | nil => rfl
  | cons x xs ih =>
    rw [holds_cons] at h
    rw [List.length_cons, ByteView.readBytes, h.1, ih h.2]
    rfl

end ByteView
