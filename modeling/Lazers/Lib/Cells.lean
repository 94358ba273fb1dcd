import Mathlib.Tactic.Common

/-!
# Memory behind slices

`Cells α` is memory by index. Code reaches it through a slice of its first `len` cells, and an
access outside of the slice is a panic, `none`. `bound` lies above every index that was written.

`Loop.foldlM_range` is the rule for a counted loop: what holds before it and is kept by each
round.
-/

universe u v

structure Cells (α : Type u) where
  get : Nat → α
  bound : Nat

namespace Cells

variable {α : Type u} {m : Cells α} {len i start stop dest : Nat} {a : α}

/-- `slice[i]`. -/
def read (m : Cells α) (len i : Nat) : Option α := if i < len then some (m.get i) else none

/-- `slice[i] = a`. -/
def write (m : Cells α) (len i : Nat) (a : α) : Option (Cells α) :=
  if i < len then
    some { get := fun j => if j = i then a else m.get j, bound := max m.bound (i + 1) }
  else none

/-- The write of `a` to each cell of `slice[start..stop]`. -/
def fill (m : Cells α) (len start stop : Nat) (a : α) : Option (Cells α) :=
  if start ≤ stop ∧ stop ≤ len then
    some {
      get := fun j => if start ≤ j ∧ j < stop then a else m.get j
      bound := max m.bound stop }
  else none

/-- `slice.copy_within(start..stop, dest)`. -/
def copyWithin (m : Cells α) (len start stop dest : Nat) : Option (Cells α) :=
  if start ≤ stop ∧ stop ≤ len ∧ dest + (stop - start) ≤ len then
    some {
      get := fun j =>
        if dest ≤ j ∧ j < dest + (stop - start) then m.get (start + (j - dest)) else m.get j
      bound := max m.bound (dest + (stop - start)) }
  else none

theorem read_of_lt (h : i < len) : m.read len i = some (m.get i) := if_pos h

theorem max_le_max_left {b n : Nat} (h : n ≤ len) : max b n ≤ max b len := by omega

theorem write_of_lt (h : i < len) : ∃ m', m.write len i a = some m' ∧ m'.bound ≤ max m.bound len ∧
    ∀ j, m'.get j = if j = i then a else m.get j :=
  ⟨_, if_pos h, max_le_max_left h, fun _ => rfl⟩

theorem fill_of_le (hle : start ≤ stop) (h : stop ≤ len) :
    ∃ m', m.fill len start stop a = some m' ∧ m'.bound ≤ max m.bound len ∧
      ∀ j, m'.get j = if start ≤ j ∧ j < stop then a else m.get j :=
  ⟨_, if_pos ⟨hle, h⟩, max_le_max_left h, fun _ => rfl⟩

theorem copyWithin_of_le (hle : start ≤ stop) (h : stop ≤ len) (hdest : dest ≤ start) :
    ∃ m', m.copyWithin len start stop dest = some m' ∧ m'.bound ≤ max m.bound len ∧
      ∀ j, m'.get j =
        if dest ≤ j ∧ j < dest + (stop - start) then m.get (start + (j - dest)) else m.get j :=
  have hfits : dest + (stop - start) ≤ len := by omega
  ⟨_, if_pos ⟨hle, h, hfits⟩, max_le_max_left hfits, fun _ => rfl⟩

end Cells

/-! ## Counted loops -/

namespace Loop

variable {σ : Type u} {f : σ → Nat → Option σ} {P : Nat → σ → Prop} {n : Nat} {s : σ}

/-- **The rule for a counted loop** that may panic. -/
theorem foldlM_range (h : P 0 s)
    (hstep : ∀ i < n, ∀ s, P i s → ∃ s', f s i = some s' ∧ P (i + 1) s') :
    ∃ s', (List.range n).foldlM f s = some s' ∧ P n s' := by
  induction n with
  | zero => exact ⟨s, rfl, h⟩
  | succ n ih =>
    obtain ⟨s₁, hrun, hs₁⟩ := ih fun i hi => hstep i (Nat.lt_succ_of_lt hi)
    obtain ⟨s', hlast, hs'⟩ := hstep n (Nat.lt_succ_self n) s₁ hs₁
    refine ⟨s', ?_, hs'⟩
    rw [List.range_succ, List.foldlM_append, hrun]
    show (f s₁ n >>= fun s => [].foldlM f s) = _
    rw [hlast]
    rfl

end Loop
