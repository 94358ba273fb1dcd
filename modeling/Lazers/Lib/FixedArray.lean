import Mathlib.Data.List.GetD
import Mathlib.Tactic.Common

/-!
# Fixed arrays with a length

A `[T; N]` next to a count of how many elements are in use. What lies behind the
count is stale: operations may leave old contents there, and `used` does not see
them.

- `writeAt v offset l`: copy a slice into the array.
- `shiftDown`: close the gap a removed element leaves, by moving the elements
  behind it one place down.
-/

namespace FixedArray

universe u

variable {α : Type u} {n : Nat}

/-- The first `len` elements. -/
def used (v : Vector α n) (len : Nat) : List α := v.toList.take len

theorem length_used (v : Vector α n) {len : Nat} (h : len ≤ n) : (used v len).length = len := by
  simp [used, h]

@[simp] theorem used_zero (v : Vector α n) : used v 0 = [] := rfl

theorem getElem?_used (v : Vector α n) {len i : Nat} (hi : i < len) :
    (used v len)[i]? = v[i]? := by
  rw [used, List.getElem?_take_of_lt hi, Vector.getElem?_toList]

theorem used_take (v : Vector α n) {len len' : Nat} (h : len ≤ len') :
    used v len = (used v len').take len := by
  rw [used, used, List.take_take, Nat.min_eq_left h]

/-- The used part is given by its elements. -/
theorem used_eq_of_getElem? {v : Vector α n} {len : Nat} {l : List α} (hlen : l.length = len)
    (hle : len ≤ n) (h : ∀ i < len, v[i]? = l[i]?) : used v len = l := by
  refine List.ext_getElem? fun i => ?_
  by_cases hi : i < len
  · rw [getElem?_used v hi, h i hi]
  · rw [List.getElem?_eq_none (by rw [length_used v hle]; omega),
      List.getElem?_eq_none (by omega)]

theorem used_succ (v : Vector α n) {len : Nat} {x : α} (h : v[len]? = some x) :
    used v (len + 1) = used v len ++ [x] := by
  rw [used, List.take_add_one, Vector.getElem?_toList, h]
  rfl

/-! ## One element -/

theorem used_set (v : Vector α n) (len i : Nat) (x : α) :
    used (v.setIfInBounds i x) len = (used v len).set i x := by
  rw [used, used, Vector.toList_setIfInBounds, List.take_set]

theorem used_set_of_le {v : Vector α n} {len i : Nat} {x : α} (hi : len ≤ i) :
    used (v.setIfInBounds i x) len = used v len := by
  rw [used, used, Vector.toList_setIfInBounds, List.take_set_of_le hi]

/-- Storing right behind the used part extends it. -/
theorem used_push {v : Vector α n} {len : Nat} (x : α) (h : len < n) :
    used (v.setIfInBounds len x) (len + 1) = used v len ++ [x] := by
  rw [used_succ _ (by simp [h] : (v.setIfInBounds len x)[len]? = some x), used_set_of_le (Nat.le_refl _)]

/-! ## Copying a slice -/

/-- `v[offset..offset + l.len()].copy_from_slice(l)`. -/
def writeAt (v : Vector α n) (offset : Nat) (l : List α) : Vector α n :=
  Vector.ofFn fun i => if offset ≤ i.val then l.getD (i.val - offset) v[i] else v[i]

theorem getElem?_writeAt (v : Vector α n) (offset : Nat) (l : List α) {i : Nat}
    (hi : i < n) :
    (writeAt v offset l)[i]? =
      if offset ≤ i ∧ i < offset + l.length then l[i - offset]? else v[i]? := by
  have hget : v[i]? = some v[i] := Vector.getElem?_eq_getElem hi
  rw [writeAt, Vector.getElem?_ofFn, dif_pos hi]
  show some (if offset ≤ i then l.getD (i - offset) v[i] else v[i]) = _
  by_cases hlo : offset ≤ i
  · by_cases hhi : i < offset + l.length
    · rw [if_pos (And.intro hlo hhi), if_pos hlo, List.getD_eq_getElem _ _ (by omega),
        List.getElem?_eq_getElem]
    · rw [if_pos hlo, if_neg fun h => hhi h.2, List.getD_eq_default _ _ (by omega), hget]
  · rw [if_neg hlo, if_neg fun h => hlo h.1, hget]

/-- Everything up to the end of the slice. -/
theorem used_writeAt (v : Vector α n) (offset : Nat) {l : List α} (h : offset + l.length ≤ n) :
    used (writeAt v offset l) (offset + l.length) = used v offset ++ l := by
  have hlen : (used v offset).length = offset := length_used v (by omega)
  refine used_eq_of_getElem? (by rw [List.length_append, hlen]) h fun i hi => ?_
  rw [getElem?_writeAt v offset l (by omega)]
  by_cases hlo : offset ≤ i
  · rw [if_pos ⟨hlo, hi⟩, List.getElem?_append_right (by omega), hlen]
  · rw [if_neg (by omega), List.getElem?_append_left (by omega), getElem?_used v (by omega)]

/-- What is before the slice and what is behind it stays. -/
theorem toList_writeAt (v : Vector α n) (offset : Nat) {l : List α} (h : offset + l.length ≤ n) :
    (writeAt v offset l).toList =
      v.toList.take offset ++ (l ++ v.toList.drop (offset + l.length)) := by
  have hlen : v.toList.length = n := v.length_toList
  refine List.ext_getElem? fun i => ?_
  by_cases hi : i < n
  · rw [Vector.getElem?_toList, getElem?_writeAt v offset l hi]
    by_cases hlo : offset ≤ i
    · rw [List.getElem?_append_right (by rw [List.length_take]; omega), List.length_take,
        show i - min offset v.toList.length = i - offset by omega]
      by_cases hhi : i < offset + l.length
      · rw [if_pos ⟨hlo, hhi⟩, List.getElem?_append_left (by omega)]
      · rw [if_neg fun h => hhi h.2, List.getElem?_append_right (by omega), List.getElem?_drop,
          ← Vector.getElem?_toList]
        congr 1
        omega
    · rw [if_neg fun h => hlo h.1, List.getElem?_append_left (by rw [List.length_take]; omega),
        List.getElem?_take_of_lt (by omega), Vector.getElem?_toList]
  · rw [List.getElem?_eq_none (by rw [Vector.length_toList]; omega), List.getElem?_eq_none]
    simp only [List.length_append, List.length_take, List.length_drop]
    omega

/-! ## Closing a gap -/

/-- `while current + 1 < len { v[current] = v[current + 1]; current += 1 }`. -/
def shiftDown : (rounds current : Nat) → Vector α n → Vector α n
  | 0, _, v => v
  | rounds + 1, current, v =>
    shiftDown rounds (current + 1)
      (match v[current + 1]? with
        | some x => v.setIfInBounds current x
        | none => v)

theorem getElem?_shiftDown (rounds current : Nat) (v : Vector α n) (h : current + rounds < n)
    (i : Nat) :
    (shiftDown rounds current v)[i]? =
      if current ≤ i ∧ i < current + rounds then v[i + 1]? else v[i]? := by
  induction rounds generalizing current v with
  | zero => rw [shiftDown, if_neg (by omega)]
  | succ rounds ih =>
    have hnext : v[current + 1]? = some (v[current + 1]) := by
      rw [Vector.getElem?_eq_getElem]
    rw [shiftDown, ih _ _ (by omega)]
    simp only [hnext]
    simp only [Vector.getElem?_setIfInBounds]
    by_cases hi : i = current
    · subst hi
      rw [if_neg (by omega), if_pos rfl, if_pos (by omega), if_pos (by omega), hnext]
    · by_cases hin : current + 1 ≤ i ∧ i < current + 1 + rounds
      · rw [if_pos hin, if_neg (by omega), if_pos (by omega)]
      · rw [if_neg hin, if_neg (Ne.symm hi), if_neg (by omega)]

/-- The element at `current` is gone. -/
theorem used_shiftDown {v : Vector α n} {len current : Nat} (hc : current < len) (hle : len ≤ n) :
    used (shiftDown (len - 1 - current) current v) (len - 1) = (used v len).eraseIdx current := by
  have hlen := length_used v hle
  refine used_eq_of_getElem? ?_ (by omega) fun i hi => ?_
  · rw [List.length_eraseIdx_of_lt (by omega), hlen]
  · rw [getElem?_shiftDown _ _ _ (by omega), List.getElem?_eraseIdx]
    by_cases hlt : i < current
    · rw [if_neg (by omega), if_pos hlt, getElem?_used v (by omega)]
    · rw [if_pos (by omega), if_neg hlt, getElem?_used v (by omega)]

end FixedArray
