import Mathlib.Tactic.Common

/-!
# Ring buffers

A queue in a fixed array: the elements lie in consecutive slots from `start`, going round
at the end. `Ring.Holds` relates the array and its indices to the list of queued elements;
writing behind the last one appends, and moving `start` on takes the first one away.
-/

universe u

namespace Ring

variable {α : Type u} {n : Nat}

/-- The slots from `start` hold `l`, and `write` is the slot behind. -/
structure Holds (v : Vector α n) (start write len : Nat) (l : List α) : Prop where
  len_eq : len = l.length
  len_le : l.length ≤ n
  start_lt : start < n
  write_eq : write = (start + l.length) % n
  slots : ∀ i < l.length, v[(start + i) % n]? = l[i]?

theorem mod_eq_ite {start i : Nat} (hs : start < n) (hi : i ≤ n) :
    (start + i) % n = if start + i < n then start + i else start + i - n := by
  split_ifs with h
  · exact Nat.mod_eq_of_lt h
  · rw [Nat.mod_eq_sub_mod (by omega), Nat.mod_eq_of_lt (by omega)]

theorem Holds.empty {v : Vector α n} (hn : 0 < n) : Holds v 0 0 0 [] :=
  ⟨rfl, Nat.zero_le _, hn, by simp, fun i hi => absurd hi (Nat.not_lt_zero i)⟩

namespace Holds

variable {v : Vector α n} {start write len : Nat} {l : List α}

theorem push (h : Holds v start write len l) (hroom : l.length < n) (a : α) :
    Holds (v.setIfInBounds write a) start ((write + 1) % n) (len + 1) (l ++ [a]) where
  len_eq := by rw [h.len_eq, List.length_append, List.length_singleton]
  len_le := by
    rw [List.length_append, List.length_singleton]
    exact hroom
  start_lt := h.start_lt
  write_eq := by
    rw [h.write_eq, List.length_append, List.length_singleton, Nat.mod_add_mod, Nat.add_assoc]
  slots := by
    intro i hi
    rw [List.length_append, List.length_singleton] at hi
    have hs := h.start_lt
    have hi' := mod_eq_ite hs (by omega : i ≤ n)
    have hw := mod_eq_ite hs h.len_le
    rw [Vector.getElem?_setIfInBounds, h.write_eq]
    by_cases hlast : i = l.length
    · subst hlast
      rw [if_pos rfl, if_pos (Nat.mod_lt _ (by omega)), List.getElem?_concat_length]
    · -- A slot in use is not the one behind the last.
      have hne : (start + l.length) % n ≠ (start + i) % n := by
        rw [hi', hw]
        split_ifs <;> omega
      rw [if_neg hne, h.slots i (by omega), List.getElem?_append_left (by omega)]

theorem pop {a : α} (h : Holds v start write len (a :: l)) :
    v[start]? = some a ∧ Holds v ((start + 1) % n) write (len - 1) l := by
  have hlen := h.len_le
  rw [List.length_cons] at hlen
  have hmod : ∀ i, ((start + 1) % n + i) % n = (start + (i + 1)) % n := by
    intro i
    rw [Nat.mod_add_mod, Nat.add_assoc, Nat.add_comm 1 i]
  constructor
  · have hfirst := h.slots 0 (by simp)
    rwa [Nat.add_zero, Nat.mod_eq_of_lt h.start_lt, List.getElem?_cons_zero] at hfirst
  · constructor
    · rw [h.len_eq, List.length_cons, Nat.add_sub_cancel]
    · omega
    · exact Nat.mod_lt _ (by omega)
    · rw [h.write_eq, hmod, List.length_cons]
    · intro i hi
      rw [hmod, h.slots (i + 1) (by simp [hi]), List.getElem?_cons_succ]

/-- The slot that was popped is free for anything. -/
theorem pop_set {a : α} (h : Holds v start write len (a :: l)) (b : α) :
    Holds (v.setIfInBounds start b) ((start + 1) % n) write (len - 1) l := by
  obtain ⟨-, hrest⟩ := h.pop
  have hlen := h.len_le
  rw [List.length_cons] at hlen
  refine ⟨hrest.len_eq, hrest.len_le, hrest.start_lt, hrest.write_eq, fun i hi => ?_⟩
  have hslot : ((start + 1) % n + i) % n = (start + (i + 1)) % n := by
    rw [Nat.mod_add_mod, Nat.add_assoc, Nat.add_comm 1 i]
  -- A slot in use is not the one that was popped.
  have hne : start ≠ ((start + 1) % n + i) % n := by
    rw [hslot, mod_eq_ite h.start_lt (by omega)]
    have hs := h.start_lt
    split_ifs <;> omega
  rw [Vector.getElem?_setIfInBounds, if_neg hne]
  exact hrest.slots i hi

/-- The array determines what is queued. -/
theorem unique {l' : List α} (h : Holds v start write len l) (h' : Holds v start write len l') :
    l = l' := by
  have hlen : l.length = l'.length := h.len_eq.symm.trans h'.len_eq
  refine List.ext_getElem? fun i => ?_
  by_cases hi : i < l.length
  · rw [← h.slots i hi, h'.slots i (hlen ▸ hi)]
  · rw [List.getElem?_eq_none (by omega), List.getElem?_eq_none (by omega)]

end Holds

end Ring
