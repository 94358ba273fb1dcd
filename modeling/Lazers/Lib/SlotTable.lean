import Mathlib.Data.List.Nodup
import Mathlib.Data.List.Perm.Subperm
import Mathlib.Tactic.Common

/-!
# Tables of optional slots

A `[Option<T>; N]` whose indices serve as identifiers. Reading an index that is
free or past the end gives nothing.

- `get`, `put`: one slot.
- `firstFree`: the slot a new element goes to.
- `Holds t key l`: the table holds exactly the elements of `l`, each in the slot
  that its key names. Up to permutation, an update, a removal and an insertion act
  on the head of `l`.
-/

namespace SlotTable

universe u

variable {α : Type u} {n : Nat}

/-- The element in slot `i`, if there is one. -/
def get (t : Vector (Option α) n) (i : Nat) : Option α := (t[i]?).join

def put (t : Vector (Option α) n) (i : Nat) (x : Option α) : Vector (Option α) n :=
  t.setIfInBounds i x

/-- `t.iter().position(|slot| slot.is_none())`. -/
def firstFree (t : Vector (Option α) n) : Option Nat := t.toList.findIdx? Option.isNone

variable {t : Vector (Option α) n} {i j : Nat} {x : Option α}

theorem get_eq (h : i < n) : get t i = t[i] := by
  rw [get, Vector.getElem?_eq_getElem h]
  rfl

theorem lt_of_get {a : α} (h : get t i = some a) : i < n := by
  by_contra hge
  rw [get, Vector.getElem?_eq_none (Nat.le_of_not_lt hge)] at h
  cases h

theorem get_put_self (h : i < n) : get (put t i x) i = x := by
  rw [get, put, Vector.getElem?_setIfInBounds_self_of_lt h]
  rfl

theorem get_put_of_ne (h : i ≠ j) : get (put t i x) j = get t j := by
  rw [get, put, Vector.getElem?_setIfInBounds_ne h]
  rfl

theorem get_put {a : α} (hold : get t i = some a) :
    get (put t i x) j = if i = j then x else get t j := by
  by_cases h : i = j
  · subst h
    rw [if_pos rfl, get_put_self (lt_of_get hold)]
  · rw [if_neg h, get_put_of_ne h]

@[simp] theorem get_replicate_none : get (Vector.replicate n (none : Option α)) i = none := by
  by_cases h : i < n
  · rw [get_eq h, Vector.getElem_replicate]
  · rw [get, Vector.getElem?_eq_none (Nat.le_of_not_lt h)]
    rfl

/-- The last write to a slot counts. -/
theorem put_put (x y : Option α) : put (put t i x) i y = put t i y := by
  rw [put, put, put]
  ext j hj
  by_cases h : i = j
  · subst h
    simp
  · simp [h]

/-- Writing what is there changes nothing. -/
theorem put_of_get (h : get t i = x) : put t i x = t := by
  rw [put]
  ext j hj
  by_cases hij : i = j
  · subst hij
    rw [Vector.getElem_setIfInBounds_self, ← h, get_eq hj]
  · rw [Vector.getElem_setIfInBounds_ne hj hij]

/-- The first free slot is in the table and free. -/
theorem firstFree_eq_some (h : firstFree t = some i) : i < n ∧ get t i = none := by
  rw [firstFree, List.findIdx?_eq_some_iff_getElem] at h
  obtain ⟨hlen, hnone, -⟩ := h
  rw [Vector.length_toList] at hlen
  rw [Vector.getElem_toList] at hnone
  exact ⟨hlen, by rw [get_eq hlen]; exact Option.isNone_iff_eq_none.mp hnone⟩

/-- Without a free slot the table is full. -/
theorem firstFree_eq_none (h : firstFree t = none) (hi : i < n) : ∃ a, get t i = some a := by
  rw [firstFree, List.findIdx?_eq_none_iff] at h
  have hmem : t[i] ∈ t.toList := by simp
  rw [get_eq hi]
  exact Option.isSome_iff_exists.mp (Option.isNone_eq_false_iff.mp (h _ hmem))

/-! ## The contents of a table -/

/-- The table holds the elements of `l`, in the slots their keys name. -/
structure Holds (t : Vector (Option α) n) (key : α → Nat) (l : List α) : Prop where
  get_iff : ∀ i a, get t i = some a ↔ a ∈ l ∧ key a = i
  nodup : (l.map key).Nodup

namespace Holds

variable {key : α → Nat} {l l' : List α} {a b : α}

theorem replicate_none (key : α → Nat) :
    Holds (Vector.replicate n (none : Option α)) key [] where
  get_iff i a := by simp
  nodup := List.nodup_nil

theorem get_of_mem (h : Holds t key l) (ha : a ∈ l) : get t (key a) = some a :=
  (h.get_iff _ _).mpr ⟨ha, rfl⟩

theorem lt_of_mem (h : Holds t key l) (ha : a ∈ l) : key a < n := lt_of_get (h.get_of_mem ha)

theorem perm (h : Holds t key l) (hperm : l.Perm l') : Holds t key l' where
  get_iff i a := by rw [h.get_iff, hperm.mem_iff]
  nodup := (hperm.map key).nodup_iff.mp h.nodup

theorem key_notMem (h : Holds t key (a :: l)) (hb : b ∈ l) : key b ≠ key a := by
  have hnodup := h.nodup
  rw [List.map_cons, List.nodup_cons] at hnodup
  intro heq
  exact hnodup.1 (heq ▸ List.mem_map_of_mem hb)

/-- Keys name elements. -/
theorem eq_of_key_eq (h : Holds t key l) (ha : a ∈ l) (hb : b ∈ l) (heq : key a = key b) :
    a = b := by
  have hget := h.get_of_mem ha
  rw [heq, h.get_of_mem hb] at hget
  exact (Option.some.inj hget).symm

/-- An element changes and keeps its slot. -/
theorem update (h : Holds t key (a :: l)) (hkey : key b = key a) :
    Holds (put t (key a) (some b)) key (b :: l) where
  get_iff i c := by
    rw [get_put (h.get_of_mem List.mem_cons_self), List.mem_cons]
    by_cases hi : key a = i
    · rw [if_pos hi, Option.some.injEq]
      constructor
      · rintro rfl
        exact ⟨.inl rfl, hkey.trans hi⟩
      · rintro ⟨rfl | hc, hci⟩
        · rfl
        · exact absurd (hci.trans hi.symm) (h.key_notMem hc)
    · rw [if_neg hi, h.get_iff, List.mem_cons]
      constructor
      · rintro ⟨rfl | hc, hci⟩
        · exact absurd hci hi
        · exact ⟨.inr hc, hci⟩
      · rintro ⟨rfl | hc, hci⟩
        · exact absurd (hkey.symm.trans hci) hi
        · exact ⟨.inr hc, hci⟩
  nodup := by
    rw [List.map_cons, hkey, ← List.map_cons]
    exact h.nodup

/-- The same at any place of the list. -/
theorem modify [DecidableEq α] (h : Holds t key l) (ha : a ∈ l) (f : α → α)
    (hf : key (f a) = key a) :
    Holds (put t (key a) (some (f a))) key (l.map fun x => if key x = key a then f x else x) := by
  have hrest : ∀ x ∈ l.erase a, (if key x = key a then f x else x) = x := by
    intro x hx
    exact if_neg ((h.perm (List.perm_cons_erase ha)).key_notMem hx)
  refine ((h.perm (List.perm_cons_erase ha)).update hf).perm ?_
  refine List.Perm.trans ?_ ((List.perm_cons_erase ha).map _).symm
  rw [List.map_cons, if_pos rfl, List.map_congr_left hrest, List.map_id']

/-- An element leaves. -/
theorem remove (h : Holds t key (a :: l)) : Holds (put t (key a) none) key l where
  get_iff i c := by
    rw [get_put (h.get_of_mem List.mem_cons_self)]
    by_cases hi : key a = i
    · rw [if_pos hi]
      constructor
      · intro hc
        cases hc
      · rintro ⟨hc, hci⟩
        exact absurd (hci.trans hi.symm) (h.key_notMem hc)
    · rw [if_neg hi, h.get_iff, List.mem_cons]
      constructor
      · rintro ⟨rfl | hc, hci⟩
        · exact absurd hci hi
        · exact ⟨hc, hci⟩
      · rintro ⟨hc, hci⟩
        exact ⟨.inr hc, hci⟩
  nodup := (List.nodup_cons.mp h.nodup).2

/-- An element arrives in a free slot. -/
theorem insert (h : Holds t key l) (hfree : get t i = none) (hi : i < n) (hkey : key a = i) :
    Holds (put t i (some a)) key (a :: l) where
  get_iff j c := by
    rw [List.mem_cons]
    by_cases hij : i = j
    · subst hij
      rw [get_put_self hi, Option.some.injEq]
      constructor
      · rintro rfl
        exact ⟨.inl rfl, hkey⟩
      · rintro ⟨rfl | hc, hci⟩
        · rfl
        · rw [← hci, h.get_of_mem hc] at hfree
          cases hfree
    · rw [get_put_of_ne hij, h.get_iff]
      constructor
      · rintro ⟨hc, hci⟩
        exact ⟨.inr hc, hci⟩
      · rintro ⟨rfl | hc, hci⟩
        · exact absurd (hkey.symm.trans hci) hij
        · exact ⟨hc, hci⟩
  nodup := by
    rw [List.map_cons, List.nodup_cons]
    refine ⟨fun hmem => ?_, h.nodup⟩
    obtain ⟨b, hb, hbi⟩ := List.mem_map.mp hmem
    rw [hkey] at hbi
    rw [← hbi, h.get_of_mem hb] at hfree
    cases hfree

/-- A table with `n` slots holds at most `n` elements. -/
theorem length_le (h : Holds t key l) : l.length ≤ n := by
  have hsub : l.map key ⊆ List.range n := by
    intro i hi
    obtain ⟨a, ha, rfl⟩ := List.mem_map.mp hi
    exact List.mem_range.mpr (h.lt_of_mem ha)
  have hle := (h.nodup.subperm hsub).length_le
  rwa [List.length_map, List.length_range] at hle

/-- It holds `n` when no slot is free. -/
theorem length_eq (h : Holds t key l) (hfull : firstFree t = none) : l.length = n := by
  have hsub : List.range n ⊆ l.map key := by
    intro i hi
    obtain ⟨a, ha⟩ := firstFree_eq_none hfull (List.mem_range.mp hi)
    obtain ⟨hmem, rfl⟩ := (h.get_iff i a).mp ha
    exact List.mem_map_of_mem hmem
  have hle := (List.nodup_range.subperm hsub).length_le
  rw [List.length_map, List.length_range] at hle
  exact Nat.le_antisymm h.length_le hle

end Holds

end SlotTable
