import Mathlib.Data.List.Rotate

/-!
# Round robin

A table of `m` slots, some of which are ready. The next one is looked for behind the current
one, round to the current one itself. `order p m c` has the ready slots in the order of that
search; its head is the next current one, and from there the order is the same, turned by one
(`order_of_cons`).
-/

namespace RoundRobin

variable {p : Nat → Bool} {m c d : Nat}

/-- The slots from behind `c` round to `c`. -/
def scanned (m c : Nat) : List Nat := (List.range m).rotate (c + 1)

/-- The ready ones among them. -/
def order (p : Nat → Bool) (m c : Nat) : List Nat := (scanned m c).filter p

theorem length_scanned (m c : Nat) : (scanned m c).length = m := by
  rw [scanned, List.length_rotate, List.length_range]

theorem getElem_scanned {i : Nat} (h : i < (scanned m c).length) :
    (scanned m c)[i] = (c + 1 + i) % m := by
  simp only [scanned, List.getElem_rotate, List.length_range, List.getElem_range]
  rw [Nat.add_comm i]

theorem mem_order {t : Nat} : t ∈ order p m c ↔ t < m ∧ p t = true := by
  rw [order, List.mem_filter, scanned, List.mem_rotate, List.mem_range]

theorem nodup_order : (order p m c).Nodup :=
  (List.nodup_rotate.mpr List.nodup_range).filter p

theorem length_order : (order p m c).length = ((List.range m).filter p).length :=
  ((List.rotate_perm _ _).filter p).length_eq

/-- Where the search starts does not depend on how often it went round. -/
theorem scanned_mod (m c : Nat) : scanned m (c % m) = scanned m c := by
  have hmod : ∀ n, (List.range m).rotate n = (List.range m).rotate (n % m) := by
    intro n
    have h := List.rotate_mod (List.range m) n
    rw [List.length_range] at h
    exact h.symm
  rw [scanned, scanned, hmod, hmod (c + 1), Nat.mod_add_mod]

/-- **The next search** starts behind what this one found. -/
theorem order_of_cons {rest : List Nat} (h : order p m c = d :: rest) :
    order p m d = rest ++ [d] := by
  obtain ⟨before, behind, hsplit, hbefore, hd, hbehind⟩ := List.filter_eq_cons_iff.mp h
  have hlt : before.length < (scanned m c).length := by
    rw [hsplit, List.length_append, List.length_cons]
    omega
  have hslot : d = (c + 1 + before.length) % m := by
    rw [← getElem_scanned hlt, List.getElem_of_eq hsplit]
    simp
  have hturned : scanned m d = behind ++ (before ++ [d]) := by
    rw [hslot, scanned_mod, ← hslot, scanned, Nat.add_assoc, ← List.rotate_rotate, ← scanned, hsplit]
    have hlen : before.length + 1 = (before ++ [d]).length := by simp
    rw [hlen, List.append_cons]
    exact List.rotate_append_length_eq _ _
  have hnone : before.filter p = [] := List.filter_eq_nil_iff.mpr fun a ha => hbefore a ha
  rw [order, hturned, List.filter_append, List.filter_append, hbehind, hnone, List.nil_append,
    List.filter_cons_of_pos hd, List.filter_nil]

/-- The search ends where it came from. -/
theorem order_eq_append (h : c < m) (hc : p c = true) : ∃ xs, order p m c = xs ++ [c] := by
  have hpos : 0 < (scanned m c).length := by
    rw [length_scanned]
    omega
  have hlast : (scanned m c).getLast (List.ne_nil_of_length_pos hpos) = c := by
    rw [List.getLast_eq_getElem, getElem_scanned, length_scanned,
      show c + 1 + (m - 1) = c + m by omega, Nat.add_mod_right, Nat.mod_eq_of_lt h]
  have hsplit := List.dropLast_append_getLast (List.ne_nil_of_length_pos hpos)
  rw [hlast] at hsplit
  refine ⟨(scanned m c).dropLast.filter p, ?_⟩
  rw [order, ← hsplit, List.filter_append, List.filter_cons_of_pos hc, List.filter_nil]
  rw [hsplit]

end RoundRobin
