import Mathlib.Data.List.Nodup
import Mathlib.Data.List.Perm.Basic
import Mathlib.Tactic.Common

/-!
# Insertion-ordered maps

A map that remembers the order in which its keys were first inserted, as a list of
pairs with distinct keys. `put` updates in place or appends, `del` takes one pair
out.

A family of such maps that can also be copied into each other is described by the
*history* of its operations, newest first: `latest` is the value a key was last
given and not since deprived of, and `order` the keys in order of insertion. The
maps built along the history (`replay`) have exactly these keys and values.
-/

namespace OrderedMap

universe u v w

variable {α : Type u} {β : Type v}

def keys (m : List (α × β)) : List α := m.map Prod.fst

@[simp] theorem keys_nil : keys ([] : List (α × β)) = [] := rfl
@[simp] theorem keys_cons (p : α × β) (m : List (α × β)) : keys (p :: m) = p.1 :: keys m := rfl

variable [DecidableEq α]

/-- Update the value of a key in place, or append the pair. -/
def put (k : α) (v : β) : List (α × β) → List (α × β)
  | [] => [(k, v)]
  | p :: rest => if p.1 = k then (k, v) :: rest else p :: put k v rest

/-- Take the pair of a key out. -/
def del (k : α) : List (α × β) → List (α × β)
  | [] => []
  | p :: rest => if p.1 = k then rest else p :: del k rest

theorem mem_put {k : α} {v : β} {m : List (α × β)} {p : α × β} (h : p ∈ put k v m) :
    p = (k, v) ∨ p ∈ m := by
  induction m with
  | nil => exact .inl (List.mem_singleton.mp h)
  | cons q rest ih =>
    rw [put] at h
    split_ifs at h
    · rcases List.mem_cons.mp h with h | h
      · exact .inl h
      · exact .inr (List.mem_cons_of_mem _ h)
    · rcases List.mem_cons.mp h with rfl | h
      · exact .inr List.mem_cons_self
      · exact (ih h).imp_right (List.mem_cons_of_mem _)

theorem mem_of_mem_del {k : α} {m : List (α × β)} {p : α × β} (h : p ∈ del k m) : p ∈ m := by
  induction m with
  | nil => exact h
  | cons q rest ih =>
    rw [del] at h
    split_ifs at h
    · exact List.mem_cons_of_mem _ h
    · rcases List.mem_cons.mp h with rfl | h
      · exact List.mem_cons_self
      · exact List.mem_cons_of_mem _ (ih h)

theorem put_of_notMem {k : α} {v : β} {m : List (α × β)} (h : k ∉ keys m) :
    put k v m = m ++ [(k, v)] := by
  induction m with
  | nil => rfl
  | cons p rest ih =>
    rw [keys_cons, List.mem_cons, not_or] at h
    rw [put, if_neg (Ne.symm h.1), ih h.2, List.cons_append]

/-- The pair of a key stays where it is. -/
theorem put_of_split {k : α} {v v' : β} {l₁ l₂ : List (α × β)} (h : k ∉ keys l₁) :
    put k v (l₁ ++ (k, v') :: l₂) = l₁ ++ (k, v) :: l₂ := by
  induction l₁ with
  | nil => rw [List.nil_append, put, if_pos rfl, List.nil_append]
  | cons p rest ih =>
    rw [keys_cons, List.mem_cons, not_or] at h
    rw [List.cons_append, put, if_neg (Ne.symm h.1), ih h.2, List.cons_append]

theorem del_of_split {k : α} {v : β} {l₁ l₂ : List (α × β)} (h : k ∉ keys l₁) :
    del k (l₁ ++ (k, v) :: l₂) = l₁ ++ l₂ := by
  induction l₁ with
  | nil => rw [List.nil_append, del, if_pos rfl, List.nil_append]
  | cons p rest ih =>
    rw [keys_cons, List.mem_cons, not_or] at h
    rw [List.cons_append, del, if_neg (Ne.symm h.1), ih h.2, List.cons_append]

theorem del_of_notMem {k : α} {m : List (α × β)} (h : k ∉ keys m) : del k m = m := by
  induction m with
  | nil => rfl
  | cons p rest ih =>
    rw [keys_cons, List.mem_cons, not_or] at h
    rw [del, if_neg (Ne.symm h.1), ih h.2]

theorem keys_put (k : α) (v : β) (m : List (α × β)) :
    keys (put k v m) = if k ∈ keys m then keys m else keys m ++ [k] := by
  induction m with
  | nil => rfl
  | cons p rest ih =>
    rw [put]
    by_cases hp : p.1 = k
    · rw [if_pos hp, if_pos (by rw [keys_cons, hp]; exact List.mem_cons_self), keys_cons, keys_cons,
        hp]
    · rw [if_neg hp, keys_cons, ih, keys_cons]
      by_cases hk : k ∈ keys rest
      · rw [if_pos hk, if_pos (List.mem_cons_of_mem _ hk)]
      · rw [if_neg hk, if_neg (by simp [hk, Ne.symm hp]), List.cons_append]

theorem keys_del (k : α) (m : List (α × β)) : keys (del k m) = (keys m).erase k := by
  induction m with
  | nil => rfl
  | cons p rest ih =>
    rw [del, keys_cons]
    by_cases hp : p.1 = k
    · rw [if_pos hp, hp, List.erase_cons_head]
    · rw [if_neg hp, keys_cons, ih, List.erase_cons_tail (by simpa using hp)]

theorem nodup_keys_put {k : α} {v : β} {m : List (α × β)} (h : (keys m).Nodup) :
    (keys (put k v m)).Nodup := by
  rw [keys_put]
  split_ifs with hk
  · exact h
  · exact List.nodup_append.mpr ⟨h, List.nodup_singleton k, fun a ha b hb => by
      rw [List.mem_singleton.mp hb]
      exact fun hab => hk (hab ▸ ha)⟩

theorem nodup_keys_del {k : α} {m : List (α × β)} (h : (keys m).Nodup) :
    (keys (del k m)).Nodup := by
  rw [keys_del]
  exact h.erase k

theorem lookup_cons_eq (k : α) (p : α × β) (m : List (α × β)) :
    (p :: m).lookup k = if p.1 = k then some p.2 else m.lookup k := by
  obtain ⟨a, b⟩ := p
  rw [List.lookup_cons]
  by_cases h : a = k
  · simp [h]
  · have hne : (k == a) = false := by simpa using Ne.symm h
    rw [hne, if_neg h]

theorem lookup_put (k k' : α) (v : β) (m : List (α × β)) :
    (put k v m).lookup k' = if k' = k then some v else m.lookup k' := by
  induction m with
  | nil =>
    rw [put, lookup_cons_eq]
    simp only [eq_comm]
  | cons p rest ih =>
    rw [put]
    by_cases hp : p.1 = k
    · rw [if_pos hp, lookup_cons_eq, lookup_cons_eq, hp]
      simp only [eq_comm (a := k)]
      split_ifs <;> rfl
    · rw [if_neg hp, lookup_cons_eq, lookup_cons_eq, ih]
      by_cases hk : k' = k
      · rw [if_neg (by rw [hk]; exact hp), if_pos hk, if_pos hk]
      · rw [if_neg hk, if_neg hk]

theorem lookup_eq_none_of_notMem {k : α} {m : List (α × β)} (h : k ∉ keys m) :
    m.lookup k = none := by
  induction m with
  | nil => rfl
  | cons p rest ih =>
    rw [keys_cons, List.mem_cons, not_or] at h
    rw [lookup_cons_eq, if_neg (Ne.symm h.1), ih h.2]

theorem lookup_del {k k' : α} {m : List (α × β)} (h : (keys m).Nodup) :
    (del k m).lookup k' = if k' = k then none else m.lookup k' := by
  induction m with
  | nil => simp [del]
  | cons p rest ih =>
    rw [keys_cons, List.nodup_cons] at h
    rw [del]
    by_cases hp : p.1 = k
    · rw [if_pos hp, lookup_cons_eq, hp]
      by_cases hk : k' = k
      · rw [if_pos hk, lookup_eq_none_of_notMem (by rw [hk, ← hp]; exact h.1)]
      · rw [if_neg hk, if_neg (Ne.symm hk)]
    · rw [if_neg hp, lookup_cons_eq, lookup_cons_eq, ih h.2]
      by_cases hk : k' = k
      · rw [if_neg (by rw [hk]; exact hp), if_pos hk, if_pos hk]
      · rw [if_neg hk, if_neg hk]

/-- A map is read off its keys and its lookup. -/
theorem eq_map_lookup {m : List (α × β)} (h : (keys m).Nodup) :
    m.map (fun p => (p.1, some p.2)) = (keys m).map fun k => (k, m.lookup k) := by
  induction m with
  | nil => rfl
  | cons p rest ih =>
    rw [keys_cons, List.nodup_cons] at h
    rw [List.map_cons, keys_cons, List.map_cons, ih h.2, lookup_cons_eq, if_pos rfl]
    congr 1
    refine List.map_congr_left fun k hk => ?_
    rw [lookup_cons_eq, if_neg]
    rintro rfl
    exact h.1 hk

/-! ## Histories -/

variable {ι : Type w} [DecidableEq ι]

/-- What happened to one of a family of maps. -/
inductive Event (ι : Type w) (α : Type u) (β : Type v) where
  | put (i : ι) (k : α) (v : β)
  | del (i : ι) (k : α)
  | clear (i : ι)
  /-- Map `target` became a copy of map `source`. -/
  | copy (source target : ι)

/-- The value key `k` was last given in map `i` and not since deprived of; events
are listed newest first. -/
def latest : List (Event ι α β) → ι → α → Option β
  | [], _, _ => none
  | .put i k v :: past, j, key => if j = i ∧ key = k then some v else latest past j key
  | .del i k :: past, j, key => if j = i ∧ key = k then none else latest past j key
  | .clear i :: past, j, key => if j = i then none else latest past j key
  | .copy source target :: past, j, key =>
    if j = target then latest past source key else latest past j key

/-- The keys of map `i` in the order they were first inserted. -/
def order : List (Event ι α β) → ι → List α
  | [], _ => []
  | .put i k _ :: past, j =>
    if j = i ∧ k ∉ order past j then order past j ++ [k] else order past j
  | .del i k :: past, j => if j = i then (order past j).erase k else order past j
  | .clear i :: past, j => if j = i then [] else order past j
  | .copy source target :: past, j => if j = target then order past source else order past j

/-- The maps a history leaves. -/
def replay : List (Event ι α β) → ι → List (α × β)
  | [], _ => []
  | .put i k v :: past, j => if j = i then OrderedMap.put k v (replay past j) else replay past j
  | .del i k :: past, j => if j = i then OrderedMap.del k (replay past j) else replay past j
  | .clear i :: past, j => if j = i then [] else replay past j
  | .copy source target :: past, j => if j = target then replay past source else replay past j

/-- Every pair was put there. -/
theorem mem_replay {past : List (Event ι α β)} {i : ι} {p : α × β} (h : p ∈ replay past i) :
    ∃ j, Event.put j p.1 p.2 ∈ past := by
  induction past generalizing i with
  | nil => cases h
  | cons event past ih =>
    have hpast : ∀ {i}, p ∈ replay past i → ∃ j, Event.put j p.1 p.2 ∈ event :: past := by
      intro i hp
      obtain ⟨j, hj⟩ := ih hp
      exact ⟨j, List.mem_cons_of_mem _ hj⟩
    cases event with
    | put j k v =>
      rw [replay] at h
      split_ifs at h
      · rcases mem_put h with rfl | h
        · exact ⟨j, List.mem_cons_self⟩
        · exact hpast h
      · exact hpast h
    | del j k =>
      rw [replay] at h
      split_ifs at h
      · exact hpast (mem_of_mem_del h)
      · exact hpast h
    | clear j =>
      rw [replay] at h
      split_ifs at h
      · cases h
      · exact hpast h
    | copy source target =>
      rw [replay] at h
      split_ifs at h
      · exact hpast h
      · exact hpast h

theorem keys_replay (past : List (Event ι α β)) (i : ι) : keys (replay past i) = order past i := by
  induction past generalizing i with
  | nil => rfl
  | cons event past ih =>
    cases event with
    | put j k v =>
      rw [replay, order, ← ih]
      by_cases hi : i = j
      · rw [if_pos hi, keys_put]
        by_cases hk : k ∈ keys (replay past i)
        · rw [if_pos hk, if_neg (by simp [hk])]
        · rw [if_neg hk, if_pos ⟨hi, hk⟩]
      · rw [if_neg hi, if_neg (by simp [hi])]
    | del j k =>
      rw [replay, order, ← ih]
      split_ifs
      · exact keys_del k _
      · rfl
    | clear j =>
      rw [replay, order, ← ih]
      split_ifs <;> rfl
    | copy source target =>
      rw [replay, order, ← ih, ← ih]
      split_ifs <;> rfl

theorem nodup_replay (past : List (Event ι α β)) (i : ι) : (keys (replay past i)).Nodup := by
  induction past generalizing i with
  | nil => exact List.nodup_nil
  | cons event past ih =>
    cases event with
    | put j k v =>
      rw [replay]
      split_ifs
      · exact nodup_keys_put (ih i)
      · exact ih i
    | del j k =>
      rw [replay]
      split_ifs
      · exact nodup_keys_del (ih i)
      · exact ih i
    | clear j =>
      rw [replay]
      split_ifs
      · exact List.nodup_nil
      · exact ih i
    | copy source target =>
      rw [replay]
      split_ifs
      · exact ih source
      · exact ih i

theorem lookup_replay (past : List (Event ι α β)) (i : ι) (key : α) :
    (replay past i).lookup key = latest past i key := by
  induction past generalizing i with
  | nil => rfl
  | cons event past ih =>
    cases event with
    | put j k v =>
      rw [replay, latest, ← ih]
      by_cases hi : i = j
      · rw [if_pos hi, lookup_put]
        simp only [hi, true_and]
      · rw [if_neg hi, if_neg (by simp [hi])]
    | del j k =>
      rw [replay, latest, ← ih]
      by_cases hi : i = j
      · rw [if_pos hi, lookup_del (nodup_replay past i)]
        simp only [hi, true_and]
      · rw [if_neg hi, if_neg (by simp [hi])]
    | clear j =>
      rw [replay, latest, ← ih]
      split_ifs <;> rfl
    | copy source target =>
      rw [replay, latest, ← ih, ← ih]
      split_ifs <;> rfl

end OrderedMap
