import Mathlib.Data.List.Infix
import Mathlib.Tactic.Common

/-!
# The first occurrence of a pattern

`after p l` is what comes behind the first occurrence of `p` in `l`. Where the first element of
the pattern is none of the others, no occurrence overlaps another or what is put in front of it
(`after_append`), and the first occurrence is the one with none before it (`after_eq_some_iff`).
-/

namespace Occurrence

universe u

variable {α : Type u} {a : α} {q : List α}

/-- An occurrence does not begin before its first element unless it ends before it. -/
theorem infix_of_prefix_append (ha : a ∉ q) {x : α} {before rest : List α}
    (h : a :: q <+: x :: before ++ a :: rest) : a :: q <:+: x :: before := by
  obtain ⟨rfl, hq⟩ := List.cons_prefix_cons.mp h
  have hbefore : before <+: before ++ a :: rest := List.prefix_append _ _
  by_cases hlen : q.length ≤ before.length
  · exact (List.cons_prefix_cons.mpr ⟨rfl, List.prefix_of_prefix_length_le hq hbefore hlen⟩).isInfix
  · -- the element would be one of the others
    have hnext : before ++ [a] <+: before ++ a :: rest := ⟨rest, by simp⟩
    have hle : (before ++ [a]).length ≤ q.length := by
      rw [List.length_append, List.length_singleton]
      omega
    have hmem := (List.prefix_of_prefix_length_le hnext hq hle).subset
      (List.mem_append_right _ List.mem_cons_self)
    exact absurd hmem ha

variable [DecidableEq α]

/-- **What comes behind the first occurrence of the pattern.** -/
def after (p : List α) : List α → Option (List α)
  | [] => if p = [] then some [] else none
  | x :: l => if p <+: x :: l then some ((x :: l).drop p.length) else after p l

theorem after_of_prefix (p l : List α) : after p (p ++ l) = some l := by
  cases h : p ++ l with
  | nil =>
    obtain ⟨rfl, rfl⟩ := List.append_eq_nil_iff.mp h
    rfl
  | cons x rest =>
    rw [after, ← h, if_pos (List.prefix_append p l), List.drop_left]

theorem after_cons_of_not_start {p l : List α} {x : α} (h : ¬ p <+: x :: l) :
    after p (x :: l) = after p l := by
  rw [after, if_neg h]

theorem after_cons_of_ne {x : α} (h : x ≠ a) (l : List α) :
    after (a :: q) (x :: l) = after (a :: q) l :=
  after_cons_of_not_start fun hstart => h (List.cons_prefix_cons.mp hstart).1.symm

/-- **What holds no occurrence can be put in front.** -/
theorem after_append (ha : a ∉ q) {before : List α} (h : ¬ a :: q <:+: before) (rest : List α) :
    after (a :: q) (before ++ a :: rest) = after (a :: q) (a :: rest) := by
  induction before with
  | nil => rfl
  | cons x before ih =>
    have hnot : ¬ a :: q <+: x :: (before ++ a :: rest) :=
      fun hp => h (infix_of_prefix_append ha hp)
    rw [List.cons_append, after_cons_of_not_start hnot]
    exact ih fun hoccurs => h (hoccurs.trans (List.suffix_cons x before).isInfix)

/-- **The first occurrence** is the one with none before it. -/
theorem after_eq_some_iff (ha : a ∉ q) {l body : List α} :
    after (a :: q) l = some body ↔
      ∃ before, l = before ++ (a :: q ++ body) ∧ ¬ a :: q <:+: before := by
  constructor
  · intro h
    induction l with
    | nil => cases h
    | cons x l ih =>
      rw [after] at h
      split_ifs at h with hstart
      · obtain ⟨rest, hrest⟩ := hstart
        rw [← hrest, List.drop_left] at h
        cases h
        refine ⟨[], hrest.symm, fun hoccurs => ?_⟩
        cases List.infix_nil.mp hoccurs
      · obtain ⟨before, rfl, hbefore⟩ := ih h
        refine ⟨x :: before, rfl, fun hoccurs => ?_⟩
        obtain hp | hlater := List.infix_cons_iff.mp hoccurs
        · exact hstart (hp.trans ((List.prefix_append (x :: before) _)))
        · exact hbefore hlater
  · rintro ⟨before, rfl, hbefore⟩
    rw [List.cons_append, after_append ha hbefore, ← List.cons_append, after_of_prefix]

theorem after_eq_none {p l : List α} (h : l.length < p.length) : after p l = none := by
  induction l with
  | nil => exact if_neg (List.ne_nil_of_length_pos h)
  | cons x l ih =>
    rw [after_cons_of_not_start fun hp => absurd hp.length_le (by omega)]
    exact ih (by rw [List.length_cons] at h; omega)

end Occurrence
