import Mathlib.Data.Set.Finite.Basic
import Mathlib.Data.Fintype.Pigeonhole
import Mathlib.Logic.Relation
import Mathlib.Order.WellFounded

/-!
# Walks that end

`R a b` says that a walk at `a` goes on to `b`. A walk that can only visit finitely
many places ends exactly when it never comes back to one (`ends_iff_not_loops`), and a
loop that follows `R` with a bound on its rounds finishes for some bound exactly when
the walk ends (`exists_rounds_iff_ends`).
-/

namespace Lazers.Walk

open Relation

variable {α : Type*} {R : α → α → Prop} {a b : α}

/-- Every walk from `a` ends. -/
def Ends (R : α → α → Prop) (a : α) : Prop := Acc (fun y x => R x y) a

/-- Some walk from `a` comes to a place and back to it. -/
def Loops (R : α → α → Prop) (a : α) : Prop := ∃ b, ReflTransGen R a b ∧ TransGen R b b

theorem Ends.of_reflTransGen (h : Ends R a) (hab : ReflTransGen R a b) : Ends R b := by
  induction hab with
  | refl => exact h
  | tail _ hstep ih => exact ih.inv hstep

/-- A place that is left for itself has no end. -/
theorem Ends.not_transGen_self (h : Ends R a) : ¬ TransGen R a a := by
  intro hself
  have hacc : Acc (TransGen fun y x => R x y) a := h.transGen
  have hirrefl : ∀ x, Acc (TransGen fun y x => R x y) x → ¬ TransGen (fun y x => R x y) x x := by
    intro x hx
    induction hx with
    | intro x _ ih => exact fun hxx => ih x hxx hxx
  exact hirrefl a hacc (transGen_swap.mpr hself)

/-- **Ending is not looping**, where only finitely many places can be walked to. -/
theorem ends_iff_not_loops (hfinite : {y | ∃ x, R x y}.Finite) : Ends R a ↔ ¬ Loops R a := by
  constructor
  · rintro hends ⟨b, hab, hbb⟩
    exact (hends.of_reflTransGen hab).not_transGen_self hbb
  · intro hloops
    by_contra hacc
    obtain ⟨f, hstart, hstep⟩ := not_acc_iff_exists_descending_chain.mp hacc
    -- The places after the first repeat, since there are finitely many.
    have hmaps : ∀ n, f (n + 1) ∈ {y | ∃ x, R x y} := fun n => ⟨f n, hstep n⟩
    obtain ⟨m, n, hne, heq⟩ : ∃ m n, m ≠ n ∧ f (m + 1) = f (n + 1) := by
      have := hfinite.to_subtype
      obtain ⟨m, n, hne, heq⟩ := Finite.exists_ne_map_eq_of_infinite
        fun n => (⟨f (n + 1), hmaps n⟩ : {y | ∃ x, R x y})
      exact ⟨m, n, hne, congrArg Subtype.val heq⟩
    have hreach : ∀ n k, ReflTransGen R (f n) (f (n + k)) := by
      intro n k
      induction k with
      | zero => exact .refl
      | succ k ih => exact ih.tail (hstep (n + k))
    have hloop : ∀ m n, m < n → f (m + 1) = f (n + 1) → Loops R a := by
      intro m n hlt heq
      refine ⟨f (m + 1), ?_, ?_⟩
      · have := hreach 0 (m + 1)
        rwa [hstart, Nat.zero_add] at this
      · have hround := hreach (m + 2) (n - m - 1)
        rw [show m + 2 + (n - m - 1) = n + 1 by omega, ← heq] at hround
        exact .head' (hstep (m + 1)) hround
    obtain hlt | hlt := Nat.lt_or_gt_of_ne hne
    · exact hloops (hloop m n hlt heq)
    · exact hloops (hloop n m hlt heq.symm)

/-- **Bounded loops.** `done n a` says that the loop finishes from `a` within `n` rounds; a round
from a place with `I` goes on to the one place that `R` allows, or finishes. -/
theorem exists_rounds_iff_ends (done : Nat → α → Prop) {I : α → Prop} (ha : I a)
    (hinv : ∀ x y, I x → R x y → I y) (hfunctional : ∀ x y z, R x y → R x z → y = z)
    (hzero : ∀ x, ¬ done 0 x) (hsucc : ∀ n x, I x → (done (n + 1) x ↔ ∀ y, R x y → done n y)) :
    (∃ n, done n a) ↔ Ends R a := by
  constructor
  · rintro ⟨n, hn⟩
    induction n generalizing a with
    | zero => exact absurd hn (hzero a)
    | succ n ih => exact .intro a fun y hy => ih (hinv a y ha hy) ((hsucc n a ha).mp hn y hy)
  · intro hends
    induction hends with
    | intro x _ ih =>
      by_cases hnext : ∃ y, R x y
      · obtain ⟨y, hy⟩ := hnext
        obtain ⟨n, hn⟩ := ih y hy (hinv x y ha hy)
        refine ⟨n + 1, (hsucc n x ha).mpr fun z hz => ?_⟩
        rwa [hfunctional x z y hz hy]
      · exact ⟨1, (hsucc 0 x ha).mpr fun y hy => absurd ⟨y, hy⟩ hnext⟩

end Lazers.Walk
