import Mathlib.Data.Set.Lattice
import Mathlib.Logic.Pairwise
import Mathlib.Order.CompletePartialOrder
import Mathlib.Tactic.Common

/-!
# Shares

Things are shared out among holders, each thing to at most one of them. The holders may be
of any kind; which of them own their share and which only keep it for somebody is not told
apart.

An operation passes things from one holder to another, or takes things away. `Shares.pass`
is the rule for both: whatever two holders have afterwards they had before, between them,
and the others have no more than they had.
-/

universe u v

variable {ι : Type u} {α : Type v} {f g : ι → Set α} {i j : ι}

/-- **Nothing is held twice.** -/
def Shares (f : ι → Set α) : Prop := Pairwise fun i j => Disjoint (f i) (f j)

namespace Shares

theorem disjoint (h : Shares f) (hij : i ≠ j) : Disjoint (f i) (f j) := h hij

/-- Things may be lost. -/
theorem mono (h : Shares f) (hle : ∀ i, g i ⊆ f i) : Shares g :=
  fun i j hij => (h hij).mono (hle i) (hle j)

theorem empty : Shares fun _ : ι => (∅ : Set α) := fun _ _ _ => Set.empty_disjoint _

/-- A holder that had nothing gets what nobody has. -/
theorem add [DecidableEq ι] {S : Set α} (h : Shares f) (hS : ∀ j, j ≠ i → Disjoint S (f j)) :
    Shares (Function.update f i S) := by
  intro j k hjk
  by_cases hj : j = i
  · subst hj
    rw [Function.update_self, Function.update_of_ne (Ne.symm hjk)]
    exact hS k (Ne.symm hjk)
  · rw [Function.update_of_ne hj]
    by_cases hk : k = i
    · subst hk
      rw [Function.update_self]
      exact (hS j hj).symm
    · rw [Function.update_of_ne hk]
      exact h hjk

/-- **Passing on** between `i` and `j`. -/
theorem pass (h : Shares f) (hij : i ≠ j) (hrest : ∀ k, k ≠ i → k ≠ j → g k ⊆ f k)
    (hi : g i ⊆ f i ∪ f j) (hj : g j ⊆ f i ∪ f j) (hapart : Disjoint (g i) (g j)) : Shares g := by
  -- what `i` or `j` has now is apart from what anybody else has
  have hother : ∀ {S : Set α} {k : ι}, S ⊆ f i ∪ f j → k ≠ i → k ≠ j → Disjoint S (g k) := by
    intro S k hS hki hkj
    refine Disjoint.mono hS (hrest k hki hkj) ?_
    rw [Set.disjoint_union_left]
    exact ⟨h (Ne.symm hki), h (Ne.symm hkj)⟩
  intro k l hkl
  by_cases hki : k = i
  · subst hki
    by_cases hlj : l = j
    · subst hlj
      exact hapart
    · exact hother hi (Ne.symm hkl) hlj
  · by_cases hkj : k = j
    · subst hkj
      by_cases hli : l = i
      · subst hli
        exact hapart.symm
      · exact hother hj hli (Ne.symm hkl)
    · by_cases hli : l = i
      · subst hli
        exact (hother hi hki hkj).symm
      · by_cases hlj : l = j
        · subst hlj
          exact (hother hj hki hkj).symm
        · exact (h hkl).mono (hrest k hki hkj) (hrest l hli hlj)

end Shares
