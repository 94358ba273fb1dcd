import Mathlib.Logic.Basic

/-!
# Searches that keep what they look at

A computation that observes says something about a view of the state and leaves the view as it was
(`Observes`). The loop that looks at one index after the other until something is found observes
when its looks do (`Observes.searchUp`), and it is answered by the first index that has an answer
(`firstUp_eq_some`).
-/

namespace Lazers.Search

variable {σ β α γ δ : Type} {view : σ → β}

theorem run_bind {x : StateM σ γ} {f : γ → StateM σ δ} {s t : σ} {a : γ} (h : x s = (a, t)) :
    (x >>= f) s = f a t := by
  show f (x s).1 (x s).2 = f a t
  rw [h]

/-- The computation answers a question about the view, which it keeps. -/
def Observes (view : σ → β) (x : StateM σ γ) (answer : β → γ) : Prop :=
  ∀ s, (x s).1 = answer (view s) ∧ view (x s).2 = view s

theorem Observes.value (a : γ) : Observes view (pure a) fun _ => a := fun _ => ⟨rfl, rfl⟩

theorem Observes.bind {x : StateM σ γ} {f : γ → StateM σ δ} {answer : β → γ} {next : γ → β → δ}
    (h : Observes view x answer) (hnext : ∀ a, Observes view (f a) (next a)) :
    Observes view (x >>= f) fun v => next (answer v) v := by
  intro s
  obtain ⟨hanswer, hview⟩ := h s
  obtain ⟨hlast, hkept⟩ := hnext (x s).1 (x s).2
  refine ⟨?_, hkept.trans hview⟩
  show (f (x s).1 (x s).2).1 = _
  rw [hlast, hview, hanswer]

theorem Observes.branch {c : Prop} [Decidable c] {x y : StateM σ γ} {yes no : β → γ}
    (hyes : Observes view x yes) (hno : Observes view y no) :
    Observes view (if c then x else y) fun v => if c then yes v else no v := by
  intro s
  by_cases hc : c
  · simp only [if_pos hc]
    exact hyes s
  · simp only [if_neg hc]
    exact hno s

/-- Looks at `rounds` indices from `index` on, up to the first where something is found. -/
def searchUp (look : Nat → StateM σ (Option α)) : (rounds index : Nat) → StateM σ (Option α)
  | 0, _ => pure none
  | rounds + 1, index => do
    match ← look index with
    | some found => return some found
    | none => searchUp look rounds (index + 1)

/-- The first answer of `rounds` indices from `index` on. -/
def firstUp (answer : Nat → Option α) : (rounds index : Nat) → Option α
  | 0, _ => none
  | rounds + 1, index =>
    match answer index with
    | some found => some found
    | none => firstUp answer rounds (index + 1)

theorem Observes.searchUp {look : Nat → StateM σ (Option α)} {answer : β → Nat → Option α}
    {rounds index : Nat}
    (h : ∀ i, i < index + rounds → Observes view (look i) fun v => answer v i) :
    Observes view (searchUp look rounds index) fun v => firstUp (answer v) rounds index := by
  induction rounds generalizing index with
  | zero => exact .value none
  | succ rounds ih =>
    -- one round: what the look finds, else what the rest finds
    have hnext : ∀ a, Observes view
        (match a with
          | some found => pure (some found)
          | none => Search.searchUp look rounds (index + 1))
        fun v => match a with
          | some found => some found
          | none => firstUp (answer v) rounds (index + 1) := by
      rintro (_ | found)
      · exact ih fun i hi => h i (by omega)
      · exact .value (some found)
    exact (h index (by omega)).bind hnext

/-- An index has the answer, and none before it has any. -/
theorem firstUp_eq_some {answer : Nat → Option α} {rounds index : Nat} {found : α} :
    firstUp answer rounds index = some found ↔
      ∃ i, index ≤ i ∧ i < index + rounds ∧ answer i = some found ∧
        ∀ j, index ≤ j → j < i → answer j = none := by
  induction rounds generalizing index with
  | zero =>
    refine ⟨fun h => (by cases h), ?_⟩
    rintro ⟨i, hle, hlt, -⟩
    omega
  | succ rounds ih =>
    unfold firstUp
    cases hindex : answer index with
    | some first =>
      constructor
      · intro h
        exact ⟨index, (Nat.le_refl _), by omega, hindex.trans h, by omega⟩
      · rintro ⟨i, hle, hlt, hi, hbefore⟩
        rcases Nat.eq_or_lt_of_le hle with rfl | hlt'
        · exact hindex.symm.trans hi
        · rw [hbefore index (Nat.le_refl _) hlt'] at hindex
          cases hindex
    | none =>
      show firstUp answer rounds (index + 1) = some found ↔ _
      rw [ih]
      constructor
      · rintro ⟨i, hle, hlt, hi, hbefore⟩
        refine ⟨i, by omega, by omega, hi, fun j hj hji => ?_⟩
        rcases Nat.eq_or_lt_of_le hj with rfl | hj'
        · exact hindex
        · exact hbefore j hj' hji
      · rintro ⟨i, hle, hlt, hi, hbefore⟩
        have hne : index ≠ i := by
          rintro rfl
          rw [hindex] at hi
          cases hi
        exact ⟨i, by omega, by omega, hi, fun j hj hji => hbefore j (by omega) hji⟩

theorem firstUp_eq_none {answer : Nat → Option α} {rounds index : Nat} :
    firstUp answer rounds index = none ↔
      ∀ i, index ≤ i → i < index + rounds → answer i = none := by
  induction rounds generalizing index with
  | zero => exact ⟨fun _ i hle hlt => by omega, fun _ => rfl⟩
  | succ rounds ih =>
    unfold firstUp
    cases hindex : answer index with
    | some first =>
      refine ⟨fun h => (by cases h), fun h => ?_⟩
      rw [h index (Nat.le_refl _) (by omega)] at hindex
      cases hindex
    | none =>
      show firstUp answer rounds (index + 1) = none ↔ _
      rw [ih]
      refine ⟨fun h i hle hlt => ?_, fun h i hle hlt => h i (by omega) (by omega)⟩
      rcases Nat.eq_or_lt_of_le hle with rfl | hlt'
      · exact hindex
      · exact h i hlt' (by omega)

/-- Two searches, one in the other: the first place in the order of the places. -/
theorem firstUp_nested {answer : Nat → Nat → Option α} {m n : Nat} {found : α} :
    firstUp (fun a => firstUp (answer a) n 0) m 0 = some found ↔
      ∃ a < m, ∃ b < n, answer a b = some found ∧
        ∀ c < m, ∀ d < n, c < a ∨ c = a ∧ d < b → answer c d = none := by
  constructor
  · intro h
    obtain ⟨a, -, ha, hinner, hbefore⟩ := firstUp_eq_some.mp h
    obtain ⟨b, -, hb, hfound, hbefore'⟩ := firstUp_eq_some.mp hinner
    refine ⟨a, by omega, b, by omega, hfound, ?_⟩
    rintro c - d hd (hc | ⟨rfl, hd'⟩)
    · exact firstUp_eq_none.mp (hbefore c (by omega) hc) d (by omega) (by omega)
    · exact hbefore' d (by omega) hd'
  · rintro ⟨a, ha, b, hb, hfound, hbefore⟩
    refine firstUp_eq_some.mpr ⟨a, by omega, by omega, firstUp_eq_some.mpr
      ⟨b, by omega, by omega, hfound, fun d _ hd => hbefore a ha d (by omega) (.inr ⟨rfl, hd⟩)⟩,
      fun c _ hc => firstUp_eq_none.mpr fun d _ hd => hbefore c (by omega) d (by omega) (.inl hc)⟩

end Lazers.Search
