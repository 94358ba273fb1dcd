import Mathlib.Tactic.Common

/-!
# Triples for computations that fail and keep their state

`EStateM ε σ α` threads a state through a computation that may fail, and a
failure keeps the state reached so far. `Triple P x Q E` says what holds after
`x` from any state with `P`: `Q` of the value and state on success, `E` of the
error and state on failure. The rules below are the ones a proof applies, one
per way of building a computation.

`Lockstep Q E` relates the results of two such computations: either both
succeeded, with values and states related by `Q`, or both failed with the same
error and states related by `E`. It is how a program is shown to follow an
abstract one step by step (`Lockstep.bind`).
-/

universe u

variable {ε σ τ α β γ δ : Type u}

/-! ## Runs of a sequence -/

theorem EStateM.bind_eq_ok {x : EStateM ε σ α} {f : α → EStateM ε σ β} {s s' : σ} {b : β} :
    (x >>= f) s = .ok b s' ↔ ∃ a s₁, x s = .ok a s₁ ∧ f a s₁ = .ok b s' := by
  show EStateM.bind x f s = _ ↔ _
  unfold EStateM.bind
  cases x s with
  | ok a s₁ => simp
  | error e s₁ => simp

theorem EStateM.bind_eq_error {x : EStateM ε σ α} {f : α → EStateM ε σ β} {s s' : σ} {e : ε} :
    (x >>= f) s = .error e s' ↔
      x s = .error e s' ∨ ∃ a s₁, x s = .ok a s₁ ∧ f a s₁ = .error e s' := by
  show EStateM.bind x f s = _ ↔ _
  unfold EStateM.bind
  cases x s with
  | ok a s₁ => simp
  | error e s₁ => simp

theorem EStateM.bind_of_ok {x : EStateM ε σ α} {s s₁ : σ} {a : α} (h : x s = .ok a s₁)
    (f : α → EStateM ε σ β) : (x >>= f) s = f a s₁ := by
  show EStateM.bind x f s = _
  unfold EStateM.bind
  rw [h]

theorem EStateM.get_bind (f : σ → EStateM ε σ α) (s : σ) :
    ((get : EStateM ε σ σ) >>= f) s = f s s := rfl

theorem EStateM.modify_bind (f : σ → σ) (g : PUnit → EStateM ε σ α) (s : σ) :
    ((modify f : EStateM ε σ PUnit) >>= g) s = g ⟨⟩ (f s) := rfl

/-! ## Running longer

A loop without a bound of its own takes fuel, and fails with `out` when it has used it up. -/

/-- `y` does what `x` does, unless `x` ran out. -/
def EStateM.Prolongs (out : ε) (x y : EStateM ε σ α) : Prop :=
  ∀ s, y s = x s ∨ ∃ s', x s = .error out s'

theorem EStateM.Prolongs.refl {out : ε} (x : EStateM ε σ α) : Prolongs out x x :=
  fun _ => .inl rfl

theorem EStateM.Prolongs.bind {out : ε} {x y : EStateM ε σ α} {f g : α → EStateM ε σ β}
    (h : Prolongs out x y) (hf : ∀ a, Prolongs out (f a) (g a)) :
    Prolongs out (x >>= f) (y >>= g) := by
  intro s
  obtain heq | ⟨s', hout⟩ := h s
  · cases hx : x s with
    | ok a s₁ =>
      rw [bind_of_ok hx, bind_of_ok (heq.trans hx)]
      exact hf a s₁
    | error e s₁ =>
      left
      have hxf : (x >>= f) s = .error e s₁ := bind_eq_error.mpr (.inl hx)
      rw [hxf]
      exact bind_eq_error.mpr (.inl (heq.trans hx))
  · exact .inr ⟨s', bind_eq_error.mpr (.inl hout)⟩

/-! ## Triples -/

/-- Pre-, post- and failure condition of a computation. -/
def Triple (P : σ → Prop) (x : EStateM ε σ α) (Q : α → σ → Prop) (E : ε → σ → Prop) : Prop :=
  ∀ s, P s → match x s with
    | .ok a s' => Q a s'
    | .error e s' => E e s'

namespace Triple

variable {P P' : σ → Prop} {Q Q' : α → σ → Prop} {E E' : ε → σ → Prop}

/-- Nothing is asked of the computation. -/
theorem top (x : EStateM ε σ α) : Triple P x (fun _ _ => True) fun _ _ => True := by
  intro s _
  cases x s with
  | ok a s' => trivial
  | error e s' => trivial

theorem pure {a : α} (h : ∀ s, P s → Q a s) : Triple P (pure a : EStateM ε σ α) Q E :=
  h

theorem throw {e : ε} (h : ∀ s, P s → E e s) : Triple P (throw e : EStateM ε σ α) Q E :=
  h

theorem modify {f : σ → σ} {R : PUnit → σ → Prop} (h : ∀ s, P s → R ⟨⟩ (f s)) :
    Triple P (modify f : EStateM ε σ PUnit) R E :=
  h

theorem bind {x : EStateM ε σ α} {f : α → EStateM ε σ β} {R : β → σ → Prop}
    (hx : Triple P x Q E) (hf : ∀ a, Triple (Q a) (f a) R E) : Triple P (x >>= f) R E := by
  intro s hs
  have hrun := hx s hs
  show match EStateM.bind x f s with
    | .ok b s' => R b s'
    | .error e s' => E e s'
  unfold EStateM.bind
  cases hxs : x s with
  | ok a s' =>
    rw [hxs] at hrun
    exact hf a s' hrun
  | error e s' =>
    rw [hxs] at hrun
    exact hrun

theorem conseq {x : EStateM ε σ α} (h : Triple P' x Q' E') (hP : ∀ s, P s → P' s)
    (hQ : ∀ a s, Q' a s → Q a s) (hE : ∀ e s, E' e s → E e s) : Triple P x Q E := by
  intro s hs
  have hrun := h s (hP s hs)
  cases hxs : x s with
  | ok a s' =>
    rw [hxs] at hrun
    exact hQ a s' hrun
  | error e s' =>
    rw [hxs] at hrun
    exact hE e s' hrun

/-- A triple may be split over its starting state. -/
theorem of_start {x : EStateM ε σ α} (h : ∀ s₀, P s₀ → Triple (· = s₀) x Q E) :
    Triple P x Q E :=
  fun s hs => h s hs s rfl

theorem ok {x : EStateM ε σ α} (h : Triple P x Q E) {s s' : σ} {a : α} (hs : P s)
    (hrun : x s = .ok a s') : Q a s' := by
  have := h s hs
  rwa [hrun] at this

theorem error {x : EStateM ε σ α} (h : Triple P x Q E) {s s' : σ} {e : ε} (hs : P s)
    (hrun : x s = .error e s') : E e s' := by
  have := h s hs
  rwa [hrun] at this

end Triple

/-! ## Two computations side by side -/

/-- Two results that agree in success or error. -/
inductive Lockstep (Q : α → β → σ → τ → Prop) (E : σ → τ → Prop) :
    EStateM.Result ε σ α → EStateM.Result ε τ β → Prop where
  | ok {a : α} {b : β} {s : σ} {t : τ} (h : Q a b s t) : Lockstep Q E (.ok a s) (.ok b t)
  | error {e : ε} {s : σ} {t : τ} (h : E s t) : Lockstep Q E (.error e s) (.error e t)

namespace Lockstep

variable {Q Q' : α → β → σ → τ → Prop} {E E' : σ → τ → Prop}

section

variable {x : EStateM.Result ε σ α} {y : EStateM.Result ε τ β}

theorem of_ok {a : α} {b : β} {s : σ} {t : τ} (hx : x = .ok a s) (hy : y = .ok b t)
    (h : Q a b s t) : Lockstep Q E x y := by
  rw [hx, hy]
  exact .ok h

theorem of_error {e : ε} {s : σ} {t : τ} (hx : x = .error e s) (hy : y = .error e t)
    (h : E s t) : Lockstep Q E x y := by
  rw [hx, hy]
  exact .error h

theorem mono (h : Lockstep Q E x y) (hQ : ∀ a b s t, Q a b s t → Q' a b s t)
    (hE : ∀ s t, E s t → E' s t) : Lockstep Q' E' x y := by
  cases h with
  | ok h => exact .ok (hQ _ _ _ _ h)
  | error h => exact .error (hE _ _ h)

/-- The right computation's own result may be used. -/
theorem right_eq (h : Lockstep Q E x y) :
    Lockstep (fun a b s t => Q a b s t ∧ y = .ok b t) E x y := by
  cases h with
  | ok h => exact .ok ⟨h, rfl⟩
  | error h => exact .error h

theorem of_ok_left (h : Lockstep Q E x y) {a : α} {s : σ} (hx : x = .ok a s) :
    ∃ b t, y = .ok b t ∧ Q a b s t := by
  cases h with
  | ok h =>
    cases hx
    exact ⟨_, _, rfl, h⟩
  | error h => cases hx

theorem of_error_left (h : Lockstep Q E x y) {e : ε} {s : σ} (hx : x = .error e s) :
    ∃ t, y = .error e t ∧ E s t := by
  cases h with
  | ok h => cases hx
  | error h =>
    cases hx
    exact ⟨_, rfl, h⟩

theorem of_ok_right (h : Lockstep Q E x y) {b : β} {t : τ} (hy : y = .ok b t) :
    ∃ a s, x = .ok a s ∧ Q a b s t := by
  cases h with
  | ok h =>
    cases hy
    exact ⟨_, _, rfl, h⟩
  | error h => cases hy

theorem of_error_right (h : Lockstep Q E x y) {e : ε} {t : τ} (hy : y = .error e t) :
    ∃ s, x = .error e s ∧ E s t := by
  cases h with
  | ok h => cases hy
  | error h =>
    cases hy
    exact ⟨_, rfl, h⟩

end

/-- Sequencing. -/
theorem bind {x : EStateM ε σ α} {y : EStateM ε τ β} {f : α → EStateM ε σ γ}
    {g : β → EStateM ε τ δ} {R : γ → δ → σ → τ → Prop} {s : σ} {t : τ}
    (h : Lockstep Q E (x s) (y t))
    (hf : ∀ a b s' t', Q a b s' t' → Lockstep R E (f a s') (g b t')) :
    Lockstep R E ((x >>= f) s) ((y >>= g) t) := by
  show Lockstep R E (EStateM.bind x f s) (EStateM.bind y g t)
  unfold EStateM.bind
  generalize x s = rx at h ⊢
  generalize y t = ry at h ⊢
  cases h with
  | ok h => exact hf _ _ _ _ h
  | error h => exact .error h

end Lockstep
