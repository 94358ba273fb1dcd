import Mathlib.Data.List.GetD
import Mathlib.Tactic.Common

/-!
# Code that indexes slices

An index or a slice out of bounds is a panic, and a panic is `none`. Code that returns a result
of its own besides is an `ExceptT ε Option`.

- `Agrees x y`: the code `x` does not panic and returns what `y` returns, where `y` does the same
  without looking at bounds.
- `Returns Q x`: it does not panic, and what it returns on success has `Q`.

Both have one rule for each way of building such code.
-/

universe u

namespace Panics

variable {ε α β : Type u}

/-- `items[index]`. -/
def index (items : List α) (i : Nat) : Option α := items[i]?

/-- `items[start..stop]`. -/
def slice (items : List α) (start stop : Nat) : Option (List α) :=
  if start ≤ stop ∧ stop ≤ items.length then some ((items.drop start).take (stop - start))
  else none

theorem index_of_lt {items : List α} {i : Nat} (h : i < items.length) (default : α) :
    index items i = some (items.getD i default) := by
  rw [index, List.getElem?_eq_getElem h, List.getD_eq_getElem]

theorem slice_of_le {items : List α} {start stop : Nat} (h : start ≤ stop)
    (hstop : stop ≤ items.length) :
    slice items start stop = some ((items.drop start).take (stop - start)) :=
  if_pos ⟨h, hstop⟩

/-- `items[start..]`. -/
theorem slice_to_end {items : List α} {start : Nat} (h : start ≤ items.length) :
    slice items start items.length = some (items.drop start) := by
  rw [slice_of_le h (Nat.le_refl _), ← List.length_drop, List.take_length]

/-- `items[..stop]`. -/
theorem slice_from_start {items : List α} {stop : Nat} (h : stop ≤ items.length) :
    slice items 0 stop = some (items.take stop) := by
  rw [slice_of_le (Nat.zero_le _) h, List.drop_zero, Nat.sub_zero]

/-- `ok_or`, and the `?` behind it. -/
def okOr (e : ε) : Option α → ExceptT ε Option α
  | none => throw e
  | some a => pure a

/-! ## Against code without bounds -/

/-- No panic, and the same result. -/
def Agrees (x : ExceptT ε Option α) (y : Except ε α) : Prop := x.run = some y

namespace Agrees

theorem pure (a : α) : Agrees (Pure.pure a : ExceptT ε Option α) (.ok a) := rfl

theorem throw (e : ε) : Agrees (MonadExcept.throw e : ExceptT ε Option α) (.error e) := rfl

/-- Code that returns where a condition holds. -/
theorem ite {c : Prop} [Decidable c] {x x' : ExceptT ε Option α} {y y' : Except ε α}
    (h : c → Agrees x y) (h' : ¬ c → Agrees x' y') :
    Agrees (if c then x else x') (if c then y else y') := by
  by_cases hc : c
  · rw [if_pos hc, if_pos hc]
    exact h hc
  · rw [if_neg hc, if_neg hc]
    exact h' hc

/-- A read in bounds. -/
theorem read {r : Option α} {a : α} {f : α → ExceptT ε Option β} {y : Except ε β}
    (hr : r = some a) (h : Agrees (f a) y) : Agrees (liftM r >>= f) y := by
  subst hr
  exact h

end Agrees

/-! ## Results -/

/-- No panic, and `Q` of what is returned. -/
def Returns (Q : α → Prop) (x : ExceptT ε Option α) : Prop :=
  ∃ r, x.run = some r ∧ ∀ a, r = .ok a → Q a

namespace Returns

variable {P Q : α → Prop} {R : β → Prop}

theorem pure {a : α} (h : Q a) : Returns Q (Pure.pure a : ExceptT ε Option α) :=
  ⟨.ok a, rfl, by rintro _ ⟨⟩; exact h⟩

theorem throw {e : ε} : Returns Q (MonadExcept.throw e : ExceptT ε Option α) :=
  ⟨.error e, rfl, by rintro _ ⟨⟩⟩

theorem run {x : ExceptT ε Option α} (h : Returns Q x) : ∃ r, x.run = some r := by
  obtain ⟨r, hrun, -⟩ := h
  exact ⟨r, hrun⟩

theorem of_agrees {x : ExceptT ε Option α} {y : Except ε α} (h : Agrees x y) :
    Returns (fun a => y = .ok a) x :=
  ⟨y, h, fun _ ha => ha⟩

theorem bind {x : ExceptT ε Option α} {f : α → ExceptT ε Option β} (hx : Returns P x)
    (hf : ∀ a, P a → Returns R (f a)) : Returns R (x >>= f) := by
  obtain ⟨r, hrun, hr⟩ := hx
  have hbind : (x >>= f).run = x.run >>= fun r => ExceptT.bindCont f r := rfl
  rw [Returns, hbind, hrun]
  cases r with
  | error e => exact throw
  | ok a => exact hf a (hr a rfl)

theorem ite {c : Prop} [Decidable c] {x y : ExceptT ε Option α} (hx : c → Returns Q x)
    (hy : ¬ c → Returns Q y) : Returns Q (if c then x else y) := by
  by_cases hc : c
  · rw [if_pos hc]
    exact hx hc
  · rw [if_neg hc]
    exact hy hc

/-- A read in bounds. -/
theorem read {r : Option α} {a : α} {f : α → ExceptT ε Option β} (hr : r = some a)
    (h : Returns R (f a)) : Returns R (liftM r >>= f) := by
  subst hr
  exact h

theorem okOr {e : ε} {o : Option α} {f : α → ExceptT ε Option β}
    (h : ∀ a, o = some a → Returns R (f a)) : Returns R (Panics.okOr e o >>= f) := by
  cases o with
  | none => exact throw
  | some a => exact h a rfl

end Returns

end Panics
