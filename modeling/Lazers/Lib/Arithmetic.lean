import Mathlib.Logic.Relation
import Mathlib.Tactic.Common

/-!
# Programs over a choice of arithmetic

A program that takes its arithmetic as a parameter can be run in three ways. `wrapping` keeps
the low part of a result, as a machine does; `unbounded` has no width; `checked` stops at the
first result without a word for it. A checked run that is not stopped this way (`NoOverflow`) is
the run of the other two as well (`Agrees`), so its first overflow is theirs.

`loop` is the loop of such programs. It has no overflow when no round has one that the unbounded
loop comes to (`noOverflow_loop`).
-/

namespace Arithmetic

/-- How a run ends without a value: with an error of its own or at a result without a word. -/
inductive Halt (ε : Type) where
  | error (e : ε)
  | overflow

/-- A run. -/
abbrev Run (ε α : Type) := Except (Halt ε) α

/-- An arithmetic: the word for each result. -/
structure Arith where
  fit : Int → Option Nat

def wrapping (limit : Nat) : Arith := ⟨fun x => some (x % limit).toNat⟩

def unbounded : Arith := ⟨fun x => some x.toNat⟩

def checked (limit : Nat) : Arith := ⟨fun x => if 0 ≤ x ∧ x < limit then some x.toNat else none⟩

variable {ε α β σ τ : Type}

/-- A run without an overflow. -/
inductive NoOverflow : Run ε α → Prop where
  | value (a : α) : NoOverflow (.ok a)
  | failure (e : ε) : NoOverflow (.error (.error e))

theorem not_noOverflow : ¬ NoOverflow (.error .overflow : Run ε α) := by
  intro h
  cases h

instance : (x : Run ε α) → Decidable (NoOverflow x)
  | .ok a => isTrue (.value a)
  | .error (.error e) => isTrue (.failure e)
  | .error .overflow => isFalse not_noOverflow

theorem ok_bind (a : α) (f : α → Run ε β) : (Except.ok a >>= f) = f a := rfl

theorem bind_eq_ok {x : Run ε α} {f : α → Run ε β} {b : β} :
    (x >>= f) = .ok b ↔ ∃ a, x = .ok a ∧ f a = .ok b := by
  cases x with
  | ok a => simp only [ok_bind, Except.ok.injEq, exists_eq_left']
  | error e =>
    constructor
    · intro h
      cases h
    · rintro ⟨a, h, -⟩
      cases h

/-- `x` and `y` are the same run, unless `x` overflows. -/
def Agrees (x y : Run ε α) : Prop := NoOverflow x → y = x

/-- Whatever has a word in `A` has the same in `B`. -/
def Arith.Below (A B : Arith) : Prop := ∀ x n, A.fit x = some n → B.fit x = some n

namespace Arith

variable (A : Arith) (a b : Nat)

def result (x : Int) : Run ε Nat :=
  match A.fit x with
  | some n => .ok n
  | none => .error .overflow

def add : Run ε Nat := A.result (a + b)
def sub : Run ε Nat := A.result (a - b)
def mul : Run ε Nat := A.result (a * b)

end Arith

/-! ## The three arithmetics -/

theorem checked_below_unbounded (limit : Nat) : (checked limit).Below unbounded := by
  intro x n h
  simp only [checked, Option.ite_none_right_eq_some] at h
  exact h.2

theorem checked_below_wrapping (limit : Nat) : (checked limit).Below (wrapping limit) := by
  intro x n h
  simp only [checked, Option.ite_none_right_eq_some] at h
  obtain ⟨⟨hpos, hlt⟩, hn⟩ := h
  show some (x % limit).toNat = some n
  rw [Int.emod_eq_of_lt hpos hlt, hn]

section

variable {limit a b : Nat}

theorem noOverflow_result_checked {x : Int} :
    NoOverflow ((checked limit).result x : Run ε Nat) ↔ 0 ≤ x ∧ x < limit := by
  rw [Arith.result, checked]
  dsimp only
  split_ifs with h
  · exact ⟨fun _ => h, fun _ => .value _⟩
  · exact ⟨fun hno => absurd hno not_noOverflow, fun h' => absurd h' h⟩

@[simp] theorem noOverflow_add :
    NoOverflow ((checked limit).add a b : Run ε Nat) ↔ a + b < limit := by
  rw [Arith.add, noOverflow_result_checked]
  omega

@[simp] theorem noOverflow_sub :
    NoOverflow ((checked limit).sub a b : Run ε Nat) ↔ b ≤ a ∧ a - b < limit := by
  rw [Arith.sub, noOverflow_result_checked]
  omega

@[simp] theorem noOverflow_mul :
    NoOverflow ((checked limit).mul a b : Run ε Nat) ↔ a * b < limit := by
  rw [Arith.mul, noOverflow_result_checked, ← Int.natCast_mul]
  omega

@[simp] theorem unbounded_add : (unbounded.add a b : Run ε Nat) = .ok (a + b) := rfl

@[simp] theorem unbounded_sub : (unbounded.sub a b : Run ε Nat) = .ok (a - b) := by
  show Except.ok ((a : Int) - b).toNat = _
  rw [Int.toNat_sub]

@[simp] theorem unbounded_mul : (unbounded.mul a b : Run ε Nat) = .ok (a * b) := rfl

@[simp] theorem wrapping_add :
    ((wrapping limit).add a b : Run ε Nat) = .ok ((a + b) % limit) := rfl

@[simp] theorem wrapping_mul :
    ((wrapping limit).mul a b : Run ε Nat) = .ok (a * b % limit) := rfl

/-- A difference that is not negative only loses its high part. -/
theorem wrapping_sub (h : b ≤ a) :
    ((wrapping limit).sub a b : Run ε Nat) = .ok ((a - b) % limit) := by
  show Except.ok (((a : Int) - b) % limit).toNat = _
  rw [← Int.ofNat_sub h]
  rfl

end

/-! ## Agreement -/

theorem Agrees.refl (x : Run ε α) : Agrees x x := fun _ => rfl

theorem Arith.Below.agrees {A B : Arith} (h : A.Below B) (x : Int) :
    Agrees (A.result x : Run ε Nat) (B.result x) := by
  intro hno
  cases hfit : A.fit x with
  | none =>
    rw [result, hfit] at hno
    exact absurd hno not_noOverflow
  | some n => rw [result, result, hfit, h x n hfit]

section

variable {A B : Arith} (h : A.Below B) (a b : Nat)

include h

theorem Arith.Below.add : Agrees (A.add a b : Run ε Nat) (B.add a b) := h.agrees _
theorem Arith.Below.sub : Agrees (A.sub a b : Run ε Nat) (B.sub a b) := h.agrees _
theorem Arith.Below.mul : Agrees (A.mul a b : Run ε Nat) (B.mul a b) := h.agrees _

end

section

variable {x y : Run ε α} {f g : α → Run ε β}

theorem Agrees.bind (h : Agrees x y) (hf : ∀ a, Agrees (f a) (g a)) :
    Agrees (x >>= f) (y >>= g) := by
  cases x with
  | ok a =>
    rw [h (.value a)]
    exact hf a
  | error e =>
    cases e with
    | error e =>
      rw [h (.failure e)]
      exact .refl _
    | overflow => exact fun hno => absurd hno not_noOverflow

/-- **A sequence has no overflow** when its first part has none, nor the second after the value
that the first has in the other arithmetic. -/
theorem noOverflow_bind (h : Agrees x y) :
    NoOverflow (x >>= f) ↔ NoOverflow x ∧ ∀ a, y = .ok a → NoOverflow (f a) := by
  cases x with
  | ok a =>
    rw [h (.value a)]
    constructor
    · intro hno
      refine ⟨.value a, fun a' ha => ?_⟩
      cases ha
      exact hno
    · exact fun hno => hno.2 a rfl
  | error e =>
    cases e with
    | error e =>
      rw [h (.failure e)]
      refine ⟨fun _ => ⟨.failure e, fun a ha => ?_⟩, fun _ => .failure e⟩
      cases ha
    | overflow =>
      constructor
      · exact fun hno => absurd hno not_noOverflow
      · exact fun hno => absurd hno.1 not_noOverflow

end

section

variable {limit a b : Nat} {f : Nat → Run ε β}

@[simp] theorem noOverflow_add_bind :
    NoOverflow ((checked limit).add a b >>= f) ↔ a + b < limit ∧ NoOverflow (f (a + b)) := by
  rw [noOverflow_bind ((checked_below_unbounded limit).add a b), noOverflow_add]
  simp only [unbounded_add, Except.ok.injEq, forall_eq']

@[simp] theorem noOverflow_sub_bind : NoOverflow ((checked limit).sub a b >>= f) ↔
    (b ≤ a ∧ a - b < limit) ∧ NoOverflow (f (a - b)) := by
  rw [noOverflow_bind ((checked_below_unbounded limit).sub a b), noOverflow_sub]
  simp only [unbounded_sub, Except.ok.injEq, forall_eq']

@[simp] theorem noOverflow_mul_bind :
    NoOverflow ((checked limit).mul a b >>= f) ↔ a * b < limit ∧ NoOverflow (f (a * b)) := by
  rw [noOverflow_bind ((checked_below_unbounded limit).mul a b), noOverflow_mul]
  simp only [unbounded_mul, Except.ok.injEq, forall_eq']

end

/-! ## Loops -/

/-- The loop that runs `step` until it breaks with a value, for some rounds at most. -/
def loop (step : σ → Run ε (σ ⊕ τ)) : (rounds : Nat) → σ → Run ε (σ ⊕ τ)
  | 0, s => .ok (.inl s)
  | rounds + 1, s => step s >>= Sum.elim (loop step rounds) fun t => .ok (.inr t)

/-- One round of a loop goes on. -/
def GoesOn (step : σ → Run ε (σ ⊕ τ)) (s s' : σ) : Prop := step s = .ok (.inl s')

section

variable {step other : σ → Run ε (σ ⊕ τ)} {s s' : σ} {rounds : Nat}

theorem agrees_loop (h : ∀ s, Agrees (step s) (other s)) (rounds : Nat) (s : σ) :
    Agrees (loop step rounds s) (loop other rounds s) := by
  induction rounds generalizing s with
  | zero => exact .refl _
  | succ rounds ih =>
    refine (h s).bind fun r => ?_
    cases r with
    | inl s' => exact ih s'
    | inr t => exact .refl _

theorem loop_succ_eq_inl : loop step (rounds + 1) s = .ok (.inl s') ↔
    ∃ m, GoesOn step s m ∧ loop step rounds m = .ok (.inl s') := by
  rw [loop, bind_eq_ok]
  constructor
  · rintro ⟨r, hstep, hrest⟩
    cases r with
    | inl m => exact ⟨m, hstep, hrest⟩
    | inr t => cases hrest
  · rintro ⟨m, hstep, hrest⟩
    exact ⟨.inl m, hstep, hrest⟩

/-- The last round of a loop. -/
theorem loop_succ_eq_inl' : loop step (rounds + 1) s = .ok (.inl s') ↔
    ∃ m, loop step rounds s = .ok (.inl m) ∧ GoesOn step m s' := by
  induction rounds generalizing s with
  | zero =>
    rw [loop_succ_eq_inl]
    constructor
    · rintro ⟨m, hstep, hend⟩
      cases hend
      exact ⟨s, rfl, hstep⟩
    · rintro ⟨m, hstart, hstep⟩
      cases hstart
      exact ⟨s', hstep, rfl⟩
  | succ rounds ih =>
    rw [loop_succ_eq_inl]
    constructor
    · rintro ⟨m, hstep, hrest⟩
      obtain ⟨last, hlast, hend⟩ := ih.mp hrest
      exact ⟨last, loop_succ_eq_inl.mpr ⟨m, hstep, hlast⟩, hend⟩
    · rintro ⟨last, hlast, hend⟩
      obtain ⟨m, hstep, hrest⟩ := loop_succ_eq_inl.mp hlast
      exact ⟨m, hstep, ih.mpr ⟨last, hrest, hend⟩⟩

/-- **A loop has no overflow** when no round has one that the other loop comes to. -/
theorem noOverflow_loop (h : ∀ s, Agrees (step s) (other s)) :
    NoOverflow (loop step rounds s) ↔
      ∀ k < rounds, ∀ s', loop other k s = .ok (.inl s') → NoOverflow (step s') := by
  induction rounds generalizing s with
  | zero => exact ⟨fun _ k hk => absurd hk (Nat.not_lt_zero k), fun _ => .value _⟩
  | succ rounds ih =>
    rw [loop, noOverflow_bind (h s)]
    constructor
    · rintro ⟨hfirst, hrest⟩ k hk s' hs'
      cases k with
      | zero =>
        cases hs'
        exact hfirst
      | succ k =>
        obtain ⟨m, hstep, hloop⟩ := loop_succ_eq_inl.mp hs'
        exact ih.mp (hrest (.inl m) hstep) k (by omega) s' hloop
    · intro hall
      refine ⟨hall 0 (by omega) s rfl, fun r hr => ?_⟩
      cases r with
      | inl m =>
        exact ih.mpr fun k hk s' hs' =>
          hall (k + 1) (by omega) s' (loop_succ_eq_inl.mpr ⟨m, hr, hs'⟩)
      | inr t => exact .value _

/-- Where a loop can come to in some number of rounds. -/
theorem exists_loop_eq_inl :
    (∃ k, loop step k s = .ok (.inl s')) ↔ Relation.ReflTransGen (GoesOn step) s s' := by
  constructor
  · rintro ⟨k, h⟩
    induction k generalizing s' with
    | zero =>
      cases h
      exact .refl
    | succ k ih =>
      obtain ⟨m, hloop, hstep⟩ := loop_succ_eq_inl'.mp h
      exact (ih hloop).tail hstep
  · intro h
    induction h with
    | refl => exact ⟨0, rfl⟩
    | tail _ hstep ih =>
      obtain ⟨k, hloop⟩ := ih
      exact ⟨k + 1, loop_succ_eq_inl'.mpr ⟨_, hloop, hstep⟩⟩

/-- The same for a loop without a bound. -/
theorem noOverflow_loop_all (h : ∀ s, Agrees (step s) (other s)) :
    (∀ rounds, NoOverflow (loop step rounds s)) ↔
      ∀ s', Relation.ReflTransGen (GoesOn other) s s' → NoOverflow (step s') := by
  constructor
  · intro hall s' hs'
    obtain ⟨k, hk⟩ := exists_loop_eq_inl.mpr hs'
    exact (noOverflow_loop h).mp (hall (k + 1)) k (Nat.lt_succ_self k) s' hk
  · intro hall rounds
    exact (noOverflow_loop h).mpr fun k _ s' hs' => hall s' (exists_loop_eq_inl.mp ⟨k, hs'⟩)

end

end Arithmetic
