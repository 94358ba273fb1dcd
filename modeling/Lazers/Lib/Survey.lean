import Mathlib.Tactic.Common

/-!
# Programs that look for data in memory

Tables point to tables: a program asks for a range of memory, reads it, and learns which range to
ask for next. On a machine a range has to be made visible before it can be read, which changes the
machine and can fail.

- `Survey ε α`: such a program on a memory that does not change, as the ranges it asks for, in
  order, and what it comes to.
- `Machine σ ε α`: a program of the machine. It can fail with an error of its own, and it can
  stop for good (`none`), as at a page fault.
- `Follows`: **the machine does what the survey says**, unless a range cannot be made visible.

The rules of `Follows` are those of building a program: each is about one step, and `bind` puts them
together.
-/

/-- The ranges asked for, in order, and what the program comes to. -/
structure Survey (ε α : Type) where
  ranges : List (Nat × Nat)
  result : Except ε α

namespace Survey

variable {ε σ α β γ : Type}

instance : Monad (Survey ε) where
  pure a := ⟨[], .ok a⟩
  bind x f :=
    match x.result with
    | .ok a => ⟨x.ranges ++ (f a).ranges, (f a).result⟩
    | .error e => ⟨x.ranges, .error e⟩

/-- Fail. -/
def fail (e : ε) : Survey ε α := ⟨[], .error e⟩

/-- Ask for one range. -/
def ask (start stop : Nat) (a : α) : Survey ε α := ⟨[(start, stop)], .ok a⟩

/-- A computation that asks for nothing. -/
def settled (r : Except ε α) : Survey ε α := ⟨[], r⟩

theorem bind_of_ok {x : Survey ε α} {a : α} (h : x.result = .ok a) (f : α → Survey ε β) :
    x >>= f = ⟨x.ranges ++ (f a).ranges, (f a).result⟩ := by
  show (match x.result with | .ok a => _ | .error e => _ : Survey ε β) = _
  rw [h]

theorem bind_of_error {x : Survey ε α} {e : ε} (h : x.result = .error e) (f : α → Survey ε β) :
    x >>= f = ⟨x.ranges, .error e⟩ := by
  show (match x.result with | .ok a => _ | .error e => _ : Survey ε β) = _
  rw [h]

/-- A sequence comes to a value if both of its parts do. -/
theorem bind_eq_ok {x : Survey ε α} {f : α → Survey ε β} {b : β} :
    (x >>= f).result = .ok b ↔ ∃ a, x.result = .ok a ∧ (f a).result = .ok b := by
  cases h : x.result with
  | ok a =>
    rw [bind_of_ok h]
    constructor
    · intro hb
      exact ⟨a, rfl, hb⟩
    · rintro ⟨_, ⟨⟩, hb⟩
      exact hb
  | error e =>
    rw [bind_of_error h]
    constructor
    · intro hb
      cases hb
    · rintro ⟨_, ⟨⟩, -⟩

theorem mem_ranges_bind_left {x : Survey ε α} {f : α → Survey ε β} {r : Nat × Nat}
    (h : r ∈ x.ranges) : r ∈ (x >>= f).ranges := by
  cases hx : x.result with
  | ok a =>
    rw [bind_of_ok hx]
    exact List.mem_append_left _ h
  | error e =>
    rw [bind_of_error hx]
    exact h

theorem mem_ranges_bind_right {x : Survey ε α} {f : α → Survey ε β} {a : α} {r : Nat × Nat}
    (hx : x.result = .ok a) (h : r ∈ (f a).ranges) : r ∈ (x >>= f).ranges := by
  rw [bind_of_ok hx]
  exact List.mem_append_right _ h

/-! ## Machines -/

/-- A program of a machine whose states are `σ`. -/
abbrev Machine (σ ε α : Type) : Type := ExceptT ε (StateT σ Option) α

namespace Machine

/-- Read the state. -/
def reads (r : σ → Option α) : Machine σ ε α := fun s => (r s).map fun a => (.ok a, s)

/-- A computation that does not look at the state. -/
def returns (x : ExceptT ε Option α) : Machine σ ε α := fun s => x.run.map fun r => (r, s)

end Machine

section

variable (Inv : List (Nat × Nat) → σ → Prop) (Allowed : Nat × Nat → Prop) (failed : ε)

/-- **The program follows the survey**, from any state in which the ranges `seen` are visible.
If the survey only asks for what is allowed, the program does not stop for good. It either comes to
what the survey comes to, and has made visible what that asked for, or it has `failed`. -/
def Follows (seen : List (Nat × Nat)) (x : Machine σ ε α) (p : Survey ε α) : Prop :=
  ∀ s, Inv seen s → (∀ r ∈ p.ranges, Allowed r) → ∃ r s', x s = some (r, s') ∧
    ((r = p.result ∧ Inv (seen ++ p.ranges) s') ∨ (r = .error failed ∧ ∃ part, Inv part s'))

end

namespace Follows

variable {Inv : List (Nat × Nat) → σ → Prop} {Allowed : Nat × Nat → Prop} {failed : ε}
  {seen : List (Nat × Nat)}

theorem settled {x : Machine σ ε α} {r : Except ε α} (h : ∀ s, x s = some (r, s)) :
    Follows Inv Allowed failed seen x (settled r) := by
  intro s hs _
  refine ⟨r, s, h s, .inl ⟨rfl, ?_⟩⟩
  rw [show (Survey.settled r).ranges = [] from rfl, List.append_nil]
  exact hs

theorem pure (a : α) : Follows Inv Allowed failed seen (Pure.pure a) (Pure.pure a) :=
  settled fun _ => rfl

theorem throw (e : ε) :
    Follows Inv Allowed failed seen (MonadExcept.throw e : Machine σ ε α) (fail e) :=
  settled fun _ => rfl

/-- Code that returns by itself. -/
theorem returns {x : ExceptT ε Option α} {r : Except ε α} (h : x.run = some r) :
    Follows Inv Allowed failed seen (Machine.returns x) (Survey.settled r) := by
  refine settled fun s => ?_
  rw [Machine.returns, h]
  rfl

/-- Sequences: the second part starts with everything visible that the first asked for. -/
theorem bind {x : Machine σ ε α} {p : Survey ε α} {f : α → Machine σ ε β} {q : α → Survey ε β}
    (hx : Follows Inv Allowed failed seen x p)
    (hf : ∀ a, p.result = .ok a → Follows Inv Allowed failed (seen ++ p.ranges) (f a) (q a)) :
    Follows Inv Allowed failed seen (x >>= f) (p >>= q) := by
  intro s hs hallowed
  obtain ⟨r, s', hrun, hcases⟩ := hx s hs fun r hr => hallowed r (mem_ranges_bind_left hr)
  have hbind : (x >>= f) s = (x s).bind fun rs => ExceptT.bindCont f rs.1 rs.2 := rfl
  rw [hbind, hrun, Option.bind_some]
  rcases hcases with ⟨rfl, hinv⟩ | ⟨rfl, part, hinv⟩
  · cases hp : p.result with
    | error e =>
      -- the survey ends here as well, and so has asked for nothing more
      rw [bind_of_error hp]
      exact ⟨.error e, s', rfl, .inl ⟨rfl, hinv⟩⟩
    | ok a =>
      obtain ⟨r, s'', hrun', hcases'⟩ :=
        hf a hp s' hinv fun r hr => hallowed r (mem_ranges_bind_right hp hr)
      rw [bind_of_ok hp]
      rw [List.append_assoc] at hcases'
      exact ⟨r, s'', hrun', hcases'⟩
  · exact ⟨.error failed, s', rfl, .inr ⟨rfl, part, hinv⟩⟩

/-- A read of what is visible, which the survey knows. -/
theorem reads {r : σ → Option α} {a : α} {f : α → Machine σ ε β} {p : Survey ε β}
    (hr : ∀ s, Inv seen s → r s = some a) (hf : Follows Inv Allowed failed seen (f a) p) :
    Follows Inv Allowed failed seen (Machine.reads r >>= f) p := by
  intro s hs hallowed
  obtain ⟨result, s', hrun, hcases⟩ := hf s hs hallowed
  refine ⟨result, s', ?_, hcases⟩
  show ((r s).map fun a => (Except.ok a, s)).bind (fun rs => ExceptT.bindCont f rs.1 rs.2) = _
  rw [hr s hs]
  exact hrun

/-- A computation whose result the survey has already. -/
theorem known {x : ExceptT ε Option α} {a : α} {f : α → Machine σ ε β} {p : Survey ε β}
    (hx : x.run = some (.ok a)) (hf : Follows Inv Allowed failed seen (f a) p) :
    Follows Inv Allowed failed seen (Machine.returns x >>= f) p := by
  intro s hs hallowed
  obtain ⟨result, s', hrun, hcases⟩ := hf s hs hallowed
  refine ⟨result, s', ?_, hcases⟩
  show (x.run.map fun r => (r, s)).bind (fun rs => ExceptT.bindCont f rs.1 rs.2) = _
  rw [hx]
  exact hrun

/-- A computation whose failure the survey has already. -/
theorem refused {x : ExceptT ε Option α} {e : ε} {f : α → Machine σ ε β} {p : Survey ε β}
    (hx : x.run = some (.error e)) (hp : p = fail e) :
    Follows Inv Allowed failed seen (Machine.returns x >>= f) p := by
  subst hp
  refine settled fun s => ?_
  show (x.run.map fun r => (r, s)).bind (fun rs => ExceptT.bindCont f rs.1 rs.2) = _
  rw [hx]
  rfl

theorem ite {c : Prop} [Decidable c] {x y : Machine σ ε α} {p q : Survey ε α}
    (hx : c → Follows Inv Allowed failed seen x p)
    (hy : ¬ c → Follows Inv Allowed failed seen y q) :
    Follows Inv Allowed failed seen (if c then x else y) (if c then p else q) := by
  by_cases hc : c
  · rw [if_pos hc, if_pos hc]
    exact hx hc
  · rw [if_neg hc, if_neg hc]
    exact hy hc

end Follows

end Survey
