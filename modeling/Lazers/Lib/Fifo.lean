import Mathlib.Tactic.Common

/-!
# Bounded queues

A queue is its two operations, `push` that can refuse and `pop` that can find nothing
(`Queue`). `Queue.Implements` says of single operations that they are those of a bounded
queue, by a relation between the states and the items that are pending. `Queue.IsFifo` says it of
every run from a state, and does not mention such a relation: `Implements.isFifo`.
-/

universe u v

namespace Fifo

variable {σ : Type u} {α : Type v}

structure Queue (σ : Type u) (α : Type v) where
  push : σ → α → Bool × σ
  pop : σ → Option α × σ

inductive Op (α : Type v) where
  | push (a : α)
  | pop

/-- A state, and what went in and came out on the way to it. -/
structure History (σ : Type u) (α : Type v) where
  state : σ
  accepted : List α
  popped : List α

namespace Queue

def step (q : Queue σ α) (h : History σ α) : Op α → History σ α
  | .push a =>
    let (pushed, state) := q.push h.state a
    { h with state, accepted := h.accepted ++ if pushed then [a] else [] }
  | .pop =>
    let (item, state) := q.pop h.state
    { h with state, popped := h.popped ++ item.toList }

def run (q : Queue σ α) (s : σ) (ops : List (Op α)) : History σ α :=
  ops.foldl q.step { state := s, accepted := [], popped := [] }

/-- **First in, first out**, in every run: what came out is the first part of what went in. With
`pending` the rest, a push is refused exactly when `capacity` items are pending and then does
nothing, and a pop finds nothing exactly when none is. -/
def IsFifo (q : Queue σ α) (s : σ) (capacity : Nat) : Prop :=
  ∀ ops, ∃ pending, (q.run s ops).accepted = (q.run s ops).popped ++ pending ∧
    (∀ a, ((q.push (q.run s ops).state a).1 = false ↔ pending.length = capacity) ∧
      (pending.length = capacity → q.push (q.run s ops).state a = (false, (q.run s ops).state))) ∧
    ((q.pop (q.run s ops).state).1 = none ↔ pending = [])

/-- The operations are those of a bounded queue. -/
structure Implements (q : Queue σ α) (capacity : Nat) (Rep : σ → List α → Prop) : Prop where
  push_cases : ∀ {s l}, Rep s l → ∀ a,
    (l.length < capacity ∧ ∃ s', q.push s a = (true, s') ∧ Rep s' (l ++ [a])) ∨
      (l.length = capacity ∧ q.push s a = (false, s))
  pop_nil : ∀ {s}, Rep s [] → q.pop s = (none, s)
  pop_cons : ∀ {s a l}, Rep s (a :: l) → ∃ s', q.pop s = (some a, s') ∧ Rep s' l

namespace Implements

variable {q : Queue σ α} {capacity : Nat} {Rep : σ → List α → Prop}

/-- **One step** keeps what went in equal to what came out and what is pending. -/
theorem step (h : q.Implements capacity Rep) {t : History σ α} {pending : List α}
    (hrep : Rep t.state pending) (hall : t.accepted = t.popped ++ pending) (op : Op α) :
    ∃ pending', Rep (q.step t op).state pending' ∧
      (q.step t op).accepted = (q.step t op).popped ++ pending' := by
  cases op with
  | push a =>
    obtain ⟨-, s, hpush, hrep'⟩ | ⟨-, hpush⟩ := h.push_cases hrep a
    · rw [Queue.step, hpush]
      refine ⟨pending ++ [a], hrep', ?_⟩
      show t.accepted ++ [a] = t.popped ++ (pending ++ [a])
      rw [hall, List.append_assoc]
    · rw [Queue.step, hpush]
      refine ⟨pending, hrep, ?_⟩
      show t.accepted ++ [] = t.popped ++ pending
      rw [hall, List.append_nil]
  | pop =>
    cases pending with
    | nil =>
      rw [Queue.step, h.pop_nil hrep]
      refine ⟨[], hrep, ?_⟩
      show t.accepted = t.popped ++ [] ++ []
      rw [hall, List.append_nil, List.append_nil]
    | cons a pending =>
      obtain ⟨s, hpop, hrep'⟩ := h.pop_cons hrep
      rw [Queue.step, hpop]
      refine ⟨pending, hrep', ?_⟩
      show t.accepted = t.popped ++ [a] ++ pending
      rw [hall, List.append_assoc, List.singleton_append]

theorem foldl_step (h : q.Implements capacity Rep) (ops : List (Op α)) {t : History σ α}
    {pending : List α} (hrep : Rep t.state pending) (hall : t.accepted = t.popped ++ pending) :
    ∃ pending', Rep (ops.foldl q.step t).state pending' ∧
      (ops.foldl q.step t).accepted = (ops.foldl q.step t).popped ++ pending' := by
  induction ops generalizing t pending with
  | nil => exact ⟨pending, hrep, hall⟩
  | cons op ops ih =>
    obtain ⟨pending', hrep', hall'⟩ := h.step hrep hall op
    exact ih hrep' hall'

/-- **Every run.** -/
theorem isFifo (h : q.Implements capacity Rep) {s : σ} (hs : Rep s []) : q.IsFifo s capacity := by
  intro ops
  obtain ⟨pending, hrep, hall⟩ := h.foldl_step ops (t := ⟨s, [], []⟩) hs rfl
  refine ⟨pending, hall, fun a => ?_, ?_⟩
  · rw [run]
    obtain ⟨hroom, s', hpush, -⟩ | ⟨hfull, hpush⟩ := h.push_cases hrep a
    · have hne := Nat.ne_of_lt hroom
      rw [hpush]
      exact ⟨iff_of_false (show ¬ true = false by decide) hne, fun hfull => absurd hfull hne⟩
    · rw [hpush]
      exact ⟨iff_of_true rfl hfull, fun _ => rfl⟩
  · rw [run]
    cases pending with
    | nil =>
      rw [h.pop_nil hrep]
      exact iff_of_true rfl rfl
    | cons a pending =>
      obtain ⟨s', hpop, -⟩ := h.pop_cons hrep
      rw [hpop]
      exact iff_of_false (Option.some_ne_none a) (List.cons_ne_nil a pending)

end Implements

end Queue

end Fifo
