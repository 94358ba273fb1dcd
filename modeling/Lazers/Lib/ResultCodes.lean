import Mathlib.Tactic.Common

/-!
# Values and errors in one word

A call that can only return a word sets some words aside for its errors. `decode` is
the caller's side of such a convention for calls that return a number, `decodeUnit`
for calls that return nothing. A number survives the trip exactly if it is not one of
the words set aside (`decode_eq_ok_iff`).
-/

namespace ResultCodes

variable {ε : Type}

/-- The number in a word, unless the word is one of the codes. -/
def decode (codes : List (Nat × ε)) (word : Nat) : Except ε Nat :=
  match codes.lookup word with
  | some e => .error e
  | none => .ok word

/-- Zero is success, and an unknown code is the error `other`. -/
def decodeUnit (codes : List (Nat × ε)) (other : ε) (word : Nat) : Except ε Unit :=
  if word = 0 then .ok () else .error ((codes.lookup word).getD other)

theorem decode_eq_ok_iff {codes : List (Nat × ε)} {word n : Nat} :
    decode codes word = .ok n ↔ word = n ∧ ∀ code ∈ codes, code.1 ≠ word := by
  rw [decode]
  cases h : codes.lookup word with
  | some e =>
    have hcode : ∃ code ∈ codes, code.1 = word := by
      by_contra hno
      have hnone : codes.lookup word = none := by
        rw [List.lookup_eq_none_iff]
        intro code hcode
        simpa using fun heq : word = code.1 => hno ⟨code, hcode, heq.symm⟩
      rw [h] at hnone
      cases hnone
    obtain ⟨code, hmem, heq⟩ := hcode
    constructor
    · intro herr
      cases herr
    · rintro ⟨-, hall⟩
      exact absurd heq (hall code hmem)
  | none =>
    rw [List.lookup_eq_none_iff] at h
    constructor
    · intro hok
      refine ⟨Except.ok.inj hok, fun code hcode heq => ?_⟩
      have hne := h code hcode
      simp [heq] at hne
    · rintro ⟨rfl, -⟩
      rfl

/-- An error comes from a code. -/
theorem mem_of_decode_eq_error {codes : List (Nat × ε)} {word : Nat} {e : ε}
    (h : decode codes word = .error e) : (word, e) ∈ codes := by
  rw [decode] at h
  cases hlookup : codes.lookup word with
  | none =>
    rw [hlookup] at h
    cases h
  | some e' =>
    rw [hlookup] at h
    obtain rfl := Except.error.inj h
    obtain ⟨before, after, rfl, -⟩ := List.lookup_eq_some_iff.mp hlookup
    simp

/-- Numbers below all the codes are themselves. -/
theorem decode_of_lt {codes : List (Nat × ε)} {bound n : Nat}
    (hcodes : ∀ code ∈ codes, bound ≤ code.1) (hn : n < bound) : decode codes n = .ok n := by
  refine decode_eq_ok_iff.mpr ⟨rfl, fun code hcode heq => ?_⟩
  have := hcodes code hcode
  omega

end ResultCodes
