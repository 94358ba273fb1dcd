import Lazers.Kernel.Power

/-!
# Package lengths (`parse_package_length`)

AML has two forms for the length of a package (`EncodesLength`): a single byte of six bits, or
four bits in a lead byte and one to three bytes behind it. The two high bits of the first byte
tell the forms apart.

- `packageLengthLoop_eq`: the loop adds up the bytes behind the lead byte.
- `package_length_iff`: the decoder takes four bits of the lead byte in both forms, so the
  lengths from 16 to 63 in a single byte come out wrong, and no others.
-/

namespace Lazers.Power

/-- The `k` low bytes of a number, lowest first. -/
def leBytes : (k n : Nat) → List UInt8
  | 0, _ => []
  | k + 1, n => UInt8.ofNat n :: leBytes k (n / 256)

/-- **The encodings of a length**. The bits `reserved` of a lead byte with bytes behind it are not
used. -/
inductive EncodesLength : (n : Nat) → (bytes : List UInt8) → Prop where
  | oneByte {n : Nat} (h : n < 64) : EncodesLength n [UInt8.ofNat n]
  | multiByte {n k reserved : Nat} (hk : 1 ≤ k ∧ k ≤ 3) (hreserved : reserved < 4)
      (h : n < 2 ^ (4 + 8 * k)) :
      EncodesLength n (UInt8.ofNat (64 * k + 16 * reserved + n % 16) :: leBytes k (n / 16))

theorem length_leBytes (k n : Nat) : (leBytes k n).length = k := by
  induction k generalizing n with
  | zero => rfl
  | succ k ih => rw [leBytes, List.length_cons, ih]

theorem toNat_ofNat (n : Nat) : (UInt8.ofNat n).toNat = n % 256 := UInt8.toNat_ofNat'

/-- Reading back a number that fits. -/
theorem readLe_leBytes {k n : Nat} (h : n < 256 ^ k) : readLe (leBytes k n) 0 k = n := by
  induction k generalizing n with
  | zero =>
    rw [Nat.pow_zero] at h
    rw [readLe]
    omega
  | succ k ih =>
    have hhigh : n / 256 < 256 ^ k := Nat.div_lt_of_lt_mul (by rw [← Nat.pow_succ']; exact h)
    have htail := readLe_cons (UInt8.ofNat n) (leBytes k (n / 256)) k
    rw [List.take_of_length_le (length_leBytes _ _).le, ih hhigh] at htail
    rw [leBytes, readLe, htail, List.getD_cons_zero, toNat_ofNat, Nat.mod_add_div]

/-- A length below 2^28 has an encoding, and no other length has. -/
theorem exists_encodesLength_iff {n : Nat} : (∃ enc, EncodesLength n enc) ↔ n < 2 ^ 28 := by
  constructor
  · rintro ⟨enc, h⟩
    cases h with
    | oneByte h => exact h.trans (by decide)
    | multiByte hk hreserved h => exact h.trans_le (Nat.pow_le_pow_right (by decide) (by omega))
  · intro h
    exact ⟨_, @EncodesLength.multiByte n 3 0 ⟨by decide, by decide⟩ (by decide) h⟩

/-! ## The decoder -/

/-- The low bits and a shifted byte do not overlap. -/
theorem or_shiftLeft {low shift : Nat} (h : low < 2 ^ shift) (byte : Nat) :
    low ||| byte <<< shift = low + 2 ^ shift * byte := by
  rw [Nat.shiftLeft_eq, Nat.mul_comm, Nat.or_comm, ← Nat.two_pow_add_eq_or_of_lt h, Nat.add_comm]

/-- **The loop** puts the bytes that follow on top of the bits it has. -/
theorem packageLengthLoop_eq (bytes : List UInt8) {rounds index length : Nat}
    (h : length < 2 ^ (4 + index * 8)) :
    packageLengthLoop bytes rounds index length =
      length + 2 ^ (4 + index * 8) * readLe bytes (1 + index) rounds := by
  induction rounds generalizing index length with
  | zero => rw [packageLengthLoop, readLe, Nat.mul_zero, Nat.add_zero]
  | succ rounds ih =>
    have hbyte := (bytes.getD (1 + index) 0).toNat_lt
    have hpow : 2 ^ (4 + (index + 1) * 8) = 2 ^ (4 + index * 8) * 256 := by
      rw [show 4 + (index + 1) * 8 = 4 + index * 8 + 8 by omega, Nat.pow_add]
    -- what the loop has after this round still fits below the next byte
    have hnext : length + 2 ^ (4 + index * 8) * (bytes.getD (1 + index) 0).toNat <
        2 ^ (4 + (index + 1) * 8) := by
      have hmul := Nat.mul_le_mul_left (2 ^ (4 + index * 8)) (Nat.succ_le_of_lt hbyte)
      rw [Nat.mul_succ] at hmul
      omega
    rw [packageLengthLoop, or_shiftLeft h, ih hnext, readLe, hpow, Nat.mul_add, Nat.mul_assoc,
      Nat.add_assoc, Nat.add_assoc]

/-- The decoder on a lead byte that has its bytes behind it. -/
theorem parsePackageLength_cons {lead : UInt8} {following : List UInt8}
    (h : following.length = (lead >>> 6).toNat) (trailing : List UInt8) :
    parsePackageLength (lead :: following ++ trailing) =
      some ((lead &&& 0x0f).toNat + 16 * readLe following 0 following.length,
        1 + following.length) := by
  have hlow : (lead &&& 0x0f).toNat < 2 ^ (4 + 0 * 8) := by
    rw [UInt8.toNat_and]
    exact Nat.and_lt_two_pow _ (by decide)
  have hread := readLe_cons lead (following ++ trailing) following.length
  rw [List.take_left] at hread
  have hparse : parsePackageLength (lead :: (following ++ trailing)) =
      if (lead :: (following ++ trailing)).length < 1 + (lead >>> 6).toNat then none
      else some (packageLengthLoop (lead :: (following ++ trailing)) (lead >>> 6).toNat 0
        (lead &&& 0x0f).toNat, 1 + (lead >>> 6).toNat) := rfl
  rw [List.cons_append, hparse, ← h, if_neg, packageLengthLoop_eq _ hlow]
  · show some (_ + 16 * readLe _ 1 _, _) = _
    rw [hread]
  · rw [List.length_cons, List.length_append]
    omega

theorem lead_eq {high low : Nat} (hhigh : high < 4) (hlow : low < 64) :
    (UInt8.ofNat (64 * high + low) >>> 6).toNat = high ∧
      (UInt8.ofNat (64 * high + low) &&& 0x0f).toNat = low % 16 := by
  constructor
  · rw [UInt8.toNat_shiftRight, toNat_ofNat, Nat.shiftRight_eq_div_pow]
    show _ / 64 = _
    omega
  · rw [UInt8.toNat_and, toNat_ofNat]
    show _ &&& 2 ^ 4 - 1 = _
    rw [Nat.and_two_pow_sub_one_eq_mod]
    omega

/-- What the decoder makes of a length in a single byte. -/
theorem parsePackageLength_oneByte {n : Nat} (h : n < 64) (trailing : List UInt8) :
    parsePackageLength ([UInt8.ofNat n] ++ trailing) = some (n % 16, 1) := by
  obtain ⟨hhigh, hlow⟩ := @lead_eq 0 n (by decide) h
  rw [Nat.mul_zero, Nat.zero_add] at hhigh hlow
  have hparse := @parsePackageLength_cons _ [] hhigh.symm trailing
  rw [hlow] at hparse
  exact hparse

/-- With bytes behind the lead byte it is right. -/
theorem parsePackageLength_multiByte {n k reserved : Nat} (hk : k ≤ 3) (hreserved : reserved < 4)
    (h : n < 2 ^ (4 + 8 * k)) (trailing : List UInt8) :
    parsePackageLength (UInt8.ofNat (64 * k + 16 * reserved + n % 16) :: leBytes k (n / 16) ++
      trailing) = some (n, 1 + k) := by
  obtain ⟨hhigh, hlow⟩ := @lead_eq k (16 * reserved + n % 16) (by omega) (by omega)
  rw [← Nat.add_assoc] at hhigh hlow
  have hfits : n / 16 < 256 ^ k := by
    rw [show (256 : Nat) = 2 ^ 8 by rfl, ← Nat.pow_mul]
    exact Nat.div_lt_of_lt_mul (by rwa [Nat.pow_add] at h)
  have hsplit : (16 * reserved + n % 16) % 16 + 16 * (n / 16) = n := by omega
  rw [parsePackageLength_cons (by rw [length_leBytes, hhigh]), length_leBytes, hlow,
    readLe_leBytes hfits, hsplit]

/-- **When a length is decoded.** The length and the size of its encoding are returned, whatever
is behind it, if and only if the encoding has more than one byte or the length is below 16. Where
the bytes that the first one announces are not all there, nothing is returned. -/
theorem package_length_iff (bytes : List UInt8) :
    (∀ n enc trailing, EncodesLength n enc → bytes = enc ++ trailing →
      (parsePackageLength bytes = some (n, enc.length) ↔ 1 < enc.length ∨ n < 16)) ∧
    ((∀ lead ∈ bytes.head?, bytes.length < 1 + (lead >>> 6).toNat) →
      parsePackageLength bytes = none) := by
  constructor
  · rintro n enc trailing henc rfl
    cases henc with
    | oneByte h =>
      rw [parsePackageLength_oneByte h, List.length_singleton, Option.some.injEq, Prod.mk.injEq]
      omega
    | @multiByte k reserved hk hreserved h =>
      rw [parsePackageLength_multiByte hk.2 hreserved h, List.length_cons, length_leBytes,
        Nat.add_comm]
      exact ⟨fun _ => .inl (by omega), fun _ => rfl⟩
  · intro hshort
    cases bytes with
    | nil => rfl
    | cons lead tail => exact if_pos (hshort lead rfl)

theorem package_length_at_six :
    parsePackageLength [0x06, 0x02] = some (6, 1) ∧ parsePackageLength [0x40] = none :=
  ⟨((package_length_iff [0x06, 0x02]).1 6 [0x06] [0x02] (.oneByte (by decide)) rfl).mpr
      (.inr (by decide)),
    (package_length_iff [0x40]).2 (by rintro _ ⟨⟩; decide)⟩

/-- **A length of 16 in a single byte** is read as 0. -/
theorem sixteen_misread :
    ¬ ∀ (n : Nat) (enc trailing : List UInt8), n < 2 ^ 28 → EncodesLength n enc →
      parsePackageLength (enc ++ trailing) = some (n, enc.length) := by
  intro hclaim
  have h := hclaim 16 [0x10] [] (by decide) (.oneByte (by decide))
  have hread : parsePackageLength ([0x10] ++ []) = some (0, 1) := rfl
  rw [hread] at h
  cases h

end Lazers.Power
