import Lazers.Lib.Occurrence
import Lazers.LzUtil

/-!
# Finding `_S5_` (`power.rs`)

The sleep types for the power-off are in a package named `_S5_` of the DSDT. `parse_s5_package`
does not parse the AML around it: it looks for the bytes of a definition and reads two integers
behind them.

- `parseS5Package_eq_ok_iff`: it finds the first definition whose name has no prefix, whatever is
  around it, with any package length and any integers.
- `s5_found_iff`: a definition of `\_S5_` is not one of these. The scanner expects the root prefix
  in front of the `NameOp`; AML has it in front of the name.
-/

namespace Lazers.Power

open Occurrence

def sdtHeaderLength : Nat := 36
/-- `FACP`. -/
def fadtSignature : List UInt8 := [0x46, 0x41, 0x43, 0x50]
/-- `DSDT`. -/
def dsdtSignature : List UInt8 := [0x44, 0x53, 0x44, 0x54]

def amlNameOp : UInt8 := 0x08
def amlPackageOp : UInt8 := 0x12
def amlRootPrefix : UInt8 := 0x5c
def amlParentPrefix : UInt8 := 0x5e
def amlBytePrefix : UInt8 := 0x0a
def amlWordPrefix : UInt8 := 0x0b
def amlDwordPrefix : UInt8 := 0x0c
def amlQwordPrefix : UInt8 := 0x0e

/-- `_S5_`. -/
def s5Name : List UInt8 := [0x5f, 0x53, 0x35, 0x5f]

inductive PowerError where
  | missingRsdp
  | invalidRsdp
  | missingRootTable
  | invalidRootTable
  | missingFadt
  | invalidFadt
  | missingDsdt
  | invalidDsdt
  | missingPm1ControlBlock
  | unsupportedPm1ControlBlock
  | missingS5Package
  | invalidS5Package
  | mappingFailed
deriving DecidableEq, Repr

/-! ## Tables -/

/-- `read_u32`. -/
def readU32 (bytes : List UInt8) (offset : Nat) : Option Nat :=
  if offset + 4 ≤ bytes.length then some (readLeU32 bytes offset) else none

/-- `checksum`. -/
def checksum (bytes : List UInt8) (length : Nat) : UInt8 := (bytes.take length).foldl (· + ·) 0

/-- `table_error`. -/
def tableError (signature : List UInt8) : PowerError :=
  if signature = fadtSignature then .invalidFadt
  else if signature = dsdtSignature then .invalidDsdt
  else .invalidRootTable

/-- `parse_table_length`. -/
def parseTableLength (bytes : List UInt8) : Option Nat := do
  let length ← readU32 bytes 4
  if length < sdtHeaderLength then none else some length

/-- `parse_sdt_header`. -/
def parseSdtHeader (bytes expectedSignature : List UInt8) : Except PowerError Unit :=
  if bytes.length < sdtHeaderLength then .error (tableError expectedSignature)
  else
    match parseTableLength bytes with
    | none => .error (tableError expectedSignature)
    | some length =>
      if bytes.length < length ∨ bytes.take 4 ≠ expectedSignature ∨ checksum bytes length ≠ 0 then
        .error (tableError expectedSignature)
      else .ok ()

/-! ## AML -/

/-- The loop of `parse_package_length`. -/
def packageLengthLoop (bytes : List UInt8) : (rounds index length : Nat) → Nat
  | 0, _, length => length
  | rounds + 1, index, length =>
    packageLengthLoop bytes rounds (index + 1)
      (length ||| (bytes.getD (1 + index) 0).toNat <<< (4 + index * 8))

/-- `parse_package_length`: the length, and how many bytes it takes. -/
def parsePackageLength (bytes : List UInt8) : Option (Nat × Nat) := do
  let lead ← bytes.head?
  let followingBytes := (lead >>> 6).toNat
  if bytes.length < 1 + followingBytes then none
  else
    some (packageLengthLoop bytes followingBytes 0 (lead &&& 0x0f).toNat, 1 + followingBytes)

/-- `parse_aml_integer`: the low 16 bits of the value, and how many bytes it takes. -/
def parseAmlInteger (bytes : List UInt8) : Option (Nat × Nat) := do
  let opcode ← bytes.head?
  if opcode = 0x00 then some (0, 1)
  else if opcode = 0x01 then some (1, 1)
  else if opcode = amlBytePrefix ∧ bytes.length ≥ 2 then some ((bytes.getD 1 0).toNat, 2)
  else if opcode = amlWordPrefix ∧ bytes.length ≥ 3 then some (readLeU16 bytes 1, 3)
  else if opcode = amlDwordPrefix ∧ bytes.length ≥ 5 then some (readLeU32 bytes 1 % 2 ^ 16, 5)
  else if opcode = amlQwordPrefix ∧ bytes.length ≥ 9 then some (readLeU64 bytes 1 % 2 ^ 16, 9)
  else none

/-- The part of `parse_s5_package` behind the `PackageOp`. -/
def s5Values (aml : List UInt8) (cursor : Nat) : Except PowerError (Nat × Nat) :=
  match parsePackageLength (aml.drop cursor) with
  | none => .error .invalidS5Package
  | some (_, packageLengthBytes) =>
    if cursor + packageLengthBytes ≥ aml.length then .error .invalidS5Package
    else
      -- past the number of elements
      let cursor := cursor + packageLengthBytes + 1
      match parseAmlInteger (aml.drop cursor) with
      | none => .error .invalidS5Package
      | some (sleepTypeA, consumedA) =>
        match parseAmlInteger (aml.drop (cursor + consumedA)) with
        | none => .error .invalidS5Package
        | some (sleepTypeB, _) => .ok (sleepTypeA &&& 0x7, sleepTypeB &&& 0x7)

/-- Where the scanner looks for a name at the index. -/
def nameStart (aml : List UInt8) (index : Nat) : Option Nat :=
  if aml.getD index 0 = amlNameOp then some (index + 1)
  else if index + 1 < aml.length ∧
      (aml.getD index 0 = amlRootPrefix ∨ aml.getD index 0 = amlParentPrefix) ∧
      aml.getD (index + 1) 0 = amlNameOp then some (index + 2)
  else none

/-- The loop of `parse_s5_package`. -/
def s5Loop (aml : List UInt8) : (rounds index : Nat) → Except PowerError (Nat × Nat)
  | 0, _ => .error .missingS5Package
  | rounds + 1, index =>
    if index + 6 ≤ aml.length then
      match nameStart aml index with
      | none => s5Loop aml rounds (index + 1)
      | some nameStart =>
        if nameStart + 4 > aml.length ∨ (aml.drop nameStart).take 4 ≠ s5Name then
          s5Loop aml rounds (index + 1)
        else
          let cursor := nameStart + 4
          if cursor ≥ aml.length ∨ aml.getD cursor 0 ≠ amlPackageOp then
            s5Loop aml rounds (index + 1)
          else s5Values aml (cursor + 1)
    else .error .missingS5Package

/-- `parse_s5_package`. -/
def parseS5Package (dsdt : List UInt8) : Except PowerError (Nat × Nat) := do
  parseSdtHeader dsdt dsdtSignature
  let aml := dsdt.drop sdtHeaderLength
  s5Loop aml (aml.length + 1) 0

/-! ## What AML says -/

/-- A package length: the two high bits of the lead byte count the bytes that follow it. -/
def IsPackageLength (bytes : List UInt8) : Prop :=
  ∃ lead following, bytes = lead :: following ∧ following.length = (lead >>> 6).toNat

/-- **The encodings of an integer.** -/
inductive IsInteger : (value : Nat) → (bytes : List UInt8) → Prop where
  | zeroOp : IsInteger 0 [0x00]
  | oneOp : IsInteger 1 [0x01]
  | byte (data : UInt8) : IsInteger data.toNat [amlBytePrefix, data]
  | word {data : List UInt8} (h : data.length = 2) :
      IsInteger (readLeU16 data 0) (amlWordPrefix :: data)
  | dword {data : List UInt8} (h : data.length = 4) :
      IsInteger (readLeU32 data 0) (amlDwordPrefix :: data)
  | qword {data : List UInt8} (h : data.length = 8) :
      IsInteger (readLeU64 data 0) (amlQwordPrefix :: data)

theorem parsePackageLength_iff {bytes : List UInt8} {n : Nat} :
    (∃ length, parsePackageLength bytes = some (length, n)) ↔
      ∃ pkg rest, bytes = pkg ++ rest ∧ IsPackageLength pkg ∧ pkg.length = n := by
  cases bytes with
  | nil =>
    constructor
    · rintro ⟨length, h⟩
      cases h
    · rintro ⟨pkg, rest, hnil, ⟨lead, following, rfl, -⟩, -⟩
      cases hnil
  | cons lead tail =>
    have hparse : parsePackageLength (lead :: tail) =
        if (lead :: tail).length < 1 + (lead >>> 6).toNat then none
        else some (packageLengthLoop (lead :: tail) (lead >>> 6).toNat 0 (lead &&& 0x0f).toNat,
          1 + (lead >>> 6).toNat) := rfl
    rw [hparse, List.length_cons]
    constructor
    · rintro ⟨length, h⟩
      split_ifs at h with hshort
      cases h
      refine ⟨lead :: tail.take (lead >>> 6).toNat, tail.drop (lead >>> 6).toNat, ?_,
        ⟨lead, _, rfl, ?_⟩, ?_⟩
      · rw [List.cons_append, List.take_append_drop]
      · rw [List.length_take]
        omega
      · rw [List.length_cons, List.length_take]
        omega
    · rintro ⟨pkg, rest, hbytes, ⟨lead', following, rfl, hlen⟩, rfl⟩
      rw [List.cons_append, List.cons.injEq] at hbytes
      obtain ⟨rfl, rfl⟩ := hbytes
      rw [List.length_append, if_neg (by omega), List.length_cons, hlen, Nat.add_comm 1]
      exact ⟨_, rfl⟩

theorem parseAmlInteger_cons (opcode : UInt8) (tail : List UInt8) :
    parseAmlInteger (opcode :: tail) =
      if opcode = 0x00 then some (0, 1)
      else if opcode = 0x01 then some (1, 1)
      else if opcode = amlBytePrefix ∧ (opcode :: tail).length ≥ 2 then
        some (((opcode :: tail).getD 1 0).toNat, 2)
      else if opcode = amlWordPrefix ∧ (opcode :: tail).length ≥ 3 then
        some (readLeU16 (opcode :: tail) 1, 3)
      else if opcode = amlDwordPrefix ∧ (opcode :: tail).length ≥ 5 then
        some (readLeU32 (opcode :: tail) 1 % 2 ^ 16, 5)
      else if opcode = amlQwordPrefix ∧ (opcode :: tail).length ≥ 9 then
        some (readLeU64 (opcode :: tail) 1 % 2 ^ 16, 9)
      else none := rfl

theorem readLeU16_lt (bytes : List UInt8) (offset : Nat) : readLeU16 bytes offset < 2 ^ 16 :=
  (readLe_lt bytes offset 2).trans_eq (by decide)

/-- The word behind the opcode. -/
theorem readLe_cons (opcode : UInt8) (tail : List UInt8) (n : Nat) :
    readLe (opcode :: tail) 1 n = readLe (tail.take n) 0 n := by
  have hslice := readLe_slice (opcode :: tail) 1 n (Nat.le_of_eq (Nat.zero_add _))
  rw [List.drop_one, List.tail_cons] at hslice
  exact hslice.symm

/-- **Integers are read exactly**: what is accepted is an encoding, of a value with the low 16
bits that are returned. -/
theorem parseAmlInteger_iff {bytes : List UInt8} {v n : Nat} :
    parseAmlInteger bytes = some (v, n) ↔ ∃ a enc rest, bytes = enc ++ rest ∧ IsInteger a enc ∧
      enc.length = n ∧ v = a % 2 ^ 16 := by
  constructor
  · intro h
    cases bytes with
    | nil => cases h
    | cons opcode tail =>
      have hsplit : ∀ k, opcode :: tail = (opcode :: tail.take k) ++ tail.drop k := by
        intro k
        rw [List.cons_append, List.take_append_drop]
      rw [parseAmlInteger_cons] at h
      split_ifs at h with hzero hone hbyte hword hdword hqword
      · cases h
        subst hzero
        exact ⟨0, [0], tail, rfl, .zeroOp, rfl, rfl⟩
      · cases h
        subst hone
        exact ⟨1, [1], tail, rfl, .oneOp, rfl, rfl⟩
      · obtain ⟨rfl, hlen⟩ := hbyte
        cases tail with
        | nil => simp at hlen
        | cons data tail =>
          rw [Option.some.injEq, Prod.mk.injEq] at h
          obtain ⟨rfl, rfl⟩ := h
          have hlt : data.toNat < 256 := data.toNat_lt
          exact ⟨data.toNat, [amlBytePrefix, data], tail, rfl, .byte data, rfl,
            (Nat.mod_eq_of_lt (hlt.trans (by decide))).symm⟩
      · obtain ⟨rfl, hlen⟩ := hword
        rw [Option.some.injEq, Prod.mk.injEq] at h
        obtain ⟨rfl, rfl⟩ := h
        rw [List.length_cons] at hlen
        have hdata : (tail.take 2).length = 2 := by
          rw [List.length_take]
          omega
        refine ⟨_, _, _, hsplit 2, .word hdata, by rw [List.length_cons, hdata], ?_⟩
        rw [Nat.mod_eq_of_lt (readLeU16_lt _ _)]
        exact readLe_cons _ _ 2
      · obtain ⟨rfl, hlen⟩ := hdword
        rw [Option.some.injEq, Prod.mk.injEq] at h
        obtain ⟨rfl, rfl⟩ := h
        rw [List.length_cons] at hlen
        have hdata : (tail.take 4).length = 4 := by
          rw [List.length_take]
          omega
        refine ⟨_, _, _, hsplit 4, .dword hdata, by rw [List.length_cons, hdata], ?_⟩
        exact congrArg (· % 2 ^ 16) (readLe_cons _ _ 4)
      · obtain ⟨rfl, hlen⟩ := hqword
        rw [Option.some.injEq, Prod.mk.injEq] at h
        obtain ⟨rfl, rfl⟩ := h
        rw [List.length_cons] at hlen
        have hdata : (tail.take 8).length = 8 := by
          rw [List.length_take]
          omega
        refine ⟨_, _, _, hsplit 8, .qword hdata, by rw [List.length_cons, hdata], ?_⟩
        exact congrArg (· % 2 ^ 16) (readLe_cons _ _ 8)
  · rintro ⟨a, enc, rest, rfl, henc, rfl, rfl⟩
    have htake : ∀ data : List UInt8, (data ++ rest).take data.length = data :=
      fun data => List.take_left
    cases henc with
    | zeroOp => rfl
    | oneOp => rfl
    | byte data =>
      have hlt := data.toNat_lt
      rw [Nat.mod_eq_of_lt (by omega)]
      rfl
    | @word data hlen =>
      have hvalue := readLe_cons amlWordPrefix (data ++ rest) data.length
      rw [htake, hlen] at hvalue
      rw [List.cons_append, parseAmlInteger_cons, if_neg (by decide), if_neg (by decide),
        if_neg (fun h => absurd h.1 (by decide)), if_pos ⟨rfl, by simp [hlen]⟩, readLeU16, hvalue,
        List.length_cons, hlen, ← readLeU16, Nat.mod_eq_of_lt (readLeU16_lt _ _)]
    | @dword data hlen =>
      have hvalue := readLe_cons amlDwordPrefix (data ++ rest) data.length
      rw [htake, hlen] at hvalue
      rw [List.cons_append, parseAmlInteger_cons, if_neg (by decide), if_neg (by decide),
        if_neg (fun h => absurd h.1 (by decide)), if_neg (fun h => absurd h.1 (by decide)),
        if_pos ⟨rfl, by simp [hlen]⟩, readLeU32, hvalue, List.length_cons, hlen, ← readLeU32]
    | @qword data hlen =>
      have hvalue := readLe_cons amlQwordPrefix (data ++ rest) data.length
      rw [htake, hlen] at hvalue
      rw [List.cons_append, parseAmlInteger_cons, if_neg (by decide), if_neg (by decide),
        if_neg (fun h => absurd h.1 (by decide)), if_neg (fun h => absurd h.1 (by decide)),
        if_neg (fun h => absurd h.1 (by decide)), if_pos ⟨rfl, by simp [hlen]⟩, readLeU64, hvalue,
        List.length_cons, hlen, ← readLeU64]

/-- What is behind a `PackageOp` that the two values can be read from: the package length, the
number of elements, and two integers. -/
def HoldsValues (body : List UInt8) (x y : Nat) : Prop :=
  ∃ pkg num encA encB rest a b, body = pkg ++ num :: (encA ++ (encB ++ rest)) ∧
    IsPackageLength pkg ∧ IsInteger a encA ∧ IsInteger b encB ∧ x = a % 8 ∧ y = b % 8

theorem and_seven (a : Nat) : a % 2 ^ 16 &&& 0x7 = a % 8 := by
  rw [Nat.and_two_pow_sub_one_eq_mod _ 3]
  exact Nat.mod_mod_of_dvd a ⟨2 ^ 13, rfl⟩

theorem s5Values_eq_ok_iff {aml : List UInt8} {cursor x y : Nat} :
    s5Values aml cursor = .ok (x, y) ↔ HoldsValues (aml.drop cursor) x y := by
  constructor
  · intro h
    rw [s5Values] at h
    cases hpkg : parsePackageLength (aml.drop cursor) with
    | none =>
      rw [hpkg] at h
      cases h
    | some parsed =>
      obtain ⟨length, n⟩ := parsed
      rw [hpkg] at h
      dsimp only at h
      obtain ⟨pkg, rest, hbody, hpackage, rfl⟩ := parsePackageLength_iff.mp ⟨length, hpkg⟩
      split_ifs at h with hend
      have hlen := congrArg List.length hbody
      rw [List.length_drop, List.length_append] at hlen
      cases rest with
      | nil =>
        rw [List.length_nil] at hlen
        omega
      | cons num tail =>
        have htail : aml.drop (cursor + pkg.length + 1) = tail := by
          rw [Nat.add_assoc, ← List.drop_drop, hbody, ← List.drop_drop, List.drop_left,
            List.drop_one, List.tail_cons]
        rw [htail] at h
        cases hfirst : parseAmlInteger tail with
        | none =>
          rw [hfirst] at h
          cases h
        | some first =>
          obtain ⟨va, ka⟩ := first
          rw [hfirst] at h
          dsimp only at h
          obtain ⟨a, encA, restA, rfl, ha, rfl, rfl⟩ := parseAmlInteger_iff.mp hfirst
          rw [← List.drop_drop, htail, List.drop_left] at h
          cases hsecond : parseAmlInteger restA with
          | none =>
            rw [hsecond] at h
            cases h
          | some second =>
            obtain ⟨vb, kb⟩ := second
            rw [hsecond] at h
            dsimp only at h
            obtain ⟨b, encB, restB, rfl, hb, rfl, rfl⟩ := parseAmlInteger_iff.mp hsecond
            rw [and_seven, and_seven] at h
            cases h
            exact ⟨pkg, num, encA, encB, restB, a, b, hbody, hpackage, ha, hb, rfl, rfl⟩
  · rintro ⟨pkg, num, encA, encB, rest, a, b, hbody, hpackage, ha, hb, rfl, rfl⟩
    have hlen := congrArg List.length hbody
    rw [List.length_drop, List.length_append, List.length_cons] at hlen
    obtain ⟨length, hpkg⟩ := parsePackageLength_iff.mpr ⟨pkg, _, hbody, hpackage, rfl⟩
    have htail : aml.drop (cursor + pkg.length + 1) = encA ++ (encB ++ rest) := by
      rw [Nat.add_assoc, ← List.drop_drop, hbody, ← List.drop_drop, List.drop_left,
        List.drop_one, List.tail_cons]
    have hfirst := parseAmlInteger_iff.mpr ⟨a, encA, encB ++ rest, rfl, ha, rfl, rfl⟩
    have hsecond := parseAmlInteger_iff.mpr ⟨b, encB, rest, rfl, hb, rfl, rfl⟩
    rw [s5Values, hpkg]
    dsimp only
    rw [if_neg (by omega), htail, hfirst]
    dsimp only
    rw [← List.drop_drop, htail, List.drop_left, hsecond]
    dsimp only
    rw [and_seven, and_seven]

/-! ## The scanner -/

/-- **The bytes the scanner is after**: the definition of a package, by its name alone. -/
def s5Definition : List UInt8 := amlNameOp :: (s5Name ++ [amlPackageOp])

theorem append_singleton_prefix_iff {q l : List UInt8} {c : UInt8} :
    q ++ [c] <+: l ↔ l.take q.length = q ∧ l[q.length]? = some c := by
  constructor
  · rintro ⟨rest, rfl⟩
    simp
  · rintro ⟨htake, hget⟩
    obtain ⟨hlt, hc⟩ := List.getElem?_eq_some_iff.mp hget
    refine ⟨l.drop (q.length + 1), ?_⟩
    rw [List.append_assoc, List.singleton_append, ← hc, ← List.drop_eq_getElem_cons hlt]
    conv => lhs; rw [← htake]
    rw [List.length_take, Nat.min_eq_left (Nat.le_of_lt hlt), List.take_append_drop]

/-- The tests of the scanner at a `NameOp`. -/
theorem definition_prefix_iff {aml : List UInt8} {i : Nat} (hi : i < aml.length) :
    s5Definition <+: aml.drop i ↔ aml.getD i 0 = amlNameOp ∧
      ¬ (i + 1 + 4 > aml.length ∨ (aml.drop (i + 1)).take 4 ≠ s5Name) ∧
      ¬ (i + 1 + 4 ≥ aml.length ∨ aml.getD (i + 1 + 4) 0 ≠ amlPackageOp) := by
  have hlen : s5Name.length = 4 := rfl
  rw [List.drop_eq_getElem_cons hi, s5Definition, List.cons_prefix_cons,
    append_singleton_prefix_iff, hlen, List.getElem?_drop, ← List.getD_eq_getElem _ 0 hi]
  simp only [not_or, not_not, Nat.not_lt, Nat.not_le, ge_iff_le, gt_iff_lt]
  constructor
  · rintro ⟨hname, htake, hop⟩
    obtain ⟨hlt, hget⟩ := List.getElem?_eq_some_iff.mp hop
    exact ⟨hname.symm, ⟨by omega, htake⟩, hlt, by rw [List.getD_eq_getElem _ _ hlt, hget]⟩
  · rintro ⟨hname, ⟨-, htake⟩, hlt, hop⟩
    refine ⟨hname.symm, htake, ?_⟩
    rw [List.getElem?_eq_getElem hlt, ← hop, List.getD_eq_getElem _ _ hlt]

/-- One byte further. -/
theorem after_drop {aml : List UInt8} {i : Nat} (hi : i < aml.length) :
    after s5Definition (aml.drop i) =
      if s5Definition <+: aml.drop i then some (aml.drop (i + 1 + 4 + 1))
      else after s5Definition (aml.drop (i + 1)) := by
  rw [List.drop_eq_getElem_cons hi, after, ← List.drop_eq_getElem_cons hi, List.drop_drop]
  rfl

/-- What the scanner makes of what it found. -/
def s5Result : Option (List UInt8) → Except PowerError (Nat × Nat)
  | none => .error .missingS5Package
  | some body => s5Values body 0

/-- The values do not depend on what is before them. -/
theorem s5Values_drop {aml : List UInt8} {cursor : Nat} (h : cursor ≤ aml.length) :
    s5Values aml cursor = s5Values (aml.drop cursor) 0 := by
  have hend : ∀ n, cursor + n ≥ aml.length ↔ n ≥ aml.length - cursor := by
    intro n
    omega
  simp only [s5Values, List.drop_drop, List.length_drop, Nat.zero_add, Nat.add_zero, Nat.add_assoc,
    hend]

/-- **The scanner finds the first definition.** -/
theorem s5Loop_eq {aml : List UInt8} {rounds index : Nat} (h : aml.length < index + rounds) :
    s5Loop aml rounds index = s5Result (after s5Definition (aml.drop index)) := by
  induction rounds generalizing index with
  | zero =>
    rw [List.drop_eq_nil_of_le (by omega)]
    rfl
  | succ rounds ih =>
    rw [s5Loop]
    by_cases hroom : index + 6 ≤ aml.length
    · rw [if_pos hroom, after_drop (by omega)]
      by_cases hname : aml.getD index 0 = amlNameOp
      · rw [nameStart, if_pos hname]
        dsimp only
        by_cases hfound : s5Definition <+: aml.drop index
        · obtain ⟨-, hname, hop⟩ := (definition_prefix_iff (by omega)).mp hfound
          rw [if_pos hfound, if_neg hname, if_neg hop, s5Values_drop (by omega)]
          rfl
        · rw [if_neg hfound, ih (by omega)]
          rw [definition_prefix_iff (by omega)] at hfound
          split_ifs with hother hother'
          · rfl
          · rfl
          · exact absurd ⟨hname, hother, hother'⟩ hfound
      · have hnot : ¬ s5Definition <+: aml.drop index :=
          fun hfound => hname ((definition_prefix_iff (by omega)).mp hfound).1
        rw [if_neg hnot]
        by_cases hstart : index + 1 < aml.length ∧
          (aml.getD index 0 = amlRootPrefix ∨ aml.getD index 0 = amlParentPrefix) ∧
          aml.getD (index + 1) 0 = amlNameOp
        · -- the definition is at the next index, and found from this one
          rw [nameStart, if_neg hname, if_pos hstart]
          dsimp only
          by_cases hfound : s5Definition <+: aml.drop (index + 1)
          · obtain ⟨-, hname', hop⟩ := (definition_prefix_iff (by omega)).mp hfound
            rw [if_neg hname', if_neg hop, s5Values_drop (by omega), after_drop (by omega),
              if_pos hfound]
            rfl
          · rw [ih (by omega)]
            rw [definition_prefix_iff (by omega)] at hfound
            split_ifs with hother hother'
            · rfl
            · rfl
            · exact absurd ⟨hstart.2.2, hother, hother'⟩ hfound
        · rw [nameStart, if_neg hname, if_neg hstart, ih (by omega)]
    · rw [if_neg hroom, after_eq_none]
      · rfl
      · rw [List.length_drop]
        show _ < 6
        omega

/-- **The AML has a definition of `_S5_` without a prefix**, and the first one holds the values. -/
def DefinesS5 (aml : List UInt8) (x y : Nat) : Prop :=
  ∃ before body, aml = before ++ (s5Definition ++ body) ∧ ¬ s5Definition <:+: before ∧
    HoldsValues body x y

theorem nameOp_notMem : amlNameOp ∉ s5Name ++ [amlPackageOp] := by decide

theorem definesS5_iff {aml : List UInt8} {x y : Nat} :
    DefinesS5 aml x y ↔ ∃ body, after s5Definition aml = some body ∧ HoldsValues body x y := by
  simp only [DefinesS5, s5Definition, after_eq_some_iff nameOp_notMem]
  constructor
  · rintro ⟨before, body, haml, hbefore, hvalues⟩
    exact ⟨body, ⟨before, haml, hbefore⟩, hvalues⟩
  · rintro ⟨body, ⟨before, haml, hbefore⟩, hvalues⟩
    exact ⟨before, body, haml, hbefore, hvalues⟩

/-- **What `parse_s5_package` finds.** -/
theorem parseS5Package_eq_ok_iff {dsdt : List UInt8} {x y : Nat} :
    parseS5Package dsdt = .ok (x, y) ↔ parseSdtHeader dsdt dsdtSignature = .ok () ∧
      DefinesS5 (dsdt.drop sdtHeaderLength) x y := by
  rw [parseS5Package, definesS5_iff]
  cases parseSdtHeader dsdt dsdtSignature with
  | error e =>
    constructor
    · exact fun h => by cases h
    · exact fun h => by cases h.1
  | ok header =>
    show s5Loop _ _ 0 = _ ↔ _
    rw [s5Loop_eq (by omega), List.drop_zero]
    cases after s5Definition (dsdt.drop sdtHeaderLength) with
    | none =>
      constructor
      · exact fun h => by cases h
      · rintro ⟨-, body, hbody, -⟩
        cases hbody
    | some body =>
      rw [s5Result, s5Values_eq_ok_iff, List.drop_zero]
      constructor
      · exact fun h => ⟨rfl, body, rfl, h⟩
      · rintro ⟨-, _, hbody, h⟩
        cases hbody
        exact h

/-- Behind a `NameOp` and the root prefix the scanner takes the name for no definition. -/
theorem after_root (tail : List UInt8) :
    after s5Definition (amlNameOp :: amlRootPrefix :: (s5Name ++ amlPackageOp :: tail)) =
      after s5Definition tail := by
  have hnot : ¬ s5Definition <+:
      amlNameOp :: amlRootPrefix :: (s5Name ++ amlPackageOp :: tail) := by
    intro hstart
    have hnext := (List.cons_prefix_cons.mp hstart).2
    exact absurd (List.cons_prefix_cons.mp hnext).1 (by decide)
  rw [after_cons_of_not_start hnot]
  simp only [s5Definition, s5Name, List.cons_append, List.nil_append]
  rw [after_cons_of_ne (by decide), after_cons_of_ne (by decide), after_cons_of_ne (by decide),
    after_cons_of_ne (by decide), after_cons_of_ne (by decide), after_cons_of_ne (by decide)]

/-- **When `_S5_` is found.** For a DSDT that defines `_S5_`, with the root prefix or without, and
has the name nowhere before: the two values are returned if and only if there is no prefix, or the
bytes behind the definition happen to hold one without a prefix, the first of which has values
with the same low three bits. -/
theorem s5_found_iff {dsdt pre root pkg encA encB rest : List UInt8} {num : UInt8} {a b : Nat}
    (hheader : parseSdtHeader dsdt dsdtSignature = .ok ())
    (haml : dsdt.drop sdtHeaderLength = pre ++ amlNameOp :: (root ++ (s5Name ++ amlPackageOp ::
      (pkg ++ num :: (encA ++ (encB ++ rest))))))
    (hroot : root = [] ∨ root = [amlRootPrefix]) (hpre : ¬ s5Name <:+: pre)
    (hpkg : IsPackageLength pkg) (ha : IsInteger a encA) (hb : IsInteger b encB) :
    parseS5Package dsdt = .ok (a % 8, b % 8) ↔
      root = [] ∨ DefinesS5 (pkg ++ num :: (encA ++ (encB ++ rest))) (a % 8) (b % 8) := by
  have hdefinition : ¬ s5Definition <:+: pre :=
    fun hoccurs => hpre (List.IsInfix.trans ⟨[amlNameOp], [amlPackageOp], rfl⟩ hoccurs)
  rw [parseS5Package_eq_ok_iff, haml]
  obtain rfl | rfl := hroot
  · refine ⟨fun _ => .inl rfl, fun _ => ⟨hheader, pre, _, rfl, hdefinition, ?_⟩⟩
    exact ⟨pkg, num, encA, encB, rest, a, b, rfl, hpkg, ha, hb, rfl, rfl⟩
  · rw [definesS5_iff, s5Definition, after_append nameOp_notMem hdefinition, ← s5Definition,
      List.singleton_append, after_root, ← definesS5_iff]
    constructor
    · exact fun h => .inr h.2
    · rintro (hnil | h)
      · cases hnil
      · exact ⟨hheader, h⟩

/-- A DSDT of the given AML; `check` makes the sum of its bytes zero. -/
def dsdtOf (check : UInt8) (aml : List UInt8) : List UInt8 :=
  dsdtSignature ++ [UInt8.ofNat (sdtHeaderLength + aml.length), 0, 0, 0, 1, check] ++
    List.replicate 26 0 ++ aml

/-- A package of two elements, each the byte 5. -/
def fives : List UInt8 := [0x06, 0x02, amlBytePrefix, 0x05, amlBytePrefix, 0x05]

theorem isInteger_five : IsInteger 5 [amlBytePrefix, 0x05] := .byte 5

theorem isPackageLength_six : IsPackageLength [0x06] := ⟨0x06, [], rfl, rfl⟩

theorem not_infix_nil : ¬ s5Name <:+: [] := fun h => by cases List.infix_nil.mp h

theorem s5_found_at_fives :
    parseS5Package (dsdtOf 0x1a (amlNameOp :: (s5Name ++ amlPackageOp :: fives))) = .ok (5, 5) :=
  (s5_found_iff (by decide +kernel) rfl (.inl rfl) not_infix_nil isPackageLength_six
    isInteger_five isInteger_five).mpr (.inl rfl)

/-- **`\_S5_` is missed.** -/
theorem rooted_s5_missed :
    ¬ ∀ (dsdt pre root pkg encA encB rest : List UInt8) (num : UInt8) (a b : Nat),
      parseSdtHeader dsdt dsdtSignature = .ok () →
      dsdt.drop sdtHeaderLength = pre ++ amlNameOp :: (root ++ (s5Name ++ amlPackageOp ::
        (pkg ++ num :: (encA ++ (encB ++ rest))))) →
      root = [] ∨ root = [amlRootPrefix] → ¬ s5Name <:+: pre → IsPackageLength pkg →
      IsInteger a encA → IsInteger b encB → parseS5Package dsdt = .ok (a % 8, b % 8) := by
  intro hclaim
  have h := hclaim (dsdtOf 0xbd (amlNameOp :: amlRootPrefix :: (s5Name ++ amlPackageOp :: fives)))
    [] [amlRootPrefix] [0x06] [amlBytePrefix, 0x05] [amlBytePrefix, 0x05] [] 0x02 5 5
    (by decide +kernel) rfl (.inr rfl) not_infix_nil isPackageLength_six isInteger_five
    isInteger_five
  have hmissing : parseS5Package
      (dsdtOf 0xbd (amlNameOp :: amlRootPrefix :: (s5Name ++ amlPackageOp :: fives))) =
        .error .missingS5Package := by
    decide +kernel
  rw [hmissing] at h
  cases h

end Lazers.Power
