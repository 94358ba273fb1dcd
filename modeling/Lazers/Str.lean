import Mathlib.Tactic.Common

/-!
# Strings as byte slices

A `&str` is a `String`, and `as_bytes` its UTF-8 encoding. The source goes from
one to the other with `core::str::from_utf8`, which is the partial inverse.
-/

namespace Lazers

/-- The bytes of a `&str`. -/
def strBytes (s : String) : List UInt8 := s.toByteArray.data.toList

/-- `core::str::from_utf8(bytes).is_ok()`. -/
def isUtf8 (bytes : List UInt8) : Bool := ByteArray.validateUTF8 ⟨bytes.toArray⟩

/-- `core::str::from_utf8(bytes).ok()`. -/
def fromUtf8 (bytes : List UInt8) : Option String := String.fromUTF8? ⟨bytes.toArray⟩

theorem isUtf8_strBytes (s : String) : isUtf8 (strBytes s) = true := by
  rw [isUtf8, ByteArray.validateUTF8_eq_true_iff, strBytes, Array.toArray_toList]
  exact s.isValidUTF8

theorem strBytes_inj {s t : String} : strBytes s = strBytes t ↔ s = t := by
  constructor
  · intro h
    apply String.toByteArray_inj.mp
    apply ByteArray.ext
    rw [← Array.toList_inj]
    exact h
  · rintro rfl
    rfl

theorem strBytes_eq_nil {s : String} : strBytes s = [] ↔ s = "" := by
  rw [← strBytes_inj]
  rfl

@[simp] theorem fromUtf8_strBytes (s : String) : fromUtf8 (strBytes s) = some s := by
  have hvalid : (⟨(strBytes s).toArray⟩ : ByteArray) = s.toByteArray := by
    rw [strBytes, Array.toArray_toList]
  rw [fromUtf8, hvalid, String.fromUTF8?, dif_pos s.isValidUTF8]
  rfl

/-- `from_utf8` only succeeds on the bytes of its result. -/
theorem fromUtf8_eq_some {bytes : List UInt8} {s : String} :
    fromUtf8 bytes = some s ↔ strBytes s = bytes := by
  constructor
  · intro h
    rw [fromUtf8, String.fromUTF8?] at h
    split_ifs at h with hvalid
    cases h
    rfl
  · rintro rfl
    exact fromUtf8_strBytes s

theorem isUtf8_eq_true {bytes : List UInt8} :
    isUtf8 bytes = true ↔ ∃ s, strBytes s = bytes := by
  constructor
  · intro h
    rw [isUtf8, ByteArray.validateUTF8_eq_true_iff] at h
    exact ⟨⟨_, h⟩, rfl⟩
  · rintro ⟨s, rfl⟩
    exact isUtf8_strBytes s

/-! ## Characters and bytes -/

theorem strBytes_eq_flatMap (s : String) :
    strBytes s = s.toList.flatMap String.utf8EncodeChar := by
  conv => lhs; rw [← String.ofList_toList (s := s)]
  rw [strBytes, String.toByteArray_ofList, List.utf8Encode]
  simp

theorem strBytes_append (s t : String) : strBytes (s ++ t) = strBytes s ++ strBytes t := by
  rw [strBytes_eq_flatMap, strBytes_eq_flatMap, strBytes_eq_flatMap, String.toList_append,
    List.flatMap_append]

/-- The byte of an ASCII character. -/
def asciiByte (c : Char) : UInt8 := UInt8.ofNat c.val.toNat

theorem utf8EncodeChar_of_ascii {c : Char} (h : c.val.toNat < 128) :
    String.utf8EncodeChar c = [asciiByte c] := by
  rw [String.utf8EncodeChar]
  exact if_pos (by omega)

/-- ASCII bytes are text. -/
theorem exists_text_of_ascii {bytes : List UInt8} (h : ∀ b ∈ bytes, b.toNat < 128) :
    ∃ s, strBytes s = bytes := by
  have hchar : ∀ b : UInt8, b.toNat < 128 →
      String.utf8EncodeChar (Char.ofNat b.toNat) = [b] := by
    intro b hb
    have hval : (Char.ofNat b.toNat).val.toNat = b.toNat := by
      rw [Char.ofNat, dif_pos (.inl (by omega))]
      rfl
    rw [utf8EncodeChar_of_ascii (by rwa [hval]), asciiByte, hval, UInt8.ofNat_toNat]
  refine ⟨String.ofList (bytes.map fun b => Char.ofNat b.toNat), ?_⟩
  rw [strBytes_eq_flatMap, String.toList_ofList]
  induction bytes with
  | nil => rfl
  | cons b rest ih =>
    rw [List.map_cons, List.flatMap_cons, hchar b (h b List.mem_cons_self),
      ih fun x hx => h x (List.mem_cons_of_mem _ hx)]
    rfl

/-- An ASCII byte is in no other character's encoding. -/
theorem ascii_mem_utf8EncodeChar {a c : Char} (ha : a.val.toNat < 128)
    (h : asciiByte a ∈ String.utf8EncodeChar c) : c = a := by
  rw [String.utf8EncodeChar, asciiByte] at h
  split_ifs at h with h1 h2 h3
  -- Every byte of a longer encoding has its top bit set.
  all_goals simp only [List.mem_cons, List.not_mem_nil, or_false, ← UInt8.toNat_inj,
    UInt8.toNat_ofNat'] at h
  · have hval : c.val.toNat = a.val.toNat := by omega
    exact Char.ext (UInt32.toNat_inj.mp hval)
  all_goals omega

/-- `s.starts_with(c)`. -/
def startsWith (s : String) (c : Char) : Bool := s.toList.head? = some c

/-- For an ASCII character that is a test of the first byte. -/
theorem startsWith_iff {s : String} {a : Char} (ha : a.val.toNat < 128) :
    startsWith s a = true ↔ (strBytes s).head? = some (asciiByte a) := by
  rw [startsWith, decide_eq_true_iff, strBytes_eq_flatMap]
  cases s.toList with
  | nil => simp
  | cons c l =>
    rw [List.head?_cons, Option.some.injEq, List.flatMap_cons]
    constructor
    · rintro rfl
      rw [utf8EncodeChar_of_ascii ha]
      rfl
    · intro h
      cases henc : String.utf8EncodeChar c with
      | nil => exact absurd henc String.utf8EncodeChar_ne_nil
      | cons b bs =>
        rw [henc, List.cons_append, List.head?_cons, Option.some.injEq] at h
        exact ascii_mem_utf8EncodeChar ha (by rw [henc, h]; exact List.mem_cons_self)

/-- `s.split(sep)`. -/
def split (s : String) (sep : Char) : List String := (s.toList.splitOn sep).map String.ofList

theorem splitOn_append_of_notMem {α : Type*} [BEq α] [LawfulBEq α] {a : α} {xs : List α}
    (h : a ∉ xs) (ys : List α) :
    (xs ++ ys).splitOn a = (ys.splitOn a).modifyHead (xs ++ ·) := by
  induction xs with
  | nil => cases hs : ys.splitOn a <;> simp [hs]
  | cons x xs ih =>
    rw [List.mem_cons, not_or] at h
    obtain ⟨hx, hxs⟩ := h
    rw [List.cons_append, List.splitOn_cons_eq_if_modifyHead, if_neg (by simpa using Ne.symm hx),
      ih hxs, List.modifyHead_modifyHead]
    rfl

/-- Splitting at an ASCII character is splitting the bytes. -/
theorem map_strBytes_split (s : String) {sep : Char} (hsep : sep.val.toNat < 128) :
    (split s sep).map strBytes = (strBytes s).splitOn (asciiByte sep) := by
  have hbytes : ∀ l : List Char, (l.splitOn sep).map (·.flatMap String.utf8EncodeChar) =
      (l.flatMap String.utf8EncodeChar).splitOn (asciiByte sep) := by
    intro l
    induction l with
    | nil => rfl
    | cons c l ih =>
      rw [List.splitOn_cons_eq_if_modifyHead, List.flatMap_cons]
      by_cases hc : c = sep
      · subst hc
        rw [if_pos (by simp), utf8EncodeChar_of_ascii hsep, List.singleton_append,
          List.splitOn_cons_eq_if_modifyHead, if_pos (by simp), List.map_cons, ih]
        rfl
      · have hnot : asciiByte sep ∉ String.utf8EncodeChar c :=
          fun hmem => hc (ascii_mem_utf8EncodeChar hsep hmem)
        rw [if_neg (by simpa using hc), splitOn_append_of_notMem hnot, ← ih]
        cases l.splitOn sep with
        | nil => rfl
        | cons x xs => rfl
  rw [split, List.map_map, strBytes_eq_flatMap, ← hbytes]
  refine List.map_congr_left fun l _ => ?_
  rw [Function.comp, strBytes_eq_flatMap, String.toList_ofList]

end Lazers
