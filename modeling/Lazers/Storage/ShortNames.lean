import Lazers.Storage.Fat32

/-!
# The short-name codec

A component of a path is a name of one to eight bytes and an extension of at most three. On disk
the two are fields padded with spaces (`paddedName`), in a path and in a listing they are joined
by a dot (`dottedName`). `make_short_name` goes from the one to the other and upper-cases on the
way, `display_short_name` goes back.

`short_name_codec`: each undoes the other, up to the case of letters.
-/

namespace Lazers.Storage

open FixedArray

/-! ## Bytes of a name -/

/-- The bytes that `normalize_fat_byte` lets through. -/
def isNameByte (byte : UInt8) : Bool :=
  isAsciiAlphanumeric byte ∨
    byte ∈ [36, 37, 39, 45, 95, 64, 126, 96, 33, 40, 41, 123, 125, 94, 35, 38]

/-- The allowed bytes that stay as they are. -/
def isUpperNameByte (byte : UInt8) : Bool := isNameByte byte ∧ toAsciiUppercase byte = byte

/-- What holds of all 256 bytes. -/
theorem forall_byte {p : UInt8 → Prop} (h : ∀ b : Fin 256, p ⟨⟨b⟩⟩) (byte : UInt8) : p byte :=
  h byte.toBitVec.toFin

theorem normalizeFatByte_eq (byte : UInt8) :
    normalizeFatByte byte =
      if isNameByte byte then .ok (toAsciiUppercase byte) else .error .invalidShortName := by
  have hsymbols : isNameByte byte = true → isAsciiAlphanumeric byte = false →
      toAsciiUppercase byte = byte := by
    refine forall_byte (p := fun b => isNameByte b = true → isAsciiAlphanumeric b = false →
      toAsciiUppercase b = b) ?_ byte
    decide +kernel
  rw [normalizeFatByte]
  by_cases hname : isNameByte byte = true
  · rw [if_pos hname]
    by_cases halnum : isAsciiAlphanumeric byte = true
    · rw [if_pos halnum]
    · rw [if_neg halnum, if_pos, hsymbols hname (by simpa using halnum)]
      exact (of_decide_eq_true hname).resolve_left halnum
  · rw [if_neg hname]
    have hnot : ¬ (isAsciiAlphanumeric byte = true ∨
        byte ∈ [36, 37, 39, 45, 95, 64, 126, 96, 33, 40, 41, 123, 125, 94, 35, 38]) :=
      fun h => hname (decide_eq_true h)
    rw [not_or] at hnot
    rw [if_neg hnot.1, if_neg hnot.2]

/-- An upper-cased name byte is an allowed one. -/
theorem isUpperNameByte_toAsciiUppercase {byte : UInt8} (h : isNameByte byte = true) :
    isUpperNameByte (toAsciiUppercase byte) = true := by
  revert h
  refine forall_byte (p := fun b => isNameByte b = true →
    isUpperNameByte (toAsciiUppercase b) = true) ?_ byte
  decide +kernel

theorem isNameByte_of_toAsciiUppercase {byte : UInt8}
    (h : isNameByte (toAsciiUppercase byte) = true) : isNameByte byte = true := by
  revert h
  refine forall_byte (p := fun b => isNameByte (toAsciiUppercase b) = true →
    isNameByte b = true) ?_ byte
  decide +kernel

/-- A name byte is ASCII, and neither a space nor a dot. -/
theorem isNameByte_ne {byte : UInt8} (h : isNameByte byte = true) :
    byte ≠ 32 ∧ byte ≠ 46 ∧ byte.toNat < 128 := by
  revert h
  refine forall_byte (p := fun b => isNameByte b = true → b ≠ 32 ∧ b ≠ 46 ∧ b.toNat < 128) ?_ byte
  decide +kernel

/-- Upper-casing makes no dot. -/
theorem toAsciiUppercase_eq_dot (byte : UInt8) : toAsciiUppercase byte = 46 ↔ byte = 46 := by
  refine forall_byte (p := fun b => toAsciiUppercase b = 46 ↔ b = 46) ?_ byte
  decide +kernel

theorem mapM_normalizeFatByte (bytes : List UInt8) :
    bytes.mapM normalizeFatByte =
      if bytes.all isNameByte then .ok (bytes.map toAsciiUppercase)
      else .error .invalidShortName := by
  induction bytes with
  | nil => rfl
  | cons b rest ih =>
    rw [List.mapM_cons, normalizeFatByte_eq, ih, List.all_cons]
    by_cases hb : isNameByte b = true
    · rw [if_pos hb, hb, Bool.true_and]
      by_cases hrest : rest.all isNameByte = true
      · rw [if_pos hrest, if_pos hrest]
        rfl
      · rw [if_neg hrest, if_neg hrest]
        rfl
    · rw [if_neg hb, if_neg fun h => hb (Bool.and_eq_true_iff.mp h).1]
      rfl

/-! ## The two forms -/

/-- The parts in their fields of eight and of three bytes. -/
def paddedName (name ext : List UInt8) : List UInt8 :=
  name ++ List.replicate (8 - name.length) 32 ++ (ext ++ List.replicate (3 - ext.length) 32)

/-- The parts with a dot between them, if there is an extension. -/
def dottedName (name ext : List UInt8) : List UInt8 := name ++ if ext ≠ [] then 46 :: ext else []

/-- **The parts of a short name**: one to eight and at most three bytes that `p` allows. -/
structure Parts (p : UInt8 → Bool) (name ext : List UInt8) : Prop where
  name_ne : name ≠ []
  name_le : name.length ≤ 8
  ext_le : ext.length ≤ 3
  allowed : ∀ b ∈ name ++ ext, p b = true

namespace Parts

variable {p q : UInt8 → Bool} {name ext name' ext' : List UInt8}

theorem mono (h : Parts p name ext) (hpq : ∀ b, p b = true → q b = true) : Parts q name ext :=
  ⟨h.name_ne, h.name_le, h.ext_le, fun b hb => hpq b (h.allowed b hb)⟩

theorem upper (h : Parts isNameByte name ext) :
    Parts isUpperNameByte (name.map toAsciiUppercase) (ext.map toAsciiUppercase) := by
  refine ⟨fun hnil => h.name_ne (List.map_eq_nil_iff.mp hnil), ?_, ?_, fun b hb => ?_⟩
  · rw [List.length_map]
    exact h.name_le
  · rw [List.length_map]
    exact h.ext_le
  · rw [← List.map_append] at hb
    obtain ⟨x, hx, rfl⟩ := List.mem_map.mp hb
    exact isUpperNameByte_toAsciiUppercase (h.allowed x hx)

theorem of_upper (h : Parts isUpperNameByte name ext) : Parts isNameByte name ext :=
  h.mono fun _ hb => (of_decide_eq_true hb).1

/-- Upper-case parts stay as they are. -/
theorem map_upper (h : Parts isUpperNameByte name ext) :
    name.map toAsciiUppercase = name ∧ ext.map toAsciiUppercase = ext := by
  have hfixed : ∀ bytes : List UInt8, (∀ b ∈ bytes, b ∈ name ++ ext) →
      bytes.map toAsciiUppercase = bytes := by
    intro bytes hsub
    rw [List.map_congr_left (g := id) fun b hb =>
      (of_decide_eq_true (h.allowed b (hsub b hb))).2, List.map_id]
  exact ⟨hfixed name fun b hb => List.mem_append_left _ hb,
    hfixed ext fun b hb => List.mem_append_right _ hb⟩

theorem dot_notMem (h : Parts isNameByte name ext) : 46 ∉ name ∧ 46 ∉ ext :=
  ⟨fun hdot => (isNameByte_ne (h.allowed _ (List.mem_append_left _ hdot))).2.1 rfl,
    fun hdot => (isNameByte_ne (h.allowed _ (List.mem_append_right _ hdot))).2.1 rfl⟩

end Parts

theorem map_dottedName (f : UInt8 → UInt8) (hf : f 46 = 46) (name ext : List UInt8) :
    (dottedName name ext).map f = dottedName (name.map f) (ext.map f) := by
  rw [dottedName, dottedName]
  by_cases hext : ext = []
  · simp [hext]
  · simp [hext, hf]

/-- Trailing spaces are dropped up to the last byte that is none. -/
theorem trimmedLen_padded {part : List UInt8} (hpart : ∀ b ∈ part, b ≠ 32) (spaces : Nat)
    (after : List UInt8) :
    trimmedLen (part ++ List.replicate spaces 32 ++ after) (part.length + spaces) =
      part.length := by
  induction spaces generalizing after with
  | zero =>
    cases hlen : part.length with
    | zero => rfl
    | succ len =>
      have hlt : len < part.length := by omega
      have hlast : (part ++ List.replicate 0 32 ++ after).getD len 0 = part[len] := by
        rw [List.replicate_zero, List.append_nil, List.getD_append _ _ _ _ hlt,
          List.getD_eq_getElem _ _ hlt]
      rw [Nat.add_zero, trimmedLen, hlast, if_neg (hpart _ (List.getElem_mem hlt))]
  | succ spaces ih =>
    -- the last space goes over to what comes after
    have hfield : part ++ List.replicate (spaces + 1) 32 ++ after =
        part ++ List.replicate spaces 32 ++ (32 :: after) := by
      simp [List.replicate_succ']
    have hlast : (part ++ List.replicate spaces 32 ++ (32 :: after)).getD
        (part.length + spaces) 0 = 32 := by
      rw [List.getD_append_right _ _ _ _ (by simp)]
      simp
    rw [hfield, ← Nat.add_assoc, trimmedLen, if_pos hlast, ih]

/-- On a padded name the display form is the dotted one. -/
theorem displayShortName_paddedName {name ext : List UInt8} (hname : name.length ≤ 8)
    (hext : ext.length ≤ 3) (hspace : ∀ b ∈ name ++ ext, b ≠ 32) :
    displayShortName (paddedName name ext) = dottedName name ext := by
  have hpadded : (name ++ List.replicate (8 - name.length) 32).length = 8 := by
    rw [List.length_append, List.length_replicate]
    omega
  have hdrop : (paddedName name ext).drop 8 = ext ++ List.replicate (3 - ext.length) 32 :=
    List.drop_left' hpadded
  have hnameLen : trimmedLen (paddedName name ext) 8 = name.length := by
    have h := trimmedLen_padded (fun b hb => hspace b (List.mem_append_left _ hb))
      (8 - name.length) (ext ++ List.replicate (3 - ext.length) 32)
    rwa [Nat.add_sub_cancel' hname] at h
  have hextLen : trimmedLen ((paddedName name ext).drop 8) 3 = ext.length := by
    have h := trimmedLen_padded (fun b hb => hspace b (List.mem_append_right _ hb))
      (3 - ext.length) []
    rw [List.append_nil, Nat.add_sub_cancel' hext] at h
    rw [hdrop, h]
  rw [displayShortName, hnameLen, hextLen, hdrop, dottedName, List.take_left]
  simp only [paddedName, List.append_assoc, List.take_left, ne_eq, List.length_eq_zero_iff]

/-- What is dropped are spaces. -/
theorem take_trimmedLen (field : List UInt8) {len : Nat} (h : len ≤ field.length) :
    trimmedLen field len ≤ len ∧
      field.take len = field.take (trimmedLen field len) ++
        List.replicate (len - trimmedLen field len) 32 := by
  induction len with
  | zero => exact ⟨Nat.le_refl _, rfl⟩
  | succ len ih =>
    rw [trimmedLen]
    by_cases hlast : field.getD len 0 = 32
    · obtain ⟨hle, htake⟩ := ih (by omega)
      rw [if_pos hlast]
      refine ⟨by omega, ?_⟩
      have hget : field[len] = 32 := by rwa [List.getD_eq_getElem _ _ h] at hlast
      rw [List.take_add_one, List.getElem?_eq_getElem h, hget, htake, List.append_assoc,
        Nat.sub_add_comm hle, List.replicate_succ']
      rfl
    · rw [if_neg hlast]
      exact ⟨Nat.le_refl _, by simp⟩

/-- Every entry is the padding of two parts, and what is displayed are these. -/
theorem exists_parts {entry : List UInt8} (h : entry.length = 11) :
    ∃ name ext, name.length ≤ 8 ∧ ext.length ≤ 3 ∧ entry = paddedName name ext ∧
      displayShortName entry = dottedName name ext := by
  have hdrop : (entry.drop 8).length = 3 := by
    rw [List.length_drop, h]
  obtain ⟨hname, htakeName⟩ := take_trimmedLen entry (show 8 ≤ _ by omega)
  obtain ⟨hext, htakeExt⟩ := take_trimmedLen (entry.drop 8) hdrop.ge
  have hnameLen : (entry.take (trimmedLen entry 8)).length = trimmedLen entry 8 := by
    rw [List.length_take]
    omega
  have hextLen : ((entry.drop 8).take (trimmedLen (entry.drop 8) 3)).length =
      trimmedLen (entry.drop 8) 3 := by
    rw [List.length_take]
    omega
  refine ⟨_, _, hnameLen.trans_le hname, hextLen.trans_le hext, ?_, ?_⟩
  · rw [paddedName, hnameLen, hextLen, ← htakeName, ← htakeExt, List.take_of_length_le hdrop.le,
      List.take_append_drop]
  · rw [displayShortName, dottedName]
    simp only [ne_eq, ← List.length_eq_zero_iff, hextLen]

/-- The dot separates the parts. -/
theorem splitOn_dottedName {name ext : List UInt8} (hname : 46 ∉ name) (hext : 46 ∉ ext) :
    (dottedName name ext).splitOn 46 = if ext = [] then [name] else [name, ext] := by
  rw [dottedName]
  by_cases hnil : ext = []
  · rw [if_neg (not_not_intro hnil), if_pos hnil, List.append_nil,
      List.splitOn_eq_singleton hname]
  · rw [if_pos hnil, if_neg hnil, List.splitOn_append_cons_self_of_not_mem hname,
      List.splitOn_eq_singleton hext]

/-- **Entries without a dot are told apart by what is displayed.** -/
theorem displayShortName_inj {entry entry' : List UInt8} (hlen : entry.length = 11)
    (hlen' : entry'.length = 11) (hdot : 46 ∉ entry) (hdot' : 46 ∉ entry')
    (h : displayShortName entry = displayShortName entry') : entry = entry' := by
  obtain ⟨name, ext, _, _, rfl, hdisplay⟩ := exists_parts hlen
  obtain ⟨name', ext', _, _, rfl, hdisplay'⟩ := exists_parts hlen'
  simp only [paddedName, List.mem_append, not_or] at hdot hdot'
  have hsplit := congrArg (List.splitOn 46) ((hdisplay.symm.trans h).trans hdisplay')
  rw [splitOn_dottedName hdot.1.1 hdot.2.1, splitOn_dottedName hdot'.1.1 hdot'.2.1] at hsplit
  by_cases hext : ext = [] <;> by_cases hext' : ext' = []
  · rw [if_pos hext, if_pos hext', List.cons.injEq] at hsplit
    rw [hsplit.1, hext, hext']
  · rw [if_pos hext, if_neg hext'] at hsplit
    cases hsplit
  · rw [if_neg hext, if_pos hext'] at hsplit
    cases hsplit
  · rw [if_neg hext, if_neg hext'] at hsplit
    cases hsplit
    rfl

/-! ## Parsing -/

theorem bind_normalized_eq_ok {α : Type} {bytes : List UInt8}
    {f : List UInt8 → Except StorageError α} {e : α} :
    (bytes.mapM normalizeFatByte >>= f) = .ok e ↔
      (∀ b ∈ bytes, isNameByte b = true) ∧ f (bytes.map toAsciiUppercase) = .ok e := by
  rw [mapM_normalizeFatByte, ← List.all_eq_true]
  by_cases hname : bytes.all isNameByte = true
  · rw [if_pos hname]
    exact ⟨fun h => ⟨hname, h⟩, fun h => h.2⟩
  · rw [if_neg hname]
    exact ⟨fun h => (by cases h), fun h => absurd h.1 hname⟩

/-- The fields are filled from the left. -/
theorem toList_writeAt_name {name : List UInt8} (hname : name.length ≤ 8) :
    (writeAt (Vector.replicate 11 32) 0 name).toList = paddedName name [] := by
  rw [toList_writeAt _ _ (by omega), Vector.toList_replicate, List.take_zero, List.nil_append,
    List.drop_replicate, paddedName, List.nil_append, List.append_assoc,
    List.replicate_append_replicate]
  congr 2
  rw [List.length_nil]
  omega

theorem toList_writeAt_ext {name ext : List UInt8} (hname : name.length ≤ 8)
    (hext : ext.length ≤ 3) :
    (writeAt (writeAt (Vector.replicate 11 32) 0 name) 8 ext).toList = paddedName name ext := by
  have hpadded : (name ++ List.replicate (8 - name.length) 32).length = 8 := by
    rw [List.length_append, List.length_replicate]
    omega
  rw [toList_writeAt _ _ (by omega), toList_writeAt_name hname, paddedName, List.nil_append,
    List.take_left' hpadded, ← List.drop_drop, List.drop_left' hpadded, List.drop_replicate,
    paddedName]
  rfl

/-- A name without a dot. -/
theorem makeShortName_of_one {c s : String} (h : split c '.' = [s]) {e : Vector UInt8 11} :
    makeShortName c = .ok e ↔ Parts isNameByte (strBytes s) [] ∧
      e.toList = paddedName ((strBytes s).map toAsciiUppercase) [] := by
  rw [makeShortName, h]
  show (if 2 ≤ ([] : List String).length ∨ s = "" ∨ (strBytes s).length > 8 then
      Except.error StorageError.invalidShortName
    else (strBytes s).mapM normalizeFatByte >>= fun name =>
      .ok (writeAt (Vector.replicate 11 32) 0 name)) = .ok e ↔ _
  by_cases hbad : 2 ≤ ([] : List String).length ∨ s = "" ∨ (strBytes s).length > 8
  · rw [if_pos hbad]
    refine ⟨fun h => (by cases h), fun ⟨hparts, _⟩ => ?_⟩
    rcases hbad with hlen | rfl | hlen
    · exact absurd hlen (by simp)
    · exact absurd rfl hparts.name_ne
    · exact absurd hparts.name_le (by omega)
  · rw [if_neg hbad, bind_normalized_eq_ok, Except.ok.injEq, ← Vector.toList_inj]
    simp only [not_or, Nat.not_lt, ← ne_eq] at hbad
    rw [toList_writeAt_name (by rw [List.length_map]; exact hbad.2.2)]
    constructor
    · rintro ⟨hname, he⟩
      exact ⟨⟨by rw [ne_eq, strBytes_eq_nil]; exact hbad.2.1, hbad.2.2, Nat.zero_le _,
        by rwa [List.append_nil]⟩, he.symm⟩
    · rintro ⟨hparts, he⟩
      exact ⟨fun b hb => hparts.allowed b (List.mem_append_left _ hb), he.symm⟩

/-- A name with one dot. -/
theorem makeShortName_of_two {c s t : String} (h : split c '.' = [s, t]) {e : Vector UInt8 11} :
    makeShortName c = .ok e ↔ Parts isNameByte (strBytes s) (strBytes t) ∧ strBytes t ≠ [] ∧
      e.toList = paddedName ((strBytes s).map toAsciiUppercase)
        ((strBytes t).map toAsciiUppercase) := by
  rw [makeShortName, h]
  show (if 2 ≤ [t].length ∨ s = "" ∨ (strBytes s).length > 8 then
      Except.error StorageError.invalidShortName
    else (strBytes s).mapM normalizeFatByte >>= fun name =>
      if t = "" ∨ (strBytes t).length > 3 then .error .invalidShortName
      else (strBytes t).mapM normalizeFatByte >>= fun ext =>
        .ok (writeAt (writeAt (Vector.replicate 11 32) 0 name) 8 ext)) = .ok e ↔ _
  by_cases hbad : 2 ≤ [t].length ∨ s = "" ∨ (strBytes s).length > 8
  · rw [if_pos hbad]
    refine ⟨fun h => (by cases h), fun ⟨hparts, _⟩ => ?_⟩
    rcases hbad with hlen | rfl | hlen
    · exact absurd hlen (by simp)
    · exact absurd rfl hparts.name_ne
    · exact absurd hparts.name_le (by omega)
  rw [if_neg hbad, bind_normalized_eq_ok]
  simp only [not_or, Nat.not_lt, ← ne_eq] at hbad
  by_cases hext : t = "" ∨ (strBytes t).length > 3
  · rw [if_pos hext]
    refine ⟨fun h => (by cases h.2), fun ⟨hparts, hne, _⟩ => ?_⟩
    rcases hext with rfl | hlen
    · exact absurd rfl hne
    · exact absurd hparts.ext_le (by omega)
  · rw [if_neg hext, bind_normalized_eq_ok, Except.ok.injEq, ← Vector.toList_inj]
    simp only [not_or, Nat.not_lt, ← ne_eq] at hext
    rw [toList_writeAt_ext (by rw [List.length_map]; exact hbad.2.2)
      (by rw [List.length_map]; exact hext.2)]
    constructor
    · rintro ⟨hname, hextBytes, he⟩
      exact ⟨⟨by rw [ne_eq, strBytes_eq_nil]; exact hbad.2.1, hbad.2.2, hext.2,
        fun b hb => (List.mem_append.mp hb).elim (hname b) (hextBytes b)⟩,
        by rw [ne_eq, strBytes_eq_nil]; exact hext.1, he.symm⟩
    · rintro ⟨hparts, _, he⟩
      exact ⟨fun b hb => hparts.allowed b (List.mem_append_left _ hb),
        fun b hb => hparts.allowed b (List.mem_append_right _ hb), he.symm⟩

/-- **What `make_short_name` accepts, and what it makes of it.** -/
theorem makeShortName_iff {c : String} {e : Vector UInt8 11} :
    makeShortName c = .ok e ↔ ∃ name ext, Parts isNameByte name ext ∧
      strBytes c = dottedName name ext ∧
      e.toList = paddedName (name.map toAsciiUppercase) (ext.map toAsciiUppercase) := by
  have hpieces : (split c '.').map strBytes = (strBytes c).splitOn 46 :=
    map_strBytes_split c (by decide)
  constructor
  · intro h
    have hjoin : [46].intercalate ((strBytes c).splitOn 46) = strBytes c :=
      List.intercalate_splitOn 46
    rw [← hpieces] at hjoin
    rcases hsplit : split c '.' with _ | ⟨s, _ | ⟨t, _ | ⟨u, rest⟩⟩⟩
    · rw [makeShortName, hsplit] at h
      cases h
    · obtain ⟨hparts, he⟩ := (makeShortName_of_one hsplit).mp h
      refine ⟨strBytes s, [], hparts, ?_, he⟩
      rw [← hjoin, hsplit]
      simp [dottedName]
    · obtain ⟨hparts, hne, he⟩ := (makeShortName_of_two hsplit).mp h
      refine ⟨strBytes s, strBytes t, hparts, ?_, he⟩
      rw [← hjoin, hsplit, dottedName, if_pos hne]
      simp [List.intercalate]
    · -- a second dot
      rw [makeShortName, hsplit] at h
      simp [throw, throwThe, MonadExceptOf.throw] at h
  · rintro ⟨name, ext, hparts, hc, he⟩
    rw [hc, splitOn_dottedName hparts.dot_notMem.1 hparts.dot_notMem.2] at hpieces
    by_cases hext : ext = []
    · subst hext
      rw [if_pos rfl] at hpieces
      obtain ⟨s, hsplit, rfl⟩ := List.map_eq_singleton_iff.mp hpieces
      exact (makeShortName_of_one hsplit).mpr ⟨hparts, he⟩
    · rw [if_neg hext] at hpieces
      obtain ⟨s, pieces, hsplit, rfl, hrest⟩ := List.map_eq_cons_iff.mp hpieces
      obtain ⟨t, rfl, rfl⟩ := List.map_eq_singleton_iff.mp hrest
      exact (makeShortName_of_two hsplit).mpr ⟨hparts, hext, he⟩

/-! ## The round trips -/

namespace Parts

variable {name ext : List UInt8}

theorem space_notMem (h : Parts isNameByte name ext) : ∀ b ∈ name ++ ext, b ≠ 32 :=
  fun b hb => (isNameByte_ne (h.allowed b hb)).1

/-- The parts of a name are displayed as they are. -/
theorem displayShortName_eq (h : Parts isNameByte name ext) :
    displayShortName (paddedName name ext) = dottedName name ext :=
  displayShortName_paddedName h.name_le h.ext_le h.space_notMem

/-- Case does not decide what is allowed. -/
theorem of_map (h : Parts isNameByte (name.map toAsciiUppercase) (ext.map toAsciiUppercase)) :
    Parts isNameByte name ext := by
  refine ⟨fun hnil => h.name_ne (by rw [hnil]; rfl), ?_, ?_, fun b hb => ?_⟩
  · rw [← List.length_map toAsciiUppercase]
    exact h.name_le
  · rw [← List.length_map toAsciiUppercase]
    exact h.ext_le
  · refine isNameByte_of_toAsciiUppercase (h.allowed _ ?_)
    rw [← List.map_append]
    exact List.mem_map_of_mem hb

theorem dot_notMem_paddedName (h : Parts isNameByte name ext) : 46 ∉ paddedName name ext := by
  simp only [paddedName, List.mem_append, List.mem_replicate, not_or]
  exact ⟨⟨h.dot_notMem.1, by simp⟩, h.dot_notMem.2, by simp⟩

end Parts

/-- A dotted name in upper case is that of a dotted name. -/
theorem exists_dottedName_of_map {bytes name ext : List UInt8}
    (h : bytes.map toAsciiUppercase = dottedName name ext) :
    ∃ name' ext', bytes = dottedName name' ext' ∧ name'.map toAsciiUppercase = name ∧
      ext'.map toAsciiUppercase = ext := by
  rw [dottedName] at h
  by_cases hext : ext = []
  · rw [if_neg (not_not_intro hext), List.append_nil] at h
    exact ⟨bytes, [], by simp [dottedName], h, hext.symm⟩
  · rw [if_pos hext] at h
    obtain ⟨name', rest, rfl, hname, hrest⟩ := List.map_eq_append_iff.mp h
    obtain ⟨dot, ext', rfl, hdot, hext'⟩ := List.map_eq_cons_iff.mp hrest
    rw [toAsciiUppercase_eq_dot] at hdot
    subst hdot
    have hne : ext' ≠ [] := fun hnil => hext (by rw [← hext', hnil]; rfl)
    exact ⟨name', ext', by rw [dottedName, if_pos hne], hname, hext'⟩

/-- `display_short_name` after `make_short_name`. -/
theorem display_makeShortName {c : String} {e : Vector UInt8 11} (h : makeShortName c = .ok e) :
    displayShortName e.toList = (strBytes c).map toAsciiUppercase := by
  obtain ⟨name, ext, hparts, hc, he⟩ := makeShortName_iff.mp h
  rw [he, hparts.upper.of_upper.displayShortName_eq, hc, map_dottedName _ (by decide)]

/-- What `make_short_name` returns has no dot in it. -/
theorem dot_notMem_of_makeShortName {c : String} {e : Vector UInt8 11}
    (h : makeShortName c = .ok e) : 46 ∉ e.toList := by
  obtain ⟨name, ext, hparts, _, he⟩ := makeShortName_iff.mp h
  rw [he]
  exact hparts.upper.of_upper.dot_notMem_paddedName

/-- `make_short_name` after `display_short_name`. -/
theorem makeShortName_display {name ext : List UInt8} (hparts : Parts isUpperNameByte name ext)
    {e : Vector UInt8 11} (he : e.toList = paddedName name ext) :
    (∃ c, strBytes c = displayShortName e.toList) ∧
      ∀ c, strBytes c = displayShortName e.toList → makeShortName c = .ok e := by
  have hdisplay : displayShortName e.toList = dottedName name ext := by
    rw [he, hparts.of_upper.displayShortName_eq]
  rw [hdisplay]
  constructor
  · refine exists_text_of_ascii fun b hb => ?_
    simp only [dottedName, List.mem_append, List.mem_ite_nil_right, List.mem_cons] at hb
    rcases hb with hb | ⟨_, rfl | hb⟩
    · exact (isNameByte_ne (hparts.of_upper.allowed b (List.mem_append_left _ hb))).2.2
    · decide
    · exact (isNameByte_ne (hparts.of_upper.allowed b (List.mem_append_right _ hb))).2.2
  · intro c hc
    refine makeShortName_iff.mpr ⟨name, ext, hparts.of_upper, hc, ?_⟩
    rw [hparts.map_upper.1, hparts.map_upper.2, he]

/-- Two components have one short name if they differ in the case of letters only. -/
theorem makeShortName_eq_iff {c c' : String} {e e' : Vector UInt8 11} (h : makeShortName c = .ok e)
    (h' : makeShortName c' = .ok e') :
    e = e' ↔ (strBytes c).map toAsciiUppercase = (strBytes c').map toAsciiUppercase := by
  rw [← display_makeShortName h, ← display_makeShortName h', ← Vector.toList_inj]
  exact ⟨congrArg _, displayShortName_inj e.length_toList e'.length_toList
    (dot_notMem_of_makeShortName h) (dot_notMem_of_makeShortName h')⟩

/-- What `make_short_name` makes of a component does not depend on the case of its letters. -/
theorem makeShortName_of_case {c c' : String} {e : Vector UInt8 11} (h : makeShortName c = .ok e)
    (hcase : (strBytes c').map toAsciiUppercase = (strBytes c).map toAsciiUppercase) :
    makeShortName c' = .ok e := by
  obtain ⟨name, ext, hparts, hc, he⟩ := makeShortName_iff.mp h
  have hupper := hparts.upper.of_upper
  rw [hc, map_dottedName _ (by decide)] at hcase
  obtain ⟨name', ext', hc', hname, hext⟩ := exists_dottedName_of_map hcase
  rw [← hname, ← hext] at hupper he
  exact makeShortName_iff.mpr ⟨name', ext', hupper.of_map, hc', he⟩

/-- **The codec.** What is displayed for an accepted component is the component in upper case;
what is displayed for an upper-case name is text, and parses to that name; and two accepted
components get one name exactly if they are equal up to the case of letters. -/
theorem short_name_codec :
    (∀ (c : String) (e : Vector UInt8 11), makeShortName c = .ok e →
      displayShortName e.toList = (strBytes c).map toAsciiUppercase) ∧
    (∀ (name ext : List UInt8) (e : Vector UInt8 11), Parts isUpperNameByte name ext →
      e.toList = paddedName name ext →
      (∃ c, strBytes c = displayShortName e.toList) ∧
        ∀ c, strBytes c = displayShortName e.toList → makeShortName c = .ok e) ∧
    ∀ (c c' : String) (e e' : Vector UInt8 11), makeShortName c = .ok e →
      makeShortName c' = .ok e' →
      (e = e' ↔ (strBytes c).map toAsciiUppercase = (strBytes c').map toAsciiUppercase) :=
  ⟨fun _ _ h => display_makeShortName h, fun _ _ _ hparts he => makeShortName_display hparts he,
    fun _ _ _ _ h h' => makeShortName_eq_iff h h'⟩

/-- `CAT` and `TXT`. -/
def catName : Vector UInt8 11 := #v[67, 65, 84, 32, 32, 32, 32, 32, 84, 88, 84]

theorem short_name_codec_at_cat :
    displayShortName catName.toList = strBytes "CAT.TXT" ∧
      makeShortName "CAT.TXT" = .ok catName ∧
      ((strBytes "cat.txt").map toAsciiUppercase = (strBytes "Cat.tXt").map toAsciiUppercase) := by
  have hlower : makeShortName "cat.txt" = .ok catName :=
    makeShortName_iff.mpr ⟨[99, 97, 116], [116, 120, 116],
      ⟨by decide, by decide, by decide, List.all_eq_true.mp (by decide)⟩,
      by decide +kernel, by decide⟩
  have hmixed : makeShortName "Cat.tXt" = .ok catName :=
    makeShortName_iff.mpr ⟨[67, 97, 116], [116, 88, 116],
      ⟨by decide, by decide, by decide, List.all_eq_true.mp (by decide)⟩,
      by decide +kernel, by decide⟩
  have hdisplay := short_name_codec.1 "cat.txt" catName hlower
  refine ⟨hdisplay.trans (by decide +kernel), ?_, ?_⟩
  · refine (short_name_codec.2.1 [67, 65, 84] [84, 88, 84] catName
      ⟨by decide, by decide, by decide, List.all_eq_true.mp (by decide)⟩ (by decide)).2 _ ?_
    exact (hdisplay.trans (by decide +kernel)).symm
  · exact (short_name_codec.2.2 "cat.txt" "Cat.tXt" catName catName hlower hmixed).mp rfl

end Lazers.Storage
