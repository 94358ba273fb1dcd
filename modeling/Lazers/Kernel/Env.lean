import Lazers.Lib.FixedArray
import Lazers.Lib.OrderedMap
import Lazers.Lib.Triple
import Lazers.Str

/-!
# Process environments (`env.rs`)

An environment is an array of 16 entries, each with a key and a value in byte
arrays of its own. Text comes back out through `from_utf8`, with the empty string
as a fallback.

- `Environment.pairs`: the entries in use, as text.
- `Environment.Valid`: every entry in use holds text, so the fallback is never
  taken, and the keys are distinct and well formed.
- On valid environments `set` is `OrderedMap.put` and `remove` is
  `OrderedMap.del`, whatever bytes the slots held before.
-/

namespace Lazers.Kernel

open FixedArray OrderedMap

def maxEnvVars : Nat := 16
def maxEnvKeyLen : Nat := 32
def maxEnvValueLen : Nat := 128

inductive EnvironmentError where
  | invalidKey
  | keyTooLong
  | valueTooLong
  | capacityExceeded
deriving DecidableEq, Repr

/-! ## Entries -/

structure EnvEntry where
  key : Vector UInt8 maxEnvKeyLen
  keyLen : Nat
  value : Vector UInt8 maxEnvValueLen
  valueLen : Nat
deriving DecidableEq

namespace EnvEntry

def empty : EnvEntry where
  key := Vector.replicate maxEnvKeyLen 0
  keyLen := 0
  value := Vector.replicate maxEnvValueLen 0
  valueLen := 0

/-- `EnvEntry::set_value`. -/
def setValue (entry : EnvEntry) (value : String) : EnvEntry :=
  { entry with value := writeAt entry.value 0 (strBytes value), valueLen := (strBytes value).length }

/-- `EnvEntry::set_pair`. -/
def setPair (entry : EnvEntry) (key value : String) : EnvEntry :=
  { entry with key := writeAt entry.key 0 (strBytes key), keyLen := (strBytes key).length }.setValue
    value

/-- `EnvEntry::key`. -/
def keyStr (entry : EnvEntry) : String := (fromUtf8 (used entry.key entry.keyLen)).getD ""

/-- `EnvEntry::value`. -/
def valueStr (entry : EnvEntry) : String := (fromUtf8 (used entry.value entry.valueLen)).getD ""

end EnvEntry

/-! ## The store -/

structure Environment where
  entries : Vector EnvEntry maxEnvVars
  len : Nat
deriving DecidableEq

/-- `validate_key`. -/
def validateKey (key : String) : Except EnvironmentError Unit :=
  if key = "" ∨ 61 ∈ strBytes key then .error .invalidKey
  else if (strBytes key).length > maxEnvKeyLen then .error .keyTooLong
  else .ok ()

namespace Environment

def new : Environment where
  entries := Vector.replicate maxEnvVars EnvEntry.empty
  len := 0

/-- `self.entries[index]`. -/
def entry (env : Environment) (index : Nat) : EnvEntry := (env.entries[index]?).getD EnvEntry.empty

/-- `self.entries[index] = entry`. -/
def setEntry (env : Environment) (index : Nat) (entry : EnvEntry) : Environment :=
  { env with entries := env.entries.setIfInBounds index entry }

/-- The loop of `find_index`. -/
def findIndexFrom (env : Environment) (key : String) : (rounds index : Nat) → Option Nat
  | 0, _ => none
  | rounds + 1, index =>
    if (env.entry index).keyStr = key then some index
    else findIndexFrom env key rounds (index + 1)

def findIndex (env : Environment) (key : String) : Option Nat := findIndexFrom env key env.len 0

/-- `Environment::set`. -/
def set (key value : String) : EStateM EnvironmentError Environment Unit := fun env =>
  match validateKey key with
  | .error e => .error e env
  | .ok () =>
    if (strBytes value).length > maxEnvValueLen then .error .valueTooLong env
    else
      match env.findIndex key with
      | some index => .ok () (env.setEntry index ((env.entry index).setValue value))
      | none =>
        if env.len = maxEnvVars then .error .capacityExceeded env
        else .ok () {
          env.setEntry env.len ((env.entry env.len).setPair key value) with
          len := env.len + 1 }

/-- The rest of `remove` once the key was found. -/
def removeAt (env : Environment) (index : Nat) : Environment where
  entries := (shiftDown (env.len - 1 - index) index env.entries).setIfInBounds (env.len - 1)
    EnvEntry.empty
  len := env.len - 1

/-- `Environment::remove`. -/
def remove (key : String) : EStateM EnvironmentError Environment Bool := fun env =>
  match validateKey key with
  | .error e => .error e env
  | .ok () =>
    match env.findIndex key with
    | none => .ok false env
    | some index => .ok true (env.removeAt index)

/-- `Environment::get`. -/
def get (env : Environment) (key : String) : Except EnvironmentError (Option String) :=
  match validateKey key with
  | .error e => .error e
  | .ok () => .ok ((env.findIndex key).map fun index => (env.entry index).valueStr)

/-- The loop of `clear`. -/
def clearFrom : (rounds index : Nat) → Environment → Environment
  | 0, _, env => env
  | rounds + 1, index, env => clearFrom rounds (index + 1) (env.setEntry index EnvEntry.empty)

/-- `Environment::clear`. -/
def clear (env : Environment) : Environment := { clearFrom env.len 0 env with len := 0 }

/-- The loop of `inherit_into`. -/
def inheritFrom (env : Environment) : (rounds index : Nat) →
    EStateM EnvironmentError Environment Unit
  | 0, _ => return ()
  | rounds + 1, index => do
    set (env.entry index).keyStr (env.entry index).valueStr
    inheritFrom env rounds (index + 1)

/-- `Environment::inherit_into`; the state is the child's. -/
def inheritInto (env : Environment) : EStateM EnvironmentError Environment Unit := do
  modify clear
  inheritFrom env env.len 0

/-- The loop of `write_listing_into`: the result and the buffer it leaves. -/
def writeListingFrom (env : Environment) : (rounds index written : Nat) → List UInt8 →
    Except EnvironmentError Nat × List UInt8
  | 0, _, written, buffer => (.ok written, buffer)
  | rounds + 1, index, written, buffer =>
    let entry := env.entry index
    let needed := entry.keyLen + 1 + entry.valueLen + 1
    if written + needed > buffer.length then (.error .capacityExceeded, buffer)
    else
      let line := used entry.key entry.keyLen ++ 61 :: used entry.value entry.valueLen ++ [10]
      writeListingFrom env rounds (index + 1) (written + needed)
        (buffer.take written ++ line ++ buffer.drop (written + needed))

/-- `Environment::write_listing_into`. -/
def writeListingInto (env : Environment) (buffer : List UInt8) :
    Except EnvironmentError Nat × List UInt8 :=
  writeListingFrom env env.len 0 0 buffer

end Environment

/-! ## Entries hold text -/

namespace EnvEntry

/-- Both arrays hold text, so the fallback of `key` and `value` is never taken. -/
structure Ok (e : EnvEntry) : Prop where
  keyLen_le : e.keyLen ≤ maxEnvKeyLen
  valueLen_le : e.valueLen ≤ maxEnvValueLen
  key : used e.key e.keyLen = strBytes e.keyStr
  value : used e.value e.valueLen = strBytes e.valueStr

def pair (e : EnvEntry) : String × String := (e.keyStr, e.valueStr)

theorem used_setValue (e : EnvEntry) {value : String}
    (h : (strBytes value).length ≤ maxEnvValueLen) :
    used (e.setValue value).value (e.setValue value).valueLen = strBytes value := by
  have hused := used_writeAt e.value 0 (by omega : 0 + (strBytes value).length ≤ maxEnvValueLen)
  rw [Nat.zero_add] at hused
  exact hused

theorem used_setPair (e : EnvEntry) {key : String} (value : String)
    (h : (strBytes key).length ≤ maxEnvKeyLen) :
    used (e.setPair key value).key (e.setPair key value).keyLen = strBytes key := by
  have hused := used_writeAt e.key 0 (by omega : 0 + (strBytes key).length ≤ maxEnvKeyLen)
  rw [Nat.zero_add] at hused
  exact hused

theorem valueStr_setValue (e : EnvEntry) {value : String}
    (h : (strBytes value).length ≤ maxEnvValueLen) : (e.setValue value).valueStr = value := by
  rw [valueStr, used_setValue e h, fromUtf8_strBytes, Option.getD_some]

theorem setValue_key (e : EnvEntry) (value : String) : (e.setValue value).key = e.key := by
  rw [setValue]

theorem setValue_keyLen (e : EnvEntry) (value : String) :
    (e.setValue value).keyLen = e.keyLen := by
  rw [setValue]

theorem keyStr_setValue (e : EnvEntry) (value : String) :
    (e.setValue value).keyStr = e.keyStr := by
  rw [keyStr, setValue_key, setValue_keyLen, keyStr]

theorem keyStr_setPair (e : EnvEntry) {key : String} (value : String)
    (h : (strBytes key).length ≤ maxEnvKeyLen) : (e.setPair key value).keyStr = key := by
  rw [keyStr, used_setPair e value h, fromUtf8_strBytes, Option.getD_some]

/-- A value replaces whatever the slot held. -/
theorem Ok.setValue {e : EnvEntry} (he : e.Ok) {value : String}
    (h : (strBytes value).length ≤ maxEnvValueLen) :
    (e.setValue value).Ok ∧ (e.setValue value).pair = (e.keyStr, value) := by
  refine ⟨⟨?_, ?_, ?_, ?_⟩, ?_⟩
  · rw [setValue_keyLen]
    exact he.keyLen_le
  · rw [EnvEntry.setValue]
    exact h
  · rw [setValue_key, setValue_keyLen, keyStr_setValue]
    exact he.key
  · rw [used_setValue e h, valueStr_setValue e h]
  · rw [pair, valueStr_setValue e h, keyStr_setValue]

theorem setPair_spec (e : EnvEntry) {key value : String}
    (hkey : (strBytes key).length ≤ maxEnvKeyLen)
    (hvalue : (strBytes value).length ≤ maxEnvValueLen) :
    (e.setPair key value).Ok ∧ (e.setPair key value).pair = (key, value) := by
  have hkeyStr := keyStr_setPair e value hkey
  have hvalueStr : (e.setPair key value).valueStr = value := by
    rw [setPair, valueStr_setValue _ hvalue]
  refine ⟨⟨hkey, hvalue, ?_, ?_⟩, ?_⟩
  · rw [used_setPair e value hkey, hkeyStr]
  · rw [hvalueStr]
    exact used_setValue _ hvalue
  · rw [pair, hkeyStr, hvalueStr]

end EnvEntry

/-! ## Valid environments -/

/-- What `validate_key` accepts. -/
structure KeyOk (key : String) : Prop where
  nonempty : key ≠ ""
  no_equals : 61 ∉ strBytes key
  short : (strBytes key).length ≤ maxEnvKeyLen

theorem validateKey_eq_ok {key : String} : validateKey key = .ok () ↔ KeyOk key := by
  unfold validateKey
  split_ifs with hbad hlong
  · constructor
    · intro h
      cases h
    · intro h
      exact absurd hbad (not_or.mpr ⟨h.nonempty, h.no_equals⟩)
  · constructor
    · intro h
      cases h
    · intro h
      exact absurd hlong (Nat.not_lt_of_le h.short)
  · rw [not_or] at hbad
    exact ⟨fun _ => ⟨hbad.1, hbad.2, Nat.le_of_not_lt hlong⟩, fun _ => rfl⟩

namespace Environment

/-- The entries in use. -/
def live (env : Environment) : List EnvEntry := used env.entries env.len

/-- The pairs in listing order. -/
def pairs (env : Environment) : List (String × String) := env.live.map EnvEntry.pair

structure Valid (env : Environment) : Prop where
  len_le : env.len ≤ maxEnvVars
  entries : ∀ e ∈ env.live, e.Ok
  keys : ∀ k ∈ keys env.pairs, KeyOk k
  nodup : (OrderedMap.keys env.pairs).Nodup

theorem Valid.length_live {env : Environment} (h : env.Valid) : env.live.length = env.len :=
  length_used _ h.len_le

theorem Valid.length_pairs {env : Environment} (h : env.Valid) : env.pairs.length = env.len := by
  rw [pairs, List.length_map, h.length_live]

theorem entry_eq {env : Environment} {i : Nat} {e : EnvEntry} (hi : i < env.len)
    (h : env.live[i]? = some e) : env.entry i = e := by
  rw [live, getElem?_used _ hi] at h
  rw [entry, h, Option.getD_some]

theorem valid_new : new.Valid := ⟨by decide, by simp [live, new], by simp [pairs, live, new],
  by simp [pairs, live, new]⟩

/-! ### Finding a key -/

theorem findIndexFrom_cases (env : Environment) (key : String) {rounds : Nat} (index : Nat)
    {l : List EnvEntry} (hlive : env.live.drop index = l) (hlen : l.length = rounds)
    (hlt : index + rounds = env.len) :
    (∃ l₁ e l₂, l = l₁ ++ e :: l₂ ∧ e.keyStr = key ∧ key ∉ keys (l₁.map EnvEntry.pair) ∧
      findIndexFrom env key rounds index = some (index + l₁.length)) ∨
    (key ∉ keys (l.map EnvEntry.pair) ∧ findIndexFrom env key rounds index = none) := by
  induction rounds generalizing index l with
  | zero =>
    obtain rfl := List.length_eq_zero_iff.mp hlen
    exact .inr ⟨by simp, rfl⟩
  | succ rounds ih =>
    cases l with
    | nil => simp at hlen
    | cons e rest =>
      have hget : env.live[index]? = some e := by
        rw [← List.head?_drop, hlive, List.head?_cons]
      have hentry : env.entry index = e := entry_eq (by omega) hget
      have hrest : env.live.drop (index + 1) = rest := by
        rw [← List.drop_drop, hlive, List.drop_one, List.tail_cons]
      rw [findIndexFrom, hentry]
      by_cases hkey : e.keyStr = key
      · left
        refine ⟨[], e, rest, rfl, hkey, by simp, ?_⟩
        rw [if_pos hkey]
        simp
      · rw [if_neg hkey]
        rcases ih (index + 1) hrest (by simpa using hlen) (by omega) with
          ⟨l₁, e', l₂, hsplit, hfound, hbefore, hidx⟩ | ⟨hnot, hnone⟩
        · left
          refine ⟨e :: l₁, e', l₂, by rw [hsplit, List.cons_append], hfound, ?_, ?_⟩
          · rw [List.map_cons, keys_cons, List.mem_cons, not_or]
            exact ⟨Ne.symm hkey, hbefore⟩
          · rw [hidx, List.length_cons]
            congr 1
            omega
        · right
          refine ⟨?_, hnone⟩
          rw [List.map_cons, keys_cons, List.mem_cons, not_or]
          exact ⟨Ne.symm hkey, hnot⟩

/-- Where `find_index` finds a key. -/
theorem Valid.findIndex_cases {env : Environment} (h : env.Valid) (key : String) :
    (∃ l₁ e l₂, env.live = l₁ ++ e :: l₂ ∧ e.keyStr = key ∧
      key ∉ OrderedMap.keys (l₁.map EnvEntry.pair) ∧
      env.findIndex key = some l₁.length ∧ env.entry l₁.length = e) ∨
    (key ∉ OrderedMap.keys env.pairs ∧ env.findIndex key = none) := by
  rcases findIndexFrom_cases env key 0 List.drop_zero h.length_live (by omega) with
    ⟨l₁, e, l₂, hsplit, hkey, hbefore, hidx⟩ | ⟨hnot, hnone⟩
  · left
    have hlen := h.length_live
    rw [hsplit, List.length_append, List.length_cons] at hlen
    refine ⟨l₁, e, l₂, hsplit, hkey, hbefore, by rw [findIndex, hidx, Nat.zero_add], ?_⟩
    refine entry_eq (by omega) ?_
    rw [hsplit, List.getElem?_append_right (Nat.le_refl _), Nat.sub_self, List.getElem?_cons_zero]
  · exact .inr ⟨hnot, hnone⟩

/-! ### The operations as operations on an ordered map -/

/-- The error `set` answers with, if any. -/
def setError (key value : String) (m : List (String × String)) : Option EnvironmentError :=
  if key = "" ∨ 61 ∈ strBytes key then some .invalidKey
  else if (strBytes key).length > maxEnvKeyLen then some .keyTooLong
  else if (strBytes value).length > maxEnvValueLen then some .valueTooLong
  else if key ∉ OrderedMap.keys m ∧ m.length = maxEnvVars then some .capacityExceeded
  else none

theorem setError_eq_none {key value : String} {m : List (String × String)} :
    setError key value m = none ↔ KeyOk key ∧ (strBytes value).length ≤ maxEnvValueLen ∧
      (key ∈ OrderedMap.keys m ∨ m.length ≠ maxEnvVars) := by
  unfold setError
  split_ifs with hbad hlong hvalue hfull
  · rw [false_iff]
    exact fun h => not_or.mpr ⟨h.1.nonempty, h.1.no_equals⟩ hbad
  · rw [false_iff]
    exact fun h => absurd h.1.short (Nat.not_le_of_lt hlong)
  · rw [false_iff]
    exact fun h => absurd h.2.1 (Nat.not_le_of_lt hvalue)
  · rw [false_iff]
    exact fun h => h.2.2.elim hfull.1 fun hne => hne hfull.2
  · rw [not_or] at hbad
    simp only [true_iff]
    refine ⟨⟨hbad.1, hbad.2, Nat.le_of_not_lt hlong⟩, Nat.le_of_not_lt hvalue, ?_⟩
    by_cases hmem : key ∈ OrderedMap.keys m
    · exact .inl hmem
    · exact .inr fun hlen => hfull ⟨hmem, hlen⟩

/-- Valid environments from their entries. -/
theorem valid_of_live {env : Environment} {l : List EnvEntry} (hlive : env.live = l)
    (hle : env.len ≤ maxEnvVars) (hok : ∀ e ∈ l, e.Ok)
    (hkeys : ∀ k ∈ OrderedMap.keys (l.map EnvEntry.pair), KeyOk k)
    (hnodup : (OrderedMap.keys (l.map EnvEntry.pair)).Nodup) : env.Valid := by
  subst hlive
  exact ⟨hle, hok, hkeys, hnodup⟩

/-- The keys after a `put` are well formed. -/
theorem Valid.keys_put {env : Environment} (h : env.Valid) {key : String} (hkey : KeyOk key)
    (value : String) : ∀ k ∈ OrderedMap.keys (put key value env.pairs), KeyOk k := by
  intro k hk
  rw [OrderedMap.keys_put] at hk
  split_ifs at hk
  · exact h.keys k hk
  · rcases List.mem_append.mp hk with hk | hk
    · exact h.keys k hk
    · rw [List.mem_singleton.mp hk]
      exact hkey

/-- Updating the value of a key that is there. -/
theorem Valid.update {env : Environment} (h : env.Valid) {key value : String} {l₁ l₂ : List EnvEntry}
    {e : EnvEntry} (hkey : KeyOk key) (hvalue : (strBytes value).length ≤ maxEnvValueLen)
    (hsplit : env.live = l₁ ++ e :: l₂) (hfound : e.keyStr = key)
    (hbefore : key ∉ OrderedMap.keys (l₁.map EnvEntry.pair)) :
    (env.setEntry l₁.length (e.setValue value)).Valid ∧
      (env.setEntry l₁.length (e.setValue value)).pairs = put key value env.pairs := by
  have he : e.Ok := h.entries e (by rw [hsplit]; simp)
  obtain ⟨hok, hpair⟩ := he.setValue hvalue
  have hlive : (env.setEntry l₁.length (e.setValue value)).live = l₁ ++ e.setValue value :: l₂ := by
    rw [live, setEntry, used_set, ← live, hsplit, List.set_append_right _ _ (Nat.le_refl _),
      Nat.sub_self, List.set_cons_zero]
  have hpairs : (l₁ ++ e.setValue value :: l₂).map EnvEntry.pair = put key value env.pairs := by
    have hold : env.pairs = l₁.map EnvEntry.pair ++ (key, e.valueStr) :: l₂.map EnvEntry.pair := by
      rw [pairs, hsplit, List.map_append, List.map_cons, EnvEntry.pair, hfound]
    rw [hold, put_of_split hbefore, List.map_append, List.map_cons, hpair, hfound]
  refine ⟨valid_of_live hlive h.len_le ?_ ?_ ?_, ?_⟩
  · intro e' he'
    rcases List.mem_append.mp he' with he' | he'
    · exact h.entries e' (by rw [hsplit]; exact List.mem_append_left _ he')
    · rcases List.mem_cons.mp he' with rfl | he'
      · exact hok
      · exact h.entries e' (by rw [hsplit]; exact List.mem_append_right _ (List.mem_cons_of_mem _ he'))
  · rw [hpairs]
    exact h.keys_put hkey value
  · rw [hpairs]
    exact nodup_keys_put h.nodup
  · rw [pairs, hlive, hpairs]

/-- Appending a new key. -/
theorem Valid.append {env : Environment} (h : env.Valid) {key value : String} (hkey : KeyOk key)
    (hvalue : (strBytes value).length ≤ maxEnvValueLen) (hnew : key ∉ OrderedMap.keys env.pairs)
    (hroom : env.len ≠ maxEnvVars) (env' : Environment)
    (henv' : env' = {
      env.setEntry env.len ((env.entry env.len).setPair key value) with len := env.len + 1 }) :
    env'.Valid ∧ env'.pairs = put key value env.pairs := by
  have hle := h.len_le
  obtain ⟨hok, hpair⟩ := (env.entry env.len).setPair_spec hkey.short hvalue
  have hlive : env'.live = env.live ++ [(env.entry env.len).setPair key value] := by
    rw [henv', live, setEntry]
    exact used_push _ (by omega)
  have hpairs : (env.live ++ [(env.entry env.len).setPair key value]).map EnvEntry.pair =
      put key value env.pairs := by
    rw [put_of_notMem hnew, List.map_append, List.map_singleton, hpair]
    rfl
  refine ⟨valid_of_live hlive (by rw [henv']; exact Nat.lt_of_le_of_ne hle hroom) ?_ ?_ ?_, ?_⟩
  · intro e he
    rcases List.mem_append.mp he with he | he
    · exact h.entries e he
    · rw [List.mem_singleton.mp he]
      exact hok
  · rw [hpairs]
    exact h.keys_put hkey value
  · rw [hpairs]
    exact nodup_keys_put h.nodup
  · rw [pairs, hlive, hpairs]

/-- **`set` is `put`**, or an error that changes nothing. -/
theorem Valid.set_cases {env : Environment} (h : env.Valid) (key value : String) :
    (∃ e, setError key value env.pairs = some e ∧ set key value env = .error e env) ∨
    (setError key value env.pairs = none ∧ ∃ env', set key value env = .ok () env' ∧ env'.Valid ∧
      env'.pairs = put key value env.pairs) := by
  by_cases hkey : KeyOk key
  · have hvalid : validateKey key = .ok () := validateKey_eq_ok.mpr hkey
    by_cases hvalue : (strBytes value).length > maxEnvValueLen
    · left
      refine ⟨.valueTooLong, ?_, by simp only [set, hvalid, if_pos hvalue]⟩
      rw [setError, if_neg (not_or.mpr ⟨hkey.nonempty, hkey.no_equals⟩),
        if_neg (Nat.not_lt_of_le hkey.short), if_pos hvalue]
    · rcases h.findIndex_cases key with
        ⟨l₁, e, l₂, hsplit, hfound, hbefore, hidx, hentry⟩ | ⟨hnew, hnone⟩
      · right
        have hmem : key ∈ OrderedMap.keys env.pairs := by
          rw [pairs, hsplit, ← hfound, OrderedMap.keys]
          simp [EnvEntry.pair]
        refine ⟨setError_eq_none.mpr ⟨hkey, Nat.le_of_not_lt hvalue, .inl hmem⟩, _, ?_,
          h.update hkey (Nat.le_of_not_lt hvalue) hsplit hfound hbefore⟩
        simp only [set, hvalid, if_neg hvalue, hidx, hentry]
      · by_cases hfull : env.len = maxEnvVars
        · left
          refine ⟨.capacityExceeded, ?_, by simp only [set, hvalid, if_neg hvalue, hnone, if_pos hfull]⟩
          rw [setError, if_neg (not_or.mpr ⟨hkey.nonempty, hkey.no_equals⟩),
            if_neg (Nat.not_lt_of_le hkey.short), if_neg hvalue, h.length_pairs,
            if_pos ⟨hnew, hfull⟩]
        · right
          refine ⟨setError_eq_none.mpr ⟨hkey, Nat.le_of_not_lt hvalue, .inr ?_⟩, _, ?_,
            h.append hkey (Nat.le_of_not_lt hvalue) hnew hfull _ rfl⟩
          · rwa [h.length_pairs]
          · simp only [set, hvalid, if_neg hvalue, hnone, if_neg hfull]
  · left
    cases hvalid : validateKey key with
    | ok _ => exact absurd (validateKey_eq_ok.mp hvalid) hkey
    | error e =>
      refine ⟨e, ?_, by simp only [set, hvalid]⟩
      unfold validateKey at hvalid
      unfold setError
      split_ifs at hvalid ⊢ with hbad hlong
      · cases hvalid
        rfl
      · cases hvalid
        rfl

/-- **`remove` is `del`** for a well-formed key. -/
theorem Valid.remove_cases {env : Environment} (h : env.Valid) (key : String) :
    (∃ e, validateKey key = .error e ∧ remove key env = .error e env) ∨
    (KeyOk key ∧ ∃ env', remove key env = .ok (decide (key ∈ OrderedMap.keys env.pairs)) env' ∧
      env'.Valid ∧ env'.pairs = del key env.pairs) := by
  cases hvalid : validateKey key with
  | error e => exact .inl ⟨e, rfl, by simp only [remove, hvalid]⟩
  | ok _ =>
    right
    refine ⟨validateKey_eq_ok.mp hvalid, ?_⟩
    rcases h.findIndex_cases key with
      ⟨l₁, e, l₂, hsplit, hfound, hbefore, hidx, -⟩ | ⟨hnew, hnone⟩
    · have hlen := h.length_live
      rw [hsplit, List.length_append, List.length_cons] at hlen
      have hmem : key ∈ OrderedMap.keys env.pairs := by
        rw [pairs, hsplit, ← hfound, OrderedMap.keys]
        simp [EnvEntry.pair]
      have hlive : (env.removeAt l₁.length).live = l₁ ++ l₂ := by
        rw [live, removeAt, used_set_of_le (Nat.le_refl _), used_shiftDown (by omega) h.len_le, ← live, hsplit,
          List.eraseIdx_append_of_length_le (Nat.le_refl _), Nat.sub_self, List.eraseIdx_cons_zero]
      have hpairs : (l₁ ++ l₂).map EnvEntry.pair = del key env.pairs := by
        have hold : env.pairs = l₁.map EnvEntry.pair ++ (key, e.valueStr) :: l₂.map EnvEntry.pair := by
          rw [pairs, hsplit, List.map_append, List.map_cons, EnvEntry.pair, hfound]
        rw [hold, del_of_split hbefore, List.map_append]
      have hle := h.len_le
      refine ⟨env.removeAt l₁.length, by simp only [remove, hvalid, hidx, decide_eq_true hmem],
        valid_of_live hlive (show env.len - 1 ≤ maxEnvVars by omega) ?_ ?_ ?_,
        by rw [pairs, hlive, hpairs]⟩
      · intro e' he'
        refine h.entries e' ?_
        rw [hsplit]
        rcases List.mem_append.mp he' with he' | he'
        · exact List.mem_append_left _ he'
        · exact List.mem_append_right _ (List.mem_cons_of_mem _ he')
      · rw [hpairs, keys_del]
        exact fun k hk => h.keys k (List.mem_of_mem_erase hk)
      · rw [hpairs]
        exact nodup_keys_del h.nodup
    · refine ⟨env, by simp only [remove, hvalid, hnone, decide_eq_false hnew], h, ?_⟩
      rw [del_of_notMem hnew]

/-- **`get` is lookup** for a well-formed key. -/
theorem Valid.get_eq {env : Environment} (h : env.Valid) {key : String} (hkey : KeyOk key) :
    env.get key = .ok (env.pairs.lookup key) := by
  have hvalid : validateKey key = .ok () := validateKey_eq_ok.mpr hkey
  simp only [get, hvalid]
  rcases h.findIndex_cases key with
    ⟨l₁, e, l₂, hsplit, hfound, hbefore, hidx, hentry⟩ | ⟨hnew, hnone⟩
  · rw [hidx, Option.map_some, hentry, pairs, hsplit, List.map_append, List.map_cons,
      List.lookup_append, lookup_eq_none_of_notMem hbefore, Option.none_or, lookup_cons_eq,
      if_pos (show e.pair.1 = key from hfound)]
    rfl
  · rw [hnone, Option.map_none, lookup_eq_none_of_notMem hnew]

@[simp] theorem live_clear (env : Environment) : env.clear.live = [] := by
  rw [live, clear, used_zero]

/-- `clear` leaves an empty map. -/
theorem clear_spec (env : Environment) : env.clear.Valid ∧ env.clear.pairs = [] := by
  have hlive := live_clear env
  exact ⟨valid_of_live hlive (Nat.zero_le _) (by simp) (by simp) (by simp),
    by rw [pairs, hlive, List.map_nil]⟩

/-- Setting the pairs of a valid environment one by one. -/
theorem Valid.inheritFrom_spec {env : Environment} (h : env.Valid) {rounds : Nat} (index : Nat)
    {child : Environment} (hlt : index + rounds = env.len) (hchild : child.Valid)
    (hpairs : child.pairs = env.pairs.take index) :
    ∃ child', inheritFrom env rounds index child = .ok () child' ∧ child'.Valid ∧
      child'.pairs = env.pairs := by
  induction rounds generalizing index child with
  | zero =>
    refine ⟨child, rfl, hchild, ?_⟩
    rw [hpairs, List.take_of_length_le (by rw [h.length_pairs]; omega)]
  | succ rounds ih =>
    have hlen := h.length_live
    have hle := h.len_le
    obtain ⟨e, hget⟩ : ∃ e, env.live[index]? = some e :=
      ⟨_, List.getElem?_eq_getElem (by omega)⟩
    have hmem : e ∈ env.live := List.mem_of_getElem? hget
    have hentry : env.entry index = e := entry_eq (by omega) hget
    have hpair : env.pairs[index]? = some (e.keyStr, e.valueStr) := by
      rw [pairs, List.getElem?_map, hget, Option.map_some, EnvEntry.pair]
    have hsplit : env.pairs.take (index + 1) = env.pairs.take index ++ [(e.keyStr, e.valueStr)] := by
      rw [List.take_add_one, hpair, Option.toList_some]
    have hkey : KeyOk e.keyStr := h.keys _ (List.mem_map_of_mem (List.mem_map_of_mem hmem))
    have hvalue : (strBytes e.valueStr).length ≤ maxEnvValueLen := by
      have hok := h.entries e hmem
      rw [← hok.value, length_used _ hok.valueLen_le]
      exact hok.valueLen_le
    -- the key is new among the pairs copied so far
    have hnew : e.keyStr ∉ OrderedMap.keys child.pairs := by
      have hnodup : (OrderedMap.keys (env.pairs.take (index + 1))).Nodup :=
        h.nodup.sublist ((List.take_sublist _ _).map _)
      rw [hsplit, OrderedMap.keys, List.map_append, List.nodup_append] at hnodup
      rw [hpairs]
      exact fun hin => hnodup.2.2 _ hin _ (by simp) rfl
    have hroom : child.pairs.length ≠ maxEnvVars := by
      rw [hpairs, List.length_take, h.length_pairs]
      omega
    rcases hchild.set_cases e.keyStr e.valueStr with ⟨err, herr, -⟩ | ⟨-, child₁, hset, hv₁, hp₁⟩
    · rw [setError_eq_none.mpr ⟨hkey, hvalue, .inr hroom⟩] at herr
      cases herr
    · rw [put_of_notMem hnew, hpairs, ← hsplit] at hp₁
      obtain ⟨child', hrun, hv', hp'⟩ := ih (index + 1) (by omega) hv₁ hp₁
      refine ⟨child', ?_, hv', hp'⟩
      rw [inheritFrom, hentry]
      exact EStateM.bind_eq_ok.mpr ⟨_, child₁, hset, hrun⟩

/-- **Inheriting never fails**, and copies the map. -/
theorem Valid.inheritInto_eq_ok {env : Environment} (h : env.Valid) (child : Environment) :
    ∃ child', inheritInto env child = .ok () child' ∧ child'.Valid ∧ child'.pairs = env.pairs := by
  obtain ⟨hvalid, hpairs⟩ := clear_spec child
  obtain ⟨child', hrun, hv', hp'⟩ := h.inheritFrom_spec 0 (Nat.zero_add _) hvalid
    (by rw [hpairs, List.take_zero])
  exact ⟨child', EStateM.bind_eq_ok.mpr ⟨_, child.clear, rfl, hrun⟩, hv', hp'⟩

/-! ### The listing -/

/-- `KEY=VALUE` and a newline. -/
def line (p : String × String) : List UInt8 := strBytes p.1 ++ 61 :: strBytes p.2 ++ [10]

def listing (m : List (String × String)) : List UInt8 := m.flatMap line

/-- A listing stays within its buffer. -/
theorem writeListingFrom_le {env : Environment} {room : Nat} {rounds index written : Nat}
    {buffer : List UInt8} {n : Nat} (hbuffer : buffer.length ≤ room) (hwritten : written ≤ room)
    (h : (writeListingFrom env rounds index written buffer).1 = .ok n) : n ≤ room := by
  induction rounds generalizing index written buffer with
  | zero =>
    cases h
    exact hwritten
  | succ rounds ih =>
    rw [writeListingFrom] at h
    split_ifs at h with hfull
    refine ih ?_ (by omega) h
    have hkey := List.length_take_le (env.entry index).keyLen (env.entry index).key.toList
    have hvalue := List.length_take_le (env.entry index).valueLen (env.entry index).value.toList
    simp only [used, List.length_append, List.length_take, List.length_cons, List.length_nil,
      List.length_drop]
    omega

theorem writeListingFrom_spec {env : Environment} (h : env.Valid) {rounds : Nat}
    (index written : Nat) (buffer : List UInt8) {l : List EnvEntry} (hlive : env.live.drop index = l)
    (hlen : l.length = rounds) (hlt : index + rounds = env.len) (hwritten : written ≤ buffer.length) :
    (written + (listing (l.map EnvEntry.pair)).length ≤ buffer.length →
      writeListingFrom env rounds index written buffer =
        (.ok (written + (listing (l.map EnvEntry.pair)).length),
          buffer.take written ++ listing (l.map EnvEntry.pair) ++
            buffer.drop (written + (listing (l.map EnvEntry.pair)).length))) ∧
    (buffer.length < written + (listing (l.map EnvEntry.pair)).length →
      (writeListingFrom env rounds index written buffer).1 = .error .capacityExceeded) := by
  induction rounds generalizing index written buffer l with
  | zero =>
    obtain rfl := List.length_eq_zero_iff.mp hlen
    refine ⟨fun _ => ?_, fun hlong => ?_⟩
    · simp [writeListingFrom, listing]
    · simp [listing] at hlong
      omega
  | succ rounds ih =>
    cases l with
    | nil => simp at hlen
    | cons e rest =>
      have hget : env.live[index]? = some e := by
        rw [← List.head?_drop, hlive, List.head?_cons]
      have hentry : env.entry index = e := entry_eq (by omega) hget
      have hrest : env.live.drop (index + 1) = rest := by
        rw [← List.drop_drop, hlive, List.drop_one, List.tail_cons]
      have hok : e.Ok := h.entries e (List.mem_of_getElem? hget)
      -- the line of this entry is `needed` bytes long
      have hline : used e.key e.keyLen ++ 61 :: used e.value e.valueLen ++ [10] = line e.pair := by
        rw [hok.key, hok.value]
        rfl
      have hneeded : e.keyLen + 1 + e.valueLen + 1 = (line e.pair).length := by
        rw [← hline, List.length_append, List.length_append, List.length_cons,
          length_used _ hok.keyLen_le, length_used _ hok.valueLen_le, List.length_singleton]
        omega
      have hlisting : listing ((e :: rest).map EnvEntry.pair) =
          line e.pair ++ listing (rest.map EnvEntry.pair) := by
        rw [List.map_cons, listing, List.flatMap_cons]
        rfl
      have hbuffer : written + (line e.pair).length ≤ buffer.length →
          (buffer.take written ++ line e.pair ++
            buffer.drop (written + (line e.pair).length)).length = buffer.length := by
        intro hfits
        rw [List.length_append, List.length_append, List.length_take, List.length_drop]
        omega
      rw [writeListingFrom, hentry, hline, hneeded, hlisting, List.length_append]
      by_cases hfits : written + (line e.pair).length > buffer.length
      · rw [if_pos hfits]
        exact ⟨fun hle => by omega, fun _ => rfl⟩
      · rw [if_neg hfits]
        have hlen' := hbuffer (by omega)
        obtain ⟨hfit, hshort⟩ := ih (index + 1) (written + (line e.pair).length)
          (buffer.take written ++ line e.pair ++
            buffer.drop (written + (line e.pair).length)) hrest (by simpa using hlen) (by omega)
          (by omega)
        rw [hlen'] at hfit hshort
        have htake : (buffer.take written ++ line e.pair).length =
            written + (line e.pair).length := by
          rw [List.length_append, List.length_take]
          omega
        refine ⟨fun hle => ?_, fun hlong => hshort (by omega)⟩
        have hdrop : (buffer.take written ++ line e.pair ++
            buffer.drop (written + (line e.pair).length)).drop (written + (line e.pair).length +
              (listing (rest.map EnvEntry.pair)).length) =
            buffer.drop (written + ((line e.pair).length +
              (listing (rest.map EnvEntry.pair)).length)) := by
          rw [← List.drop_drop, List.drop_left' htake, List.drop_drop, Nat.add_assoc]
        rw [hfit (by omega), List.take_left' htake, hdrop, Nat.add_assoc, List.append_assoc,
          List.append_assoc, List.append_assoc, List.append_assoc]

/-- **`write_listing_into`** writes the whole listing or reports that it does not
fit. -/
theorem Valid.writeListingInto_spec {env : Environment} (h : env.Valid) (buffer : List UInt8) :
    ((listing env.pairs).length ≤ buffer.length →
      writeListingInto env buffer = (.ok (listing env.pairs).length,
        listing env.pairs ++ buffer.drop (listing env.pairs).length)) ∧
    (buffer.length < (listing env.pairs).length →
      (writeListingInto env buffer).1 = .error .capacityExceeded) := by
  have hspec := writeListingFrom_spec h 0 0 buffer List.drop_zero
    h.length_live (Nat.zero_add _) (Nat.zero_le _)
  rw [List.take_zero, List.nil_append, Nat.zero_add] at hspec
  exact hspec

end Environment

/-! ## Runs -/

/-- Calls on a family of environments. A block is not inherited into itself: the
child is borrowed mutably while the parent is read. -/
inductive EnvOp where
  | set (store : Nat) (key value : String)
  | remove (store : Nat) (key : String)
  | clear (store : Nat)
  | inheritInto (store child : Nat) (distinct : store ≠ child)

/-- The environments, and what has happened to them, newest first. -/
structure EnvRun where
  stores : Nat → Environment
  past : List (Event Nat String String)

namespace EnvRun

/-- One call: the state it leaves and the error it answers with, if any. -/
def call (run : EnvRun) : EnvOp → EnvRun × Option EnvironmentError
  | .set store key value =>
    match Environment.set key value (run.stores store) with
    | .ok _ env => (⟨Function.update run.stores store env, .put store key value :: run.past⟩, none)
    | .error e env => (⟨Function.update run.stores store env, run.past⟩, some e)
  | .remove store key =>
    match Environment.remove key (run.stores store) with
    | .ok _ env => (⟨Function.update run.stores store env, .del store key :: run.past⟩, none)
    | .error e env => (⟨Function.update run.stores store env, run.past⟩, some e)
  | .clear store =>
    (⟨Function.update run.stores store (run.stores store).clear, .clear store :: run.past⟩, none)
  | .inheritInto store child _ =>
    match (run.stores store).inheritInto (run.stores child) with
    | .ok _ env => (⟨Function.update run.stores child env, .copy store child :: run.past⟩, none)
    | .error e env => (⟨Function.update run.stores child env, run.past⟩, some e)

def start : EnvRun := ⟨fun _ => Environment.new, []⟩

/-- A sequence of calls, failing or not, from new environments. -/
def exec (ops : List EnvOp) : EnvRun := ops.foldl (fun run op => (run.call op).1) start

/-- Every environment is the map its history describes. -/
structure Inv (run : EnvRun) : Prop where
  valid : ∀ i, (run.stores i).Valid
  pairs : ∀ i, (run.stores i).pairs = replay run.past i

/-- One environment changes as one event says. -/
theorem Inv.update {run : EnvRun} (inv : run.Inv) {store : Nat} {env : Environment}
    {event : Event Nat String String} (hvalid : env.Valid)
    (hpairs : env.pairs = replay (event :: run.past) store)
    (hothers : ∀ i, i ≠ store → replay (event :: run.past) i = replay run.past i) :
    Inv ⟨Function.update run.stores store env, event :: run.past⟩ := by
  constructor
  · intro i
    dsimp only
    by_cases hi : i = store
    · subst hi
      rwa [Function.update_self]
    · rw [Function.update_of_ne hi]
      exact inv.valid i
  · intro i
    dsimp only
    by_cases hi : i = store
    · subst hi
      rwa [Function.update_self]
    · rw [Function.update_of_ne hi, hothers i hi]
      exact inv.pairs i

/-- A failed call stores what was there. -/
theorem Inv.unchanged {run : EnvRun} (inv : run.Inv) (store : Nat) :
    Inv ⟨Function.update run.stores store (run.stores store), run.past⟩ := by
  rwa [Function.update_eq_self]

/-- **One call**: an error leaves every environment as it is. -/
theorem Inv.call {run : EnvRun} (inv : run.Inv) (op : EnvOp) :
    (run.call op).1.Inv ∧ ((run.call op).2 ≠ none → (run.call op).1.stores = run.stores) := by
  cases op with
  | set store key value =>
    rw [EnvRun.call]
    rcases (inv.valid store).set_cases key value with ⟨e, -, hset⟩ | ⟨-, env, hset, hv, hp⟩
    · rw [hset]
      exact ⟨inv.unchanged store, fun _ => Function.update_eq_self _ _⟩
    · rw [hset]
      refine ⟨inv.update hv ?_ fun i hi => if_neg hi, fun h => absurd rfl h⟩
      rw [hp, inv.pairs, replay, if_pos rfl]
  | remove store key =>
    rw [EnvRun.call]
    rcases (inv.valid store).remove_cases key with ⟨e, -, hrem⟩ | ⟨-, env, hrem, hv, hp⟩
    · rw [hrem]
      exact ⟨inv.unchanged store, fun _ => Function.update_eq_self _ _⟩
    · rw [hrem]
      refine ⟨inv.update hv ?_ fun i hi => if_neg hi, fun h => absurd rfl h⟩
      rw [hp, inv.pairs, replay, if_pos rfl]
  | clear store =>
    obtain ⟨hv, hp⟩ := (run.stores store).clear_spec
    refine ⟨inv.update hv ?_ fun i hi => if_neg hi, fun h => absurd rfl h⟩
    rw [hp, replay, if_pos rfl]
  | inheritInto store child distinct =>
    obtain ⟨env, hrun, hv, hp⟩ := (inv.valid store).inheritInto_eq_ok (run.stores child)
    rw [EnvRun.call, hrun]
    refine ⟨inv.update hv ?_ fun i hi => if_neg hi, fun h => absurd rfl h⟩
    rw [hp, inv.pairs, replay, if_pos rfl]

theorem inv_start : start.Inv :=
  ⟨fun _ => Environment.valid_new, fun _ => by simp [start, Environment.pairs, Environment.live,
    Environment.new, replay]⟩

theorem exec_inv (ops : List EnvOp) : (exec ops).Inv := by
  suffices h : ∀ run : EnvRun, run.Inv → (ops.foldl (fun run op => (run.call op).1) run).Inv from
    h start inv_start
  induction ops with
  | nil => exact fun _ h => h
  | cons op ops ih => exact fun run h => ih _ (h.call op).1

/-- **An environment is an insertion-ordered map.** After any sequence of calls: at
most 16 keys are stored, they are well formed, distinct and listed in the order of
their first insertion; `get` answers with the value a key was last given, and so
does the listing; a failed call changes nothing; and `set` fails only for a bad key,
a long value, or a new key when 16 are stored. -/
theorem environment_refines_orderedMap (ops : List EnvOp) (store : Nat) :
    ((exec ops).stores store).len ≤ maxEnvVars ∧
    keys ((exec ops).stores store).pairs = order (exec ops).past store ∧
    (order (exec ops).past store).Nodup ∧
    (∀ k ∈ order (exec ops).past store,
      k ≠ "" ∧ 61 ∉ strBytes k ∧ (strBytes k).length ≤ maxEnvKeyLen) ∧
    (∀ k, validateKey k = .ok () →
      ((exec ops).stores store).get k = .ok (latest (exec ops).past store k)) ∧
    (((exec ops).stores store).pairs.map fun p => (p.1, some p.2)) =
      (order (exec ops).past store).map (fun k => (k, latest (exec ops).past store k)) ∧
    (∀ buffer, (Environment.listing ((exec ops).stores store).pairs).length ≤ buffer.length →
      ((exec ops).stores store).writeListingInto buffer =
        (.ok (Environment.listing ((exec ops).stores store).pairs).length,
          Environment.listing ((exec ops).stores store).pairs ++
            buffer.drop (Environment.listing ((exec ops).stores store).pairs).length)) ∧
    (∀ op, ((exec ops).call op).2 ≠ none → ((exec ops).call op).1.stores = (exec ops).stores) ∧
    ∀ k v e env, Environment.set k v ((exec ops).stores store) = .error e env →
      validateKey k ≠ .ok () ∨ maxEnvValueLen < (strBytes v).length ∨
        (k ∉ order (exec ops).past store ∧ ((exec ops).stores store).len = maxEnvVars) := by
  have inv := exec_inv ops
  have hvalid := inv.valid store
  have hkeys : keys ((exec ops).stores store).pairs = order (exec ops).past store := by
    rw [inv.pairs, keys_replay]
  have hlookup : ∀ k, ((exec ops).stores store).pairs.lookup k = latest (exec ops).past store k := by
    intro k
    rw [inv.pairs, lookup_replay]
  refine ⟨hvalid.len_le, hkeys, hkeys ▸ hvalid.nodup, fun k hk => ?_, fun k hk => ?_, ?_,
    fun buffer => (hvalid.writeListingInto_spec buffer).1, fun op => (inv.call op).2,
    fun k v e env herr => ?_⟩
  · obtain ⟨hne, heq, hshort⟩ := hvalid.keys k (hkeys ▸ hk)
    exact ⟨hne, heq, hshort⟩
  · rw [hvalid.get_eq (validateKey_eq_ok.mp hk), hlookup]
  · rw [eq_map_lookup hvalid.nodup, hkeys]
    simp only [hlookup]
  · rcases hvalid.set_cases k v with ⟨e', hfails, -⟩ | ⟨-, env', hok, -⟩
    · -- an error comes from one of the three conditions
      by_contra hnone
      rw [not_or, not_or, not_not] at hnone
      obtain ⟨hkey, hvalue, hroom⟩ := hnone
      have hsetError : Environment.setError k v ((exec ops).stores store).pairs = none := by
        refine Environment.setError_eq_none.mpr
          ⟨validateKey_eq_ok.mp hkey, Nat.le_of_not_lt hvalue, ?_⟩
        rw [hkeys, hvalid.length_pairs]
        by_contra hfull
        rw [not_or, not_not] at hfull
        exact hroom hfull
      rw [hsetError] at hfails
      cases hfails
    · rw [hok] at herr
      cases herr

end EnvRun

end Lazers.Kernel
