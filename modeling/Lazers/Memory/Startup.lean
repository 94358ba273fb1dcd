import Lazers.Memory.Types
import Lazers.Str

/-!
# Startup arguments (`memory/loader.rs`, `prepare_startup_layout`)

The layout of a new process's stack: the argument strings below
`USER_STACK_TOP`, the pointer array below them, and `argc` at `stack_start`.

An accepted `argv_tail` is a sequence of non-empty NUL-terminated fields
(`parseArgvTail_eq_ok`), and every such sequence within the limits is accepted
(`parseArgvTail_payload`).
-/

namespace Lazers.Memory

/-- Startup data that should be made visible to a new user process. -/
structure ProgramStartup where
  argv0 : String
  argvTail : List UInt8

/-- `StartupLayout`; `argc` is the length of `args`. -/
structure StartupLayout where
  args : List (List UInt8)
  stringsStart : Nat
  stackStart : Nat
deriving DecidableEq, Repr

namespace StartupLayout

def argc (layout : StartupLayout) : Nat := layout.args.length

end StartupLayout

/-- The loop over `argv_tail`: `rest` is what lies from `cursor` on. Each round
moves the cursor, so the length of the block bounds the rounds. -/
def parseArgvTail : (rounds : Nat) → (rest : List UInt8) → (args : List (List UInt8)) →
    Except MemoryError (List (List UInt8))
  | 0, _, args => .ok args
  | rounds + 1, rest, args =>
    if rest.isEmpty then .ok args
    else
      match rest.findIdx? (· == 0) with
      | none => .error .invalidStartupArguments
      | some relativeEnd =>
        let arg := rest.take relativeEnd
        if arg.isEmpty || !isUtf8 arg || arg.contains 0 then .error .invalidStartupArguments
        else if args.length ≥ maxStartupArgs then .error .startupArgumentsTooLarge
        else parseArgvTail rounds (rest.drop (relativeEnd + 1)) (args ++ [arg])

/-- The space the argument strings take, each with its NUL. -/
def stringsSize (args : List (List UInt8)) : Nat := (args.map fun arg => arg.length + 1).sum

/-- The part of `prepare_startup_layout` after the arguments are known. -/
def placeArguments (args : List (List UInt8)) : Except MemoryError StartupLayout := do
  let pointersLen := (args.length + 1) * 8
  let some stringsStart := checkedSub userStackTop (stringsSize args)
    | throw .startupArgumentsTooLarge
  let some pointersEnd := checkedSub stringsStart pointersLen
    | throw .startupArgumentsTooLarge
  let pointersStart := alignDown pointersEnd 8
  let some argcStart := checkedSub pointersStart 8
    | throw .startupArgumentsTooLarge
  let stackStart := alignDown argcStart 16
  if stackStart < userStackBase then throw .startupArgumentsTooLarge
  return { args, stringsStart, stackStart }

/-- `prepare_startup_layout`. -/
def prepareStartupLayout (startup : ProgramStartup) : Except MemoryError StartupLayout := do
  let argv0 := strBytes startup.argv0
  if !isUtf8 argv0 || argv0.contains 0 then throw .invalidStartupArguments
  let args ← parseArgvTail startup.argvTail.length startup.argvTail [argv0]
  placeArguments args

/-! ## NUL-terminated fields -/

/-- Fields with a NUL after each. -/
def payloadOf (fields : List (List UInt8)) : List UInt8 := fields.flatMap (· ++ [0])

theorem payloadOf_cons (field : List UInt8) (rest : List (List UInt8)) :
    payloadOf (field :: rest) = field ++ 0 :: payloadOf rest := by
  simp [payloadOf]

theorem length_payloadOf (fields : List (List UInt8)) :
    (payloadOf fields).length = stringsSize fields := by
  induction fields with
  | nil => rfl
  | cons field rest ih =>
    rw [payloadOf_cons, List.length_append, List.length_cons, ih]
    simp only [stringsSize, List.map_cons, List.sum_cons]
    omega

/-- What `prepare_startup_layout` asks of one argument. -/
structure ArgOk (arg : List UInt8) : Prop where
  nonempty : arg ≠ []
  utf8 : isUtf8 arg = true
  noNul : 0 ∉ arg

theorem findIdx?_field {field rest : List UInt8} (h : 0 ∉ field) :
    (field ++ 0 :: rest).findIdx? (· == 0) = some field.length := by
  have hnone : field.findIdx? (· == 0) = none := by
    rw [List.findIdx?_eq_none_iff]
    intro x hx
    simpa using fun heq : x = 0 => h (heq ▸ hx)
  simp [List.findIdx?_append, hnone, List.findIdx?_cons]

/-- The first NUL ends the first field. -/
theorem eq_of_findIdx? {bytes : List UInt8} {n : Nat} (h : bytes.findIdx? (· == 0) = some n) :
    bytes = bytes.take n ++ 0 :: bytes.drop (n + 1) ∧ 0 ∉ bytes.take n := by
  rw [List.findIdx?_eq_some_iff_getElem] at h
  obtain ⟨hlt, hzero, hbefore⟩ := h
  constructor
  · have hget : bytes[n] = 0 := by simpa using hzero
    rw [← hget, List.getElem_cons_drop, List.take_append_drop]
  · intro hmem
    obtain ⟨i, hi, hget⟩ := List.mem_take_iff_getElem.mp hmem
    have hne := hbefore i (by omega)
    simp [hget] at hne

/-- **Fields within the limits are accepted**, unless one is empty. -/
theorem parseArgvTail_payload {fields args : List (List UInt8)} {rounds : Nat}
    (hutf8 : ∀ field ∈ fields, isUtf8 field = true) (hnul : ∀ field ∈ fields, 0 ∉ field)
    (hcount : args.length + fields.length ≤ maxStartupArgs)
    (hrounds : (payloadOf fields).length ≤ rounds) :
    parseArgvTail rounds (payloadOf fields) args =
      if ∀ field ∈ fields, field ≠ [] then .ok (args ++ fields)
      else .error .invalidStartupArguments := by
  induction fields generalizing args rounds with
  | nil =>
    cases rounds with
    | zero => simp [parseArgvTail]
    | succ rounds => simp [parseArgvTail, payloadOf]
  | cons field rest ih =>
    rw [payloadOf_cons] at hrounds ⊢
    cases rounds with
    | zero => simp at hrounds
    | succ rounds =>
      have hfield := hnul field List.mem_cons_self
      have hvalid := hutf8 field List.mem_cons_self
      rw [parseArgvTail, findIdx?_field hfield]
      have hne : (field ++ 0 :: payloadOf rest).isEmpty = false := by simp
      have hdrop : (field ++ 0 :: payloadOf rest).drop (field.length + 1) = payloadOf rest := by
        rw [List.drop_append]
        simp
      have hcontains : field.contains 0 = false := by simpa using hfield
      simp only [hne, Bool.false_eq_true, if_false, List.take_left', hdrop, hvalid, hcontains,
        Bool.not_true, Bool.or_false]
      rw [List.length_append, List.length_cons] at hrounds
      rw [List.length_cons] at hcount
      by_cases hempty : field = []
      · simp [hempty]
      · have hsome : field.isEmpty = false := by simpa using hempty
        rw [hsome, if_neg Bool.false_ne_true, if_neg (by omega)]
        rw [ih (fun f hf => hutf8 f (List.mem_cons_of_mem _ hf))
          (fun f hf => hnul f (List.mem_cons_of_mem _ hf)) (by simp; omega) (by omega)]
        simp [hempty]

/-- **What an accepted block consists of.** -/
theorem parseArgvTail_eq_ok {rest : List UInt8} {args result : List (List UInt8)} {rounds : Nat}
    (hrounds : rest.length ≤ rounds) (h : parseArgvTail rounds rest args = .ok result) :
    ∃ fields, result = args ++ fields ∧ rest = payloadOf fields ∧ (∀ f ∈ fields, ArgOk f) ∧
      (fields = [] ∨ result.length ≤ maxStartupArgs) := by
  induction rounds generalizing rest args with
  | zero =>
    obtain rfl : rest = [] := List.eq_nil_of_length_eq_zero (by omega)
    cases h
    exact ⟨[], by simp, rfl, by simp, .inl rfl⟩
  | succ rounds ih =>
    rw [parseArgvTail] at h
    by_cases hempty : rest.isEmpty = true
    · rw [if_pos hempty] at h
      cases h
      exact ⟨[], by simp, by simpa [payloadOf] using hempty, by simp, .inl rfl⟩
    · rw [if_neg hempty] at h
      cases hfind : rest.findIdx? (· == 0) with
      | none =>
        rw [hfind] at h
        cases h
      | some n =>
        rw [hfind] at h
        simp only at h
        split_ifs at h with hbad hfull
        obtain ⟨hsplit, hnul⟩ := eq_of_findIdx? hfind
        have hlen : (rest.drop (n + 1)).length ≤ rounds := by
          rw [List.length_drop]
          omega
        obtain ⟨fields, hresult, hrest, hok, hcount⟩ := ih hlen h
        simp only [Bool.or_eq_true, not_or, Bool.not_eq_true] at hbad
        refine ⟨rest.take n :: fields, by simp [hresult], ?_, ?_, .inr ?_⟩
        · rw [payloadOf_cons, ← hrest]
          exact hsplit
        · intro f hf
          rcases List.mem_cons.mp hf with rfl | hf
          · exact ⟨by simpa using hbad.1.1, by simpa using hbad.1.2, hnul⟩
          · exact hok f hf
        · rcases hcount with rfl | hcount
          · rw [hresult]
            simp
            omega
          · exact hcount

/-! ## Placing the strings -/

/-- Where `prepare_startup_layout` puts things. -/
structure PlacedOk (args : List (List UInt8)) (layout : StartupLayout) : Prop where
  args_eq : layout.args = args
  strings : layout.stringsStart + stringsSize args = userStackTop
  aligned : layout.stackStart % 16 = 0
  base : userStackBase ≤ layout.stackStart
  pointers : layout.stackStart + 8 + (args.length + 1) * 8 ≤ layout.stringsStart

theorem alignDown_eight {v : Nat} (hv : v < u64Limit) : alignDown v 8 = v / 8 * 8 :=
  alignDown_pow hv (by decide : 3 ≤ 64)

theorem alignDown_sixteen {v : Nat} (hv : v < u64Limit) : alignDown v 16 = v / 16 * 16 :=
  alignDown_pow hv (by decide : 4 ≤ 64)

/-- A layout that is returned keeps the strings, the pointers and `argc` apart. -/
theorem placeArguments_eq_ok {args : List (List UInt8)} {layout : StartupLayout}
    (h : placeArguments args = .ok layout) : PlacedOk args layout := by
  have hlimit : userStackTop < u64Limit := by decide
  unfold placeArguments at h
  split at h
  · rename_i stringsStart hstrings
    obtain ⟨hle, rfl⟩ := checkedSub_eq_some.mp hstrings
    simp only at h
    split at h
    · rename_i pointersEnd hpointers
      obtain ⟨hle', rfl⟩ := checkedSub_eq_some.mp hpointers
      rw [alignDown_eight (by omega)] at h
      split at h
      · rename_i argcStart hargc
        obtain ⟨hle'', rfl⟩ := checkedSub_eq_some.mp hargc
        rw [alignDown_sixteen (by omega)] at h
        split_ifs at h with hbase
        · cases h
        · obtain rfl := Except.ok.inj h
          constructor <;> dsimp only <;> omega
      · cases h
    · cases h
  · cases h

/-- Small blocks fit on the stack. -/
theorem placeArguments_ok {args : List (List UInt8)}
    (h : stringsSize args + (args.length + 1) * 8 + 32 ≤ userStackPages * pageSize) :
    ∃ layout, placeArguments args = .ok layout := by
  have hbase : userStackBase = userStackTop - userStackPages * pageSize := rfl
  have htop : userStackPages * pageSize ≤ userStackTop := by decide
  have hlimit : userStackTop < u64Limit := by decide
  have hstrings : checkedSub userStackTop (stringsSize args) =
      some (userStackTop - stringsSize args) := checkedSub_eq_some.mpr ⟨by omega, rfl⟩
  have hpointers : checkedSub (userStackTop - stringsSize args) ((args.length + 1) * 8) =
      some (userStackTop - stringsSize args - (args.length + 1) * 8) :=
    checkedSub_eq_some.mpr ⟨by omega, rfl⟩
  have hargc : checkedSub ((userStackTop - stringsSize args - (args.length + 1) * 8) / 8 * 8) 8 =
      some ((userStackTop - stringsSize args - (args.length + 1) * 8) / 8 * 8 - 8) :=
    checkedSub_eq_some.mpr ⟨by omega, rfl⟩
  unfold placeArguments
  simp only [hstrings, hpointers]
  rw [alignDown_eight (by omega)]
  simp only [hargc]
  rw [alignDown_sixteen (by omega), if_neg (by omega)]
  exact ⟨_, rfl⟩

/-- **What an accepted startup block looks like.** -/
theorem prepareStartupLayout_eq_ok {startup : ProgramStartup} {layout : StartupLayout}
    (h : prepareStartupLayout startup = .ok layout) :
    ∃ fields, startup.argvTail = payloadOf fields ∧ (∀ f ∈ fields, ArgOk f) ∧
      0 ∉ strBytes startup.argv0 ∧ fields.length + 1 ≤ maxStartupArgs ∧
      PlacedOk (strBytes startup.argv0 :: fields) layout := by
  unfold prepareStartupLayout at h
  simp only [isUtf8_strBytes, Bool.not_true, Bool.false_or] at h
  split_ifs at h with hnul
  · cases h
  · cases hparse : parseArgvTail startup.argvTail.length startup.argvTail
        [strBytes startup.argv0] with
    | error e =>
      rw [hparse] at h
      cases h
    | ok args =>
      rw [hparse] at h
      obtain ⟨fields, rfl, htail, hok, hcount⟩ := parseArgvTail_eq_ok le_rfl hparse
      refine ⟨fields, htail, hok, by simpa using hnul, ?_, placeArguments_eq_ok h⟩
      rcases hcount with rfl | hcount
      · decide
      · simpa [Nat.add_comm] using hcount

end Lazers.Memory
