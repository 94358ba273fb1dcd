import Lazers.Lash.Paths
import Lazers.Lib.ShellWords

/-!
# Command tokens (`lash/src/lib.rs`)

`TokenizedCommand::parse` takes a command apart into tokens. It copies their bytes, without
quotes and escapes, one behind the other into a storage of 256 bytes and remembers where each
of at most 16 tokens starts and how long it is.

- `Tokenizing.Rep`: the locals of the loop hold the words of a reader (`ShellWords`).
- `parseFrom_spec`: the loop does what the reader does, as long as there is room.
- `parse_spec`: what `parse` returns, for every line.
-/

namespace Lazers.Lash

open FixedArray ShellWords

def maxCommandArgs : Nat := 16

inductive ParseError where
  | unmatchedSingleQuote
  | unmatchedDoubleQuote
  | trailingBackslash
  | invalidSyntax
  | resourceUnavailable
deriving DecidableEq, Repr

abbrev ParseState := Mode

/-- Space, the two quotes and the backslash. -/
def marks : Marks UInt8 where
  space := 32
  single := 39
  double := 34
  escape := 92
  nodup := by decide

structure TokenizedCommand where
  storage : Vector UInt8 lineCapacity
  offsets : Vector Nat maxCommandArgs
  lengths : Vector Nat maxCommandArgs
  count : Nat
deriving DecidableEq

namespace TokenizedCommand

def startToken (self : TokenizedCommand) (storageOffset : Nat) :
    Except ParseError TokenizedCommand :=
  if self.count ≥ maxCommandArgs then .error .resourceUnavailable
  else .ok { self with
    offsets := self.offsets.setIfInBounds self.count storageOffset
    lengths := self.lengths.setIfInBounds self.count 0 }

def finishToken (self : TokenizedCommand) (tokenLen : Nat) : Except ParseError TokenizedCommand :=
  if self.count ≥ maxCommandArgs then .error .resourceUnavailable
  else .ok { self with
    lengths := self.lengths.setIfInBounds self.count tokenLen
    count := self.count + 1 }

def pushTokenByte (self : TokenizedCommand) (storageIndex : Nat) (byte : UInt8) :
    Except ParseError TokenizedCommand :=
  if storageIndex ≥ lineCapacity then .error .resourceUnavailable
  else .ok { self with storage := self.storage.setIfInBounds storageIndex byte }

/-- The bytes of a token. -/
def tokenBytes (self : TokenizedCommand) (index : Nat) : Option (List UInt8) := do
  let start ← self.offsets[index]?
  let len ← self.lengths[index]?
  return (self.storage.toList.drop start).take len

/-- `TokenizedCommand::token`. -/
def token (self : TokenizedCommand) (index : Nat) : Option String :=
  (self.tokenBytes index).bind fromUtf8

/-- All tokens, as bytes. -/
def tokens (self : TokenizedCommand) : List (List UInt8) :=
  (List.range self.count).map fun index => (self.tokenBytes index).getD []

end TokenizedCommand

/-- The locals of `parse`. -/
structure Tokenizing where
  parsed : TokenizedCommand
  state : ParseState
  storageLen : Nat
  currentLen : Nat
  tokenActive : Bool

namespace Tokenizing

def start : Tokenizing where
  parsed := ⟨Vector.replicate _ 0, Vector.replicate _ 0, Vector.replicate _ 0, 0⟩
  state := .unquoted
  storageLen := 0
  currentLen := 0
  tokenActive := false

/-- `if !token_active { parsed.start_token(storage_len)?; token_active = true; }`. -/
def ensureToken (t : Tokenizing) : Except ParseError Tokenizing :=
  if t.tokenActive then .ok t
  else do
    let parsed ← t.parsed.startToken t.storageLen
    return { t with parsed, tokenActive := true }

/-- `parsed.push_token_byte(storage_len, byte)?`, and the two counters. -/
def pushByte (t : Tokenizing) (byte : UInt8) : Except ParseError Tokenizing := do
  let parsed ← t.parsed.pushTokenByte t.storageLen byte
  return { t with parsed, storageLen := t.storageLen + 1, currentLen := t.currentLen + 1 }

/-- A space outside quotes. -/
def endToken (t : Tokenizing) : Except ParseError Tokenizing :=
  if t.tokenActive then do
    let parsed ← t.parsed.finishToken t.currentLen
    return { t with parsed, currentLen := 0, tokenActive := false }
  else .ok t

/-- The loop of `parse`, on `line[source_index..]`. -/
def parseFrom : List UInt8 → Tokenizing → Except ParseError Tokenizing
  | [], t => .ok t
  | byte :: rest, t =>
    match t.state with
    | .unquoted =>
      if byte = 32 then do
        parseFrom rest (← t.endToken)
      else if byte = 39 then do
        let t ← t.ensureToken
        parseFrom rest { t with state := .singleQuoted }
      else if byte = 34 then do
        let t ← t.ensureToken
        parseFrom rest { t with state := .doubleQuoted }
      else if byte = 92 then
        match rest with
        | [] => .error .trailingBackslash
        | next :: rest => do
          let t ← t.ensureToken
          parseFrom rest (← t.pushByte next)
      else do
        let t ← t.ensureToken
        parseFrom rest (← t.pushByte byte)
    | .singleQuoted =>
      if byte = 39 then parseFrom rest { t with state := .unquoted }
      else do
        parseFrom rest (← t.pushByte byte)
    | .doubleQuoted =>
      if byte = 34 then parseFrom rest { t with state := .unquoted }
      else if byte = 92 then
        match rest with
        | [] => .error .trailingBackslash
        | next :: rest => do
          parseFrom rest (← t.pushByte next)
      else do
        parseFrom rest (← t.pushByte byte)

end Tokenizing

/-- `TokenizedCommand::parse`. -/
def TokenizedCommand.parse (line : List UInt8) : Except ParseError TokenizedCommand := do
  let t ← Tokenizing.start.parseFrom line
  match t.state with
  | .singleQuoted => .error .unmatchedSingleQuote
  | .doubleQuoted => .error .unmatchedDoubleQuote
  | .unquoted => return (← t.endToken).parsed

example : (TokenizedCommand.parse (strBytes "echo 'a b' c\\ d \"\"")).toOption.map
    (fun parsed => parsed.tokens) = some (["echo", "a b", "c d", ""].map strBytes) := by
  decide +kernel

/-! ## The locals hold words -/

/-- Where each word starts if they stand one behind the other. -/
def startsOf (words : List (List UInt8)) : List Nat :=
  (List.range words.length).map fun i => (words.take i).flatten.length

theorem startsOf_concat (words : List (List UInt8)) (word : List UInt8) :
    startsOf (words ++ [word]) = startsOf words ++ [words.flatten.length] := by
  rw [startsOf, startsOf, List.length_append, List.length_singleton, List.range_succ,
    List.map_append, List.map_singleton, List.take_left]
  congr 1
  refine List.map_congr_left fun i hi => ?_
  rw [List.take_append_of_le_length (Nat.le_of_lt (List.mem_range.mp hi))]

/-- There is room for the words. -/
abbrev Room (r : Reader UInt8) : Prop := r.Fits maxCommandArgs lineCapacity

namespace Tokenizing

/-- **The locals hold the words of a reader.** -/
structure Rep (t : Tokenizing) (r : Reader UInt8) : Prop where
  state : t.state = r.mode
  pending : r.pending = false
  quoted : r.mode ≠ .unquoted → r.word.isSome = true
  active : t.tokenActive = r.word.isSome
  currentLen : t.currentLen = (r.word.getD []).length
  count : t.parsed.count = r.words.length
  storageLen : t.storageLen = r.all.flatten.length
  storage : used t.parsed.storage t.storageLen = r.all.flatten
  lengths : used t.parsed.lengths t.parsed.count = r.words.map List.length
  offsets : used t.parsed.offsets r.all.length = startsOf r.all
  room : Room r

theorem Rep.start : Rep Tokenizing.start Reader.start where
  state := rfl
  pending := rfl
  quoted h := absurd rfl h
  active := rfl
  currentLen := rfl
  count := rfl
  storageLen := rfl
  storage := rfl
  lengths := rfl
  offsets := rfl
  room := by decide

variable {t : Tokenizing} {r : Reader UInt8}

/-- A step that may run out of room: it holds the words of `r`, unless they do not fit. -/
inductive Ends (r : Reader UInt8) : Except ParseError Tokenizing → Prop where
  | ok {t : Tokenizing} (h : Rep t r) : Ends r (.ok t)
  | full (h : ¬ Room r) : Ends r (.error .resourceUnavailable)

theorem Rep.withMode (h : Rep t r) (mode : Mode) (hquoted : mode ≠ .unquoted → r.word.isSome = true) :
    Rep { t with state := mode } { r with mode := mode } :=
  { h with state := rfl, quoted := hquoted, storage := h.storage, storageLen := h.storageLen
           offsets := h.offsets, room := h.room }

theorem Rep.ensureToken (h : Rep t r) : Ends r.begin t.ensureToken := by
  rw [Tokenizing.ensureToken, h.active]
  obtain ⟨mode, pending, words, word⟩ := r
  cases word with
  | some w => exact .ok h
  | none =>
    have hcount : t.parsed.count = words.length := h.count
    have hflat : (words ++ [[]]).flatten = words.flatten := by simp
    have hall : (words ++ (none : Option (List UInt8)).toList) = words := by simp
    have hstorageLen : t.storageLen = words.flatten.length := by
      have := h.storageLen
      rwa [Reader.all, hall] at this
    dsimp only [Option.isSome_none, Bool.false_eq_true, if_false, bind, Except.bind]
    rw [TokenizedCommand.startToken]
    by_cases hfull : t.parsed.count ≥ maxCommandArgs
    · rw [if_pos hfull]
      refine .full fun hroom => ?_
      have hlen : (words ++ [[]]).length ≤ maxCommandArgs := hroom.1
      rw [List.length_append, List.length_singleton] at hlen
      omega
    · rw [if_neg hfull]
      refine .ok { state := h.state, pending := h.pending, quoted := fun _ => rfl, active := rfl,
                   currentLen := h.currentLen, count := h.count, storageLen := ?_, storage := ?_,
                   lengths := ?_, offsets := ?_, room := ?_ }
      · show t.storageLen = (words ++ [[]]).flatten.length
        rw [hflat, hstorageLen]
      · show used t.parsed.storage t.storageLen = (words ++ [[]]).flatten
        have := h.storage
        rwa [Reader.all, hall, ← hflat] at this
      · exact (used_set_of_le (Nat.le_refl _)).trans h.lengths
      · show used (t.parsed.offsets.setIfInBounds t.parsed.count t.storageLen)
          (words ++ [[]]).length = startsOf (words ++ [[]])
        have hoffsets := h.offsets
        rw [Reader.all, hall] at hoffsets
        rw [List.length_append, List.length_singleton, hcount, used_push _ (by omega), hoffsets,
          startsOf_concat, hstorageLen]
      · refine ⟨?_, ?_⟩
        · show (words ++ [[]]).length ≤ maxCommandArgs
          rw [List.length_append, List.length_singleton]
          omega
        · show (words ++ [[]]).flatten.length ≤ lineCapacity
          have := h.room.2
          rwa [Reader.all, hall, ← hflat] at this

theorem Rep.pushByte (h : Rep t r) (hword : r.word.isSome = true) (byte : UInt8) :
    Ends (r.push byte) (t.pushByte byte) := by
  obtain ⟨mode, pending, words, word⟩ := r
  cases word with
  | none => cases hword
  | some w =>
    have hflat : (words ++ [w ++ [byte]]).flatten = (words ++ [w]).flatten ++ [byte] := by simp
    have hstorageLen : t.storageLen = (words ++ [w]).flatten.length := h.storageLen
    rw [Tokenizing.pushByte, TokenizedCommand.pushTokenByte]
    by_cases hfull : t.storageLen ≥ lineCapacity
    · rw [if_pos hfull]
      refine .full fun hroom => ?_
      have hlen : (words ++ [w ++ [byte]]).flatten.length ≤ lineCapacity := hroom.2
      rw [hflat, List.length_append, List.length_singleton] at hlen
      omega
    · rw [if_neg hfull]
      refine .ok { state := h.state, pending := h.pending, quoted := fun _ => rfl
                   active := h.active, currentLen := ?_, count := h.count, storageLen := ?_
                   storage := ?_, lengths := h.lengths, offsets := ?_, room := ?_ }
      · show t.currentLen + 1 = (w ++ [byte]).length
        have hlen : t.currentLen = w.length := h.currentLen
        rw [List.length_append, List.length_singleton, hlen]
      · show t.storageLen + 1 = (words ++ [w ++ [byte]]).flatten.length
        rw [hflat, List.length_append, List.length_singleton, hstorageLen]
      · show used (t.parsed.storage.setIfInBounds t.storageLen byte) (t.storageLen + 1) =
          (words ++ [w ++ [byte]]).flatten
        have hstorage : used t.parsed.storage t.storageLen = (words ++ [w]).flatten := h.storage
        rw [used_push _ (by omega), hstorage, hflat]
      · show used t.parsed.offsets (words ++ [w ++ [byte]]).length = startsOf (words ++ [w ++ [byte]])
        have hoffsets : used t.parsed.offsets (words ++ [w]).length = startsOf (words ++ [w]) :=
          h.offsets
        rw [startsOf_concat, ← startsOf_concat words w, ← hoffsets, List.length_append,
          List.length_append, List.length_singleton, List.length_singleton]
      · refine ⟨?_, ?_⟩
        · show (words ++ [w ++ [byte]]).length ≤ maxCommandArgs
          have hlen : (words ++ [w]).length ≤ maxCommandArgs := h.room.1
          simpa using hlen
        · show (words ++ [w ++ [byte]]).flatten.length ≤ lineCapacity
          rw [hflat, List.length_append, List.length_singleton]
          omega

theorem Rep.endToken (h : Rep t r) (hmode : r.mode = .unquoted) :
    ∃ t', t.endToken = .ok t' ∧ Rep t' r.finish := by
  rw [Tokenizing.endToken, h.active]
  obtain ⟨mode, pending, words, word⟩ := r
  cases word with
  | none =>
    have hfinish : Reader.finish ⟨mode, pending, words, none⟩ = ⟨mode, pending, words, none⟩ := by
      simp [Reader.finish]
    rw [hfinish]
    exact ⟨t, rfl, h⟩
  | some w =>
    have hall : (Reader.finish ⟨mode, pending, words, some w⟩).all = words ++ [w] :=
      Reader.all_finish _
    have hlen : (words ++ [w]).length ≤ maxCommandArgs := h.room.1
    rw [List.length_append, List.length_singleton] at hlen
    have hcount : t.parsed.count = words.length := h.count
    have hnot : ¬ t.parsed.count ≥ maxCommandArgs := by omega
    dsimp only [Option.isSome_some, if_true, bind, Except.bind]
    rw [TokenizedCommand.finishToken, if_neg hnot]
    refine ⟨_, rfl, { state := h.state, pending := h.pending, quoted := fun hne => absurd hmode hne
                      active := rfl, currentLen := rfl, count := ?_, storageLen := ?_
                      storage := ?_, lengths := ?_, offsets := ?_, room := ?_ }⟩
    · show t.parsed.count + 1 = (words ++ [w]).length
      rw [List.length_append, List.length_singleton, hcount]
    · rw [hall]
      exact h.storageLen
    · rw [hall]
      exact h.storage
    · show used (t.parsed.lengths.setIfInBounds t.parsed.count t.currentLen) (t.parsed.count + 1) =
        (words ++ [w]).map List.length
      have hlengths : used t.parsed.lengths t.parsed.count = words.map List.length := h.lengths
      have hcurrent : t.currentLen = w.length := h.currentLen
      rw [used_push _ (by omega), hlengths, hcurrent, List.map_append, List.map_singleton]
    · rw [hall]
      exact h.offsets
    · rw [Room, Reader.Fits, hall]
      exact h.room

/-- How the loop ends when the reader is at `r` behind the line. -/
inductive Parses (r : Reader UInt8) : Except ParseError Tokenizing → Prop where
  | ok {t : Tokenizing} (h : Rep t r) : Parses r (.ok t)
  | full (h : ¬ Room r) : Parses r (.error .resourceUnavailable)
  | dangling (hpending : r.pending = true) (hroom : Room r) : Parses r (.error .trailingBackslash)

/-- Once there is no room, there is none at the end. -/
theorem Ends.bind {r' : Reader UInt8} {x : Except ParseError Tokenizing}
    {f : Tokenizing → Except ParseError Tokenizing} (h : Ends r x) (hle : r.Le r')
    (hf : ∀ t, Rep t r → Parses r' (f t)) : Parses r' (x >>= f) := by
  cases h with
  | ok hrep => exact hf _ hrep
  | full hfull => exact .full fun hroom => hfull (hroom.mono hle)

/-- `ensure_token` and `push_byte` in a row. -/
theorem Rep.ensureToken_pushByte (h : Rep t r) (byte : UInt8) {r' : Reader UInt8}
    {f : Tokenizing → Except ParseError Tokenizing} (hle : (r.push byte).Le r')
    (hf : ∀ t, Rep t (r.push byte) → Parses r' (f t)) :
    Parses r' (t.ensureToken >>= fun t => t.pushByte byte >>= f) := by
  have hpush : r.begin.push byte = r.push byte := r.push_begin byte
  have hbegin : r.begin.Le r' := by
    rw [← hpush] at hle
    exact (Reader.le_push _ byte).trans hle
  refine h.ensureToken.bind hbegin fun t' h' => ?_
  refine (h'.pushByte rfl byte).bind ?_ fun t'' h'' => hf t'' ?_
  · rwa [hpush]
  · rwa [hpush] at h''

/-- **The loop follows the reader.** -/
theorem parseFrom_spec (line : List UInt8) (h : Rep t r) :
    Parses (line.foldl (step marks) r) (parseFrom line t) := by
  -- an escape takes two bytes, so the induction is on the length
  induction hn : line.length using Nat.strong_induction_on generalizing line t r with
  | _ n ih =>
    cases line with
    | nil => exact .ok h
    | cons byte rest =>
      have hlt : rest.length < n := by
        rw [← hn, List.length_cons]
        omega
      rw [parseFrom.eq_def, List.foldl_cons]
      dsimp only
      rw [h.state]
      have hrest : ∀ {t r}, Rep t r → Parses (rest.foldl (step marks) r) (parseFrom rest t) :=
        fun h => ih rest.length hlt rest h rfl
      have hle : ∀ r : Reader UInt8, r.Le (rest.foldl (step marks) r) := le_foldl marks rest
      cases hmode : r.mode with
      | unquoted =>
        dsimp only
        split_ifs with hspace hsingle hdouble hescape
        · obtain ⟨t', hend, h'⟩ := h.endToken hmode
          have hstep : step marks r byte = r.finish := by
            rw [hspace]
            exact step_space hmode h.pending
          rw [hend, hstep]
          exact hrest h'
        · have hstep : step marks r byte = { r.begin with mode := .singleQuoted } := by
            rw [step, h.pending, hmode, hsingle]
            rfl
          rw [hstep]
          have hbegin : r.begin.Le _ := hle { r.begin with mode := .singleQuoted }
          exact h.ensureToken.bind hbegin fun t' h' => hrest (h'.withMode _ fun _ => rfl)
        · have hstep : step marks r byte = { r.begin with mode := .doubleQuoted } := by
            rw [step, h.pending, hmode, hdouble]
            rfl
          rw [hstep]
          have hbegin : r.begin.Le _ := hle { r.begin with mode := .doubleQuoted }
          exact h.ensureToken.bind hbegin fun t' h' => hrest (h'.withMode _ fun _ => rfl)
        · have hstep : step marks r byte = { r with pending := true } := by
            rw [step, h.pending, hmode, hescape]
            rfl
          rw [hstep]
          cases rest with
          | nil => exact .dangling rfl h.room
          | cons next rest =>
            rw [List.foldl_cons, step_escaped marks h.pending]
            refine h.ensureToken_pushByte next (le_foldl marks rest _) fun t' h' => ?_
            exact ih rest.length (Nat.lt_trans (Nat.lt_succ_self _) hlt) rest h' rfl
        · have hstep : step marks r byte = r.push byte := by
            rw [step, h.pending, hmode]
            simp [marks, hspace, hsingle, hdouble, hescape]
          rw [hstep]
          exact h.ensureToken_pushByte byte (hle _) fun t' h' => hrest h'
      | singleQuoted =>
        have hword := h.quoted (by rw [hmode]; decide)
        dsimp only
        split_ifs with hsingle
        · have hstep : step marks r byte = { r with mode := .unquoted } := by
            rw [step, h.pending, hmode, hsingle]
            rfl
          rw [hstep]
          exact hrest (h.withMode _ fun hne => absurd rfl hne)
        · have hstep : step marks r byte = r.push byte := by
            rw [step, h.pending, hmode]
            simp [marks, hsingle]
          rw [hstep]
          exact (h.pushByte hword byte).bind (hle _) fun t' h' => hrest h'
      | doubleQuoted =>
        have hword := h.quoted (by rw [hmode]; decide)
        dsimp only
        split_ifs with hdouble hescape
        · have hstep : step marks r byte = { r with mode := .unquoted } := by
            rw [step, h.pending, hmode, hdouble]
            rfl
          rw [hstep]
          exact hrest (h.withMode _ fun hne => absurd rfl hne)
        · have hstep : step marks r byte = { r with pending := true } := by
            rw [step, h.pending, hmode, hescape]
            rfl
          rw [hstep]
          cases rest with
          | nil => exact .dangling rfl h.room
          | cons next rest =>
            rw [List.foldl_cons, step_escaped marks h.pending]
            refine (h.pushByte hword next).bind (le_foldl marks rest _) fun t' h' => ?_
            exact ih rest.length (Nat.lt_trans (Nat.lt_succ_self _) hlt) rest h' rfl
        · have hstep : step marks r byte = r.push byte := by
            rw [step, h.pending, hmode]
            simp [marks, hdouble, hescape]
          rw [hstep]
          exact (h.pushByte hword byte).bind (hle _) fun t' h' => hrest h'

end Tokenizing

/-! ## The result -/

/-- A word stands where it starts. -/
theorem flatten_drop_take {words : List (List UInt8)} {i : Nat} {word : List UInt8}
    (h : words[i]? = some word) :
    (words.take i).flatten.length + word.length ≤ words.flatten.length ∧
      (words.flatten.drop (words.take i).flatten.length).take word.length = word := by
  obtain ⟨hi, rfl⟩ := List.getElem?_eq_some_iff.mp h
  have hsplit : words.flatten =
      (words.take i).flatten ++ (words[i] ++ (words.drop (i + 1)).flatten) := by
    rw [← List.flatten_cons, ← List.flatten_append, List.getElem_cons_drop,
      List.take_append_drop]
  rw [hsplit, List.drop_left, List.take_left, List.length_append, List.length_append]
  exact ⟨by omega, rfl⟩

/-- **The tokens are these words**, and each lies within the storage. -/
structure TokenizedCommand.Holds (parsed : TokenizedCommand) (ws : List (List UInt8)) : Prop where
  count : parsed.count = ws.length
  room : ws.length ≤ maxCommandArgs
  token : ∀ (i : Nat) (word : List UInt8), ws[i]? = some word → ∃ start, parsed.offsets[i]? = some start ∧
    parsed.lengths[i]? = some word.length ∧ start + word.length ≤ lineCapacity ∧
    (parsed.storage.toList.drop start).take word.length = word

theorem TokenizedCommand.Holds.tokenBytes {parsed : TokenizedCommand} {ws : List (List UInt8)}
    (h : parsed.Holds ws) {i : Nat} (hi : i < parsed.count) : parsed.tokenBytes i = ws[i]? := by
  rw [h.count] at hi
  have hword := List.getElem?_eq_getElem hi
  obtain ⟨start, hoffset, hlength, -, hslice⟩ := h.token i _ hword
  rw [TokenizedCommand.tokenBytes, hoffset, hlength, hword]
  exact congrArg some hslice

theorem TokenizedCommand.Holds.tokens {parsed : TokenizedCommand} {ws : List (List UInt8)}
    (h : parsed.Holds ws) : parsed.tokens = ws := by
  refine List.ext_getElem? fun i => ?_
  rw [TokenizedCommand.tokens, List.getElem?_map]
  by_cases hi : i < parsed.count
  · have hlt : i < ws.length := by rwa [← h.count]
    rw [List.getElem?_range hi, Option.map_some, h.tokenBytes hi, List.getElem?_eq_getElem hlt]
    rfl
  · rw [List.getElem?_eq_none (by simpa using hi), List.getElem?_eq_none (by rw [← h.count]; omega)]
    rfl

theorem Tokenizing.Rep.holds {t : Tokenizing} {r : Reader UInt8} (h : t.Rep r)
    (hword : r.word = none) : t.parsed.Holds r.words := by
  have hall : r.all = r.words := by simp [Reader.all, hword]
  have hoffsets := h.offsets
  have hstorage := h.storage
  have hstorageLen := h.storageLen
  obtain ⟨hwords, hbytes⟩ := h.room
  rw [hall] at hoffsets hstorage hstorageLen hwords hbytes
  refine ⟨h.count, hwords, fun i word hi => ?_⟩
  obtain ⟨hlt, -⟩ := List.getElem?_eq_some_iff.mp hi
  have hoffset : t.parsed.offsets[i]? = some (r.words.take i).flatten.length := by
    rw [← getElem?_used _ hlt, hoffsets, startsOf, List.getElem?_map, List.getElem?_range hlt]
    rfl
  have hlength : t.parsed.lengths[i]? = some word.length := by
    rw [← getElem?_used _ hlt, ← h.count, h.lengths, List.getElem?_map, hi]
    rfl
  obtain ⟨hin, hslice⟩ := flatten_drop_take hi
  refine ⟨_, hoffset, hlength, Nat.le_trans hin hbytes, ?_⟩
  -- the token lies within the filled part of the storage
  rwa [← hstorage, used, List.drop_take, List.take_take, hstorageLen,
    Nat.min_eq_left (by omega)] at hslice

/-- **The reference tokens of a line**: all words, if there is room for them and the line is
closed. -/
def tokenize (line : List UInt8) : Except ParseError (List (List UInt8)) :=
  let r := read marks line
  if ¬ Room r then .error .resourceUnavailable
  else if r.pending then .error .trailingBackslash
  else
    match r.mode with
    | .singleQuoted => .error .unmatchedSingleQuote
    | .doubleQuoted => .error .unmatchedDoubleQuote
    | .unquoted => .ok r.all

/-- The outcomes of `parse`. -/
theorem parse_cases (line : List UInt8) :
    (∃ e, TokenizedCommand.parse line = .error e ∧ tokenize line = .error e) ∨
      ∃ parsed, TokenizedCommand.parse line = .ok parsed ∧
        tokenize line = .ok (read marks line).all ∧ parsed.Holds (read marks line).all := by
  have hparses := Tokenizing.parseFrom_spec line Tokenizing.Rep.start
  rw [TokenizedCommand.parse, tokenize]
  change Tokenizing.Parses (read marks line) _ at hparses
  generalize Tokenizing.start.parseFrom line = result at hparses
  cases hparses with
  | full hfull =>
    rw [if_pos hfull]
    exact .inl ⟨_, rfl, rfl⟩
  | dangling hpending hroom =>
    rw [if_neg (not_not.mpr hroom), if_pos hpending]
    exact .inl ⟨_, rfl, rfl⟩
  | @ok t h =>
    rw [if_neg (not_not.mpr h.room), h.pending]
    dsimp only [bind, Except.bind]
    rw [h.state]
    cases hmode : (read marks line).mode with
    | singleQuoted => exact .inl ⟨_, rfl, rfl⟩
    | doubleQuoted => exact .inl ⟨_, rfl, rfl⟩
    | unquoted =>
      obtain ⟨t', hend, h'⟩ := h.endToken hmode
      have hholds := h'.holds rfl
      dsimp only
      rw [hend]
      exact .inr ⟨t'.parsed, rfl, rfl, hholds⟩

/-- **`parse` finds the reference tokens**, for every line. -/
theorem parse_tokens (line : List UInt8) :
    (TokenizedCommand.parse line).map TokenizedCommand.tokens = tokenize line := by
  rcases parse_cases line with ⟨e, herror, htokens⟩ | ⟨parsed, hok, htokens, hholds⟩
  · rw [herror, htokens]
    rfl
  · rw [hok, htokens]
    exact congrArg Except.ok hholds.tokens

/-! ## Runs -/

/-- **The lines that can be tokenized.** -/
structure Tokenizable (line : List UInt8) : Prop where
  closed : Closed marks line
  count : (words marks line).length ≤ maxCommandArgs
  bytes : (words marks line).flatten.length ≤ lineCapacity

theorem tokenizable_iff {line : List UInt8} :
    Tokenizable line ↔ tokenize line = .ok (read marks line).all := by
  rw [tokenize]
  constructor
  · rintro ⟨⟨hmode, hpending⟩, hcount, hbytes⟩
    rw [← all_read hpending] at hcount hbytes
    have hroom : Room (read marks line) := ⟨hcount, hbytes⟩
    rw [if_neg (not_not.mpr hroom), hpending, hmode]
    rfl
  · intro h
    split_ifs at h with hroom hpending
    have hfalse : (read marks line).pending = false := by simpa using hpending
    obtain ⟨hcount, hbytes⟩ := hroom
    rw [all_read hfalse] at hcount hbytes
    cases hmode : (read marks line).mode with
    | unquoted => exact ⟨⟨hmode, hfalse⟩, hcount, hbytes⟩
    | singleQuoted =>
      rw [hmode] at h
      cases h
    | doubleQuoted =>
      rw [hmode] at h
      cases h

/-- The marks as characters. -/
def charMarks : Marks Char where
  space := ' '
  single := '\''
  double := '"'
  escape := '\\'
  nodup := by decide

/-- The bytes of a character are no marks, unless it is one. -/
theorem spells_utf8 : Spells charMarks marks String.utf8EncodeChar where
  space := by decide
  single := by decide
  double := by decide
  escape := by decide
  plain c hc := by
    refine ⟨String.utf8EncodeChar_ne_nil, fun byte hbyte hmark => hc ?_⟩
    have hmem : ∀ a ∈ charMarks.all, asciiByte a = byte → c ∈ charMarks.all := by
      rintro a ha rfl
      have hascii : a.val.toNat < 128 := by
        simp only [Marks.all, charMarks, List.mem_cons, List.not_mem_nil, or_false] at ha
        rcases ha with rfl | rfl | rfl | rfl
        · decide
        · decide
        · decide
        · decide
      rwa [ascii_mem_utf8EncodeChar hascii hbyte]
    simp only [Marks.all, marks, List.mem_cons, List.not_mem_nil, or_false] at hmark
    rcases hmark with rfl | rfl | rfl | rfl
    · exact hmem ' ' (by decide) rfl
    · exact hmem '\'' (by decide) rfl
    · exact hmem '"' (by decide) rfl
    · exact hmem '\\' (by decide) rfl

/-- **The words of a text are texts.** -/
theorem words_text {text : String} (h : Closed marks (strBytes text)) {word : List UInt8}
    (hword : word ∈ words marks (strBytes text)) : ∃ t, strBytes t = word := by
  rw [← all_read h.2, strBytes_eq_flatMap, read_flatMap spells_utf8, Reader.all_spell] at hword
  obtain ⟨chars, -, rfl⟩ := List.mem_map.mp hword
  refine ⟨String.ofList chars, ?_⟩
  rw [strBytes_eq_flatMap, String.toList_ofList]

/-- **`parse` finds the words of a line.** For every line, it returns its words if they are closed
and there is room for them, and an error otherwise; the words of a text are texts. -/
theorem parse_spec (line : List UInt8) :
    match TokenizedCommand.parse line with
    | .ok parsed => Tokenizable line ∧ parsed.Holds (words marks line) ∧
        (∀ i, i < parsed.count → parsed.tokenBytes i = (words marks line)[i]?) ∧
        (isUtf8 line = true → ∀ i, i < parsed.count → ∃ text, parsed.token i = some text ∧
          (words marks line)[i]? = some (strBytes text))
    | .error _ => ¬ Tokenizable line := by
  rcases parse_cases line with ⟨e, herror, htokens⟩ | ⟨parsed, hok, htokens, hholds⟩
  · rw [herror]
    show ¬ Tokenizable line
    rw [tokenizable_iff, htokens]
    nofun
  · have htokenizable := tokenizable_iff.mpr htokens
    rw [all_read htokenizable.closed.2] at hholds
    have hbytes : ∀ i, i < parsed.count → parsed.tokenBytes i = (words marks line)[i]? :=
      fun i hi => hholds.tokenBytes hi
    rw [hok]
    refine ⟨htokenizable, hholds, hbytes, fun hline i hi => ?_⟩
    obtain ⟨text, rfl⟩ := isUtf8_eq_true.mp hline
    have hlt : i < (words marks (strBytes text)).length := by rwa [← hholds.count]
    obtain ⟨word, hword⟩ := words_text htokenizable.closed (List.getElem_mem hlt)
    have hget := List.getElem?_eq_getElem hlt
    rw [← hword] at hget
    refine ⟨word, ?_, hget⟩
    rw [TokenizedCommand.token, hbytes i hi, hget, Option.bind_some, fromUtf8_strBytes]

end Lazers.Lash
