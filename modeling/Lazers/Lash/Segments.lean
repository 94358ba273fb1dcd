import Lazers.Lash.Tokens

/-!
# Command segments (`lash/src/lib.rs`)

`scan_segments` cuts a line at the operators outside quotes, with an automaton of its own, and
trims the spaces around each piece.

The reference is `splitFrom`, which knows nothing of indices and arrays. It reads the line with
`ShellWords.read`, and cuts it at an operator wherever the piece so far is closed.

- `scanFrom_scans`: one step of the scanner after the other, it cuts where the reference does, or
  the line is `Rejected`.
- `scanSegments_spec`: a line is accepted if and only if it is closed, and blank or cut into at
  most 32 pieces, none of them blank; then the scan `Lists` the pieces, trimmed, and the operators
  between them.
-/

namespace Lazers.Lash

open FixedArray ShellWords

def maxChainSegments : Nat := 32

inductive SegmentOperator where
  | and
  | or
  | sequence
deriving DecidableEq, Repr

structure SegmentScan where
  starts : Vector Nat maxChainSegments
  ends : Vector Nat maxChainSegments
  operators : Vector SegmentOperator (maxChainSegments - 1)
  count : Nat
deriving DecidableEq

/-- `&line[start..stop]`. -/
def slice (line : List UInt8) (start stop : Nat) : List UInt8 := (line.drop start).take (stop - start)

namespace SegmentScan

def new : SegmentScan where
  starts := Vector.replicate _ 0
  ends := Vector.replicate _ 0
  operators := Vector.replicate _ .sequence
  count := 0

def segment (self : SegmentScan) (line : List UInt8) (index : Nat) : Option (List UInt8) :=
  if index ≥ self.count then none
  else do
    let start ← self.starts[index]?
    let stop ← self.ends[index]?
    return slice line start stop

def operatorBefore (self : SegmentScan) (index : Nat) : Option SegmentOperator :=
  if index = 0 ∨ index > self.count - 1 then none else self.operators[index - 1]?

def push (self : SegmentScan) (start stop : Nat) (operator : Option SegmentOperator) :
    Except ParseError SegmentScan :=
  if self.count ≥ maxChainSegments then .error .resourceUnavailable
  else
    let self := { self with
      starts := self.starts.setIfInBounds self.count start
      ends := self.ends.setIfInBounds self.count stop }
    match operator with
    | none => .ok { self with count := self.count + 1 }
    | some operator =>
      if self.count ≥ maxChainSegments - 1 then .error .resourceUnavailable
      else .ok { self with
        operators := self.operators.setIfInBounds self.count operator
        count := self.count + 1 }

end SegmentScan

/-- `while trimmed_start < trimmed_end && bytes[trimmed_start] == b' '`, for `rounds` bytes. -/
def trimStart (bytes : List UInt8) : (rounds start : Nat) → Nat
  | 0, start => start
  | rounds + 1, start =>
    if bytes.getD start 0 = 32 then trimStart bytes rounds (start + 1) else start

/-- `while trimmed_end > trimmed_start && bytes[trimmed_end - 1] == b' '`, down from
`start + rounds`. -/
def trimEnd (bytes : List UInt8) (start : Nat) : (rounds : Nat) → Nat
  | 0 => start
  | rounds + 1 =>
    if bytes.getD (start + rounds) 0 = 32 then trimEnd bytes start rounds else start + rounds + 1

/-- `trim_spaces_range`. -/
def trimSpacesRange (bytes : List UInt8) (start stop : Nat) : Nat × Nat :=
  let trimmedStart := trimStart bytes (stop - start) start
  (trimmedStart, trimEnd bytes trimmedStart (stop - trimmedStart))

/-- What happens at an operator. -/
def cutSegment (line : List UInt8) (segmentStart index : Nat) (operator : SegmentOperator)
    (segments : SegmentScan) : Except ParseError SegmentScan :=
  let (start, stop) := trimSpacesRange line segmentStart index
  if start = stop then .error .invalidSyntax else segments.push start stop (some operator)

/-- The loop of `scan_segments`, on `line[index..]`: the start of the last segment, the state and
the segments before it. -/
def scanFrom (line : List UInt8) : (rest : List UInt8) → (index segmentStart : Nat) →
    ParseState → SegmentScan → Except ParseError (Nat × ParseState × SegmentScan)
  | [], _, segmentStart, state, segments => .ok (segmentStart, state, segments)
  | byte :: rest, index, segmentStart, state, segments =>
    match state with
    | .unquoted =>
      if byte = 39 then scanFrom line rest (index + 1) segmentStart .singleQuoted segments
      else if byte = 34 then scanFrom line rest (index + 1) segmentStart .doubleQuoted segments
      else if byte = 92 then
        match rest with
        | [] => .error .trailingBackslash
        | _ :: rest => scanFrom line rest (index + 2) segmentStart .unquoted segments
      else if byte = 59 then do
        let segments ← cutSegment line segmentStart index .sequence segments
        scanFrom line rest (index + 1) (index + 1) .unquoted segments
      else
        match rest with
        | [] => scanFrom line [] (index + 1) segmentStart .unquoted segments
        | next :: tail =>
          if byte = 38 ∧ next = 38 then do
            let segments ← cutSegment line segmentStart index .and segments
            scanFrom line tail (index + 2) (index + 2) .unquoted segments
          else if byte = 124 ∧ next = 124 then do
            let segments ← cutSegment line segmentStart index .or segments
            scanFrom line tail (index + 2) (index + 2) .unquoted segments
          else scanFrom line (next :: tail) (index + 1) segmentStart .unquoted segments
    | .singleQuoted =>
      scanFrom line rest (index + 1) segmentStart
        (if byte = 39 then .unquoted else .singleQuoted) segments
    | .doubleQuoted =>
      if byte = 34 then scanFrom line rest (index + 1) segmentStart .unquoted segments
      else if byte = 92 then
        match rest with
        | [] => .error .trailingBackslash
        | _ :: rest => scanFrom line rest (index + 2) segmentStart .doubleQuoted segments
      else scanFrom line rest (index + 1) segmentStart .doubleQuoted segments

/-- `scan_segments`. -/
def scanSegments (line : List UInt8) : Except ParseError SegmentScan := do
  let (segmentStart, state, segments) ← scanFrom line line 0 0 .unquoted .new
  match state with
  | .singleQuoted => .error .unmatchedSingleQuote
  | .doubleQuoted => .error .unmatchedDoubleQuote
  | .unquoted =>
    let (start, stop) := trimSpacesRange line segmentStart line.length
    if start = stop then
      if segments.count = 0 then return segments else .error .invalidSyntax
    else segments.push start stop none

example : (scanSegments (strBytes "a && 'b;' ; c")).toOption.map
    (fun scan => (List.range scan.count).map (scan.segment (strBytes "a && 'b;' ; c"))) =
      some (["a", "'b;'", "c"].map fun text => some (strBytes text)) := by
  decide +kernel

/-! ## Trimming -/

/-- A piece without the spaces around it. -/
def trimSpaces (piece : List UInt8) : List UInt8 :=
  ((piece.dropWhile (· = 32)).reverse.dropWhile (· = 32)).reverse

/-- How many bytes of a piece are leading spaces. -/
def leadingSpaces (piece : List UInt8) : Nat := (piece.takeWhile (· = 32)).length

theorem leadingSpaces_append (piece : List UInt8) :
    piece = List.replicate (leadingSpaces piece) 32 ++ piece.dropWhile (· = 32) := by
  have hspaces : piece.takeWhile (· = 32) = List.replicate (leadingSpaces piece) 32 := by
    refine List.eq_replicate_iff.mpr ⟨rfl, fun byte hbyte => ?_⟩
    simpa using List.mem_takeWhile_imp hbyte
  rw [← hspaces, List.takeWhile_append_dropWhile]

/-- Only spaces are trimmed. -/
theorem trimSpaces_append (piece : List UInt8) :
    ∃ m n, piece = List.replicate m 32 ++ trimSpaces piece ++ List.replicate n 32 := by
  refine ⟨leadingSpaces piece, leadingSpaces (piece.dropWhile (· = 32)).reverse, ?_⟩
  have hback := congrArg List.reverse (leadingSpaces_append (piece.dropWhile (· = 32)).reverse)
  rw [List.reverse_reverse, List.reverse_append, List.reverse_replicate] at hback
  rw [List.append_assoc, trimSpaces, ← hback]
  exact leadingSpaces_append piece

theorem trimStart_eq (bytes : List UInt8) (rounds start : Nat) :
    trimStart bytes rounds start = start + leadingSpaces ((bytes.drop start).take rounds) := by
  induction rounds generalizing start with
  | zero => simp [trimStart, leadingSpaces]
  | succ rounds ih =>
    rw [trimStart, List.getD_eq_getElem?_getD]
    cases hdrop : bytes.drop start with
    | nil =>
      have hnone : bytes[start]? = none := by
        rw [← List.head?_drop, hdrop]
        rfl
      simp [hnone, leadingSpaces]
    | cons byte rest =>
      have hsome : bytes[start]? = some byte := by
        rw [← List.head?_drop, hdrop]
        rfl
      have hrest : bytes.drop (start + 1) = rest := by
        rw [← List.drop_drop, hdrop, List.drop_one, List.tail_cons]
      rw [hsome, Option.getD_some, List.take_succ_cons]
      split_ifs with hspace
      · rw [ih, hrest, leadingSpaces, leadingSpaces, List.takeWhile_cons_of_pos (by simpa using hspace),
          List.length_cons]
        omega
      · rw [leadingSpaces, List.takeWhile_cons_of_neg (by simpa using hspace), List.length_nil]
        rfl

theorem trimEnd_eq {bytes : List UInt8} {start rounds : Nat} (h : start + rounds ≤ bytes.length) :
    trimEnd bytes start rounds =
      start + (rounds - leadingSpaces ((bytes.drop start).take rounds).reverse) := by
  induction rounds with
  | zero => simp [trimEnd]
  | succ rounds ih =>
    have hlt : start + rounds < bytes.length := by omega
    have htake : ((bytes.drop start).take (rounds + 1)).reverse =
        bytes[start + rounds] :: ((bytes.drop start).take rounds).reverse := by
      rw [List.take_add_one, List.getElem?_drop, List.getElem?_eq_getElem hlt, Option.toList_some,
        List.reverse_append]
      rfl
    rw [trimEnd, List.getD_eq_getElem _ _ hlt, htake]
    split_ifs with hspace
    · rw [ih (by omega), leadingSpaces, leadingSpaces,
        List.takeWhile_cons_of_pos (by simpa using hspace), List.length_cons]
      omega
    · rw [leadingSpaces, List.takeWhile_cons_of_neg (by simpa using hspace), List.length_nil]
      omega

theorem dropWhile_eq_drop (piece : List UInt8) :
    piece.dropWhile (· = 32) = piece.drop (leadingSpaces piece) := by
  have hsplit := congrArg (List.drop (leadingSpaces piece)) (leadingSpaces_append piece)
  rw [List.drop_left' List.length_replicate] at hsplit
  exact hsplit.symm

/-- `trim_spaces_range` trims. -/
theorem slice_trimSpacesRange {bytes : List UInt8} {start stop : Nat} (hle : start ≤ stop)
    (hlen : stop ≤ bytes.length) :
    slice bytes (trimSpacesRange bytes start stop).1 (trimSpacesRange bytes start stop).2 =
        trimSpaces (slice bytes start stop) ∧
      ((trimSpacesRange bytes start stop).1 = (trimSpacesRange bytes start stop).2 ↔
        trimSpaces (slice bytes start stop) = []) := by
  set piece := slice bytes start stop with hpiece
  set first := (trimSpacesRange bytes start stop).1 with hfirst
  have hpieceLen : piece.length = stop - start := by
    rw [hpiece, slice, List.length_take, List.length_drop]
    omega
  have hlead : leadingSpaces piece ≤ stop - start := by
    rw [← hpieceLen]
    exact (List.takeWhile_sublist _).length_le
  have hstart : first = start + leadingSpaces piece := trimStart_eq bytes (stop - start) start
  -- what is left of the piece, up to its end
  have hrest : (bytes.drop first).take (stop - first) = piece.dropWhile (· = 32) := by
    rw [dropWhile_eq_drop, hpiece, slice, List.drop_take, List.drop_drop, hstart, hpiece, slice,
      Nat.sub_add_eq]
  have hrestLen : (piece.dropWhile (· = 32)).length = stop - first := by
    rw [dropWhile_eq_drop, List.length_drop, hpieceLen, hstart]
    omega
  have hstop : (trimSpacesRange bytes start stop).2 =
      first + ((stop - first) - leadingSpaces (piece.dropWhile (· = 32)).reverse) := by
    rw [← hrest]
    have hbound : first + (stop - first) ≤ bytes.length := by omega
    exact trimEnd_eq hbound
  have htrim : trimSpaces piece = (piece.dropWhile (· = 32)).take
      ((stop - first) - leadingSpaces (piece.dropWhile (· = 32)).reverse) := by
    rw [trimSpaces, dropWhile_eq_drop (piece.dropWhile (· = 32)).reverse, List.reverse_drop,
      List.reverse_reverse, List.length_reverse, hrestLen]
  refine ⟨?_, ?_⟩
  · rw [slice, hstop, Nat.add_sub_cancel_left, htrim, ← hrest, List.take_take,
      Nat.min_eq_left (Nat.sub_le _ _)]
  · rw [hstop, htrim, List.take_eq_nil_iff, ← List.length_eq_zero_iff, hrestLen]
    omega

/-! ## Pieces -/

/-- Nothing but spaces. -/
def Blank (piece : List UInt8) : Prop := ∀ byte ∈ piece, byte = 32

instance (piece : List UInt8) : Decidable (Blank piece) :=
  inferInstanceAs (Decidable (∀ byte ∈ piece, byte = 32))

theorem trimSpaces_eq_nil_iff {piece : List UInt8} : trimSpaces piece = [] ↔ Blank piece := by
  constructor
  · intro h
    obtain ⟨m, n, hspaces⟩ := trimSpaces_append piece
    rw [h, List.append_nil, List.replicate_append_replicate] at hspaces
    intro byte hbyte
    rw [hspaces] at hbyte
    exact List.eq_of_mem_replicate hbyte
  · intro h
    have hdrop : piece.dropWhile (· = 32) = [] := by
      rw [List.dropWhile_eq_nil_iff]
      exact fun byte hbyte => by simpa using h byte hbyte
    rw [trimSpaces, hdrop]
    rfl

/-- A line cut apart: the pieces with the operators behind them, and what comes after. -/
structure Split where
  pieces : List (List UInt8 × SegmentOperator)
  current : List UInt8

namespace Split

def start : Split := ⟨[], []⟩

def add (s : Split) (bytes : List UInt8) : Split := { s with current := s.current ++ bytes }

def cut (s : Split) (operator : SegmentOperator) : Split :=
  ⟨s.pieces ++ [(s.current, operator)], []⟩

/-- The pieces without the operators. -/
def all (s : Split) : List (List UInt8) := s.pieces.map Prod.fst ++ [s.current]

theorem length_all (s : Split) : s.all.length = s.pieces.length + 1 := by
  rw [all, List.length_append, List.length_map, List.length_singleton]

theorem mem_all_iff {s : Split} {piece : List UInt8} :
    piece ∈ s.all ↔ (∃ p ∈ s.pieces, p.1 = piece) ∨ piece = s.current := by
  rw [all, List.mem_append, List.mem_map, List.mem_singleton]

theorem add_add (s : Split) (bytes bytes' : List UInt8) :
    (s.add bytes).add bytes' = s.add (bytes ++ bytes') := by
  rw [add, add, add, List.append_assoc]

end Split

/-- **Cutting a line at its operators**, from left to right. An operator counts where the piece so
far is closed, and any other byte belongs to the piece. -/
def splitFrom : List UInt8 → Split → Split
  | [], s => s
  | byte :: rest, s =>
    if ¬ Closed marks s.current then splitFrom rest (s.add [byte])
    else if byte = 59 then splitFrom rest (s.cut .sequence)
    else
      match rest with
      | [] => s.add [byte]
      | next :: tail =>
        if byte = 38 ∧ next = 38 then splitFrom tail (s.cut .and)
        else if byte = 124 ∧ next = 124 then splitFrom tail (s.cut .or)
        else splitFrom (next :: tail) (s.add [byte])

/-- The pieces of a line between its operators. -/
def pieces (line : List UInt8) : List (List UInt8) := (splitFrom line .start).all

/-- The operators between the pieces. -/
def operatorsOf (line : List UInt8) : List SegmentOperator :=
  (splitFrom line .start).pieces.map Prod.snd

/-- **The lines of the grammar.** -/
def Accepted (line : List UInt8) : Prop :=
  Closed marks line ∧
    (Blank line ∨ (pieces line).length ≤ maxChainSegments ∧ ∀ piece ∈ pieces line, ¬ Blank piece)

instance (line : List UInt8) : Decidable (Accepted line) := inferInstanceAs (Decidable (_ ∧ (_ ∨ _)))

/-- The segments of a line. -/
def segmentsOf (line : List UInt8) : List (List UInt8) :=
  if Blank line then [] else (pieces line).map trimSpaces

section SplitFrom

variable {byte : UInt8} {rest : List UInt8} {s : Split}

theorem splitFrom_open (h : ¬ Closed marks s.current) :
    splitFrom (byte :: rest) s = splitFrom rest (s.add [byte]) := by
  rw [splitFrom.eq_def]
  dsimp only
  rw [if_pos h]

/-- Only `;`, `&` and `|` can end a piece. -/
theorem splitFrom_plain (hsequence : byte ≠ 59) (hand : byte ≠ 38) (hor : byte ≠ 124) :
    splitFrom (byte :: rest) s = splitFrom rest (s.add [byte]) := by
  rw [splitFrom.eq_def]
  dsimp only
  rw [if_neg hsequence]
  split
  · rfl
  · cases rest with
    | nil => rfl
    | cons next tail =>
      dsimp only
      rw [if_neg fun h => hand h.1, if_neg fun h => hor h.1]

/-- What reading `rest` may do: pieces are only added, and only at an operator. -/
def Extends (rest : List UInt8) (s s' : Split) : Prop :=
  ∃ more, s'.pieces = s.pieces ++ more ∧ (more = [] → s'.current = s.current ++ rest) ∧
    (more ≠ [] → ¬ Blank rest)

theorem Extends.nil (s : Split) : Extends [] s s :=
  ⟨[], (List.append_nil _).symm, fun _ => (List.append_nil _).symm, nofun⟩

theorem Extends.add {s' : Split} (h : Extends rest (s.add [byte]) s') :
    Extends (byte :: rest) s s' := by
  obtain ⟨more, hpieces, hcurrent, hblank⟩ := h
  refine ⟨more, hpieces, fun hnil => ?_, fun hne h => hblank hne ?_⟩
  · rw [hcurrent hnil, Split.add, List.append_assoc]
    rfl
  · exact fun b hb => h b (List.mem_cons_of_mem _ hb)

theorem Extends.cut {s' : Split} {tail : List UInt8} {operator : SegmentOperator}
    (hbyte : byte ≠ 32) (h : Extends tail (s.cut operator) s') : Extends (byte :: rest) s s' := by
  obtain ⟨more, hpieces, -, -⟩ := h
  refine ⟨(s.current, operator) :: more, ?_, nofun, fun _ h => hbyte (h byte ?_)⟩
  · rw [hpieces, Split.cut, List.append_assoc]
    rfl
  · exact List.mem_cons_self

theorem extends_splitFrom (rest : List UInt8) (s : Split) : Extends rest s (splitFrom rest s) := by
  fun_induction splitFrom rest s with
  | case1 s => exact .nil s
  | case2 s byte rest hopen ih => exact ih.add
  | case3 s rest hopen ih => exact ih.cut (by decide)
  | case4 s byte hopen hsequence => exact (Extends.nil _).add
  | case5 s byte hopen next tail hsequence hand ih => exact ih.cut (by rw [hand.1]; decide)
  | case6 s byte hopen next tail hsequence hand hor ih => exact ih.cut (by rw [hor.1]; decide)
  | case7 s byte hopen next tail hsequence hand hor ih => exact ih.add

end SplitFrom

/-! ### Quotes in a piece -/

/-- The reader is in `mode` and not behind an escape. -/
def At (r : Reader UInt8) (mode : Mode) : Prop := r.mode = mode ∧ r.pending = false

section At

variable {r : Reader UInt8}

theorem At.openSingle (h : At r .unquoted) : At (step marks r 39) .singleQuoted := by
  rw [step, h.2, h.1]
  exact ⟨rfl, h.2⟩

theorem At.openDouble (h : At r .unquoted) : At (step marks r 34) .doubleQuoted := by
  rw [step, h.2, h.1]
  exact ⟨rfl, h.2⟩

theorem At.escaped {mode : Mode} (h : At r mode) (hmode : mode ≠ .singleQuoted) (byte : UInt8) :
    At (step marks (step marks r 92) byte) mode := by
  have hstep : step marks r 92 = { r with pending := true } := by
    rw [step, h.2, h.1]
    cases mode with
    | unquoted => rfl
    | singleQuoted => exact absurd rfl hmode
    | doubleQuoted => rfl
  rw [hstep, step_escaped marks h.2]
  exact h

/-- A reader behind a backslash. -/
theorem At.pending {mode : Mode} (h : At r mode) (hmode : mode ≠ .singleQuoted) :
    (step marks r 92).pending = true := by
  have hstep := (step_escape (M := marks) (by rwa [h.1] : r.mode ≠ .singleQuoted)).2
  rwa [h.2] at hstep

theorem At.plain (h : At r .unquoted) {byte : UInt8} (hsingle : byte ≠ 39) (hdouble : byte ≠ 34)
    (hescape : byte ≠ 92) : At (step marks r byte) .unquoted := by
  rw [step, h.2, h.1]
  simp only [marks, hsingle, hdouble, hescape, if_false, Bool.false_eq_true]
  split_ifs
  · exact h
  · exact h

theorem At.inSingle (h : At r .singleQuoted) (byte : UInt8) :
    At (step marks r byte) (if byte = 39 then .unquoted else .singleQuoted) := by
  rw [step, h.2, h.1]
  by_cases hsingle : byte = 39
  · rw [if_pos hsingle, hsingle]
    exact ⟨rfl, rfl⟩
  · simp only [marks, hsingle, if_false, Bool.false_eq_true]
    exact h

theorem At.closeDouble (h : At r .doubleQuoted) : At (step marks r 34) .unquoted := by
  rw [step, h.2, h.1]
  exact ⟨rfl, rfl⟩

theorem At.inDouble (h : At r .doubleQuoted) {byte : UInt8} (hdouble : byte ≠ 34)
    (hescape : byte ≠ 92) : At (step marks r byte) .doubleQuoted := by
  rw [step, h.2, h.1]
  simp only [marks, hdouble, hescape, if_false, Bool.false_eq_true]
  exact h

end At

/-! ### The scanner -/

/-- **What the scanner has found so far**: `s` cuts `line` up to `index`. -/
structure ScanRep (line rest : List UInt8) (index segmentStart : Nat) (state : ParseState)
    (segments : SegmentScan) (s : Split) : Prop where
  index : index = segmentStart + s.current.length
  start_le : segmentStart ≤ line.length
  current : line.drop segmentStart = s.current ++ rest
  whole : ∃ before, line = before ++ rest ∧ At (read marks before) state
  quotes : At (read marks s.current) state
  closed : ∀ p ∈ s.pieces, Closed marks p.1
  solid : ∀ p ∈ s.pieces, ¬ Blank p.1
  room : s.pieces.length < maxChainSegments
  count : segments.count = s.pieces.length
  found : (used segments.starts segments.count).zipWith (slice line)
    (used segments.ends segments.count) = s.pieces.map fun p => trimSpaces p.1
  operators : used segments.operators segments.count = s.pieces.map Prod.snd

section Scan

variable {line rest : List UInt8} {index segmentStart : Nat} {state : ParseState}
  {segments : SegmentScan} {s : Split}

theorem ScanRep.start (line : List UInt8) :
    ScanRep line line 0 0 .unquoted .new .start where
  index := rfl
  start_le := Nat.zero_le _
  current := rfl
  whole := ⟨[], rfl, rfl, rfl⟩
  quotes := ⟨rfl, rfl⟩
  closed _ hp := nomatch hp
  solid _ hp := nomatch hp
  room := by decide
  count := rfl
  found := rfl
  operators := rfl

/-- In quotes there are no operators. -/
theorem ScanRep.quoted (h : ScanRep line rest index segmentStart state segments s)
    (hstate : state ≠ .unquoted) : ¬ Closed marks s.current := by
  rintro ⟨hmode, -⟩
  rw [h.quotes.1] at hmode
  exact hstate hmode

/-- The byte behind a backslash belongs to the piece. -/
theorem ScanRep.splitFrom_escaped {next : UInt8}
    (h : ScanRep line (92 :: next :: rest) index segmentStart state segments s)
    (hstate : state ≠ .singleQuoted) :
    splitFrom (92 :: next :: rest) s = splitFrom rest (s.add [92, next]) := by
  have hpending : ¬ Closed marks (s.add [92]).current := by
    rintro ⟨-, hpending⟩
    rw [Split.add, read_append, List.foldl_cons, List.foldl_nil, h.quotes.pending hstate] at hpending
    cases hpending
  rw [splitFrom_plain (by decide) (by decide) (by decide), splitFrom_open hpending, Split.add_add]
  rfl

/-- A backslash at the end of the line. -/
theorem ScanRep.dangling (h : ScanRep line [92] index segmentStart state segments s)
    (hstate : state ≠ .singleQuoted) : ¬ Closed marks line := by
  obtain ⟨before, rfl, hbefore⟩ := h.whole
  rintro ⟨-, hpending⟩
  rw [read_append, List.foldl_cons, List.foldl_nil, hbefore.pending hstate] at hpending
  cases hpending

/-- Bytes are added to the piece. -/
theorem ScanRep.add {bytes : List UInt8} {state' : ParseState}
    (h : ScanRep line (bytes ++ rest) index segmentStart state segments s)
    (hquotes : ∀ r, At r state → At (bytes.foldl (step marks) r) state') :
    ScanRep line rest (index + bytes.length) segmentStart state' segments (s.add bytes) where
  index := by
    rw [Split.add, List.length_append, h.index, Nat.add_assoc]
  start_le := h.start_le
  current := by rw [Split.add, List.append_assoc, h.current]
  whole := by
    obtain ⟨before, hline, hbefore⟩ := h.whole
    refine ⟨before ++ bytes, by rw [hline, List.append_assoc], ?_⟩
    rw [read_append]
    exact hquotes _ hbefore
  quotes := by
    rw [Split.add, read_append]
    exact hquotes _ h.quotes
  closed := h.closed
  solid := h.solid
  room := h.room
  count := h.count
  found := h.found
  operators := h.operators

/-- The part of the line since the last operator. -/
theorem ScanRep.slice_eq (h : ScanRep line rest index segmentStart state segments s) :
    slice line segmentStart index = s.current := by
  rw [slice, h.current, h.index, Nat.add_sub_cancel_left, List.take_left]

theorem ScanRep.index_add (h : ScanRep line rest index segmentStart state segments s) :
    index + rest.length = line.length := by
  have hlen := congrArg List.length h.current
  rw [List.length_drop, List.length_append] at hlen
  have hstart := h.start_le
  have hindex := h.index
  omega

/-- The piece, trimmed. -/
theorem ScanRep.trim (h : ScanRep line rest index segmentStart state segments s) :
    slice line (trimSpacesRange line segmentStart index).1
        (trimSpacesRange line segmentStart index).2 = trimSpaces s.current ∧
      ((trimSpacesRange line segmentStart index).1 = (trimSpacesRange line segmentStart index).2 ↔
        Blank s.current) := by
  have hlen := h.index_add
  have hindex := h.index
  have hle : segmentStart ≤ index := by omega
  have hbound : index ≤ line.length := by omega
  have htrim := slice_trimSpacesRange hle hbound
  rwa [h.slice_eq, trimSpaces_eq_nil_iff] at htrim

/-- **Recording a segment**: there is room for one more, and for an operator behind it only if it
is not the last. -/
theorem push_spec (segments : SegmentScan) (start stop : Nat) (operator : Option SegmentOperator) :
    (∃ e, segments.push start stop operator = .error e ∧
        maxChainSegments ≤ segments.count + operator.toList.length) ∨
      ∃ segments', segments.push start stop operator = .ok segments' ∧
        segments.count + operator.toList.length < maxChainSegments ∧
        segments'.count = segments.count + 1 ∧
        used segments'.starts (segments.count + 1) = used segments.starts segments.count ++ [start] ∧
        used segments'.ends (segments.count + 1) = used segments.ends segments.count ++ [stop] ∧
        used segments'.operators (segments.count + operator.toList.length) =
          used segments.operators segments.count ++ operator.toList := by
  rw [SegmentScan.push]
  split_ifs with hfull
  · exact .inl ⟨_, rfl, Nat.le_trans hfull (Nat.le_add_right _ _)⟩
  · cases operator with
    | none =>
      refine .inr ⟨_, rfl, by simpa using hfull, rfl, used_push _ (by omega),
        used_push _ (by omega), ?_⟩
      exact (List.append_nil _).symm
    | some operator =>
      dsimp only
      split_ifs with hoperators
      · refine .inl ⟨_, rfl, ?_⟩
        rw [Option.toList_some, List.length_singleton]
        omega
      · refine .inr ⟨_, rfl, ?_, rfl, used_push _ (by omega), used_push _ (by omega),
          used_push _ (by omega)⟩
        rw [Option.toList_some, List.length_singleton]
        omega

/-- The slices recorded, with one more. -/
theorem zipWith_push {start stop : Nat} {segments' : SegmentScan}
    (hroom : segments.count < maxChainSegments) (hcount : segments'.count = segments.count + 1)
    (hstarts : used segments'.starts (segments.count + 1) =
      used segments.starts segments.count ++ [start])
    (hends : used segments'.ends (segments.count + 1) = used segments.ends segments.count ++ [stop]) :
    (used segments'.starts segments'.count).zipWith (slice line)
        (used segments'.ends segments'.count) =
      (used segments.starts segments.count).zipWith (slice line)
        (used segments.ends segments.count) ++ [slice line start stop] := by
  rw [hcount, hstarts, hends, List.zipWith_append]
  · rfl
  · rw [length_used _ (by omega), length_used _ (by omega)]

/-- The line cannot be accepted any more. -/
def Rejected (line : List UInt8) (s : Split) : Prop :=
  ¬ Closed marks line ∨ (∃ p ∈ s.pieces, Blank p.1) ∨ maxChainSegments ≤ s.pieces.length

theorem Rejected.extend {s' : Split} (hextends : Extends rest s s') (h : Rejected line s) :
    Rejected line s' := by
  obtain ⟨more, hpieces, -, -⟩ := hextends
  rcases h with hopen | ⟨p, hp, hblank⟩ | hfull
  · exact .inl hopen
  · refine .inr (.inl ⟨p, ?_, hblank⟩)
    rw [hpieces]
    exact List.mem_append_left _ hp
  · refine .inr (.inr ?_)
    rw [hpieces, List.length_append]
    omega

/-- The piece ends at an operator. -/
theorem ScanRep.cut {bytes : List UInt8} (operator : SegmentOperator)
    (h : ScanRep line (bytes ++ rest) index segmentStart .unquoted segments s)
    (hquotes : ∀ r, At r .unquoted → At (bytes.foldl (step marks) r) .unquoted) :
    (∃ e, cutSegment line segmentStart index operator segments = .error e ∧
        Rejected line (s.cut operator)) ∨
      ∃ segments', cutSegment line segmentStart index operator segments = .ok segments' ∧
        ScanRep line rest (index + bytes.length) (index + bytes.length) .unquoted segments'
          (s.cut operator) := by
  obtain ⟨htrim, hblank⟩ := h.trim
  rw [cutSegment]
  dsimp only
  split_ifs with hempty
  · exact .inl ⟨_, rfl, .inr (.inl ⟨_, List.mem_append_right _ (List.mem_singleton.mpr rfl),
      hblank.mp hempty⟩)⟩
  rcases push_spec segments _ _ (some operator) with ⟨e, herror, hfull⟩ |
    ⟨segments', hok, hroom, hcount, hstarts, hends, hoperators⟩
  · refine .inl ⟨e, herror, .inr (.inr ?_)⟩
    rw [Split.cut, List.length_append, ← h.count]
    exact hfull
  · refine .inr ⟨segments', hok, ?_⟩
    have hlen := h.index_add
    rw [List.length_append] at hlen
    have hpieces : (s.cut operator).pieces.length = segments.count + 1 := by
      rw [Split.cut, List.length_append, ← h.count, List.length_singleton]
    refine { index := rfl, start_le := by omega, current := ?_, whole := ?_, quotes := ⟨rfl, rfl⟩
             closed := ?_, solid := ?_, room := by rw [hpieces]; exact hroom
             count := by rw [hpieces, hcount], found := ?_, operators := ?_ }
    · show line.drop (index + bytes.length) = rest
      have hdrop := congrArg (List.drop (s.current.length + bytes.length)) h.current
      rw [List.drop_drop, ← List.append_assoc,
        List.drop_left' (List.length_append ..), ← Nat.add_assoc, ← h.index] at hdrop
      exact hdrop
    · obtain ⟨before, hline, hbefore⟩ := h.whole
      refine ⟨before ++ bytes, by rw [hline, List.append_assoc], ?_⟩
      rw [read_append]
      exact hquotes _ hbefore
    · intro p hp
      rcases List.mem_append.mp hp with hp | hp
      · exact h.closed p hp
      · obtain rfl := List.mem_singleton.mp hp
        exact h.quotes
    · intro p hp
      rcases List.mem_append.mp hp with hp | hp
      · exact h.solid p hp
      · obtain rfl := List.mem_singleton.mp hp
        exact fun hp => hempty (hblank.mpr hp)
    · rw [zipWith_push (by omega) hcount hstarts hends, h.found, htrim, Split.cut, List.map_append]
      rfl
    · rw [hcount, Split.cut, List.map_append, ← h.operators]
      exact hoperators

/-- **What the scanner returns** for a line that is cut into `s`. -/
inductive Scans (line : List UInt8) (s : Split) :
    Except ParseError (Nat × ParseState × SegmentScan) → Prop
  | ok {index segmentStart : Nat} {state : ParseState} {segments : SegmentScan}
      (h : ScanRep line [] index segmentStart state segments s) :
      Scans line s (.ok (segmentStart, state, segments))
  | error {e : ParseError} (h : Rejected line s) : Scans line s (.error e)

/-- After an operator. -/
theorem ScanRep.bind_cut {bytes tail : List UInt8} {operator : SegmentOperator}
    (h : ScanRep line (bytes ++ rest) index segmentStart .unquoted segments s)
    (hquotes : ∀ r, At r .unquoted → At (bytes.foldl (step marks) r) .unquoted)
    {f : SegmentScan → Except ParseError (Nat × ParseState × SegmentScan)}
    (hf : ∀ segments', ScanRep line rest (index + bytes.length) (index + bytes.length) .unquoted
      segments' (s.cut operator) → Scans line (splitFrom tail (s.cut operator)) (f segments')) :
    Scans line (splitFrom tail (s.cut operator))
      (cutSegment line segmentStart index operator segments >>= f) := by
  rcases h.cut operator hquotes with ⟨e, herror, hrejected⟩ | ⟨segments', hok, hrep⟩
  · rw [herror]
    exact .error (hrejected.extend (extends_splitFrom _ _))
  · rw [hok]
    exact hf segments' hrep

/-- **The scanner cuts the line into its pieces**, for every line. -/
theorem scanFrom_scans (h : ScanRep line rest index segmentStart state segments s) :
    Scans line (splitFrom rest s) (scanFrom line rest index segmentStart state segments) := by
  -- escapes and operators take two bytes, so the induction is on the length
  induction hn : rest.length using Nat.strong_induction_on
    generalizing rest index segmentStart state segments s with
  | _ n ih =>
    cases rest with
    | nil => exact .ok h
    | cons byte rest =>
      have hlt : rest.length < n := by
        rw [← hn, List.length_cons]
        omega
      -- a byte that belongs to the piece
      have hadd : ∀ {state'}, splitFrom (byte :: rest) s = splitFrom rest (s.add [byte]) →
          (∀ r, At r state → At (step marks r byte) state') → Scans line (splitFrom (byte :: rest) s)
            (scanFrom line rest (index + 1) segmentStart state' segments) := by
        intro state' hsplit hquotes
        have hrep : ScanRep line ([byte] ++ rest) _ _ _ _ _ := h
        rw [hsplit]
        exact ih rest.length hlt (hrep.add hquotes) rfl
      -- a backslash, and what comes behind it
      have hescape : ∀ {next tail}, byte = 92 → rest = next :: tail → state ≠ .singleQuoted →
          Scans line (splitFrom (byte :: rest) s)
            (scanFrom line tail (index + 2) segmentStart state segments) := by
        rintro next tail rfl rfl hstate
        have hrep : ScanRep line ([92, next] ++ tail) _ _ _ _ _ := h
        rw [h.splitFrom_escaped hstate]
        exact ih tail.length (Nat.lt_trans (Nat.lt_succ_self _) hlt)
          (hrep.add fun r hr => hr.escaped hstate next) rfl
      have hdangling : byte = 92 → rest = [] → state ≠ .singleQuoted → ¬ Closed marks line := by
        rintro rfl rfl hstate
        exact h.dangling hstate
      rw [scanFrom.eq_def]
      dsimp only
      cases state with
      | unquoted =>
        dsimp only
        split
        · rename_i hsingle
          exact hadd (splitFrom_plain (by rw [hsingle]; decide) (by rw [hsingle]; decide)
            (by rw [hsingle]; decide)) fun r hr => hsingle ▸ hr.openSingle
        split
        · rename_i hdouble
          exact hadd (splitFrom_plain (by rw [hdouble]; decide) (by rw [hdouble]; decide)
            (by rw [hdouble]; decide)) fun r hr => hdouble ▸ hr.openDouble
        split
        · rename_i hbyte
          cases rest with
          | nil => exact .error (.inl (hdangling hbyte rfl nofun))
          | cons next tail => exact hescape hbyte rfl nofun
        rename_i hsingle hdouble hbyte
        have hclosed : Closed marks s.current := h.quotes
        have hplain : ∀ r, At r .unquoted → At (step marks r byte) .unquoted :=
          fun r hr => hr.plain hsingle hdouble hbyte
        split
        · rename_i hsequence
          have hrep : ScanRep line ([byte] ++ rest) _ _ _ _ _ := h
          rw [splitFrom.eq_def]
          dsimp only
          rw [if_neg (not_not.mpr hclosed), if_pos hsequence]
          exact hrep.bind_cut hplain fun segments' hrep' => ih rest.length hlt hrep' rfl
        · rename_i hsequence
          rw [splitFrom.eq_def] at hadd ⊢
          dsimp only at hadd ⊢
          rw [if_neg (not_not.mpr hclosed), if_neg hsequence] at hadd ⊢
          cases rest with
          | nil => exact hadd rfl hplain
          | cons next tail =>
            have htail : tail.length < n := Nat.lt_trans (Nat.lt_succ_self _) hlt
            have hoperator : ∀ operator, (byte = 38 ∧ next = 38) ∨ (byte = 124 ∧ next = 124) →
                Scans line (splitFrom tail (s.cut operator)) (do
                  let segments ← cutSegment line segmentStart index operator segments
                  scanFrom line tail (index + 2) (index + 2) .unquoted segments) := by
              intro operator hbytes
              have hrep : ScanRep line ([byte, next] ++ tail) _ _ _ _ _ := h
              refine hrep.bind_cut (fun r hr => ?_) fun segments' hrep' => ih tail.length htail hrep' rfl
              rcases hbytes with ⟨rfl, rfl⟩ | ⟨rfl, rfl⟩
              · exact (hr.plain (by decide) (by decide) (by decide)).plain (by decide) (by decide)
                  (by decide)
              · exact (hr.plain (by decide) (by decide) (by decide)).plain (by decide) (by decide)
                  (by decide)
            dsimp only at hadd ⊢
            split_ifs at hadd ⊢ with hand hor
            · exact hoperator .and (.inl hand)
            · exact hoperator .or (.inr hor)
            · exact hadd rfl hplain
      | singleQuoted =>
        dsimp only
        exact hadd (splitFrom_open (h.quoted nofun)) fun r hr => hr.inSingle byte
      | doubleQuoted =>
        have hopen := h.quoted nofun
        dsimp only
        split_ifs with hdouble hbyte
        · exact hadd (splitFrom_open hopen) fun r hr => hdouble ▸ hr.closeDouble
        · cases rest with
          | nil => exact .error (.inl (hdangling hbyte rfl nofun))
          | cons next tail => exact hescape hbyte rfl nofun
        · exact hadd (splitFrom_open hopen) fun r hr => hr.inDouble hdouble hbyte

end Scan

/-! ## What is accepted -/

/-- **The scan holds the segments of the line**, and the operators between them. -/
structure SegmentScan.Lists (scan : SegmentScan) (line : List UInt8) : Prop where
  count : scan.count = (segmentsOf line).length
  segment : ∀ i, scan.segment line i = (segmentsOf line)[i]?
  operatorBefore : ∀ i, scan.operatorBefore i = if i = 0 then none else (operatorsOf line)[i - 1]?

theorem SegmentScan.segment_eq (scan : SegmentScan) (line : List UInt8) (i : Nat) :
    scan.segment line i =
      ((used scan.starts scan.count).zipWith (slice line) (used scan.ends scan.count))[i]? := by
  rw [SegmentScan.segment, List.getElem?_zipWith]
  by_cases hi : i ≥ scan.count
  · rw [if_pos hi, used, List.getElem?_take_eq_none hi]
  · rw [if_neg hi, getElem?_used _ (by omega), getElem?_used _ (by omega)]
    cases scan.starts[i]? with
    | none => rfl
    | some start => cases scan.ends[i]? <;> rfl

theorem SegmentScan.operatorBefore_eq (scan : SegmentScan) (i : Nat) :
    scan.operatorBefore i =
      if i = 0 then none else (used scan.operators (scan.count - 1))[i - 1]? := by
  rw [SegmentScan.operatorBefore]
  by_cases hzero : i = 0
  · rw [if_pos (.inl hzero), if_pos hzero]
  rw [if_neg hzero]
  by_cases hlast : i > scan.count - 1
  · rw [if_pos (.inr hlast), used, List.getElem?_take_eq_none (by omega)]
  · rw [if_neg (by omega), getElem?_used _ (by omega)]

/-- A line without operators is one piece. -/
theorem pieces_eq_nil {line : List UInt8} (h : (splitFrom line .start).pieces = []) :
    (splitFrom line .start).current = line := by
  obtain ⟨more, hmore, hcurrent, -⟩ := extends_splitFrom line .start
  refine hcurrent ?_
  rw [h] at hmore
  exact (List.append_eq_nil_iff.mp hmore.symm).2

theorem not_blank_of_pieces {line : List UInt8} (h : (splitFrom line .start).pieces ≠ []) :
    ¬ Blank line := by
  obtain ⟨more, hmore, -, hblank⟩ := extends_splitFrom line .start
  refine hblank fun hnil => h ?_
  rw [hmore, hnil]
  rfl

theorem Rejected.not_accepted {line : List UInt8} (h : Rejected line (splitFrom line .start)) :
    ¬ Accepted line := by
  rintro ⟨hclosed, haccepted⟩
  rcases h with hopen | ⟨p, hp, hblank⟩ | hfull
  · exact hopen hclosed
  · rcases haccepted with hline | ⟨-, hsolid⟩
    · exact not_blank_of_pieces (List.ne_nil_of_mem hp) hline
    · exact hsolid p.1 (Split.mem_all_iff.mpr (.inl ⟨p, hp, rfl⟩)) hblank
  · rcases haccepted with hline | ⟨hlen, -⟩
    · refine not_blank_of_pieces (fun hnil => ?_) hline
      rw [hnil] at hfull
      exact absurd hfull (by decide)
    · rw [pieces, Split.length_all] at hlen
      omega

/-- A blank line has no segments. -/
theorem SegmentScan.lists_of_blank {scan : SegmentScan} {line : List UInt8} (hblank : Blank line)
    (hcount : scan.count = 0) : scan.Lists line := by
  have hsegments : segmentsOf line = [] := if_pos hblank
  have hoperators : operatorsOf line = [] := by
    rw [operatorsOf, List.map_eq_nil_iff]
    by_contra hpieces
    exact not_blank_of_pieces hpieces hblank
  refine ⟨by rw [hcount, hsegments]; rfl, fun i => ?_, fun i => ?_⟩
  · rw [scan.segment_eq, hcount, hsegments]
    rfl
  · rw [scan.operatorBefore_eq, hcount, hoperators]
    rfl

/-- The last segment is recorded. -/
theorem ScanRep.lists_of_push {line : List UInt8} {index segmentStart start stop : Nat}
    {segments segments' : SegmentScan}
    (h : ScanRep line [] index segmentStart .unquoted segments (splitFrom line .start))
    (hblank : ¬ Blank line)
    (htrim : slice line start stop = trimSpaces (splitFrom line .start).current)
    (hpush : segments.push start stop none = .ok segments') : segments'.Lists line := by
  have hsegments : segmentsOf line = (pieces line).map trimSpaces := if_neg hblank
  rcases push_spec segments start stop none with ⟨e, herror, -⟩ |
    ⟨_, hok, hroom, hcount, hstarts, hends, hoperators⟩
  · rw [herror] at hpush
    cases hpush
  rw [hok] at hpush
  cases hpush
  refine ⟨?_, fun i => ?_, fun i => ?_⟩
  · rw [hcount, h.count, hsegments, List.length_map, pieces, Split.length_all]
  · rw [SegmentScan.segment_eq, zipWith_push hroom hcount hstarts hends, h.found, htrim, hsegments,
      pieces, Split.all, List.map_append, List.map_map]
    rfl
  · rw [Option.toList_none, List.append_nil, h.operators] at hoperators
    rw [SegmentScan.operatorBefore_eq, hcount, Nat.add_sub_cancel, operatorsOf, ← hoperators]
    rfl

/-- The outcomes of `scan_segments`. -/
theorem scanSegments_cases (line : List UInt8) :
    (∃ e, scanSegments line = .error e ∧ ¬ Accepted line) ∨
      ∃ scan, scanSegments line = .ok scan ∧ Accepted line ∧ scan.Lists line ∧
        ∀ piece ∈ pieces line, Closed marks piece := by
  have hscans := scanFrom_scans (ScanRep.start line)
  rw [scanSegments]
  generalize scanFrom line line 0 0 .unquoted .new = result at hscans
  cases hscans with
  | error hrejected => exact .inl ⟨_, rfl, hrejected.not_accepted⟩
  | @ok index segmentStart state segments h =>
    obtain ⟨before, hline, hquotes⟩ := h.whole
    rw [List.append_nil] at hline
    subst hline
    have hopen : state ≠ .unquoted → ¬ Accepted line := by
      rintro hstate ⟨⟨hmode, -⟩, -⟩
      rw [hquotes.1] at hmode
      exact hstate hmode
    cases state with
    | singleQuoted => exact .inl ⟨_, rfl, hopen nofun⟩
    | doubleQuoted => exact .inl ⟨_, rfl, hopen nofun⟩
    | unquoted =>
      have hclosed : ∀ piece ∈ pieces line, Closed marks piece := by
        intro piece hpiece
        rcases Split.mem_all_iff.mp hpiece with ⟨p, hp, rfl⟩ | rfl
        · exact h.closed p hp
        · exact h.quotes
      have hindex := h.index_add
      rw [List.length_nil, Nat.add_zero] at hindex
      obtain ⟨htrim, hblank⟩ := h.trim
      rw [hindex] at htrim hblank
      dsimp only [bind, Except.bind]
      split_ifs with hempty hnone
      · -- a blank line
        rw [h.count] at hnone
        have hline : Blank line := by
          have hcurrent := hblank.mp hempty
          rwa [pieces_eq_nil (List.length_eq_zero_iff.mp hnone)] at hcurrent
        exact .inr ⟨_, rfl, ⟨hquotes, .inl hline⟩,
          SegmentScan.lists_of_blank hline (h.count.trans hnone), hclosed⟩
      · -- a blank piece after the last operator
        rw [h.count] at hnone
        refine .inl ⟨_, rfl, ?_⟩
        rintro ⟨-, hline | ⟨-, hsolid⟩⟩
        · exact not_blank_of_pieces (fun hnil => hnone (by rw [hnil]; rfl)) hline
        · exact hsolid _ (Split.mem_all_iff.mpr (.inr rfl)) (hblank.mp hempty)
      · have hsolid : ∀ piece ∈ pieces line, ¬ Blank piece := by
          intro piece hpiece
          rcases Split.mem_all_iff.mp hpiece with ⟨p, hp, rfl⟩ | rfl
          · exact h.solid p hp
          · exact fun hcurrent => hempty (hblank.mpr hcurrent)
        have hline : ¬ Blank line := by
          by_cases hpieces : (splitFrom line .start).pieces = []
          · have hcurrent := hsolid _ (Split.mem_all_iff.mpr (.inr rfl))
            rwa [pieces_eq_nil hpieces] at hcurrent
          · exact not_blank_of_pieces hpieces
        have hlen : (pieces line).length ≤ maxChainSegments := by
          rw [pieces, Split.length_all]
          exact h.room
        rcases push_spec segments _ _ none with ⟨e, -, hfull⟩ | ⟨segments', hok, -⟩
        · have hroom := h.room
          rw [← h.count] at hroom
          exact absurd hfull (Nat.not_le.mpr hroom)
        · exact .inr ⟨segments', hok, ⟨hquotes, .inr ⟨hlen, hsolid⟩⟩,
            h.lists_of_push hline htrim hok, hclosed⟩

/-- **`scan_segments` accepts its grammar**: for every line, it returns its segments and operators
if the line belongs to the grammar, and an error otherwise. -/
theorem scanSegments_spec (line : List UInt8) :
    match scanSegments line with
    | .ok scan => Accepted line ∧ scan.Lists line
    | .error _ => ¬ Accepted line := by
  rcases scanSegments_cases line with ⟨e, herror, hrejected⟩ | ⟨scan, hok, haccepted, hlists, -⟩
  · rw [herror]
    exact hrejected
  · rw [hok]
    exact ⟨haccepted, hlists⟩

end Lazers.Lash
