import Lazers.Kernel.Keyboard
import Mathlib.Data.List.Infix

/-!
# What the scan codes say (`keyboard.rs`)

The driver decodes a byte at a time, with the shift keys and a prefix as its state, into a queue
that may be full. Here the meaning of a stream of scan codes is read off the whole stream instead:

- `plainCodes`: the codes that are not behind a prefix `0xe0`;
- `held`: whether the last of them for some key is a press;
- `eventsIn`: one event for each code of a known key, with the shift keys held at that code.

`driver_follows_stream`: in every run of the driver, polls and pops in any order, the modifiers are
those of the stream, also when events were lost on the way. The events that were popped are events
of the stream in their order, and none is missing as long as the polls fit the queue.
-/

namespace Lazers.Kernel

open Fifo

/-! ## The stream -/

/-- The codes that are not extended ones. -/
def plainCodes : (extended : Bool) → List UInt8 → List UInt8
  | _, [] => []
  | extended, byte :: bytes =>
    if byte = 0xe0 then plainCodes true bytes
    else if extended then plainCodes false bytes
    else byte :: plainCodes false bytes

/-- Whether the next code is an extended one. -/
def awaitsExtended (extended : Bool) (bytes : List UInt8) : Bool :=
  match bytes.getLast? with
  | none => extended
  | some byte => byte = 0xe0

/-- The key of a code. -/
def keyOf (code : UInt8) : KeyCode := decodeKey (code &&& 0x7f)

/-- Whether a code is a press. -/
def stateOf (code : UInt8) : KeyState := if code &&& 0x80 ≠ 0 then .released else .pressed

/-- Whether a key is held down behind some codes: the last code of it is a press. -/
def held (key : KeyCode) (codes : List UInt8) : Bool :=
  ((codes.filter fun code => keyOf code = key).getLast?).any fun code => stateOf code = .pressed

def shiftHeld (codes : List UInt8) : Bool := held .leftShift codes || held .rightShift codes

/-- The event of the last of some codes. -/
def lastEvent (codes : List UInt8) : Option KeyEvent :=
  codes.getLast?.bind fun code =>
    if keyOf code = .unknown then none
    else some { key := keyOf code, state := stateOf code, shiftActive := shiftHeld codes }

/-- **What a stream says**: each code is taken with the codes before it. -/
def eventsIn (bytes : List UInt8) : List KeyEvent :=
  (plainCodes false bytes).inits.filterMap lastEvent

/-- One more byte. -/
theorem plainCodes_concat (extended : Bool) (bytes : List UInt8) (byte : UInt8) :
    plainCodes extended (bytes ++ [byte]) = plainCodes extended bytes ++
      if byte = 0xe0 ∨ awaitsExtended extended bytes then [] else [byte] := by
  induction bytes generalizing extended with
  | nil =>
    show (if byte = 0xe0 then [] else if extended = true then [] else [byte]) =
      [] ++ if byte = 0xe0 ∨ extended = true then [] else [byte]
    by_cases hescape : byte = 0xe0 <;> simp [hescape]
  | cons first bytes ih =>
    -- what is awaited behind a first byte is awaited behind the rest
    have hawaits : awaitsExtended extended (first :: bytes) =
        awaitsExtended (first = 0xe0) bytes := by
      cases bytes with
      | nil => rfl
      | cons next bytes => rfl
    rw [List.cons_append, plainCodes, plainCodes, hawaits]
    by_cases hescape : first = 0xe0
    · rw [if_pos hescape, if_pos hescape, ih, decide_eq_true hescape]
    · rw [if_neg hescape, if_neg hescape, ih, decide_eq_false hescape]
      split_ifs <;> rfl

theorem awaitsExtended_concat (extended : Bool) (bytes : List UInt8) (byte : UInt8) :
    awaitsExtended extended (bytes ++ [byte]) = decide (byte = 0xe0) := by
  rw [awaitsExtended, List.getLast?_concat]

theorem held_concat (key : KeyCode) (codes : List UInt8) (code : UInt8) :
    held key (codes ++ [code]) =
      if keyOf code = key then decide (stateOf code = .pressed) else held key codes := by
  rw [held, List.filter_append]
  by_cases hkey : keyOf code = key
  · simp [hkey]
  · simp [hkey, held]

theorem filterMap_inits_concat (codes : List UInt8) (code : UInt8) :
    (codes ++ [code]).inits.filterMap lastEvent =
      codes.inits.filterMap lastEvent ++ (lastEvent (codes ++ [code])).toList := by
  rw [List.inits_append, List.filterMap_append]
  rfl

/-! ## The driver -/

namespace KeyboardState

/-- The state of the driver behind a stream. -/
structure Follows (k : KeyboardState) (bytes : List UInt8) : Prop where
  left : k.leftShiftActive = held .leftShift (plainCodes false bytes)
  right : k.rightShiftActive = held .rightShift (plainCodes false bytes)
  extended : k.extendedPrefix = awaitsExtended false bytes

theorem follows_new : new.Follows [] := ⟨rfl, rfl, rfl⟩

variable {k : KeyboardState} {bytes : List UInt8}

theorem shiftKeys_left (k : KeyboardState) (event : KeyEvent) :
    (k.shiftKeys event).leftShiftActive =
      if event.key = .leftShift then decide (event.state = .pressed) else k.leftShiftActive := by
  obtain ⟨key, state, shift⟩ := event
  cases key <;> rfl

theorem shiftKeys_right (k : KeyboardState) (event : KeyEvent) :
    (k.shiftKeys event).rightShiftActive =
      if event.key = .rightShift then decide (event.state = .pressed) else k.rightShiftActive := by
  obtain ⟨key, state, shift⟩ := event
  cases key <;> rfl

theorem shiftKeys_extended (k : KeyboardState) (event : KeyEvent) :
    (k.shiftKeys event).extendedPrefix = k.extendedPrefix := by
  rw [shiftKeys]
  split <;> rfl

/-- What `decode_set1` makes of a code. -/
theorem decodeSet1_eq (k : KeyboardState) (code : UInt8) :
    k.decodeSet1 code = if keyOf code = .unknown then none
      else some { key := keyOf code, state := stateOf code, shiftActive := k.shiftActive } := rfl

/-- The part of `process_byte` that the queue has no say in. -/
theorem processByte_modifiers (k : KeyboardState) (byte : UInt8) :
    (k.processByte byte).extendedPrefix = decide (byte = 0xe0) ∧
    (k.processByte byte).leftShiftActive =
      (if (byte ≠ 0xe0 ∧ k.extendedPrefix = false) ∧ keyOf byte = .leftShift then
        decide (stateOf byte = .pressed) else k.leftShiftActive) ∧
    (k.processByte byte).rightShiftActive =
      if (byte ≠ 0xe0 ∧ k.extendedPrefix = false) ∧ keyOf byte = .rightShift then
        decide (stateOf byte = .pressed) else k.rightShiftActive := by
  rw [processByte]
  by_cases hescape : byte = 0xe0
  · rw [if_pos hescape]
    simp [hescape]
  rw [if_neg hescape]
  cases hextended : k.extendedPrefix with
  | true =>
    -- the byte belongs to the prefix
    simp [hescape, decodeExtended]
  | false =>
    rw [if_neg Bool.false_ne_true, decodeSet1_eq]
    by_cases hunknown : keyOf byte = .unknown
    · rw [if_pos hunknown]
      simp [hescape, hunknown, hextended]
    · rw [if_neg hunknown]
      show (k.shiftKeys _).extendedPrefix = _ ∧ (k.shiftKeys _).leftShiftActive = _ ∧
        (k.shiftKeys _).rightShiftActive = _
      rw [shiftKeys_extended, shiftKeys_left, shiftKeys_right]
      simp [hescape, hextended]

/-- **One byte of the stream.** -/
theorem Follows.processByte (h : k.Follows bytes) (byte : UInt8) :
    (k.processByte byte).Follows (bytes ++ [byte]) ∧
      eventsIn (bytes ++ [byte]) = eventsIn bytes ++ (k.eventOf byte).toList := by
  obtain ⟨hextended, hleft, hright⟩ := processByte_modifiers k byte
  have hplain := plainCodes_concat false bytes byte
  rw [← h.extended] at hplain
  by_cases hskip : byte = 0xe0 ∨ k.extendedPrefix = true
  · -- no plain code: nothing is held or released
    rw [if_pos hskip, List.append_nil] at hplain
    have hcode : ¬ (byte ≠ 0xe0 ∧ k.extendedPrefix = false) := by
      rintro ⟨hne, hfalse⟩
      obtain heq | htrue := hskip
      · exact hne heq
      · rw [hfalse] at htrue
        cases htrue
    rw [if_neg fun hand => hcode hand.1] at hleft hright
    refine ⟨⟨?_, ?_, ?_⟩, ?_⟩
    · rw [hleft, hplain, h.left]
    · rw [hright, hplain, h.right]
    · rw [hextended, awaitsExtended_concat]
    · rw [eventsIn, hplain, eventOf, if_pos hskip]
      exact (List.append_nil _).symm
  · rw [if_neg hskip] at hplain
    obtain ⟨hne, hprefix⟩ := not_or.mp hskip
    have hcode : byte ≠ 0xe0 ∧ k.extendedPrefix = false := ⟨hne, Bool.eq_false_iff.mpr hprefix⟩
    rw [if_congr (and_iff_right hcode) rfl rfl, h.left, ← held_concat, ← hplain] at hleft
    rw [if_congr (and_iff_right hcode) rfl rfl, h.right, ← held_concat, ← hplain] at hright
    refine ⟨⟨hleft, hright, ?_⟩, ?_⟩
    · rw [hextended, awaitsExtended_concat]
    · rw [eventsIn, hplain, filterMap_inits_concat, eventOf, if_neg hskip, decodeSet1_eq, lastEvent,
        List.getLast?_concat, Option.bind_some]
      show eventsIn bytes ++ _ = _
      by_cases hunknown : keyOf byte = .unknown
      · rw [if_pos hunknown, if_pos hunknown]
        rfl
      · have hshift : ∀ event : KeyEvent, event.key = keyOf byte → event.state = stateOf byte →
            (k.shiftKeys event).shiftActive = shiftHeld (plainCodes false bytes ++ [byte]) := by
          intro event hkey hstate
          rw [shiftActive, shiftKeys_left, shiftKeys_right, hkey, hstate, h.left, h.right,
            ← held_concat, ← held_concat, shiftHeld]
        rw [if_neg hunknown, if_neg hunknown, Option.map_some, hshift]
        · rfl
        · rfl

/-- **Some bytes of the stream.** -/
theorem Follows.poll (h : k.Follows bytes) (more : List UInt8) :
    (k.poll more).Follows (bytes ++ more) ∧
      eventsIn (bytes ++ more) = eventsIn bytes ++ k.eventsOf more := by
  induction more generalizing k bytes with
  | nil =>
    rw [List.append_nil, eventsOf, List.append_nil]
    exact ⟨h, rfl⟩
  | cons byte more ih =>
    obtain ⟨hnext, hevent⟩ := h.processByte byte
    obtain ⟨hfollows, hevents⟩ := ih hnext
    rw [List.append_assoc, List.singleton_append] at hfollows hevents
    refine ⟨hfollows, ?_⟩
    rw [hevents, hevent, eventsOf, List.append_assoc]

theorem Follows.popEvent (h : k.Follows bytes) : k.popEvent.2.Follows bytes :=
  ⟨h.left, h.right, h.extended⟩

end KeyboardState

/-! ## Runs of the driver -/

/-- **Runs of the driver**, with the bytes that the controller yielded and the events that were
popped. `Q` holds of every poll. -/
inductive DriverRun (Q : KeyboardState → List UInt8 → Prop) :
    KeyboardState → (bytes : List UInt8) → (popped : List KeyEvent) → Prop where
  | start : DriverRun Q KeyboardState.new [] []
  | poll {k : KeyboardState} {bytes : List UInt8} {popped : List KeyEvent}
      (run : DriverRun Q k bytes popped) (more : List UInt8) (holds : Q k more) :
      DriverRun Q (k.poll more) (bytes ++ more) popped
  | pop {k : KeyboardState} {bytes : List UInt8} {popped : List KeyEvent}
      (run : DriverRun Q k bytes popped) :
      DriverRun Q k.popEvent.2 bytes (popped ++ k.popEvent.1.toList)

/-- A poll after which nothing is lost. -/
def KeyboardState.FitsQueue (k : KeyboardState) (more : List UInt8) : Prop :=
  k.queue.len + (k.eventsOf more).length ≤ eventQueueCapacity

/-- One pop. -/
theorem KeyboardState.popEvent_spec {k : KeyboardState} {queued : List KeyEvent}
    (h : k.queue.Rep queued) :
    ∃ rest, k.popEvent.2.queue.Rep rest ∧ k.popEvent.1.toList ++ rest = queued := by
  cases queued with
  | nil =>
    have hpop := h.pop_nil
    refine ⟨[], ?_, ?_⟩
    · show k.queue.pop.2.Rep []
      rw [hpop]
      exact h
    · show k.queue.pop.1.toList ++ [] = []
      rw [hpop]
      rfl
  | cons event rest =>
    obtain ⟨q, hpop, hrep⟩ := h.pop_cons
    refine ⟨rest, ?_, ?_⟩
    · show k.queue.pop.2.Rep rest
      rw [hpop]
      exact hrep
    · show k.queue.pop.1.toList ++ rest = event :: rest
      rw [hpop]
      rfl

/-- **The driver follows the stream.** In every run of polls and pops the modifiers of the driver
are those of the whole stream of bytes so far. What was popped and what is queued are events of
that stream in its order, each with the shift keys held at its code; and if every poll fits the
queue, they are all of them. -/
theorem driver_follows_stream {Q : KeyboardState → List UInt8 → Prop} {k : KeyboardState}
    {bytes : List UInt8} {popped : List KeyEvent} (run : DriverRun Q k bytes popped) :
    k.shiftActive = shiftHeld (plainCodes false bytes) ∧
    k.extendedPrefix = awaitsExtended false bytes ∧
    ∃ queued, k.queue.Rep queued ∧ (popped ++ queued).Sublist (eventsIn bytes) ∧
      ((∀ k more, Q k more → k.FitsQueue more) → popped ++ queued = eventsIn bytes) := by
  suffices h : k.Follows bytes ∧ ∃ queued, k.queue.Rep queued ∧
      (popped ++ queued).Sublist (eventsIn bytes) ∧
      ((∀ k more, Q k more → k.FitsQueue more) → popped ++ queued = eventsIn bytes) by
    obtain ⟨hfollows, hqueued⟩ := h
    refine ⟨?_, hfollows.extended, hqueued⟩
    rw [KeyboardState.shiftActive, hfollows.left, hfollows.right, shiftHeld]
  induction run with
  | start =>
    exact ⟨KeyboardState.follows_new, [], EventQueue.rep_new, List.Sublist.refl _, fun _ => rfl⟩
  | @poll k bytes popped run more holds ih =>
    obtain ⟨hfollows, queued, hrep, hsub, hall⟩ := ih
    obtain ⟨hnext, hevents⟩ := hfollows.poll more
    refine ⟨hnext, _, KeyboardState.poll_queue more hrep, ?_, fun hfits => ?_⟩
    · -- what the queue has no room for is left out
      rw [hevents]
      have htake := (List.take_sublist eventQueueCapacity (queued ++ k.eventsOf more)).append_left
        popped
      rw [← List.append_assoc] at htake
      exact htake.trans (hsub.append_right _)
    · have hroom := hfits k more holds
      have hlen : k.queue.len = queued.length := by
        have hlen := hrep.len_eq
        rwa [List.length_map] at hlen
      rw [KeyboardState.FitsQueue, hlen, ← List.length_append] at hroom
      rw [List.take_of_length_le hroom, ← List.append_assoc, hall hfits, hevents]
  | @pop k bytes popped run ih =>
    obtain ⟨hfollows, queued, hrep, hsub, hall⟩ := ih
    obtain ⟨rest, hrest, hsplit⟩ := KeyboardState.popEvent_spec hrep
    have hmoved : popped ++ k.popEvent.1.toList ++ rest = popped ++ queued := by
      rw [List.append_assoc, hsplit]
    refine ⟨hfollows.popEvent, rest, hrest, ?_, fun hfits => ?_⟩
    · rw [hmoved]
      exact hsub
    · rw [hmoved]
      exact hall hfits

/-- Left shift, an extended code, `1`, and the release of the shift key. -/
theorem driver_follows_stream_at_shifted_one :
    ∃ k, DriverRun KeyboardState.FitsQueue k [0x2a, 0xe0, 0x2a, 0x02, 0xaa] [] ∧
      k.shiftActive = false ∧ ∃ queued, k.queue.Rep queued ∧
        queued = [⟨.leftShift, .pressed, true⟩, ⟨.digit1, .pressed, true⟩,
          ⟨.leftShift, .released, false⟩] := by
  have hfits : KeyboardState.new.FitsQueue [0x2a, 0xe0, 0x2a, 0x02, 0xaa] := by
    show _ ≤ _
    decide +kernel
  have run := DriverRun.start.poll [0x2a, 0xe0, 0x2a, 0x02, 0xaa] hfits
  obtain ⟨hshift, -, queued, hrep, -, hall⟩ := driver_follows_stream run
  refine ⟨_, run, hshift.trans (by decide +kernel), queued, hrep, ?_⟩
  have hevents : eventsIn [0x2a, 0xe0, 0x2a, 0x02, 0xaa] = [⟨.leftShift, .pressed, true⟩,
      ⟨.digit1, .pressed, true⟩, ⟨.leftShift, .released, false⟩] := by decide +kernel
  exact (hall fun _ _ h => h).trans hevents

end Lazers.Kernel
