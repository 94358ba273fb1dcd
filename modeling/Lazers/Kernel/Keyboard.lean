import Lazers.Kernel.Terminal
import Lazers.Lib.Fifo

/-!
# The keyboard (`keyboard.rs`)

`process_byte` decodes the scan codes of set 1 one byte at a time and keeps the shift keys and the
prefix `0xe0` between bytes. What it decodes goes into a queue of 64 events, from which the
terminal takes it.

- `KeyboardState.poll_queue`: from any bytes of the controller the queue gets the events decoded
  from them, in order, as far as there is room.
- `bounded_queues_fifo`: this queue and the byte queues of the terminal are first in, first out,
  in every run.
-/

namespace Lazers.Kernel

open Fifo

def eventQueueCapacity : Nat := 64

inductive KeyState where
  | pressed
  | released
deriving DecidableEq, Repr

inductive KeyCode where
  | a | b | c | d | e | f | g | h | i | j | k | l | m | n | o | p | q | r | s | t | u | v | w
  | x | y | z | digit0 | digit1 | digit2 | digit3 | digit4 | digit5 | digit6 | digit7 | digit8
  | digit9 | space | minus | equals | leftBracket | rightBracket | backslash | semicolon
  | apostrophe | grave | comma | period | slash | enter | backspace | leftShift | rightShift
  | unknown
deriving DecidableEq, Repr

structure KeyEvent where
  key : KeyCode
  state : KeyState
  shiftActive : Bool
deriving DecidableEq, Repr

/-- `decode_key`. -/
def decodeKey (scanCode : UInt8) : KeyCode :=
  match scanCode with
  | 0x02 => .digit1
  | 0x03 => .digit2
  | 0x04 => .digit3
  | 0x05 => .digit4
  | 0x06 => .digit5
  | 0x07 => .digit6
  | 0x08 => .digit7
  | 0x09 => .digit8
  | 0x0a => .digit9
  | 0x0b => .digit0
  | 0x0c => .minus
  | 0x0d => .equals
  | 0x0e => .backspace
  | 0x10 => .q
  | 0x11 => .w
  | 0x12 => .e
  | 0x13 => .r
  | 0x14 => .t
  | 0x15 => .y
  | 0x16 => .u
  | 0x17 => .i
  | 0x18 => .o
  | 0x19 => .p
  | 0x1a => .leftBracket
  | 0x1b => .rightBracket
  | 0x1c => .enter
  | 0x1e => .a
  | 0x1f => .s
  | 0x20 => .d
  | 0x21 => .f
  | 0x22 => .g
  | 0x23 => .h
  | 0x24 => .j
  | 0x25 => .k
  | 0x26 => .l
  | 0x27 => .semicolon
  | 0x28 => .apostrophe
  | 0x29 => .grave
  | 0x2a => .leftShift
  | 0x2b => .backslash
  | 0x2c => .z
  | 0x2d => .x
  | 0x2e => .c
  | 0x2f => .v
  | 0x30 => .b
  | 0x31 => .n
  | 0x32 => .m
  | 0x33 => .comma
  | 0x34 => .period
  | 0x35 => .slash
  | 0x36 => .rightShift
  | 0x39 => .space
  | _ => .unknown

/-! ## The queue -/

structure EventQueue where
  entries : Vector (Option KeyEvent) eventQueueCapacity
  readIndex : Nat
  writeIndex : Nat
  len : Nat
deriving DecidableEq

namespace EventQueue

def new : EventQueue where
  entries := Vector.replicate eventQueueCapacity none
  readIndex := 0
  writeIndex := 0
  len := 0

/-- `EventQueue::push`. -/
def push (q : EventQueue) (event : KeyEvent) : Bool × EventQueue :=
  if q.len ≥ eventQueueCapacity then (false, q)
  else (true, { q with
    entries := q.entries.setIfInBounds q.writeIndex (some event)
    writeIndex := (q.writeIndex + 1) % eventQueueCapacity
    len := q.len + 1 })

/-- `EventQueue::pop`: `take` leaves `None` in the slot. -/
def pop (q : EventQueue) : Option KeyEvent × EventQueue :=
  if q.len = 0 then (none, q)
  else (q.entries[q.readIndex]?.join, { q with
    entries := q.entries.setIfInBounds q.readIndex none
    readIndex := (q.readIndex + 1) % eventQueueCapacity
    len := q.len - 1 })

/-- The queued events. No slot in use is empty. -/
def Rep (q : EventQueue) (l : List KeyEvent) : Prop :=
  Ring.Holds q.entries q.readIndex q.writeIndex q.len (l.map some)

variable {q : EventQueue} {l : List KeyEvent}

theorem rep_new : new.Rep [] := Ring.Holds.empty (by decide)

/-- A push appends, unless the queue is full. -/
theorem Rep.push_cases (h : q.Rep l) (event : KeyEvent) :
    (l.length < eventQueueCapacity ∧
      ∃ q', q.push event = (true, q') ∧ q'.Rep (l ++ [event])) ∨
    (l.length = eventQueueCapacity ∧ q.push event = (false, q)) := by
  have hlen := h.len_eq
  have hle := h.len_le
  rw [List.length_map] at hlen hle
  rw [push]
  by_cases hfull : q.len ≥ eventQueueCapacity
  · rw [if_pos hfull]
    exact .inr ⟨by omega, rfl⟩
  · rw [if_neg hfull]
    refine .inl ⟨by omega, _, rfl, ?_⟩
    rw [Rep, List.map_append]
    exact Ring.Holds.push h (by rw [List.length_map]; omega) (some event)

theorem Rep.pop_nil (h : q.Rep []) : q.pop = (none, q) := by
  have hlen : q.len = 0 := h.len_eq
  rw [pop, if_pos hlen]

/-- A pop takes the first event. -/
theorem Rep.pop_cons {event : KeyEvent} (h : q.Rep (event :: l)) :
    ∃ q', q.pop = (some event, q') ∧ q'.Rep l := by
  obtain ⟨hevent, -⟩ := Ring.Holds.pop h
  have hlen := h.len_eq
  rw [List.length_map, List.length_cons] at hlen
  rw [pop, if_neg (by omega), hevent]
  exact ⟨_, rfl, Ring.Holds.pop_set h none⟩

end EventQueue

/-! ## Decoding -/

structure KeyboardState where
  leftShiftActive : Bool
  rightShiftActive : Bool
  extendedPrefix : Bool
  queue : EventQueue

namespace KeyboardState

def new : KeyboardState where
  leftShiftActive := false
  rightShiftActive := false
  extendedPrefix := false
  queue := EventQueue.new

/-- `shift_active`. -/
def shiftActive (k : KeyboardState) : Bool := k.leftShiftActive || k.rightShiftActive

/-- `decode_set1`. -/
def decodeSet1 (k : KeyboardState) (byte : UInt8) : Option KeyEvent :=
  let released := byte &&& 0x80 ≠ 0
  let key := decodeKey (byte &&& 0x7f)
  if key = .unknown then none
  else some { key, state := if released then .released else .pressed, shiftActive := k.shiftActive }

/-- `decode_extended`: no extended key is known. -/
def decodeExtended (k : KeyboardState) (byte : UInt8) : Option KeyEvent :=
  let released := byte &&& 0x80 ≠ 0
  let key := KeyCode.unknown
  if key = .unknown then none
  else some { key, state := if released then .released else .pressed, shiftActive := k.shiftActive }

/-- The update of the shift keys in `process_byte`. -/
def shiftKeys (k : KeyboardState) (event : KeyEvent) : KeyboardState :=
  match event.key with
  | .leftShift => { k with leftShiftActive := event.state = .pressed }
  | .rightShift => { k with rightShiftActive := event.state = .pressed }
  | _ => k

/-- `process_byte`. -/
def processByte (k : KeyboardState) (byte : UInt8) : KeyboardState :=
  if byte = 0xe0 then { k with extendedPrefix := true }
  else
    let (event, k) :=
      if k.extendedPrefix then
        let k := { k with extendedPrefix := false }
        (k.decodeExtended byte, k)
      else (k.decodeSet1 byte, k)
    match event with
    | none => k
    | some event =>
      let k := k.shiftKeys event
      let event := { event with shiftActive := k.shiftActive }
      { k with queue := (k.queue.push event).2 }

/-- `poll`, with the bytes that `read_controller_byte` yields. -/
def poll (k : KeyboardState) (bytes : List UInt8) : KeyboardState := bytes.foldl processByte k

/-- The event that a byte completes. -/
def eventOf (k : KeyboardState) (byte : UInt8) : Option KeyEvent :=
  if byte = 0xe0 ∨ k.extendedPrefix then none
  else (k.decodeSet1 byte).map fun event =>
    { event with shiftActive := (k.shiftKeys event).shiftActive }

/-- The events of the bytes. -/
def eventsOf : KeyboardState → List UInt8 → List KeyEvent
  | _, [] => []
  | k, byte :: bytes => (k.eventOf byte).toList ++ eventsOf (k.processByte byte) bytes

theorem queue_shiftKeys (k : KeyboardState) (event : KeyEvent) :
    (k.shiftKeys event).queue = k.queue := by
  rw [shiftKeys]
  split <;> rfl

/-- **One byte** makes at most one push. -/
theorem queue_processByte (k : KeyboardState) (byte : UInt8) :
    (k.processByte byte).queue =
      match k.eventOf byte with
      | none => k.queue
      | some event => (k.queue.push event).2 := by
  rw [processByte, eventOf]
  by_cases hescape : byte = 0xe0
  · rw [if_pos hescape, if_pos (.inl hescape)]
  · rw [if_neg hescape]
    by_cases hextended : k.extendedPrefix = true
    · rw [if_pos hextended, if_pos (.inr hextended)]
      rfl
    · rw [if_neg hextended, if_neg (not_or.mpr ⟨hescape, hextended⟩)]
      dsimp only
      cases k.decodeSet1 byte with
      | none => rfl
      | some event =>
        rw [Option.map_some]
        dsimp only
        rw [queue_shiftKeys]

/-- **A whole poll.** -/
theorem poll_queue (bytes : List UInt8) {k : KeyboardState} {l : List KeyEvent}
    (h : k.queue.Rep l) :
    (k.poll bytes).queue.Rep ((l ++ k.eventsOf bytes).take eventQueueCapacity) := by
  induction bytes generalizing k l with
  | nil =>
    have hle := h.len_le
    rw [List.length_map] at hle
    rw [eventsOf, List.append_nil, List.take_of_length_le hle]
    exact h
  | cons byte bytes ih =>
    have hqueue := queue_processByte k byte
    rw [eventsOf]
    show ((k.processByte byte).poll bytes).queue.Rep _
    cases hevent : k.eventOf byte with
    | none =>
      rw [hevent] at hqueue
      exact ih (by rw [hqueue]; exact h)
    | some event =>
      rw [hevent] at hqueue
      dsimp only at hqueue
      rw [Option.toList_some, List.singleton_append]
      obtain ⟨-, q, hpush, hrep⟩ | ⟨hfull, hpush⟩ := h.push_cases event
      · have hnext := ih (by rw [hqueue, hpush]; exact hrep)
        rwa [List.append_assoc, List.singleton_append] at hnext
      · -- the queue is full, and what is decoded from here on is lost
        have hnext := ih (by rw [hqueue, hpush]; exact h)
        rw [List.take_append_of_le_length (Nat.le_of_eq hfull.symm)] at hnext ⊢
        exact hnext

end KeyboardState

/-! ## Input bytes -/

/-- `shifted_byte`. -/
def shiftedByte (normal shifted : UInt8) (shiftActive : Bool) : UInt8 :=
  if shiftActive then shifted else normal

/-- `key_event_to_input_byte`. -/
def keyEventToInputByte (event : KeyEvent) : Option UInt8 :=
  if event.state ≠ .pressed then none
  else
    let shifted := event.shiftActive
    match event.key with
    | .enter => some 10
    | .backspace => some 0x7f
    | .a => some (shiftedByte 97 65 shifted)
    | .b => some (shiftedByte 98 66 shifted)
    | .c => some (shiftedByte 99 67 shifted)
    | .d => some (shiftedByte 100 68 shifted)
    | .e => some (shiftedByte 101 69 shifted)
    | .f => some (shiftedByte 102 70 shifted)
    | .g => some (shiftedByte 103 71 shifted)
    | .h => some (shiftedByte 104 72 shifted)
    | .i => some (shiftedByte 105 73 shifted)
    | .j => some (shiftedByte 106 74 shifted)
    | .k => some (shiftedByte 107 75 shifted)
    | .l => some (shiftedByte 108 76 shifted)
    | .m => some (shiftedByte 109 77 shifted)
    | .n => some (shiftedByte 110 78 shifted)
    | .o => some (shiftedByte 111 79 shifted)
    | .p => some (shiftedByte 112 80 shifted)
    | .q => some (shiftedByte 113 81 shifted)
    | .r => some (shiftedByte 114 82 shifted)
    | .s => some (shiftedByte 115 83 shifted)
    | .t => some (shiftedByte 116 84 shifted)
    | .u => some (shiftedByte 117 85 shifted)
    | .v => some (shiftedByte 118 86 shifted)
    | .w => some (shiftedByte 119 87 shifted)
    | .x => some (shiftedByte 120 88 shifted)
    | .y => some (shiftedByte 121 89 shifted)
    | .z => some (shiftedByte 122 90 shifted)
    | .digit0 => some (shiftedByte 48 41 shifted)
    | .digit1 => some (shiftedByte 49 33 shifted)
    | .digit2 => some (shiftedByte 50 64 shifted)
    | .digit3 => some (shiftedByte 51 35 shifted)
    | .digit4 => some (shiftedByte 52 36 shifted)
    | .digit5 => some (shiftedByte 53 37 shifted)
    | .digit6 => some (shiftedByte 54 94 shifted)
    | .digit7 => some (shiftedByte 55 38 shifted)
    | .digit8 => some (shiftedByte 56 42 shifted)
    | .digit9 => some (shiftedByte 57 40 shifted)
    | .space => some 32
    | .minus => some (shiftedByte 45 95 shifted)
    | .equals => some (shiftedByte 61 43 shifted)
    | .leftBracket => some (shiftedByte 91 123 shifted)
    | .rightBracket => some (shiftedByte 93 125 shifted)
    | .backslash => some (shiftedByte 92 124 shifted)
    | .semicolon => some (shiftedByte 59 58 shifted)
    | .apostrophe => some (shiftedByte 39 34 shifted)
    | .grave => some (shiftedByte 96 126 shifted)
    | .comma => some (shiftedByte 44 60 shifted)
    | .period => some (shiftedByte 46 62 shifted)
    | .slash => some (shiftedByte 47 63 shifted)
    | .leftShift | .rightShift | .unknown => none

/-- `TerminalSurface::handle_key_event`. -/
def Console.handleKeyEvent (c : Console) (endpoint : EndpointRef) (event : KeyEvent) : Console :=
  match keyEventToInputByte event with
  | none => c
  | some byte => (c.pushInputByte endpoint byte).2

/-- `pop_event`. -/
def KeyboardState.popEvent (k : KeyboardState) : Option KeyEvent × KeyboardState :=
  let (event, queue) := k.queue.pop
  (event, { k with queue })

/-- The loop of `terminal_thread_entry` over the events: there are as many rounds as events. -/
def handleEvents (endpoint : EndpointRef) : (rounds : Nat) → KeyboardState → Console →
    KeyboardState × Console
  | 0, k, c => (k, c)
  | rounds + 1, k, c =>
    match k.popEvent with
    | (none, k) => (k, c)
    | (some event, k) => handleEvents endpoint rounds k (c.handleKeyEvent endpoint event)

/-- The input queue of an endpoint holds `l`. -/
def Console.Typed (c : Console) (endpoint : EndpointRef) (l : List UInt8) : Prop :=
  (c.endpoints endpoint).input.Rep l

/-- One event puts at most one byte into the queue, and a byte that finds it full is lost. -/
theorem Console.Typed.handleKeyEvent {c : Console} {endpoint : EndpointRef} {l : List UInt8}
    (h : c.Typed endpoint l) (event : KeyEvent) :
    (c.handleKeyEvent endpoint event).Typed endpoint
      ((l ++ (keyEventToInputByte event).toList).take terminalInputCapacity) := by
  have hle : l.length ≤ terminalInputCapacity := Ring.Holds.len_le h
  rw [Console.handleKeyEvent]
  cases keyEventToInputByte event with
  | none =>
    rw [Option.toList_none, List.append_nil, List.take_of_length_le hle]
    exact h
  | some byte =>
    rw [Option.toList_some]
    dsimp only
    rw [Typed, Console.pushInputByte, update_self]
    obtain ⟨hroom, q, hpush, hrep⟩ | ⟨hfull, hpush⟩ := ByteQueue.Rep.push_cases h byte
    · rw [hpush, List.take_of_length_le]
      · exact hrep
      · rw [List.length_append]
        exact hroom
    · rw [hpush, List.take_append_of_le_length (Nat.le_of_eq hfull.symm),
        List.take_of_length_le hle]
      exact h

theorem take_append_take {α : Type} (n : Nat) (a b : List α) :
    (a.take n ++ b).take n = (a ++ b).take n := by
  rw [List.take_append, List.take_append, List.take_take, Nat.min_self, List.length_take]
  by_cases hlen : n ≤ a.length
  · rw [Nat.min_eq_left hlen, Nat.sub_self, Nat.sub_eq_zero_of_le hlen]
  · rw [Nat.min_eq_right (by omega)]

/-- **What was typed arrives in order**, as far as there is room. -/
theorem handleEvents_spec {endpoint : EndpointRef} {events : List KeyEvent} {k : KeyboardState}
    {c : Console} {l : List UInt8} (hk : k.queue.Rep events) (hc : c.Typed endpoint l) :
    (handleEvents endpoint events.length k c).1.queue.Rep [] ∧
      (handleEvents endpoint events.length k c).2.Typed endpoint
        ((l ++ events.filterMap keyEventToInputByte).take terminalInputCapacity) := by
  induction events generalizing k c l with
  | nil =>
    have hle : l.length ≤ terminalInputCapacity := Ring.Holds.len_le hc
    rw [List.filterMap_nil, List.append_nil, List.take_of_length_le hle]
    exact ⟨hk, hc⟩
  | cons event events ih =>
    obtain ⟨q, hpop, hrep⟩ := hk.pop_cons
    have hevent : k.popEvent = (some event, { k with queue := q }) := by
      rw [KeyboardState.popEvent, hpop]
    have hrest := @ih { k with queue := q } _ _ hrep (hc.handleKeyEvent event)
    rw [List.length_cons, handleEvents, hevent]
    refine ⟨hrest.1, ?_⟩
    have htyped := hrest.2
    rw [List.filterMap_cons]
    cases hbyte : keyEventToInputByte event with
    | none =>
      have hle : l.length ≤ terminalInputCapacity := Ring.Holds.len_le hc
      rw [hbyte, Option.toList_none, List.append_nil, List.take_of_length_le hle] at htyped
      exact htyped
    | some byte =>
      rw [hbyte, Option.toList_some] at htyped
      rw [take_append_take, List.append_assoc, List.singleton_append] at htyped
      exact htyped

/-! ## Every run -/

/-- The operations of a `ByteQueue`. -/
def byteQueue (capacity : Nat) : Queue (ByteQueue capacity) UInt8 where
  push := ByteQueue.push
  pop := ByteQueue.pop

/-- The operations of the `EventQueue`. -/
def eventQueue : Queue EventQueue KeyEvent where
  push := EventQueue.push
  pop := EventQueue.pop

theorem byteQueue_implements (capacity : Nat) :
    (byteQueue capacity).Implements capacity ByteQueue.Rep :=
  ⟨ByteQueue.Rep.push_cases, ByteQueue.Rep.pop_nil, ByteQueue.Rep.pop_cons⟩

theorem eventQueue_implements : eventQueue.Implements eventQueueCapacity EventQueue.Rep :=
  ⟨EventQueue.Rep.push_cases, EventQueue.Rep.pop_nil, EventQueue.Rep.pop_cons⟩

/-- **The queues of the kernel are first in, first out**, the byte queues with any capacity that
is not 0. -/
theorem bounded_queues_fifo {capacity : Nat} (h : 1 ≤ capacity) :
    (byteQueue capacity).IsFifo ByteQueue.new capacity ∧
      eventQueue.IsFifo EventQueue.new eventQueueCapacity :=
  ⟨(byteQueue_implements capacity).isFifo (Ring.Holds.empty h),
    eventQueue_implements.isFifo EventQueue.rep_new⟩

theorem bounded_queues_fifo_at_input :
    (byteQueue terminalInputCapacity).IsFifo ByteQueue.new terminalInputCapacity ∧
      eventQueue.IsFifo EventQueue.new eventQueueCapacity :=
  bounded_queues_fifo (by decide)

end Lazers.Kernel
