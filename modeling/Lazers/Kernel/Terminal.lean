import Lazers.Lib.Ring

/-!
# Terminal endpoints (`terminal.rs`, `io.rs`)

An endpoint is a pair of bounded byte queues that processes reach through their
handles. Output goes to the serial port as well, before the queue is tried.

`Console` holds the endpoints by address, the bytes sent to the serial port and the
bytes `flush_output` has handed to the screen.
-/

namespace Lazers.Kernel

/-! ## Queues -/

structure ByteQueue (capacity : Nat) where
  bytes : Vector UInt8 capacity
  readIndex : Nat
  writeIndex : Nat
  len : Nat
deriving DecidableEq

namespace ByteQueue

variable {capacity : Nat}

def new : ByteQueue capacity where
  bytes := Vector.replicate capacity 0
  readIndex := 0
  writeIndex := 0
  len := 0

/-- `ByteQueue::push`. -/
def push (q : ByteQueue capacity) (byte : UInt8) : Bool × ByteQueue capacity :=
  if q.len ≥ capacity then (false, q)
  else (true, { q with
    bytes := q.bytes.setIfInBounds q.writeIndex byte
    writeIndex := (q.writeIndex + 1) % capacity
    len := q.len + 1 })

/-- `ByteQueue::pop`. -/
def pop (q : ByteQueue capacity) : Option UInt8 × ByteQueue capacity :=
  if q.len = 0 then (none, q)
  else (q.bytes[q.readIndex]?, { q with
    readIndex := (q.readIndex + 1) % capacity
    len := q.len - 1 })

/-- The queued bytes. -/
def Rep (q : ByteQueue capacity) (l : List UInt8) : Prop :=
  Ring.Holds q.bytes q.readIndex q.writeIndex q.len l

variable {q : ByteQueue capacity} {l : List UInt8}

/-- A push appends, unless the queue is full. -/
theorem Rep.push_cases (h : q.Rep l) (byte : UInt8) :
    (l.length < capacity ∧ ∃ q', q.push byte = (true, q') ∧ q'.Rep (l ++ [byte])) ∨
    (l.length = capacity ∧ q.push byte = (false, q)) := by
  have hlen := h.len_eq
  have hle := h.len_le
  rw [push]
  by_cases hfull : q.len ≥ capacity
  · rw [if_pos hfull]
    exact .inr ⟨by omega, rfl⟩
  · rw [if_neg hfull]
    exact .inl ⟨by omega, _, rfl, Ring.Holds.push h (by omega) byte⟩

/-- A pop takes the first byte. -/
theorem Rep.pop_nil (h : q.Rep []) : q.pop = (none, q) := by
  have hlen : q.len = 0 := h.len_eq
  rw [pop, if_pos hlen]

theorem Rep.pop_cons {byte : UInt8} (h : q.Rep (byte :: l)) :
    ∃ q', q.pop = (some byte, q') ∧ q'.Rep l := by
  obtain ⟨hbyte, hrest⟩ := Ring.Holds.pop h
  have hlen := h.len_eq
  rw [List.length_cons] at hlen
  rw [pop, if_neg (by omega), hbyte]
  exact ⟨_, rfl, hrest⟩

end ByteQueue

/-! ## Endpoints -/

def terminalInputCapacity : Nat := 256
def terminalOutputCapacity : Nat := 1024

structure TerminalEndpoint where
  input : ByteQueue terminalInputCapacity
  output : ByteQueue terminalOutputCapacity
deriving DecidableEq

def TerminalEndpoint.new : TerminalEndpoint where
  input := ByteQueue.new
  output := ByteQueue.new

/-- A `&'static TerminalEndpoint`. -/
abbrev EndpointRef := Nat

/-- The endpoints, and what the serial port and the screen were sent. -/
structure Console where
  endpoints : EndpointRef → TerminalEndpoint
  serial : List UInt8
  screen : List UInt8

namespace Console

def new : Console where
  endpoints := fun _ => TerminalEndpoint.new
  serial := []
  screen := []

def update (c : Console) (endpoint : EndpointRef) (e : TerminalEndpoint) : Console :=
  { c with endpoints := fun i => if i = endpoint then e else c.endpoints i }

/-- `push_input_byte`. -/
def pushInputByte (c : Console) (endpoint : EndpointRef) (byte : UInt8) : Bool × Console :=
  let e := c.endpoints endpoint
  let (pushed, input) := e.input.push byte
  (pushed, c.update endpoint { e with input })

/-- `pop_input_byte`. -/
def popInputByte (c : Console) (endpoint : EndpointRef) : Option UInt8 × Console :=
  let e := c.endpoints endpoint
  let (byte, input) := e.input.pop
  (byte, c.update endpoint { e with input })

/-- `push_output_byte`: the serial port first. -/
def pushOutputByte (c : Console) (endpoint : EndpointRef) (byte : UInt8) : Bool × Console :=
  let c := { c with serial := c.serial ++ [byte] }
  let e := c.endpoints endpoint
  let (pushed, output) := e.output.push byte
  (pushed, c.update endpoint { e with output })

/-- `pop_output_byte`. -/
def popOutputByte (c : Console) (endpoint : EndpointRef) : Option UInt8 × Console :=
  let e := c.endpoints endpoint
  let (byte, output) := e.output.pop
  (byte, c.update endpoint { e with output })

/-- The loop of `flush_output`, `console::write_terminal_byte` included. -/
def flushFrom (endpoint : EndpointRef) : (rounds : Nat) → Console → Console
  | 0, c => c
  | rounds + 1, c =>
    match c.popOutputByte endpoint with
    | (none, c) => c
    | (some byte, c) => flushFrom endpoint rounds { c with screen := c.screen ++ [byte] }

/-- `flush_output`: there are as many rounds as bytes. -/
def flushOutput (c : Console) (endpoint : EndpointRef) : Console :=
  flushFrom endpoint (c.endpoints endpoint).output.len c

end Console

/-- `PRIMARY_TERMINAL_ENDPOINT`. -/
def primaryEndpoint : EndpointRef := 0

/-! ## Kernel objects -/

inductive KernelObject where
  | terminalEndpoint (endpoint : EndpointRef)
  | null
deriving DecidableEq, Repr

namespace KernelObject

/-- `KernelObject::read_byte`. -/
def readByte (object : KernelObject) (c : Console) : Option UInt8 × Console :=
  match object with
  | terminalEndpoint endpoint => c.popInputByte endpoint
  | null => (none, c)

/-- `KernelObject::write_byte`. -/
def writeByte (object : KernelObject) (byte : UInt8) (c : Console) : Bool × Console :=
  match object with
  | terminalEndpoint endpoint => c.pushOutputByte endpoint byte
  | null => (true, c)

end KernelObject

/-! ## What is queued -/

namespace Console

/-- The output queue of an endpoint holds `l`. -/
def Queued (c : Console) (endpoint : EndpointRef) (l : List UInt8) : Prop :=
  (c.endpoints endpoint).output.Rep l

variable {c : Console} {endpoint : EndpointRef} {l : List UInt8}

theorem update_self (c : Console) (endpoint : EndpointRef) (e : TerminalEndpoint) :
    (c.update endpoint e).endpoints endpoint = e := if_pos rfl

theorem queued_new (endpoint : EndpointRef) : new.Queued endpoint [] :=
  Ring.Holds.empty (by decide)

/-- Input does not touch the output queue. -/
theorem Queued.pushInputByte (h : c.Queued endpoint l) (byte : UInt8) :
    (c.pushInputByte endpoint byte).2.Queued endpoint l := by
  rw [Queued, Console.pushInputByte, update_self]
  exact h

theorem Queued.popInputByte (h : c.Queued endpoint l) :
    (c.popInputByte endpoint).2.Queued endpoint l := by
  rw [Queued, Console.popInputByte, update_self]
  exact h

/-- A byte is mirrored in any case, and queued if there is room. -/
theorem Queued.pushOutputByte_cases (h : c.Queued endpoint l) (byte : UInt8) :
    (l.length < terminalOutputCapacity ∧ ∃ c', c.pushOutputByte endpoint byte = (true, c') ∧
      c'.Queued endpoint (l ++ [byte]) ∧ c'.serial = c.serial ++ [byte] ∧ c'.screen = c.screen) ∨
    (l.length = terminalOutputCapacity ∧ ∃ c', c.pushOutputByte endpoint byte = (false, c') ∧
      c'.Queued endpoint l ∧ c'.serial = c.serial ++ [byte] ∧ c'.screen = c.screen) := by
  obtain ⟨hroom, q, hpush, hrep⟩ | ⟨hfull, hpush⟩ := ByteQueue.Rep.push_cases h byte
  · refine .inl ⟨hroom, { c with serial := c.serial ++ [byte] }.update endpoint
      { c.endpoints endpoint with output := q }, ?_, ?_, rfl, rfl⟩
    · rw [pushOutputByte]
      dsimp only
      rw [hpush]
    · rw [Queued, update_self]
      exact hrep
  · refine .inr ⟨hfull, { c with serial := c.serial ++ [byte] }.update endpoint
      { c.endpoints endpoint with output := (c.endpoints endpoint).output }, ?_, ?_, rfl, rfl⟩
    · rw [pushOutputByte]
      dsimp only
      rw [hpush]
    · rw [Queued, update_self]
      exact h

theorem flushFrom_spec (h : c.Queued endpoint l) :
    (flushFrom endpoint l.length c).Queued endpoint [] ∧
      (flushFrom endpoint l.length c).screen = c.screen ++ l ∧
      (flushFrom endpoint l.length c).serial = c.serial := by
  induction l generalizing c with
  | nil => exact ⟨h, (List.append_nil _).symm, rfl⟩
  | cons byte rest ih =>
    obtain ⟨q, hpop, hrep⟩ := ByteQueue.Rep.pop_cons h
    have hbyte : c.popOutputByte endpoint =
        (some byte, c.update endpoint { c.endpoints endpoint with output := q }) := by
      rw [popOutputByte]
      dsimp only
      rw [hpop]
    have hqueued : Queued { c.update endpoint { c.endpoints endpoint with output := q } with
        screen := c.screen ++ [byte] } endpoint rest := by
      rw [Queued]
      dsimp only
      rw [update_self]
      exact hrep
    obtain ⟨hempty, hscreen, hserial⟩ := ih hqueued
    rw [List.length_cons, flushFrom, hbyte]
    refine ⟨hempty, hscreen.trans ?_, hserial⟩
    rw [List.append_assoc]
    rfl

/-- **`flush_output`** puts the whole queue on the screen. -/
theorem Queued.flushOutput (h : c.Queued endpoint l) :
    (c.flushOutput endpoint).Queued endpoint [] ∧
      (c.flushOutput endpoint).screen = c.screen ++ l ∧
      (c.flushOutput endpoint).serial = c.serial := by
  rw [Console.flushOutput, h.len_eq]
  exact flushFrom_spec h

/-- There the loop of the source stops. -/
theorem Queued.popOutputByte_flushOutput (h : c.Queued endpoint l) :
    ((c.flushOutput endpoint).popOutputByte endpoint).1 = none := by
  have hempty := ByteQueue.Rep.pop_nil h.flushOutput.1
  rw [popOutputByte]
  dsimp only
  rw [hempty]

end Console

end Lazers.Kernel
