import Lazers.Kernel.ScanCodes
import Lazers.Scheduler.Output

/-!
# From scan codes to reads (`main.rs`, `keyboard.rs`, `terminal.rs`)

Each round of `terminal_thread_entry` polls the keyboard, turns its events into input bytes and
flushes the output. The input bytes wait in the endpoint's input queue for whichever process reads
next.

- `terminalRound_eq`: a round is the step `serviceTerminal` of the machine, with the input that the
  scan codes stand for.
- `typed_text_delivered`: along a run, what the reads returned and what is still queued is the text
  of all scan codes in order, up to what a full queue dropped.
-/

namespace Lazers.Kernel

/-! ## The input queue -/

namespace Console.Typed

variable {c : Console} {endpoint : EndpointRef} {l : List UInt8}

/-- Output does not touch the input queue. -/
theorem pushOutputByte (h : c.Typed endpoint l) (byte : UInt8) :
    (c.pushOutputByte endpoint byte).2.Typed endpoint l := by
  rw [Typed, Console.pushOutputByte, update_self]
  exact h

theorem flushFrom (h : c.Typed endpoint l) (rounds : Nat) :
    (Console.flushFrom endpoint rounds c).Typed endpoint l := by
  induction rounds generalizing c with
  | zero => exact h
  | succ rounds ih =>
    have hpop : (c.popOutputByte endpoint).2.Typed endpoint l := by
      rw [Typed, Console.popOutputByte, update_self]
      exact h
    rw [Console.flushFrom]
    cases hbyte : c.popOutputByte endpoint with
    | mk byte c' =>
      rw [hbyte] at hpop
      cases byte with
      | none => exact hpop
      | some byte => exact ih hpop

theorem flushOutput (h : c.Typed endpoint l) : (c.flushOutput endpoint).Typed endpoint l :=
  h.flushFrom _

/-- Some bytes are typed. -/
theorem pushInputBytes (h : c.Typed endpoint l) (input : List UInt8) :
    (input.foldl (fun c byte => (c.pushInputByte endpoint byte).2) c).Typed endpoint
      ((l ++ input).take terminalInputCapacity) := by
  induction input generalizing c l with
  | nil =>
    have hle : l.length ≤ terminalInputCapacity := Ring.Holds.len_le h
    rw [List.append_nil, List.take_of_length_le hle]
    exact h
  | cons byte input ih =>
    have hstep : (c.pushInputByte endpoint byte).2.Typed endpoint
        ((l ++ [byte]).take terminalInputCapacity) := by
      rw [Typed, Console.pushInputByte, update_self]
      obtain ⟨hroom, q, hpush, hrep⟩ | ⟨hfull, hpush⟩ := ByteQueue.Rep.push_cases h byte
      · rw [hpush, List.take_of_length_le]
        · exact hrep
        · rw [List.length_append]
          exact hroom
      · rw [hpush, List.take_append_of_le_length (Nat.le_of_eq hfull.symm),
          List.take_of_length_le (Nat.le_of_eq hfull)]
        exact h
    have hrest := ih hstep
    rw [take_append_take, List.append_assoc, List.singleton_append] at hrest
    exact hrest

end Console.Typed

/-! ## Processes -/

namespace Process

variable {c : Console} {endpoint : EndpointRef} {l : List UInt8}

/-- A read takes what was typed first. -/
theorem readFrom_typed (h : c.Typed endpoint l) (room : Nat) :
    (readFrom (.terminalEndpoint endpoint) room c).1 = l.take room ∧
      (readFrom (.terminalEndpoint endpoint) room c).2.Typed endpoint (l.drop room) := by
  induction room generalizing c l with
  | zero => exact ⟨rfl, h⟩
  | succ room ih =>
    cases l with
    | nil =>
      have hpop := ByteQueue.Rep.pop_nil h
      have hread : KernelObject.readByte (.terminalEndpoint endpoint) c =
          (none, c.update endpoint { c.endpoints endpoint with
            input := (c.endpoints endpoint).input }) := by
        rw [KernelObject.readByte, Console.popInputByte]
        dsimp only
        rw [hpop]
      rw [readFrom, hread]
      refine ⟨rfl, ?_⟩
      show Console.Typed _ endpoint []
      rw [Console.Typed, Console.update_self]
      exact h
    | cons byte l =>
      obtain ⟨q, hpop, hrep⟩ := ByteQueue.Rep.pop_cons h
      have hread : KernelObject.readByte (.terminalEndpoint endpoint) c =
          (some byte, c.update endpoint { c.endpoints endpoint with input := q }) := by
        rw [KernelObject.readByte, Console.popInputByte]
        dsimp only
        rw [hpop]
      have hnext :
          (c.update endpoint { c.endpoints endpoint with input := q }).Typed endpoint l := by
        rw [Console.Typed, Console.update_self]
        exact hrep
      obtain ⟨hbytes, hrest⟩ := ih hnext
      rw [readFrom, hread]
      refine ⟨?_, hrest⟩
      rw [List.take_succ_cons, ← hbytes]

theorem writeFrom_typed (h : c.Typed endpoint l) (buffer : List UInt8) (written : Nat) :
    (writeFrom (.terminalEndpoint endpoint) buffer written c).2.Typed endpoint l := by
  induction buffer generalizing c written with
  | nil => exact h
  | cons byte buffer ih =>
    have hpush : (KernelObject.writeByte (.terminalEndpoint endpoint) byte c).2.Typed endpoint l :=
      h.pushOutputByte byte
    rw [writeFrom]
    cases hbyte : KernelObject.writeByte (.terminalEndpoint endpoint) byte c with
    | mk pushed c' =>
      rw [hbyte] at hpush
      cases pushed with
      | false => exact hpush
      | true => exact ih hpush (written + 1)

end Process

/-! ## A round of the terminal thread -/

/-- **One round of `terminal_thread_entry`**, in which the controller yields `bytes`. -/
def terminalRound (endpoint : EndpointRef) (bytes : List UInt8) (k : KeyboardState) (c : Console) :
    KeyboardState × Console :=
  let k := k.poll bytes
  let (k, c) := handleEvents endpoint k.queue.len k c
  (k, c.flushOutput endpoint)

/-- **The text of some scan codes.** -/
def typedText (bytes : List UInt8) : List UInt8 := (eventsIn bytes).filterMap keyEventToInputByte

/-- The loop over the events pushes the bytes that they stand for, and leaves the modifiers. -/
theorem handleEvents_eq (endpoint : EndpointRef) {events : List KeyEvent} {k : KeyboardState}
    (hk : k.queue.Rep events) (c : Console) :
    (handleEvents endpoint events.length k c).2 =
      (events.filterMap keyEventToInputByte).foldl
        (fun c byte => (c.pushInputByte endpoint byte).2) c ∧
    (handleEvents endpoint events.length k c).1.queue.Rep [] ∧
    ∀ bytes, k.Follows bytes → (handleEvents endpoint events.length k c).1.Follows bytes := by
  induction events generalizing k c with
  | nil => exact ⟨rfl, hk, fun _ h => h⟩
  | cons event events ih =>
    obtain ⟨q, hpop, hrep⟩ := hk.pop_cons
    have hevent : k.popEvent = (some event, { k with queue := q }) := by
      rw [KeyboardState.popEvent, hpop]
    obtain ⟨hconsole, hempty, hfollows⟩ :=
      @ih { k with queue := q } hrep (c.handleKeyEvent endpoint event)
    rw [List.length_cons, handleEvents, hevent]
    refine ⟨hconsole.trans ?_, hempty, fun bytes h => hfollows bytes ⟨h.left, h.right, h.extended⟩⟩
    rw [List.filterMap_cons, Console.handleKeyEvent]
    cases keyEventToInputByte event with
    | none => rfl
    | some byte => rfl

/-- The input that a round finds in the scan codes, with an empty queue before it. -/
def roundInput (k : KeyboardState) (bytes : List UInt8) : List UInt8 :=
  ((k.eventsOf bytes).take eventQueueCapacity).filterMap keyEventToInputByte

/-- **A round is a step of the machine.** -/
theorem terminalRound_eq (endpoint : EndpointRef) {k : KeyboardState} (hk : k.queue.Rep [])
    (bytes : List UInt8) (c : Console) :
    (terminalRound endpoint bytes k c).2 =
      ((roundInput k bytes).foldl (fun c byte => (c.pushInputByte endpoint byte).2) c).flushOutput
        endpoint ∧
    (terminalRound endpoint bytes k c).1.queue.Rep [] ∧
    ∀ before, k.Follows before →
      (terminalRound endpoint bytes k c).1.Follows (before ++ bytes) := by
  have hpolled := KeyboardState.poll_queue bytes hk
  have hlen : (k.poll bytes).queue.len =
      (([] ++ k.eventsOf bytes).take eventQueueCapacity).length := by
    have hlen := hpolled.len_eq
    rwa [List.length_map] at hlen
  obtain ⟨hconsole, hempty, hfollows⟩ := handleEvents_eq endpoint hpolled c
  rw [← hlen] at hconsole hempty hfollows
  refine ⟨?_, hempty, fun before h => hfollows _ (h.poll bytes).1⟩
  show (handleEvents endpoint _ _ c).2.flushOutput endpoint = _
  rw [hconsole]
  rfl

end Lazers.Kernel

namespace Lazers.Scheduler

open Kernel Storage SchedulerState Config

/-! ## The machine -/

/-- What a call does to the console when `pr` makes it. -/
def consoleAfter (pr : Process) : Call → Console → Console
  | .read fd room, c => (pr.read fd room c).2
  | .write fd buffer, c => (pr.write fd buffer c).2
  | .service input, c => serviceTerminal input c
  | _, c => c

variable {m m' : Machine} {c : Config} {rootFs : Option Fat32}

theorem QuietAdvances.console_eq {x : MachineM (List Event)} (h : QuietAdvances rootFs x m c)
    {events : List Event} (hrun : x m = .ok events m') : m'.console = m.console := by
  obtain ⟨events', m'', c', hrun', -, -, hconsole, -⟩ := h
  rw [hrun'] at hrun
  cases hrun
  exact hconsole

/-- **The console after a step.** -/
theorem Steady.step_console (h : Steady m.scheduler c) {call : Call} (henabled : Enabled m call)
    {events : List Event} (hstep : step rootFs call m = .ok events m') :
    m'.console = consoleAfter c.top.process call m.console := by
  cases call with
  | yieldNow => exact (h.yieldNow_advances rootFs).machine.console_eq hstep
  | service input =>
    cases hstep
    rfl
  | exit status =>
    have hcurrent := h.top_of_enabled henabled (by simp) (by simp)
    obtain hadvances | ⟨-, m'', hshutdown, -⟩ := h.exit_cases rootFs hcurrent status
    · exact hadvances.console_eq hstep
    · rw [step, hshutdown] at hstep
      cases hstep
  | spawnWait path silent load =>
    have hcurrent := h.top_of_enabled henabled (by simp) (by simp)
    exact (h.spawnWait_advances rootFs hcurrent path silent load).machine.console_eq hstep
  | setEnv key value =>
    have hcurrent := h.top_of_enabled henabled (by simp) (by simp)
    exact (h.setEnvCall_advances rootFs hcurrent key value).machine.console_eq hstep
  | unsetEnv key =>
    have hcurrent := h.top_of_enabled henabled (by simp) (by simp)
    exact (h.unsetEnvCall_advances rootFs hcurrent key).machine.console_eq hstep
  | chdir path fuel =>
    have hcurrent := h.top_of_enabled henabled (by simp) (by simp)
    obtain hadvances | hunfinished := h.chdirCall_cases rootFs hcurrent fuel path
    · exact hadvances.console_eq hstep
    · rw [step, hunfinished] at hstep
      cases hstep
  | read fd room =>
    have hcurrent := h.top_of_enabled henabled (by simp) (by simp)
    rw [step, readCall_eq h.inv hcurrent] at hstep
    cases hstep
    rfl
  | write fd buffer =>
    have hcurrent := h.top_of_enabled henabled (by simp) (by simp)
    rw [step, writeCall_eq h.inv hcurrent] at hstep
    cases hstep
    rfl

/-- The bytes that a call puts into the buffer of its caller. -/
def deliveredBy (m : Machine) : Call → List UInt8
  | .read fd room =>
    match currentProcessRead fd room m.console m.scheduler with
    | .ok (bytes, _) _ => bytes
    | .error _ _ => []
  | _ => []

theorem Steady.deliveredBy_read (h : Inv m.scheduler c)
    (hcurrent : m.scheduler.currentThread = some c.top.thread.id) (fd room : Nat) :
    deliveredBy m (.read fd room) = (c.top.process.read fd room m.console).1 := by
  have hread : currentProcessRead fd room m.console m.scheduler =
      .ok (c.top.process.read fd room m.console) m.scheduler :=
    EStateM.bind_of_ok (currentProcess_eq h hcurrent) _
  rw [deliveredBy, hread]

/-- **A call that is not a round of the terminal** hands on a part of what is queued. -/
theorem Steady.call_typed (h : Steady m.scheduler c) {trace : List Event}
    (hrun : StackRun rootFs c.stack trace) {call : Call} (henabled : Enabled m call)
    (hcall : ∀ input, call ≠ .service input) {events : List Event}
    (hstep : step rootFs call m = .ok events m') {queued : List UInt8}
    (hqueued : m.console.Typed primaryEndpoint queued) :
    ∃ rest, m'.console.Typed primaryEndpoint rest ∧ deliveredBy m call ++ rest = queued := by
  have hconsole := h.step_console henabled hstep
  cases call with
  | service input => exact absurd rfl (hcall input)
  | read fd room =>
    have hcurrent := h.top_of_enabled henabled (by simp) (by simp)
    have hfds := hrun.streams ⟨c.top.process, c.top.thread.id⟩ List.mem_cons_self fd
    rw [deliveredBy_read h.inv hcurrent, hconsole, consoleAfter, Process.read, hfds]
    obtain hnone | hnull | hterminal := streamOf_cases (silenced trace c.top.process.id) fd
    · rw [hnone]
      exact ⟨queued, hqueued, rfl⟩
    · rw [hnull]
      refine ⟨queued, ?_, ?_⟩
      · cases room <;> exact hqueued
      · cases room <;> rfl
    · rw [hterminal]
      obtain ⟨hbytes, hrest⟩ := Process.readFrom_typed hqueued room
      refine ⟨queued.drop room, hrest, ?_⟩
      show (Process.readFrom _ room m.console).1 ++ _ = _
      rw [hbytes, List.take_append_drop]
  | write fd buffer =>
    have hfds := hrun.streams ⟨c.top.process, c.top.thread.id⟩ List.mem_cons_self fd
    rw [hconsole, consoleAfter, Process.write, hfds]
    refine ⟨queued, ?_, rfl⟩
    obtain hnone | hnull | hterminal := streamOf_cases (silenced trace c.top.process.id) fd
    · rw [hnone]
      exact hqueued
    · rw [hnull]
      dsimp only
      rw [writeFrom_null]
      exact hqueued
    · rw [hterminal]
      exact Process.writeFrom_typed hqueued buffer 0
  | yieldNow | exit | spawnWait | setEnv | unsetEnv | chdir =>
    rw [hconsole]
    exact ⟨queued, hqueued, rfl⟩

/-! ## Whole runs -/

/-- **Runs with a keyboard**: the scan codes that the controller yielded, and the bytes that the
reads returned. The terminal thread makes rounds, all else are calls. `Q` holds of every round. -/
inductive KeyRun (boot : Boot) (Q : Machine → KeyboardState → List UInt8 → Prop) :
    Machine → KeyboardState → (bytes delivered : List UInt8) → Prop where
  | start {m : Machine} (booted : boot.start = some m) :
      KeyRun boot Q m KeyboardState.new [] []
  | round {m : Machine} {k : KeyboardState} {bytes delivered : List UInt8}
      (run : KeyRun boot Q m k bytes delivered) (enabled : Enabled m (.service []))
      (more : List UInt8) (holds : Q m k more) :
      KeyRun boot Q { m with console := (terminalRound primaryEndpoint more k m.console).2 }
        (terminalRound primaryEndpoint more k m.console).1 (bytes ++ more) delivered
  | call {m m' : Machine} {k : KeyboardState} {bytes delivered : List UInt8} {events : List Event}
      {call : Call} (run : KeyRun boot Q m k bytes delivered) (enabled : Enabled m call)
      (other : ∀ input, call ≠ .service input) (stepped : step boot.rootFs call m = .ok events m') :
      KeyRun boot Q m' k bytes (delivered ++ deliveredBy m call)

/-- A round in which neither queue is too small. -/
def FitsInput (m : Machine) (k : KeyboardState) (more : List UInt8) : Prop :=
  (k.eventsOf more).length ≤ eventQueueCapacity ∧
    (m.console.endpoints primaryEndpoint).input.len +
      ((k.eventsOf more).filterMap keyEventToInputByte).length ≤ terminalInputCapacity

/-- What a round makes of an input queue. -/
theorem roundInput_spec {k : KeyboardState} {bytes : List UInt8} (h : k.Follows bytes)
    (more queued : List UInt8) :
    ((queued ++ roundInput k more).take terminalInputCapacity).Sublist
        (queued ++ (k.eventsOf more).filterMap keyEventToInputByte) ∧
      typedText (bytes ++ more) =
        typedText bytes ++ (k.eventsOf more).filterMap keyEventToInputByte := by
  constructor
  · refine (List.take_sublist _ _).trans (List.Sublist.append_left ?_ queued)
    exact (List.take_sublist _ _).filterMap _
  · rw [typedText, (h.poll more).2, List.filterMap_append]
    rfl

/-- Every input byte is a new line, a backspace or printable. -/
theorem keyEventToInputByte_range {event : KeyEvent} {byte : UInt8}
    (h : keyEventToInputByte event = some byte) :
    byte = 10 ∨ byte = 0x7f ∨ 0x20 ≤ byte ∧ byte ≤ 0x7e := by
  obtain ⟨key, state, shift⟩ := event
  have hall : ∀ (key : KeyCode) (state : KeyState) (shift : Bool),
      ((keyEventToInputByte ⟨key, state, shift⟩).all fun byte =>
        byte = 10 ∨ byte = 0x7f ∨ 0x20 ≤ byte ∧ byte ≤ 0x7e) = true := by
    intro key state shift
    cases key <;> cases state <;> cases shift <;> rfl
  have hbyte := hall key state shift
  rw [h] at hbyte
  exact of_decide_eq_true hbyte

/-- **Terminal input over whole runs.** The bytes that reads returned, followed by those in the
input queue, are in order bytes of the text that the scan codes stand for, each at most once; as
long as every round fits the queues they are that text. All of them are new lines, backspaces or
printable. -/
theorem typed_text_delivered {boot : Boot} {Q : Machine → KeyboardState → List UInt8 → Prop}
    {m : Machine} {k : KeyboardState} {bytes delivered : List UInt8}
    (run : KeyRun boot Q m k bytes delivered) :
    ∃ queued, m.console.Typed primaryEndpoint queued ∧
      (delivered ++ queued).Sublist (typedText bytes) ∧
      ((∀ m k more, Q m k more → FitsInput m k more) → delivered ++ queued = typedText bytes) ∧
      ∀ byte ∈ delivered ++ queued, byte = 10 ∨ byte = 0x7f ∨ 0x20 ≤ byte ∧ byte ≤ 0x7e := by
  suffices h : (∃ trace, Run boot m trace) ∧ k.queue.Rep [] ∧ k.Follows bytes ∧
      ∃ queued, m.console.Typed primaryEndpoint queued ∧
        (delivered ++ queued).Sublist (typedText bytes) ∧
        ((∀ m k more, Q m k more → FitsInput m k more) →
          delivered ++ queued = typedText bytes) by
    obtain ⟨-, -, -, queued, hqueued, hsub, hall⟩ := h
    refine ⟨queued, hqueued, hsub, hall, fun byte hbyte => ?_⟩
    obtain ⟨event, -, hevent⟩ := List.mem_filterMap.mp (hsub.subset hbyte)
    exact keyEventToInputByte_range hevent
  induction run with
  | @start m booted =>
    refine ⟨⟨[], run_of_start booted⟩, EventQueue.rep_new, KeyboardState.follows_new, [], ?_,
      List.Sublist.refl _, fun _ => rfl⟩
    rw [Boot.start] at booted
    split at booted
    · cases booted
      exact Ring.Holds.empty (by decide)
    · cases booted
  | @round m k bytes delivered run enabled more holds ih =>
    obtain ⟨⟨trace, hrun⟩, hempty, hfollows, queued, hqueued, hsub, hall⟩ := ih
    obtain ⟨hconsole, hempty', hfollows'⟩ :=
      terminalRound_eq primaryEndpoint hempty more m.console
    obtain ⟨hround, htext⟩ := roundInput_spec hfollows more queued
    -- the round is the service step with the input that it found
    have henabled : Enabled m (.service (roundInput k more)) := by
      obtain ⟨t, th, hcurrent, hth, hallowed⟩ := enabled
      refine ⟨t, th, hcurrent, hth, ?_⟩
      cases hstart : th.start with
      | user => rw [hstart] at hallowed; exact hallowed
      | kernel entry => rw [hstart] at hallowed; cases entry <;> exact hallowed
    have hstep : step boot.rootFs (.service (roundInput k more)) m =
        .ok [] { m with console := (terminalRound primaryEndpoint more k m.console).2 } := by
      rw [hconsole]
      rfl
    refine ⟨⟨_, hrun.step henabled hstep⟩, hempty', hfollows' bytes hfollows,
      (queued ++ roundInput k more).take terminalInputCapacity, ?_, ?_, fun hfits => ?_⟩
    · show Console.Typed (terminalRound primaryEndpoint more k m.console).2 primaryEndpoint _
      rw [hconsole]
      exact (hqueued.pushInputBytes (roundInput k more)).flushOutput
    · rw [htext]
      have hkept := hround.append_left delivered
      rw [← List.append_assoc] at hkept
      exact hkept.trans (hsub.append_right _)
    · obtain ⟨hevents, hinput⟩ := hfits m k more holds
      have hlen : (m.console.endpoints primaryEndpoint).input.len = queued.length :=
        Ring.Holds.len_eq hqueued
      have hwhole : roundInput k more = (k.eventsOf more).filterMap keyEventToInputByte := by
        rw [roundInput, List.take_of_length_le hevents]
      rw [hlen, ← List.length_append] at hinput
      rw [hwhole, List.take_of_length_le hinput, ← List.append_assoc, hall hfits, htext]
  | @call m m' k bytes delivered events call run enabled other stepped ih =>
    obtain ⟨⟨trace, hrun⟩, hempty, hfollows, queued, hqueued, hsub, hall⟩ := ih
    obtain ⟨c, hsteady, hstack⟩ := hrun.stackRun
    obtain ⟨rest, hrest, hsplit⟩ := hsteady.call_typed hstack enabled other stepped hqueued
    have hmoved : delivered ++ deliveredBy m call ++ rest = delivered ++ queued := by
      rw [List.append_assoc, hsplit]
    refine ⟨⟨_, hrun.step enabled stepped⟩, hempty, hfollows, rest, hrest, ?_, fun hfits => ?_⟩
    · rw [hmoved]
      exact hsub
    · rw [hmoved]
      exact hall hfits

/-- A call that returns is a step of a run. -/
theorem KeyRun.exec {boot : Boot} {Q : Machine → KeyboardState → List UInt8 → Prop} {m : Machine}
    {k : KeyboardState} {bytes delivered : List UInt8} (run : KeyRun boot Q m k bytes delivered)
    {call : Call} (other : ∀ input, call ≠ .service input) {r : Machine × List Event}
    (h : boot.execCall (m, []) call = some r) :
    KeyRun boot Q r.1 k bytes (delivered ++ deliveredBy m call) := by
  obtain ⟨events, henabled, hstep, -⟩ := step_of_execCall h
  exact run.call henabled other hstep

/-- The machine behind a round. -/
def Machine.afterRound (m : Machine) (more : List UInt8) : Machine :=
  { m with console := (terminalRound primaryEndpoint more KeyboardState.new m.console).2 }

/-- The terminal thread finds the scan codes of `Hi`, and the bootstrap process reads them. -/
theorem typed_text_delivered_hi :
    ∃ m k, KeyRun sampleBoot FitsInput m k [0x2a, 0x23, 0xa3, 0xaa, 0x17, 0x97] [72, 105] ∧
      m.console.Typed primaryEndpoint [] := by
  obtain ⟨m₀, hboot⟩ := Option.isSome_iff_exists.mp (by decide +kernel :
    sampleBoot.start.isSome = true)
  have hfacts : (sampleBoot.start.bind fun m => m.current.map fun th =>
      (th.start, (m.console.endpoints primaryEndpoint).input.len)) =
      some (.kernel .terminalThreadEntry, 0) := by decide +kernel
  have hreads : (sampleBoot.start.bind fun m =>
      (sampleBoot.execCall (m.afterRound [0x2a, 0x23, 0xa3, 0xaa, 0x17, 0x97], [])
        .yieldNow).bind fun r => (sampleBoot.execCall (r.1, []) (.read 0 16)).map fun _ =>
          deliveredBy r.1 (.read 0 16)) = some [72, 105] := by decide +kernel
  rw [hboot, Option.bind_some] at hfacts hreads
  obtain ⟨th, hth, hthread⟩ := Option.map_eq_some_iff.mp hfacts
  obtain ⟨hstart, hempty⟩ := Prod.mk.inj hthread
  obtain ⟨r₁, hyield, hreads⟩ := Option.bind_eq_some_iff.mp hreads
  obtain ⟨r₂, hread, hdelivered⟩ := Option.map_eq_some_iff.mp hreads
  have henabled : Enabled m₀ (.service []) := by
    refine Machine.enabled_of_current hth ?_
    rw [hstart]
    exact trivial
  have hfits : FitsInput m₀ KeyboardState.new [0x2a, 0x23, 0xa3, 0xaa, 0x17, 0x97] := by
    refine ⟨by decide +kernel, ?_⟩
    rw [hempty]
    decide +kernel
  have run₁ := (KeyRun.start hboot).round henabled _ hfits
  have run₂ := run₁.exec (fun _ hcall => by cases hcall) hyield
  have run₃ := run₂.exec (fun _ hcall => by cases hcall) hread
  rw [hdelivered] at run₃
  obtain ⟨queued, hqueued, -, hall, -⟩ := typed_text_delivered run₃
  have htext : typedText [0x2a, 0x23, 0xa3, 0xaa, 0x17, 0x97] = [72, 105] := by decide +kernel
  have hnil := (hall fun _ _ _ h => h).trans htext
  obtain rfl : queued = [] := List.append_right_eq_self.mp hnil
  exact ⟨_, _, run₃, hqueued⟩

end Lazers.Scheduler
