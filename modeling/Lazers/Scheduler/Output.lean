import Lazers.Scheduler.Streams

/-!
# From writes to the screen

Bytes written to a terminal handle wait in the endpoint's output queue until the terminal
thread, or the shutdown, flushes them to the screen. Along a run the screen and the queue
together are what the writes reported, in order (`Pipeline`): nothing is lost, repeated
or reordered, and a shutdown leaves nothing in the queue.

The serial mirror is written before the queue is tried, so it has one byte more for
every write that did not fit (`Fits`).
-/

namespace Lazers.Scheduler

open Kernel Storage SchedulerState Config

/-- What a write says it wrote to a terminal. -/
def accepted (object : Option KernelObject) (buffer : List UInt8) (written : Nat) : List UInt8 :=
  match object with
  | some (.terminalEndpoint _) => buffer.take written
  | _ => []

/-- **The bytes that writes through terminal handles reported as written**, in order. -/
def reported (trace : List Event) : List UInt8 :=
  trace.flatMap fun
    | .wrote _ _ object buffer written => accepted object buffer written
    | _ => []

theorem reported_append (trace events : List Event) :
    reported (trace ++ events) = reported trace ++ reported events := List.flatMap_append

theorem reported_eq_nil {events : List Event} (h : ∀ e ∈ events, e.isWrite = false) :
    reported events = [] := by
  rw [reported, List.flatMap_eq_nil_iff]
  intro e he
  cases e with
  | wrote => exact absurd (h _ he) (by simp [Event.isWrite])
  | spawned | exited | waitReturned | called => rfl

/-! ## One process -/

section

variable {pr : Process} {quiet : Bool} {fd : Nat} {c : Console} {queued : List UInt8}

/-- The streams are the bootstrap terminal, the null object, or nothing. -/
theorem streamOf_cases (quiet : Bool) (fd : Nat) :
    streamOf quiet fd = none ∨ streamOf quiet fd = some .null ∨
      streamOf quiet fd = some (.terminalEndpoint primaryEndpoint) := by
  rw [streamOf]
  split_ifs
  · exact .inl rfl
  · exact .inr (.inl rfl)
  · exact .inr (.inr rfl)

theorem read_spec (hfd : pr.resolveFd fd = streamOf quiet fd)
    (h : c.Queued primaryEndpoint queued) (room : Nat) :
    (pr.read fd room c).2.Queued primaryEndpoint queued ∧
      (pr.read fd room c).2.screen = c.screen ∧ (pr.read fd room c).2.serial = c.serial := by
  rw [Process.read, hfd]
  obtain hnone | hnull | hterminal := streamOf_cases quiet fd
  · rw [hnone]
    exact ⟨h, rfl, rfl⟩
  · rw [hnull]
    cases room with
    | zero => exact ⟨h, rfl, rfl⟩
    | succ room => exact ⟨h, rfl, rfl⟩
  · rw [hterminal]
    exact Process.readFrom_spec h room

/-- What a write does to the three sinks. -/
theorem write_spec (hfd : pr.resolveFd fd = streamOf quiet fd)
    (h : c.Queued primaryEndpoint queued) (buffer : List UInt8) :
    (pr.write fd buffer c).1 ≤ buffer.length ∧
    (pr.write fd buffer c).2.Queued primaryEndpoint
      (queued ++ accepted (pr.resolveFd fd) buffer (pr.write fd buffer c).1) ∧
    (pr.write fd buffer c).2.screen = c.screen ∧
    (pr.write fd buffer c).2.serial = c.serial ++
      accepted (pr.resolveFd fd) buffer (terminalOutputCapacity - queued.length + 1) := by
  rw [Process.write, hfd]
  obtain hnone | hnull | hterminal := streamOf_cases quiet fd
  · rw [hnone]
    exact ⟨Nat.zero_le _, by simpa [accepted] using h, rfl, by simp [accepted]⟩
  · rw [hnull]
    dsimp only
    rw [writeFrom_null, Nat.zero_add]
    exact ⟨Nat.le_refl _, by simpa [accepted] using h, rfl, by simp [accepted]⟩
  · obtain ⟨c', hrun, hqueued, hscreen, hserial⟩ := Process.writeFrom_spec h buffer 0
    rw [hterminal]
    dsimp only [accepted]
    rw [hrun, Nat.zero_add]
    have htake : buffer.take (min buffer.length (terminalOutputCapacity - queued.length)) =
        buffer.take (terminalOutputCapacity - queued.length) := by
      rw [Nat.min_comm, ← List.take_take, List.take_length]
    refine ⟨Nat.min_le_left _ _, ?_, hscreen, hserial⟩
    rw [htake]
    exact hqueued

end

/-- One round of the terminal thread. -/
theorem serviceTerminal_spec {c : Console} {queued : List UInt8}
    (h : c.Queued primaryEndpoint queued) (input : List UInt8) :
    (serviceTerminal input c).Queued primaryEndpoint [] ∧
      (serviceTerminal input c).screen = c.screen ++ queued ∧
      (serviceTerminal input c).serial = c.serial := by
  have hinput : ∀ (input : List UInt8) (c : Console), c.Queued primaryEndpoint queued →
      (input.foldl (fun c byte => (c.pushInputByte primaryEndpoint byte).2) c).Queued
        primaryEndpoint queued ∧
      (input.foldl (fun c byte => (c.pushInputByte primaryEndpoint byte).2) c).screen = c.screen ∧
      (input.foldl (fun c byte => (c.pushInputByte primaryEndpoint byte).2) c).serial =
        c.serial := by
    intro input
    induction input with
    | nil => exact fun c hc => ⟨hc, rfl, rfl⟩
    | cons byte rest ih =>
      intro c hc
      exact ih _ (hc.pushInputByte byte)
  obtain ⟨hqueued, hscreen, hserial⟩ := hinput input c h
  obtain ⟨hempty, hflushed, hmirror⟩ := hqueued.flushOutput
  rw [serviceTerminal]
  exact ⟨hempty, by rw [hflushed, hscreen], by rw [hmirror, hserial]⟩

/-! ## Whole runs -/

/-- **The pipeline**: screen and queue make up what was reported. -/
def Pipeline (c : Console) (trace : List Event) : Prop :=
  ∃ queued, c.Queued primaryEndpoint queued ∧ c.screen ++ queued = reported trace

theorem Pipeline.step {rootFs : Option Fat32} {stack : List Member} {c c' : Console}
    {trace events : List Event} (run : StackRun rootFs stack trace) (h : Pipeline c trace)
    (hstep : ConsoleStep stack c events c') : Pipeline c' (trace ++ events) := by
  obtain ⟨queued, hqueued, hsum⟩ := h
  rw [Pipeline, reported_append]
  cases hstep with
  | quiet _ _ silent =>
    rw [reported_eq_nil silent, List.append_nil]
    exact ⟨queued, hqueued, hsum⟩
  | read top rest _ fd room =>
    obtain ⟨hq, hscreen, -⟩ :=
      read_spec (run.streams top List.mem_cons_self fd) hqueued room
    refine ⟨queued, hq, ?_⟩
    rw [hscreen, hsum]
    exact (List.append_nil _).symm
  | wrote top rest _ fd buffer =>
    obtain ⟨-, hq, hscreen, -⟩ :=
      write_spec (run.streams top List.mem_cons_self fd) hqueued buffer
    refine ⟨_, hq, ?_⟩
    rw [hscreen, ← List.append_assoc, hsum]
    exact congrArg _ (List.append_nil _).symm
  | serviced _ _ input =>
    obtain ⟨hq, hscreen, -⟩ := serviceTerminal_spec hqueued input
    refine ⟨[], hq, ?_⟩
    rw [hscreen, hsum]
    rfl

theorem Run.pipeline {boot : Boot} {m : Machine} {trace : List Event} (run : Run boot m trace) :
    ∃ c, Steady m.scheduler c ∧ StackRun boot.rootFs c.stack trace ∧
      Pipeline m.console trace := by
  refine run.induction (P := fun stack console trace => StackRun boot.rootFs stack trace ∧
    Pipeline console trace) ?_ ?_
  · intro first hfirst
    exact ⟨.start hfirst, [], Console.queued_new _, rfl⟩
  · rintro m c trace events stack' console' - - ⟨hrun, hpipeline⟩ heffect hconsole
    exact ⟨hrun.step heffect, hpipeline.step hrun hconsole⟩

/-- **Terminal output over whole runs.** What the screen has been given is a prefix of what the
writes through terminal handles reported, and all of it once the shutdown begins; a write
returns the length of the prefix of its buffer that the queue took. -/
theorem terminal_output_pipeline {boot : Boot} {m : Machine} {trace : List Event}
    (run : Run boot m trace) :
    m.console.screen <+: reported trace ∧
    (∃ queued, m.console.Queued primaryEndpoint queued ∧
      m.console.screen ++ queued = reported trace) ∧
    (∀ status m', Enabled m (.exit status) →
      step boot.rootFs (.exit status) m = .error .shutDown m' →
      m'.console.screen = reported trace) ∧
    ∀ fd buffer events m', Enabled m (.write fd buffer) →
      step boot.rootFs (.write fd buffer) m = .ok events m' →
      ∃ p object written, events = [.wrote p fd object buffer written] ∧
        written ≤ buffer.length ∧
        ∀ queued, m.console.Queued primaryEndpoint queued →
          m'.console.Queued primaryEndpoint (queued ++ accepted object buffer written) := by
  obtain ⟨c, hsteady, hrun, queued, hqueued, hsum⟩ := run.pipeline
  refine ⟨⟨queued, hsum⟩, ⟨queued, hqueued, hsum⟩, fun status m' henabled hstop => ?_,
    fun fd buffer events m' henabled hstep => ?_⟩
  · obtain ⟨events, m'', c', hok, -⟩ | ⟨path, fuel, hcall, -⟩ |
      ⟨status', m'', -, -, -, hshutdown, hflushed⟩ := hsteady.step_cases boot.rootFs henabled
    · rw [hok] at hstop
      cases hstop
    · cases hcall
    · rw [hshutdown] at hstop
      cases hstop
      rw [hflushed, hqueued.flushOutput.2.1, hsum]
  · have hcurrent := hsteady.top_of_write henabled
    rw [step, Steady.writeCall_eq hsteady.inv hcurrent] at hstep
    cases hstep
    have hfds := hrun.streams ⟨c.top.process, c.top.thread.id⟩ List.mem_cons_self fd
    refine ⟨_, _, _, rfl, (write_spec hfds hqueued buffer).1, fun queued' hqueued' => ?_⟩
    exact (write_spec hfds hqueued' buffer).2.1

/-- A write, a flush, another write, and the exit of the bootstrap process. -/
theorem terminal_output_pipeline_hi :
    ∃ r, sampleBoot.exec [.yieldNow, .write 1 (strBytes "hi"), .yieldNow, .service [97], .yieldNow,
        .write 2 (strBytes "!")] = some r ∧
      r.1.console.screen = strBytes "hi" ∧ reported r.2 = strBytes "hi!" ∧
      ∀ status m', Enabled r.1 (.exit status) →
        step none (.exit status) r.1 = .error .shutDown m' →
        m'.console.screen = reported r.2 := by
  obtain ⟨r, hr⟩ := Option.isSome_iff_exists.mp (by decide +kernel :
    (sampleBoot.exec [.yieldNow, .write 1 (strBytes "hi"), .yieldNow, .service [97], .yieldNow,
      .write 2 (strBytes "!")]).isSome = true)
  have hfacts : ((sampleBoot.exec [.yieldNow, .write 1 (strBytes "hi"), .yieldNow, .service [97],
      .yieldNow, .write 2 (strBytes "!")]).map fun r => (r.1.console.screen, reported r.2)) =
      some (strBytes "hi", strBytes "hi!") := by decide +kernel
  rw [hr] at hfacts
  simp only [Option.map_some, Option.some.injEq, Prod.mk.injEq] at hfacts
  exact ⟨r, hr, hfacts.1, hfacts.2, (terminal_output_pipeline (run_of_exec hr)).2.2.1⟩

/-! ## The serial mirror -/

/-- A write to a terminal finds room for its whole buffer. -/
def Fits (m : Machine) (call : Call) : Prop :=
  ∀ fd buffer, call = .write fd buffer → ∀ th pr endpoint, m.current = some th →
    m.scheduler.process? th.processId = some pr →
    pr.resolveFd fd = some (.terminalEndpoint endpoint) →
    buffer.length + (m.console.endpoints endpoint).output.len ≤ terminalOutputCapacity

/-- Runs in which every call satisfies `Q` when it is made. -/
inductive RunWhere (boot : Boot) (Q : Machine → Call → Prop) : Machine → List Event → Prop where
  | start {m : Machine} (booted : boot.start = some m) : RunWhere boot Q m []
  | step {m m' : Machine} {trace events : List Event} {call : Call}
      (run : RunWhere boot Q m trace) (enabled : Enabled m call) (holds : Q m call)
      (stepped : step boot.rootFs call m = .ok events m') : RunWhere boot Q m' (trace ++ events)

theorem RunWhere.run {boot : Boot} {Q : Machine → Call → Prop} {m : Machine} {trace : List Event}
    (h : RunWhere boot Q m trace) : Run boot m trace := by
  induction h with
  | start booted => exact run_of_start booted
  | step run enabled holds stepped ih => exact ih.step enabled stepped

theorem take_succ_eq_take_iff {buffer : List UInt8} {k : Nat} :
    buffer.take (k + 1) = buffer.take k ↔ buffer.length ≤ k := by
  constructor
  · intro h
    have hlen := congrArg List.length h
    rw [List.length_take, List.length_take] at hlen
    omega
  · intro h
    rw [List.take_of_length_le (by omega), List.take_of_length_le h]

/-- **One write and the mirror**: they agree exactly when the buffer fits. -/
theorem serial_write {pr : Process} {quiet : Bool} {fd : Nat} {c : Console}
    {queued : List UInt8} (hfd : pr.resolveFd fd = streamOf quiet fd)
    (h : c.Queued primaryEndpoint queued) (buffer : List UInt8) :
    (pr.write fd buffer c).2.serial =
        c.serial ++ accepted (pr.resolveFd fd) buffer (pr.write fd buffer c).1 ↔
      ∀ endpoint, pr.resolveFd fd = some (.terminalEndpoint endpoint) →
        buffer.length + (c.endpoints endpoint).output.len ≤ terminalOutputCapacity := by
  rw [(write_spec hfd h buffer).2.2.2, List.append_cancel_left_eq]
  obtain hnone | hnull | hterminal := streamOf_cases quiet fd
  · rw [hfd, hnone]
    simp [accepted]
  · rw [hfd, hnull]
    simp [accepted]
  · rw [Process.write, hfd, hterminal]
    obtain ⟨c', hrun, -⟩ := Process.writeFrom_spec h buffer 0
    have htake : buffer.take (min buffer.length (terminalOutputCapacity - queued.length)) =
        buffer.take (terminalOutputCapacity - queued.length) := by
      rw [Nat.min_comm, ← List.take_take, List.take_length]
    dsimp only [accepted]
    rw [hrun, Nat.zero_add, htake, take_succ_eq_take_iff]
    have hlen := h.len_eq
    have hle := h.len_le
    constructor
    · intro hfits endpoint hendpoint
      cases hendpoint
      omega
    · intro hfits
      have hprimary := hfits primaryEndpoint rfl
      omega

/-- A call that is not a write leaves the mirror alone and reports nothing. -/
theorem ConsoleStep.serial_eq {rootFs : Option Fat32} {stack : List Member} {c c' : Console}
    {trace events : List Event} (run : StackRun rootFs stack trace) {queued : List UInt8}
    (hqueued : c.Queued primaryEndpoint queued) (hstep : ConsoleStep stack c events c')
    (hsilent : ∀ e ∈ events, e.isWrite = false) : c'.serial = c.serial := by
  cases hstep with
  | quiet => rfl
  | read top rest _ fd room =>
    exact (read_spec (run.streams top List.mem_cons_self fd) hqueued room).2.2
  | wrote => exact absurd (hsilent _ List.mem_cons_self) (by simp [Event.isWrite])
  | serviced _ _ input => exact (serviceTerminal_spec hqueued input).2.2

/-- **One step of the mirror**: it stays equal exactly when the call fits. -/
theorem serial_step {boot : Boot} {m m' : Machine} {trace events : List Event} {call : Call}
    (run : Run boot m trace) (hequal : m.console.serial = reported trace)
    (henabled : Enabled m call) (hstep : step boot.rootFs call m = .ok events m') :
    m'.console.serial = reported (trace ++ events) ↔ Fits m call := by
  obtain ⟨c, hsteady, hrun, queued, hqueued, -⟩ := run.pipeline
  rw [reported_append, ← hequal]
  by_cases hwrite : ∃ fd buffer, call = .write fd buffer
  · obtain ⟨fd, buffer, rfl⟩ := hwrite
    have hcurrent := hsteady.top_of_write henabled
    have hfds := hrun.streams ⟨c.top.process, c.top.thread.id⟩ List.mem_cons_self fd
    rw [step, Steady.writeCall_eq hsteady.inv hcurrent] at hstep
    cases hstep
    have hreported : reported [.wrote c.top.process.id fd (c.top.process.resolveFd fd) buffer
        (c.top.process.write fd buffer m.console).1] = accepted (c.top.process.resolveFd fd)
          buffer (c.top.process.write fd buffer m.console).1 := List.append_nil _
    rw [hreported]
    refine (serial_write hfds hqueued buffer).trans ?_
    -- The caller is the process of the current thread.
    have hcaller : m.current = some c.top.thread := by
      rw [Machine.current, hcurrent]
      exact hsteady.inv.thread?_of_mem (mem_threads top_mem)
    have hprocess : m.scheduler.process? c.top.thread.processId = some c.top.process := by
      rw [hsteady.inv.ok.owner c.top List.mem_cons_self]
      exact hsteady.inv.process?_top
    constructor
    · intro hfits fd' buffer' hcall th pr endpoint hth hpr hfd
      cases hcall
      rw [hcaller] at hth
      cases hth
      rw [hprocess] at hpr
      cases hpr
      exact hfits endpoint hfd
    · intro hfits endpoint hfd
      exact hfits fd buffer rfl c.top.thread c.top.process endpoint hcaller hprocess hfd
  · have hfits : Fits m call := fun fd buffer hcall => absurd ⟨fd, buffer, hcall⟩ hwrite
    refine ⟨fun _ => hfits, fun _ => ?_⟩
    obtain ⟨events', m'', c', hok, -, heffect, hconsole⟩ | ⟨path, fuel, -, hstop⟩ |
      ⟨status, m'', -, -, -, hstop, -⟩ := hsteady.step_cases boot.rootFs henabled
    · rw [hok] at hstep
      cases hstep
      have hsilent := hsteady.step_silent henabled
        (fun fd buffer hcall => hwrite ⟨fd, buffer, hcall⟩) hok
      rw [reported_eq_nil hsilent, List.append_nil]
      exact hconsole.serial_eq hrun hqueued hsilent
    · rw [hstop] at hstep
      cases hstep
    · rw [hstop] at hstep
      cases hstep

/-- **The serial mirror over runs whose writes fit.** There the mirror is what the queue took, in
every state; and a call keeps the two equal exactly when it fits. -/
theorem serial_mirrors_fitting_runs (boot : Boot) :
    (∀ m trace, RunWhere boot Fits m trace → m.console.serial = reported trace) ∧
    ∀ m trace call events m', Run boot m trace → m.console.serial = reported trace →
      Enabled m call → step boot.rootFs call m = .ok events m' →
      (m'.console.serial = reported (trace ++ events) ↔ Fits m call) := by
  constructor
  · intro m trace run
    induction run with
    | start booted =>
      rw [Boot.start] at booted
      split at booted
      · cases booted
        rfl
      · cases booted
    | step run enabled holds stepped ih =>
      exact (serial_step run.run ih enabled stepped).mpr holds
  · intro m trace call events m' run hequal henabled hstep
    exact serial_step run hequal henabled hstep

/-- The bootstrap process at its first call. -/
theorem sample_bootstrap_current :
    ∃ r th pr, sampleBoot.exec [.yieldNow] = some r ∧ r.1.console.serial = reported r.2 ∧
      r.1.current = some th ∧ (∃ entryPoint stackTop, th.start = .user entryPoint stackTop) ∧
      r.1.scheduler.process? th.processId = some pr ∧
      pr.resolveFd 1 = some (.terminalEndpoint primaryEndpoint) ∧
      (r.1.console.endpoints primaryEndpoint).output.len = 0 := by
  obtain ⟨r, hr⟩ := Option.isSome_iff_exists.mp (by decide +kernel :
    (sampleBoot.exec [.yieldNow]).isSome = true)
  have hsinks : ((sampleBoot.exec [.yieldNow]).map fun r =>
      (r.1.console.serial, reported r.2, (r.1.console.endpoints primaryEndpoint).output.len)) =
      some ([], [], 0) := by decide +kernel
  have hcaller : ((sampleBoot.exec [.yieldNow]).bind fun r => r.1.current.map Thread.start) =
      some (.user 0x400000 0x7ffff000) := by decide +kernel
  have hstream : ((sampleBoot.exec [.yieldNow]).bind fun r => r.1.current.bind fun th =>
      (r.1.scheduler.process? th.processId).bind (·.resolveFd 1)) =
      some (.terminalEndpoint primaryEndpoint) := by decide +kernel
  rw [hr] at hsinks hcaller hstream
  simp only [Option.map_some, Option.some.injEq, Prod.mk.injEq] at hsinks
  simp only [Option.bind_some] at hcaller hstream
  obtain ⟨hserial, hreported, hempty⟩ := hsinks
  obtain ⟨th, hth, hstart⟩ := Option.map_eq_some_iff.mp hcaller
  obtain ⟨th', hth', hprocess⟩ := Option.bind_eq_some_iff.mp hstream
  rw [hth] at hth'
  cases hth'
  obtain ⟨pr, hpr, hfd⟩ := Option.bind_eq_some_iff.mp hprocess
  exact ⟨r, th, pr, hr, hserial.trans hreported.symm, hth, ⟨_, _, hstart⟩, hpr, hfd, hempty⟩

theorem Enabled.of_user {m : Machine} {th : Thread} (hth : m.current = some th)
    (huser : ∃ entryPoint stackTop, th.start = .user entryPoint stackTop) (fd : Nat)
    (buffer : List UInt8) : Enabled m (.write fd buffer) := by
  obtain ⟨entryPoint, stackTop, hstart⟩ := huser
  refine Machine.enabled_of_current hth ?_
  rw [hstart]
  exact trivial

/-- A write that fits. -/
theorem serial_mirrors_first_write :
    ∃ r events m', sampleBoot.exec [.yieldNow] = some r ∧
      step none (.write 1 (strBytes "hi")) r.1 = .ok events m' ∧
      m'.console.serial = reported (r.2 ++ events) := by
  obtain ⟨r, th, pr, hr, hequal, hth, huser, hpr, hfd, hempty⟩ := sample_bootstrap_current
  have henabled := Enabled.of_user hth huser 1 (strBytes "hi")
  obtain ⟨c, hsteady, -⟩ := (run_of_exec hr).stackRun
  have hstep := Steady.writeCall_eq hsteady.inv (hsteady.top_of_write henabled) 1 (strBytes "hi")
  refine ⟨r, _, _, hr, hstep, ((serial_mirrors_fitting_runs sampleBoot).2 _ _ _ _ _
    (run_of_exec hr) hequal henabled hstep).mpr ?_⟩
  intro fd buffer hcall th' pr' endpoint hth' hpr' hfd'
  cases hcall
  rw [hth] at hth'
  cases hth'
  rw [hpr] at hpr'
  cases hpr'
  rw [hfd] at hfd'
  cases hfd'
  rw [hempty]
  decide

/-- **A write that does not fit**: 1025 bytes into the empty queue. The last byte is refused, but
it is in the mirror. -/
theorem serial_mirrors_refused_byte :
    ¬ ∀ boot m trace, Run boot m trace → m.console.serial = reported trace := by
  intro hclaim
  obtain ⟨r, th, pr, hr, hequal, hth, huser, hpr, hfd, hempty⟩ := sample_bootstrap_current
  have henabled := Enabled.of_user hth huser 1 (List.replicate 1025 97)
  obtain ⟨c, hsteady, -⟩ := (run_of_exec hr).stackRun
  have hstep : step sampleBoot.rootFs (.write 1 (List.replicate 1025 97)) r.1 = _ :=
    Steady.writeCall_eq hsteady.inv (hsteady.top_of_write henabled) 1 (List.replicate 1025 97)
  have hafter := hclaim _ _ _ ((run_of_exec hr).step henabled hstep)
  have hfits := (serial_step (run_of_exec hr) hequal henabled hstep).mp hafter
  have hle := hfits 1 _ rfl th pr primaryEndpoint hth hpr hfd
  rw [hempty, List.length_replicate, terminalOutputCapacity] at hle
  omega

end Lazers.Scheduler
