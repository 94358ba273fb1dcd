import Lazers.Scheduler.Services

/-!
# Runs of the kernel (`scheduler/core.rs`, `syscall.rs`, `main.rs`)

The scheduler is cooperative: from one context switch to the next only the current
thread acts. A step is one system call of a user thread, one round of the terminal
thread's service loop, or a yield; if it switches, the thread switched to continues
where it left off (`resume`), which for a parent is the second half of
`wait_for_child`.

- `step`: what one call does, with the events it gives rise to.
- `Run`: the machines and traces reached from the boot configuration.
-/

namespace Lazers.Scheduler

open Kernel Memory Storage SchedulerState

/-! ## Calls and events -/

/-- What the current thread does next. Text arrives as bytes from user memory. -/
inductive Call where
  | yieldNow
  | exit (status : Nat)
  | spawnWait (path : List UInt8) (silent : Bool)
      (load : String → Except SpawnError LoadedUserProgram)
  | setEnv (key value : List UInt8)
  | unsetEnv (key : List UInt8)
  | chdir (path : List UInt8) (fuel : Nat)
  | read (fd room : Nat)
  | write (fd : Nat) (buffer : List UInt8)
  | service (input : List UInt8)

/-- A call that changes only the process that makes it. -/
inductive OwnCall where
  | setEnv (key value : String)
  | unsetEnv (key : String)
  | chdir (path : String)

inductive CallError where
  | env (error : EnvironmentAccessError)
  | storage (error : StorageError)
deriving DecidableEq, Repr

/-- What a step lets the processes see. -/
inductive Event where
  | spawned (parent : ProcessId) (thread : ThreadId) (child : ProcessId) (silent : Bool)
  | exited (process : ProcessId) (status : Nat)
  | waitReturned (thread : ThreadId) (result : Option Nat)
  | called (process : ProcessId) (call : OwnCall) (result : Except CallError Unit)
  | wrote (process : ProcessId) (fd : Nat) (object : Option KernelObject) (buffer : List UInt8)
      (written : Nat)

def Event.isWrite : Event → Bool
  | .wrote _ _ _ _ _ => true
  | _ => false

structure Machine where
  scheduler : SchedulerState
  console : Console

/-- Why a step has no successor: a panic, a disk loop that has not returned, `halt_forever`,
or the shutdown when the bootstrap process exits. -/
inductive Halt where
  | panicked (panic : Panic)
  | unfinished
  | halted
  | shutDown
deriving DecidableEq, Repr

abbrev MachineM := EStateM Halt Machine

/-- A call on the scheduler cell. -/
def onScheduler {α : Type} (x : SchedM α) : MachineM α := fun m =>
  match x m.scheduler with
  | .ok a s => .ok a { m with scheduler := s }
  | .error p s => .error (.panicked p) { m with scheduler := s }

/-! ## Steps -/

/-- The thread that became current continues: after `wait_for_child` it takes its result. -/
def resume : SchedM (List Event) := do
  match (← get).currentThread with
  | none => return []
  | some t =>
    match (← thread t).context with
    | .afterWait => return [.waitReturned t (← finishWait)]
    | .entry | .afterYield => return []

/-- `yield_now`. -/
def yieldNow : SchedM (List Event) := do
  match ← prepareSwitch false with
  | none => return []
  | some switch =>
    contextSwitch switch.current .afterYield
    resume

/-- The two spawn calls: a path that is not text is an invalid path. -/
def spawnWait (path : List UInt8) (silent : Bool)
    (load : String → Except SpawnError LoadedUserProgram) : SchedM (List Event) := do
  match fromUtf8 path, ← currentProcess with
  | none, _ | _, none => return []
  | some path, some (parent, _) =>
    match ← spawnUserProcessAndWait load path silent with
    | .failed _ => return []
    | .waitFailed => return [.waitReturned ((← get).currentThread.getD 0) none]
    | .waiting child switch =>
      contextSwitch switch.current .afterWait
      return .spawned parent switch.current child silent :: (← resume)

/-- `exit_current_process`. -/
def exitCurrentProcess (status : Nat) : MachineM (List Event) := do
  match ← onScheduler currentProcess with
  | none => throw .halted
  | some (process, _) =>
    match ← onScheduler (prepareExitCurrentProcess status) with
    | none => throw .halted
    | some (.shutdown _) =>
      -- `flush_primary_output`, then the power goes off.
      modify fun m => { m with console := m.console.flushOutput primaryEndpoint }
      throw .shutDown
    | some (.switch _) => return .exited process status :: (← onScheduler resume)

/-- `syscall_set_env`. -/
def setEnvCall (key value : List UInt8) : SchedM (List Event) := do
  match fromUtf8 key, fromUtf8 value, ← currentProcess with
  | some key, some value, some (process, _) =>
    let result ← currentProcessSetEnv key value
    return [.called process (.setEnv key value) (result.mapError .env)]
  | _, _, _ => return []

/-- `syscall_unset_env`. -/
def unsetEnvCall (key : List UInt8) : SchedM (List Event) := do
  match fromUtf8 key, ← currentProcess with
  | some key, some (process, _) =>
    let result ← currentProcessUnsetEnv key
    return [.called process (.unsetEnv key) (result.mapError .env)]
  | _, _ => return []

/-- `syscall_chdir`. -/
def chdirCall (rootFs : Option Fat32) (fuel : Nat) (path : List UInt8) :
    MachineM (List Event) := do
  match fromUtf8 path, ← onScheduler currentProcess with
  | some path, some (process, _) =>
    match ← onScheduler (currentProcessChdir rootFs fuel path) with
    | .ok _ => return [.called process (.chdir path) (.ok ())]
    | .error (.storage e) => return [.called process (.chdir path) (.error (.storage e))]
    | .error .outOfFuel => throw .unfinished
  | _, _ => return []

/-- `syscall_write`. -/
def writeCall (fd : Nat) (buffer : List UInt8) : MachineM (List Event) := do
  match ← onScheduler currentProcess with
  | none => return []
  | some (process, caller) =>
    let (written, console) ← onScheduler (currentProcessWrite fd buffer (← get).console)
    modify fun m => { m with console }
    return [.wrote process fd (caller.resolveFd fd) buffer written]

/-- `syscall_read`; the bytes go to user memory. -/
def readCall (fd room : Nat) : MachineM (List Event) := do
  let (_, console) ← onScheduler (currentProcessRead fd room (← get).console)
  modify fun m => { m with console }
  return []

/-- One round of `terminal_thread_entry`: key presses become input, pending output goes to the
screen. -/
def serviceTerminal (input : List UInt8) (c : Console) : Console :=
  let c := input.foldl (fun c byte => (c.pushInputByte primaryEndpoint byte).2) c
  c.flushOutput primaryEndpoint

/-- **One step.** -/
def step (rootFs : Option Fat32) : Call → MachineM (List Event)
  | .yieldNow => onScheduler yieldNow
  | .exit status => exitCurrentProcess status
  | .spawnWait path silent load => onScheduler (spawnWait path silent load)
  | .setEnv key value => onScheduler (setEnvCall key value)
  | .unsetEnv key => onScheduler (unsetEnvCall key)
  | .chdir path fuel => chdirCall rootFs fuel path
  | .read fd room => readCall fd room
  | .write fd buffer => writeCall fd buffer
  | .service input => do
    modify fun m => { m with console := serviceTerminal input m.console }
    return []

/-- The calls a thread makes: the kernel threads run the loops of `main.rs`, which service the
terminal and yield; user threads make system calls. -/
def Allowed : ThreadStart → Call → Prop
  | .kernel .terminalThreadEntry, .yieldNow => True
  | .kernel .terminalThreadEntry, .service _ => True
  | .kernel .idleThreadEntry, .yieldNow => True
  | .user _ _, .service _ => False
  | .user _ _, _ => True
  | _, _ => False

/-- Calls of the current thread. -/
def Enabled (m : Machine) (call : Call) : Prop :=
  ∃ t th, m.scheduler.currentThread = some t ∧ m.scheduler.thread? t = some th ∧
    Allowed th.start call

/-- How the machine starts: the memory the linker gave the stacks, and what `kernel_main` loaded
before it set the scheduler up. -/
structure Boot where
  stacksAddress : Nat
  kernelSpace : AddressSpace
  userProgram : LoadedUserProgram
  rootFs : Option Fat32

/-- **Runs**, with their events in order. -/
inductive Run (boot : Boot) : Machine → List Event → Prop where
  | start {s : SchedulerState} {activation : ThreadActivation}
      (booted : bootScheduler boot.kernelSpace boot.userProgram (SchedulerState.new
        boot.stacksAddress) = .ok (some activation) s) :
      Run boot { scheduler := s, console := Console.new } []
  | step {m m' : Machine} {trace events : List Event} {call : Call} (run : Run boot m trace)
      (enabled : Enabled m call) (stepped : step boot.rootFs call m = .ok events m') :
      Run boot m' (trace ++ events)

/-! ## Executing a run -/

instance (start : ThreadStart) (call : Call) : Decidable (Allowed start call) := by
  cases start with
  | kernel entry => cases entry <;> cases call <;> unfold Allowed <;> infer_instance
  | user _ _ => cases call <;> unfold Allowed <;> infer_instance

/-- The thread that makes the next call. -/
def Machine.current (m : Machine) : Option Thread :=
  m.scheduler.currentThread.bind m.scheduler.thread?

theorem Machine.enabled_of_current {m : Machine} {th : Thread} {call : Call}
    (hth : m.current = some th) (h : Allowed th.start call) : Enabled m call := by
  obtain ⟨t, ht, hget⟩ := Option.bind_eq_some_iff.mp hth
  exact ⟨t, th, ht, hget, h⟩

/-- The machine `kernel_main` starts. -/
def Boot.start (boot : Boot) : Option Machine :=
  match bootScheduler boot.kernelSpace boot.userProgram (SchedulerState.new boot.stacksAddress) with
  | .ok (some _) s => some { scheduler := s, console := Console.new }
  | _ => none

/-- A call of the current thread, if it makes such calls and the call returns. -/
def Boot.execCall (boot : Boot) (r : Machine × List Event) (call : Call) :
    Option (Machine × List Event) := do
  let th ← r.1.current
  if Allowed th.start call then
    match step boot.rootFs call r.1 with
    | .ok events m => return (m, r.2 ++ events)
    | .error _ _ => none
  else none

/-- The state and trace after some calls. -/
def Boot.exec (boot : Boot) (calls : List Call) : Option (Machine × List Event) := do
  calls.foldlM boot.execCall (← boot.start, [])

/-- What was executed is a step. -/
theorem step_of_execCall {boot : Boot} {r r' : Machine × List Event} {call : Call}
    (h : boot.execCall r call = some r') :
    ∃ events, Enabled r.1 call ∧ step boot.rootFs call r.1 = .ok events r'.1 ∧
      r'.2 = r.2 ++ events := by
  rw [Boot.execCall] at h
  obtain ⟨th, hth, h⟩ := Option.bind_eq_some_iff.mp h
  split_ifs at h with hallowed
  cases hstep : step boot.rootFs call r.1 with
  | error halt m =>
    rw [hstep] at h
    cases h
  | ok events m =>
    rw [hstep] at h
    cases h
    exact ⟨events, Machine.enabled_of_current hth hallowed, rfl, rfl⟩

theorem run_execCall {boot : Boot} {r r' : Machine × List Event} {call : Call}
    (run : Run boot r.1 r.2) (h : boot.execCall r call = some r') : Run boot r'.1 r'.2 := by
  obtain ⟨events, henabled, hstep, htrace⟩ := step_of_execCall h
  rw [htrace]
  exact run.step henabled hstep

theorem run_of_start {boot : Boot} {m : Machine} (h : boot.start = some m) : Run boot m [] := by
  rw [Boot.start] at h
  split at h
  · cases h
    exact .start ‹_›
  · cases h

/-- **What was executed is a run.** -/
theorem run_of_exec {boot : Boot} {calls : List Call} {r : Machine × List Event}
    (h : boot.exec calls = some r) : Run boot r.1 r.2 := by
  rw [Boot.exec] at h
  obtain ⟨m, hstart, h⟩ := Option.bind_eq_some_iff.mp h
  -- Call by call, with the run so far.
  suffices hcalls : ∀ (calls : List Call) (r₀ : Machine × List Event), Run boot r₀.1 r₀.2 →
      calls.foldlM boot.execCall r₀ = some r → Run boot r.1 r.2 from
    hcalls calls (m, []) (run_of_start hstart) h
  intro calls
  induction calls with
  | nil =>
    intro r₀ hr₀ heq
    cases heq
    exact hr₀
  | cons call rest ih =>
    intro r₀ hr₀ heq
    rw [List.foldlM_cons] at heq
    obtain ⟨r₁, hcall, hrest⟩ := Option.bind_eq_some_iff.mp heq
    exact ih r₁ (run_execCall hr₀ hcall) hrest

/-- A program without pages, for executing runs. -/
def sampleProgram : LoadedUserProgram where
  addressSpace := ⟨0x5000⟩
  entryPoint := 0x400000
  userStackTop := 0x7ffff000
  ownedPages := OwnedPages.empty

/-- A machine without a disk. -/
def sampleBoot : Boot where
  stacksAddress := 0x200000
  kernelSpace := ⟨0x1000⟩
  userProgram := sampleProgram
  rootFs := none

/-- A spawn of the sample program. -/
def sampleSpawn (silent : Bool) : Call := .spawnWait (strBytes "/x") silent fun _ => .ok sampleProgram

end Lazers.Scheduler
