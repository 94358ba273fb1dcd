import Lazers.Kernel.Process
import Lazers.Memory.Loader

/-!
# Scheduler state (`scheduler/state.rs`, `thread.rs`)

Two tables, of processes and of threads, in which the index of a slot is the
identifier. `SchedM` is a computation on the scheduler cell; the panics of
`process` and `thread` (`expect("invalid process id")`) are its failures.

A saved `ThreadContext` is abstracted to where the thread will continue when it
is switched to: `Resume`.
-/

namespace Lazers.Scheduler

open Kernel Memory

def maxProcesses : Nat := 8
def maxThreads : Nat := 12
def threadStackSize : Nat := 64 * 1024

/-! ## Threads -/

inductive ThreadState where
  | runnable
  | running
  | blocked
deriving DecidableEq, Repr

inductive ThreadBlockReason where
  | none
  | waitingForChild (process : ProcessId)
deriving DecidableEq, Repr

/-- The entry points of the two kernel threads. -/
inductive KernelThreadEntry where
  | terminalThreadEntry
  | idleThreadEntry
deriving DecidableEq, Repr

inductive ThreadStart where
  | kernel (entry : KernelThreadEntry)
  | user (entryPoint userStackTop : Nat)
deriving DecidableEq, Repr

/-- What a saved context continues with: the entry trampoline, the return of
`yield_now`, or the second half of `wait_for_child`. -/
inductive Resume where
  | entry
  | afterYield
  | afterWait
deriving DecidableEq, Repr

structure Thread where
  id : ThreadId
  processId : ProcessId
  start : ThreadStart
  state : ThreadState
  blockReason : ThreadBlockReason
  waitResult : Option Nat
  context : Resume
  kernelStackTop : Nat
deriving DecidableEq, Repr

namespace Thread

/-- `Thread::new`. -/
def new (id : ThreadId) (processId : ProcessId) (start : ThreadStart) (context : Resume)
    (kernelStackTop : Nat) : Thread where
  id
  processId
  start
  state := .runnable
  blockReason := .none
  waitResult := none
  context
  kernelStackTop

def setState (t : Thread) (state : ThreadState) : Thread := { t with state }

/-- `block_for_child`. -/
def blockForChild (t : Thread) (process : ProcessId) : Thread :=
  { t with state := .blocked, blockReason := .waitingForChild process }

/-- `wake`. -/
def wake (t : Thread) : Thread := { t with state := .runnable, blockReason := .none }

def setWaitResult (t : Thread) (status : Nat) : Thread := { t with waitResult := some status }

/-- `take_wait_result`: the result, and the thread without it. -/
def takeWaitResult (t : Thread) : Option Nat × Thread := (t.waitResult, { t with waitResult := none })

/-- What `context_switch` saves. -/
def saveContext (t : Thread) (context : Resume) : Thread := { t with context }

/-- `matches!(state, Runnable | Running)`. -/
def canRun (t : Thread) : Bool := t.state = .runnable ∨ t.state = .running

end Thread

/-! ## The cell -/

structure SchedulerState where
  processes : Vector (Option Process) maxProcesses
  threads : Vector (Option Thread) maxThreads
  /-- The address of the `stacks` array. -/
  stacksAddress : Nat
  currentThread : Option ThreadId
  idleThread : Option ThreadId
deriving DecidableEq

/-- The messages of the `expect`s. -/
inductive Panic where
  | invalidProcessId
  | invalidThreadId
  | processCapacityExhausted
  | threadCapacityExhausted
  | failedToSeedBootstrapEnvironment
deriving DecidableEq, Repr

abbrev SchedM := EStateM Panic SchedulerState

namespace SchedulerState

/-- `SchedulerState::new`. -/
def new (stacksAddress : Nat) : SchedulerState where
  processes := Vector.replicate maxProcesses none
  threads := Vector.replicate maxThreads none
  stacksAddress
  currentThread := none
  idleThread := none

/-- Slot `p` of the process table. -/
def process? (s : SchedulerState) (p : ProcessId) : Option Process := SlotTable.get s.processes p

/-- Slot `t` of the thread table. -/
def thread? (s : SchedulerState) (t : ThreadId) : Option Thread := SlotTable.get s.threads t

def putProcess (s : SchedulerState) (p : ProcessId) (process : Option Process) : SchedulerState :=
  { s with processes := SlotTable.put s.processes p process }

def putThread (s : SchedulerState) (t : ThreadId) (thread : Option Thread) : SchedulerState :=
  { s with threads := SlotTable.put s.threads t thread }

/-- `self.current_thread = t`. -/
def setCurrent (s : SchedulerState) (t : Option ThreadId) : SchedulerState :=
  { s with currentThread := t }

end SchedulerState

open SchedulerState

/-- `process`; an index past the table panics too. -/
def process (p : ProcessId) : SchedM Process := fun s =>
  match s.process? p with
  | some process => .ok process s
  | none => .error .invalidProcessId s

/-- `thread`. -/
def thread (t : ThreadId) : SchedM Thread := fun s =>
  match s.thread? t with
  | some thread => .ok thread s
  | none => .error .invalidThreadId s

/-- A call on `process_mut(p)`. -/
def modifyProcess (p : ProcessId) (f : Process → Process) : SchedM Unit := do
  let old ← process p
  modify (putProcess · p (some (f old)))

/-- A call on `thread_mut(t)`. -/
def modifyThread (t : ThreadId) (f : Thread → Thread) : SchedM Unit := do
  let old ← thread t
  modify (putThread · t (some (f old)))

/-! ## Creation -/

structure ProcessConfig where
  addressSpace : AddressSpace
  terminalEndpoint : Option EndpointRef
  ownedPages : OwnedPages
  exitAction : ProcessExitAction

/-- The handles of `try_create_process`. -/
def installTerminal (endpoint : EndpointRef) : EStateM Unit Process Unit := do
  let stdin ← Process.installHandle (.terminalEndpoint endpoint)
  let stdout ← Process.installHandle (.terminalEndpoint endpoint)
  let stderr ← Process.installHandle (.terminalEndpoint endpoint)
  modify (Process.setStdio · { stdin, stdout, stderr })

/-- `try_create_process`. -/
def tryCreateProcess (config : ProcessConfig) : SchedM (Option ProcessId) := do
  let s ← get
  match SlotTable.firstFree s.processes with
  | none => return none
  | some slot =>
    let process := Process.new slot config.addressSpace config.ownedPages config.exitAction
    match config.terminalEndpoint with
    | none =>
      modify (putProcess · slot (some process))
      return some slot
    | some endpoint =>
      match installTerminal endpoint process with
      | .error _ _ => return none
      | .ok _ process =>
        modify (putProcess · slot (some process))
        return some slot

/-- `initial_context_for`: the context and the top of the stack of a slot. -/
def initialContextFor (s : SchedulerState) (slot : Nat) : Resume × Nat :=
  (.entry, alignDown (s.stacksAddress + (slot + 1) * threadStackSize) 16)

/-- `try_create_thread`. -/
def tryCreateThread (processId : ProcessId) (start : ThreadStart) : SchedM (Option ThreadId) := do
  let s ← get
  match SlotTable.firstFree s.threads with
  | none => return none
  | some slot =>
    let (context, kernelStackTop) := initialContextFor s slot
    modify (putThread · slot (some (Thread.new slot processId start context kernelStackTop)))
    return some slot

/-- The program that `spawn_child_process` hands back from a child it gives up. -/
def returnProgram (program : LoadedUserProgram) (child : Process) : LoadedUserProgram :=
  { program with addressSpace := child.addressSpace, ownedPages := child.takeOwnedPages.1 }

/-- `spawn_child_process`. -/
def spawnChildProcess (parentThread : ThreadId) (program : LoadedUserProgram)
    (silentStdio : Bool) : SchedM (Except LoadedUserProgram ProcessId) := do
  let parentProcessId := (← thread parentThread).processId
  let s ← get
  match SlotTable.firstFree s.processes with
  | none => return .error program
  | some slot =>
    let parent ← process parentProcessId
    let child := Process.new slot program.addressSpace program.ownedPages .continue
    match (if silentStdio then parent.inheritStdioSilentInto else parent.inheritStdioInto)
        child with
    | .error _ child => return .error (returnProgram program child)
    | .ok _ child =>
      match parent.inheritCwdInto child with
      | .error _ child => return .error (returnProgram program child)
      | .ok _ child =>
        match parent.inheritEnvInto child with
        | .error _ child => return .error (returnProgram program child)
        | .ok _ child =>
          modify (putProcess · slot (some (child.setWaitingThread parentThread)))
          match ← tryCreateThread slot (.user program.entryPoint program.userStackTop) with
          | some _ => return .ok slot
          | none =>
            let child ← process slot
            modify (putProcess · slot none)
            return .error (returnProgram program child)

/-! ## Choosing a thread -/

/-- The loop of `next_non_idle_runnable_thread`. -/
def nextNonIdleFrom (s : SchedulerState) (start : Nat) : (rounds offset : Nat) → Option ThreadId
  | 0, _ => none
  | rounds + 1, offset =>
    match s.thread? ((start + offset) % maxThreads) with
    | none => nextNonIdleFrom s start rounds (offset + 1)
    | some thread =>
      if some thread.id = s.idleThread then nextNonIdleFrom s start rounds (offset + 1)
      else if thread.canRun then some thread.id
      else nextNonIdleFrom s start rounds (offset + 1)

/-- `next_non_idle_runnable_thread`. -/
def nextNonIdleRunnableThread (s : SchedulerState) (current : Option ThreadId) : Option ThreadId :=
  let start := match current with
    | none => 0
    | some t => (t + 1) % maxThreads
  nextNonIdleFrom s start maxThreads 0

/-- `next_runnable_thread`. -/
def nextRunnableThread (current : Option ThreadId) : SchedM (Option ThreadId) := do
  let s ← get
  match nextNonIdleRunnableThread s current with
  | some t => return some t
  | none =>
    match s.idleThread with
    | none => return none
    | some idle => return if (← thread idle).canRun then some idle else none

structure ThreadActivation where
  threadId : ThreadId
  kernelStackTop : Nat
  addressSpace : AddressSpace
deriving DecidableEq

/-- `activation`. -/
def activation (t : ThreadId) : SchedM ThreadActivation := do
  let thread ← thread t
  let process ← process thread.processId
  return { threadId := t, kernelStackTop := thread.kernelStackTop, addressSpace := process.addressSpace }

/-! ## Switches -/

/-- Where a switch goes; the contexts are those of `current` and `next`. -/
structure PreparedSwitch where
  current : ThreadId
  next : ThreadId
  nextSpace : AddressSpace
  nextStackTop : Nat
deriving DecidableEq

/-- The common end of the two functions below. -/
def preparedSwitch (current next : ThreadId) : SchedM PreparedSwitch := do
  let _ ← thread current
  let _ ← thread next
  let activation ← activation next
  return {
    current
    next
    nextSpace := activation.addressSpace
    nextStackTop := activation.kernelStackTop }

/-- `prepare_switch`. -/
def prepareSwitch (blockCurrent : Bool) : SchedM (Option PreparedSwitch) := do
  match (← get).currentThread with
  | none => return none
  | some current =>
    match ← nextRunnableThread (some current) with
    | none => return none
    | some next =>
      if next = current ∧ blockCurrent = false then return none
      else
        modifyThread current (·.setState (if blockCurrent then .blocked else .runnable))
        modifyThread next (·.setState .running)
        modify (setCurrent · (some next))
        return some (← preparedSwitch current next)

/-- `prepare_wait_for_child`. -/
def prepareWaitForChild (childProcess : ProcessId) : SchedM (Option PreparedSwitch) := do
  match (← get).currentThread with
  | none => return none
  | some current =>
    modifyThread current (·.blockForChild childProcess)
    match ← nextRunnableThread (some current) with
    | none => return none
    | some next =>
      modifyThread next (·.setState .running)
      modify (setCurrent · (some next))
      return some (← preparedSwitch current next)

structure ExitedThreadSwitch where
  next : ThreadId
  nextSpace : AddressSpace
  nextStackTop : Nat
  releasedPages : OwnedPages
deriving DecidableEq

inductive ProcessExit where
  | switch (exited : ExitedThreadSwitch)
  | shutdown (releasedPages : OwnedPages)
deriving DecidableEq

/-- The part of `prepare_exit_current_process` that picks the next thread: the waiter,
with its result, if there is one. -/
def exitSuccessor (currentThread : ThreadId) (status : Nat) (waitingThread : Option ThreadId) :
    SchedM (Option ThreadId) := do
  match waitingThread with
  | some waiting =>
    modifyThread waiting (fun t => (t.setWaitResult status).wake)
    return some waiting
  | none => nextRunnableThread (some currentThread)

/-- `prepare_exit_current_process`. -/
def prepareExitCurrentProcess (status : Nat) : SchedM (Option ProcessExit) := do
  match (← get).currentThread with
  | none => return none
  | some currentThread =>
    let processId := (← thread currentThread).processId
    modifyProcess processId (·.markExited status)
    let (waitingThread, unwaited) := (← process processId).takeWaitingThread
    modify (putProcess · processId (some unwaited))
    let exitAction := unwaited.exitAction
    modify (putThread · currentThread none)
    let (releasedPages, emptied) := (← process processId).takeOwnedPages
    modify (putProcess · processId (some emptied))
    modify (putProcess · processId none)
    match exitAction with
    | .shutdownSystem =>
      modify (setCurrent · none)
      return some (.shutdown releasedPages)
    | .continue =>
      match ← exitSuccessor currentThread status waitingThread with
      | none => return none
      | some next =>
        modify (setCurrent · (some next))
        modifyThread next (·.setState .running)
        let activation ← activation next
        let _ ← thread next
        return some (.switch {
          next
          nextSpace := activation.addressSpace
          nextStackTop := activation.kernelStackTop
          releasedPages })

/-! ## `core.rs` -/

/-- The choice of `start`; `none` halts. -/
def startThread : SchedM (Option ThreadActivation) := do
  match ← nextRunnableThread none with
  | none => return none
  | some t =>
    modify (setCurrent · (some t))
    modifyThread t (·.setState .running)
    return some (← activation t)

/-- `context_switch`: the running thread's context is saved. -/
def contextSwitch (current : ThreadId) (context : Resume) : SchedM Unit :=
  modifyThread current (·.saveContext context)

/-- The second half of `wait_for_child`: `take_wait_result` on the current thread. -/
def finishWait : SchedM (Option Nat) := do
  match (← get).currentThread with
  | none => return none
  | some current =>
    let (result, emptied) := (← thread current).takeWaitResult
    modify (putThread · current (some emptied))
    return result

end Lazers.Scheduler
