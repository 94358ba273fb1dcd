import Lazers.Scheduler.Owners
import Lazers.Storage.FileBuffer

/-!
# The whole kernel, step by step (`scheduler/core.rs`, `scheduler/services.rs`, `main.rs`)

The scheduler, the memory and the address space the processor uses, over whole runs. A
step is one call of a kernel function, so that a spawn or a switch takes several; what the
kernel then has in local variables, and what it does next, is its `Phase`. A spawn reads
the file into a buffer, loads it, releases the buffer, puts the child into the tables and
waits for it; an exit activates the next address space before it releases the pages.

The frames of an address space are recorded beside the state (`KernelState.frames`): what
was taken from the allocator while the space was built, whoever keeps account of it.

A failed assertion of the allocator, a panic and `halt_forever` end a run.
-/

namespace Lazers.Scheduler

open Kernel Memory Storage SchedulerState

/-! ## States -/

/-- What the kernel does next. -/
inductive Phase where
  /-- The current thread runs. -/
  | running
  /-- `read_root_file` has returned. -/
  | loading (normalizedPath : String) (argvTail : List UInt8) (silent : Bool) (file : KernelBuffer)
  /-- `load_user_program` has returned. -/
  | loaded (silent : Bool) (file : KernelBuffer) (result : Except MemoryError LoadedUserProgram)
  | spawning (silent : Bool) (program : LoadedUserProgram)
  /-- `spawn_child_process` has handed the program back. -/
  | refused (program : LoadedUserProgram)
  | spawned (child : ProcessId)
  /-- A switch is prepared; `context` is where the current thread will continue. -/
  | switching (switch : PreparedSwitch) (context : Resume)
  /-- Its address space is active. -/
  | switched (current : ThreadId) (context : Resume)
  /-- `prepare_exit_current_process` has returned. -/
  | exiting (exited : ExitedThreadSwitch)
  /-- The next address space is active. -/
  | exited (releasedPages : OwnedPages)
  /-- Control is back in the thread that is current now. -/
  | resuming
  | shutDown (releasedPages : OwnedPages)

namespace Phase

/-- The file that is held. -/
def file : Phase → Option KernelBuffer
  | .loading _ _ _ file | .loaded _ file _ => some file
  | _ => none

/-- The pages that belong to no process of the table. -/
def pages : Phase → List Nat
  | .loaded _ _ (.ok program) | .spawning _ program | .refused program => program.ownedPages.list
  | .exiting switch => switch.releasedPages.list
  | .exited releasedPages | .shutDown releasedPages => releasedPages.list
  | _ => []

end Phase

structure KernelState where
  machine : Machine
  memory : MemoryState
  /-- What `activate_address_space` was called with last. -/
  active : AddressSpace
  /-- The frames of each address space, by its root. -/
  frames : Nat → Set Nat
  phase : Phase

abbrev KernelState.scheduler (k : KernelState) : SchedulerState := k.machine.scheduler

/-! ## Boot -/

/-- The pages of `AhciController::initialize`. -/
def controllerPages : EStateM MemoryError MemoryState (Nat × Nat × Nat × Nat) := do
  let commandListPaddr ← MemoryState.allocatePage
  let fisPaddr ← MemoryState.allocatePage
  let commandTablePaddr ← MemoryState.allocatePage
  let dmaBufferPaddr ← MemoryState.allocatePage
  return (commandListPaddr, fisPaddr, commandTablePaddr, dmaBufferPaddr)

/-- The machine `kernel_main` starts on. -/
structure KernelBoot where
  bootInfo : BootInfo
  image : KernelImage
  /-- The address of the `stacks` array. -/
  stacksAddress : Nat
  /-- `INITIAL_USER_PROGRAM`. -/
  initialUserProgram : String

/-- What `kernel_main` starts: the kernel's mappings, the pages of the disk driver, the first
program (`load_user_program_from_disk`), and the scheduler. -/
inductive KernelBoot.Starts (boot : KernelBoot) : KernelState → Prop where
  | start {run : KernelRun} {pages : Nat × Nat × Nat × Nat} {s₁ s₂ s₃ s₄ : MemoryState}
      {kernelSpace : AddressSpace} {rootFs : Option Fat32} {fuel : Nat} {file : KernelBuffer}
      {program : LoadedUserProgram} {activation : ThreadActivation} {s : SchedulerState}
      (mapped : KernelRun.Reachable boot.bootInfo boot.image (fun _ _ _ => True) run)
      (controller : controllerPages run.state = .ok pages s₁)
      (kernel : s₁.kernelSpace = some kernelSpace)
      (read : readRootFile rootFs fuel boot.initialUserProgram s₁ = (.ok file, s₂))
      (load : loadUserProgram (file.asSlice s₂) ⟨boot.initialUserProgram, []⟩ s₂ =
        some (.ok program, s₃))
      (released : file.release s₃ = some s₄)
      (booted : bootScheduler kernelSpace program (SchedulerState.new boot.stacksAddress) =
        .ok (some activation) s) :
      boot.Starts {
        machine := { scheduler := s, console := Console.new }
        memory := s₄
        active := activation.addressSpace
        frames := Function.update (Function.update (fun _ => ∅) kernelSpace.rootPaddr run.tables)
          program.addressSpace.rootPaddr (s₂.free \ s₃.free)
        phase := .running }

/-! ## Steps -/

/-- The current thread runs in user mode: it makes system calls, and it traps. -/
def UserCurrent (s : SchedulerState) : Prop :=
  ∃ t th entryPoint userStackTop, s.currentThread = some t ∧ s.thread? t = some th ∧
    th.start = .user entryPoint userStackTop

/-- **One step.** The disk may fail at any time, so that each read is from a disk of its own. -/
inductive KernelStep : KernelState → KernelState → Prop where
  /-- Programs, devices and the kernel's copies to user memory store bytes. -/
  | store {k : KernelState} (phys : ByteMemory) (running : k.phase = .running) :
      KernelStep k { k with memory.phys := phys }
  /-- The calls that neither switch nor spawn. -/
  | call {k : KernelState} {rootFs : Option Fat32} {call : Call} {m : Machine}
      {events : List Event} (running : k.phase = .running) (stays : call.Stays)
      (enabled : Enabled k.machine call) (returned : step rootFs call k.machine = .ok events m) :
      KernelStep k { k with machine := m }
  -- `yield_now`
  | yieldStays {k : KernelState} {s : SchedulerState} (running : k.phase = .running)
      (prepared : prepareSwitch false k.scheduler = .ok none s) :
      KernelStep k { k with machine.scheduler := s }
  | yieldSwitches {k : KernelState} {switch : PreparedSwitch} {s : SchedulerState}
      (running : k.phase = .running)
      (prepared : prepareSwitch false k.scheduler = .ok (some switch) s) :
      KernelStep k { k with machine.scheduler := s, phase := .switching switch .afterYield }
  -- `spawn_user_process_and_wait_with_stdio`
  | readFails {k : KernelState} {rootFs : Option Fat32} {fuel : Nat} {path target : String}
      {p : ProcessId} {process : Process} {e : StorageError} {s : MemoryState}
      (running : k.phase = .running) (user : UserCurrent k.scheduler)
      (parent : currentProcess k.scheduler = .ok (some (p, process)) k.scheduler)
      (resolved : resolvePath process.cwd path = .ok target)
      (read : readRootFile rootFs fuel target k.memory = (.error (.storage e), s)) :
      KernelStep k { k with memory := s }
  | reads {k : KernelState} {rootFs : Option Fat32} {fuel : Nat} {path target : String}
      {p : ProcessId} {process : Process} {file : KernelBuffer} {s : MemoryState}
      (argvTail : List UInt8) (silent : Bool)
      (running : k.phase = .running) (user : UserCurrent k.scheduler)
      (parent : currentProcess k.scheduler = .ok (some (p, process)) k.scheduler)
      (resolved : resolvePath process.cwd path = .ok target)
      (read : readRootFile rootFs fuel target k.memory = (.ok file, s)) :
      KernelStep k { k with memory := s, phase := .loading target argvTail silent file }
  | loadFails {k : KernelState} {target : String} {argvTail : List UInt8} {silent : Bool}
      {file : KernelBuffer} {e : MemoryError} {s : MemoryState}
      (loading : k.phase = .loading target argvTail silent file)
      (load : loadUserProgram (file.asSlice k.memory) ⟨target, argvTail⟩ k.memory =
        some (.error e, s)) :
      KernelStep k { k with memory := s, phase := .loaded silent file (.error e) }
  | loads {k : KernelState} {target : String} {argvTail : List UInt8} {silent : Bool}
      {file : KernelBuffer} {program : LoadedUserProgram} {s : MemoryState}
      (loading : k.phase = .loading target argvTail silent file)
      (load : loadUserProgram (file.asSlice k.memory) ⟨target, argvTail⟩ k.memory =
        some (.ok program, s)) :
      KernelStep k { k with
        memory := s
        frames := Function.update k.frames program.addressSpace.rootPaddr (k.memory.free \ s.free)
        phase := .loaded silent file (.ok program) }
  | releaseFileFailed {k : KernelState} {silent : Bool} {file : KernelBuffer} {e : MemoryError}
      {s : MemoryState} (loaded : k.phase = .loaded silent file (.error e))
      (released : file.release k.memory = some s) :
      KernelStep k { k with memory := s, phase := .running }
  | releaseFile {k : KernelState} {silent : Bool} {file : KernelBuffer}
      {program : LoadedUserProgram} {s : MemoryState}
      (loaded : k.phase = .loaded silent file (.ok program))
      (released : file.release k.memory = some s) :
      KernelStep k { k with memory := s, phase := .spawning silent program }
  | refuses {k : KernelState} {current : ThreadId} {silent : Bool}
      {program program' : LoadedUserProgram} {s : SchedulerState}
      (spawning : k.phase = .spawning silent program)
      (isCurrent : k.scheduler.currentThread = some current)
      (spawned : spawnChildProcess current program silent k.scheduler = .ok (.error program') s) :
      KernelStep k { k with machine.scheduler := s, phase := .refused program' }
  | releaseProgram {k : KernelState} {program : LoadedUserProgram} {s : MemoryState}
      (refused : k.phase = .refused program)
      (released : program.ownedPages.release k.memory = some s) :
      KernelStep k { k with memory := s, phase := .running }
  | spawns {k : KernelState} {current : ThreadId} {silent : Bool} {program : LoadedUserProgram}
      {child : ProcessId} {s : SchedulerState} (spawning : k.phase = .spawning silent program)
      (isCurrent : k.scheduler.currentThread = some current)
      (spawned : spawnChildProcess current program silent k.scheduler = .ok (.ok child) s) :
      KernelStep k { k with machine.scheduler := s, phase := .spawned child }
  -- `wait_for_child`
  | waitFails {k : KernelState} {child : ProcessId} {s : SchedulerState}
      (spawned : k.phase = .spawned child)
      (prepared : prepareWaitForChild child k.scheduler = .ok none s) :
      KernelStep k { k with machine.scheduler := s, phase := .running }
  | waits {k : KernelState} {child : ProcessId} {switch : PreparedSwitch} {s : SchedulerState}
      (spawned : k.phase = .spawned child)
      (prepared : prepareWaitForChild child k.scheduler = .ok (some switch) s) :
      KernelStep k { k with machine.scheduler := s, phase := .switching switch .afterWait }
  -- the rest of a switch
  | activates {k : KernelState} {switch : PreparedSwitch} {context : Resume}
      (switching : k.phase = .switching switch context) :
      KernelStep k { k with
        active := switch.nextSpace
        phase := .switched switch.current context }
  | switches {k : KernelState} {current : ThreadId} {context : Resume} {s : SchedulerState}
      (switched : k.phase = .switched current context)
      (saved : contextSwitch current context k.scheduler = .ok () s) :
      KernelStep k { k with machine.scheduler := s, phase := .resuming }
  | resumes {k : KernelState} {events : List Event} {s : SchedulerState}
      (resuming : k.phase = .resuming) (resumed : resume k.scheduler = .ok events s) :
      KernelStep k { k with machine.scheduler := s, phase := .running }
  -- `exit_current_process`, which a system call and a trap in user mode end in
  | exits {k : KernelState} {status : Nat} {exited : ExitedThreadSwitch} {s : SchedulerState}
      (running : k.phase = .running) (user : UserCurrent k.scheduler)
      (prepared : prepareExitCurrentProcess status k.scheduler = .ok (some (.switch exited)) s) :
      KernelStep k { k with machine.scheduler := s, phase := .exiting exited }
  | activatesNext {k : KernelState} {exited : ExitedThreadSwitch}
      (exiting : k.phase = .exiting exited) :
      KernelStep k { k with active := exited.nextSpace, phase := .exited exited.releasedPages }
  | releasePages {k : KernelState} {releasedPages : OwnedPages} {s : MemoryState}
      (exited : k.phase = .exited releasedPages)
      (released : releasedPages.release k.memory = some s) :
      KernelStep k { k with memory := s, phase := .resuming }
  | shutsDown {k : KernelState} {status : Nat} {releasedPages : OwnedPages} {s : SchedulerState}
      (running : k.phase = .running) (user : UserCurrent k.scheduler)
      (prepared : prepareExitCurrentProcess status k.scheduler =
        .ok (some (.shutdown releasedPages)) s) :
      KernelStep k { k with machine.scheduler := s, phase := .shutDown releasedPages }

/-- **Runs** of the whole kernel. -/
inductive KernelBoot.Reaches (boot : KernelBoot) : KernelState → Prop where
  | start {k : KernelState} (starts : boot.Starts k) : boot.Reaches k
  | step {k k' : KernelState} (reaches : boot.Reaches k) (steps : KernelStep k k') :
      boot.Reaches k'

end Lazers.Scheduler
