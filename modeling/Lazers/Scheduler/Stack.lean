import Lazers.Lib.OrderedMap
import Lazers.Scheduler.Run

/-!
# The stack of user processes

What a run is about once the tables are forgotten: the user processes form a stack, the
newest on top. Only the process on top makes calls; a spawn pushes its child, an exit
pops it and hands the status to the process below.

- `replay`: what a call means for the process that makes it, alone with the disk.
- `Effect`: what a step does to the stack, with its events.
- `StackRun`: the stacks and traces reached from the bootstrap process.
-/

namespace Lazers.Scheduler

open Kernel Memory Storage OrderedMap

/-! ## Calls of a process on its own -/

/-- What a process can ask about itself. -/
structure Content where
  env : List (String × String)
  cwd : String
deriving DecidableEq

def contentOf (pr : Process) : Content := ⟨pr.env.pairs, pr.cwd⟩

open Classical in
/-- The content a call leaves. -/
noncomputable def replay (rootFs : Option Fat32) (content : Content) : OwnCall → Content
  | .setEnv key value =>
    if Environment.setError key value content.env = none then
      { content with env := put key value content.env }
    else content
  | .unsetEnv key => { content with env := del key content.env }
  | .chdir path =>
    match resolvePath content.cwd path with
    | .error _ => content
    | .ok target => if RootAccepts rootFs target then { content with cwd := target } else content

/-- **A call of `pr` on itself** that leaves `pr'`. -/
structure Own (rootFs : Option Fat32) (pr : Process) (call : OwnCall)
    (result : Except CallError Unit) (pr' : Process) : Prop where
  frame : pr' = { pr with cwdBytes := pr'.cwdBytes, cwdLen := pr'.cwdLen, env := pr'.env }
  ready : pr'.Ready
  content : contentOf pr' = replay rootFs (contentOf pr) call
  failed : ∀ e, result = .error e → contentOf pr' = contentOf pr

/-! ## The stack -/

/-- A user process, with the slot of its only thread. -/
structure Member where
  process : Process
  thread : ThreadId

/-- **One step** of the stack. -/
inductive Effect (rootFs : Option Fat32) : List Member → List Event → List Member → Prop where
  | quiet (stack : List Member) : Effect rootFs stack [] stack
  | spawned (parent child : Member) {rest : List Member} {program : LoadedUserProgram}
      {inherited : Process} {silent : Bool}
      (inherits : Process.Inherited parent.process
        (Process.new child.process.id program.addressSpace program.ownedPages .continue) inherited
          silent)
      (waits : child.process = inherited.setWaitingThread parent.thread)
      (fresh : ∀ m ∈ parent :: rest, m.process.id ≠ child.process.id ∧ m.thread ≠ child.thread) :
      Effect rootFs (parent :: rest)
        [.spawned parent.process.id parent.thread child.process.id silent]
        (child :: parent :: rest)
  | exited (top : Member) {parent : Member} {rest : List Member} (status : Nat) :
      Effect rootFs (top :: parent :: rest)
        [.exited top.process.id status, .waitReturned parent.thread (some status)]
        (parent :: rest)
  | called (top : Member) {rest : List Member} {call : OwnCall} {result : Except CallError Unit}
      {pr : Process} (own : Own rootFs top.process call result pr) :
      Effect rootFs (top :: rest) [.called top.process.id call result]
        (⟨pr, top.thread⟩ :: rest)
  | wrote (top : Member) {rest : List Member} (fd : Nat) (buffer : List UInt8) (written : Nat) :
      Effect rootFs (top :: rest)
        [.wrote top.process.id fd (top.process.resolveFd fd) buffer written] (top :: rest)

/-- **What a step does to the console**, with the process on top of the stack as the caller. -/
inductive ConsoleStep : List Member → Console → List Event → Console → Prop where
  | quiet (stack : List Member) (console : Console) {events : List Event}
      (silent : ∀ e ∈ events, e.isWrite = false) : ConsoleStep stack console events console
  | read (top : Member) (rest : List Member) (console : Console) (fd room : Nat) :
      ConsoleStep (top :: rest) console [] (top.process.read fd room console).2
  | wrote (top : Member) (rest : List Member) (console : Console) (fd : Nat)
      (buffer : List UInt8) :
      ConsoleStep (top :: rest) console
        [.wrote top.process.id fd (top.process.resolveFd fd) buffer
          (top.process.write fd buffer console).1]
        (top.process.write fd buffer console).2
  | serviced (stack : List Member) (console : Console) (input : List UInt8) :
      ConsoleStep stack console [] (serviceTerminal input console)

/-- The process `kernel_main` sets up. -/
structure Bootstrap (first : Member) : Prop where
  content : contentOf first.process = ⟨[("PATH", "/system/bin:/bin")], "/"⟩
  streams : ∀ fd < 3, first.process.resolveFd fd = some (.terminalEndpoint primaryEndpoint)

/-- **Runs of the stack**, with their events in order. -/
inductive StackRun (rootFs : Option Fat32) : List Member → List Event → Prop where
  | start {first : Member} (boots : Bootstrap first) : StackRun rootFs [first] []
  | step {stack stack' : List Member} {trace events : List Event} (run : StackRun rootFs stack trace)
      (effect : Effect rootFs stack events stack') : StackRun rootFs stack' (trace ++ events)

/-! ### Facts about the calls -/

section

variable {rootFs : Option Fat32} {pr pr' : Process}

/-- Streams are not among what a process can change. -/
theorem Own.resolveFd {call : OwnCall} {result : Except CallError Unit}
    (h : Own rootFs pr call result pr') (fd : Nat) : pr'.resolveFd fd = pr.resolveFd fd := by
  rw [h.frame]
  rfl

theorem Own.id {call : OwnCall} {result : Except CallError Unit}
    (h : Own rootFs pr call result pr') : pr'.id = pr.id := by
  rw [h.frame]

end

/-- A wait that returns, returns a status. -/
theorem StackRun.waitReturned_ne_none {rootFs : Option Fat32} {stack : List Member}
    {trace : List Event} (run : StackRun rootFs stack trace) (t : ThreadId) :
    .waitReturned t none ∉ trace := by
  induction run with
  | start boots => exact List.not_mem_nil
  | step run effect ih =>
    intro hmem
    obtain hold | hnew := List.mem_append.mp hmem
    · exact ih hold
    · cases effect <;> simp at hnew

end Lazers.Scheduler
