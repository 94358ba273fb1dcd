import Lazers.Scheduler.Run

/-!
# What becomes of a spawned program (`SchedulerState::spawn_child_process`)

The program is moved into a new process before most of what can go wrong has been tried,
and the last thing that can go wrong comes after the process was put into its slot. On
every failing way out but the first the program is put together again from the child.

Nothing that a child inherits touches its address space or its pages (`KeepsOwner`). So the
program ends up in exactly one place (`spawnChildProcess_cases`): in the tables, or back
with the caller, as it was and with the tables as they were (`spawnChildProcess_refused`).
No invariant of the tables is used.
-/

namespace Lazers.Scheduler

open Kernel Memory SlotTable SchedulerState

/-- What a process has of the memory: its address space and its pages. -/
def owner (pr : Process) : AddressSpace × OwnedPages := (pr.addressSpace, pr.ownedPages)

/-- What a program brings along. -/
def brings (program : LoadedUserProgram) : AddressSpace × OwnedPages :=
  (program.addressSpace, program.ownedPages)

theorem returnProgram_eq {program : LoadedUserProgram} {child : Process}
    (h : owner child = brings program) : returnProgram program child = program := by
  obtain ⟨hspace, hpages⟩ := Prod.mk.inj h
  rw [returnProgram, hspace, Process.takeOwnedPages, hpages]

/-! ## Calls that leave a process its memory -/

/-- On success and on failure alike. -/
def KeepsOwner {ε α : Type} (x : EStateM ε Process α) : Prop :=
  ∀ o, Triple (owner · = o) x (fun _ pr => owner pr = o) fun _ pr => owner pr = o

section

variable {ε α β : Type}

theorem KeepsOwner.bind {x : EStateM ε Process α} {f : α → EStateM ε Process β}
    (hx : KeepsOwner x) (hf : ∀ a, KeepsOwner (f a)) : KeepsOwner (x >>= f) :=
  fun o => Triple.bind (hx o) fun a => hf a o

theorem installHandle_keeps (object : KernelObject) : KeepsOwner (Process.installHandle object) := by
  intro o child h
  rw [Process.installHandle]
  cases firstFree child.handles with
  | none => exact h
  | some index => exact h

theorem orFail_keeps (x : Option α) : KeepsOwner (Process.orFail x) := by
  intro o child h
  cases x with
  | none => exact h
  | some a => exact h

theorem setStdio_keeps (stdio : Kernel.StdioHandles) :
    KeepsOwner (modify (Process.setStdio · stdio) : EStateM Unit Process PUnit) :=
  fun _ => Triple.modify fun _ h => h

theorem setCwd_keeps (cwd : String) : KeepsOwner (Process.setCwd cwd) := by
  intro o child h
  obtain ⟨-, -, child', hset, -, hframe⟩ | ⟨-, hset⟩ := Process.setCwd_cases cwd child
  · rw [hset]
    show owner child' = o
    rw [hframe]
    exact h
  · rw [hset]
    exact h

theorem onEnv_keeps (f : EStateM EnvironmentError Environment α) :
    KeepsOwner (Process.onEnv f) := by
  intro o child h
  rw [Process.onEnv]
  cases f child.env with
  | ok _ env => exact h
  | error e env => exact h

theorem inheritStdio_keeps (parent : Process) (silent : Bool) :
    KeepsOwner (if silent then parent.inheritStdioSilentInto else parent.inheritStdioInto) := by
  cases silent with
  | true =>
    refine (orFail_keeps _).bind fun object => ?_
    refine (installHandle_keeps object).bind fun stdin => ?_
    refine (installHandle_keeps _).bind fun stdout => ?_
    exact (installHandle_keeps _).bind fun stderr => setStdio_keeps _
  | false =>
    refine (orFail_keeps _).bind fun object₀ => ?_
    refine (installHandle_keeps object₀).bind fun stdin => ?_
    refine (orFail_keeps _).bind fun object₁ => ?_
    refine (installHandle_keeps object₁).bind fun stdout => ?_
    refine (orFail_keeps _).bind fun object₂ => ?_
    exact (installHandle_keeps object₂).bind fun stderr => setStdio_keeps _

end

/-! ## The two ways out -/

/-- Looking up a thread only reads. -/
theorem thread_reads {s s' : SchedulerState} {t : ThreadId} {th : Thread}
    (h : thread t s = .ok th s') : s' = s ∧ s.thread? t = some th := by
  rw [thread] at h
  cases hslot : s.thread? t with
  | none =>
    rw [hslot] at h
    cases h
  | some th' =>
    rw [hslot] at h
    cases h
    exact ⟨rfl, rfl⟩

theorem process_reads {s s' : SchedulerState} {p : ProcessId} {pr : Process}
    (h : process p s = .ok pr s') : s' = s ∧ s.process? p = some pr := by
  rw [process] at h
  cases hslot : s.process? p with
  | none =>
    rw [hslot] at h
    cases h
  | some pr' =>
    rw [hslot] at h
    cases h
    exact ⟨rfl, rfl⟩

/-- `try_create_thread` fills the first free slot. -/
theorem tryCreateThread_cases (p : ProcessId) (start : ThreadStart) (s : SchedulerState) :
    (firstFree s.threads = none ∧ tryCreateThread p start s = .ok none s) ∨
    ∃ slot th, firstFree s.threads = some slot ∧ th.processId = p ∧
      tryCreateThread p start s = .ok (some slot) (s.putThread slot (some th)) := by
  rw [tryCreateThread, EStateM.get_bind]
  cases hfree : firstFree s.threads with
  | none => exact .inl ⟨rfl, rfl⟩
  | some slot => exact .inr ⟨slot, _, rfl, rfl, rfl⟩

/-- Taking the child out of its slot again leaves the table as it was. -/
theorem putProcess_undone {s : SchedulerState} {slot : Nat} (hfree : firstFree s.processes = some slot)
    (child : Process) : (s.putProcess slot (some child)).putProcess slot none = s := by
  have hput : put (put s.processes slot (some child)) slot none = s.processes := by
    rw [put_put, put_of_get (firstFree_eq_some hfree).2]
  show ({ s with processes := put (put s.processes slot (some child)) slot none } : SchedulerState) = s
  rw [hput]

/-- The program is in the tables: a child that has its memory, and a thread of the child. -/
structure Installed (s s' : SchedulerState) (program : LoadedUserProgram) (slot : ProcessId) :
    Prop where
  free : firstFree s.processes = some slot
  state : ∃ child t th, owner child = brings program ∧ firstFree s.threads = some t ∧
    th.processId = slot ∧ s' = (s.putProcess slot (some child)).putThread t (some th)

/-- After everything was inherited: the child goes into its slot, and comes out of it again
when there is no slot for its thread. -/
theorem install_cases {s s' : SchedulerState} {slot : Nat} {child : Process} {start : ThreadStart}
    {program : LoadedUserProgram} {r : Except LoadedUserProgram ProcessId}
    (hfree : firstFree s.processes = some slot) (hchild : owner child = brings program)
    (h : (do
      modify (putProcess · slot (some child))
      match ← tryCreateThread slot start with
      | some _ => return .ok slot
      | none =>
        let child ← process slot
        modify (putProcess · slot none)
        return .error (returnProgram program child) :
          SchedM (Except LoadedUserProgram ProcessId)) s = .ok r s') :
    (r = .error program ∧ s' = s) ∨ ∃ slot, r = .ok slot ∧ Installed s s' program slot := by
  rw [EStateM.modify_bind] at h
  obtain ⟨-, hcreate⟩ | ⟨t, th, hthread, howner, hcreate⟩ :=
    tryCreateThread_cases slot start (s.putProcess slot (some child))
  · rw [EStateM.bind_of_ok hcreate] at h
    dsimp only at h
    obtain ⟨found, s₂, hfound, hrest⟩ := EStateM.bind_eq_ok.mp h
    obtain ⟨rfl, hslot⟩ := process_reads hfound
    -- what is found in the slot is the child that was put there
    rw [process?, putProcess, get_put_self (firstFree_eq_some hfree).1] at hslot
    obtain rfl := Option.some.inj hslot
    rw [EStateM.modify_bind, putProcess_undone hfree] at hrest
    cases hrest
    exact .inl ⟨by rw [returnProgram_eq hchild], rfl⟩
  · rw [EStateM.bind_of_ok hcreate] at h
    cases h
    exact .inr ⟨slot, rfl, hfree, child, t, th, hchild, hthread, howner, rfl⟩

/-- **What becomes of the program**: it comes back, and nothing has changed, or it is in the
tables. -/
theorem spawnChildProcess_cases {s s' : SchedulerState} {parentThread : ThreadId}
    {program : LoadedUserProgram} {silent : Bool} {r : Except LoadedUserProgram ProcessId}
    (h : spawnChildProcess parentThread program silent s = .ok r s') :
    (r = .error program ∧ s' = s) ∨ ∃ slot, r = .ok slot ∧ Installed s s' program slot := by
  rw [spawnChildProcess] at h
  obtain ⟨th, s₁, hthread, hrun⟩ := EStateM.bind_eq_ok.mp h
  obtain ⟨rfl, -⟩ := thread_reads hthread
  clear h
  rw [EStateM.get_bind] at hrun
  cases hfree : firstFree s₁.processes with
  | none =>
    rw [hfree] at hrun
    cases hrun
    exact .inl ⟨rfl, rfl⟩
  | some slot =>
    rw [hfree] at hrun
    dsimp only at hrun
    obtain ⟨parent, s₂, hparent, hrest⟩ := EStateM.bind_eq_ok.mp hrun
    obtain ⟨rfl, -⟩ := process_reads hparent
    clear hrun
    have hnew : owner (Process.new slot program.addressSpace program.ownedPages .continue) =
        brings program := rfl
    -- a child that is given up still has what the program brought
    have hgiven : ∀ child, owner child = brings program →
        (.ok (.error (returnProgram program child)) s₂ :
          EStateM.Result Panic SchedulerState (Except LoadedUserProgram ProcessId)) = .ok r s' →
        (r = .error program ∧ s' = s₂) ∨ ∃ slot, r = .ok slot ∧ Installed s₂ s' program slot := by
      rintro child hchild heq
      cases heq
      exact .inl ⟨by rw [returnProgram_eq hchild], rfl⟩
    cases hstdio : (if silent then parent.inheritStdioSilentInto else parent.inheritStdioInto)
        (Process.new slot program.addressSpace program.ownedPages .continue) with
    | error e child =>
      rw [hstdio] at hrest
      exact hgiven child ((inheritStdio_keeps parent silent _).error hnew hstdio) hrest
    | ok _ c₁ =>
      have hc₁ := (inheritStdio_keeps parent silent _).ok hnew hstdio
      rw [hstdio] at hrest
      dsimp only at hrest
      cases hcwd : parent.inheritCwdInto c₁ with
      | error e child =>
        rw [hcwd] at hrest
        exact hgiven child ((setCwd_keeps parent.cwd _).error hc₁ hcwd) hrest
      | ok _ c₂ =>
        have hc₂ := (setCwd_keeps parent.cwd _).ok hc₁ hcwd
        rw [hcwd] at hrest
        dsimp only at hrest
        cases henv : parent.inheritEnvInto c₂ with
        | error e child =>
          rw [henv] at hrest
          exact hgiven child ((onEnv_keeps parent.env.inheritInto _).error hc₂ henv) hrest
        | ok _ c₃ =>
          have hc₃ := (onEnv_keeps parent.env.inheritInto _).ok hc₂ henv
          rw [henv] at hrest
          dsimp only at hrest
          have hchild : owner (c₃.setWaitingThread parentThread) = brings program := hc₃
          exact install_cases hfree hchild hrest

/-- **A refused spawn changes nothing** and hands the program back as it was, for every
state of the scheduler, wherever it failed. -/
theorem spawnChildProcess_refused {s s' : SchedulerState} {parentThread : ThreadId}
    {program program' : LoadedUserProgram} {silent : Bool}
    (h : spawnChildProcess parentThread program silent s = .ok (.error program') s') :
    program'.addressSpace = program.addressSpace ∧ program'.entryPoint = program.entryPoint ∧
      program'.userStackTop = program.userStackTop ∧ program'.ownedPages = program.ownedPages ∧
      s'.processes = s.processes ∧ s'.threads = s.threads ∧
      s'.currentThread = s.currentThread ∧ s'.idleThread = s.idleThread := by
  obtain ⟨heq, rfl⟩ | ⟨slot, heq, -⟩ := spawnChildProcess_cases h
  · obtain rfl := Except.error.inj heq
    exact ⟨rfl, rfl, rfl, rfl, rfl, rfl, rfl, rfl⟩
  · cases heq

/-- One process that can be inherited from, and no slot for a thread. -/
def crowded : SchedulerState where
  processes := put (Vector.replicate maxProcesses none) 0
    (some { Process.new 0 ⟨0x1000⟩ OwnedPages.empty .continue with
      handles := Vector.replicate Kernel.maxProcessHandles (some .null)
      stdio := ⟨0, 1, 2⟩ })
  threads := Vector.replicate maxThreads
    (some (Thread.new 0 0 (.kernel .idleThreadEntry) .entry 0x210000))
  stacksAddress := 0x200000
  currentThread := some 0
  idleThread := none

def isRefused : EStateM.Result Panic SchedulerState (Except LoadedUserProgram ProcessId) → Bool
  | .ok (.error _) _ => true
  | _ => false

/-- The last way out: the child had a slot, and its thread has none. -/
theorem spawnChildProcess_refused_at_crowded :
    firstFree crowded.processes = some 1 ∧ firstFree crowded.threads = none ∧
      ∃ program' s', spawnChildProcess 0 sampleProgram false crowded = .ok (.error program') s' ∧
        program'.ownedPages = sampleProgram.ownedPages ∧ s'.processes = crowded.processes := by
  refine ⟨by decide, by decide, ?_⟩
  have hrefused : isRefused (spawnChildProcess 0 sampleProgram false crowded) = true := by
    decide +kernel
  rw [isRefused.eq_def] at hrefused
  split at hrefused
  · rename_i program' s' hrun
    obtain ⟨-, -, -, hpages, hprocesses, -⟩ := spawnChildProcess_refused hrun
    exact ⟨program', s', hrun, hpages, hprocesses⟩
  · cases hrefused

end Lazers.Scheduler
