import Lazers.Scheduler.Steps

/-!
# The boot configuration

`kernel_main` creates the kernel process with its terminal and idle threads and the
bootstrap process with its thread; `start` picks the first thread. That is steady, and
with `Steady.step_cases` every state of a run is: a run of the kernel is a run of the
stack (`Run.stackRun`).
-/

namespace Lazers.Scheduler

open Kernel Memory Storage SlotTable SchedulerState Config

section

variable {s : SchedulerState} {slot : Nat}

theorem createProcess_eq (hfree : firstFree s.processes = some slot) (space : AddressSpace)
    (pages : OwnedPages) (action : ProcessExitAction) :
    createProcess ⟨space, none, pages, action⟩ s =
      .ok slot (s.putProcess slot (some (Process.new slot space pages action))) := by
  have hcreate : tryCreateProcess ⟨space, none, pages, action⟩ s =
      .ok (some slot) (s.putProcess slot (some (Process.new slot space pages action))) := by
    rw [tryCreateProcess, EStateM.get_bind, hfree]
    rfl
  exact EStateM.bind_of_ok hcreate _

/-- With a terminal for its streams. -/
theorem createProcess_terminal_eq {s : SchedulerState} (slot : Nat)
    (hfree : firstFree s.processes = some slot) (space : AddressSpace) (endpoint : EndpointRef) (pages : OwnedPages)
    (action : ProcessExitAction) :
    ∃ pr, createProcess ⟨space, some endpoint, pages, action⟩ s =
        .ok slot (s.putProcess slot (some pr)) ∧
      pr = { Process.new slot space pages action with handles := pr.handles, stdio := pr.stdio } ∧
      ∀ fd < 3, pr.resolveFd fd = some (.terminalEndpoint endpoint) := by
  obtain ⟨pr, hinstall, hframe, h0, h1, h2⟩ := Process.install_three
    (Process.new slot space pages action) rfl (.terminalEndpoint endpoint)
    (.terminalEndpoint endpoint) (.terminalEndpoint endpoint)
  have hcreate : tryCreateProcess ⟨space, some endpoint, pages, action⟩ s =
      .ok (some slot) (s.putProcess slot (some pr)) := by
    have hinstall' : installTerminal endpoint (Process.new slot space pages action) =
        .ok () pr := hinstall
    rw [tryCreateProcess, EStateM.get_bind, hfree]
    dsimp only
    rw [hinstall']
    rfl
  refine ⟨pr, EStateM.bind_of_ok hcreate _, hframe, fun fd hfd => ?_⟩
  match fd with
  | 0 => exact h0
  | 1 => exact h1
  | 2 => exact h2

theorem createThread_eq (hfree : firstFree s.threads = some slot) (p : ProcessId)
    (start : ThreadStart) :
    createThread p start s = .ok slot (s.putThread slot
      (some (Thread.new slot p start .entry (initialContextFor s slot).2))) :=
  EStateM.bind_of_ok (tryCreateThread_eq hfree p start) _

end

/-- **The bootstrap process** after its environment is seeded. -/
theorem bootstrap_process (program : LoadedUserProgram) {pr : Process}
    (hframe : pr = { Process.new 1 program.addressSpace program.ownedPages .shutdownSystem with
      handles := pr.handles, stdio := pr.stdio })
    (hfds : ∀ fd < 3, pr.resolveFd fd = some (.terminalEndpoint primaryEndpoint)) :
    ∃ pr', Process.setEnv "PATH" "/system/bin:/bin" pr = .ok () pr' ∧ pr'.Ready ∧
      pr'.id = 1 ∧ pr'.waitingThread = none ∧ pr'.exitAction = .shutdownSystem ∧
      ∀ thread, Bootstrap ⟨pr', thread⟩ := by
  have henv : pr.env = Environment.new := by rw [hframe]; rfl
  have hcwd : pr.CwdIs "/" := by
    have hnew := Process.cwdIs_new 1 program.addressSpace program.ownedPages .shutdownSystem
    rw [hframe]
    exact ⟨hnew.used_eq, hnew.len_le, hnew.absolute⟩
  have hready : pr.Ready := by
    refine ⟨fun fd hfd => ⟨_, hfds fd hfd⟩, ?_, ?_⟩
    · rw [hcwd.cwd_eq]
      exact hcwd
    · rw [henv]
      exact Environment.valid_new
  have hpairs : pr.env.pairs = [] := by rw [henv]; rfl
  obtain ⟨e, hfails, -⟩ | ⟨-, env, hok, hvalid, hput⟩ :=
    hready.env.set_cases "PATH" "/system/bin:/bin"
  · have hfits : Environment.setError "PATH" "/system/bin:/bin" [] = none := by decide +kernel
    rw [hpairs, hfits] at hfails
    cases hfails
  · refine ⟨{ pr with env }, ?_, hready.withEnv hvalid, ?_, ?_, ?_, fun thread => ⟨?_, hfds⟩⟩
    · rw [Process.setEnv, Process.onEnv, hok]
    · rw [hframe]
      rfl
    · rw [hframe]
      rfl
    · rw [hframe]
      rfl
    · rw [contentOf, hput, hpairs]
      exact congrArg (Content.mk _) hcwd.cwd_eq

/-- What is in the tables when `start` is called. -/
structure Booted (s : SchedulerState) (c : Config) : Prop where
  processes : Holds s.processes Process.id c.processes
  threads : Holds s.threads Thread.id c.threads
  idle : s.idleThread = some c.idle.id
  ok : c.Ok
  rest : c.rest = c
  entries : ∀ t ∈ c.awake, t.context = .entry ∧ t.waitResult = none
  waiters : c.waiters = []
  first : Bootstrap ⟨c.top.process, c.top.thread.id⟩

/-- **`start`.** -/
theorem Booted.start {s : SchedulerState} {c : Config} (h : Booted s c) :
    ∃ activation s' c', startThread s = .ok (some activation) s' ∧ Steady s' c' ∧
      c'.stack = c.stack := by
  obtain ⟨next, hnext, he, hrun⟩ := nextRunnableThread_spec h.threads (mem_threads terminal_mem)
    (eligible_terminal h.threads h.idle h.rest) none
  have hawake : next ∈ c.awake := by
    obtain rfl | rfl := h.ok.eligible_cases h.idle hnext he
    · exact terminal_mem
    · exact top_mem
  have hinv : Inv ((s.setCurrent (some next.id)).putThread next.id
      (some (next.setState .running))) (c.settle next.id) :=
    Inv.of_rest h.ok hawake h.processes (h.ok.holds_run h.threads h.rest hawake) h.idle rfl
  have hget : (s.setCurrent (some next.id)).thread? next.id = some next :=
    h.threads.get_of_mem hnext
  have hmem : mark next.id next ∈ (c.settle next.id).threads :=
    mem_threads (mem_mapAwake _ hawake)
  obtain ⟨pr, -, hpr⟩ := hinv.process?_processId hmem
  have hactive := activation_eq (hinv.thread?_of_mem hmem) hpr
  refine ⟨⟨next.id, next.kernelStackTop, pr.addressSpace⟩, _, _, ?_,
    ⟨hinv, (h.entries _ top_mem).2, ?_, ?_⟩, stack_settle _ _⟩
  · rw [startThread, EStateM.bind_of_ok hrun]
    dsimp only
    rw [EStateM.modify_bind, EStateM.bind_of_ok (modifyThread_eq hget _)]
    exact EStateM.bind_of_ok hactive _
  · intro t ht _
    rw [settle, awake_mapAwake] at ht
    obtain ⟨t₀, ht₀, rfl⟩ := List.mem_map.mp ht
    intro heq
    have hentry := (h.entries t₀ ht₀).1
    exact Resume.noConfusion (hentry.symm.trans heq)
  · intro l hl
    have hnil : (c.settle next.id).waiters = [] := h.waiters
    rw [hnil] at hl
    cases hl

/-- The configuration `kernel_main` builds. -/
def bootConfig (kernel user : Process) (stackTop : Nat → Nat) (program : LoadedUserProgram) :
    Config where
  kernel
  terminal := Thread.new 0 0 (.kernel .terminalThreadEntry) .entry (stackTop 0)
  idle := Thread.new 2 0 (.kernel .idleThreadEntry) .entry (stackTop 2)
  top := {
    process := user
    thread := Thread.new 1 1 (.user program.entryPoint program.userStackTop) .entry (stackTop 1) }
  waiters := []

theorem bootConfig_ok {kernel user : Process} (stackTop : Nat → Nat) (program : LoadedUserProgram)
    (hkernel : kernel.id = 0) (hwaiter : kernel.waitingThread = none) (hid : user.id = 1)
    (hready : user.Ready) (hwaiting : user.waitingThread = none) (haction : user.exitAction = .shutdownSystem) :
    (bootConfig kernel user stackTop program).Ok where
  reasons := by
    intro t ht
    obtain rfl | rfl | rfl := mem_awake.mp ht
    · rfl
    · rfl
    · rfl
  kernelThreads := ⟨hkernel.symm, hkernel.symm⟩
  kernelWaiter := hwaiter
  entries := ⟨rfl, rfl⟩
  owner := by
    intro l hl
    obtain rfl := List.mem_singleton.mp hl
    exact hid.symm
  user := by
    intro l hl
    obtain rfl := List.mem_singleton.mp hl
    exact ⟨_, _, rfl⟩
  waits := .singleton _
  root := ⟨user, rfl, haction, hwaiting⟩
  ready := by
    intro pr hpr
    obtain rfl := List.mem_singleton.mp hpr
    exact hready

/-- The tables `kernel_main` fills, slot by slot. -/
theorem bootConfig_holds (kernel user : Process) (stackTop : Nat → Nat)
    (program : LoadedUserProgram) (hkernel : kernel.id = 0) (hid : user.id = 1) :
    Holds (put (put (Vector.replicate maxProcesses none) 0 (some kernel)) 1 (some user)) Process.id
        (bootConfig kernel user stackTop program).processes ∧
    Holds (put (put (put (Vector.replicate maxThreads none) 0
        (some (bootConfig kernel user stackTop program).terminal)) 1
          (some (bootConfig kernel user stackTop program).top.thread)) 2
            (some (bootConfig kernel user stackTop program).idle)) Thread.id
        (bootConfig kernel user stackTop program).threads := by
  constructor
  · have hone := (Holds.replicate_none (n := maxProcesses) Process.id).insert get_replicate_none
      (by decide) hkernel
    have hfree : get (put (Vector.replicate maxProcesses none) 0 (some kernel)) 1 = none := rfl
    exact (hone.insert hfree (by decide) hid).perm (List.Perm.swap _ _ _)
  · have hone := (Holds.replicate_none (n := maxThreads) Thread.id).insert
      (a := (bootConfig kernel user stackTop program).terminal) (i := 0) get_replicate_none
      (by decide) rfl
    have htwo := hone.insert (a := (bootConfig kernel user stackTop program).top.thread) (i := 1)
      rfl (by decide) rfl
    have hthree := htwo.insert (a := (bootConfig kernel user stackTop program).idle) (i := 2)
      rfl (by decide) rfl
    exact hthree.perm (List.perm_append_singleton _ [_, _])

/-- **Boot**: `kernel_main` gets to its first thread, with one user process. -/
theorem boot_spec (stacksAddress : Nat) (kernelSpace : AddressSpace)
    (program : LoadedUserProgram) :
    ∃ activation s c first, bootScheduler kernelSpace program (SchedulerState.new stacksAddress) =
        .ok (some activation) s ∧
      Steady s c ∧ c.stack = [first] ∧ Bootstrap first := by
  let s₀ := SchedulerState.new stacksAddress
  let kernel := Process.new 0 kernelSpace OwnedPages.empty .continue
  have hkernel : createProcess ⟨kernelSpace, none, OwnedPages.empty, .continue⟩ s₀ =
      .ok 0 (s₀.putProcess 0 (some kernel)) := createProcess_eq rfl _ _ _
  obtain ⟨blank, huser, hframe, hfds⟩ := createProcess_terminal_eq
    (s := s₀.putProcess 0 (some kernel)) 1 rfl program.addressSpace primaryEndpoint
    program.ownedPages .shutdownSystem
  obtain ⟨user, hseed, hready, hid, hwaiting, haction, hfirst⟩ :=
    bootstrap_process program hframe hfds
  let c := bootConfig kernel user (fun slot => (initialContextFor s₀ slot).2) program
  let s₁ := (s₀.putProcess 0 (some kernel)).putProcess 1 (some blank)
  let s₂ := s₁.putProcess 1 (some user)
  have hset : setProcessEnv 1 "PATH" "/system/bin:/bin" s₁ = .ok (.ok ()) s₂ := by
    have hget : process 1 s₁ = .ok blank s₁ := process_eq rfl
    rw [setProcessEnv, EStateM.bind_of_ok hget, hseed]
    rfl
  have hterminal : createThread 0 (.kernel .terminalThreadEntry) s₂ =
      .ok 0 (s₂.putThread 0 (some c.terminal)) := createThread_eq rfl _ _
  have hthread : createThread 1 (.user program.entryPoint program.userStackTop)
      (s₂.putThread 0 (some c.terminal)) =
        .ok 1 ((s₂.putThread 0 (some c.terminal)).putThread 1 (some c.top.thread)) :=
    createThread_eq rfl _ _
  have hidle : createThread 0 (.kernel .idleThreadEntry)
      ((s₂.putThread 0 (some c.terminal)).putThread 1 (some c.top.thread)) =
        .ok 2 (((s₂.putThread 0 (some c.terminal)).putThread 1 (some c.top.thread)).putThread 2
          (some c.idle)) := createThread_eq rfl _ _
  obtain ⟨hprocesses, hthreads⟩ := bootConfig_holds kernel user
    (fun slot => (initialContextFor s₀ slot).2) program rfl hid
  have hbooted : Booted { (((s₂.putThread 0 (some c.terminal)).putThread 1
      (some c.top.thread)).putThread 2 (some c.idle)) with idleThread := some 2 } c := by
    refine ⟨?_, hthreads, rfl, bootConfig_ok _ _ rfl rfl hid hready hwaiting haction, rfl, ?_,
      rfl,
      hfirst _⟩
    · rw [← put_put (some blank) (some user)] at hprocesses
      exact hprocesses
    · intro t ht
      obtain rfl | rfl | rfl := mem_awake.mp ht
      · exact ⟨rfl, rfl⟩
      · exact ⟨rfl, rfl⟩
      · exact ⟨rfl, rfl⟩
  obtain ⟨activation, s, c', hstart, hsteady, hstack⟩ := hbooted.start
  refine ⟨activation, s, c', _, ?_, hsteady, hstack, hfirst _⟩
  rw [bootScheduler, EStateM.bind_of_ok hkernel, EStateM.bind_of_ok huser,
    EStateM.bind_of_ok hset]
  dsimp only
  rw [EStateM.bind_of_ok hterminal, EStateM.bind_of_ok hthread, EStateM.bind_of_ok hidle,
    EStateM.modify_bind]
  exact hstart

/-- **Induction over runs**: what holds of the bootstrap process and is kept by every effect
holds of the stack in every state. -/
theorem Run.induction {boot : Boot} {P : List Member → Console → List Event → Prop}
    (hstart : ∀ first, Bootstrap first → P [first] Console.new [])
    (hstep : ∀ m c trace events stack' console', Run boot m trace → Steady m.scheduler c →
      P c.stack m.console trace → Effect boot.rootFs c.stack events stack' →
      ConsoleStep c.stack m.console events console' → P stack' console' (trace ++ events))
    {m : Machine} {trace : List Event} (run : Run boot m trace) :
    ∃ c, Steady m.scheduler c ∧ P c.stack m.console trace := by
  induction run with
  | start booted =>
    obtain ⟨activation, s, c, first, hboot, hsteady, hstack, hfirst⟩ :=
      boot_spec boot.stacksAddress boot.kernelSpace boot.userProgram
    rw [hboot] at booted
    cases booted
    exact ⟨c, hsteady, hstack ▸ hstart first hfirst⟩
  | @step m m' trace events call run enabled stepped ih =>
    obtain ⟨c, hsteady, hP⟩ := ih
    obtain ⟨events, m', c', hok, hsteady', heffect, hconsole⟩ | ⟨path, fuel, -, hstop⟩ |
      ⟨status, m', -, -, -, hstop, -⟩ := hsteady.step_cases boot.rootFs enabled
    · rw [hok] at stepped
      cases stepped
      exact ⟨c', hsteady', hstep m c trace events c'.stack m'.console run hsteady hP heffect hconsole⟩
    · rw [hstop] at stepped
      cases stepped
    · rw [hstop] at stepped
      cases stepped

/-- **A run of the kernel is a run of the stack**, and steady all along. -/
theorem Run.stackRun {boot : Boot} {m : Machine} {trace : List Event} (run : Run boot m trace) :
    ∃ c, Steady m.scheduler c ∧ StackRun boot.rootFs c.stack trace :=
  run.induction (P := fun stack _ trace => StackRun boot.rootFs stack trace)
    (fun _ hfirst => .start hfirst) fun _ _ _ _ _ _ _ _ hrun heffect _ => hrun.step heffect

/-! ## User processes in the tables -/

/-- The process in slot `p` has a thread that runs in user mode. -/
def UserProcess (s : SchedulerState) (p : ProcessId) (pr : Process) : Prop :=
  s.process? p = some pr ∧ ∃ t th entryPoint stackTop, s.thread? t = some th ∧ th.processId = p ∧
    th.start = .user entryPoint stackTop

/-- **The user processes are the members of the stack.** -/
theorem Inv.userProcess_iff {s : SchedulerState} {c : Config} (h : Inv s c) {p : ProcessId}
    {pr : Process} :
    UserProcess s p pr ↔ pr.id = p ∧ ∃ m ∈ c.stack, m.process = pr := by
  constructor
  · rintro ⟨hpr, t, th, entryPoint, stackTop, hth, howner, huser⟩
    obtain ⟨-, rfl | rfl | ⟨l, hl, rfl⟩⟩ := h.thread_cases hth
    · rw [h.ok.entries.1] at huser
      cases huser
    · rw [h.ok.entries.2] at huser
      cases huser
    · rw [h.ok.owner l hl] at howner
      have hget := h.process?_of_mem (Inv.link_process_mem hl)
      rw [howner, hpr] at hget
      cases hget
      exact ⟨howner, _, List.mem_map_of_mem hl, rfl⟩
  · rintro ⟨rfl, m, hm, rfl⟩
    obtain ⟨l, hl, rfl⟩ := List.mem_map.mp hm
    obtain ⟨entryPoint, stackTop, huser⟩ := h.ok.user l hl
    exact ⟨h.process?_of_mem (Inv.link_process_mem hl), l.thread.id, l.thread, entryPoint,
      stackTop, h.thread?_of_mem (Inv.link_thread_mem hl), h.ok.owner l hl, huser⟩

/-- A user process whose thread is current is the newest. -/
theorem Steady.top_of_userProcess {s : SchedulerState} {c : Config} (h : Steady s c)
    {p : ProcessId} {pr : Process} (huser : UserProcess s p pr) {t : ThreadId} {th : Thread}
    (hcurrent : s.currentThread = some t) (hth : s.thread? t = some th) (howner : th.processId = p) :
    s.currentThread = some c.top.thread.id ∧ c.top.process = pr := by
  obtain ⟨rfl, member, hmember, rfl⟩ := h.inv.userProcess_iff.mp huser
  obtain ⟨l, hl, rfl⟩ := List.mem_map.mp hmember
  have hne := h.inv.kernel_id_ne hl
  obtain ⟨rfl, rfl | rfl | ⟨l', hl', rfl⟩⟩ := h.inv.thread_cases hth
  · exact absurd (howner.symm.trans h.inv.ok.kernelThreads.1) hne
  · exact absurd (howner.symm.trans h.inv.ok.kernelThreads.2) hne
  · obtain ⟨entryPoint, stackTop, hstart⟩ := h.inv.ok.user l' hl'
    have htop := h.current_top hcurrent hth hstart
    refine ⟨htop, ?_⟩
    rw [hcurrent, Option.some.injEq] at htop
    have hsame := h.inv.threads.eq_of_key_eq (Inv.link_thread_mem hl') (mem_threads top_mem) htop
    rw [hsame, h.inv.ok.owner c.top List.mem_cons_self] at howner
    exact h.inv.processes.eq_of_key_eq (Inv.link_process_mem List.mem_cons_self)
      (Inv.link_process_mem hl) howner

end Lazers.Scheduler
