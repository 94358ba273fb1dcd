import Lazers.Scheduler.Config

/-!
# The chain of user processes

`Inv` says that the tables of the scheduler hold a configuration. Each operation of
`state.rs` is then given by what it does to the configuration:

- `Inv.prepareSwitch_spec`: a yield settles on another thread that is not blocked;
- `Inv.spawnChildProcess_spec`, `Inv.prepareWait_spec`: a spawn pushes the child;
- `Inv.prepareExit_spec`: an exit pops it, with the status in the parent's mailbox.
-/

namespace Lazers.Scheduler

open Kernel Memory SlotTable SchedulerState Config

/-- **Scheduler invariant.** The tables hold a configuration, and the current thread is the
one that is running. -/
structure Inv (s : SchedulerState) (c : Config) : Prop where
  processes : Holds s.processes Process.id c.processes
  threads : Holds s.threads Thread.id c.threads
  idle : s.idleThread = some c.idle.id
  current : ∃ t ∈ c.awake, s.currentThread = some t.id ∧ c.settle t.id = c
  ok : c.Ok

namespace Inv

variable {s : SchedulerState} {c : Config}

theorem process?_of_mem (h : Inv s c) {pr : Process} (hpr : pr ∈ c.processes) :
    s.process? pr.id = some pr := h.processes.get_of_mem hpr

theorem process?_top (h : Inv s c) : s.process? c.top.process.id = some c.top.process :=
  h.process?_of_mem (List.mem_cons_of_mem _ List.mem_cons_self)

theorem thread?_of_mem (h : Inv s c) {th : Thread} (hth : th ∈ c.threads) :
    s.thread? th.id = some th := h.threads.get_of_mem hth

/-! What is in the tables. -/

theorem link_thread_mem {l : Link} (hl : l ∈ c.links) : l.thread ∈ c.threads := by
  obtain rfl | hl := List.mem_cons.mp hl
  · exact mem_threads top_mem
  · exact waiter_mem hl

theorem link_process_mem {l : Link} (hl : l ∈ c.links) : l.process ∈ c.processes :=
  List.mem_cons_of_mem _ (List.mem_map_of_mem hl)

theorem thread_cases (h : Inv s c) {t : ThreadId} {th : Thread} (hth : s.thread? t = some th) :
    th.id = t ∧ (th = c.terminal ∨ th = c.idle ∨ ∃ l ∈ c.links, th = l.thread) := by
  obtain ⟨hmem, hid⟩ := (h.threads.get_iff _ _).mp hth
  refine ⟨hid, ?_⟩
  obtain hawake | hwaiter := List.mem_append.mp hmem
  · obtain rfl | rfl | rfl := mem_awake.mp hawake
    · exact .inl rfl
    · exact .inr (.inl rfl)
    · exact .inr (.inr ⟨c.top, List.mem_cons_self, rfl⟩)
  · obtain ⟨l, hl, rfl⟩ := List.mem_map.mp hwaiter
    exact .inr (.inr ⟨l, List.mem_cons_of_mem _ hl, rfl⟩)

theorem process_cases (h : Inv s c) {p : ProcessId} {pr : Process}
    (hpr : s.process? p = some pr) : pr.id = p ∧ (pr = c.kernel ∨ ∃ l ∈ c.links, pr = l.process) := by
  obtain ⟨hmem, hid⟩ := (h.processes.get_iff _ _).mp hpr
  refine ⟨hid, ?_⟩
  obtain rfl | hmem := List.mem_cons.mp hmem
  · exact .inl rfl
  · obtain ⟨l, hl, rfl⟩ := List.mem_map.mp hmem
    exact .inr ⟨l, hl, rfl⟩

theorem kernel_id_ne (h : Inv s c) {l : Link} (hl : l ∈ c.links) : l.process.id ≠ c.kernel.id :=
  h.processes.key_notMem (List.mem_map_of_mem hl)

/-- The process of a thread. -/
theorem process?_processId (h : Inv s c) {th : Thread} (hth : th ∈ c.threads) :
    ∃ pr ∈ c.processes, s.process? th.processId = some pr := by
  have hlink : ∀ l ∈ c.links, ∃ pr ∈ c.processes, l.thread.processId = pr.id := fun l hl =>
    ⟨l.process, List.mem_cons_of_mem _ (List.mem_map_of_mem hl), h.ok.owner l hl⟩
  have hmem : ∃ pr ∈ c.processes, th.processId = pr.id := by
    obtain hawake | hwaiter := List.mem_append.mp hth
    · obtain rfl | rfl | rfl := mem_awake.mp hawake
      · exact ⟨c.kernel, List.mem_cons_self, h.ok.kernelThreads.1⟩
      · exact ⟨c.kernel, List.mem_cons_self, h.ok.kernelThreads.2⟩
      · exact hlink c.top List.mem_cons_self
    · obtain ⟨l, hl, rfl⟩ := List.mem_map.mp hwaiter
      exact hlink l (List.mem_cons_of_mem _ hl)
  obtain ⟨pr, hpr, heq⟩ := hmem
  exact ⟨pr, hpr, heq ▸ h.process?_of_mem hpr⟩

theorem mark_of_mem (h : Inv s c) {cur : ThreadId} (hcur : s.currentThread = some cur)
    {t : Thread} (ht : t ∈ c.awake) : mark cur t = t := by
  obtain ⟨t', -, hcur', hsettle⟩ := h.current
  rw [hcur] at hcur'
  cases hcur'
  exact eq_of_mapAwake_eq hsettle ht

/-- The kernel threads are not the newest user thread. -/
theorem kernel_id_ne_top (h : Inv s c) :
    c.terminal.id ≠ c.top.thread.id ∧ c.idle.id ≠ c.top.thread.id := by
  have hnodup := h.threads.nodup
  simp only [Config.threads, Config.awake, List.cons_append, List.nil_append, List.map_cons,
    List.nodup_cons, List.mem_cons, not_or] at hnodup
  exact ⟨hnodup.1.2.1, hnodup.2.1.1⟩

/-- While a user thread runs, the kernel threads are runnable. -/
theorem kernel_runnable (h : Inv s c) (hcurrent : s.currentThread = some c.top.thread.id) :
    c.terminal.setState .runnable = c.terminal ∧ c.idle.setState .runnable = c.idle := by
  obtain ⟨hne, hne'⟩ := h.kernel_id_ne_top
  have hterminal := h.mark_of_mem hcurrent terminal_mem
  have hidle := h.mark_of_mem hcurrent (t := c.idle) (mem_awake.mpr (.inr (.inl rfl)))
  rw [mark, if_neg hne] at hterminal
  rw [mark, if_neg hne'] at hidle
  exact ⟨hterminal, hidle⟩

/-- The current thread stops running. -/
theorem holds_rest (h : Inv s c) {cur : Thread} (hcur : cur ∈ c.awake)
    (hcurrent : s.currentThread = some cur.id) :
    Holds (put s.threads cur.id (some (cur.setState .runnable))) Thread.id c.rest.threads := by
  have hmark := fun t ht => h.mark_of_mem (t := t) hcurrent ht
  have hrun : cur.canRun = true := by
    rw [← hmark cur hcur]
    exact canRun_mark _ _
  obtain ⟨t', -, hcur', hsettle⟩ := h.current
  rw [hcurrent, Option.some.injEq] at hcur'
  rw [← hcur'] at hsettle
  have heq : (c.mapAwake fun x => if x.id = cur.id then x.setState .runnable else x) =
      c.rest := by
    rw [← hsettle, rest_settle, Config.settle, mapAwake_mapAwake, Config.rest]
    refine congrArg c.mapAwake (funext fun t => ?_)
    by_cases hid : t.id = cur.id
    · exact if_pos hid
    · rw [mark, if_neg hid]
      exact if_neg hid
  rw [← heq]
  exact h.ok.holds_modify h.threads hcur hrun (·.setState .runnable) rfl

/-- **A thread becomes current**, when nobody was running. -/
theorem of_rest {s' : SchedulerState} {next : Thread} (hok : c.Ok) (hnext : next ∈ c.awake)
    (hprocesses : Holds s'.processes Process.id c.processes)
    (hthreads : Holds s'.threads Thread.id (c.settle next.id).threads)
    (hidle : s'.idleThread = some c.idle.id) (hcurrent : s'.currentThread = some next.id) :
    Inv s' (c.settle next.id) where
  processes := hprocesses
  threads := hthreads
  idle := hidle
  current := ⟨mark next.id next, mem_mapAwake _ hnext, hcurrent, settle_settle _ _⟩
  ok := hok.settle _

/-- A thread's context or mailbox changes. -/
theorem quiet (h : Inv s c) {th : Thread} (hth : th ∈ c.threads) {f : Thread → Thread}
    (hf : Quiet f) :
    Inv (s.putThread th.id (some (f th)))
      (c.mapThreads fun t => if t.id = th.id then f t else t) where
  processes := by
    rw [Config.processes, map_process_links_mapThreads]
    exact h.processes
  threads := by
    rw [threads_mapThreads]
    exact h.threads.modify hth f (hf.id th)
  idle := h.idle.trans (congrArg some ((hf.at th.id).id c.idle).symm)
  current := by
    obtain ⟨t, ht, hcurrent, hsettle⟩ := h.current
    have hmem := mem_mapAwake (fun t => if t.id = th.id then f t else t) ht
    refine ⟨_, hmem, hcurrent.trans (congrArg some ((hf.at th.id).id t).symm), ?_⟩
    rw [(hf.at th.id).id t]
    exact settle_mapThreads (hf.at th.id) hsettle
  ok := h.ok.mapThreads (hf.at th.id)

/-- The newest process changes in its slot. -/
theorem setTop (h : Inv s c) {pr : Process} (hsame : SameLink c.top.process pr)
    (hready : pr.Ready) : Inv (s.putProcess c.top.process.id (some pr)) (c.setTop pr) where
  processes := by
    have hswap : c.processes.Perm (c.top.process :: c.kernel :: c.waiters.map Link.process) :=
      List.Perm.swap _ _ _
    exact ((h.processes.perm hswap).update hsame.id).perm (List.Perm.swap _ _ _)
  threads := h.threads
  idle := h.idle
  current := by
    obtain ⟨t, ht, hcurrent, hsettle⟩ := h.current
    have hawake : (c.setTop pr).settle t.id = (c.settle t.id).setTop pr := rfl
    exact ⟨t, ht, hcurrent, hawake.trans (congrArg (Config.setTop · pr) hsettle)⟩
  ok := h.ok.setTop hsame hready

/-! ### Yielding -/

theorem preparedSwitch_eq (h : Inv s c) {cur next : Thread} (hcur : cur ∈ c.threads)
    (hnext : next ∈ c.threads) :
    ∃ pr ∈ c.processes, pr.id = next.processId ∧
      preparedSwitch cur.id next.id s = .ok {
        current := cur.id
        next := next.id
        nextSpace := pr.addressSpace
        nextStackTop := next.kernelStackTop } s := by
  obtain ⟨pr, hpr, hget⟩ := h.process?_processId hnext
  refine ⟨pr, hpr, ((h.processes.get_iff _ _).mp hget).2, ?_⟩
  rw [preparedSwitch, EStateM.bind_of_ok (thread_eq (h.thread?_of_mem hcur)),
    EStateM.bind_of_ok (thread_eq (h.thread?_of_mem hnext)),
    EStateM.bind_of_ok (activation_eq (h.thread?_of_mem hnext) hget)]
  rfl

/-- **`prepare_switch(false)`**: nothing, or a switch to the terminal thread or to the newest
user thread. -/
theorem prepareSwitch_spec (h : Inv s c) :
    prepareSwitch false s = .ok none s ∨
    ∃ cur ∈ c.awake, ∃ next ∈ c.awake, ∃ pr ∈ c.processes, ∃ s',
      s.currentThread = some cur.id ∧ next.id ≠ cur.id ∧ pr.id = next.processId ∧
      prepareSwitch false s = .ok (some {
        current := cur.id
        next := next.id
        nextSpace := pr.addressSpace
        nextStackTop := next.kernelStackTop }) s' ∧
      s'.currentThread = some next.id ∧ Inv s' (c.settle next.id) := by
  obtain ⟨cur, hcur, hcurrent, -⟩ := h.current
  have hrestTable := h.holds_rest hcur hcurrent
  have helig : Eligible s c.terminal :=
    ⟨by rw [← h.mark_of_mem hcurrent terminal_mem]; exact canRun_mark _ _,
      (eligible_terminal (s := s.putThread cur.id (some (cur.setState .runnable))) hrestTable
        h.idle rfl).not_idle⟩
  obtain ⟨next, hnext, he, hrun⟩ :=
    nextRunnableThread_spec h.threads (mem_threads terminal_mem) helig (some cur.id)
  have hawake : next ∈ c.awake := by
    obtain rfl | rfl := h.ok.eligible_cases h.idle hnext he
    · exact terminal_mem
    · exact top_mem
  rw [prepareSwitch, EStateM.get_bind, hcurrent]
  dsimp only
  rw [EStateM.bind_of_ok hrun]
  dsimp only
  by_cases hsame : next.id = cur.id
  · rw [if_pos ⟨hsame, rfl⟩]
    exact .inl rfl
  · rw [if_neg fun hcond => hsame hcond.1]
    right
    have hresting : next.setState .runnable = next := by
      have hmark := h.mark_of_mem hcurrent hawake
      rwa [mark, if_neg hsame] at hmark
    have hmem : next ∈ c.rest.awake := hresting ▸ mem_mapAwake _ hawake
    have hgetNext : (s.putThread cur.id (some (cur.setState .runnable))).thread? next.id =
        some next := by
      rw [thread?, putThread, get_put_of_ne (Ne.symm hsame)]
      exact h.thread?_of_mem hnext
    have hyield : modifyThread cur.id
        (·.setState (if false = true then .blocked else .runnable)) s =
          .ok () (s.putThread cur.id (some (cur.setState .runnable))) :=
      modifyThread_eq (h.thread?_of_mem (mem_threads hcur)) _
    have hinv : Inv (((s.putThread cur.id (some (cur.setState .runnable))).putThread next.id
        (some (next.setState .running))).setCurrent (some next.id)) (c.settle next.id) :=
      of_rest (c := c.rest) h.ok.rest hmem h.processes
        (h.ok.rest.holds_run (s := s.putThread cur.id (some (cur.setState .runnable))) hrestTable
          rfl hmem) h.idle rfl
    obtain ⟨pr, hpr, hid, hswitch⟩ := hinv.preparedSwitch_eq
      (mem_threads (mem_mapAwake _ hcur)) (mem_threads (mem_mapAwake _ hawake))
    refine ⟨cur, hcur, next, hawake, pr, hpr, _, rfl, hsame, hid, ?_, rfl, hinv⟩
    rw [EStateM.bind_of_ok hyield, EStateM.bind_of_ok (modifyThread_eq hgetNext _)]
    exact EStateM.bind_of_ok hswitch _

/-! ### Spawning and waiting -/

theorem length_threads (c : Config) : c.threads.length = c.links.length + 2 := by
  rw [Config.threads, Config.awake, Config.links, List.length_append, List.length_map]
  simp only [List.length_cons, List.length_nil]
  omega

end Inv

/-- A child of the newest process, in its slots. -/
structure Spawned (s s' : SchedulerState) (parent : Link) (program : LoadedUserProgram)
    (silent : Bool) (child : Link) : Prop where
  process_free : s.process? child.process.id = none
  process_lt : child.process.id < maxProcesses
  thread_free : s.thread? child.thread.id = none
  thread_lt : child.thread.id < maxThreads
  process : ∃ inherited, Process.Inherited parent.process
    (Process.new child.process.id program.addressSpace program.ownedPages .continue) inherited
      silent ∧ child.process = inherited.setWaitingThread parent.thread.id
  thread : ∃ stackTop, child.thread = Thread.new child.thread.id child.process.id
    (.user program.entryPoint program.userStackTop) .entry stackTop
  state : s' = (s.putProcess child.process.id (some child.process)).putThread child.thread.id
    (some child.thread)

/-- The newest process waits for its child. -/
def Config.push (c : Config) (child : Link) : Config :=
  { c with
    top := child
    waiters := ⟨c.top.process, c.top.thread.blockForChild child.process.id⟩ :: c.waiters }

/-- `try_create_thread` with a free slot. -/
theorem tryCreateThread_eq {s : SchedulerState} {slot : Nat}
    (hfree : firstFree s.threads = some slot) (p : ProcessId) (start : ThreadStart) :
    tryCreateThread p start s = .ok (some slot) (s.putThread slot
      (some (Thread.new slot p start .entry (initialContextFor s slot).2))) := by
  rw [tryCreateThread, EStateM.get_bind, hfree]
  rfl

namespace Inv

variable {s : SchedulerState} {c : Config}

/-- **`spawn_child_process`** fails only when seven user processes are live. -/
theorem spawnChildProcess_spec (h : Inv s c) (program : LoadedUserProgram) (silent : Bool) :
    (c.links.length = 7 ∧
      spawnChildProcess c.top.thread.id program silent s = .ok (.error program) s) ∨
    (c.links.length < 7 ∧ ∃ child s',
      spawnChildProcess c.top.thread.id program silent s = .ok (.ok child.process.id) s' ∧
      Spawned s s' c.top program silent child) := by
  have hthread := h.thread?_of_mem (mem_threads top_mem)
  have hparent : s.process? c.top.thread.processId = some c.top.process := by
    rw [h.ok.owner c.top List.mem_cons_self]
    exact h.process?_top
  rw [spawnChildProcess, EStateM.bind_of_ok (thread_eq hthread), EStateM.get_bind]
  cases hfree : firstFree s.processes with
  | none =>
    have hlen := h.processes.length_eq hfree
    rw [Config.processes, List.length_cons, List.length_map, maxProcesses] at hlen
    exact .inl ⟨by omega, rfl⟩
  | some slot =>
    obtain ⟨hlt, hnone⟩ := firstFree_eq_some hfree
    have hready : c.top.process.Ready := h.ok.ready _ List.mem_cons_self
    obtain ⟨c₁, c₂, child, hstdio, hcwd, henv, hinherited⟩ := hready.inherit silent
      (Process.new slot program.addressSpace program.ownedPages .continue) rfl
    have hid : (child.setWaitingThread c.top.thread.id).id = slot := by
      rw [hinherited.frame]
      rfl
    have hinsert : Holds (put s.processes slot (some (child.setWaitingThread c.top.thread.id)))
        Process.id (child.setWaitingThread c.top.thread.id :: c.processes) :=
      h.processes.insert hnone hlt hid
    have hlen : c.links.length < 7 := by
      have hle := hinsert.length_le
      rw [Config.processes, List.length_cons, List.length_cons, List.length_map,
        maxProcesses] at hle
      omega
    dsimp only
    rw [EStateM.bind_of_ok (process_eq hparent), hstdio]
    dsimp only
    rw [hcwd]
    dsimp only
    rw [henv]
    dsimp only
    cases hfreeThread : firstFree s.threads with
    | none =>
      have hfull := h.threads.length_eq hfreeThread
      rw [length_threads, maxThreads] at hfull
      omega
    | some tslot =>
      obtain ⟨htlt, htnone⟩ := firstFree_eq_some hfreeThread
      refine .inr ⟨hlen, ⟨child.setWaitingThread c.top.thread.id,
        Thread.new tslot slot (.user program.entryPoint program.userStackTop) .entry
          (initialContextFor s tslot).2⟩,
        (s.putProcess slot (some (child.setWaitingThread c.top.thread.id))).putThread tslot
          (some (Thread.new tslot slot (.user program.entryPoint program.userStackTop) .entry
            (initialContextFor s tslot).2)), ?_, ?_⟩
      · have hcreate := tryCreateThread_eq
          (s := s.putProcess slot (some (child.setWaitingThread c.top.thread.id))) hfreeThread slot
          (.user program.entryPoint program.userStackTop)
        dsimp only
        rw [hid]
        exact EStateM.bind_of_ok hcreate _
      · constructor
        · dsimp only
          rw [hid]
          exact hnone
        · dsimp only
          rw [hid]
          exact hlt
        · exact htnone
        · exact htlt
        · refine ⟨child, ?_, rfl⟩
          dsimp only
          rw [hid]
          exact hinherited
        · refine ⟨(initialContextFor s tslot).2, ?_⟩
          dsimp only
          rw [hid]
          rfl
        · dsimp only
          rw [hid]
          rfl

section

variable {s' : SchedulerState} {program : LoadedUserProgram} {silent : Bool} {child : Link}

/-- What the spawn left of the scheduler. -/
theorem push_ok (h : Inv s c) (hresult : c.top.thread.waitResult = none)
    (hspawned : Spawned s s' c.top program silent child) : (c.push child).Ok := by
  obtain ⟨inherited, hinherited, hprocess⟩ := hspawned.process
  obtain ⟨stackTop, hthread⟩ := hspawned.thread
  constructor
  · intro t ht
    obtain rfl | rfl | rfl := mem_awake.mp ht
    · exact h.ok.reasons _ terminal_mem
    · exact h.ok.reasons c.idle (mem_awake.mpr (.inr (.inl rfl)))
    · dsimp only [Config.push]
      rw [hthread]
      rfl
  · exact h.ok.kernelThreads
  · exact h.ok.kernelWaiter
  · exact h.ok.entries
  · intro l hl
    simp only [Config.links, Config.push, List.mem_cons] at hl
    obtain rfl | rfl | hl := hl
    · rw [hthread]
      rfl
    · exact h.ok.owner c.top List.mem_cons_self
    · exact h.ok.owner l (List.mem_cons_of_mem _ hl)
  · intro l hl
    simp only [Config.links, Config.push, List.mem_cons] at hl
    obtain rfl | rfl | hl := hl
    · rw [hthread]
      exact ⟨_, _, rfl⟩
    · exact h.ok.user c.top List.mem_cons_self
    · exact h.ok.user l (List.mem_cons_of_mem _ hl)
  · have hwaiter : child.process.waitingThread = some c.top.thread.id := by
      rw [hprocess]
      rfl
    have hcontinue : child.process.exitAction = .continue := by
      rw [hprocess]
      exact congrArg Process.exitAction hinherited.frame
    exact List.isChain_cons_cons.mpr
      ⟨⟨hwaiter, hcontinue, rfl, rfl, hresult⟩, isChain_of_top h.ok.waits (.refl _)⟩
  · exact h.ok.root
  · intro pr hpr
    simp only [Config.links, Config.push, List.map_cons, List.mem_cons] at hpr
    obtain rfl | hpr := hpr
    · have hready := hinherited.ready (h.ok.ready _ List.mem_cons_self)
      rw [hprocess]
      exact ⟨hready.stdio, ⟨hready.cwd.used_eq, hready.cwd.len_le, hready.cwd.absolute⟩, hready.env⟩
    · exact h.ok.ready pr (List.mem_cons.mpr hpr)

theorem push_rest (h : Inv s c) (hcurrent : s.currentThread = some c.top.thread.id)
    (hspawned : Spawned s s' c.top program silent child) :
    (c.push child).rest = c.push child := by
  obtain ⟨stackTop, hthread⟩ := hspawned.thread
  obtain ⟨hterminal, hidle⟩ := h.kernel_runnable hcurrent
  have hchild : child.thread.setState .runnable = child.thread := by
    rw [hthread]
    rfl
  simp only [Config.rest, Config.mapAwake, Config.push, hterminal, hidle, hchild]

theorem push_holds_processes (h : Inv s c) (hspawned : Spawned s s' c.top program silent child) :
    Holds s'.processes Process.id (c.push child).processes := by
  rw [hspawned.state]
  exact (h.processes.insert hspawned.process_free hspawned.process_lt rfl).perm
    (List.Perm.swap _ _ _)

/-- The parent blocks. -/
theorem push_holds_threads (h : Inv s c) (hspawned : Spawned s s' c.top program silent child) :
    Holds (put s'.threads c.top.thread.id
        (some (c.top.thread.blockForChild child.process.id))) Thread.id
      (c.push child).threads := by
  have hinsert := h.threads.insert hspawned.thread_free hspawned.thread_lt (a := child.thread) rfl
  have hswap : (child.thread :: c.threads).Perm
      (c.top.thread :: [c.terminal, c.idle, child.thread] ++ c.waiters.map Link.thread) := by
    have hfront := List.perm_append_singleton c.top.thread [child.thread, c.terminal, c.idle]
    have hback := (List.perm_append_singleton child.thread [c.terminal, c.idle]).symm
    exact (hfront.trans (hback.cons _)).append_right _
  have hblock := (hinsert.perm hswap).update
    (b := c.top.thread.blockForChild child.process.id) rfl
  rw [hspawned.state]
  refine hblock.perm ?_
  exact List.perm_middle.symm

/-- **`prepare_wait_for_child`** right after the spawn: the parent blocks, and the terminal
thread or the child is next. -/
theorem prepareWait_spec (h : Inv s c) (hcurrent : s.currentThread = some c.top.thread.id)
    (hresult : c.top.thread.waitResult = none)
    (hspawned : Spawned s s' c.top program silent child) :
    ∃ next ∈ (c.push child).awake, ∃ pr ∈ (c.push child).processes, ∃ s'',
      pr.id = next.processId ∧
      prepareWaitForChild child.process.id s' = .ok (some {
        current := c.top.thread.id
        next := next.id
        nextSpace := pr.addressSpace
        nextStackTop := next.kernelStackTop }) s'' ∧
      s''.currentThread = some next.id ∧ Inv s'' ((c.push child).settle next.id) := by
  have hok := h.push_ok hresult hspawned
  have hrest := h.push_rest hcurrent hspawned
  have hthreads := h.push_holds_threads hspawned
  have hidle : s'.idleThread = some (c.push child).idle.id := by
    rw [hspawned.state]
    exact h.idle
  have hcurrent' : s'.currentThread = some c.top.thread.id := by
    rw [hspawned.state]
    exact hcurrent
  have htop : s'.thread? c.top.thread.id = some c.top.thread := by
    have hne : child.thread.id ≠ c.top.thread.id := by
      intro heq
      have hfree := hspawned.thread_free
      rw [heq, h.thread?_of_mem (mem_threads top_mem)] at hfree
      cases hfree
    rw [hspawned.state, thread?, putThread]
    exact (get_put_of_ne hne).trans (h.thread?_of_mem (mem_threads top_mem))
  obtain ⟨next, hnext, he, hrun⟩ := nextRunnableThread_spec
    (s := s'.putThread c.top.thread.id (some (c.top.thread.blockForChild child.process.id)))
    hthreads (mem_threads terminal_mem) (eligible_terminal hthreads hidle hrest)
    (some c.top.thread.id)
  have hawake : next ∈ (c.push child).awake := by
    obtain rfl | rfl := hok.eligible_cases (s := s'.putThread c.top.thread.id
      (some (c.top.thread.blockForChild child.process.id))) hidle hnext he
    · exact terminal_mem
    · exact top_mem
  have hprocesses := h.push_holds_processes hspawned
  have hinv : Inv (((s'.putThread c.top.thread.id
      (some (c.top.thread.blockForChild child.process.id))).putThread next.id
        (some (next.setState .running))).setCurrent (some next.id))
      ((c.push child).settle next.id) :=
    of_rest hok hawake hprocesses
      (hok.holds_run (s := s'.putThread c.top.thread.id
        (some (c.top.thread.blockForChild child.process.id))) hthreads hrest hawake) hidle rfl
  have hblocked : c.top.thread.blockForChild child.process.id ∈
      ((c.push child).settle next.id).threads :=
    List.mem_append_right _ List.mem_cons_self
  obtain ⟨pr, hpr, hid, hswitch⟩ :=
    hinv.preparedSwitch_eq hblocked (mem_threads (mem_mapAwake _ hawake))
  have hgetNext : (s'.putThread c.top.thread.id
      (some (c.top.thread.blockForChild child.process.id))).thread? next.id = some next :=
    hthreads.get_of_mem hnext
  refine ⟨next, hawake, pr, hpr, _, hid, ?_, rfl, hinv⟩
  rw [prepareWaitForChild, EStateM.get_bind, hcurrent']
  dsimp only
  rw [EStateM.bind_of_ok (modifyThread_eq htop _), EStateM.bind_of_ok hrun]
  dsimp only
  rw [EStateM.bind_of_ok (modifyThread_eq hgetNext _)]
  exact EStateM.bind_of_ok hswitch _

end

end Inv

/-! ### Exiting -/

/-- The parent of the newest process, woken with the child's status. -/
def woken (parent : Link) (status : Nat) : Link :=
  { parent with thread := (parent.thread.setWaitResult status).wake }

/-- The newest process is gone. -/
def Config.pop (c : Config) (parent : Link) (rest : List Link) (status : Nat) : Config :=
  { c with top := woken parent status, waiters := rest }

/-- The part of `prepare_exit_current_process` before the exit action: the process and its
thread leave the tables. -/
def removeCurrent (s : SchedulerState) (l : Link) : SchedulerState :=
  (s.putThread l.thread.id none).putProcess l.process.id none

namespace Inv

variable {s : SchedulerState} {c : Config}

/-- What `prepare_exit_current_process` does before it looks at the exit action. -/
theorem prepareExit_eq (h : Inv s c) (hcurrent : s.currentThread = some c.top.thread.id)
    (status : Nat) :
    prepareExitCurrentProcess status s =
      (match c.top.process.exitAction with
      | .shutdownSystem => do
        modify (setCurrent · none)
        return some (.shutdown c.top.process.ownedPages)
      | .continue => do
        match ← exitSuccessor c.top.thread.id status c.top.process.waitingThread with
        | none => return none
        | some next =>
          modify (setCurrent · (some next))
          modifyThread next (·.setState .running)
          let activation ← activation next
          let _ ← thread next
          return some (.switch {
            next
            nextSpace := activation.addressSpace
            nextStackTop := activation.kernelStackTop
            releasedPages := c.top.process.ownedPages }) : SchedM (Option ProcessExit))
        (removeCurrent s c.top) := by
  have howner := h.ok.owner c.top List.mem_cons_self
  have hmem : c.top.process ∈ c.processes := List.mem_cons_of_mem _ List.mem_cons_self
  have hprocess : s.process? c.top.thread.processId = some c.top.process := by
    rw [howner]
    exact h.process?_of_mem hmem
  rw [prepareExitCurrentProcess_eq hcurrent (h.thread?_of_mem (mem_threads top_mem)) hprocess,
    howner]
  rfl

section

variable {parent : Link} {rest : List Link}

theorem pop_ok (h : Inv s c) (hwaiters : c.waiters = parent :: rest) (status : Nat) :
    (c.pop parent rest status).Ok := by
  have hlinks : c.links = c.top :: parent :: rest := by rw [Config.links, hwaiters]
  obtain ⟨-, hchain⟩ := List.isChain_cons_cons.mp (hlinks ▸ h.ok.waits)
  have hmem : ∀ l ∈ (c.pop parent rest status).links, ∃ l' ∈ c.links,
      l.process = l'.process ∧ l.thread.processId = l'.thread.processId ∧
        l.thread.start = l'.thread.start := by
    intro l hl
    rw [hlinks]
    obtain rfl | hl := List.mem_cons.mp hl
    · exact ⟨parent, by simp, rfl, rfl, rfl⟩
    · exact ⟨l, List.mem_cons_of_mem _ (List.mem_cons_of_mem _ hl), rfl, rfl, rfl⟩
  constructor
  · intro t ht
    obtain rfl | rfl | rfl := mem_awake.mp ht
    · exact h.ok.reasons _ terminal_mem
    · exact h.ok.reasons c.idle (mem_awake.mpr (.inr (.inl rfl)))
    · rfl
  · exact h.ok.kernelThreads
  · exact h.ok.kernelWaiter
  · exact h.ok.entries
  · intro l hl
    obtain ⟨l', hl', hprocess, hid, -⟩ := hmem l hl
    rw [hprocess, hid]
    exact h.ok.owner l' hl'
  · intro l hl
    obtain ⟨l', hl', -, -, hstart⟩ := hmem l hl
    rw [hstart]
    exact h.ok.user l' hl'
  · exact isChain_of_top hchain (.refl _)
  · obtain ⟨pr, hlast, hroot⟩ := h.ok.root
    rw [hlinks, List.map_cons, List.map_cons, List.getLast?_cons_cons] at hlast
    exact ⟨pr, hlast, hroot⟩
  · intro pr hpr
    refine h.ok.ready pr ?_
    rw [hlinks]
    exact List.mem_cons_of_mem _ hpr

theorem pop_rest (h : Inv s c) (hcurrent : s.currentThread = some c.top.thread.id)
    (status : Nat) : (c.pop parent rest status).rest = c.pop parent rest status := by
  obtain ⟨hterminal, hidle⟩ := h.kernel_runnable hcurrent
  simp only [Config.rest, Config.mapAwake, Config.pop, hterminal, hidle]
  rfl

theorem pop_holds_processes (h : Inv s c) (hwaiters : c.waiters = parent :: rest) (status : Nat) :
    Holds (removeCurrent s c.top).processes Process.id (c.pop parent rest status).processes := by
  have hperm : c.processes.Perm (c.top.process :: (c.pop parent rest status).processes) := by
    rw [Config.processes, Config.links, hwaiters]
    exact List.Perm.swap _ _ _
  exact (h.processes.perm hperm).remove

theorem pop_holds_threads (h : Inv s c) (hwaiters : c.waiters = parent :: rest) (status : Nat) :
    Holds (put (removeCurrent s c.top).threads parent.thread.id
        (some (woken parent status).thread)) Thread.id
      (c.pop parent rest status).threads := by
  have hperm : c.threads.Perm
      (c.top.thread :: parent.thread :: [c.terminal, c.idle] ++ rest.map Link.thread) := by
    rw [Config.threads, Config.awake, hwaiters, List.map_cons]
    have hfront := List.perm_append_singleton c.top.thread [c.terminal, c.idle]
    exact (hfront.append_right _).trans (List.Perm.cons _ List.perm_middle)
  have hwoken := ((h.threads.perm hperm).remove).update (b := (woken parent status).thread) rfl
  refine hwoken.perm ?_
  rw [Config.threads, Config.awake, Config.pop]
  exact (List.perm_append_singleton _ [c.terminal, c.idle]).symm.append_right _

/-- **`prepare_exit_current_process`** by the newest user process: its parent is next, with the
status in its mailbox; without a parent the system shuts down. -/
theorem prepareExit_spec (h : Inv s c) (hcurrent : s.currentThread = some c.top.thread.id)
    (status : Nat) :
    (c.waiters = [] ∧ prepareExitCurrentProcess status s =
      .ok (some (.shutdown c.top.process.ownedPages)) ((removeCurrent s c.top).setCurrent none)) ∨
    ∃ parent rest s', c.waiters = parent :: rest ∧
      prepareExitCurrentProcess status s = .ok (some (.switch {
        next := parent.thread.id
        nextSpace := parent.process.addressSpace
        nextStackTop := parent.thread.kernelStackTop
        releasedPages := c.top.process.ownedPages })) s' ∧
      s'.currentThread = some parent.thread.id ∧
      Inv s' ((c.pop parent rest status).settle parent.thread.id) := by
  rw [h.prepareExit_eq hcurrent]
  cases hwaiters : c.waiters with
  | nil =>
    obtain ⟨pr, hlast, haction, -⟩ := h.ok.root
    rw [Config.links, hwaiters, List.map_cons, List.map_nil, List.getLast?_singleton,
      Option.some.injEq] at hlast
    rw [← hlast] at haction
    rw [haction]
    exact .inl ⟨rfl, rfl⟩
  | cons parent rest =>
    have hwait : Waits c.top parent := by
      have hchain := h.ok.waits
      rw [Config.links, hwaiters] at hchain
      exact (List.isChain_cons_cons.mp hchain).1
    have hok := h.pop_ok hwaiters status
    have hthreads := h.pop_holds_threads hwaiters status
    have hmem : (woken parent status).thread ∈ (c.pop parent rest status).awake := top_mem
    have hparent : (removeCurrent s c.top).thread? parent.thread.id = some parent.thread := by
      have hpmem : parent.thread ∈ c.threads := waiter_mem (hwaiters ▸ List.mem_cons_self)
      have hne : c.top.thread.id ≠ parent.thread.id := by
        intro heq
        have hsame := h.threads.eq_of_key_eq (mem_threads top_mem) hpmem heq
        have hrun := canRun_mark c.top.thread.id c.top.thread
        rw [h.mark_of_mem hcurrent top_mem, hsame, Thread.canRun, hwait.blocked] at hrun
        cases hrun
      rw [removeCurrent, putProcess_thread?, thread?, putThread, get_put_of_ne hne]
      exact h.thread?_of_mem hpmem
    have hwake : modifyThread parent.thread.id (fun t => (t.setWaitResult status).wake)
        (removeCurrent s c.top) = .ok () ((removeCurrent s c.top).putThread parent.thread.id
          (some (woken parent status).thread)) := modifyThread_eq hparent _
    have hinv : Inv ((((removeCurrent s c.top).putThread parent.thread.id
        (some (woken parent status).thread)).setCurrent
          (some (woken parent status).thread.id)).putThread (woken parent status).thread.id
            (some ((woken parent status).thread.setState .running)))
        ((c.pop parent rest status).settle (woken parent status).thread.id) :=
      of_rest hok hmem (h.pop_holds_processes hwaiters status)
        (hok.holds_run (s := (removeCurrent s c.top).putThread parent.thread.id
          (some (woken parent status).thread)) hthreads (h.pop_rest hcurrent status) hmem)
        h.idle rfl
    have hgetWoken : (((removeCurrent s c.top).putThread parent.thread.id
        (some (woken parent status).thread)).setCurrent (some parent.thread.id)).thread?
          parent.thread.id = some (woken parent status).thread :=
      hthreads.get_of_mem (mem_threads hmem)
    have hprocess : parent.process ∈
        ((c.pop parent rest status).settle (woken parent status).thread.id).processes :=
      List.mem_cons_of_mem _ List.mem_cons_self
    have hactive := activation_eq (hinv.thread?_of_mem (mem_threads (mem_mapAwake _ hmem)))
      (by
        rw [← hinv.process?_of_mem hprocess]
        exact congrArg _ (h.ok.owner parent (by simp [Config.links, hwaiters])))
    refine .inr ⟨parent, rest, _, rfl, ?_, rfl, hinv⟩
    rw [hwait.continues, hwait.waiter]
    dsimp only
    have hsuccessor : exitSuccessor c.top.thread.id status (some parent.thread.id)
        (removeCurrent s c.top) = .ok (some parent.thread.id)
          ((removeCurrent s c.top).putThread parent.thread.id
            (some (woken parent status).thread)) := EStateM.bind_of_ok hwake _
    rw [EStateM.bind_of_ok hsuccessor]
    dsimp only
    rw [EStateM.modify_bind, EStateM.bind_of_ok (modifyThread_eq hgetWoken _)]
    exact (EStateM.bind_of_ok hactive _).trans (EStateM.bind_of_ok
      (thread_eq (hinv.thread?_of_mem (mem_threads (mem_mapAwake _ hmem)))) _)

end

end Inv

end Lazers.Scheduler
