import Lazers.Scheduler.Boot

/-!
# What every state of a run looks like

`Steady` speaks about a configuration that the tables hold. Here the same is said about
the tables alone: which threads and processes are in them, who waits for whom, and that
every identifier stored anywhere names an occupied slot. It follows that no accessor
panics, that neither `prepare_wait_for_child` nor `prepare_exit_current_process` ever
comes back empty, and that a spawn runs out of slots only with seven user processes.
-/

namespace Lazers.Scheduler

open Kernel Memory Storage SlotTable SchedulerState Config

/-- **The chain**, oldest process first, with the thread of each. -/
structure ChainIs (s : SchedulerState) (kernel : ProcessId) (chain : List (ProcessId × ThreadId)) :
    Prop where
  processes : ∀ p, (∃ pr, s.process? p = some pr) ↔ p = kernel ∨ p ∈ chain.map Prod.fst
  distinct : (kernel :: chain.map Prod.fst).Nodup
  nonempty : chain ≠ []
  /-- A thread of a user process is the one the chain names. -/
  single : ∀ t th, s.thread? t = some th → th.processId ≠ kernel → (th.processId, t) ∈ chain
  hasThread : ∀ p t, (p, t) ∈ chain → ∃ th, s.thread? t = some th ∧ th.processId = p
  waits : chain.IsChain fun older newer => ∃ th pr, s.thread? older.2 = some th ∧
    s.process? newer.1 = some pr ∧ th.state = .blocked ∧
    th.blockReason = .waitingForChild newer.1 ∧ pr.waitingThread = some older.2
  newest : ∀ p t, chain.getLast? = some (p, t) →
    ∃ th, s.thread? t = some th ∧ th.state ≠ .blocked
  kernelThreads : ∀ t th, s.thread? t = some th → th.processId = kernel → th.state ≠ .blocked

/-- Exactly one thread is running, the current one. -/
def OneRunning (s : SchedulerState) : Prop :=
  ∃ t th, s.currentThread = some t ∧ s.thread? t = some th ∧ th.state = .running ∧
    ∀ t' th', s.thread? t' = some th' → th'.state = .running → t' = t

/-- Every identifier stored anywhere names an occupied slot. -/
structure IdsOccupied (s : SchedulerState) : Prop where
  current : ∀ t, s.currentThread = some t → ∃ th, s.thread? t = some th
  idle : ∀ t, s.idleThread = some t → ∃ th, s.thread? t = some th
  thread : ∀ t th, s.thread? t = some th → th.id = t ∧ ∃ pr, s.process? th.processId = some pr
  blocked : ∀ t th p, s.thread? t = some th → th.blockReason = .waitingForChild p →
    ∃ pr, s.process? p = some pr
  process : ∀ p pr, s.process? p = some pr → pr.id = p
  waiting : ∀ p pr t, s.process? p = some pr → pr.waitingThread = some t →
    ∃ th, s.thread? t = some th

/-- The processes of a configuration, oldest first. -/
def Config.chain (c : Config) : List (ProcessId × ThreadId) :=
  (c.links.map fun l => (l.process.id, l.thread.id)).reverse

namespace Inv

variable {s : SchedulerState} {c : Config}

theorem mem_chain {p : ProcessId} {t : ThreadId} :
    (p, t) ∈ c.chain ↔ ∃ l ∈ c.links, l.process.id = p ∧ l.thread.id = t := by
  simp only [Config.chain, List.mem_reverse, List.mem_map, Prod.mk.injEq]

/-- A thread that is not blocked is marked. -/
theorem awake_not_blocked (h : Inv s c) {t : Thread} (ht : t ∈ c.awake) : t.state ≠ .blocked := by
  obtain ⟨cur, -, hcurrent, -⟩ := h.current
  have hrun := canRun_mark cur.id t
  rw [h.mark_of_mem hcurrent ht] at hrun
  intro hblocked
  rw [Thread.canRun, hblocked] at hrun
  cases hrun

theorem oneRunning (h : Inv s c) : OneRunning s := by
  obtain ⟨cur, hcur, hcurrent, -⟩ := h.current
  have hmark := fun t ht => h.mark_of_mem (t := t) hcurrent ht
  refine ⟨cur.id, cur, hcurrent, h.thread?_of_mem (mem_threads hcur), ?_, fun t th hth hrun => ?_⟩
  · have hstate := congrArg Thread.state (hmark cur hcur)
    rw [mark, if_pos rfl] at hstate
    exact hstate.symm
  · obtain ⟨hmem, hid⟩ := (h.threads.get_iff _ _).mp hth
    obtain hawake | hwaiter := List.mem_append.mp hmem
    · by_contra hne
      have hstate := congrArg Thread.state (hmark th hawake)
      rw [mark, if_neg (hid ▸ hne), hrun] at hstate
      cases hstate
    · obtain ⟨l, hl, rfl⟩ := List.mem_map.mp hwaiter
      rw [h.ok.waiter_blocked hl] at hrun
      cases hrun

theorem idsOccupied (h : Inv s c) : IdsOccupied s where
  current := by
    obtain ⟨cur, hcur, hcurrent, -⟩ := h.current
    intro t ht
    rw [hcurrent] at ht
    cases ht
    exact ⟨cur, h.thread?_of_mem (mem_threads hcur)⟩
  idle := by
    intro t ht
    rw [h.idle] at ht
    cases ht
    exact ⟨c.idle, h.thread?_of_mem (mem_threads (mem_awake.mpr (.inr (.inl rfl))))⟩
  thread := by
    intro t th hth
    obtain ⟨hmem, hid⟩ := (h.threads.get_iff _ _).mp hth
    obtain ⟨pr, -, hpr⟩ := h.process?_processId hmem
    exact ⟨hid, pr, hpr⟩
  blocked := by
    intro t th p hth hreason
    obtain ⟨hmem, -⟩ := (h.threads.get_iff _ _).mp hth
    obtain hawake | hwaiter := List.mem_append.mp hmem
    · rw [h.ok.reasons th hawake] at hreason
      cases hreason
    · obtain ⟨l, hl, rfl⟩ := List.mem_map.mp hwaiter
      obtain ⟨child, hchild, hwaits⟩ := exists_child_of_isChain h.ok.waits l hl
      rw [hwaits.reason] at hreason
      cases hreason
      exact ⟨child.process, h.process?_of_mem (link_process_mem hchild)⟩
  process := fun p pr hpr => (h.process_cases hpr).1
  waiting := by
    intro p pr t hpr hwaiting
    obtain ⟨-, rfl | ⟨l, hl, rfl⟩⟩ := h.process_cases hpr
    · rw [h.ok.kernelWaiter] at hwaiting
      cases hwaiting
    · obtain hlast | ⟨parent, hparent, hwaits⟩ := exists_parent_of_isChain h.ok.waits l hl
      · obtain ⟨root, hroot, -, hnone⟩ := h.ok.root
        rw [show c.links.map Link.process = (c.top :: c.waiters).map Link.process from rfl,
          hlast] at hroot
        cases hroot
        rw [hnone] at hwaiting
        cases hwaiting
      · rw [hwaits.waiter] at hwaiting
        cases hwaiting
        exact ⟨parent.thread, h.thread?_of_mem (waiter_mem hparent)⟩

theorem chainIs (h : Inv s c) : ChainIs s c.kernel.id c.chain where
  processes := by
    intro p
    have hmem : p ∈ c.chain.map Prod.fst ↔ ∃ l ∈ c.links, l.process.id = p := by
      rw [List.mem_map]
      constructor
      · rintro ⟨⟨p, t⟩, hpt, rfl⟩
        obtain ⟨l, hl, rfl, -⟩ := mem_chain.mp hpt
        exact ⟨l, hl, rfl⟩
      · rintro ⟨l, hl, rfl⟩
        exact ⟨(l.process.id, l.thread.id), mem_chain.mpr ⟨l, hl, rfl, rfl⟩, rfl⟩
    rw [hmem]
    constructor
    · rintro ⟨pr, hpr⟩
      obtain ⟨rfl, rfl | ⟨l, hl, rfl⟩⟩ := h.process_cases hpr
      · exact .inl rfl
      · exact .inr ⟨l, hl, rfl⟩
    · rintro (rfl | ⟨l, hl, rfl⟩)
      · exact ⟨c.kernel, h.process?_of_mem List.mem_cons_self⟩
      · exact ⟨l.process, h.process?_of_mem (link_process_mem hl)⟩
  distinct := by
    have hnodup := h.processes.nodup
    rw [Config.processes, List.map_cons, List.map_map] at hnodup
    rw [Config.chain, List.map_reverse, List.map_map]
    exact ((List.reverse_perm _).cons _).nodup_iff.mpr hnodup
  nonempty := by
    rw [Config.chain, Config.links, List.map_cons]
    simp
  single := by
    intro t th hth hne
    obtain ⟨rfl, rfl | rfl | ⟨l, hl, rfl⟩⟩ := h.thread_cases hth
    · exact absurd h.ok.kernelThreads.1 hne
    · exact absurd h.ok.kernelThreads.2 hne
    · exact mem_chain.mpr ⟨l, hl, (h.ok.owner l hl).symm, rfl⟩
  hasThread := by
    intro p t hpt
    obtain ⟨l, hl, rfl, rfl⟩ := mem_chain.mp hpt
    exact ⟨l.thread, h.thread?_of_mem (link_thread_mem hl), h.ok.owner l hl⟩
  waits := by
    rw [Config.chain, List.isChain_reverse, List.isChain_map]
    refine h.ok.waits.imp_of_mem_imp fun child parent hchild hparent hwaits => ?_
    exact ⟨parent.thread, child.process, h.thread?_of_mem (link_thread_mem hparent),
      h.process?_of_mem (link_process_mem hchild), hwaits.blocked, hwaits.reason, hwaits.waiter⟩
  newest := by
    intro p t hlast
    rw [Config.chain, List.getLast?_reverse, Config.links, List.map_cons, List.head?_cons] at hlast
    cases hlast
    exact ⟨c.top.thread, h.thread?_of_mem (mem_threads top_mem), h.awake_not_blocked top_mem⟩
  kernelThreads := by
    intro t th hth hkernel
    obtain ⟨-, rfl | rfl | ⟨l, hl, rfl⟩⟩ := h.thread_cases hth
    · exact h.awake_not_blocked terminal_mem
    · exact h.awake_not_blocked (mem_awake.mpr (.inr (.inl rfl)))
    · rw [h.ok.owner l hl] at hkernel
      exact absurd hkernel (h.kernel_id_ne hl)

theorem length_chain (c : Config) : c.chain.length = c.links.length := by
  rw [Config.chain, List.length_reverse, List.length_map]

end Inv

/-- **The scheduler over whole runs.** In every state of every run exactly one thread runs, the
user processes form a chain of waiting parents, and every stored identifier is occupied. So no
call of the current thread panics or halts; an exit always has a successor, a wait too, and a
spawn fails for lack of a slot only when seven user processes are live. -/
theorem run_keeps_chain {boot : Boot} {m : Machine} {trace : List Event}
    (run : Run boot m trace) :
    OneRunning m.scheduler ∧ IdsOccupied m.scheduler ∧
    (∀ call halt m', Enabled m call → step boot.rootFs call m = .error halt m' →
      (∃ path fuel, call = .chdir path fuel ∧ halt = .unfinished) ∨
      (∃ status, call = .exit status ∧ halt = .shutDown)) ∧
    (∀ t, .waitReturned t none ∉ trace) ∧
    ∃ kernel chain, ChainIs m.scheduler kernel chain ∧
      ∀ t th, m.scheduler.currentThread = some t → m.scheduler.thread? t = some th →
        th.processId ≠ kernel →
        (∀ status, ∃ exit s', prepareExitCurrentProcess status m.scheduler =
          .ok (some exit) s') ∧
        ∀ program silent,
          (chain.length = 7 ∧
            spawnChildProcess t program silent m.scheduler = .ok (.error program) m.scheduler) ∨
          (chain.length < 7 ∧ ∃ child s' switch s'',
            spawnChildProcess t program silent m.scheduler = .ok (.ok child) s' ∧
            prepareWaitForChild child s' = .ok (some switch) s'') := by
  obtain ⟨c, hsteady, hrun⟩ := run.stackRun
  have hinv := hsteady.inv
  refine ⟨hinv.oneRunning, hinv.idsOccupied, fun call halt m' henabled hstop => ?_, fun t => ?_,
    c.kernel.id, c.chain, hinv.chainIs, fun t th hcurrent hth huser => ?_⟩
  · obtain ⟨events, m'', c', hstep, -⟩ | ⟨path, fuel, hcall, hstep⟩ |
      ⟨status, m'', hcall, -, -, hstep, -⟩ := hsteady.step_cases boot.rootFs henabled
    · rw [hstep] at hstop
      cases hstop
    · rw [hstep] at hstop
      cases hstop
      exact .inl ⟨path, fuel, hcall, rfl⟩
    · rw [hstep] at hstop
      cases hstop
      exact .inr ⟨status, hcall, rfl⟩
  · exact hrun.waitReturned_ne_none t
  · -- A current thread outside the kernel process is the newest one.
    have htop : t = c.top.thread.id := by
      obtain ⟨hid, rfl | rfl | ⟨l, hl, rfl⟩⟩ := hinv.thread_cases hth
      · exact absurd hinv.ok.kernelThreads.1 huser
      · exact absurd hinv.ok.kernelThreads.2 huser
      · obtain ⟨entryPoint, stackTop, hstart⟩ := hinv.ok.user l hl
        have hcur := hsteady.current_top hcurrent hth hstart
        rw [hcurrent] at hcur
        exact Option.some.inj hcur
    subst htop
    constructor
    · intro status
      obtain ⟨-, hshutdown⟩ | ⟨parent, rest, s', -, hswitch, -⟩ :=
        hinv.prepareExit_spec hcurrent status
      · exact ⟨_, _, hshutdown⟩
      · exact ⟨_, _, hswitch⟩
    · intro program silent
      rw [Inv.length_chain]
      obtain ⟨hlen, hfull⟩ | ⟨hlen, child, s', hspawn, hspawned⟩ :=
        hinv.spawnChildProcess_spec program silent
      · exact .inl ⟨hlen, hfull⟩
      · obtain ⟨next, -, pr, -, s'', -, hwait, -, -⟩ :=
          hinv.prepareWait_spec hcurrent hsteady.mailbox hspawned
        exact .inr ⟨hlen, _, s', _, s'', hspawn, hwait⟩

/-- Two generations of children and an exit. -/
theorem run_keeps_chain_after_exit :
    ∃ r, sampleBoot.exec [.yieldNow, sampleSpawn false, sampleSpawn true, .exit 5] = some r ∧
      OneRunning r.1.scheduler ∧ IdsOccupied r.1.scheduler ∧
      ∃ kernel chain, ChainIs r.1.scheduler kernel chain := by
  obtain ⟨r, hr⟩ := Option.isSome_iff_exists.mp (by decide +kernel :
    (sampleBoot.exec [.yieldNow, sampleSpawn false, sampleSpawn true, .exit 5]).isSome = true)
  obtain ⟨hone, hids, -, -, kernel, chain, hchain, -⟩ := run_keeps_chain (run_of_exec hr)
  exact ⟨r, hr, hone, hids, kernel, chain, hchain⟩

end Lazers.Scheduler
