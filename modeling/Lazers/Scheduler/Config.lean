import Lazers.Lib.Triple
import Lazers.Scheduler.State

/-!
# Configurations of the scheduler

A process that spawns waits for its child, so the user processes form a chain: each
but the newest is blocked on the next one. `Config` is that view of the scheduler
(the two kernel threads, the newest user process and its ancestors).

- Exactly one thread is running; the states of the threads that are not blocked are
  determined by which one is current (`Config.settle`).
- `nextRunnableThread_spec`: the round robin, with its idle thread as a last resort,
  finds a thread whenever one can run.
-/

namespace Lazers.Scheduler

open Kernel Memory SlotTable SchedulerState

/-! ## Runs of the accessors -/

section

variable {s : SchedulerState} {p : ProcessId} {t : ThreadId} {pr : Process} {th : Thread}

theorem process_eq (h : s.process? p = some pr) : process p s = .ok pr s := by
  rw [process, h]

theorem thread_eq (h : s.thread? t = some th) : thread t s = .ok th s := by
  rw [thread, h]

theorem modifyProcess_eq (h : s.process? p = some pr) (f : Process → Process) :
    modifyProcess p f s = .ok () (s.putProcess p (some (f pr))) :=
  EStateM.bind_of_ok (process_eq h) _

theorem modifyThread_eq (h : s.thread? t = some th) (f : Thread → Thread) :
    modifyThread t f s = .ok () (s.putThread t (some (f th))) :=
  EStateM.bind_of_ok (thread_eq h) _

@[simp] theorem putProcess_thread? (x : Option Process) :
    (s.putProcess p x).thread? t = s.thread? t := rfl

theorem activation_eq (ht : s.thread? t = some th) (hp : s.process? th.processId = some pr) :
    activation t s = .ok {
      threadId := t
      kernelStackTop := th.kernelStackTop
      addressSpace := pr.addressSpace } s := by
  rw [activation, EStateM.bind_of_ok (thread_eq ht), EStateM.bind_of_ok (process_eq hp)]
  rfl

/-- What `prepare_exit_current_process` has left to do once `pr` and its thread are out of the
tables. -/
def finishExit (t : ThreadId) (status : Nat) (pr : Process) : SchedM (Option ProcessExit) := do
  match pr.exitAction with
  | .shutdownSystem =>
    modify (setCurrent · none)
    return some (.shutdown pr.ownedPages)
  | .continue =>
    match ← exitSuccessor t status pr.waitingThread with
    | none => return none
    | some next =>
      modify (setCurrent · (some next))
      modifyThread next (·.setState .running)
      let activation ← activation next
      let _ ← thread next
      return some (.switch {
        next
        nextSpace := activation.addressSpace
        nextStackTop := activation.kernelStackTop
        releasedPages := pr.ownedPages })

theorem prepareExitCurrentProcess_eq (hcurrent : s.currentThread = some t)
    (hthread : s.thread? t = some th) (hprocess : s.process? th.processId = some pr)
    (status : Nat) :
    prepareExitCurrentProcess status s =
      finishExit t status pr ((s.putThread t none).putProcess th.processId none) := by
  have hget : ∀ (s' : SchedulerState) (pr : Process),
      (s'.putProcess th.processId (some pr)).process? th.processId = some pr :=
    fun _ _ => get_put_self (lt_of_get hprocess)
  rw [prepareExitCurrentProcess, EStateM.get_bind, hcurrent]
  dsimp only
  rw [EStateM.bind_of_ok (thread_eq hthread), EStateM.bind_of_ok (modifyProcess_eq hprocess _),
    EStateM.bind_of_ok (process_eq (hget _ _))]
  -- the process stays in its slot, changed twice, until its pages are taken
  have hget' : (((s.putProcess th.processId (some (pr.markExited status))).putProcess th.processId
      (some (pr.markExited status).takeWaitingThread.2)).putThread t none).process? th.processId =
        some (pr.markExited status).takeWaitingThread.2 := hget _ _
  rw [EStateM.modify_bind, EStateM.modify_bind, EStateM.bind_of_ok (process_eq hget'),
    EStateM.modify_bind, EStateM.modify_bind]
  have hstate : (((((s.putProcess th.processId (some (pr.markExited status))).putProcess
      th.processId (some (pr.markExited status).takeWaitingThread.2)).putThread t none).putProcess
        th.processId (some (pr.markExited status).takeWaitingThread.2.takeOwnedPages.2)).putProcess
          th.processId none) = (s.putThread t none).putProcess th.processId none := by
    simp only [putProcess, putThread, put_put]
  rw [hstate]
  rfl

end

/-! ## Choosing a thread -/

/-- A thread the round robin stops at. -/
structure Eligible (s : SchedulerState) (th : Thread) : Prop where
  canRun : th.canRun = true
  not_idle : some th.id ≠ s.idleThread

section

variable {s : SchedulerState} {ts : List Thread} {th : Thread}

theorem nextNonIdleFrom_cases (hts : Holds s.threads Thread.id ts) (start rounds offset : Nat) :
    (∃ th ∈ ts, Eligible s th ∧ nextNonIdleFrom s start rounds offset = some th.id) ∨
    (nextNonIdleFrom s start rounds offset = none ∧
      ∀ th ∈ ts, Eligible s th → ∀ k < rounds, (start + (offset + k)) % maxThreads ≠ th.id) := by
  induction rounds generalizing offset with
  | zero => exact .inr ⟨rfl, fun _ _ _ k hk => absurd hk (Nat.not_lt_zero k)⟩
  | succ rounds ih =>
    -- A slot that is passed over holds no eligible thread.
    have hskip : (∀ th ∈ ts, Eligible s th → (start + offset) % maxThreads ≠ th.id) →
        nextNonIdleFrom s start (rounds + 1) offset =
          nextNonIdleFrom s start rounds (offset + 1) →
        (∃ th ∈ ts, Eligible s th ∧ nextNonIdleFrom s start (rounds + 1) offset = some th.id) ∨
        (nextNonIdleFrom s start (rounds + 1) offset = none ∧ ∀ th ∈ ts, Eligible s th →
          ∀ k < rounds + 1, (start + (offset + k)) % maxThreads ≠ th.id) := by
      intro hslot heq
      rw [heq]
      obtain hfound | ⟨hnone, hrest⟩ := ih (offset + 1)
      · exact .inl hfound
      · refine .inr ⟨hnone, fun th hth he k hk => ?_⟩
        cases k with
        | zero => exact hslot th hth he
        | succ k =>
          have hk' := hrest th hth he k (by omega)
          rwa [show offset + (k + 1) = offset + 1 + k by omega]
    cases hget : s.thread? ((start + offset) % maxThreads) with
    | none =>
      refine hskip (fun th hth _ heq => ?_) (by rw [nextNonIdleFrom, hget])
      have hsome := hts.get_of_mem hth
      rw [← heq] at hsome
      rw [thread?, hsome] at hget
      cases hget
    | some t =>
      obtain ⟨hmem, hid⟩ := (hts.get_iff _ _).mp hget
      have hsame : ∀ th ∈ ts, (start + offset) % maxThreads = th.id → th = t :=
        fun th hth heq => hts.eq_of_key_eq hth hmem (heq.symm.trans hid.symm)
      by_cases hidle : some t.id = s.idleThread
      · refine hskip (fun th hth he heq => ?_) ?_
        · rw [hsame th hth heq] at he
          exact he.not_idle hidle
        · rw [nextNonIdleFrom, hget]
          exact if_pos hidle
      · by_cases hrun : t.canRun = true
        · refine .inl ⟨t, hmem, ⟨hrun, hidle⟩, ?_⟩
          rw [nextNonIdleFrom, hget]
          exact (if_neg hidle).trans (if_pos hrun)
        · refine hskip (fun th hth he heq => ?_) ?_
          · rw [hsame th hth heq] at he
            exact hrun he.canRun
          · rw [nextNonIdleFrom, hget]
            exact (if_neg hidle).trans (if_neg hrun)

theorem slot_reached (start : Nat) {slot : Nat} (h : slot < maxThreads) :
    (start + (0 + (slot + (12 - start % 12)) % maxThreads)) % maxThreads = slot := by
  have hlt : start % 12 < 12 := Nat.mod_lt _ (by decide)
  have hdiv : start = 12 * (start / 12) + start % 12 := (Nat.div_add_mod start 12).symm
  rw [maxThreads] at h ⊢
  generalize start % 12 = r at *
  generalize start / 12 = q at *
  omega

/-- With an eligible thread in the table one is found. -/
theorem nextRunnableThread_spec (hts : Holds s.threads Thread.id ts) (hth : th ∈ ts)
    (he : Eligible s th) (current : Option ThreadId) :
    ∃ next ∈ ts, Eligible s next ∧ nextRunnableThread current s = .ok (some next.id) s := by
  obtain ⟨start, hstart⟩ : ∃ start, nextNonIdleRunnableThread s current =
      nextNonIdleFrom s start maxThreads 0 := ⟨_, rfl⟩
  rw [nextRunnableThread, EStateM.get_bind, hstart]
  obtain ⟨next, hnext, hen, hfound⟩ | ⟨-, hnone⟩ := nextNonIdleFrom_cases hts start maxThreads 0
  · refine ⟨next, hnext, hen, ?_⟩
    simp only [hfound]
    rfl
  · -- Twelve rounds visit every slot.
    exact absurd (slot_reached start (hts.lt_of_mem hth))
      (hnone th hth he _ (Nat.mod_lt _ (by decide)))

end

/-! ## Configurations -/

/-- A user process and its thread. -/
structure Link where
  process : Process
  thread : Thread
deriving DecidableEq

def Link.mapThread (l : Link) (f : Thread → Thread) : Link := { l with thread := f l.thread }

/-- The parent is blocked until the child exits. -/
structure Waits (child parent : Link) : Prop where
  waiter : child.process.waitingThread = some parent.thread.id
  continues : child.process.exitAction = .continue
  blocked : parent.thread.state = .blocked
  reason : parent.thread.blockReason = .waitingForChild child.process.id
  result : parent.thread.waitResult = none

/-- The kernel threads, the newest user process, and its ancestors, parent first. -/
structure Config where
  kernel : Process
  terminal : Thread
  idle : Thread
  top : Link
  waiters : List Link

/-- A thread that is not blocked, when `current` is running. -/
def mark (current : ThreadId) (t : Thread) : Thread :=
  t.setState (if t.id = current then .running else .runnable)

namespace Config

def links (c : Config) : List Link := c.top :: c.waiters

def processes (c : Config) : List Process := c.kernel :: c.links.map Link.process

/-- The threads that are not blocked. -/
def awake (c : Config) : List Thread := [c.terminal, c.idle, c.top.thread]

def threads (c : Config) : List Thread := c.awake ++ c.waiters.map Link.thread

/-- A change to the threads that are not blocked. -/
def mapAwake (c : Config) (f : Thread → Thread) : Config :=
  { c with terminal := f c.terminal, idle := f c.idle, top.thread := f c.top.thread }

/-- The threads that are not blocked, when `current` is running. -/
def settle (c : Config) (current : ThreadId) : Config := c.mapAwake (mark current)

/-- Between two threads: nobody is running. -/
def rest (c : Config) : Config := c.mapAwake (·.setState .runnable)

/-- A change to all threads. -/
def mapThreads (c : Config) (f : Thread → Thread) : Config :=
  { c.mapAwake f with waiters := c.waiters.map (·.mapThread f) }

/-- The newest process changes. -/
def setTop (c : Config) (pr : Process) : Config := { c with top.process := pr }

/-- What holds of a configuration whoever is current. -/
structure Ok (c : Config) : Prop where
  reasons : ∀ t ∈ c.awake, t.blockReason = .none
  kernelThreads : c.terminal.processId = c.kernel.id ∧ c.idle.processId = c.kernel.id
  kernelWaiter : c.kernel.waitingThread = none
  entries : c.terminal.start = .kernel .terminalThreadEntry ∧
    c.idle.start = .kernel .idleThreadEntry
  owner : ∀ l ∈ c.links, l.thread.processId = l.process.id
  user : ∀ l ∈ c.links, ∃ entryPoint stackTop, l.thread.start = .user entryPoint stackTop
  waits : c.links.IsChain Waits
  root : ∃ pr, (c.links.map Link.process).getLast? = some pr ∧
    pr.exitAction = .shutdownSystem ∧ pr.waitingThread = none
  ready : ∀ pr ∈ c.links.map Link.process, pr.Ready

end Config

/-! ### Configurations without a state -/

/-- What the chain sees of a process. -/
structure SameLink (pr pr' : Process) : Prop where
  id : pr'.id = pr.id
  waitingThread : pr'.waitingThread = pr.waitingThread
  exitAction : pr'.exitAction = pr.exitAction

theorem SameLink.refl (pr : Process) : SameLink pr pr := ⟨rfl, rfl, rfl⟩

/-- Only the process matters for the newest link. -/
theorem isChain_of_top {top top' : Link} {waiters : List Link}
    (h : (top :: waiters).IsChain Waits) (hsame : SameLink top.process top'.process) :
    (top' :: waiters).IsChain Waits := by
  cases waiters with
  | nil => exact .singleton _
  | cons parent rest =>
    obtain ⟨hwait, hrest⟩ := List.isChain_cons_cons.mp h
    refine List.isChain_cons_cons.mpr ⟨⟨?_, ?_, hwait.blocked, ?_, hwait.result⟩, hrest⟩
    · rw [hsame.waitingThread, hwait.waiter]
    · rw [hsame.exitAction, hwait.continues]
    · rw [hsame.id, hwait.reason]

/-- Every waiter waits for a link. -/
theorem exists_child_of_isChain {top : Link} {waiters : List Link}
    (h : (top :: waiters).IsChain Waits) :
    ∀ l ∈ waiters, ∃ child ∈ top :: waiters, Waits child l := by
  induction waiters generalizing top with
  | nil => exact fun l hl => absurd hl List.not_mem_nil
  | cons parent rest ih =>
    obtain ⟨hwait, hrest⟩ := List.isChain_cons_cons.mp h
    intro l hl
    obtain rfl | hl := List.mem_cons.mp hl
    · exact ⟨top, List.mem_cons_self, hwait⟩
    · obtain ⟨child, hchild, hwaits⟩ := ih hrest l hl
      exact ⟨child, List.mem_cons_of_mem _ hchild, hwaits⟩

/-- Every link but the last has somebody waiting for it. -/
theorem exists_parent_of_isChain {top : Link} {waiters : List Link}
    (h : (top :: waiters).IsChain Waits) :
    ∀ l ∈ top :: waiters, ((top :: waiters).map Link.process).getLast? = some l.process ∨
      ∃ parent ∈ waiters, Waits l parent := by
  induction waiters generalizing top with
  | nil =>
    intro l hl
    obtain rfl := List.mem_singleton.mp hl
    exact .inl rfl
  | cons parent rest ih =>
    obtain ⟨hwait, hrest⟩ := List.isChain_cons_cons.mp h
    intro l hl
    obtain rfl | hl := List.mem_cons.mp hl
    · exact .inr ⟨parent, List.mem_cons_self, hwait⟩
    · obtain hlast | ⟨parent', hparent, hwaits⟩ := ih hrest l hl
      · rw [List.map_cons, List.map_cons, List.getLast?_cons_cons]
        exact .inl hlast
      · exact .inr ⟨parent', List.mem_cons_of_mem _ hparent, hwaits⟩

theorem canRun_mark (current : ThreadId) (t : Thread) : (mark current t).canRun = true := by
  rw [mark, Thread.setState, Thread.canRun, decide_eq_true_iff]
  dsimp only
  split_ifs
  · exact .inr rfl
  · exact .inl rfl

/-- A change to the saved context or to an empty mailbox: the chain does not see it. -/
structure Quiet (f : Thread → Thread) : Prop where
  id : ∀ t, (f t).id = t.id
  processId : ∀ t, (f t).processId = t.processId
  start : ∀ t, (f t).start = t.start
  state : ∀ t, (f t).state = t.state
  blockReason : ∀ t, (f t).blockReason = t.blockReason
  waitResult : ∀ t, t.waitResult = none → (f t).waitResult = none

theorem Quiet.of_saveContext (context : Resume) : Quiet (·.saveContext context) :=
  ⟨fun _ => rfl, fun _ => rfl, fun _ => rfl, fun _ => rfl, fun _ => rfl, fun _ h => h⟩

theorem Quiet.of_takeWaitResult : Quiet fun t => t.takeWaitResult.2 :=
  ⟨fun _ => rfl, fun _ => rfl, fun _ => rfl, fun _ => rfl, fun _ => rfl, fun _ _ => rfl⟩

/-- The same change to one thread. -/
theorem Quiet.at {f : Thread → Thread} (h : Quiet f) (id : ThreadId) :
    Quiet fun t => if t.id = id then f t else t := by
  constructor <;> intro t <;> split_ifs
  · exact h.id t
  · rfl
  · exact h.processId t
  · rfl
  · exact h.start t
  · rfl
  · exact h.state t
  · rfl
  · exact h.blockReason t
  · rfl
  · exact h.waitResult t
  · exact fun hnone => hnone

theorem Quiet.mark {f : Thread → Thread} (h : Quiet f) {current : ThreadId} {t : Thread}
    (ht : mark current t = t) : Scheduler.mark current (f t) = f t := by
  rw [Scheduler.mark] at ht ⊢
  have hstate : (if t.id = current then ThreadState.running else .runnable) = (f t).state :=
    (congrArg Thread.state ht).trans (h.state t).symm
  rw [h.id t, hstate]
  rfl

theorem Waits.mapThread {child parent : Link} (h : Waits child parent) {f : Thread → Thread}
    (hf : Quiet f) : Waits (child.mapThread f) (parent.mapThread f) where
  waiter := h.waiter.trans (congrArg some (hf.id _).symm)
  continues := h.continues
  blocked := (hf.state _).trans h.blocked
  reason := (hf.blockReason _).trans h.reason
  result := hf.waitResult _ h.result

namespace Config

variable {c : Config} {th : Thread}

theorem mem_awake : th ∈ c.awake ↔ th = c.terminal ∨ th = c.idle ∨ th = c.top.thread := by
  simp only [awake, List.mem_cons, List.not_mem_nil, or_false]

theorem terminal_mem : c.terminal ∈ c.awake := mem_awake.mpr (.inl rfl)

theorem top_mem : c.top.thread ∈ c.awake := mem_awake.mpr (.inr (.inr rfl))

theorem mem_threads (h : th ∈ c.awake) : th ∈ c.threads := List.mem_append_left _ h

theorem waiter_mem {l : Link} (h : l ∈ c.waiters) : l.thread ∈ c.threads :=
  List.mem_append_right _ (List.mem_map_of_mem h)

theorem mem_mapAwake (f : Thread → Thread) (h : th ∈ c.awake) : f th ∈ (c.mapAwake f).awake := by
  obtain rfl | rfl | rfl := mem_awake.mp h
  · exact mem_awake.mpr (.inl rfl)
  · exact mem_awake.mpr (.inr (.inl rfl))
  · exact mem_awake.mpr (.inr (.inr rfl))

theorem awake_mapAwake (f : Thread → Thread) : (c.mapAwake f).awake = c.awake.map f := rfl

theorem awake_mapThreads (f : Thread → Thread) : (c.mapThreads f).awake = c.awake.map f := rfl

theorem mapAwake_mapAwake (f g : Thread → Thread) :
    (c.mapAwake f).mapAwake g = c.mapAwake fun t => g (f t) := rfl

theorem settle_rest (t : ThreadId) : c.rest.settle t = c.settle t := rfl

theorem settle_settle (t t' : ThreadId) : (c.settle t).settle t' = c.settle t' := rfl

theorem rest_settle (t : ThreadId) : (c.settle t).rest = c.rest := rfl

theorem threads_mapThreads (f : Thread → Thread) : (c.mapThreads f).threads = c.threads.map f := by
  rw [threads, threads, List.map_append, List.map_map]
  simp only [mapThreads, List.map_map]
  rfl

theorem links_mapThreads (f : Thread → Thread) :
    (c.mapThreads f).links = c.links.map (·.mapThread f) := rfl

theorem map_process_links_mapThreads (f : Thread → Thread) :
    (c.mapThreads f).links.map Link.process = c.links.map Link.process := by
  rw [links_mapThreads, List.map_map]
  rfl

theorem eq_of_mapAwake_eq {f : Thread → Thread} (hf : c.mapAwake f = c) (h : th ∈ c.awake) :
    f th = th := by
  obtain rfl | rfl | rfl := mem_awake.mp h
  · exact congrArg terminal hf
  · exact congrArg idle hf
  · exact congrArg (fun c => c.top.thread) hf

theorem settle_mapThreads {f : Thread → Thread} (hf : Quiet f) {t : ThreadId}
    (h : c.settle t = c) : (c.mapThreads f).settle t = c.mapThreads f := by
  have hterminal := hf.mark (eq_of_mapAwake_eq h terminal_mem)
  have hidle := hf.mark (eq_of_mapAwake_eq h (mem_awake.mpr (.inr (.inl rfl))))
  have htop := hf.mark (eq_of_mapAwake_eq h top_mem)
  simp only [settle, mapAwake, mapThreads, hterminal, hidle, htop]

/-- Only what a thread is, and why it is blocked, matters. -/
theorem Ok.mapAwake (h : c.Ok) {f : Thread → Thread}
    (hreason : ∀ t, (f t).blockReason = t.blockReason)
    (hprocess : ∀ t, (f t).processId = t.processId) (hstart : ∀ t, (f t).start = t.start) :
    (c.mapAwake f).Ok where
  reasons := by
    intro t ht
    rw [awake_mapAwake] at ht
    obtain ⟨t', ht', rfl⟩ := List.mem_map.mp ht
    rw [hreason]
    exact h.reasons t' ht'
  kernelThreads := by
    simp only [Config.mapAwake, hprocess]
    exact h.kernelThreads
  kernelWaiter := h.kernelWaiter
  entries := by
    simp only [Config.mapAwake, hstart]
    exact h.entries
  owner := by
    intro l hl
    obtain rfl | hl := List.mem_cons.mp hl
    · simp only [Config.mapAwake, hprocess]
      exact h.owner c.top List.mem_cons_self
    · exact h.owner l (List.mem_cons_of_mem _ hl)
  user := by
    intro l hl
    obtain rfl | hl := List.mem_cons.mp hl
    · simp only [Config.mapAwake, hstart]
      exact h.user c.top List.mem_cons_self
    · exact h.user l (List.mem_cons_of_mem _ hl)
  waits := isChain_of_top h.waits (.refl _)
  root := h.root
  ready := h.ready

theorem Ok.settle (h : c.Ok) (t : ThreadId) : (c.settle t).Ok :=
  h.mapAwake (fun _ => rfl) (fun _ => rfl) fun _ => rfl

theorem Ok.rest (h : c.Ok) : c.rest.Ok :=
  h.mapAwake (fun _ => rfl) (fun _ => rfl) fun _ => rfl

theorem Ok.mapThreads (h : c.Ok) {f : Thread → Thread} (hf : Quiet f) : (c.mapThreads f).Ok where
  reasons := (h.mapAwake hf.blockReason hf.processId hf.start).reasons
  kernelThreads := (h.mapAwake hf.blockReason hf.processId hf.start).kernelThreads
  kernelWaiter := h.kernelWaiter
  entries := (h.mapAwake hf.blockReason hf.processId hf.start).entries
  owner := by
    intro l hl
    rw [links_mapThreads] at hl
    obtain ⟨l', hl', rfl⟩ := List.mem_map.mp hl
    exact (hf.processId _).trans (h.owner l' hl')
  user := by
    intro l hl
    rw [links_mapThreads] at hl
    obtain ⟨l', hl', rfl⟩ := List.mem_map.mp hl
    obtain ⟨entryPoint, stackTop, hstart⟩ := h.user l' hl'
    exact ⟨entryPoint, stackTop, (hf.start _).trans hstart⟩
  waits := by
    rw [links_mapThreads, List.isChain_map]
    exact h.waits.imp fun _ _ hwait => hwait.mapThread hf
  root := by
    rw [map_process_links_mapThreads]
    exact h.root
  ready := by
    rw [map_process_links_mapThreads]
    exact h.ready

theorem Ok.setTop (h : c.Ok) {pr : Process} (hsame : SameLink c.top.process pr)
    (hready : pr.Ready) : (c.setTop pr).Ok where
  reasons := h.reasons
  kernelThreads := h.kernelThreads
  kernelWaiter := h.kernelWaiter
  entries := h.entries
  owner := by
    intro l hl
    obtain rfl | hl := List.mem_cons.mp hl
    · exact (h.owner c.top List.mem_cons_self).trans hsame.id.symm
    · exact h.owner l (List.mem_cons_of_mem _ hl)
  user := by
    intro l hl
    obtain rfl | hl := List.mem_cons.mp hl
    · exact h.user c.top List.mem_cons_self
    · exact h.user l (List.mem_cons_of_mem _ hl)
  waits := isChain_of_top h.waits hsame
  root := by
    obtain ⟨root, hlast, haction, hwaiting⟩ := h.root
    -- The newest process is the root only when nobody waits.
    cases hwaiters : c.waiters with
    | nil =>
      rw [links, hwaiters, List.map_singleton, List.getLast?_singleton, Option.some.injEq] at hlast
      subst hlast
      refine ⟨pr, ?_, hsame.exitAction.trans haction, hsame.waitingThread.trans hwaiting⟩
      simp only [links, Config.setTop, hwaiters, List.map_singleton, List.getLast?_singleton]
    | cons parent rest =>
      refine ⟨root, ?_, haction, hwaiting⟩
      rw [links, hwaiters, List.map_cons, List.map_cons, List.getLast?_cons_cons] at hlast
      simp only [links, Config.setTop, hwaiters, List.map_cons, List.getLast?_cons_cons]
      exact hlast
  ready := by
    intro pr' hpr'
    obtain rfl | hpr' := List.mem_cons.mp hpr'
    · exact hready
    · exact h.ready pr' (List.mem_cons_of_mem _ hpr')

theorem Ok.waiter_blocked (h : c.Ok) {l : Link} (hl : l ∈ c.waiters) :
    l.thread.state = .blocked := by
  obtain ⟨child, -, hwaits⟩ := exists_child_of_isChain h.waits l hl
  exact hwaits.blocked

/-- The round robin finds the terminal thread or the newest user thread. -/
theorem Ok.eligible_cases (h : c.Ok) {s : SchedulerState} (hidle : s.idleThread = some c.idle.id)
    (hth : th ∈ c.threads) (he : Eligible s th) : th = c.terminal ∨ th = c.top.thread := by
  obtain hawake | hwaiter := List.mem_append.mp hth
  · obtain rfl | rfl | rfl := mem_awake.mp hawake
    · exact .inl rfl
    · exact absurd hidle.symm he.not_idle
    · exact .inr rfl
  · obtain ⟨l, hl, rfl⟩ := List.mem_map.mp hwaiter
    have hrun := he.canRun
    rw [Thread.canRun, h.waiter_blocked hl] at hrun
    cases hrun

section

variable {s : SchedulerState} (htable : Holds s.threads Thread.id c.threads)
include htable

theorem eligible_terminal (hidle : s.idleThread = some c.idle.id) (hrest : c.rest = c) :
    Eligible s c.terminal := by
  constructor
  · rw [← eq_of_mapAwake_eq hrest terminal_mem]
    rfl
  · rw [hidle]
    intro heq
    have hnodup := htable.nodup
    simp only [threads, awake, List.cons_append, List.map_cons, List.nodup_cons, List.mem_cons,
      not_or] at hnodup
    exact hnodup.1.1 (Option.some.inj heq)

/-- Waiters are not awake. -/
theorem Ok.waiter_id_ne (h : c.Ok) {l : Link} (hl : l ∈ c.waiters) (hth : th ∈ c.awake)
    (hrun : th.canRun = true) : l.thread.id ≠ th.id := by
  intro heq
  have hsame := htable.eq_of_key_eq (waiter_mem hl) (mem_threads hth) heq
  rw [← hsame, Thread.canRun, h.waiter_blocked hl] at hrun
  cases hrun

/-- One of the threads that are not blocked changes. -/
theorem Ok.holds_modify (h : c.Ok) (hth : th ∈ c.awake) (hrun : th.canRun = true)
    (f : Thread → Thread) (hf : (f th).id = th.id) :
    Holds (put s.threads th.id (some (f th))) Thread.id
      (c.mapAwake fun x => if x.id = th.id then f x else x).threads := by
  have hmod := htable.modify (mem_threads hth) f hf
  refine Eq.mp (congrArg (Holds _ _) ?_) hmod
  rw [threads, threads, List.map_append, List.map_map, awake_mapAwake]
  refine congrArg _ (List.map_congr_left fun l hl => ?_)
  exact if_neg (h.waiter_id_ne htable hl hth hrun)

/-- Somebody starts running. -/
theorem Ok.holds_run (h : c.Ok) (hrest : c.rest = c) (hth : th ∈ c.awake) :
    Holds (put s.threads th.id (some (th.setState .running))) Thread.id
      (c.settle th.id).threads := by
  have hrun : th.canRun = true := by
    rw [← eq_of_mapAwake_eq hrest hth]
    rfl
  have heq : (c.mapAwake fun x => if x.id = th.id then x.setState .running else x) =
      c.settle th.id := by
    rw [← hrest, settle_rest, Config.rest, mapAwake_mapAwake, Config.settle]
    refine congrArg c.mapAwake (funext fun t => ?_)
    by_cases hid : t.id = th.id
    · rw [mark, if_pos hid]
      exact if_pos hid
    · rw [mark, if_neg hid]
      exact if_neg hid
  rw [← heq]
  exact h.holds_modify htable hth hrun (·.setState .running) rfl

end

end Config

end Lazers.Scheduler
