import Lazers.Scheduler.Chain
import Lazers.Scheduler.Stack

/-!
# Steps keep the chain

Between two calls of a run the scheduler is `Steady`: its tables hold a configuration,
the newest process has no unread status, and exactly the threads that wait will continue
in the second half of `wait_for_child`.

Every call of the current thread leads to a steady scheduler again and is an `Effect` on
the stack of processes (`Steady.step`); the only ways not to get there are a directory
lookup that has not returned and the shutdown when the last process exits.
-/

namespace Lazers.Scheduler

open Kernel Memory Storage SlotTable SchedulerState Config

/-- The processes of a configuration. -/
def Config.stack (c : Config) : List Member := c.links.map fun l => ⟨l.process, l.thread.id⟩

/-- **Between two calls.** -/
structure Steady (s : SchedulerState) (c : Config) : Prop where
  inv : Inv s c
  mailbox : c.top.thread.waitResult = none
  awake : ∀ t ∈ c.awake, s.currentThread ≠ some t.id → t.context ≠ .afterWait
  waiting : ∀ l ∈ c.waiters, l.thread.context = .afterWait

/-- A call that succeeds and is an effect on the stack. -/
def Advances (rootFs : Option Fat32) (x : SchedM (List Event)) (s : SchedulerState)
    (c : Config) : Prop :=
  ∃ events s' c', x s = .ok events s' ∧ Steady s' c' ∧ Effect rootFs c.stack events c'.stack ∧
    ∀ e ∈ events, e.isWrite = false

/-- No event, no write. -/
theorem isWrite_nil : ∀ e ∈ ([] : List Event), e.isWrite = false :=
  fun _ he => absurd he List.not_mem_nil

theorem isWrite_singleton {e : Event} (h : e.isWrite = false) :
    ∀ e' ∈ [e], e'.isWrite = false := by
  intro e' he'
  rw [List.mem_singleton.mp he']
  exact h

theorem stack_settle (c : Config) (t : ThreadId) : (c.settle t).stack = c.stack := rfl

theorem stack_mapThreads (c : Config) {f : Thread → Thread} (hf : Quiet f) :
    (c.mapThreads f).stack = c.stack := by
  rw [stack, links_mapThreads, List.map_map]
  refine List.map_congr_left fun l _ => ?_
  exact congrArg (Member.mk l.process) (hf.id l.thread)

/-! ## Continuing -/

section

variable {s : SchedulerState} {t : ThreadId} {th : Thread}

theorem resume_eq_nil (hcurrent : s.currentThread = some t) (hth : s.thread? t = some th)
    (hcontext : th.context ≠ .afterWait) : resume s = .ok [] s := by
  rw [resume, EStateM.get_bind, hcurrent]
  dsimp only
  rw [EStateM.bind_of_ok (thread_eq hth)]
  cases h : th.context with
  | entry => rfl
  | afterYield => rfl
  | afterWait => exact absurd h hcontext

/-- A parent takes the status out of its mailbox. -/
theorem resume_afterWait (hcurrent : s.currentThread = some t) (hth : s.thread? t = some th)
    (hcontext : th.context = .afterWait) :
    resume s = .ok [.waitReturned t th.waitResult]
      (s.putThread t (some th.takeWaitResult.2)) := by
  have htake : finishWait s = .ok th.waitResult (s.putThread t (some th.takeWaitResult.2)) := by
    rw [finishWait, EStateM.get_bind, hcurrent]
    dsimp only
    rw [EStateM.bind_of_ok (thread_eq hth)]
    rfl
  rw [resume, EStateM.get_bind, hcurrent]
  dsimp only
  rw [EStateM.bind_of_ok (thread_eq hth), hcontext]
  exact EStateM.bind_of_ok htake _

end

namespace Steady

variable {s : SchedulerState} {c : Config} {rootFs : Option Fat32}

/-- Nothing happened. -/
theorem advances_quiet (h : Steady s c) {x : SchedM (List Event)} (hx : x s = .ok [] s) :
    Advances rootFs x s c := ⟨[], s, c, hx, h, .quiet _, isWrite_nil⟩

/-- The current thread, if it makes system calls. -/
theorem current_top (h : Steady s c) {t : ThreadId} {th : Thread}
    (hcurrent : s.currentThread = some t) (hth : s.thread? t = some th)
    {entryPoint stackTop : Nat} (huser : th.start = .user entryPoint stackTop) :
    s.currentThread = some c.top.thread.id := by
  obtain ⟨t', ht', hcurrent', -⟩ := h.inv.current
  rw [hcurrent] at hcurrent'
  cases hcurrent'
  rw [h.inv.thread?_of_mem (mem_threads ht')] at hth
  cases hth
  obtain rfl | rfl | rfl := mem_awake.mp ht'
  · rw [h.inv.ok.entries.1] at huser
    cases huser
  · rw [h.inv.ok.entries.2] at huser
    cases huser
  · exact hcurrent

/-! ## Yielding -/

/-- **`yield_now`** changes no process. -/
theorem yieldNow_spec (h : Steady s c) :
    ∃ s' c', yieldNow s = .ok [] s' ∧ Steady s' c' ∧ c'.stack = c.stack := by
  obtain hnone | ⟨cur, hcur, next, hnext, pr, -, s', hcurrent, hne, -, hswitch, hcurrent', hinv⟩ :=
    h.inv.prepareSwitch_spec
  · exact ⟨s, c, EStateM.bind_of_ok hnone _, h, rfl⟩
  · have hcur' : mark next.id cur ∈ (c.settle next.id).threads :=
      mem_threads (mem_mapAwake _ hcur)
    have hquiet := Quiet.of_saveContext .afterYield
    have hinv' := hinv.quiet hcur' hquiet
    have hsave : contextSwitch cur.id .afterYield s' = .ok ()
        (s'.putThread cur.id (some ((mark next.id cur).saveContext .afterYield))) :=
      modifyThread_eq (hinv.thread?_of_mem hcur') _
    -- The next thread was not the one whose context was saved.
    have hget : (s'.putThread cur.id (some ((mark next.id cur).saveContext .afterYield))).thread?
        next.id = some (mark next.id next) := by
      rw [thread?, putThread, get_put_of_ne hne.symm]
      exact hinv.thread?_of_mem (mem_threads (mem_mapAwake _ hnext))
    have hparked : next.context ≠ .afterWait := by
      refine h.awake next hnext fun heq => ?_
      rw [hcurrent, Option.some.injEq] at heq
      exact hne heq.symm
    refine ⟨_, _, ?_, ⟨hinv', ?_, ?_, ?_⟩, ?_⟩
    · rw [yieldNow, EStateM.bind_of_ok hswitch]
      dsimp only
      rw [EStateM.bind_of_ok hsave]
      exact resume_eq_nil hcurrent' hget hparked
    · exact (hquiet.at _).waitResult _ h.mailbox
    · intro t ht _
      rw [awake_mapThreads, settle, awake_mapAwake, List.map_map] at ht
      obtain ⟨t₁, ht₁, rfl⟩ := List.mem_map.mp ht
      dsimp only [Function.comp]
      split_ifs with hid
      · exact fun hcontext => by cases hcontext
      · refine h.awake t₁ ht₁ fun heq => hid ?_
        rw [hcurrent, Option.some.injEq] at heq
        exact heq.symm
    · intro l hl
      obtain ⟨l₀, hl₀, rfl⟩ := List.mem_map.mp hl
      have hrun : cur.canRun = true := by
        rw [← h.inv.mark_of_mem hcurrent hcur]
        exact canRun_mark _ _
      have hid := h.inv.ok.waiter_id_ne h.inv.threads hl₀ hcur hrun
      exact (congrArg Thread.context (if_neg hid)).trans (h.waiting l₀ hl₀)
    · rw [stack_mapThreads _ (hquiet.at _), stack_settle]

theorem yieldNow_advances (rootFs : Option Fat32) (h : Steady s c) : Advances rootFs yieldNow s c := by
  obtain ⟨s', c', hyield, hsteady, hstack⟩ := h.yieldNow_spec
  exact ⟨[], s', c', hyield, hsteady, hstack ▸ .quiet _, isWrite_nil⟩

/-! ## Spawning -/

/-- The kernel threads will not continue in a wait. -/
theorem kernel_contexts (h : Steady s c) (hcurrent : s.currentThread = some c.top.thread.id) :
    c.terminal.context ≠ .afterWait ∧ c.idle.context ≠ .afterWait := by
  obtain ⟨hterminal, hidle⟩ := h.inv.kernel_id_ne_top
  constructor
  · refine h.awake _ terminal_mem fun heq => hterminal ?_
    rw [hcurrent, Option.some.injEq] at heq
    exact heq.symm
  · refine h.awake _ (mem_awake.mpr (.inr (.inl rfl))) fun heq => hidle ?_
    rw [hcurrent, Option.some.injEq] at heq
    exact heq.symm

theorem currentProcess_eq (h : Inv s c) (hcurrent : s.currentThread = some c.top.thread.id) :
    currentProcess s = .ok (some (c.top.process.id, c.top.process)) s := by
  have howner := h.ok.owner c.top List.mem_cons_self
  rw [currentProcess, EStateM.get_bind, hcurrent]
  dsimp only
  rw [EStateM.bind_of_ok (thread_eq (h.thread?_of_mem (mem_threads top_mem))), howner,
    EStateM.bind_of_ok (process_eq h.process?_top)]
  rfl

/-- A spawn up to the switch: it fails and changes nothing, or the child is pushed. -/
theorem spawnUserProcessAndWait_cases (h : Steady s c)
    (hcurrent : s.currentThread = some c.top.thread.id)
    (load : String → Except SpawnError LoadedUserProgram) (path : String) (silent : Bool) :
    (∃ e, spawnUserProcessAndWait load path silent s = .ok (.failed e) s) ∨
    ∃ program child switch s₁ s₂, ∃ next ∈ (c.push child).awake,
      spawnUserProcessAndWait load path silent s = .ok (.waiting child.process.id switch) s₂ ∧
      switch.current = c.top.thread.id ∧ Spawned s s₁ c.top program silent child ∧
      s₂.currentThread = some next.id ∧ Inv s₂ ((c.push child).settle next.id) := by
  have howner := h.inv.ok.owner c.top List.mem_cons_self
  rw [spawnUserProcessAndWait, EStateM.get_bind, hcurrent]
  dsimp only
  rw [EStateM.bind_of_ok (thread_eq (h.inv.thread?_of_mem (mem_threads top_mem))), howner,
    EStateM.bind_of_ok (process_eq h.inv.process?_top)]
  cases resolvePath c.top.process.cwd path with
  | error e => exact .inl ⟨_, rfl⟩
  | ok target =>
    dsimp only
    cases load target with
    | error e => exact .inl ⟨_, rfl⟩
    | ok program =>
      dsimp only
      obtain ⟨-, hfull⟩ | ⟨-, child, s₁, hspawn, hspawned⟩ :=
        h.inv.spawnChildProcess_spec program silent
      · left
        refine ⟨.resourceUnavailable, ?_⟩
        rw [EStateM.bind_of_ok hfull]
        rfl
      · obtain ⟨next, hnext, pr, -, s₂, -, hwait, hcurrent', hinv⟩ :=
          h.inv.prepareWait_spec hcurrent h.mailbox hspawned
        refine .inr ⟨program, child, ⟨c.top.thread.id, next.id, pr.addressSpace,
          next.kernelStackTop⟩, s₁, s₂, next, hnext, ?_, rfl, hspawned, hcurrent', hinv⟩
        rw [EStateM.bind_of_ok hspawn]
        dsimp only
        rw [EStateM.bind_of_ok hwait]
        rfl

/-- The effect of a spawn. -/
theorem spawned_effect (h : Inv s c) {s₁ : SchedulerState} {program : LoadedUserProgram}
    {silent : Bool} {child : Link} (hspawned : Spawned s s₁ c.top program silent child) :
    Effect rootFs c.stack
      [.spawned c.top.process.id c.top.thread.id child.process.id silent]
      (c.push child).stack := by
  obtain ⟨inherited, hinherits, hchild⟩ := hspawned.process
  refine .spawned ⟨c.top.process, c.top.thread.id⟩ ⟨child.process, child.thread.id⟩ hinherits
    hchild fun m hm => ?_
  -- Its slots were free.
  have hm' : m ∈ c.stack := hm
  obtain ⟨l, hl, rfl⟩ := List.mem_map.mp hm'
  constructor
  · intro heq
    have hfree := hspawned.process_free
    rw [← heq, h.process?_of_mem (Inv.link_process_mem hl)] at hfree
    cases hfree
  · intro heq
    have hfree := hspawned.thread_free
    dsimp only at heq
    rw [← heq, h.thread?_of_mem (Inv.link_thread_mem hl)] at hfree
    cases hfree

/-- **`spawn_wait`.** -/
theorem spawnWait_advances (rootFs : Option Fat32) (h : Steady s c)
    (hcurrent : s.currentThread = some c.top.thread.id)
    (path : List UInt8) (silent : Bool) (load : String → Except SpawnError LoadedUserProgram) :
    Advances rootFs (spawnWait path silent load) s c := by
  rw [Advances, spawnWait, EStateM.bind_of_ok (currentProcess_eq h.inv hcurrent)]
  cases fromUtf8 path with
  | none => exact h.advances_quiet (x := pure []) rfl
  | some path =>
    dsimp only
    obtain ⟨e, hfailed⟩ | ⟨program, child, switch, s₁, s₂, next, hnext, hspawn, hswitch, hspawned,
      hcurrent', hinv⟩ := h.spawnUserProcessAndWait_cases hcurrent load path silent
    · rw [EStateM.bind_of_ok hfailed]
      exact h.advances_quiet (x := pure []) rfl
    · have hparent : c.top.thread.blockForChild child.process.id ∈
          ((c.push child).settle next.id).threads :=
        List.mem_append_right _ List.mem_cons_self
      have hquiet := Quiet.of_saveContext .afterWait
      have hinv' := hinv.quiet hparent hquiet
      have hsave : contextSwitch switch.current .afterWait s₂ = .ok () (s₂.putThread
          c.top.thread.id (some ((c.top.thread.blockForChild child.process.id).saveContext
            .afterWait))) := by
        rw [hswitch]
        exact modifyThread_eq (hinv.thread?_of_mem hparent) _
      -- The parent is not among the threads that can run.
      have hne : ∀ t ∈ (c.push child).awake, c.top.thread.id ≠ t.id := by
        intro t ht
        have hmem : mark next.id t ∈ ((c.push child).settle next.id).awake := mem_mapAwake _ ht
        have hwaiter : (⟨c.top.process, c.top.thread.blockForChild child.process.id⟩ : Link) ∈
            ((c.push child).settle next.id).waiters := List.mem_cons_self
        exact (hinv.ok.waiter_id_ne hinv.threads hwaiter hmem (canRun_mark next.id t) :)
      have hcontext : ∀ t ∈ (c.push child).awake, t.context ≠ .afterWait := by
        obtain ⟨hterminal, hidle⟩ := h.kernel_contexts hcurrent
        obtain ⟨stackTop, hthread⟩ := hspawned.thread
        intro t ht
        obtain rfl | rfl | rfl := mem_awake.mp ht
        · exact hterminal
        · exact hidle
        · dsimp only [Config.push]
          rw [hthread]
          exact fun heq => by cases heq
      have hget : (s₂.putThread c.top.thread.id (some ((c.top.thread.blockForChild
          child.process.id).saveContext .afterWait))).thread? next.id =
            some (mark next.id next) := by
        rw [thread?, putThread, get_put_of_ne (hne next hnext)]
        exact hinv.thread?_of_mem (mem_threads (mem_mapAwake _ hnext))
      have hresume : resume (s₂.putThread c.top.thread.id (some ((c.top.thread.blockForChild
          child.process.id).saveContext .afterWait))) = .ok [] _ :=
        resume_eq_nil hcurrent' hget (hcontext next hnext)
      refine ⟨[.spawned c.top.process.id c.top.thread.id child.process.id silent], _, _, ?_,
        ⟨hinv', ?_, ?_, ?_⟩, ?_, isWrite_singleton rfl⟩
      · rw [EStateM.bind_of_ok hspawn]
        dsimp only
        rw [EStateM.bind_of_ok hsave, EStateM.bind_of_ok hresume, hswitch]
        rfl
      · obtain ⟨stackTop, hthread⟩ := hspawned.thread
        refine (hquiet.at _).waitResult _ ?_
        change child.thread.waitResult = none
        rw [hthread]
        rfl
      · intro t ht _
        rw [awake_mapThreads, settle, awake_mapAwake, List.map_map] at ht
        obtain ⟨t₁, ht₁, rfl⟩ := List.mem_map.mp ht
        have hcond : ¬ (mark next.id t₁).id = (c.top.thread.blockForChild child.process.id).id :=
          fun heq => hne t₁ ht₁ heq.symm
        have hsame := congrArg Thread.context (if_neg hcond :
          (if (mark next.id t₁).id = (c.top.thread.blockForChild child.process.id).id then
            (mark next.id t₁).saveContext .afterWait else mark next.id t₁) = mark next.id t₁)
        exact fun heq => hcontext t₁ ht₁ (hsame.symm.trans heq)
      · intro l hl
        obtain ⟨l₀, hl₀, rfl⟩ := List.mem_map.mp hl
        dsimp only [Link.mapThread]
        split_ifs with hid
        · rfl
        · obtain rfl | hl₀ := List.mem_cons.mp hl₀
          · exact absurd rfl hid
          · exact h.waiting l₀ hl₀
      · rw [stack_mapThreads _ (hquiet.at _), stack_settle]
        exact spawned_effect h.inv hspawned

/-! ## Exiting -/

/-- What is left of `exit_current_process` after the switch: the parent returns from its
wait. -/
theorem exit_advances (h : Steady s c) (hcurrent : s.currentThread = some c.top.thread.id)
    {parent : Link} {rest : List Link} (hwaiters : c.waiters = parent :: rest) {status : Nat}
    {s' : SchedulerState} (hcurrent' : s'.currentThread = some parent.thread.id)
    (hinv : Inv s' ((c.pop parent rest status).settle parent.thread.id)) :
    ∃ s'' c', resume s' = .ok [.waitReturned parent.thread.id (some status)] s'' ∧
      Steady s'' c' ∧ c.stack = ⟨c.top.process, c.top.thread.id⟩ :: c'.stack ∧
      c'.stack = ⟨parent.process, parent.thread.id⟩ :: rest.map fun l => ⟨l.process, l.thread.id⟩ := by
  have hparent : mark parent.thread.id (woken parent status).thread ∈
      ((c.pop parent rest status).settle parent.thread.id).awake := mem_mapAwake _ top_mem
  have hquiet := Quiet.of_takeWaitResult
  have hinv' := hinv.quiet (mem_threads hparent) hquiet
  have hget : s'.thread? parent.thread.id =
      some (mark parent.thread.id (woken parent status).thread) :=
    hinv.thread?_of_mem (mem_threads hparent)
  have hwaiting : parent.thread.context = .afterWait :=
    h.waiting parent (hwaiters ▸ List.mem_cons_self)
  have hstack : (((c.pop parent rest status).settle parent.thread.id).mapThreads fun t =>
      if t.id = (mark parent.thread.id (woken parent status).thread).id then t.takeWaitResult.2
      else t).stack =
        ⟨parent.process, parent.thread.id⟩ :: rest.map fun l => ⟨l.process, l.thread.id⟩ := by
    rw [stack_mapThreads _ (hquiet.at _), stack_settle]
    rfl
  refine ⟨_, _, resume_afterWait hcurrent' hget hwaiting, ⟨hinv', ?_, ?_, ?_⟩, ?_, hstack⟩
  · exact congrArg Thread.waitResult (if_pos rfl)
  · -- Only the kernel threads are not current.
    obtain ⟨hterminal, hidle⟩ := h.kernel_contexts hcurrent
    intro t ht hne
    obtain rfl | rfl | rfl := mem_awake.mp ht
    · dsimp only [mapThreads, mapAwake, settle]
      split_ifs
      · exact hterminal
      · exact hterminal
    · dsimp only [mapThreads, mapAwake, settle]
      split_ifs
      · exact hidle
      · exact hidle
    · have hid := (hquiet.at (mark parent.thread.id (woken parent status).thread).id).id
        (mark parent.thread.id (woken parent status).thread)
      exact absurd (hcurrent'.trans (congrArg some hid.symm)) hne
  · intro l hl
    obtain ⟨l₀, hl₀, rfl⟩ := List.mem_map.mp hl
    have hold := h.waiting l₀ (hwaiters ▸ List.mem_cons_of_mem _ hl₀)
    dsimp only [Link.mapThread]
    split_ifs
    · exact hold
    · exact hold
  · rw [hstack, stack, links, hwaiters]
    rfl

/-! ## Calls of the newest process on itself -/

/-- The newest process changed. -/
theorem called_advances (h : Steady s c) {call : OwnCall} {result : Except CallError Unit}
    {pr : Process} (hown : Own rootFs c.top.process call result pr) :
    ∃ c', Steady (s.putProcess c.top.process.id (some pr)) c' ∧
      Effect rootFs c.stack [.called c.top.process.id call result] c'.stack := by
  have hsame : SameLink c.top.process pr := by
    rw [hown.frame]
    exact ⟨rfl, rfl, rfl⟩
  refine ⟨c.setTop pr, ⟨h.inv.setTop hsame hown.ready, h.mailbox, h.awake, h.waiting⟩, ?_⟩
  exact .called ⟨c.top.process, c.top.thread.id⟩ hown

end Steady

section

variable {rootFs : Option Fat32} {pr : Process}

/-- `set_env` of a process in order. -/
theorem own_setEnv (rootFs : Option Fat32) (h : pr.Ready) (key value : String) :
    (∃ pr', Process.setEnv key value pr = .ok () pr' ∧
      Own rootFs pr (.setEnv key value) (.ok ()) pr') ∨
    ∃ e pr', Process.setEnv key value pr = .error e pr' ∧
      Own rootFs pr (.setEnv key value) (.error (.env (mapEnvironmentError e))) pr' := by
  obtain ⟨e, hfails, herr⟩ | ⟨hfits, env, hok, hvalid, hpairs⟩ := h.env.set_cases key value
  · refine .inr ⟨e, pr, ?_, rfl, h, ?_, fun _ _ => rfl⟩
    · rw [Process.setEnv, Process.onEnv, herr]
    · have hne : Environment.setError key value (contentOf pr).env ≠ none := by
        intro hnone
        rw [contentOf, hfails] at hnone
        cases hnone
      rw [replay, if_neg hne]
  · refine .inl ⟨{ pr with env }, ?_, rfl, h.withEnv hvalid, ?_, ?_⟩
    · rw [Process.setEnv, Process.onEnv, hok]
    · have hfits' : Environment.setError key value (contentOf pr).env = none := hfits
      rw [replay, if_pos hfits']
      exact congrArg (Content.mk · pr.cwd) hpairs
    · intro e he
      cases he

/-- `remove_env` of a process in order. -/
theorem own_unsetEnv (rootFs : Option Fat32) (h : pr.Ready) (key : String) :
    (∃ removed pr', Process.removeEnv key pr = .ok removed pr' ∧
      Own rootFs pr (.unsetEnv key) (if removed then .ok () else .error (.env .notFound)) pr') ∨
    ∃ e pr', Process.removeEnv key pr = .error e pr' ∧
      Own rootFs pr (.unsetEnv key) (.error (.env (mapEnvironmentError e))) pr' := by
  -- A key that is not there is not deleted.
  have habsent : key ∉ OrderedMap.keys pr.env.pairs →
      contentOf pr = replay rootFs (contentOf pr) (.unsetEnv key) := fun hkey =>
    congrArg (Content.mk · pr.cwd) (OrderedMap.del_of_notMem hkey).symm
  obtain ⟨e, hbad, herr⟩ | ⟨hkey, env, hok, hvalid, hpairs⟩ := h.env.remove_cases key
  · refine .inr ⟨e, pr, ?_, rfl, h, habsent fun hmem => ?_, fun _ _ => rfl⟩
    · rw [Process.removeEnv, Process.onEnv, herr]
    · rw [validateKey_eq_ok.mpr (h.env.keys key hmem)] at hbad
      cases hbad
  · have hcontent : contentOf { pr with env } = replay rootFs (contentOf pr) (.unsetEnv key) :=
      congrArg (Content.mk · pr.cwd) hpairs
    refine .inl ⟨decide (key ∈ OrderedMap.keys pr.env.pairs), { pr with env }, ?_, rfl,
      h.withEnv hvalid, hcontent, ?_⟩
    · rw [Process.removeEnv, Process.onEnv, hok]
    · intro e he
      by_cases hmem : key ∈ OrderedMap.keys pr.env.pairs
      · rw [if_pos (decide_eq_true hmem)] at he
        cases he
      · exact hcontent.trans (habsent hmem).symm

/-- `set_cwd` to a resolved directory. -/
theorem own_chdir (h : pr.Ready) {path target : String}
    (hresolve : resolvePath pr.cwd path = .ok target) (haccepts : RootAccepts rootFs target) :
    ∃ pr', Process.setCwd target pr = .ok () pr' ∧ Own rootFs pr (.chdir path) (.ok ()) pr' := by
  obtain ⟨-, hlen, habs⟩ := resolvePath_spec hresolve
  obtain ⟨-, -, pr', hok, hcwd, hframe⟩ | ⟨hbad, -⟩ := Process.setCwd_cases target pr
  · have henv : pr'.env = pr.env := by rw [hframe]
    refine ⟨pr', hok, ?_, ⟨fun fd hfd => ?_, ?_, henv ▸ h.env⟩, ?_, ?_⟩
    · rw [henv]
      exact hframe
    · rw [hframe]
      exact h.stdio fd hfd
    · rw [hcwd.cwd_eq]
      exact hcwd
    · have hresolve' : resolvePath (contentOf pr).cwd path = .ok target := hresolve
      rw [replay, hresolve']
      dsimp only
      rw [if_pos haccepts, contentOf, henv, hcwd.cwd_eq]
      rfl
    · intro e he
      cases he
  · exact absurd ⟨habs, hlen⟩ hbad

/-- A refused directory. -/
theorem own_chdir_refused (h : pr.Ready) {path : String} (e : CallError)
    (hrefused : ∀ target, resolvePath pr.cwd path = .ok target → ¬ RootAccepts rootFs target) :
    Own rootFs pr (.chdir path) (.error e) pr := by
  refine ⟨rfl, h, ?_, fun _ _ => rfl⟩
  rw [replay]
  cases hresolve : resolvePath (contentOf pr).cwd path with
  | error e => rfl
  | ok target => exact (if_neg (hrefused target hresolve)).symm

end

namespace Steady

variable {s : SchedulerState} {c : Config} {rootFs : Option Fat32}

theorem top_ready (h : Inv s c) : c.top.process.Ready := h.ok.ready _ List.mem_cons_self

theorem currentProcessSetEnv_spec (rootFs : Option Fat32) (h : Inv s c)
    (hcurrent : s.currentThread = some c.top.thread.id) (key value : String) :
    ∃ result pr, currentProcessSetEnv key value s =
        .ok result (s.putProcess c.top.process.id (some pr)) ∧
      Own rootFs c.top.process (.setEnv key value) (result.mapError .env) pr := by
  rw [currentProcessSetEnv, EStateM.bind_of_ok (currentProcess_eq h hcurrent)]
  dsimp only
  obtain ⟨pr, hok, hown⟩ | ⟨e, pr, herr, hown⟩ := own_setEnv rootFs (top_ready h) key value
  · rw [hok]
    exact ⟨.ok (), pr, rfl, hown⟩
  · rw [herr]
    exact ⟨.error (mapEnvironmentError e), pr, rfl, hown⟩

theorem currentProcessUnsetEnv_spec (rootFs : Option Fat32) (h : Inv s c)
    (hcurrent : s.currentThread = some c.top.thread.id) (key : String) :
    ∃ result pr, currentProcessUnsetEnv key s =
        .ok result (s.putProcess c.top.process.id (some pr)) ∧
      Own rootFs c.top.process (.unsetEnv key) (result.mapError .env) pr := by
  rw [currentProcessUnsetEnv, EStateM.bind_of_ok (currentProcess_eq h hcurrent)]
  dsimp only
  obtain ⟨removed, pr, hok, hown⟩ | ⟨e, pr, herr, hown⟩ := own_unsetEnv rootFs (top_ready h) key
  · rw [hok]
    cases removed with
    | true => exact ⟨.ok (), pr, rfl, hown⟩
    | false => exact ⟨.error .notFound, pr, rfl, hown⟩
  · rw [herr]
    exact ⟨.error (mapEnvironmentError e), pr, rfl, hown⟩

/-- A lookup that returns decides the call; one that does not leaves everything as it is. -/
theorem currentProcessChdir_spec (rootFs : Option Fat32) (h : Inv s c)
    (hcurrent : s.currentThread = some c.top.thread.id) (fuel : Nat) (path : String) :
    currentProcessChdir rootFs fuel path s = .ok (.error .outOfFuel) s ∨
    (∃ e, currentProcessChdir rootFs fuel path s = .ok (.error (.storage e)) s ∧
      Own rootFs c.top.process (.chdir path) (.error (.storage e)) c.top.process) ∨
    ∃ pr, currentProcessChdir rootFs fuel path s =
        .ok (.ok ()) (s.putProcess c.top.process.id (some pr)) ∧
      Own rootFs c.top.process (.chdir path) (.ok ()) pr := by
  rw [currentProcessChdir, EStateM.bind_of_ok (currentProcess_eq h hcurrent)]
  dsimp only
  cases hresolve : resolvePath c.top.process.cwd path with
  | error e =>
    refine .inr (.inl ⟨e, rfl, own_chdir_refused (top_ready h) _ fun target htarget => ?_⟩)
    rw [hresolve] at htarget
    cases htarget
  | ok target =>
    dsimp only
    cases hensure : ensureRootDir rootFs fuel target [] with
    | error stop log =>
      cases stop with
      | outOfFuel => exact .inl rfl
      | storage e =>
        refine .inr (.inl ⟨e, rfl, own_chdir_refused (top_ready h) _ fun target' htarget => ?_⟩)
        rw [hresolve] at htarget
        cases htarget
        exact not_rootAccepts_of_error hensure
    | ok _ log =>
      obtain ⟨pr, hset, hown⟩ :=
        own_chdir (top_ready h) hresolve (rootAccepts_of_ok hensure)
      dsimp only
      rw [hset]
      exact .inr (.inr ⟨pr, rfl, hown⟩)

/-- **`set_env`.** -/
theorem setEnvCall_advances (rootFs : Option Fat32) (h : Steady s c)
    (hcurrent : s.currentThread = some c.top.thread.id)
    (key value : List UInt8) : Advances rootFs (setEnvCall key value) s c := by
  rw [Advances, setEnvCall, EStateM.bind_of_ok (currentProcess_eq h.inv hcurrent)]
  cases fromUtf8 key with
  | none => exact h.advances_quiet (x := pure []) rfl
  | some key =>
    cases fromUtf8 value with
    | none => exact h.advances_quiet (x := pure []) rfl
    | some value =>
      obtain ⟨result, pr, hrun, hown⟩ :=
        currentProcessSetEnv_spec rootFs h.inv hcurrent key value
      obtain ⟨c', hsteady, heffect⟩ := h.called_advances hown
      exact ⟨_, _, c', EStateM.bind_of_ok hrun _, hsteady, heffect, isWrite_singleton rfl⟩

/-- **`unset_env`.** -/
theorem unsetEnvCall_advances (rootFs : Option Fat32) (h : Steady s c)
    (hcurrent : s.currentThread = some c.top.thread.id) (key : List UInt8) :
    Advances rootFs (unsetEnvCall key) s c := by
  rw [Advances, unsetEnvCall, EStateM.bind_of_ok (currentProcess_eq h.inv hcurrent)]
  cases fromUtf8 key with
  | none => exact h.advances_quiet (x := pure []) rfl
  | some key =>
    obtain ⟨result, pr, hrun, hown⟩ :=
      currentProcessUnsetEnv_spec rootFs h.inv hcurrent key
    obtain ⟨c', hsteady, heffect⟩ := h.called_advances hown
    exact ⟨_, _, c', EStateM.bind_of_ok hrun _, hsteady, heffect, isWrite_singleton rfl⟩

end Steady

/-! ## One step of the machine -/

/-- A step that succeeds and is an effect on the stack. -/
def MachineAdvances (rootFs : Option Fat32) (x : MachineM (List Event)) (m : Machine)
    (c : Config) : Prop :=
  ∃ events m' c', x m = .ok events m' ∧ Steady m'.scheduler c' ∧
    Effect rootFs c.stack events c'.stack ∧ ConsoleStep c.stack m.console events m'.console

/-- A step that leaves the console alone. -/
def QuietAdvances (rootFs : Option Fat32) (x : MachineM (List Event)) (m : Machine)
    (c : Config) : Prop :=
  ∃ events m' c', x m = .ok events m' ∧ Steady m'.scheduler c' ∧
    Effect rootFs c.stack events c'.stack ∧ m'.console = m.console ∧
    ∀ e ∈ events, e.isWrite = false

section

variable {m : Machine} {c : Config} {rootFs : Option Fat32}

theorem QuietAdvances.advances {x : MachineM (List Event)} (h : QuietAdvances rootFs x m c) :
    MachineAdvances rootFs x m c := by
  obtain ⟨events, m', c', hrun, hsteady, heffect, hconsole, hwrites⟩ := h
  exact ⟨events, m', c', hrun, hsteady, heffect, hconsole ▸ .quiet _ _ hwrites⟩

theorem QuietAdvances.silent {x : MachineM (List Event)} (h : QuietAdvances rootFs x m c)
    {events : List Event} {m' : Machine} (hrun : x m = .ok events m') :
    ∀ e ∈ events, e.isWrite = false := by
  obtain ⟨events', m'', c', hrun', -, -, -, hwrites⟩ := h
  rw [hrun'] at hrun
  cases hrun
  exact hwrites

theorem onScheduler_of_ok {α : Type} {x : SchedM α} {a : α} {s : SchedulerState}
    (h : x m.scheduler = .ok a s) : onScheduler x m = .ok a { m with scheduler := s } := by
  rw [onScheduler, h]

theorem Advances.machine {x : SchedM (List Event)} (h : Advances rootFs x m.scheduler c) :
    QuietAdvances rootFs (onScheduler x) m c := by
  obtain ⟨events, s, c', hrun, hsteady, heffect, hwrites⟩ := h
  exact ⟨events, _, c', onScheduler_of_ok hrun, hsteady, heffect, rfl, hwrites⟩

namespace Steady

/-- **`exit_current_process`**: to the parent, or to the end. -/
theorem exit_cases (rootFs : Option Fat32) (h : Steady m.scheduler c)
    (hcurrent : m.scheduler.currentThread = some c.top.thread.id) (status : Nat) :
    QuietAdvances rootFs (exitCurrentProcess status) m c ∨
    (c.waiters = [] ∧ ∃ m', exitCurrentProcess status m = .error .shutDown m' ∧
      m'.console = m.console.flushOutput primaryEndpoint) := by
  rw [QuietAdvances, exitCurrentProcess,
    EStateM.bind_of_ok (onScheduler_of_ok (currentProcess_eq h.inv hcurrent))]
  dsimp only
  obtain ⟨hlast, hshutdown⟩ | ⟨parent, rest, s', hwaiters, hswitch, hcurrent', hinv⟩ :=
    h.inv.prepareExit_spec hcurrent status
  · rw [EStateM.bind_of_ok (onScheduler_of_ok (m := { m with scheduler := m.scheduler }) hshutdown)]
    exact .inr ⟨hlast, _, rfl, rfl⟩
  · obtain ⟨s'', c', hresume, hsteady, hstack, hstack'⟩ :=
      h.exit_advances hcurrent hwaiters hcurrent' hinv
    left
    refine ⟨[.exited c.top.process.id status, .waitReturned parent.thread.id (some status)],
      { m with scheduler := s'' }, c', ?_, hsteady, ?_, rfl, by simp [Event.isWrite]⟩
    · rw [EStateM.bind_of_ok (onScheduler_of_ok (m := { m with scheduler := m.scheduler }) hswitch)]
      exact EStateM.bind_of_ok (onScheduler_of_ok (m := { m with scheduler := s' }) hresume) _
    · rw [hstack, hstack']
      exact .exited ⟨c.top.process, c.top.thread.id⟩ status

/-- **`chdir`**: done, or still looking. -/
theorem chdirCall_cases (rootFs : Option Fat32) (h : Steady m.scheduler c)
    (hcurrent : m.scheduler.currentThread = some c.top.thread.id) (fuel : Nat)
    (path : List UInt8) :
    QuietAdvances rootFs (chdirCall rootFs fuel path) m c ∨
    chdirCall rootFs fuel path m = .error .unfinished m := by
  rw [QuietAdvances, chdirCall,
    EStateM.bind_of_ok (onScheduler_of_ok (currentProcess_eq h.inv hcurrent))]
  cases fromUtf8 path with
  | none => exact .inl ⟨[], m, c, rfl, h, .quiet _, rfl, isWrite_nil⟩
  | some path =>
    dsimp only
    obtain hfuel | ⟨e, hrefused, hown⟩ | ⟨pr, hok, hown⟩ :=
      currentProcessChdir_spec rootFs h.inv hcurrent fuel path
    · right
      rw [EStateM.bind_of_ok (onScheduler_of_ok (m := m) hfuel)]
      rfl
    · left
      rw [EStateM.bind_of_ok (onScheduler_of_ok (m := m) hrefused)]
      exact ⟨_, _, c, rfl, h, .called ⟨c.top.process, c.top.thread.id⟩ hown, rfl,
        isWrite_singleton rfl⟩
    · left
      obtain ⟨c', hsteady, heffect⟩ := h.called_advances hown
      rw [EStateM.bind_of_ok (onScheduler_of_ok (m := m) hok)]
      exact ⟨_, _, c', rfl, hsteady, heffect, rfl, isWrite_singleton rfl⟩

/-- **`write`** goes through the streams of the newest process. -/
theorem writeCall_eq (h : Inv m.scheduler c)
    (hcurrent : m.scheduler.currentThread = some c.top.thread.id) (fd : Nat)
    (buffer : List UInt8) :
    writeCall fd buffer m =
      .ok [.wrote c.top.process.id fd (c.top.process.resolveFd fd) buffer
          (c.top.process.write fd buffer m.console).1]
        { m with console := (c.top.process.write fd buffer m.console).2 } := by
  have hprocess := currentProcess_eq h hcurrent
  have hwrite : currentProcessWrite fd buffer m.console m.scheduler =
      .ok (c.top.process.write fd buffer m.console) m.scheduler :=
    EStateM.bind_of_ok hprocess _
  rw [writeCall, EStateM.bind_of_ok (onScheduler_of_ok (m := m) hprocess)]
  dsimp only
  rw [EStateM.get_bind, EStateM.bind_of_ok (onScheduler_of_ok (m := m) hwrite)]
  rfl

theorem readCall_eq (h : Inv m.scheduler c)
    (hcurrent : m.scheduler.currentThread = some c.top.thread.id) (fd room : Nat) :
    readCall fd room m =
      .ok [] { m with console := (c.top.process.read fd room m.console).2 } := by
  have hread : currentProcessRead fd room m.console m.scheduler =
      .ok (c.top.process.read fd room m.console) m.scheduler :=
    EStateM.bind_of_ok (currentProcess_eq h hcurrent) _
  rw [readCall, EStateM.get_bind, EStateM.bind_of_ok (onScheduler_of_ok (m := m) hread)]
  rfl

/-- A call that is not the yield or the service of a kernel thread is one of the newest user
process. -/
theorem top_of_enabled (h : Steady m.scheduler c) {call : Call} (henabled : Enabled m call)
    (hyield : call ≠ .yieldNow) (hservice : ∀ input, call ≠ .service input) :
    m.scheduler.currentThread = some c.top.thread.id := by
  obtain ⟨t, th, hcurrent, hth, hallowed⟩ := henabled
  cases hstart : th.start with
  | user entryPoint stackTop => exact h.current_top hcurrent hth hstart
  | kernel entry =>
    rw [hstart] at hallowed
    cases entry <;> cases call <;> first
      | exact absurd rfl hyield
      | exact absurd rfl (hservice _)
      | exact hallowed.elim

theorem top_of_write (h : Steady m.scheduler c) {fd : Nat} {buffer : List UInt8}
    (henabled : Enabled m (.write fd buffer)) :
    m.scheduler.currentThread = some c.top.thread.id :=
  h.top_of_enabled henabled (fun hcall => by cases hcall) fun _ hcall => by cases hcall

/-- **One step** keeps the chain, unless it has not come back from the disk or was the exit of
the last process. -/
theorem step_cases (rootFs : Option Fat32) (h : Steady m.scheduler c) {call : Call}
    (henabled : Enabled m call) :
    MachineAdvances rootFs (step rootFs call) m c ∨
    (∃ path fuel, call = .chdir path fuel ∧ step rootFs call m = .error .unfinished m) ∨
    (∃ status m', call = .exit status ∧ c.waiters = [] ∧
      m.scheduler.currentThread = some c.top.thread.id ∧
      step rootFs call m = .error .shutDown m' ∧
      m'.console = m.console.flushOutput primaryEndpoint) := by
  cases call with
  | yieldNow =>
    exact .inl (h.yieldNow_advances rootFs).machine.advances
  | service input => exact .inl ⟨[], _, c, rfl, h, .quiet _, .serviced _ _ input⟩
  | exit status =>
    have hcurrent := h.top_of_enabled henabled (by simp) (by simp)
    obtain hadvances | ⟨hlast, m', hshutdown, hflushed⟩ := h.exit_cases rootFs hcurrent status
    · exact .inl hadvances.advances
    · exact .inr (.inr ⟨status, m', rfl, hlast, hcurrent, hshutdown, hflushed⟩)
  | spawnWait path silent load =>
    have hcurrent := h.top_of_enabled henabled (by simp) (by simp)
    exact .inl (h.spawnWait_advances rootFs hcurrent path silent load).machine.advances
  | setEnv key value =>
    have hcurrent := h.top_of_enabled henabled (by simp) (by simp)
    exact .inl (h.setEnvCall_advances rootFs hcurrent key value).machine.advances
  | unsetEnv key =>
    have hcurrent := h.top_of_enabled henabled (by simp) (by simp)
    exact .inl (h.unsetEnvCall_advances rootFs hcurrent key).machine.advances
  | chdir path fuel =>
    have hcurrent := h.top_of_enabled henabled (by simp) (by simp)
    obtain hadvances | hunfinished := h.chdirCall_cases rootFs hcurrent fuel path
    · exact .inl hadvances.advances
    · exact .inr (.inl ⟨path, fuel, rfl, hunfinished⟩)
  | read fd room =>
    have hcurrent := h.top_of_enabled henabled (by simp) (by simp)
    exact .inl ⟨[], _, c, readCall_eq h.inv hcurrent fd room, h, .quiet _,
      .read ⟨c.top.process, c.top.thread.id⟩ _ _ fd room⟩
  | write fd buffer =>
    have hcurrent := h.top_of_enabled henabled (by simp) (by simp)
    exact .inl ⟨_, _, c, writeCall_eq h.inv hcurrent fd buffer, h,
      .wrote ⟨c.top.process, c.top.thread.id⟩ fd buffer _,
      .wrote ⟨c.top.process, c.top.thread.id⟩ _ _ fd buffer⟩

/-- Only a write reports one. -/
theorem step_silent (h : Steady m.scheduler c) {call : Call} (henabled : Enabled m call)
    (hcall : ∀ fd buffer, call ≠ .write fd buffer) {events : List Event} {m' : Machine}
    (hstep : step rootFs call m = .ok events m') : ∀ e ∈ events, e.isWrite = false := by
  cases call with
  | yieldNow => exact (h.yieldNow_advances rootFs).machine.silent hstep
  | service input =>
    cases hstep
    exact isWrite_nil
  | exit status =>
    have hcurrent := h.top_of_enabled henabled (by simp) (by simp)
    obtain hadvances | ⟨-, m'', hshutdown, -⟩ := h.exit_cases rootFs hcurrent status
    · exact hadvances.silent hstep
    · rw [step, hshutdown] at hstep
      cases hstep
  | spawnWait path silent load =>
    have hcurrent := h.top_of_enabled henabled (by simp) (by simp)
    exact (h.spawnWait_advances rootFs hcurrent path silent load).machine.silent hstep
  | setEnv key value =>
    have hcurrent := h.top_of_enabled henabled (by simp) (by simp)
    exact (h.setEnvCall_advances rootFs hcurrent key value).machine.silent hstep
  | unsetEnv key =>
    have hcurrent := h.top_of_enabled henabled (by simp) (by simp)
    exact (h.unsetEnvCall_advances rootFs hcurrent key).machine.silent hstep
  | chdir path fuel =>
    have hcurrent := h.top_of_enabled henabled (by simp) (by simp)
    obtain hadvances | hunfinished := h.chdirCall_cases rootFs hcurrent fuel path
    · exact hadvances.silent hstep
    · rw [step, hunfinished] at hstep
      cases hstep
  | read fd room =>
    have hcurrent := h.top_of_enabled henabled (by simp) (by simp)
    rw [step, readCall_eq h.inv hcurrent] at hstep
    cases hstep
    exact isWrite_nil
  | write fd buffer => exact absurd rfl (hcall fd buffer)

end Steady

end

end Lazers.Scheduler
