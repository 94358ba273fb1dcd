import Lazers.Lib.RoundRobin
import Lazers.Scheduler.ChainInvariant

/-!
# Whose turn it is (`prepare_switch`, `next_runnable_thread`)

The search for the next thread goes through the table from behind the current thread round to the
thread itself, past empty slots, the idle thread and blocked threads. `ready` has what it stops
at, and `nextNonIdle_eq_head` says that it stops at the first in the order of `RoundRobin.order`.

- `prepareSwitch_turn`: a switch gives that thread its turn and changes nothing of who is ready.
- `round_robin`: so as many switches as threads are ready give each of them one turn.
-/

namespace Lazers.Scheduler

open Kernel SlotTable SchedulerState

/-- The threads that are not idle and can run. -/
def SchedulerState.ready (s : SchedulerState) (t : ThreadId) : Bool :=
  match s.thread? t with
  | none => false
  | some th => some t ≠ s.idleThread ∧ th.canRun

/-- A thread has the identifier of its slot, and its process exists. -/
def ThreadsNamed (s : SchedulerState) : Prop :=
  ∀ t th, s.thread? t = some th → th.id = t ∧ ∃ pr, s.process? th.processId = some pr

/-- `n` calls of `prepare_switch(false)`, with the current thread after each. -/
def switches : (n : Nat) → SchedM (List (Option ThreadId))
  | 0 => return []
  | n + 1 => do
    let _ ← prepareSwitch false
    let current := (← get).currentThread
    return current :: (← switches n)

/-- Every state of every run has its threads in place. -/
theorem Run.threadsNamed {boot : Boot} {m : Machine} {trace : List Event} (run : Run boot m trace) :
    ThreadsNamed m.scheduler := by
  obtain ⟨c, hsteady, -⟩ := run.stackRun
  exact hsteady.inv.idsOccupied.thread

section

variable {s : SchedulerState} {c d t : ThreadId} {th : Thread}

theorem ready_iff : s.ready t = true ↔
    ∃ th, s.thread? t = some th ∧ some t ≠ s.idleThread ∧ th.canRun = true := by
  rw [ready]
  cases s.thread? t with
  | none =>
    constructor
    · exact fun h => by cases h
    · rintro ⟨th, hth, -⟩
      cases hth
  | some th =>
    rw [decide_eq_true_iff]
    constructor
    · exact fun h => ⟨th, rfl, h⟩
    · rintro ⟨_, hth, h⟩
      cases hth
      exact h

theorem ready_lt (h : s.ready t = true) : t < maxThreads := by
  obtain ⟨th, hth, -⟩ := ready_iff.mp h
  exact lt_of_get hth

/-! ## The search -/

/-- The loop stops at the first ready slot. -/
theorem nextNonIdleFrom_eq (h : ThreadsNamed s) (start rounds offset : Nat) :
    nextNonIdleFrom s start rounds offset =
      ((List.range' offset rounds).map fun i => (start + i) % maxThreads).find? s.ready := by
  induction rounds generalizing offset with
  | zero => rfl
  | succ rounds ih =>
    rw [nextNonIdleFrom, List.range'_succ, List.map_cons, List.find?_cons, ← ih]
    cases hth : s.thread? ((start + offset) % maxThreads) with
    | none =>
      rw [ready, hth]
    | some th =>
      obtain ⟨hid, -⟩ := h _ _ hth
      dsimp only
      rw [ready, hth, hid]
      dsimp only
      by_cases hidle : some ((start + offset) % maxThreads) = s.idleThread
      · rw [if_pos hidle, decide_eq_false fun hready => hready.1 hidle]
      · rw [if_neg hidle]
        by_cases hrun : th.canRun = true
        · rw [if_pos hrun, decide_eq_true ⟨hidle, hrun⟩]
        · rw [if_neg hrun, decide_eq_false fun hready => hrun hready.2]

/-- **The search** finds the next ready thread in turn. -/
theorem nextNonIdle_eq_head (h : ThreadsNamed s) (c : ThreadId) :
    nextNonIdleRunnableThread s (some c) = (RoundRobin.order s.ready maxThreads c).head? := by
  have hslots : (List.range' 0 maxThreads).map (fun i => ((c + 1) % maxThreads + i) % maxThreads) =
      RoundRobin.scanned maxThreads c := by
    refine List.ext_getElem ?_ fun i hi _ => ?_
    · rw [List.length_map, List.length_range', RoundRobin.length_scanned]
    · rw [List.getElem_map, List.getElem_range', RoundRobin.getElem_scanned, Nat.mod_add_mod,
        Nat.zero_add, Nat.one_mul]
  rw [nextNonIdleRunnableThread, nextNonIdleFrom_eq h, hslots, RoundRobin.order,
    List.head?_filter]

/-- From any slot the loop goes through the whole table. -/
theorem nextNonIdle_eq_find (h : ThreadsNamed s) (current : Option ThreadId) :
    ∃ start, nextNonIdleRunnableThread s current =
      ((List.range' 0 maxThreads).map fun i => (start + i) % maxThreads).find? s.ready := by
  obtain ⟨start, hstart⟩ : ∃ start, nextNonIdleRunnableThread s current =
      nextNonIdleFrom s start maxThreads 0 := ⟨_, rfl⟩
  exact ⟨start, hstart.trans (nextNonIdleFrom_eq h start maxThreads 0)⟩

/-- What is found is ready. -/
theorem nextNonIdle_ready (h : ThreadsNamed s) {current : Option ThreadId}
    (hnext : nextNonIdleRunnableThread s current = some t) : s.ready t = true := by
  obtain ⟨start, hfind⟩ := nextNonIdle_eq_find h current
  exact List.find?_some (hfind.symm.trans hnext)

/-- Nothing is found only where nothing is ready. -/
theorem nextNonIdle_none (h : ThreadsNamed s) {current : Option ThreadId}
    (hnone : nextNonIdleRunnableThread s current = none) (t : ThreadId) : s.ready t = false := by
  obtain ⟨start, hfind⟩ := nextNonIdle_eq_find h current
  rw [hfind, List.find?_eq_none] at hnone
  by_contra hready
  rw [Bool.not_eq_false] at hready
  have hslot := slot_reached start (ready_lt hready)
  rw [Nat.zero_add] at hslot
  refine hnone t (List.mem_map.mpr ⟨_, ?_, hslot⟩) hready
  rw [List.mem_range'_1, Nat.zero_add]
  exact ⟨Nat.zero_le _, Nat.mod_lt _ (by decide)⟩

/-- **Who is chosen**: a thread that can run, and the idle thread only where no other is ready. -/
theorem nextRunnableThread_chooses (h : ThreadsNamed s) {current : Option ThreadId}
    {s' : SchedulerState} (hnext : nextRunnableThread current s = .ok (some t) s') :
    (∃ th, s.thread? t = some th ∧ th.state ≠ .blocked) ∧
      (s.idleThread = some t → ∀ u, s.ready u = false) := by
  have hawake : ∀ th : Thread, th.canRun = true → th.state ≠ .blocked := by
    intro th hrun hblocked
    rw [Thread.canRun, hblocked] at hrun
    cases hrun
  rw [nextRunnableThread, EStateM.get_bind] at hnext
  cases hfound : nextNonIdleRunnableThread s current with
  | some found =>
    rw [hfound] at hnext
    cases hnext
    obtain ⟨th, hth, hidle, hrun⟩ := ready_iff.mp (nextNonIdle_ready h hfound)
    exact ⟨⟨th, hth, hawake th hrun⟩, fun heq => absurd heq.symm hidle⟩
  | none =>
    rw [hfound] at hnext
    dsimp only at hnext
    refine ⟨?_, fun _ => nextNonIdle_none h hfound⟩
    cases hidle : s.idleThread with
    | none =>
      rw [hidle] at hnext
      cases hnext
    | some idle =>
      rw [hidle] at hnext
      dsimp only at hnext
      obtain ⟨th, s₁, hth, hnext⟩ := EStateM.bind_eq_ok.mp hnext
      cases hget : s.thread? idle with
      | none =>
        rw [thread, hget] at hth
        cases hth
      | some th' =>
        rw [thread_eq hget] at hth
        cases hth
        by_cases hrun : th.canRun = true
        · rw [if_pos hrun] at hnext
          cases hnext
          exact ⟨th, hget, hawake th hrun⟩
        · rw [if_neg hrun] at hnext
          cases hnext

/-! ## One switch -/

theorem thread?_putThread (h : s.thread? t = some th) (x : Option Thread) (i : ThreadId) :
    (s.putThread t x).thread? i = if t = i then x else s.thread? i :=
  get_put h

/-- A thread that could run and still can is as ready as before. -/
theorem ready_setState (h : s.thread? t = some th) (hrun : th.canRun = true) {state : ThreadState}
    (hstate : (th.setState state).canRun = true) :
    (s.putThread t (some (th.setState state))).ready = s.ready := by
  funext i
  have hidle : (s.putThread t (some (th.setState state))).idleThread = s.idleThread := rfl
  rw [ready, ready, thread?_putThread h, hidle]
  by_cases hi : t = i
  · subst hi
    rw [if_pos rfl, h]
    dsimp only
    rw [hrun, hstate]
  · rw [if_neg hi]

theorem ThreadsNamed.setState (h : ThreadsNamed s) (ht : s.thread? t = some th)
    (state : ThreadState) : ThreadsNamed (s.putThread t (some (th.setState state))) := by
  intro i th' hth'
  rw [thread?_putThread ht] at hth'
  by_cases hi : t = i
  · rw [if_pos hi] at hth'
    cases hth'
    subst hi
    exact h t th ht
  · rw [if_neg hi] at hth'
    exact h i th' hth'

theorem preparedSwitch_ok (h : ThreadsNamed s) {th' : Thread} (hc : s.thread? c = some th)
    (hd : s.thread? d = some th') : ∃ switch, preparedSwitch c d s = .ok switch s := by
  obtain ⟨-, pr, hpr⟩ := h d th' hd
  rw [preparedSwitch, EStateM.bind_of_ok (thread_eq hc), EStateM.bind_of_ok (thread_eq hd),
    EStateM.bind_of_ok (activation_eq hd hpr)]
  exact ⟨_, rfl⟩

/-- **One switch** gives the next thread in turn the processor, or leaves it where that is the
current thread. -/
theorem prepareSwitch_turn (h : ThreadsNamed s) (hcurrent : s.currentThread = some c)
    (hc : s.ready c = true) {rest : List ThreadId}
    (horder : RoundRobin.order s.ready maxThreads c = d :: rest) :
    ∃ switch s', prepareSwitch false s = .ok switch s' ∧ ThreadsNamed s' ∧
      s'.currentThread = some d ∧ s'.ready = s.ready := by
  have hd : s.ready d = true :=
    (RoundRobin.mem_order.mp (horder ▸ List.mem_cons_self : d ∈ RoundRobin.order _ _ c)).2
  obtain ⟨cth, hcth, -, hcrun⟩ := ready_iff.mp hc
  obtain ⟨dth, hdth, -, hdrun⟩ := ready_iff.mp hd
  have hnext : nextRunnableThread (some c) s = .ok (some d) s := by
    rw [nextRunnableThread, EStateM.get_bind, nextNonIdle_eq_head h, horder]
    rfl
  rw [prepareSwitch, EStateM.get_bind, hcurrent]
  dsimp only
  rw [EStateM.bind_of_ok hnext]
  dsimp only
  by_cases hsame : d = c
  · subst hsame
    rw [if_pos ⟨rfl, rfl⟩]
    exact ⟨none, s, rfl, h, hcurrent, rfl⟩
  · rw [if_neg fun hcond => hsame hcond.1]
    have hyield : modifyThread c (·.setState (if false = true then .blocked else .runnable)) s =
        .ok () (s.putThread c (some (cth.setState .runnable))) := modifyThread_eq hcth _
    have hnamed := h.setState hcth .runnable
    have hready : (s.putThread c (some (cth.setState .runnable))).ready = s.ready :=
      ready_setState hcth hcrun rfl
    have hdth' : (s.putThread c (some (cth.setState .runnable))).thread? d = some dth := by
      rw [thread?_putThread hcth, if_neg (Ne.symm hsame)]
      exact hdth
    have hcth' : (s.putThread c (some (cth.setState .runnable))).thread? c =
        some (cth.setState .runnable) := by
      rw [thread?_putThread hcth, if_pos rfl]
    rw [EStateM.bind_of_ok hyield]
    generalize s.putThread c (some (cth.setState .runnable)) = s₁ at hnamed hready hdth' hcth' ⊢
    rw [EStateM.bind_of_ok (modifyThread_eq hdth' _), EStateM.modify_bind]
    have hnamed' : ThreadsNamed ((s₁.putThread d (some (dth.setState .running))).setCurrent
        (some d)) := hnamed.setState hdth' .running
    obtain ⟨switch, hswitch⟩ : ∃ switch, preparedSwitch c d
        ((s₁.putThread d (some (dth.setState .running))).setCurrent (some d)) = .ok switch
        ((s₁.putThread d (some (dth.setState .running))).setCurrent (some d)) := by
      exact preparedSwitch_ok hnamed'
        ((thread?_putThread hdth' _ c).trans ((if_neg hsame).trans hcth'))
        ((thread?_putThread hdth' _ d).trans (if_pos rfl))
    refine ⟨_, _, EStateM.bind_of_ok hswitch _, hnamed', rfl, ?_⟩
    exact (ready_setState hdth' hdrun rfl).trans hready

/-! ## A round -/

/-- **As many switches as there are threads before one in the order** give each of them a turn. -/
theorem switches_spec {before behind : List ThreadId} {s : SchedulerState} {c : ThreadId}
    (h : ThreadsNamed s) (hcurrent : s.currentThread = some c) (hc : s.ready c = true)
    (horder : RoundRobin.order s.ready maxThreads c = before ++ behind) :
    ∃ s', switches before.length s = .ok (before.map some) s' ∧
      s'.currentThread = (c :: before).getLast? := by
  induction before generalizing s c behind with
  | nil => exact ⟨s, rfl, hcurrent⟩
  | cons d before ih =>
    obtain ⟨switch, s₁, hswitch, hnamed, hcurrent₁, hready⟩ :=
      prepareSwitch_turn h hcurrent hc horder
    have hd : d ∈ RoundRobin.order s.ready maxThreads c := by
      rw [horder]
      exact List.mem_cons_self
    -- the order from the next thread on is the same one, turned
    rw [List.cons_append] at horder
    have hturned := RoundRobin.order_of_cons horder
    rw [List.append_assoc] at hturned
    obtain ⟨s', hrest, hlast⟩ := ih hnamed hcurrent₁
      (by rw [hready]; exact (RoundRobin.mem_order.mp hd).2) (by rw [hready]; exact hturned)
    refine ⟨s', ?_, ?_⟩
    · rw [List.length_cons, switches, EStateM.bind_of_ok hswitch, EStateM.get_bind,
        EStateM.bind_of_ok hrest, hcurrent₁]
      rfl
    · rw [hlast, List.getLast?_cons_cons]

/-- **Round robin.** From a state whose current thread is ready, as many switches as there are
ready threads give each of them exactly one turn, and the last one to the thread they started
from. Whatever state and thread the search starts from, it chooses no blocked thread, and the
idle thread only if no other thread can run. -/
theorem round_robin {s : SchedulerState} {c : ThreadId} (h : ThreadsNamed s)
    (hcurrent : s.currentThread = some c) (hc : s.ready c = true) :
    (∃ (turns : List ThreadId) (s' : SchedulerState), switches ((List.range maxThreads).filter s.ready).length s =
        .ok (turns.map some) s' ∧
      turns.Nodup ∧ (∀ t, t ∈ turns ↔ s.ready t = true) ∧ s'.currentThread = some c) ∧
    ∀ current t s', nextRunnableThread current s = .ok (some t) s' →
      (∃ th, s.thread? t = some th ∧ th.state ≠ .blocked) ∧
        (s.idleThread = some t → ∀ u, s.ready u = false) := by
  refine ⟨?_, fun current t s' hnext => nextRunnableThread_chooses h hnext⟩
  obtain ⟨before, horder⟩ := RoundRobin.order_eq_append (ready_lt hc) hc
  obtain ⟨s', hrun, hlast⟩ := switches_spec h hcurrent hc (horder.trans (List.append_nil _).symm)
  rw [← horder, RoundRobin.length_order] at hrun
  refine ⟨_, s', hrun, RoundRobin.nodup_order, fun t => ?_, ?_⟩
  · rw [RoundRobin.mem_order]
    exact ⟨fun ht => ht.2, fun ht => ⟨ready_lt ht, ht⟩⟩
  · rw [hlast, ← List.cons_append, List.getLast?_concat]

/-- After the boot the terminal thread and the first program take turns. -/
theorem round_robin_at_sampleBoot :
    ∃ r, sampleBoot.exec [.yieldNow] = some r ∧
      ∃ (turns : List ThreadId) (s' : SchedulerState),
        switches 2 r.1.scheduler = .ok (turns.map some) s' ∧ turns.Nodup ∧
          s'.currentThread = r.1.scheduler.currentThread := by
  obtain ⟨r, hr⟩ := Option.isSome_iff_exists.mp (by decide +kernel :
    (sampleBoot.exec [.yieldNow]).isSome = true)
  have hready : (sampleBoot.exec [.yieldNow]).map (fun r => (r.1.scheduler.currentThread,
      (List.range maxThreads).filter r.1.scheduler.ready)) = some (some 1, [0, 1]) := by
    decide +kernel
  rw [hr, Option.map_some, Option.some.injEq, Prod.mk.injEq] at hready
  obtain ⟨hcurrent, hfilter⟩ := hready
  have hc : r.1.scheduler.ready 1 = true := (List.mem_filter.mp (hfilter ▸ by decide :
    1 ∈ (List.range maxThreads).filter r.1.scheduler.ready)).2
  obtain ⟨⟨turns, s', hrun, hnodup, -, hlast⟩, -⟩ :=
    round_robin (run_of_exec hr).threadsNamed hcurrent hc
  rw [hfilter] at hrun
  exact ⟨r, hr, turns, s', hrun, hnodup, hlast.trans hcurrent.symm⟩

end

end Lazers.Scheduler
