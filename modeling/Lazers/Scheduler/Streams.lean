import Lazers.Scheduler.ExitStatus

/-!
# Standard streams of each process

A silent spawn inherits its parent's stdin and nulls stdout and stderr. Through any tree
of spawns the streams of a process depend only on whether it or one of its ancestors was
spawned silently (`silenced`, read off the trace):

- otherwise all three are the bootstrap terminal;
- after a silent spawn only stdin is, and writes to anything else reach no terminal.

A write to the inherited stdin does reach the terminal (`silent_stdin_writes`).
-/

namespace Lazers.Scheduler

open Kernel Storage SchedulerState Config

/-- The processes that were spawned silently, or whose parents were when they spawned them. -/
def silenceEvent (quiet : ProcessId → Bool) : Event → ProcessId → Bool
  | .spawned parent _ child silent => fun p => if p = child then silent || quiet parent else quiet p
  | _ => quiet

/-- Whether the process in slot `p`, or an ancestor, was spawned silently. -/
def silenced (trace : List Event) : ProcessId → Bool := trace.foldl silenceEvent fun _ => false

/-- The streams of a process. -/
def streamOf (quiet : Bool) (fd : Nat) : Option KernelObject :=
  if 3 ≤ fd then none
  else if quiet ∧ fd ≠ 0 then some .null
  else some (.terminalEndpoint primaryEndpoint)

theorem silenced_append (trace events : List Event) :
    silenced (trace ++ events) = events.foldl silenceEvent (silenced trace) :=
  List.foldl_append

/-- What a child gets. -/
theorem childFd_eq_streamOf {parent : Process} {quiet : Bool} (silent : Bool) (fd : Nat)
    (h : parent.resolveFd fd = streamOf quiet fd) :
    Process.childFd parent silent fd = streamOf (silent || quiet) fd := by
  rw [Process.childFd, h]
  by_cases hfd : 3 ≤ fd
  · rw [if_neg (by omega), streamOf, streamOf, if_pos hfd, if_pos hfd]
  · cases silent with
    | false =>
      have hloud : ¬ (false = true ∧ (fd = 1 ∨ fd = 2)) := fun h => Bool.noConfusion h.1
      rw [if_neg hloud, Bool.false_or]
    | true =>
      by_cases hzero : fd = 0
      · subst hzero
        have hstdin : ¬ (true = true ∧ (0 = 1 ∨ 0 = 2)) := by omega
        rw [if_neg hstdin]
        cases quiet <;> rfl
      · rw [if_pos ⟨rfl, by omega⟩, streamOf, if_neg hfd, if_pos ⟨rfl, hzero⟩]

/-- **Streams over runs of the stack.** -/
theorem StackRun.streams {rootFs : Option Fat32} {stack : List Member} {trace : List Event}
    (run : StackRun rootFs stack trace) :
    ∀ member ∈ stack, ∀ fd,
      member.process.resolveFd fd = streamOf (silenced trace member.process.id) fd := by
  induction run with
  | start boots =>
    intro member hmember fd
    obtain rfl := List.mem_singleton.mp hmember
    by_cases hfd : 3 ≤ fd
    · rw [Process.resolveFd_ge hfd, streamOf, if_pos hfd]
    · rw [boots.streams fd (Nat.lt_of_not_le hfd), streamOf, if_neg hfd]
      rfl
  | @step stack stack' trace events run effect ih =>
    rw [silenced_append]
    cases effect with
    | quiet => exact ih
    | @spawned parent child rest program inherited silent inherits waits fresh =>
      intro member hmember fd
      obtain rfl | hmember := List.mem_cons.mp hmember
      · have hinherits : member.process.resolveFd fd = Process.childFd parent.process silent fd := by
          rw [waits]
          exact inherits.fds fd
        rw [hinherits, childFd_eq_streamOf silent fd (ih parent List.mem_cons_self fd)]
        exact congrArg (streamOf · fd) (if_pos rfl).symm
      · rw [ih member hmember fd]
        exact congrArg (streamOf · fd) (if_neg (fresh member hmember).1).symm
    | exited => exact fun member hmember => ih member (List.mem_cons_of_mem _ hmember)
    | @called top rest call result pr own =>
      intro member hmember fd
      obtain rfl | hmember := List.mem_cons.mp hmember
      · dsimp only
        rw [own.resolveFd, own.id]
        exact ih top List.mem_cons_self fd
      · exact ih member (List.mem_cons_of_mem _ hmember) fd
    | wrote => exact ih

/-! ## Writes -/

/-- The null object takes everything. -/
theorem writeFrom_null (buffer : List UInt8) (written : Nat) (c : Console) :
    Process.writeFrom .null buffer written c = (written + buffer.length, c) := by
  induction buffer generalizing written with
  | nil => rfl
  | cons byte rest ih =>
    rw [Process.writeFrom]
    dsimp only [KernelObject.writeByte]
    rw [ih, List.length_cons, Nat.add_right_comm, Nat.add_assoc]

/-- A silenced process writes into nothing, but for stdin. -/
theorem write_of_silenced {pr : Process} {fd : Nat} (hfd : fd ≠ 0)
    (h : pr.resolveFd fd = streamOf true fd) (buffer : List UInt8) (c : Console) :
    pr.write fd buffer c = (if fd = 1 ∨ fd = 2 then buffer.length else 0, c) := by
  rw [Process.write, h, streamOf]
  by_cases hge : 3 ≤ fd
  · rw [if_pos hge, if_neg (by omega)]
  · rw [if_neg hge, if_pos ⟨rfl, hfd⟩, if_pos (by omega)]
    dsimp only
    rw [writeFrom_null, Nat.zero_add]

/-- **Silent spawns over whole runs.** A process that was spawned silently, or has such an
ancestor, reaches no terminal by writing to any descriptor but stdin: writes to 1 and 2 report
full success, writes to others nothing, and the machine is unchanged. Every other user process
has the bootstrap terminal at 0, 1 and 2. -/
theorem silent_spawns_stay_silent {boot : Boot} {m : Machine} {trace : List Event}
    (run : Run boot m trace) :
    (∀ p pr, UserProcess m.scheduler p pr → silenced trace p = true →
      ∀ fd, fd ≠ 0 → ∀ t th, m.scheduler.currentThread = some t →
        m.scheduler.thread? t = some th → th.processId = p →
        ∀ buffer, step boot.rootFs (.write fd buffer) m = .ok
          [.wrote p fd (pr.resolveFd fd) buffer (if fd = 1 ∨ fd = 2 then buffer.length else 0)]
            m) ∧
    (∀ p pr, UserProcess m.scheduler p pr → silenced trace p = false →
      ∀ fd < 3, pr.resolveFd fd = some (.terminalEndpoint primaryEndpoint)) := by
  obtain ⟨c, hsteady, hrun⟩ := run.stackRun
  constructor
  · intro p pr huser hquiet fd hfd t th hcurrent hth howner buffer
    obtain ⟨htop, rfl⟩ := hsteady.top_of_userProcess huser hcurrent hth howner
    obtain ⟨rfl, -⟩ := hsteady.inv.userProcess_iff.mp huser
    have hfds := hrun.streams ⟨c.top.process, c.top.thread.id⟩ List.mem_cons_self fd
    dsimp only at hfds
    rw [hquiet] at hfds
    rw [step, Steady.writeCall_eq hsteady.inv htop, write_of_silenced hfd hfds]
  · intro p pr huser hloud fd hfd
    obtain ⟨rfl, member, hmember, rfl⟩ := hsteady.inv.userProcess_iff.mp huser
    rw [hrun.streams member hmember fd, hloud, streamOf, if_neg (by omega)]
    rfl

/-- A silenced grandchild. -/
theorem silent_spawns_stay_silent_nested :
    ∃ r, sampleBoot.exec [.yieldNow, sampleSpawn true, sampleSpawn false] = some r ∧
      silenced r.2 3 = true ∧
      ∀ p pr, UserProcess r.1.scheduler p pr → silenced r.2 p = false →
        ∀ fd < 3, pr.resolveFd fd = some (.terminalEndpoint primaryEndpoint) := by
  obtain ⟨r, hr⟩ := Option.isSome_iff_exists.mp (by decide +kernel :
    (sampleBoot.exec [.yieldNow, sampleSpawn true, sampleSpawn false]).isSome = true)
  have hquiet : ((sampleBoot.exec [.yieldNow, sampleSpawn true, sampleSpawn false]).map
      fun r => silenced r.2 3) = some true := by decide +kernel
  rw [hr] at hquiet
  exact ⟨r, hr, Option.some.inj hquiet, (silent_spawns_stay_silent (run_of_exec hr)).2⟩

/-- **Stdin of a silent child**: a write to it puts a byte into the terminal's output queue. -/
theorem silent_stdin_writes :
    ((sampleBoot.exec [.yieldNow, sampleSpawn true]).map fun r =>
      (silenced r.2 2, (r.1.console.endpoints primaryEndpoint).output.len)) = some (true, 0) ∧
    ((sampleBoot.exec [.yieldNow, sampleSpawn true, .write 0 [97]]).map fun r =>
      (silenced r.2 2, (r.1.console.endpoints primaryEndpoint).output.len)) = some (true, 1) ∧
    ¬ ∀ boot m trace, Run boot m trace → ∀ p pr, UserProcess m.scheduler p pr →
      silenced trace p = true → ∀ t th, m.scheduler.currentThread = some t →
        m.scheduler.thread? t = some th → th.processId = p →
        ∀ fd buffer events m', step boot.rootFs (.write fd buffer) m = .ok events m' →
          (m'.console.endpoints primaryEndpoint).output =
            (m.console.endpoints primaryEndpoint).output := by
  refine ⟨by decide +kernel, by decide +kernel, fun hclaim => ?_⟩
  obtain ⟨r, hr⟩ := Option.isSome_iff_exists.mp (by decide +kernel :
    (sampleBoot.exec [.yieldNow, sampleSpawn true]).isSome = true)
  -- The child is process 2 with thread 3, and current.
  have hfacts : ((sampleBoot.exec [.yieldNow, sampleSpawn true]).map fun r =>
      (silenced r.2 2, r.1.scheduler.currentThread, (r.1.scheduler.process? 2).isSome,
        (r.1.scheduler.thread? 3).map fun th => (th.processId, th.start))) =
      some (true, some 3, true, some (2, .user 0x400000 0x7ffff000)) := by decide +kernel
  have hwrites : ((sampleBoot.exec [.yieldNow, sampleSpawn true]).map fun r =>
      ((r.1.console.endpoints primaryEndpoint).output.len,
        (sampleBoot.execCall r (.write 0 [97])).map fun r' =>
          (r'.1.console.endpoints primaryEndpoint).output.len)) = some (0, some 1) := by
    decide +kernel
  rw [hr] at hfacts hwrites
  simp only [Option.map_some, Option.some.injEq, Prod.mk.injEq] at hfacts hwrites
  obtain ⟨hquiet, hcurrent, hsome, hthread⟩ := hfacts
  obtain ⟨pr, hpr⟩ := Option.isSome_iff_exists.mp hsome
  obtain ⟨th, hth, hstart⟩ := Option.map_eq_some_iff.mp hthread
  rw [Prod.mk.injEq] at hstart
  obtain ⟨hbefore, hafter⟩ := hwrites
  obtain ⟨r', hcall, hafter⟩ := Option.map_eq_some_iff.mp hafter
  obtain ⟨events, -, hstep, -⟩ := step_of_execCall hcall
  have huser : UserProcess r.1.scheduler 2 pr := ⟨hpr, 3, th, _, _, hth, hstart.1, hstart.2⟩
  have hsame := hclaim _ _ _ (run_of_exec hr) 2 pr huser hquiet 3 th hcurrent hth hstart.1 0
    [97] events r'.1 hstep
  rw [hsame, hbefore] at hafter
  cases hafter

end Lazers.Scheduler
